import Mathlib
import ThreatModel.Proofs.Directive.Relation

/-!
# `Proofs.Directive.Statement` — what the directives of a family say

A directive says what its family is for, and nothing else: a declaration is of the kind that its keyword names, and
a relation is of the sort that its keyword states, holds the fields of the directive, and has nothing beside them.

## Contents

* `Relation.withAnnex` — a relation with another part at its end, and `Statement.bare`.
* `Statement.family`, `Statement.fields` — the family whose directives make a statement, and what they have to say.
* `ofFields?_eq_some` — the statement that fields make.
* `statement_of_occurrence?`, `statement_of_mem_parse` — the statements of the directives that are found.
-/

namespace ThreatModel

/-! ## Relations and what they end with -/

/-- The relation with another part at its end. -/
def Relation.withAnnex (annex : Annex) : Relation → Relation
  | .mitigation m => .mitigation { m with toAnnex := annex }
  | .acceptance a => .acceptance { a with toAnnex := annex }
  | .exposure e => .exposure { e with toAnnex := annex }
  | .transfer t => .transfer { t with toAnnex := annex }
  | .connection c => .connection { c with toAnnex := annex }
  | .review r => .review { r with toAnnex := annex }
  | .test t => .test { t with toAnnex := annex }

namespace Relation

variable {r : Relation}

theorem withAnnex_annex (r : Relation) : r.withAnnex r.annex = r := by
  cases r <;> rfl

@[simp] theorem family_withAnnex (annex : Annex) (r : Relation) : (r.withAnnex annex).family = r.family := by
  cases r <;> rfl

/-- A new provenance replaces no other part of what the relation ends with. -/
theorem withSource_eq (source : Source) (r : Relation) :
    r.withSource source = r.withAnnex { r.annex with source } := by
  cases r <;> rfl

end Relation

namespace Directive

namespace Statement

/-! ## What a statement is made of -/

/-- The family whose directives make a statement. -/
def family : Statement → Family
  | .declaration .component _ _ => .component
  | .declaration .control _ _ => .control
  | .declaration .threat _ _ => .threat
  | .relation r => r.family

/-- What a directive has to say to make a statement, in the order in which it says it. -/
def fields : Statement → List String
  | .declaration _ name none => [name]
  | .declaration _ name (some description) => [name, description]
  | .relation r => r.fields

/-- The statement without anything that a directive cannot say. -/
def bare : Statement → Statement
  | .declaration kind name description => .declaration kind name description
  | .relation r => .relation (r.withAnnex {})

/-- A statement of a family of relations is a relation of that family. -/
theorem exists_relation {s : Statement} (h : s.family ∈ Family.relations) :
    ∃ r, s = .relation r ∧ r.family = s.family := by
  cases s with
  | declaration kind name description => cases kind <;> simp [family, Family.relations] at h
  | relation r => exact ⟨r, rfl, rfl⟩

/-! ## The statement that fields make -/

/-- A relation is made of fields as its family has them, and of nothing else. -/
theorem related?_family {family : Family} {words : List (List Char)} {fields : List String} {r : Relation}
    (h : related? family words fields = some r) : r.family = family ∧ r.fields = fields ∧ r.annex = {} := by
  unfold related? at h
  split at h
  · cases h
  · split at h
    case h_5 =>
      -- A connection also needs a direction.
      obtain ⟨direction, -, rfl⟩ := Option.map_eq_some_iff.mp h
      exact ⟨rfl, rfl, rfl⟩
    case h_8 => cases h
    all_goals
      obtain rfl := Option.some.inj h
      exact ⟨rfl, rfl, rfl⟩

/-- A declaration is of the given kind. -/
theorem declared?_eq_some {kind : EntityKind} {fields : List String} {s : Statement}
    (h : declared? kind fields = some s) : ∃ name description, s = .declaration kind name description := by
  unfold declared? at h
  split at h
  · split at h
    · cases h
    · exact ⟨_, _, (Option.some.inj h).symm⟩
  · split at h
    · cases h
    · exact ⟨_, _, (Option.some.inj h).symm⟩
  · cases h

/-- **What fields say** is a statement of their family, with nothing that a directive cannot say. -/
theorem ofFields?_eq_some {family : Family} {words fields : List (List Char)} {s : Statement}
    (h : ofFields? family words fields = some s) : s.family = family ∧ s.bare = s := by
  cases family with
  | component | control | threat =>
    obtain ⟨name, description, rfl⟩ := declared?_eq_some h
    exact ⟨rfl, rfl⟩
  | mitigate | accept | transfer | expose | connect | review | test =>
    obtain ⟨r, hr, rfl⟩ := Option.map_eq_some_iff.mp h
    obtain ⟨hfamily, -, hannex⟩ := related?_family hr
    refine ⟨hfamily, ?_⟩
    rw [bare, ← hannex, Relation.withAnnex_annex]

end Statement

/-! ## The statements of what is found -/

theorem statement_of_occurrence? {line : Nat} {segment : List Char} {o : Occurrence}
    (h : occurrence? line segment = some o) : o.statement.family = o.family ∧ o.statement.bare = o.statement := by
  obtain ⟨body, phrase, -, -, -, hstatement, -, -⟩ := occurrence?_eq_some_iff.mp h
  exact Statement.ofFields?_eq_some hstatement

/-- **Every directive of a text** makes a statement of its family, with nothing that a directive cannot say. -/
theorem statement_of_mem_parse {text : List Char} {o : Occurrence} (h : o ∈ parse text) :
    o.statement.family = o.family ∧ o.statement.bare = o.statement := by
  have hfound := (parse_perm text).mem_iff.mp h
  obtain ⟨⟨line, number⟩, -, hline⟩ := List.mem_flatMap.mp hfound
  obtain ⟨segment, -, hsegment⟩ := List.mem_filterMap.mp hline
  exact statement_of_occurrence? hsegment

end Directive
end ThreatModel
