import Mathlib
import ThreatModel.Proofs.History
import ThreatModel.Proofs.Registry

/-!
# `Proofs.FirstWrite` — the first record under a name stays

Declarations, relations and libraries all offer records under names, and a name keeps the first record that it
gets. What an update offers is put behind what is there, so after a whole history a name has the record it had at
the start, or else the one that the earliest step offers, in the run that is current at that step.

## Contents

* `Registry.record?` — the record under a name, with all its parts.
* `EntityKind.first` — the record of a name that is new.
* `record?_declare`, `record?_absorb`, `record?_mentionAll` — updates of a registry.
* `Occurrence.declares?`, `Occurrence.refersTo`, `Block.offer?`, `Event.offer?` — what is offered under a name.
* `Event.run?`, `current` — the run at a step of a history.
* `findSome?_parse` — in a block the declarations come first.
* `record_after` — the record under a name after a history.
-/

namespace ThreatModel

open Directive

/-! ## Records -/

/-- The record of an entity that has no places in the hierarchy. -/
def Entity.unplaced (entity : Entity) : Component := { entity with paths := [] }

/-- The record under a name, with all its parts; only components have places. -/
def Registry.record? (r : Registry) (kind : EntityKind) (name : String) : Option Component :=
  match kind with
  | .component => r.components.get? name
  | .control => (r.controls.get? name).map Entity.unplaced
  | .threat => (r.threats.get? name).map Entity.unplaced

/-- The record that a name gets in a run, if it is new. A component with a colon in its name stands below the
segments of the name that come before the last one. -/
def EntityKind.first (kind : EntityKind) (runId name description : String) : Component where
  id := name
  runId := runId
  name := name
  description := description
  custom := {}
  paths := if kind = .component ∧ ':' ∈ name.toList then [Component.parents name] else []

/-! ## Updates of a registry -/

/-- A new value is put behind the one that is there. -/
theorem NameMap.get?_insertNew_or {α : Type} (m : NameMap α) (name : String) (value : α) (key : String) :
    (m.insertNew name value).get? key = (m.get? key).or (if key = name then some value else none) := by
  rw [get?_insertNew]
  by_cases h : key = name
  · subst h
    rw [if_pos rfl, if_pos rfl]
    cases m.get? key <;> rfl
  · rw [if_neg h, if_neg h, Option.or_none]

theorem Component.fresh_eq (runId name : String) (description : Option String) :
    fresh runId name description = EntityKind.component.first runId name (description.getD "") := by
  have hpaths : (if parents name = [] then [] else [parents name])
      = if EntityKind.component = .component ∧ ':' ∈ name.toList then [parents name] else [] := by
    by_cases hcolon : ':' ∈ name.toList
    · have hne : parents name ≠ [] := fun hnil => (parents_eq_nil_iff name).mp hnil hcolon
      rw [if_neg hne, if_pos ⟨rfl, hcolon⟩]
    · have hnot : ¬(EntityKind.component = .component ∧ ':' ∈ name.toList) := fun h => hcolon h.2
      rw [if_pos ((parents_eq_nil_iff name).mpr hcolon), if_neg hnot]
  rw [fresh, hpaths]
  rfl

theorem Entity.unplaced_fresh (kind : EntityKind) (hkind : kind ≠ .component) (runId name : String)
    (description : Option String) :
    (fresh runId name description).unplaced = kind.first runId name (description.getD "") := by
  rw [EntityKind.first, if_neg fun h => hkind h.1]
  rfl

namespace Registry

/-- A declaration offers a record under its name. -/
theorem record?_declare (r : Registry) (kind : EntityKind) (name : String) (description : Option String)
    (other : EntityKind) (key : String) :
    (r.declare kind name description).record? other key
      = (r.record? other key).or
          (if other = kind ∧ key = name then some (other.first r.runId key (description.getD "")) else none) := by
  by_cases hkind : other = kind
  · subst hkind
    -- The name alone decides, and the record is the one that the registry makes.
    have hname : (if other = other ∧ key = name then some (other.first r.runId key (description.getD "")) else none)
        = if key = name then some (other.first r.runId name (description.getD "")) else none := by
      by_cases h : key = name
      · rw [if_pos ⟨rfl, h⟩, if_pos h, h]
      · rw [if_neg fun hboth => h hboth.2, if_neg h]
    rw [hname]
    cases other with
    | component => rw [← Component.fresh_eq]; exact NameMap.get?_insertNew_or _ _ _ _
    | control =>
      rw [← Entity.unplaced_fresh .control (by decide), declare, record?, NameMap.get?_insertNew_or, Option.map_or,
        Option.map_if]
      rfl
    | threat =>
      rw [← Entity.unplaced_fresh .threat (by decide), declare, record?, NameMap.get?_insertNew_or, Option.map_or,
        Option.map_if]
      rfl
  · rw [if_neg fun h => hkind h.1, Option.or_none]
    cases kind <;> cases other <;> first | rfl | exact absurd rfl hkind

/-- A library offers its own records. -/
theorem record?_absorb (r library : Registry) (kind : EntityKind) (name : String) :
    (r.absorb library).record? kind name = (r.record? kind name).or (library.record? kind name) := by
  cases kind with
  | component => exact NameMap.get?_mergeMissing _ _ _
  | control => rw [record?, absorb, NameMap.get?_mergeMissing, Option.map_or]; rfl
  | threat => rw [record?, absorb, NameMap.get?_mergeMissing, Option.map_or]; rfl

/-- Mentions offer records without description. -/
theorem record?_mentionAll (r : Registry) (references : List (EntityKind × String)) (kind : EntityKind)
    (name : String) :
    (r.mentionAll references).record? kind name
      = (r.record? kind name).or
          (if (kind, name) ∈ references then some (kind.first r.runId name "") else none) := by
  induction references generalizing r with
  | nil => simp [mentionAll]
  | cons reference more ih =>
    rw [mentionAll_cons, ih, mention, record?_declare, runId_declare, Option.or_assoc]
    congr 1
    by_cases hfirst : kind = reference.1 ∧ name = reference.2
    · rw [if_pos hfirst, if_pos (List.mem_cons.mpr (Or.inl (Prod.ext hfirst.1 hfirst.2)))]
      rfl
    · have hmem : (kind, name) ∈ reference :: more ↔ (kind, name) ∈ more := by
        rw [List.mem_cons, Prod.ext_iff]
        exact or_iff_right hfirst
      rw [if_neg hfirst, Option.none_or]
      simp only [hmem]

end Registry

/-! ## What is offered under a name -/

namespace Directive.Occurrence

/-- The description under which a directive declares a name. -/
def declares? (o : Occurrence) (kind : EntityKind) (name : String) : Option String :=
  match o.statement with
  | .declaration other key description =>
    if kind = other ∧ name = key then some (description.getD "") else none
  | .relation _ => none

/-- Whether a directive states a relation that uses a name. -/
def refersTo (o : Occurrence) (kind : EntityKind) (name : String) : Bool :=
  match o.statement with
  | .declaration _ _ _ => false
  | .relation r => r.references.contains (kind, name)

/-- The record that a directive offers under a name. -/
def offer? (o : Occurrence) (runId : String) (kind : EntityKind) (name : String) : Option Component :=
  ((o.declares? kind name).map fun description => kind.first runId name description).or
    (if o.refersTo kind name then some (kind.first runId name "") else none)

end Directive.Occurrence

/-- The record that a block offers under a name: the first declaration of the name counts, wherever in the block it
stands; without one the record has no description. -/
def Block.offer? (block : Block) (runId : String) (kind : EntityKind) (name : String) : Option Component :=
  let directives := inTextOrder block.text.toList
  match directives.findSome? (·.declares? kind name) with
  | some description => some (kind.first runId name description)
  | none => if directives.any (·.refersTo kind name) then some (kind.first runId name "") else none

/-- The record that a step offers under a name in a run. A library offers its record as it is. -/
def Graph.Event.offer? (runId : String) (kind : EntityKind) (name : String) : Event → Option Component
  | .parse block | .merge block => block.offer? runId kind name
  | .startRun _ => none
  | .importLibrary library => library.record? kind name

/-! ## Runs -/

namespace Graph

/-- The run that a step starts. -/
def Event.run? : Event → Option String
  | .startRun runId => some runId
  | .parse _ | .merge _ | .importLibrary _ => none

/-- The run after a history: the one started last, or the one at the start. -/
def current (runId : String) (events : List Event) : String := (events.filterMap Event.run?).getLast?.getD runId

theorem current_nil (runId : String) : current runId [] = runId := rfl

/-- The first step of a history makes the run that the others start with. -/
theorem current_cons (runId : String) (event : Event) (events : List Event) :
    current runId (event :: events) = current (event.run?.getD runId) events := by
  unfold current
  cases hrun : event.run? with
  | none => rw [List.filterMap_cons_none hrun, Option.getD_none]
  | some other => rw [List.filterMap_cons_some hrun, List.getLast?_cons, Option.getD_some, Option.getD_some]

end Graph

/-! ## Declarations come first -/

/-- The family whose directives declare entities of a kind. -/
def EntityKind.family : EntityKind → Family
  | .component => .component
  | .control => .control
  | .threat => .threat

namespace Directive

/-! ### Searching a list -/

/-- What the head offers is put before what the others offer. -/
theorem findSome?_cons_or {α β : Type} (f : α → Option β) (x : α) (xs : List α) :
    (x :: xs).findSome? f = (f x).or (xs.findSome? f) := by
  rw [List.findSome?_cons]
  cases f x <;> rfl

/-- Whatever is found first is found among the elements in which anything can be found. -/
theorem findSome?_filter {α β : Type} {f : α → Option β} {p : α → Bool} {xs : List α}
    (h : ∀ x ∈ xs, f x ≠ none → p x = true) : (xs.filter p).findSome? f = xs.findSome? f := by
  rw [← List.head?_filterMap, List.filterMap_filter, ← List.head?_filterMap]
  congr 1
  apply List.filterMap_congr
  intro x hx
  by_cases hp : p x = true
  · rw [if_pos hp]
  · rw [if_neg hp]
    by_contra hne
    exact hp (h x hx (Ne.symm hne))

/-- Of offers that are all the same one is enough. -/
theorem findSome?_ite {α β : Type} (p : α → Bool) (b : β) (xs : List α) :
    (xs.findSome? fun x => if p x then some b else none) = if xs.any p then some b else none := by
  induction xs with
  | nil => rfl
  | cons x rest ih =>
    rw [findSome?_cons_or, ih, List.any_cons]
    by_cases h : p x = true
    · rw [if_pos h, h, Bool.true_or, if_pos rfl, Option.some_or]
    · rw [if_neg h, eq_false_of_ne_true h, Bool.false_or, Option.none_or]

/-! ### Which directives offer what -/

variable {o : Occurrence} {kind : EntityKind} {name : String}

/-- Names are declared by the directives of the family for their kind. -/
theorem family_of_declares? (hstated : o.statement.family = o.family) (h : o.declares? kind name ≠ none) :
    o.family = kind.family := by
  rw [← hstated]
  unfold Occurrence.declares? at h
  split at h
  · next other key description heq =>
    rw [heq]
    split at h
    · next hboth =>
      rw [hboth.1]
      cases other <;> rfl
    · exact absurd rfl h
  · exact absurd rfl h

/-- Names are referred to by directives that are no declarations. -/
theorem not_isDeclaration_of_refersTo (hstated : o.statement.family = o.family)
    (h : o.refersTo kind name = true) : o.family.isDeclaration = false := by
  rw [← hstated]
  unfold Occurrence.refersTo at h
  split at h
  · cases h
  · next r heq =>
    rw [heq]
    cases r <;> rfl

theorem isDeclaration_of_declares? (hstated : o.statement.family = o.family)
    (h : o.declares? kind name ≠ none) : o.family.isDeclaration = true := by
  rw [family_of_declares? hstated h]
  cases kind <;> rfl

/-- The first declaration of a name in a listing is the first one in the text, because the declarations of a kind are
listed in the order of the text. -/
theorem declares?_declared (text : List Char) (kind : EntityKind) (name : String) :
    (declared text).findSome? (·.declares? kind name) = (inTextOrder text).findSome? (·.declares? kind name) := by
  have hparse : ∀ o ∈ parse text, o.statement.family = o.family := fun o ho => (statement_of_mem_parse ho).1
  have hfound : ∀ o ∈ inTextOrder text, o.statement.family = o.family := fun o ho =>
    hparse o ((parse_perm_inTextOrder text).mem_iff.mpr ho)
  rw [declared, findSome?_filter fun o ho => isDeclaration_of_declares? (hparse o ho),
    ← findSome?_filter (p := (·.family = kind.family)), filter_family_parse, findSome?_filter]
  · exact fun o ho h => decide_eq_true (family_of_declares? (hfound o ho) h)
  · exact fun o ho h => decide_eq_true (family_of_declares? (hparse o ho) h)

/-- What the declarations of a text offer under a name. -/
theorem findSome?_declared (text : List Char) (runId : String) (kind : EntityKind) (name : String) :
    (declared text).findSome? (·.offer? runId kind name)
      = ((inTextOrder text).findSome? (·.declares? kind name)).map (kind.first runId name) := by
  have hparse : ∀ o ∈ parse text, o.statement.family = o.family := fun o ho => (statement_of_mem_parse ho).1
  -- A declaration refers to nothing.
  have hoffer : ∀ o ∈ declared text, o.offer? runId kind name
      = (Option.map (kind.first runId name) ∘ (·.declares? kind name)) o := by
    intro o ho
    obtain ⟨ho, hdeclaration⟩ := List.mem_filter.mp ho
    have hnot : ¬o.refersTo kind name = true := by
      intro hrefers
      rw [not_isDeclaration_of_refersTo (hparse o ho) hrefers] at hdeclaration
      cases hdeclaration
    rw [Occurrence.offer?, if_neg hnot, Option.or_none]
    rfl
  rw [findSome?_congr hoffer, ← List.map_findSome?, declares?_declared]

/-- What the other directives of a text offer under a name. -/
theorem findSome?_related (text : List Char) (runId : String) (kind : EntityKind) (name : String) :
    (related text).findSome? (·.offer? runId kind name)
      = if (inTextOrder text).any (·.refersTo kind name) then some (kind.first runId name "") else none := by
  have hparse : ∀ o ∈ parse text, o.statement.family = o.family := fun o ho => (statement_of_mem_parse ho).1
  have hoffer : ∀ o ∈ related text, o.offer? runId kind name
      = if o.refersTo kind name then some (kind.first runId name "") else none := by
    intro o ho
    obtain ⟨ho, hrelation⟩ := List.mem_filter.mp ho
    have hnone : o.declares? kind name = none := by
      by_contra hne
      rw [isDeclaration_of_declares? (hparse o ho) hne] at hrelation
      cases hrelation
    rw [Occurrence.offer?, hnone, Option.map_none, Option.none_or]
  -- All of them offer the same record, so their order does not matter.
  have hany : (related text).any (·.refersTo kind name) = (inTextOrder text).any (·.refersTo kind name) := by
    rw [← (parse_perm_inTextOrder text).any_eq, Bool.eq_iff_iff, List.any_eq_true, List.any_eq_true]
    constructor
    · rintro ⟨o, ho, hrefers⟩
      exact ⟨o, List.mem_of_mem_filter ho, hrefers⟩
    · rintro ⟨o, ho, hrefers⟩
      refine ⟨o, List.mem_filter.mpr ⟨ho, ?_⟩, hrefers⟩
      rw [not_isDeclaration_of_refersTo (hparse o ho) hrefers]
      rfl
  rw [findSome?_congr hoffer, findSome?_ite, hany]

/-- **In a block the declarations come first**: what its listing offers under a name is what the first declaration
of the name offers, or else what any relation offers that uses the name. -/
theorem findSome?_parse (block : Block) (runId : String) (kind : EntityKind) (name : String) :
    (parse block.text.toList).findSome? (·.offer? runId kind name) = block.offer? runId kind name := by
  rw [parse_eq_append, List.findSome?_append, findSome?_declared, findSome?_related, Block.offer?]
  cases (inTextOrder block.text.toList).findSome? (·.declares? kind name) <;> rfl

end Directive

/-! ## Histories -/

namespace Graph

variable {g : Graph}

/-- A directive offers its record in the run that the registry is in, and leaves the run as it is. -/
theorem record?_apply (g : Graph) (location : Option Location) (o : Occurrence) (kind : EntityKind) (name : String) :
    (g.apply location o).registry.record? kind name
      = (g.registry.record? kind name).or (o.offer? g.registry.runId kind name) := by
  unfold apply Occurrence.offer? Occurrence.declares? Occurrence.refersTo
  cases o.statement with
  | declaration other key description =>
    simp only [Registry.record?_declare, Option.map_if, Bool.false_eq_true, if_false, Option.or_none]
  | relation r =>
    simp only [append, Registry.record?_mentionAll, Relation.references_withSource, Option.map_none, Option.none_or,
      List.contains_iff_mem]

theorem runId_apply (g : Graph) (location : Option Location) (o : Occurrence) :
    (g.apply location o).registry.runId = g.registry.runId ∧ (g.apply location o).runId = g.runId := by
  unfold apply
  cases o.statement with
  | declaration kind name description => exact ⟨Registry.runId_declare _ _ _ _, rfl⟩
  | relation r => exact ⟨Registry.runId_mentionAll _ _, rfl⟩

/-- Directives offer their records one after the other. -/
theorem record?_foldl_apply (location : Option Location) (occurrences : List Occurrence) (g : Graph)
    (kind : EntityKind) (name : String) :
    (occurrences.foldl (fun g o => g.apply location o) g).registry.record? kind name
      = (g.registry.record? kind name).or (occurrences.findSome? (·.offer? g.registry.runId kind name)) := by
  induction occurrences generalizing g with
  | nil => rw [List.foldl_nil, List.findSome?_nil, Option.or_none]
  | cons o rest ih =>
    rw [List.foldl_cons, ih, record?_apply, (runId_apply g location o).1, Option.or_assoc, findSome?_cons_or]

theorem runId_foldl_apply (location : Option Location) (occurrences : List Occurrence) (g : Graph) :
    (occurrences.foldl (fun g o => g.apply location o) g).registry.runId = g.registry.runId ∧
    (occurrences.foldl (fun g o => g.apply location o) g).runId = g.runId := by
  induction occurrences generalizing g with
  | nil => exact ⟨rfl, rfl⟩
  | cons o rest ih =>
    obtain ⟨hregistry, hrun⟩ := runId_apply g location o
    rw [List.foldl_cons, (ih _).1, (ih _).2]
    exact ⟨hregistry, hrun⟩

/-- **One step** puts what it offers behind what is there. -/
theorem record?_step (g : Graph) (event : Event) (kind : EntityKind) (name : String) :
    (g.step event).registry.record? kind name
      = (g.registry.record? kind name).or (event.offer? g.registry.runId kind name) := by
  cases event with
  | parse block | merge block =>
    rw [(step_block rfl g).1, record?_foldl_apply, findSome?_parse]
    rfl
  | startRun runId =>
    rw [Event.offer?, Option.or_none]
    cases kind <;> rfl
  | importLibrary library => exact Registry.record?_absorb _ _ _ _

/-- A step leaves the run as it is, or starts another one, and the registry goes along. -/
theorem runId_step (h : g.registry.runId = g.runId) (event : Event) :
    (g.step event).runId = event.run?.getD g.runId ∧ (g.step event).registry.runId = (g.step event).runId := by
  cases event with
  | parse block | merge block =>
    rw [(step_block rfl g).1, (runId_foldl_apply _ _ g).1, (runId_foldl_apply _ _ g).2]
    exact ⟨rfl, h⟩
  | startRun runId => exact ⟨rfl, rfl⟩
  | importLibrary library => exact ⟨rfl, h⟩

/-- What a history offers under a name: at every step the run is the one that was started last before it. -/
theorem record?_after (h : g.registry.runId = g.runId) (events : List Event) (kind : EntityKind) (name : String) :
    (g.after events).registry.record? kind name
      = (g.registry.record? kind name).or
          (events.zipIdx.findSome? fun (event, i) => event.offer? (current g.runId (events.take i)) kind name) := by
  induction events generalizing g with
  | nil => rw [after_nil, List.zipIdx_nil, List.findSome?_nil, Option.or_none]
  | cons event events ih =>
    -- The first step is taken in the run of the start; every other one stands one place later in the history.
    obtain ⟨hrun, hregistry⟩ := runId_step h event
    rw [after_cons, ih hregistry, record?_step, Option.or_assoc, List.zipIdx_cons, findSome?_cons_or,
      List.zipIdx_succ, List.findSome?_map, h, hrun]
    simp only [List.take_zero, current_nil, Function.comp_def, List.take_succ_cons, current_cons]

/-- **The first record under a name stays.** After a history a name has the record that it had at the start, and
else the record that the earliest step offers that offers any, in the run that was started last before that step: a
block offers the record of its first declaration of the name, or a record without description if only its relations
use the name, and a library offers its own record. Without any offer there is no record. -/
theorem record_after (runId : String) (registry : Registry) (relations : Relations) (events : List Event)
    (kind : EntityKind) (name : String) :
    ((ofParts runId registry relations).after events).registry.record? kind name
      = (registry.record? kind name).or (events.zipIdx.findSome? fun (event, i) =>
          event.offer? (current runId (events.take i)) kind name) := by
  have hstart : (ofParts runId registry relations).registry.record? kind name = registry.record? kind name := by
    cases kind <;> rfl
  have hafter := record?_after (rfl : (ofParts runId registry relations).registry.runId = _) events kind name
  rwa [hstart] at hafter

end Graph
end ThreatModel
