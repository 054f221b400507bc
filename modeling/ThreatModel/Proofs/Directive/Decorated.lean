import Mathlib
import ThreatModel.Proofs.Directive.LastField

/-!
# `Proofs.Directive.Decorated` — directives in comments

A directive says the same on a line of its own and inside a comment, with indentation, a marker before it and a
terminator behind it, as long as its last field is there. On a line that lacks the last field the terminator is taken
for it.

## Contents

* `Unfinished` — lines that lack the last field of their directive.
* `occurrence?_decorated` — the directive of a decorated segment.
* `ofFields?_last` — the statement made with another last field.
* `parse_decorated` — what decoration does to a line.
* `parse_unfinished_closed` — a line that lacks its last field, in a comment.
-/

namespace ThreatModel
namespace Directive

open Text

/-! ## Lines that lack a field -/

/-- The last field of the directive on a line. -/
def lastField? (line : List Char) : Option (List Char) := do
  let body ← directiveBody? line
  let family ← Family.ofKeyword? (body.takeWhile fun c => !isGap c)
  let phrase ← phrase? family.form (body.dropWhile fun c => !isGap c)
  phrase.fields.getLast?

/-- A line that lacks the last field of its directive: a word that is put behind it becomes this field. -/
def Unfinished (line : List Char) : Prop := lastField? (line ++ trial) = some ['x']

instance (line : List Char) : Decidable (Unfinished line) :=
  inferInstanceAs (Decidable (lastField? (line ++ trial) = some ['x']))

/-! ## The directive of a decorated segment -/

section Segment

variable {lead body tail : List Char}

theorem setOff_dropWhile (body : List Char) : SetOff (body.dropWhile fun c => !isGap c) := by
  intro c hc
  obtain ⟨rest, hrest⟩ := List.head?_eq_some_iff.mp hc
  simpa using not_of_dropWhile hrest

/-- What stands behind a line does not belong to its keyword. -/
theorem takeWhile_behind (body : List Char) (hsetOff : SetOff tail) :
    (body ++ tail).takeWhile (fun c => !isGap c) = body.takeWhile (fun c => !isGap c) ∧
    (body ++ tail).dropWhile (fun c => !isGap c) = body.dropWhile (fun c => !isGap c) ++ tail := by
  have hkeyword : ∀ c ∈ body.takeWhile (fun c => !isGap c), (!isGap c) = true := fun c hc =>
    List.mem_takeWhile_imp (p := fun c => !isGap c) hc
  have hrest : SetOff (body.dropWhile (fun c => !isGap c) ++ tail) := by
    cases hdrop : body.dropWhile fun c => !isGap c with
    | nil => exact hsetOff
    | cons c rest =>
      intro d hd
      exact setOff_dropWhile body d (by rw [hdrop]; exact hd)
  have hsplit : body ++ tail = body.takeWhile (fun c => !isGap c) ++ (body.dropWhile (fun c => !isGap c) ++ tail) := by
    rw [← List.append_assoc, List.takeWhile_append_dropWhile]
  rw [hsplit, List.takeWhile_append_of_pos hkeyword, List.dropWhile_append_of_pos hkeyword]
  cases hbehind : body.dropWhile (fun c => !isGap c) ++ tail with
  | nil => simp
  | cons c rest => simp [hrest c (by rw [hbehind]; rfl)]

/-- What is found in a decorated segment, stage by stage. -/
theorem occurrence?_decorated (line : Nat) (hlead : Lead lead) (hsetOff : SetOff tail) :
    occurrence? line (lead ++ '@' :: body ++ tail)
      = (Family.ofKeyword? (body.takeWhile fun c => !isGap c)).bind fun family =>
        (phrase? family.form ((body.dropWhile fun c => !isGap c) ++ tail)).bind fun phrase =>
          (Statement.ofFields? family phrase.words phrase.fields).bind fun statement =>
            some ⟨family, statement,
              String.ofList (trim ('@' :: (body ++ tail).take ((body ++ tail).length - phrase.tail.length))),
              line⟩ := by
  have hbody : directiveBody? (lead ++ '@' :: body ++ tail) = some (body ++ tail) :=
    directiveBody?_eq_some_iff.mpr ⟨lead, hlead, by simp⟩
  obtain ⟨hkeyword, htext⟩ := takeWhile_behind body hsetOff
  unfold occurrence?
  simp only [hbody, hkeyword, htext, Option.bind_eq_bind, Option.bind_some]
  rfl

/-- A line says the same with a tail behind it if its phrase stays the same. -/
theorem occurrence?_of_same (line : Nat) (hlead : Lead lead) (hsetOff : SetOff tail)
    (h : ∀ family, Family.ofKeyword? (body.takeWhile fun c => !isGap c) = some family → ∀ t ∈ [[], tail],
      phrase? family.form ((body.dropWhile fun c => !isGap c) ++ t)
        = (phrase? family.form (body.dropWhile fun c => !isGap c)).map fun phrase => { phrase with tail := t }) :
    occurrence? line (lead ++ '@' :: body ++ tail) = occurrence? line ('@' :: body) := by
  have hbare : occurrence? line ([] ++ '@' :: body ++ []) = _ := occurrence?_decorated line lead_nil (by decide)
  rw [List.nil_append, List.append_nil] at hbare
  rw [occurrence?_decorated line hlead hsetOff, hbare]
  cases hfamily : Family.ofKeyword? (body.takeWhile fun c => !isGap c) with
  | none => rfl
  | some family =>
    have hsame := h family hfamily
    rw [Option.bind_some, Option.bind_some, hsame tail (by simp), hsame [] (by simp)]
    cases phrase? family.form (body.dropWhile fun c => !isGap c) with
    | none => rfl
    | some phrase => simp

end Segment

/-! ## Another last field -/

/-- What a relation is made of tells whether it is made, not the text of its last field. -/
theorem isSome_related?_last {family : Family} {words : List (List Char)} {fields : List String} {a b : String}
    (ha : a ≠ "") (hb : b ≠ "") : (Statement.related? family words (fields ++ [a])).isSome
      = (Statement.related? family words (fields ++ [b])).isSome := by
  have hcontains : (fields ++ [a]).contains "" = (fields ++ [b]).contains "" := by
    simp [ha.symm, hb.symm]
  unfold Statement.related?
  rw [hcontains]
  split
  · rfl
  · rcases fields with _ | ⟨p, _ | ⟨q, _ | ⟨r, _ | ⟨s, rest⟩⟩⟩⟩ <;> cases family <;> simp
    -- Only a connection is left, which also needs a direction.
    cases words.head? with
    | none => rfl
    | some word =>
      rw [Option.bind_some, Option.bind_some]
      cases Direction.ofWord? (String.ofList word) <;> rfl

/-- With another last field the same is stated of it. -/
theorem ofFields?_last (family : Family) (words fields : List (List Char)) {x y : List Char} (hx : x ≠ [])
    (hy : y ≠ []) (htrimX : trim x = x) (htrimY : trim y = y) :
    (Statement.ofFields? family words (fields ++ [y])).map Statement.fields
      = (Statement.ofFields? family words (fields ++ [x])).map fun statement =>
        statement.fields.dropLast ++ [String.ofList y] := by
  have hx : String.ofList x ≠ "" := by simpa using hx
  have hy : String.ofList y ≠ "" := by simpa using hy
  simp only [Statement.ofFields?.eq_def, List.map_append, List.map_singleton, htrimX, htrimY]
  generalize fields.map (fun field => String.ofList (trim field)) = front
  generalize String.ofList x = a at hx ⊢
  generalize String.ofList y = b at hy ⊢
  have hdeclared : ∀ kind, (Statement.declared? kind (front ++ [b])).map Statement.fields
      = (Statement.declared? kind (front ++ [a])).map fun statement => statement.fields.dropLast ++ [b] := by
    intro kind
    rcases front with _ | ⟨name, _ | ⟨description, rest⟩⟩
    · simp [Statement.declared?, hx, hy, Statement.fields]
    · by_cases hname : name = ""
      · simp [Statement.declared?, hname]
      · simp [Statement.declared?, hname, hx, hy, Statement.fields]
    · simp [Statement.declared?]
  have hrelated : ((Statement.related? family words (front ++ [b])).map Statement.relation).map Statement.fields
      = ((Statement.related? family words (front ++ [a])).map Statement.relation).map fun statement =>
        statement.fields.dropLast ++ [b] := by
    have hsome : (Statement.related? family words (front ++ [a])).isSome
        = (Statement.related? family words (front ++ [b])).isSome := isSome_related?_last hx hy
    cases hb : Statement.related? family words (front ++ [b]) with
    | none =>
      rw [hb, Option.isSome_none, Option.isSome_eq_false_iff, Option.isNone_iff_eq_none] at hsome
      rw [hsome]
      rfl
    | some r =>
      rw [hb, Option.isSome_some, Option.isSome_iff_exists] at hsome
      obtain ⟨r', hr'⟩ := hsome
      have hfields := (Statement.related?_family hb).2.1
      have hfields' := (Statement.related?_family hr').2.1
      rw [hr']
      simp [Statement.fields, hfields, hfields']
  cases family with
  | component | control | threat => exact hdeclared _
  | mitigate | accept | transfer | expose | connect | review | test => exact hrelated

/-! ## Decorated lines -/

theorem parse_inline {line : List Char} (h : Inline line) : parse line = (occurrence? 0 line).toList :=
  parse_line_eq (fun hc => (h _ hc).1 rfl) (fun hc => (h _ hc).2 rfl)

theorem inline_trial : Inline trial := by decide

/-- The word of a trial is the last field. -/
theorem closing?_trial : closing? (trial.dropWhile isGap) = some (['x'], []) := by decide

/-- The terminator in a tail, or its beginning, is the first field in it. -/
theorem exists_closing?_tail {tail : List Char} (htail : Tail tail) (hgaps : ¬Gaps tail) :
    ∃ terminator mark rest, Terminator terminator ∧ Lone terminator tail ∧ terminator <:+: tail ∧ mark ≠ [] ∧
      mark <+: terminator ∧ closing? (tail.dropWhile isGap) = some (mark, rest) := by
  obtain ⟨before, terminator, after, hbefore, hafter, hterminator, rfl⟩ := htail
  have hterminator : Terminator terminator := by
    refine hterminator.resolve_left fun hnil => hgaps ?_
    rw [hnil, List.append_nil]
    exact hbefore.append hafter
  have hlone : Lone terminator (before ++ terminator ++ after) :=
    ⟨before, after, hbefore, hafter, hterminator.not_isGap, rfl⟩
  have hdrop : (before ++ terminator ++ after).dropWhile isGap = terminator ++ after := by
    rw [List.append_assoc, dropWhile_gaps_append hbefore,
      dropWhile_eq_self_of_forall hterminator.ne_nil hterminator.not_isGap]
  have htailAfter : Tail after := ⟨after, [], [], hafter, List.forall_mem_nil _, Or.inl rfl, by simp⟩
  obtain ⟨⟨mark, rest⟩, hclosing⟩ := exists_closing? hterminator.ne_nil htailAfter
  obtain ⟨hmark, heq, -, hshortest⟩ := closing?_eq_some hclosing
  have hle := hshortest terminator after hterminator.ne_nil rfl htailAfter
  refine ⟨terminator, mark, rest, hterminator, hlone, ⟨before, after, rfl⟩, hmark, ?_, by rw [hdrop, hclosing]⟩
  exact List.prefix_of_prefix_length_le ⟨rest, heq.symm⟩ (List.prefix_append _ _) hle

section Decorated

variable {lead body tail : List Char}

/-- The keyword of a line aside, its text ends as the line does. -/
theorem ends_dropWhile (hends : Ends ('@' :: body)) (hopen : Unclosed ('@' :: body)) :
    Ends (body.dropWhile fun c => !isGap c) ∧ Unclosed (body.dropWhile fun c => !isGap c) := by
  have hsplit : '@' :: body
      = '@' :: body.takeWhile (fun c => !isGap c) ++ body.dropWhile fun c => !isGap c := by
    rw [List.cons_append, List.takeWhile_append_dropWhile]
  rw [hsplit] at hends hopen
  exact ⟨hends.back, hopen.back⟩

theorem lastField?_trial {family : Family}
    (hfamily : Family.ofKeyword? (body.takeWhile fun c => !isGap c) = some family) :
    lastField? ('@' :: body ++ trial)
      = (phrase? family.form ((body.dropWhile fun c => !isGap c) ++ trial)).bind fun phrase =>
        phrase.fields.getLast? := by
  have hbody : directiveBody? ('@' :: body ++ trial) = some (body ++ trial) :=
    directiveBody?_eq_some_iff.mpr ⟨[], lead_nil, rfl⟩
  obtain ⟨hkeyword, htext⟩ := takeWhile_behind body behind_trial.setOff
  unfold lastField?
  simp only [hbody, hkeyword, htext, hfamily, Option.bind_eq_bind, Option.bind_some]

/-- A line of a family is unfinished just if its text lacks the last field. -/
theorem unfinished_iff {family : Family} (hfamily : Family.ofKeyword? (body.takeWhile fun c => !isGap c) = some family)
    (hends : Ends ('@' :: body)) (hopen : Unclosed ('@' :: body)) : Unfinished ('@' :: body) ↔
      ∃ fields words, Lacks (phrase? family.form) (body.dropWhile fun c => !isGap c) fields words := by
  obtain ⟨htextEnds, htextOpen⟩ := ends_dropWhile hends hopen
  rw [Unfinished, lastField?_trial hfamily]
  constructor
  · intro h
    refine (family.finished_or_lacks htextEnds htextOpen).resolve_left fun hfinished => ?_
    obtain ⟨phrase, hphrase, hlast⟩ := Option.bind_eq_some_iff.mp h
    obtain ⟨field, hfield, hlength⟩ := hfinished.grows phrase hphrase
    obtain rfl := Option.mem_unique hlast hfield
    exact absurd hlength (by decide)
  · rintro ⟨fields, words, hlacks⟩
    rw [hlacks.filled ['x'] trial .trial behind_trial, closing?_trial, Option.map_some, Option.bind_some,
      List.getLast?_concat]

/-- A line without a keyword lacks no field. -/
theorem not_unfinished_of_none (hfamily : Family.ofKeyword? (body.takeWhile fun c => !isGap c) = none) :
    ¬Unfinished ('@' :: body) := by
  have hbody : directiveBody? ('@' :: body ++ trial) = some (body ++ trial) :=
    directiveBody?_eq_some_iff.mpr ⟨[], lead_nil, rfl⟩
  obtain ⟨hkeyword, -⟩ := takeWhile_behind body behind_trial.setOff
  unfold Unfinished lastField?
  simp only [hbody, hkeyword, hfamily, Option.bind_eq_bind, Option.bind_some, Option.bind_none]
  simp

/-- A terminator behind a line that lacks its last field is this field. -/
theorem occurrence?_of_lacks {family : Family} {fields words : List (List Char)} (hlead : Lead lead)
    (hfamily : Family.ofKeyword? (body.takeWhile fun c => !isGap c) = some family)
    (hlacks : Lacks (phrase? family.form) (body.dropWhile fun c => !isGap c) fields words) {run mark rest : List Char}
    (hrun : Terminator run) (hbehind : Behind run tail) (hmark : mark ≠ []) (hbegins : mark <+: run)
    (hclosing : closing? (tail.dropWhile isGap) = some (mark, rest)) :
    (occurrence? 0 (lead ++ '@' :: body ++ tail)).map (fun o => (o.family, o.statement.fields))
      = (occurrence? 0 ('@' :: body ++ trial)).map fun o =>
        (o.family, o.statement.fields.dropLast ++ [String.ofList mark]) := by
  have htrim : trim mark = mark := by
    have hspace : ∀ c ∈ mark, isSpace c = false := fun c hc => hrun.not_isSpace c (hbegins.subset hc)
    refine trim_eq_self ?_ ?_
    · exact fun c hc => hspace c (List.mem_of_mem_head? hc)
    · exact fun c hc => hspace c (List.mem_of_mem_getLast? hc)
  have htrial : occurrence? 0 ([] ++ '@' :: body ++ trial) = _ :=
    occurrence?_decorated 0 lead_nil behind_trial.setOff
  rw [List.nil_append] at htrial
  rw [occurrence?_decorated 0 hlead hbehind.setOff, htrial, hfamily, Option.bind_some, Option.bind_some,
    hlacks.filled run tail (.terminator hrun) hbehind, hclosing, hlacks.filled ['x'] trial .trial behind_trial,
    closing?_trial]
  have hlast := ofFields?_last family words fields (x := ['x']) (by simp) hmark (by decide) htrim
  simp only [Option.map_some, Option.bind_some]
  cases hmade : Statement.ofFields? family words (fields ++ [mark]) with
  | none =>
    rw [hmade, Option.map_none, eq_comm, Option.map_eq_none_iff] at hlast
    rw [hlast]
    rfl
  | some statement =>
    rw [hmade, Option.map_some, eq_comm, Option.map_eq_some_iff] at hlast
    obtain ⟨other, hother, hfields⟩ := hlast
    rw [hother]
    simp [hfields]

/-- **What decoration does to a line.** A line says the same in a comment, if it does not lack the last field of its
directive. Gaps alone change nothing either, unless the line ends in dashes, which may belong to a name. But where the
last field is missing a terminator, or the beginning of one, is taken for it. -/
theorem parse_decorated {line : List Char} (hlead : Lead lead) (hstarts : line.head? = some '@')
    (hinline : Inline line) (hends : ∀ c ∈ line.getLast?, isSpace c = false) (hopen : Unclosed line)
    (htail : Tail tail) (hsetOff : SetOff tail) :
    (¬Unfinished line → parse (lead ++ line ++ tail) = parse line) ∧
    (Gaps tail → ¬dashes <:+ line → parse (lead ++ line ++ tail) = parse line) ∧
    (Unfinished line → ¬Gaps tail → ∃ terminator mark, Terminator terminator ∧ terminator <:+: tail ∧ mark ≠ [] ∧
      mark <+: terminator ∧ (parse (lead ++ line ++ tail)).map (fun o => (o.family, o.statement.fields))
        = (parse (line ++ trial)).map fun o => (o.family, o.statement.fields.dropLast ++ [String.ofList mark])) := by
  obtain ⟨body, rfl⟩ := List.head?_eq_some_iff.mp hstarts
  have hends : Ends ('@' :: body) := fun c hc => not_isGap_of_not_isSpace (hends c hc)
  obtain ⟨htextEnds, htextOpen⟩ := ends_dropWhile hends hopen
  rw [parse_inline ((hlead.inline.append hinline).append htail.inline), parse_inline hinline,
    parse_inline (hinline.append inline_trial)]
  refine ⟨fun hfinished => ?_, fun hgaps hdashes => ?_, fun hunfinished hgaps => ?_⟩
  · refine congrArg Option.toList (occurrence?_of_same 0 hlead hsetOff fun family hfamily t ht => ?_)
    have hphrase := (family.finished_or_lacks htextEnds htextOpen).resolve_right fun hlacks =>
      hfinished ((unfinished_iff hfamily hends hopen).mpr hlacks)
    rcases List.mem_pair.mp ht with rfl | rfl
    · exact hphrase.same [] tail_nil (by decide)
    · exact hphrase.same t htail hsetOff
  · refine congrArg Option.toList (occurrence?_of_same 0 hlead hsetOff fun family hfamily t ht => ?_)
    have htGaps : Gaps t := by
      rcases List.mem_pair.mp ht with rfl | rfl
      · exact List.forall_mem_nil _
      · exact hgaps
    rcases family.finished_or_lacks htextEnds htextOpen with hfinished | ⟨fields, words, hlacks⟩
    · exact hfinished.same t ⟨t, [], [], htGaps, List.forall_mem_nil _, Or.inl rfl, by simp⟩ htGaps.behind.setOff
    · -- Neither with the gaps nor without them the line has enough fields.
      have hnone : ∀ gaps, Gaps gaps → phrase? family.form ((body.dropWhile fun c => !isGap c) ++ gaps) = none := by
        intro gaps hblank
        refine (hlacks.blank gaps hblank).resolve_right fun hsuffix => hdashes (hsuffix.trans ?_)
        exact (List.dropWhile_suffix _).trans (List.suffix_cons '@' body)
      have hbare := hnone [] (List.forall_mem_nil _)
      rw [List.append_nil] at hbare
      rw [hnone t htGaps, hbare, Option.map_none]
  · obtain ⟨terminator, mark, rest, hterminator, hlone, hpart, hmark, hbegins, hclosing⟩ :=
      exists_closing?_tail htail hgaps
    refine ⟨terminator, mark, hterminator, hpart, hmark, hbegins, ?_⟩
    cases hfamily : Family.ofKeyword? (body.takeWhile fun c => !isGap c) with
    | none => exact absurd hunfinished (not_unfinished_of_none hfamily)
    | some family =>
      obtain ⟨fields, words, hlacks⟩ := (unfinished_iff hfamily hends hopen).mp hunfinished
      have hbehind : Behind terminator tail := ⟨hlone, hsetOff, Or.inr (.terminator hterminator)⟩
      have hfields := occurrence?_of_lacks hlead hfamily hlacks hterminator hbehind hmark hbegins hclosing
      rw [← Option.toList_map, ← Option.toList_map, hfields]

/-- A finished line in a comment that is closed behind it. -/
theorem parse_decorated_finished :
    let line := "@mitigates API against SQLi with prepared statements".toList
    ¬Unfinished line ∧ parse ("\t/* ".toList ++ line ++ " **/ ".toList) = parse line := by
  intro line
  have hfinished : ¬Unfinished line := by decide +kernel
  have hlead : Lead "\t/* ".toList := isLead_iff.mp (by decide)
  have htail : Tail " **/ ".toList := isTail_iff.mp (by decide)
  have hends : ∀ c ∈ line.getLast?, isSpace c = false := by
    intro c hc
    obtain rfl : 's' = c := Option.some.inj hc
    decide
  have hinline : Inline line := by decide
  have hdecorated := parse_decorated hlead rfl hinline hends (by decide +kernel) htail (by decide)
  exact ⟨hfinished, hdecorated.1 hfinished⟩

/-- **A terminator is taken for a field.** On a line of its own the directive is skipped, because its last field is
missing; in a comment that is closed behind it, it states a mitigation by the terminator. -/
theorem parse_unfinished_closed :
    let line := "@mitigates API against SQLi with".toList
    Lead "/* ".toList ∧ line.head? = some '@' ∧ Inline line ∧ (∀ c ∈ line.getLast?, isSpace c = false) ∧
      Unclosed line ∧ Tail " */".toList ∧ SetOff " */".toList ∧ parse line = [] ∧
      (parse ("/* ".toList ++ line ++ " */".toList)).map (fun o => (o.family, o.statement.fields))
        = [(.mitigate, ["API", "SQLi", "*/"])] := by
  intro line
  have hends : ∀ c ∈ line.getLast?, isSpace c = false := by
    intro c hc
    obtain rfl : 'h' = c := Option.some.inj hc
    decide
  exact ⟨isLead_iff.mp (by decide), rfl, by decide, hends, by decide +kernel, isTail_iff.mp (by decide), by decide,
    List.isEmpty_iff.mp (by decide +kernel), by decide +kernel⟩

end Decorated

end Directive
end ThreatModel
