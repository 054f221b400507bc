import Mathlib
import ThreatModel.Proofs.Directive.Candidates
import ThreatModel.Proofs.Directive.Pieces
import ThreatModel.Proofs.Text.Offset

/-!
# `Proofs.Directive.Place` — where the directives of a text stand

Every directive that a text lists stands in a stretch of the text between line ends, and no two of them in the same
one. Such a stretch holds the text of its directive behind a lead and before a tail, and the text holds the fields of
the directive one behind the other.

## Contents

* `Text.StandsAt` — the stretches between line ends, each at its place.
* `Occurrence.StandsIn` — a directive in its stretch.
* `Located` — directives at places of their own, and `Located.join` for two texts with a line end between them.
* `located_inTextOrder` — the directives of a text are located in it.
* `exists_places` — and so are those that it lists.
* `lineAt_of_mem_parse` — every offset of the stretch of a directive is on its line.
-/

namespace ThreatModel

/-- A stretch between line ends or the ends of the text, behind so many characters and so many line feeds. -/
def Text.StandsAt (text : List Char) (start line : Nat) (segment : List Char) : Prop :=
  ∃ before after, text = before ++ segment ++ after ∧ (∀ c ∈ segment, ¬IsLineEnd c) ∧
    (∀ c ∈ before.getLast?, IsLineEnd c) ∧ (∀ c ∈ after.head?, IsLineEnd c) ∧ before.length = start ∧
    before.count '\n' = line

namespace Directive

open Text

/-! ## A directive in its stretch -/

/-- A directive in a stretch of its text. Around the text of the directive there are a lead, white space and a tail. The
text starts with a keyword of the family of the directive, and behind it come the fields of the statement and the words
between them, in order; all of them are fields. -/
structure Occurrence.StandsIn (o : Occurrence) (segment : List Char) : Prop where
  around : ∃ lead spaces tail, Lead lead ∧ isBlank spaces = true ∧ Tail tail ∧
    segment = lead ++ o.text.toList ++ spaces ++ tail
  holds : ∃ keyword text, keyword ∈ o.family.keywords ∧ SetOff text ∧ o.text.toList = '@' :: (keyword ++ text) ∧
    InOrder (weave o.statement.texts o.statement.words) text
  fields : ∀ field ∈ o.statement.texts, IsField field
  family : o.statement.family = o.family

/-- **A directive stands in the segment** in which it is found. -/
theorem standsIn_of_occurrence? {line : Nat} {segment : List Char} {o : Occurrence} (hinline : Inline segment)
    (h : occurrence? line segment = some o) : o.StandsIn segment := by
  obtain ⟨lead, keyword, text, phrase, hlayout⟩ := exists_layout h
  obtain ⟨hpieces, hne, htext⟩ := hlayout.kept hinline
  obtain ⟨spaces, hspaces, hsplit⟩ := exists_eq_trimEnd_append text
  refine ⟨⟨lead, spaces, phrase.tail, hlayout.isLead, hspaces, hlayout.isTail, ?_⟩,
    ⟨keyword, trimEnd text, hlayout.mem_keywords, ?_, htext, hpieces⟩, hlayout.isField_texts hinline,
    (statement_of_occurrence? h).1⟩
  · rw [hlayout.segment_eq, htext]
    conv_lhs => rw [hsplit]
    simp only [List.append_assoc, List.cons_append]
  · have hsetOff := hlayout.setOff.front
    rw [hsplit] at hsetOff
    exact hsetOff.front

/-! ## Directives at places of their own -/

/-- A directive that stands at a place of a text. -/
def Here (text : List Char) (start : Nat) (o : Occurrence) : Prop :=
  ∃ segment, StandsAt text start o.line segment ∧ o.StandsIn segment

/-- Directives that stand at places of a text, no two of them at the same one. -/
def Located (text : List Char) (os : List Occurrence) : Prop :=
  ∃ starts : List Nat, starts.Nodup ∧ starts.Forall₂ (Here text) os

/-- A place in the front of a text. -/
theorem Here.front {front : List Char} {start : Nat} {o : Occurrence} (h : Here front start o) {lineEnd : Char}
    (hend : IsLineEnd lineEnd) (back : List Char) : Here (front ++ lineEnd :: back) start o ∧ start ≤ front.length := by
  obtain ⟨segment, ⟨before, after, rfl, hsegment, hbefore, hafter, rfl, hline⟩, hstands⟩ := h
  refine ⟨⟨segment, ⟨before, after ++ lineEnd :: back, by simp, hsegment, hbefore, ?_, rfl, hline⟩, hstands⟩, by simp⟩
  intro c hc
  cases after with
  | nil =>
    obtain rfl := Option.some.inj hc
    exact hend
  | cons d after => exact hafter c hc

/-- A place in the back of a text, as many characters and line feeds further down as stand before it. -/
theorem Here.back {back : List Char} {start : Nat} {o : Occurrence} (h : Here back start o) {lineEnd : Char}
    (hend : IsLineEnd lineEnd) (front : List Char) : Here (front ++ lineEnd :: back) (start + (front.length + 1))
      (o.later ((front ++ [lineEnd]).count '\n')) := by
  obtain ⟨segment, ⟨before, after, rfl, hsegment, hbefore, hafter, rfl, hline⟩, hstands⟩ := h
  refine ⟨segment, ⟨front ++ [lineEnd] ++ before, after, by simp, hsegment, ?_, hafter, ?_, ?_⟩, ?_⟩
  · intro c hc
    rw [List.getLast?_append, Option.mem_def, Option.or_eq_some_iff] at hc
    rcases hc with hc | ⟨-, hc⟩
    · exact hbefore c hc
    · rw [List.getLast?_concat] at hc
      obtain rfl := Option.some.inj hc
      exact hend
  · simp only [List.length_append, List.length_singleton]
    omega
  · rw [List.count_append, hline, Nat.add_comm]
    rfl
  · exact ⟨hstands.around, hstands.holds, hstands.fields, hstands.family⟩

/-- **A line end separates.** What is located before it and behind it is located in the whole. -/
theorem Located.join {front back : List Char} {os os' : List Occurrence} (hfront : Located front os)
    (hback : Located back os') {lineEnd : Char} (hend : IsLineEnd lineEnd) :
    Located (front ++ lineEnd :: back) (os ++ os'.map (·.later ((front ++ [lineEnd]).count '\n'))) := by
  obtain ⟨starts, hnodup, hstarts⟩ := hfront
  obtain ⟨starts', hnodup', hstarts'⟩ := hback
  have hupper : starts.Forall₂ (fun start o => start ≤ front.length ∧ Here (front ++ lineEnd :: back) start o) os :=
    hstarts.imp fun start o h => (h.front hend back).symm
  obtain ⟨hbound, hhere⟩ := (List.forall₂_and_left _ _).mp hupper
  refine ⟨starts ++ starts'.map (· + (front.length + 1)), ?_, List.rel_append hhere ?_⟩
  · -- The places behind the line end are further down than those before it.
    refine List.nodup_append.mpr ⟨hnodup, hnodup'.map (add_left_injective _), fun start hstart other hother => ?_⟩
    obtain ⟨start', -, rfl⟩ := List.mem_map.mp hother
    have := hbound start hstart
    omega
  · rw [List.forall₂_map_left_iff, List.forall₂_map_right_iff]
    exact hstarts'.imp fun start o h => h.back hend front

/-! ## The directives of a text -/

/-- What holds of texts without a separator, and of two texts with a separator between them, holds of all. -/
theorem induction_on_separator (separator : Char) {p : List Char → Prop} (bare : ∀ text, separator ∉ text → p text)
    (join : ∀ front back, p front → p back → p (front ++ separator :: back)) (text : List Char) : p text := by
  by_cases h : separator ∈ text
  · obtain ⟨front, back, heq⟩ := List.append_of_mem h
    rw [heq]
    exact join front back (induction_on_separator separator bare join front)
      (induction_on_separator separator bare join back)
  · exact bare text h
termination_by text.length
decreasing_by
  · simp only [heq, List.length_append, List.length_cons]
    omega
  · simp only [heq, List.length_append, List.length_cons]
    omega

theorem located_nil (text : List Char) : Located text [] := ⟨[], List.nodup_nil, List.Forall₂.nil⟩

/-- A text without line ends is one stretch. -/
theorem standsAt_self {segment : List Char} (hinline : Inline segment) : StandsAt segment 0 0 segment := by
  refine ⟨[], [], by simp, ?_, by simp, by simp, rfl, rfl⟩
  intro c hc hend
  obtain ⟨hfeed, hreturn⟩ := hinline c hc
  exact hend.elim hreturn hfeed

/-- The directive of a line of one segment. -/
theorem located_segment {segment : List Char} (hinline : Inline segment) :
    Located segment (lineOccurrences 0 [segment]) := by
  cases h : occurrence? 0 segment with
  | none =>
    rw [lineOccurrences, List.filterMap_cons_none h, List.filterMap_nil]
    exact located_nil segment
  | some o =>
    have hmem : o ∈ lineOccurrences 0 [segment] := by simp [lineOccurrences, h]
    have hhere : Here segment 0 o := by
      refine ⟨segment, ?_, standsIn_of_occurrence? hinline h⟩
      rw [line_of_mem_lineOccurrences hmem]
      exact standsAt_self hinline
    rw [lineOccurrences, List.filterMap_cons_some h, List.filterMap_nil]
    exact ⟨[0], List.nodup_singleton 0, List.Forall₂.cons hhere List.Forall₂.nil⟩

/-- The directives of a line. -/
theorem located_line (line : List Char) (hfeed : '\n' ∉ line) : Located line (lineOccurrences 0 (splitOn '\r' line)) := by
  induction line using induction_on_separator '\r' with
  | bare line hreturn =>
    rw [splitOn_of_not_mem hreturn]
    refine located_segment fun c hc => ⟨?_, ?_⟩
    · rintro rfl
      exact hfeed hc
    · rintro rfl
      exact hreturn hc
  | join front back hfront hback =>
    have hfrontFeed : '\n' ∉ front := fun hmem => hfeed (by simp [hmem])
    have hbackFeed : '\n' ∉ back := fun hmem => hfeed (by simp [hmem])
    have hend : IsLineEnd '\r' := Or.inl rfl
    have hjoin := (hfront hfrontFeed).join (hback hbackFeed) hend
    rw [splitOn_append_cons, lineOccurrences, List.filterMap_append]
    have hcount : (front ++ ['\r']).count '\n' = 0 := List.count_eq_zero.mpr (by simp [hfrontFeed])
    rw [hcount] at hjoin
    have hlater : ∀ os : List Occurrence, os.map (·.later 0) = os := fun os => List.map_id os
    rwa [hlater] at hjoin

/-- **The directives of a text** are located in it. -/
theorem located_inTextOrder (text : List Char) : Located text (inTextOrder text) := by
  induction text using induction_on_separator '\n' with
  | bare line hfeed =>
    rw [inTextOrder, found_eq, splitOn_of_not_mem hfeed]
    simpa using located_line line hfeed
  | join front back hfront hback =>
    have hend : IsLineEnd '\n' := Or.inr rfl
    have hjoin := hfront.join hback hend
    rw [inTextOrder, found_append, List.flatten_append, ← List.map_flatten]
    rwa [List.count_append, List.count_singleton_self] at hjoin

/-- **Every directive that a text lists** stands in a stretch of the text between line ends, on its line, and no two of
them stand in the same stretch. -/
theorem exists_places (text : List Char) : ∃ starts : List Nat, starts.Nodup ∧
    starts.Forall₂ (fun start o => ∃ segment, StandsAt text start o.line segment ∧ o.StandsIn segment) (parse text) := by
  obtain ⟨starts, hnodup, hstarts⟩ := located_inTextOrder text
  obtain ⟨places, hplaces, hperm⟩ := List.perm_comp_forall₂ (parse_perm_inTextOrder text) hstarts.flip
  exact ⟨places, hperm.nodup_iff.mpr hnodup, hplaces.flip⟩

/-- **The line of a directive** is found from any offset of the stretch it stands in. -/
theorem lineAt_of_mem_parse {text : List Char} {o : Occurrence} (h : o ∈ parse text) :
    ∃ before segment after, text = before ++ segment ++ after ∧ o.StandsIn segment ∧
      ∀ offset, (bytes before).length ≤ offset → offset ≤ (bytes (before ++ segment)).length →
        lineAt (lineStarts text) offset = o.line := by
  have hmem : o ∈ inTextOrder text := (parse_perm_inTextOrder text).mem_iff.mp h
  obtain ⟨starts, -, hstarts⟩ := located_inTextOrder text
  obtain ⟨index, hindex, rfl⟩ := List.getElem_of_mem hmem
  have hhere := hstarts.get (hstarts.length_eq ▸ hindex) hindex
  obtain ⟨segment, ⟨before, after, rfl, hsegment, -, -, -, hline⟩, hstands⟩ := hhere
  have hfeed : '\n' ∉ segment := fun hmem => hsegment _ hmem (Or.inr rfl)
  exact ⟨before, segment, after, rfl, hstands, fun offset hstart hend =>
    (lineAt_eq_of_stretch after hfeed hstart hend).trans hline⟩

end Directive
end ThreatModel
