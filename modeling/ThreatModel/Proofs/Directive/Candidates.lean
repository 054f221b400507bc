import Mathlib
import ThreatModel.Proofs.Directive.Relation
import ThreatModel.Proofs.Directive.TextOrder

/-!
# `Proofs.Directive.Candidates` — no directive vanishes

A segment that opens with a keyword is a candidate. Every candidate either yields a directive, or its line is reported
as skipped, unless another segment of the line yields one. So the lines on which something is found and the lines that
are reported are two separate parts of the lines with candidates.

## Contents

* `getElem?_splitOn_eq_some_iff` — the parts of a cut, by what stands before and after them.
* `Text.StandsOn`, `standsOn_iff` — the segments of a text, said without cutting it.
* `Candidate`, `isCandidate_iff` — what a segment is that opens with a keyword.
* `candidate_of_occurrence?` — directives are found in candidates only.
* `mem_lines_parse_iff`, `mem_skipped_iff` — the lines with a directive, and the lines that are reported.
* `found_or_skipped` — every candidate is one or the other.
-/

namespace ThreatModel

/-! ## The segments of a text -/

namespace Text

/-- A text that is empty or ends in a separator. -/
def EndsAt (separator : Char) (text : List Char) : Prop := ∀ c ∈ text.getLast?, c = separator

/-- A text that is empty or starts with a separator. -/
def StartsAt (separator : Char) (text : List Char) : Prop := ∀ c ∈ text.head?, c = separator

variable {separator : Char}

theorem EndsAt.cases {text : List Char} (h : EndsAt separator text) :
    text = [] ∨ ∃ front, text = front ++ [separator] := by
  rcases List.eq_nil_or_concat text with rfl | ⟨front, last, rfl⟩
  · exact Or.inl rfl
  · have hlast : last = separator := h last (by simp)
    exact Or.inr ⟨front, by rw [List.concat_eq_append, hlast]⟩

theorem StartsAt.cases {text : List Char} (h : StartsAt separator text) :
    text = [] ∨ ∃ back, text = separator :: back := by
  cases text with
  | nil => exact Or.inl rfl
  | cons first back =>
    have hfirst : first = separator := h first rfl
    exact Or.inr ⟨back, by rw [hfirst]⟩

theorem EndsAt.cons {text : List Char} (h : EndsAt separator text) {c : Char} (hc : text = [] → c = separator) :
    EndsAt separator (c :: text) := by
  intro last hlast
  cases text with
  | nil =>
    obtain rfl := Option.some.inj hlast
    exact hc rfl
  | cons first back =>
    rw [List.getLast?_cons_cons] at hlast
    exact h last hlast

/-- A part of a cut stands in the text, between separators or the ends of the text, behind as many separators as parts. -/
theorem exists_of_getElem?_splitOn {text part : List Char} {n : Nat} (h : (splitOn separator text)[n]? = some part) :
    ∃ before after, text = before ++ part ++ after ∧ separator ∉ part ∧
      EndsAt separator before ∧ StartsAt separator after ∧ before.count separator = n := by
  induction text generalizing n part with
  | nil =>
    obtain ⟨rfl, rfl⟩ : n = 0 ∧ part = [] := by
      rw [splitOn_nil, List.getElem?_singleton] at h
      split at h
      · next hn => exact ⟨hn, (Option.some.inj h).symm⟩
      · cases h
    exact ⟨[], [], rfl, List.not_mem_nil, nofun, nofun, rfl⟩
  | cons c rest ih =>
    rw [splitOn_cons] at h
    split at h
    · next hc =>
      obtain rfl := hc
      cases n with
      | zero =>
        obtain rfl := Option.some.inj h
        exact ⟨[], c :: rest, rfl, List.not_mem_nil, nofun, by simp [StartsAt], rfl⟩
      | succ n =>
        obtain ⟨before, after, rfl, hpart, hbefore, hafter, hcount⟩ := ih h
        exact ⟨c :: before, after, rfl, hpart, hbefore.cons fun _ => rfl, hafter, by simp [hcount]⟩
    · next hc =>
      obtain ⟨first, more, hparts⟩ := List.exists_cons_of_ne_nil (splitOn_ne_nil separator rest)
      rw [hparts, List.modifyHead_cons] at h
      cases n with
      | zero =>
        obtain rfl := Option.some.inj h
        obtain ⟨before, after, hrest, hfirst, hbefore, hafter, hcount⟩ := ih (n := 0) (by rw [hparts]; rfl)
        -- No separator stands before the first part, so nothing does.
        obtain rfl : before = [] := by
          rcases hbefore.cases with rfl | ⟨front, rfl⟩
          · rfl
          · simp at hcount
        exact ⟨[], after, by rw [hrest]; rfl, by simp [Ne.symm hc, hfirst], nofun, hafter, rfl⟩
      | succ n =>
        obtain ⟨before, after, hrest, hpart, hbefore, hafter, hcount⟩ := ih (n := n + 1) (by rw [hparts]; exact h)
        refine ⟨c :: before, after, by rw [hrest]; rfl, hpart, hbefore.cons fun hnil => ?_, hafter, ?_⟩
        · rw [hnil] at hcount
          cases hcount
        · rw [List.count_cons_of_ne hc, hcount]

/-- A stretch between separators or the ends of the text is a part of the cut, the one that the separators before it
count. -/
theorem getElem?_splitOn_append {before part after : List Char} (hpart : separator ∉ part)
    (hbefore : EndsAt separator before) (hafter : StartsAt separator after) :
    (splitOn separator (before ++ part ++ after))[before.count separator]? = some part := by
  have hback : splitOn separator (part ++ after) = part :: (splitOn separator (part ++ after)).tail := by
    rcases hafter.cases with rfl | ⟨back, rfl⟩
    · rw [List.append_nil, splitOn_of_not_mem hpart]
      rfl
    · rw [splitOn_append_cons, splitOn_of_not_mem hpart]
      rfl
  rw [List.append_assoc]
  rcases hbefore.cases with rfl | ⟨front, rfl⟩
  · rw [List.nil_append, hback]
    rfl
  · have hlength : (splitOn separator front).length = (front ++ [separator]).count separator := by
      rw [Directive.length_splitOn, List.count_append, List.count_singleton_self]
    rw [List.append_assoc, List.singleton_append, splitOn_append_cons, ← hlength,
      List.getElem?_append_right (Nat.le_refl _), Nat.sub_self, hback]
    rfl

/-- **The parts of a cut** are the stretches between separators or the ends of the text, counted by the separators
before them. -/
theorem getElem?_splitOn_eq_some_iff {text part : List Char} {n : Nat} :
    (splitOn separator text)[n]? = some part ↔ ∃ before after, text = before ++ part ++ after ∧ separator ∉ part ∧
      EndsAt separator before ∧ StartsAt separator after ∧ before.count separator = n := by
  refine ⟨exists_of_getElem?_splitOn, ?_⟩
  rintro ⟨before, after, rfl, hpart, hbefore, hafter, rfl⟩
  exact getElem?_splitOn_append hpart hbefore hafter

/-- Every text falls into one without a separator and one that starts with a separator. -/
theorem exists_append_startsAt (separator : Char) (text : List Char) :
    ∃ inner back, text = inner ++ back ∧ separator ∉ inner ∧ StartsAt separator back := by
  refine ⟨text.takeWhile (· ≠ separator), text.dropWhile (· ≠ separator), List.takeWhile_append_dropWhile.symm, ?_, ?_⟩
  · intro hmem
    simpa using List.mem_takeWhile_imp hmem
  · intro c hc
    obtain ⟨back, hback⟩ := List.head?_eq_some_iff.mp hc
    simpa using Directive.not_of_dropWhile hback

/-- Every text falls into one that ends in a separator and one without a separator. -/
theorem exists_append_endsAt (separator : Char) (text : List Char) :
    ∃ front inner, text = front ++ inner ∧ EndsAt separator front ∧ separator ∉ inner := by
  obtain ⟨inner, back, heq, hinner, hback⟩ := exists_append_startsAt separator text.reverse
  refine ⟨back.reverse, inner.reverse, ?_, ?_, ?_⟩
  · rw [← List.reverse_append, ← heq, List.reverse_reverse]
  · intro c hc
    rw [List.getLast?_reverse] at hc
    exact hback c hc
  · rwa [List.mem_reverse]

/-- Whether a character ends a line, by itself or together with the next one. -/
def IsLineEnd (c : Char) : Prop := c = '\r' ∨ c = '\n'

/-- A stretch between line ends or the ends of the text, on the line with so many line feeds above it. -/
def StandsOn (text : List Char) (line : Nat) (segment : List Char) : Prop :=
  ∃ before after, text = before ++ segment ++ after ∧ (∀ c ∈ segment, ¬IsLineEnd c) ∧
    (∀ c ∈ before.getLast?, IsLineEnd c) ∧ (∀ c ∈ after.head?, IsLineEnd c) ∧ before.count '\n' = line

/-- **The segments of a text** are those of its lines. -/
theorem standsOn_iff {text segment : List Char} {line : Nat} :
    StandsOn text line segment ↔ ∃ part, (splitOn '\n' text)[line]? = some part ∧ segment ∈ splitOn '\r' part := by
  constructor
  · rintro ⟨before, after, rfl, hsegment, hbefore, hafter, hcount⟩
    -- The line reaches from the last line feed before the segment to the first one after it.
    obtain ⟨front, left, rfl, hfront, hleft⟩ := exists_append_endsAt '\n' before
    obtain ⟨right, back, rfl, hright, hback⟩ := exists_append_startsAt '\n' after
    have hfeed : '\n' ∉ segment := fun hmem => hsegment _ hmem (Or.inr rfl)
    have hreturn : '\r' ∉ segment := fun hmem => hsegment _ hmem (Or.inl rfl)
    refine ⟨left ++ segment ++ right, getElem?_splitOn_eq_some_iff.mpr
      ⟨front, back, by simp only [List.append_assoc], by simp [hleft, hfeed, hright], hfront, hback, ?_⟩,
      List.mem_iff_getElem?.mpr ⟨_, getElem?_splitOn_eq_some_iff.mpr ⟨left, right, rfl, hreturn, ?_, ?_, rfl⟩⟩⟩
    · rw [← hcount, List.count_append, List.count_eq_zero.mpr hleft, Nat.add_zero]
    · intro c hc
      have hmem : c ∈ (front ++ left).getLast? := by
        rw [List.getLast?_append, hc]
        rfl
      exact (hbefore c hmem).resolve_right fun heq => hleft (heq ▸ List.mem_of_mem_getLast? hc)
    · intro c hc
      have hmem : c ∈ (right ++ back).head? := by
        rw [List.head?_append, hc]
        rfl
      exact (hafter c hmem).resolve_right fun heq => hright (heq ▸ List.mem_of_mem_head? hc)
  · rintro ⟨part, hpart, hmem⟩
    obtain ⟨front, back, rfl, hfeed, hfront, hback, hcount⟩ := getElem?_splitOn_eq_some_iff.mp hpart
    obtain ⟨_, hsegment⟩ := List.mem_iff_getElem?.mp hmem
    obtain ⟨left, right, rfl, hreturn, hleft, hright, -⟩ := getElem?_splitOn_eq_some_iff.mp hsegment
    simp only [List.mem_append, not_or] at hfeed
    obtain ⟨⟨hleftFeed, hsegmentFeed⟩, -⟩ := hfeed
    refine ⟨front ++ left, right ++ back, by simp only [List.append_assoc], ?_, ?_, ?_, ?_⟩
    · rintro c hc (rfl | rfl)
      · exact hreturn hc
      · exact hsegmentFeed hc
    · intro c hc
      rw [List.getLast?_append, Option.mem_def, Option.or_eq_some_iff] at hc
      rcases hc with hc | ⟨-, hc⟩
      · exact Or.inl (hleft c hc)
      · exact Or.inr (hfront c hc)
    · intro c hc
      rw [List.head?_append, Option.mem_def, Option.or_eq_some_iff] at hc
      rcases hc with hc | ⟨-, hc⟩
      · exact Or.inl (hright c hc)
      · exact Or.inr (hback c hc)
    · rw [List.count_append, List.count_eq_zero.mpr hleftFeed, Nat.add_zero, hcount]

end Text

namespace Directive

open Text

/-! ## Candidates -/

/-- A segment that opens with a keyword, after what may stand before a directive. The keyword ends where a word ends. -/
def Candidate (segment : List Char) : Prop :=
  ∃ lead family keyword rest, Lead lead ∧ keyword ∈ Family.keywords family ∧ (∀ c ∈ rest.head?, isWord c = false) ∧
    segment = lead ++ '@' :: (keyword ++ rest)

/-- A segment passes as a candidate exactly if it is one. -/
theorem isCandidate_iff {segment : List Char} : isCandidate segment = true ↔ Candidate segment := by
  have hsome : ∀ keyword rest : List Char, keyword.isPrefixOf? (keyword ++ rest) = some rest := fun keyword rest =>
    List.isPrefixOf?_eq_some_iff_append_eq.mpr rfl
  unfold isCandidate
  cases hbody : directiveBody? segment with
  | none =>
    refine ⟨nofun, ?_⟩
    rintro ⟨lead, family, keyword, rest, hlead, -, -, rfl⟩
    have hbody' : directiveBody? (lead ++ '@' :: (keyword ++ rest)) = some (keyword ++ rest) :=
      directiveBody?_eq_some_iff.mpr ⟨lead, hlead, rfl⟩
    rw [hbody] at hbody'
    cases hbody'
  | some body =>
    obtain ⟨lead, hlead, rfl⟩ := directiveBody?_eq_some_iff.mp hbody
    simp only [List.any_eq_true, List.mem_flatMap]
    constructor
    · rintro ⟨keyword, ⟨family, -, hkeyword⟩, h⟩
      split at h
      · next heq =>
        obtain rfl := List.isPrefixOf?_eq_some_iff_append_eq.mp heq
        exact ⟨lead, family, keyword, [], hlead, hkeyword, nofun, rfl⟩
      · next c more heq =>
        obtain rfl := List.isPrefixOf?_eq_some_iff_append_eq.mp heq
        exact ⟨lead, family, keyword, c :: more, hlead, hkeyword, by simpa using h, rfl⟩
      · cases h
    · rintro ⟨lead', family, keyword, rest, hlead', hkeyword, hrest, heq⟩
      -- What stands before the first `@` is the same in both, so what follows it is.
      have hsame := directiveBody?_eq_some_iff.mpr ⟨lead', hlead', heq⟩
      rw [hbody] at hsame
      obtain rfl := Option.some.inj hsame
      refine ⟨keyword, ⟨family, Family.mem_all family, hkeyword⟩, ?_⟩
      rw [hsome]
      cases rest with
      | nil => rfl
      | cons c more => simpa using hrest

/-- No gap is part of a word. -/
theorem isWord_of_isGap {c : Char} (h : isGap c = true) : isWord c = false := by
  simp only [isGap, Bool.or_eq_true, decide_eq_true_eq] at h
  rcases h with rfl | rfl <;> decide

/-- **A directive is found in a candidate only**: its keyword ends at a gap. -/
theorem candidate_of_occurrence? {line : Nat} {segment : List Char} {o : Occurrence}
    (h : occurrence? line segment = some o) : Candidate segment := by
  obtain ⟨body, phrase, hbody, hfamily, hphrase, -, -, -⟩ := occurrence?_eq_some_iff.mp h
  obtain ⟨lead, hlead, rfl⟩ := directiveBody?_eq_some_iff.mp hbody
  refine ⟨lead, o.family, _, body.dropWhile fun c => !isGap c, hlead, ofKeyword?_eq_some_iff.mp hfamily, ?_, ?_⟩
  · intro c hc
    obtain ⟨back, hback⟩ := List.head?_eq_some_iff.mp hc
    have hgap : isGap c = true := by simpa using not_of_dropWhile hback
    exact isWord_of_isGap hgap
  · rw [List.takeWhile_append_dropWhile]

/-! ## Lines with a directive, and lines that are reported -/

/-- An empty segment is no candidate. -/
@[simp] theorem isCandidate_nil : isCandidate [] = false := rfl

theorem filter_isCandidate_dropReturn (line : List Char) :
    (splitOn '\r' (dropReturn line)).filter isCandidate = (splitOn '\r' line).filter isCandidate := by
  rcases splitOn_dropReturn line with h | h
  · rw [h]
  · rw [h, List.filter_append]
    simp

/-- The lines of a text are the parts between its line feeds: a carriage return at the end of a part makes no difference
to what is reported. -/
theorem skipped_eq (text : List Char) :
    skipped text = (splitOn '\n' text).zipIdx.flatMap fun (part, number) =>
      if (lineOccurrences number (splitOn '\r' part)).isEmpty then
        ((splitOn '\r' part).filter isCandidate).map fun _ => number
      else [] := by
  have hne := splitOn_ne_nil '\n' text
  have hparts : splitOn '\n' text = (splitOn '\n' text).dropLast ++ [(splitOn '\n' text).getLast hne] :=
    (List.dropLast_append_getLast hne).symm
  rw [skipped, segments]
  conv_rhs => rw [hparts]
  simp only [List.getLast?_eq_some_getLast hne, Option.getD_some, List.map_append, List.map_map, List.zipIdx_append,
    List.zipIdx_map, List.length_map, Prod.map_fst, Prod.map_snd, Function.comp_def, id_eq, List.flatMap_append,
    List.flatMap_map, lineOccurrences_dropReturn, filter_isCandidate_dropReturn]

/-- The lines on which a directive is found. -/
theorem mem_lines_parse_iff {text : List Char} {line : Nat} :
    line ∈ (parse text).map (·.line) ↔
      ∃ part, (splitOn '\n' text)[line]? = some part ∧ lineOccurrences line (splitOn '\r' part) ≠ [] := by
  rw [((parse_perm_inTextOrder text).map _).mem_iff, inTextOrder, found_eq, ← List.flatMap_def, List.mem_map]
  constructor
  · rintro ⟨o, ho, rfl⟩
    obtain ⟨⟨part, number⟩, hpart, ho⟩ := List.mem_flatMap.mp ho
    obtain rfl := line_of_mem_lineOccurrences ho
    exact ⟨part, List.mem_zipIdx_iff_getElem?.mp hpart, List.ne_nil_of_mem ho⟩
  · rintro ⟨part, hpart, hne⟩
    obtain ⟨o, ho⟩ := List.exists_mem_of_ne_nil _ hne
    exact ⟨o, List.mem_flatMap.mpr ⟨(part, line), List.mem_zipIdx_iff_getElem?.mpr hpart, ho⟩,
      line_of_mem_lineOccurrences ho⟩

/-- The lines that are reported. -/
theorem mem_skipped_iff {text : List Char} {line : Nat} :
    line ∈ skipped text ↔ ∃ part, (splitOn '\n' text)[line]? = some part ∧
      lineOccurrences line (splitOn '\r' part) = [] ∧ ∃ segment ∈ splitOn '\r' part, Candidate segment := by
  rw [skipped_eq, List.mem_flatMap]
  constructor
  · rintro ⟨⟨part, number⟩, hpart, hline⟩
    simp only at hline
    split at hline
    · next hempty =>
      obtain ⟨segment, hsegment, rfl⟩ := List.mem_map.mp hline
      obtain ⟨hmem, hcandidate⟩ := List.mem_filter.mp hsegment
      exact ⟨part, List.mem_zipIdx_iff_getElem?.mp hpart, List.isEmpty_iff.mp hempty, segment, hmem,
        isCandidate_iff.mp hcandidate⟩
    · cases hline
  · rintro ⟨part, hpart, hempty, segment, hmem, hcandidate⟩
    refine ⟨(part, line), List.mem_zipIdx_iff_getElem?.mpr hpart, ?_⟩
    simp only [hempty, List.isEmpty_nil, if_true]
    exact List.mem_map.mpr ⟨segment, List.mem_filter.mpr ⟨hmem, isCandidate_iff.mpr hcandidate⟩, rfl⟩

/-- **No directive vanishes.** The lines on which directives are found and the lines that are reported as skipped have
none in common, and together they are the lines on which a segment opens with a keyword. -/
theorem found_or_skipped (text : List Char) (line : Nat) :
    ¬(line ∈ (parse text).map (·.line) ∧ line ∈ skipped text) ∧
    (line ∈ (parse text).map (·.line) ∨ line ∈ skipped text ↔
      ∃ segment, StandsOn text line segment ∧ Candidate segment) := by
  simp only [mem_lines_parse_iff, mem_skipped_iff, standsOn_iff]
  constructor
  · rintro ⟨⟨part, hpart, hne⟩, ⟨part', hpart', hempty, -⟩⟩
    obtain rfl := Option.some.inj (hpart.symm.trans hpart')
    exact hne hempty
  · constructor
    · rintro (⟨part, hpart, hne⟩ | ⟨part, hpart, -, segment, hmem, hcandidate⟩)
      · obtain ⟨o, ho⟩ := List.exists_mem_of_ne_nil _ hne
        obtain ⟨segment, hmem, hsegment⟩ := List.mem_filterMap.mp ho
        exact ⟨segment, ⟨part, hpart, hmem⟩, candidate_of_occurrence? hsegment⟩
      · exact ⟨segment, ⟨part, hpart, hmem⟩, hcandidate⟩
    · rintro ⟨segment, ⟨part, hpart, hmem⟩, hcandidate⟩
      by_cases hempty : lineOccurrences line (splitOn '\r' part) = []
      · exact Or.inr ⟨part, hpart, hempty, segment, hmem, hcandidate⟩
      · exact Or.inl ⟨part, hpart, hempty⟩

-- A line is reported only if nothing is found on it: the last segment here shares its line with a directive.
example : skipped "@component\n@threat SQLi\r@tests".toList = [0] := by decide +kernel

end Directive
end ThreatModel
