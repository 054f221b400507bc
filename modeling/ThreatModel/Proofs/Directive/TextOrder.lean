import Mathlib
import ThreatModel.Proofs.Directive.Lines

/-!
# `Proofs.Directive.TextOrder` — the order in which the directives of a text are listed

A text lists its declarations before its relations, and either of them line by line. On a line with several
segments the order is that of the families, so within one family the listing keeps the order of the text. As no
line reaches into the next one, two texts joined by a line feed list what each of them lists, the second one
further down.

## Contents

* `found`, `inTextOrder` — the directives of a text, line by line and one after the other.
* `declared`, `related` — the two halves of a listing, and `parse_eq_append`.
* `filter_family_parse` — a listing keeps the order of each family.
* `found_eq` — the lines of a text are the parts between its line feeds.
* `Occurrence.later`, `found_append` — a text below another one.
* `parse_append_line` — the listing of two texts joined by a line feed.
* `filter_line_parse` — what the upper lines of a text list.
* `parse_last_line` — joined lines that differ in the last one.
-/

namespace ThreatModel
namespace Directive

open Text

/-! ## Text order -/

/-- The directives of a text, for every line those of its segments in their order. -/
def found (text : List Char) : List (List Occurrence) :=
  (segments text).zipIdx.map fun (line, number) => lineOccurrences number line

/-- The directives of a text in the order in which they stand in it. -/
def inTextOrder (text : List Char) : List Occurrence := (found text).flatten

/-- The declarations that a text lists. -/
def declared (text : List Char) : List Occurrence := (parse text).filter (·.family.isDeclaration)

/-- The directives other than declarations that a text lists. -/
def related (text : List Char) : List Occurrence := (parse text).filter (!·.family.isDeclaration)

theorem parse_eq (text : List Char) :
    parse text = (found text).flatMap (inFamilies Family.declarations)
      ++ (found text).flatMap (inFamilies Family.relations) := rfl

/-- A text lists what is found in it, in another order. -/
theorem parse_perm_inTextOrder (text : List Char) : (parse text).Perm (inTextOrder text) := by
  have hperm := parse_perm text
  rwa [List.flatMap_def] at hperm

/-! ## The two halves of a listing -/

theorem Family.isDeclaration_iff (family : Family) :
    family.isDeclaration = true ↔ family ∈ Family.declarations := by
  cases family <;> decide

theorem Family.not_isDeclaration_iff (family : Family) :
    family.isDeclaration = false ↔ family ∈ Family.relations := by
  cases family <;> decide

theorem mem_inFamilies {families : List Family} {occurrences : List Occurrence} {o : Occurrence} :
    o ∈ inFamilies families occurrences ↔ o ∈ occurrences ∧ o.family ∈ families := by
  simp only [inFamilies, List.mem_flatMap, List.mem_filter, decide_eq_true_eq]
  constructor
  · rintro ⟨family, hfamily, ho, rfl⟩
    exact ⟨ho, hfamily⟩
  · rintro ⟨ho, hfamily⟩
    exact ⟨o.family, hfamily, ho, rfl⟩

/-- What holds of all directives of some families holds of all that is listed of them. -/
theorem filter_listing_self {families : List Family} {p : Occurrence → Bool}
    (h : ∀ o : Occurrence, o.family ∈ families → p o = true) (lines : List (List Occurrence)) :
    (lines.flatMap (inFamilies families)).filter p = lines.flatMap (inFamilies families) := by
  apply List.filter_eq_self.mpr
  intro o ho
  obtain ⟨line, -, ho⟩ := List.mem_flatMap.mp ho
  exact h o (mem_inFamilies.mp ho).2

theorem filter_listing_nil {families : List Family} {p : Occurrence → Bool}
    (h : ∀ o : Occurrence, o.family ∈ families → p o = false) (lines : List (List Occurrence)) :
    (lines.flatMap (inFamilies families)).filter p = [] := by
  apply List.filter_eq_nil_iff.mpr
  intro o ho
  obtain ⟨line, -, ho⟩ := List.mem_flatMap.mp ho
  rw [h o (mem_inFamilies.mp ho).2]
  exact Bool.false_ne_true

theorem declared_eq (text : List Char) :
    declared text = (found text).flatMap (inFamilies Family.declarations) := by
  rw [declared, parse_eq, List.filter_append, filter_listing_self, filter_listing_nil, List.append_nil]
  · intro o ho
    exact (Family.not_isDeclaration_iff _).mpr ho
  · intro o ho
    exact (Family.isDeclaration_iff _).mpr ho

theorem related_eq (text : List Char) :
    related text = (found text).flatMap (inFamilies Family.relations) := by
  rw [related, parse_eq, List.filter_append, filter_listing_nil, filter_listing_self, List.nil_append]
  · intro o ho
    rw [(Family.not_isDeclaration_iff _).mpr ho]
    rfl
  · intro o ho
    rw [(Family.isDeclaration_iff _).mpr ho]
    rfl

/-- A listing is its declarations and then all others. -/
theorem parse_eq_append (text : List Char) : parse text = declared text ++ related text := by
  rw [declared_eq, related_eq, parse_eq]

/-- A text lists as many directives as there are declarations and other directives in it. -/
theorem length_parse (text : List Char) :
    (parse text).length = (inTextOrder text).countP (·.family.isDeclaration)
      + (inTextOrder text).countP (!·.family.isDeclaration) := by
  have hcount := List.length_eq_countP_add_countP (fun o : Occurrence => o.family.isDeclaration) (l := inTextOrder text)
  rw [(parse_perm_inTextOrder text).length_eq, hcount]
  simp

/-! ## The order within a family -/

/-- Grouping by families keeps the order within each of them. -/
theorem filter_inFamilies {families : List Family} (hnodup : families.Nodup) {family : Family}
    (h : family ∈ families) (occurrences : List Occurrence) :
    (inFamilies families occurrences).filter (·.family = family)
      = occurrences.filter (·.family = family) := by
  induction families with
  | nil => exact absurd h List.not_mem_nil
  | cons first more ih =>
    obtain ⟨hfirst, hmore⟩ := List.nodup_cons.mp hnodup
    have hcons : inFamilies (first :: more) occurrences
        = (occurrences.filter fun o => o.family = first) ++ inFamilies more occurrences := rfl
    rw [hcons, List.filter_append, List.filter_filter]
    by_cases heq : family = first
    · -- The group of the family is the first one, and no other group has anything of it.
      subst heq
      have hnone : (inFamilies more occurrences).filter (·.family = family) = [] := by
        apply List.filter_eq_nil_iff.mpr
        intro o ho hfamily
        have hmem := (mem_inFamilies.mp ho).2
        rw [of_decide_eq_true hfamily] at hmem
        exact hfirst hmem
      rw [hnone, List.append_nil]
      simp only [Bool.and_self]
    · have hnone : (occurrences.filter fun o => decide (o.family = family) && decide (o.family = first)) = [] := by
        apply List.filter_eq_nil_iff.mpr
        intro o _ hboth
        simp only [Bool.and_eq_true, decide_eq_true_eq] at hboth
        exact heq (hboth.1.symm.trans hboth.2)
      rw [hnone, List.nil_append]
      exact ih hmore ((List.mem_cons.mp h).resolve_left heq)

/-- **A listing keeps the order of each family**: what it lists of a family it lists in the order of the text. -/
theorem filter_family_parse (text : List Char) (family : Family) :
    (parse text).filter (·.family = family) = (inTextOrder text).filter (·.family = family) := by
  -- Line by line both halves together give what the line holds of the family.
  have hline : ∀ families : List Family, families.Nodup → family ∈ families →
      ((found text).flatMap (inFamilies families)).filter (·.family = family)
        = (inTextOrder text).filter (·.family = family) := by
    intro families hnodup hmem
    rw [inTextOrder, List.filter_flatMap, List.filter_flatten, List.flatMap_def]
    congr 1
    exact List.map_congr_left fun line _ => filter_inFamilies hnodup hmem line
  have hnone : ∀ families : List Family, family ∉ families →
      ((found text).flatMap (inFamilies families)).filter (·.family = family) = [] := by
    intro families hnot
    apply filter_listing_nil
    intro o ho
    apply decide_eq_false
    rintro rfl
    exact hnot ho
  rw [parse_eq, List.filter_append]
  by_cases hfamily : family ∈ Family.declarations
  · have hnot : family ∉ Family.relations := by
      intro hmem
      have hdeclaration := (Family.isDeclaration_iff family).mpr hfamily
      rw [(Family.not_isDeclaration_iff family).mpr hmem] at hdeclaration
      exact Bool.false_ne_true hdeclaration
    rw [hline _ (by decide) hfamily, hnone _ hnot, List.append_nil]
  · have hmem : family ∈ Family.relations := by
      apply (Family.not_isDeclaration_iff family).mp
      exact eq_false_of_ne_true fun h => hfamily ((Family.isDeclaration_iff family).mp h)
    rw [hnone _ hfamily, hline _ (by decide) hmem, List.nil_append]

/-! ## Lines -/

/-- The lines of a text are the parts between its line feeds: a carriage return at the end of a part makes no
difference to what is found in it. -/
theorem found_eq (text : List Char) :
    found text = (splitOn '\n' text).zipIdx.map fun (part, number) => lineOccurrences number (splitOn '\r' part) := by
  have hne := splitOn_ne_nil '\n' text
  have hparts : splitOn '\n' text = (splitOn '\n' text).dropLast ++ [(splitOn '\n' text).getLast hne] :=
    (List.dropLast_append_getLast hne).symm
  rw [found, segments]
  conv_rhs => rw [hparts]
  simp only [List.getLast?_eq_some_getLast hne, Option.getD_some, List.map_append, List.map_map,
    List.zipIdx_append, List.zipIdx_map, List.length_map, Prod.map_fst, Prod.map_snd, Function.comp_def, id_eq,
    lineOccurrences_dropReturn]

/-- The directive as it is found the given number of lines further down. -/
def Occurrence.later (o : Occurrence) (lines : Nat) : Occurrence := { o with line := o.line + lines }

theorem lineOccurrences_later (number lines : Nat) (segments : List (List Char)) :
    lineOccurrences (number + lines) segments = (lineOccurrences number segments).map (·.later lines) := by
  rw [lineOccurrences_eq (number + lines) number]
  apply List.map_congr_left
  intro o ho
  rw [Occurrence.atLine, Occurrence.later, line_of_mem_lineOccurrences ho]

theorem inFamilies_later (families : List Family) (lines : Nat) (occurrences : List Occurrence) :
    inFamilies families (occurrences.map (·.later lines)) = (inFamilies families occurrences).map (·.later lines) := by
  rw [inFamilies, inFamilies, List.map_flatMap]
  apply List.flatMap_congr
  intro family _
  rw [List.filter_map]
  rfl

/-- A text has one line more than it has line feeds. -/
theorem length_splitOn (separator : Char) (text : List Char) :
    (splitOn separator text).length = text.count separator + 1 := by
  induction text with
  | nil => rfl
  | cons c rest ih =>
    rw [splitOn_cons, List.count_cons]
    by_cases h : c = separator
    · rw [if_pos h, List.length_cons, ih]
      simp [h]
    · rw [if_neg h, List.length_modifyHead, ih]
      simp [h]

/-- **A line feed separates**: below a text and a line feed another text holds what it holds by itself, that many
lines further down. -/
theorem found_append (front back : List Char) :
    found (front ++ '\n' :: back)
      = found front ++ (found back).map fun line => line.map (·.later (front.count '\n' + 1)) := by
  have hdown : (splitOn '\n' back).zipIdx (0 + (splitOn '\n' front).length)
      = (splitOn '\n' back).zipIdx.map (Prod.map id (· + (front.count '\n' + 1))) := by
    rw [length_splitOn, Nat.zero_add, List.map_snd_add_zipIdx_eq_zipIdx, Nat.add_zero]
  rw [found_eq, found_eq front, found_eq back, splitOn_append_cons, List.zipIdx_append, List.map_append, hdown,
    List.map_map, List.map_map]
  congr 1
  apply List.map_congr_left
  rintro ⟨part, number⟩ _
  exact lineOccurrences_later number _ _

theorem flatMap_inFamilies_append (families : List Family) (front back : List Char) :
    (found (front ++ '\n' :: back)).flatMap (inFamilies families)
      = (found front).flatMap (inFamilies families)
        ++ ((found back).flatMap (inFamilies families)).map (·.later (front.count '\n' + 1)) := by
  rw [found_append, List.flatMap_append, List.flatMap_map, List.map_flatMap]
  congr 1
  apply List.flatMap_congr
  intro line _
  exact inFamilies_later families _ line

/-- **Directives are local to lines.** Two texts joined by a line feed list the declarations of the first and then
those of the second, and likewise the other directives; those of the second text stand as many lines further down
as the first text and the line feed have line feeds, and are the same in all else. -/
theorem parse_append_line (front back : List Char) :
    declared (front ++ '\n' :: back)
      = declared front ++ (declared back).map (·.later (front.count '\n' + 1)) ∧
    related (front ++ '\n' :: back)
      = related front ++ (related back).map (·.later (front.count '\n' + 1)) := by
  constructor
  · rw [declared_eq, declared_eq, declared_eq]
    exact flatMap_inFamilies_append Family.declarations front back
  · rw [related_eq, related_eq, related_eq]
    exact flatMap_inFamilies_append Family.relations front back

/-! ## Part of a text -/

/-- A directive stands on one of the lines of its text. -/
theorem line_lt_of_mem_found {text : List Char} {line : List Occurrence} {o : Occurrence} (hline : line ∈ found text)
    (ho : o ∈ line) : o.line < text.count '\n' + 1 := by
  rw [found_eq] at hline
  obtain ⟨⟨part, number⟩, hpart, rfl⟩ := List.mem_map.mp hline
  rw [line_of_mem_lineOccurrences ho, ← length_splitOn]
  exact List.snd_lt_of_mem_zipIdx hpart

/-- Of a text with another one below it the upper lines list what they list by themselves. -/
theorem filter_line_parse (front back : List Char) :
    (parse (front ++ '\n' :: back)).filter (·.line < front.count '\n' + 1) = parse front := by
  have hhalf : ∀ families : List Family,
      ((found (front ++ '\n' :: back)).flatMap (inFamilies families)).filter (·.line < front.count '\n' + 1)
        = (found front).flatMap (inFamilies families) := by
    intro families
    have hupper : ((found front).flatMap (inFamilies families)).filter (·.line < front.count '\n' + 1)
        = (found front).flatMap (inFamilies families) := by
      apply List.filter_eq_self.mpr
      intro o ho
      obtain ⟨line, hline, ho⟩ := List.mem_flatMap.mp ho
      exact decide_eq_true (line_lt_of_mem_found hline (mem_inFamilies.mp ho).1)
    have hlower : (((found back).flatMap (inFamilies families)).map (·.later (front.count '\n' + 1))).filter
        (·.line < front.count '\n' + 1) = [] := by
      apply List.filter_eq_nil_iff.mpr
      intro o ho
      obtain ⟨under, -, rfl⟩ := List.mem_map.mp ho
      have hline : ¬under.line + (front.count '\n' + 1) < front.count '\n' + 1 := by omega
      simpa [Occurrence.later] using hline
    rw [flatMap_inFamilies_append, List.filter_append, hupper, hlower, List.append_nil]
  rw [parse_eq, List.filter_append, hhalf, hhalf, ← parse_eq]

/-- Joined lines hold a line feed between any two of them. -/
theorem count_intercalate {lines : List (List Char)} (hne : lines ≠ []) (h : ∀ line ∈ lines, '\n' ∉ line) :
    (['\n'].intercalate lines).count '\n' + 1 = lines.length := by
  rw [← length_splitOn, splitOn_intercalate hne h]

/-! ## Texts that list the same -/

theorem parse_eq_iff {x y : List Char} : parse x = parse y ↔ declared x = declared y ∧ related x = related y := by
  constructor
  · intro h
    exact ⟨by rw [declared, h, declared], by rw [related, h, related]⟩
  · rintro ⟨hdeclared, hrelated⟩
    rw [parse_eq_append, parse_eq_append, hdeclared, hrelated]

theorem Occurrence.later_injective (lines : Nat) : Function.Injective fun o : Occurrence => o.later lines := by
  rintro ⟨family, statement, text, line⟩ ⟨family', statement', text', line'⟩ h
  simp only [Occurrence.later, Occurrence.mk.injEq, Nat.add_right_cancel_iff] at h
  obtain ⟨rfl, rfl, rfl, rfl⟩ := h
  rfl

/-- Below the same text two texts list the same just if they do so by themselves. -/
theorem parse_below_iff (text x y : List Char) :
    parse (text ++ '\n' :: x) = parse (text ++ '\n' :: y) ↔ parse x = parse y := by
  have hiff : ∀ families : List Family,
      (found (text ++ '\n' :: x)).flatMap (inFamilies families)
          = (found (text ++ '\n' :: y)).flatMap (inFamilies families)
        ↔ (found x).flatMap (inFamilies families) = (found y).flatMap (inFamilies families) := by
    intro families
    rw [flatMap_inFamilies_append, flatMap_inFamilies_append, List.append_right_inj]
    exact (List.map_injective_iff.mpr (Occurrence.later_injective _)).eq_iff
  simp only [parse_eq_iff, declared_eq, related_eq, hiff]

/-- Joined lines and one more are two texts joined by a line feed. -/
theorem intercalate_concat {lines : List (List Char)} (hne : lines ≠ []) (last : List Char) :
    ['\n'].intercalate (lines ++ [last]) = ['\n'].intercalate lines ++ '\n' :: last := by
  induction lines with
  | nil => exact absurd rfl hne
  | cons line rest ih =>
    by_cases hrest : rest = []
    · subst hrest
      simp
    · rw [List.cons_append, List.intercalate_cons_of_ne_nil (by simp), ih hrest,
        List.intercalate_cons_of_ne_nil hrest]
      simp only [List.append_assoc]

/-- Joined lines that differ in the last one list the same above it, and the same just if their last lines do. -/
theorem parse_last_line {lines : List (List Char)} (h : ∀ line ∈ lines, '\n' ∉ line) (x y : List Char) :
    (parse (['\n'].intercalate (lines ++ [x]))).filter (·.line < lines.length)
        = (parse (['\n'].intercalate (lines ++ [y]))).filter (·.line < lines.length) ∧
      (parse (['\n'].intercalate (lines ++ [x])) = parse (['\n'].intercalate (lines ++ [y])) ↔ parse x = parse y) := by
  by_cases hne : lines = []
  · subst hne
    simp
  · rw [intercalate_concat hne, intercalate_concat hne, ← count_intercalate hne h, filter_line_parse,
      filter_line_parse]
    exact ⟨rfl, parse_below_iff _ x y⟩

end Directive
end ThreatModel
