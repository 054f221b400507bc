import Mathlib
import ThreatModel.Proofs.Directive.Written

/-!
# `Proofs.Directive.Behind` — what stands behind the fields of a text

A text is cut into the same fields whatever tail is set off from it, unless it lacks its last field: then what stands
behind it is taken for that field. Which of the two it is does not depend on what stands there.

## Contents

* `Foreign`, `Behind` — what can stand behind a text.
* `link?_behind` — clause words that are found only with more text behind.
* `cut?_append`, `cut?_behind` — the cut of a text with more text behind.
-/

namespace ThreatModel
namespace Directive

open Text

/-! ## Texts that end in a word -/

/-- Without the gaps before it a text that ends in a word is still there. -/
theorem Ends.exists_kept {text : List Char} (h : Ends text) (hne : text ≠ []) :
    ∃ gaps kept, text = gaps ++ kept ∧ kept ≠ [] ∧ ∀ behind, (text ++ behind).dropWhile isGap = kept ++ behind := by
  have hkept : text.dropWhile isGap ≠ [] := by
    intro hnil
    have hgap := gaps_iff_dropWhile.mpr hnil _ (List.getLast_mem hne)
    exact absurd hgap (by simp [h _ (List.getLast?_eq_some_getLast hne)])
  refine ⟨text.takeWhile isGap, text.dropWhile isGap, List.takeWhile_append_dropWhile.symm, hkept, fun behind => ?_⟩
  rw [List.dropWhile_append]
  simp [hkept]

/-! ## Words behind a text -/

/-- What begins with a gap in a text with one word holds this word, or gaps only. -/
theorem Lone.back {run front back : List Char} (h : Lone run (front ++ back)) (hback : SetOff back) :
    Lone run back ∨ Gaps back := by
  obtain ⟨before, after, hbefore, hafter, hrun, heq⟩ := h
  rw [List.append_assoc] at heq
  rcases List.append_eq_append_iff.mp heq with ⟨more, hmore, hrest⟩ | ⟨more, hmore, hrest⟩
  · have hgaps : Gaps more := fun c hc => hbefore c (by rw [hmore]; exact List.mem_append_right _ hc)
    exact Or.inl ⟨more, after, hgaps, hafter, hrun, by rw [hrest, List.append_assoc]⟩
  · rcases List.append_eq_append_iff.mp hrest with ⟨inner, hinner, hend⟩ | ⟨inner, hinner, hend⟩
    · exact Or.inr fun c hc => hafter c (by rw [hend]; exact List.mem_append_right _ hc)
    · cases inner with
      | nil => exact Or.inr (by rw [hend]; exact hafter)
      | cons c inner =>
        have hgap := hback c (by rw [hend]; rfl)
        exact absurd hgap (by simp [hrun c (by simp [hinner])])

/-- A text with one word is not cut at any other. -/
theorem Lone.cut?_eq_none {words : List (List Char)} (hwords : IsWords words) {run text : List Char}
    (h : Lone run text) (hrun : run ∉ words) : cut? words text = none := by
  by_contra hsome
  obtain ⟨cut, hcut⟩ := Option.ne_none_iff_exists'.mp hsome
  obtain ⟨-, hmem, ⟨behind, rfl, hlink⟩, -⟩ := cut?_eq_some hcut
  obtain ⟨hne, hword⟩ := hwords _ hmem
  have hsetOff : SetOff behind := by
    obtain ⟨-, before, gap, hbefore, hgaps, -, rfl⟩ := link?_eq_some hlink
    rw [List.append_assoc]
    exact hgaps.setOff hbefore _
  have hnone : link? cut.word behind = none := by
    rcases h.back hsetOff with hback | hback
    · exact hback.link?_eq_none hne hword fun heq => hrun (heq ▸ hmem)
    · exact hback.lone.link?_eq_none hne hword hne
  rw [hnone] at hlink
  cases hlink

/-- The word of a trial, which says whether a text lacks a field. -/
def trial : List Char := [' ', 'x']

/-- A word that stands between no fields: a terminator, or the word of a trial. -/
inductive Foreign : List Char → Prop where
  | trial : Foreign ['x']
  | terminator {run : List Char} : Terminator run → Foreign run

theorem Foreign.ne_nil {run : List Char} (h : Foreign run) : run ≠ [] := by
  cases h with
  | trial => simp
  | terminator h => exact h.ne_nil

theorem Foreign.not_isSpace {run : List Char} (h : Foreign run) : ∀ c ∈ run, isSpace c = false := by
  cases h with
  | trial => simp [isSpace]
  | terminator h => exact h.not_isSpace

/-- What stands behind a text: gaps around one word at most, which stands between no fields. -/
structure Behind (run text : List Char) : Prop where
  lone : Lone run text
  setOff : SetOff text
  foreign : run = [] ∨ Foreign run

theorem behind_trial : Behind ['x'] trial where
  lone := ⟨[' '], [], by decide, List.forall_mem_nil _, by simp [isGap], rfl⟩
  setOff := by decide
  foreign := Or.inr .trial

theorem Tail.behind {tail : List Char} (h : Tail tail) (hsetOff : SetOff tail) : ∃ run, Behind run tail := by
  obtain ⟨run, hrun, hlone⟩ := h.lone
  exact ⟨run, hlone, hsetOff, hrun.imp_right .terminator⟩

theorem Gaps.behind {gaps : List Char} (h : Gaps gaps) : Behind [] gaps where
  lone := h.lone
  setOff := fun c hc => h c (List.mem_of_mem_head? hc)
  foreign := Or.inl rfl

/-- A foreign word stands behind one gap at least, and what is left is not empty. -/
theorem Behind.exists_cons {run text : List Char} (h : Behind run text) (hforeign : Foreign run) :
    ∃ gap rest, isGap gap = true ∧ rest ≠ [] ∧ text = gap :: rest := by
  obtain ⟨⟨before, after, hbefore, -, hrun, rfl⟩, hsetOff, -⟩ := h
  obtain ⟨c, more, rfl⟩ := List.exists_cons_of_ne_nil hforeign.ne_nil
  cases before with
  | nil => exact absurd (hsetOff c rfl) (by simp [hrun c List.mem_cons_self])
  | cons gap before => exact ⟨gap, before ++ (c :: more) ++ after, hbefore gap List.mem_cons_self, by simp, by simp⟩

/-- Clause words, none of which is foreign. -/
structure IsClause (words : List (List Char)) : Prop where
  isWords : IsWords words
  not_foreign : ∀ word ∈ words, ¬Foreign word

theorem isClause_of_all {words : List (List Char)} (h : (words.all fun word =>
    !word.isEmpty && (word.all fun c => !isGap c) && !isTerminator word && word ≠ ['x']) = true) : IsClause words := by
  have hall := List.all_eq_true.mp h
  simp only [Bool.and_eq_true, Bool.not_eq_true', decide_eq_true_eq] at hall
  refine ⟨fun word hword => ?_, fun word hword hforeign => ?_⟩
  · obtain ⟨⟨⟨hne, hgap⟩, -⟩, -⟩ := hall word hword
    exact ⟨by simpa using hne, by simpa [List.all_eq_true] using hgap⟩
  · obtain ⟨⟨-, hterminator⟩, htrial⟩ := hall word hword
    cases hforeign with
    | trial => exact htrial rfl
    | terminator h => exact absurd (isTerminator_iff.mpr h) (by simp [hterminator])

theorem Behind.not_mem {words : List (List Char)} (hwords : IsClause words) {run text : List Char}
    (h : Behind run text) : run ∉ words := by
  intro hmem
  rcases h.foreign with hnil | hforeign
  · exact (hwords.isWords run hmem).1 hnil
  · exact hwords.not_foreign run hmem hforeign

theorem Behind.cut?_eq_none {words : List (List Char)} (hwords : IsClause words) {run text : List Char}
    (h : Behind run text) : cut? words text = none ∧ cut? words (text.dropWhile isGap) = none :=
  ⟨h.lone.cut?_eq_none hwords.isWords (h.not_mem hwords),
    h.lone.lone_dropWhile.cut?_eq_none hwords.isWords (h.not_mem hwords)⟩

/-! ## Clause words with more text behind -/

/-- A clause word that is found is found with more text behind. -/
theorem link?_append_some {word text rest : List Char} (hne : word ≠ []) (hword : ∀ c ∈ word, isGap c = false)
    (h : link? word text = some rest) (behind : List Char) : link? word (text ++ behind) = some (rest ++ behind) := by
  obtain ⟨hrest, before, gap, hbefore, hgaps, hgap, rfl⟩ := link?_eq_some h
  have hlink := link?_append hne hword hbefore hgaps hgap (List.append_ne_nil_of_left_ne_nil hrest behind)
  rw [List.append_assoc, List.cons_append]
  exact hlink

/-- A clause word that is found only with more text behind stands at the end of the text. -/
theorem link?_behind {word text behind rest : List Char} (hne : word ≠ []) (hword : ∀ c ∈ word, isGap c = false)
    (htext : text ≠ []) (hends : Ends text) (hbehind : SetOff behind) (hnone : link? word text = none)
    (h : link? word (text ++ behind) = some rest) :
    ∃ before gap, before ≠ [] ∧ Gaps before ∧ text = before ++ word ∧ isGap gap = true ∧ rest ≠ [] ∧
      behind = gap :: rest := by
  obtain ⟨hrest, before, gap, hbefore, hgaps, hgap, heq⟩ := link?_eq_some h
  obtain ⟨more, htext, hmore⟩ := run_inside htext hends hbehind hgaps hword heq
  cases more with
  | nil => exact ⟨before, gap, hbefore, hgaps, by rw [htext, List.append_nil], hgap, hrest, hmore.symm⟩
  | cons d more =>
    -- The word ends inside the text, so it would be found there, because the text does not end in the gap after it.
    obtain ⟨rfl, -⟩ := List.cons_eq_cons.mp hmore
    have hleft : more ≠ [] := by
      rintro rfl
      have hlast := hends gap (by rw [htext, List.getLast?_concat]; rfl)
      exact absurd hgap (by simp [hlast])
    rw [htext, link?_append hne hword hbefore hgaps hgap hleft] at hnone
    cases hnone

/-- Behind the gaps at its start a word does not hold another one with a gap behind it. -/
theorem not_gap_behind_word {before word front other rest : List Char} {gap : Char} (hbefore : Gaps before)
    (hword : ∀ c ∈ word, isGap c = false) (hne : other ≠ []) (hother : ∀ c ∈ other, isGap c = false)
    (hgap : isGap gap = true) : before ++ word ≠ front ++ other ++ gap :: rest := by
  intro heq
  rcases List.append_eq_append_iff.mp heq with ⟨more, -, hmore⟩ | ⟨more, hmore, -⟩
  · have hmem : gap ∈ word := by simp [hmore]
    exact absurd hgap (by simp [hword gap hmem])
  · obtain ⟨c, hc⟩ := List.exists_mem_of_ne_nil other hne
    have hmem := hbefore c (by rw [hmore]; simp [hc])
    exact absurd hmem (by simp [hother c hc])

/-- A text that is not cut has no clause word behind its first character, and what comes after it is not cut. -/
theorem links_of_cut?_cons_eq_none {words : List (List Char)} {c : Char} {text : List Char}
    (h : cut? words (c :: text) = none) : (∀ word ∈ words, link? word text = none) ∧ cut? words text = none := by
  rw [cut?] at h
  split at h
  · cases h
  · next hfind =>
    refine ⟨fun word hmem => ?_, by simpa using h⟩
    simpa using List.findSome?_eq_none_iff.mp hfind word hmem

/-- Where no clause word stands behind the first character, the cut is one of what comes after it. -/
theorem cut?_cons_of_forall_none {words : List (List Char)} {text : List Char}
    (h : ∀ word ∈ words, link? word text = none) (c : Char) :
    cut? words (c :: text) = (cut? words text).map fun cut => { cut with field := c :: cut.field } := by
  have hnone : (words.findSome? fun word => (link? word text).map (Prod.mk word)) = none :=
    List.findSome?_eq_none_iff.mpr fun word hmem => by rw [h word hmem, Option.map_none]
  rw [cut?, hnone]

theorem findSome?_eq_of_unique {α β : Type} {f : α → Option β} {xs : List α} {x : α} {b : β} (hx : x ∈ xs)
    (hfx : f x = some b) (hunique : ∀ y ∈ xs, f y = none ∨ f y = some b) : xs.findSome? f = some b := by
  induction xs with
  | nil => cases hx
  | cons y ys ih =>
    rw [List.findSome?_cons]
    rcases hunique y List.mem_cons_self with hy | hy
    · rw [hy]
      rcases List.mem_cons.mp hx with rfl | hx
      · rw [hfx] at hy
        cases hy
      · exact ih hx fun z hz => hunique z (List.mem_cons_of_mem _ hz)
    · rw [hy]

/-- Where one clause word stands behind the first character, and no other does, the cut is there. -/
theorem cut?_cons_of_unique {words : List (List Char)} {text word rest : List Char} (hmem : word ∈ words)
    (hlink : link? word text = some rest)
    (hunique : ∀ other ∈ words, ∀ found, link? other text = some found → other = word ∧ found = rest) (c : Char) :
    cut? words (c :: text) = some ⟨[c], word, rest⟩ := by
  have hsome : (words.findSome? fun other => (link? other text).map (Prod.mk other)) = some (word, rest) := by
    refine findSome?_eq_of_unique hmem (by rw [hlink, Option.map_some]) fun other hother => ?_
    cases hfound : link? other text with
    | none => exact Or.inl rfl
    | some found =>
      obtain ⟨rfl, rfl⟩ := hunique other hother found hfound
      exact Or.inr rfl
  rw [cut?, hsome]

/-- At the start of a text that holds a word with a gap behind it the same clause words are found with more text
behind. -/
theorem link?_append_of_inside {front inside rest behind word : List Char} {gap : Char} (hinside : inside ≠ [])
    (hinsideGap : ∀ c ∈ inside, isGap c = false) (hgap : isGap gap = true)
    (hends : Ends (front ++ inside ++ gap :: rest)) (hbehind : SetOff behind) (hne : word ≠ [])
    (hword : ∀ c ∈ word, isGap c = false) :
    link? word (front ++ inside ++ gap :: rest ++ behind)
      = (link? word (front ++ inside ++ gap :: rest)).map (· ++ behind) := by
  cases hlink : link? word (front ++ inside ++ gap :: rest) with
  | some found => exact link?_append_some hne hword hlink behind
  | none =>
    by_contra hsome
    obtain ⟨found, hfound⟩ := Option.ne_none_iff_exists'.mp hsome
    obtain ⟨before, -, -, hbefore, hend, -⟩ := link?_behind hne hword (by simp) hends hbehind hlink hfound
    exact not_gap_behind_word hbefore hword hinside hinsideGap hgap hend.symm

/-- The nearest cut of a text is the nearest one with more text behind. -/
theorem cut?_append {words : List (List Char)} (hwords : IsWords words) {text behind : List Char} {cut : Cut}
    (hends : Ends text) (hbehind : SetOff behind) (h : cut? words text = some cut) :
    cut? words (text ++ behind) = some { cut with rest := cut.rest ++ behind } := by
  induction text generalizing cut with
  | nil => cases h
  | cons c text ih =>
    have hends : Ends text := @Ends.back [c] text hends
    -- The text holds a clause word with a gap behind it.
    obtain ⟨hfield, hmem, ⟨after, htext, hlink⟩, -⟩ := cut?_eq_some h
    obtain ⟨-, before, gap, -, -, hgap, rfl⟩ := link?_eq_some hlink
    obtain ⟨d, field, hd⟩ := List.exists_cons_of_ne_nil hfield
    rw [hd, List.cons_append, List.cons_eq_cons] at htext
    obtain ⟨-, htext⟩ := htext
    have hsplit : text = field ++ before ++ cut.word ++ gap :: cut.rest := by
      rw [htext]
      simp only [List.append_assoc]
    have hlinks : ∀ word ∈ words, link? word (text ++ behind) = (link? word text).map (· ++ behind) := by
      intro word hword
      rw [hsplit] at hends ⊢
      exact link?_append_of_inside (hwords _ hmem).1 (hwords _ hmem).2 hgap hends hbehind (hwords word hword).1
        (hwords word hword).2
    have hfind : (words.findSome? fun word => (link? word (text ++ behind)).map (Prod.mk word))
        = (words.findSome? fun word => (link? word text).map (Prod.mk word)).map (Prod.map id (· ++ behind)) := by
      rw [List.map_findSome?]
      refine findSome?_congr fun word hmem => ?_
      rw [hlinks word hmem, Function.comp_apply, Option.map_map, Option.map_map]
      rfl
    rw [List.cons_append, cut?, hfind]
    rw [cut?] at h
    split at h
    · next word found heq =>
      obtain rfl := Option.some.inj h
      rw [heq]
      rfl
    · next heq =>
      obtain ⟨inner, hinner, rfl⟩ := Option.map_eq_some_iff.mp h
      rw [heq]
      simp only [Option.map_none, ih hends hinner, Option.map_some]

/-- In gaps and a word no other word is found with more text behind, and behind this one all that stands there is
left. -/
theorem eq_of_link?_behind {before word other behind rest : List Char} (hne : word ≠ [])
    (hword : ∀ c ∈ word, isGap c = false) (hotherNe : other ≠ []) (hother : ∀ c ∈ other, isGap c = false)
    (hbefore : Gaps before) (hends : Ends (before ++ word)) (hbehind : SetOff behind)
    (hnone : link? other (before ++ word) = none) (h : link? other (before ++ word ++ behind) = some rest) :
    other = word ∧ behind.tail = rest ∧ rest ≠ [] := by
  obtain ⟨gaps, gap, -, hgaps, hend, -, hrest, rfl⟩ :=
    link?_behind hotherNe hother (by simp [hne]) hends hbehind hnone h
  have hdrop := congrArg (List.dropWhile isGap) hend
  rw [dropWhile_gaps_append hgaps, dropWhile_gaps_append hbefore, ← List.append_nil other, ← List.append_nil word,
    dropWhile_eq_self_of_forall hotherNe hother, dropWhile_eq_self_of_forall hne hword, List.append_nil,
    List.append_nil] at hdrop
  exact ⟨hdrop.symm, rfl, hrest⟩

/-- Where no clause word is found, and none is all of a text, none is found with any word behind the text either. -/
theorem link?_behind_eq_none {words : List (List Char)} (hwords : IsClause words) {text run behind : List Char}
    (hends : Ends text) (hlinks : ∀ word ∈ words, link? word text = none)
    (hopen : ¬∃ word ∈ words, ∃ before, before ≠ [] ∧ Gaps before ∧ text = before ++ word)
    (hbehind : Behind run behind) : ∀ word ∈ words, link? word (text ++ behind) = none := by
  intro word hmem
  obtain ⟨hne, hword⟩ := hwords.isWords word hmem
  by_contra hsome
  obtain ⟨rest, hrest⟩ := Option.ne_none_iff_exists'.mp hsome
  by_cases hnil : text = []
  · have hother : word ≠ run := fun heq => hbehind.not_mem hwords (heq ▸ hmem)
    rw [hnil, List.nil_append, hbehind.lone.link?_eq_none hne hword hother] at hrest
    cases hrest
  · obtain ⟨before, -, hbefore, hgaps, hend, -⟩ :=
      link?_behind hne hword hnil hends hbehind.setOff (hlinks word hmem) hrest
    exact hopen ⟨word, hmem, before, hbefore, hgaps, hend⟩

/-- **A text that is not cut** is not cut with any word behind it either, or ends in a clause word, behind which any
word is left. -/
theorem cut?_behind {words : List (List Char)} (hwords : IsClause words) {text : List Char} (hends : Ends text)
    (hnone : cut? words text = none) :
    (∀ run behind, Behind run behind → cut? words (text ++ behind) = none) ∨
      ∃ field, ∃ word ∈ words, word <:+ text ∧ ∀ run behind, Behind run behind →
        cut? words (text ++ behind) = if behind.tail = [] then none else some ⟨field, word, behind.tail⟩ := by
  induction text with
  | nil => exact Or.inl fun run behind hbehind => (hbehind.cut?_eq_none hwords).1
  | cons c text ih =>
    have hends : Ends text := @Ends.back [c] text hends
    obtain ⟨hlinks, hinner⟩ := links_of_cut?_cons_eq_none hnone
    by_cases hopen : ∃ word ∈ words, ∃ before, before ≠ [] ∧ Gaps before ∧ text = before ++ word
    · -- The text ends in a clause word, which is cut if something is left behind it.
      obtain ⟨word, hmem, before, hbefore, hgaps, rfl⟩ := hopen
      obtain ⟨hne, hword⟩ := hwords.isWords word hmem
      refine Or.inr ⟨[c], word, hmem, ⟨c :: before, by simp⟩, fun run behind hbehind => ?_⟩
      have hfound : ∀ other ∈ words, ∀ rest, link? other (before ++ word ++ behind) = some rest →
          other = word ∧ behind.tail = rest ∧ rest ≠ [] := fun other hother rest hlink =>
        eq_of_link?_behind hne hword (hwords.isWords other hother).1 (hwords.isWords other hother).2 hgaps hends
          hbehind.setOff (hlinks other hother) hlink
      rw [List.cons_append]
      split
      · next htail =>
        have hnoLinks : ∀ other ∈ words, link? other (before ++ word ++ behind) = none := by
          intro other hother
          by_contra hsome
          obtain ⟨rest, hrest⟩ := Option.ne_none_iff_exists'.mp hsome
          obtain ⟨-, heq, hrestNe⟩ := hfound other hother rest hrest
          exact hrestNe (heq.symm.trans htail)
        rw [cut?_cons_of_forall_none hnoLinks]
        rcases ih hends hinner with hnot | ⟨field, other, -, -, hother⟩
        · rw [hnot run behind hbehind, Option.map_none]
        · rw [hother run behind hbehind, if_pos htail, Option.map_none]
      · next htail =>
        obtain ⟨gap, rest, rfl⟩ := List.exists_cons_of_ne_nil (fun h : behind = [] => htail (by rw [h]; rfl))
        have hlink := link?_append hne hword hbefore hgaps (hbehind.setOff gap rfl) htail
        refine cut?_cons_of_unique hmem hlink (fun other hother found hother' => ?_) c
        obtain ⟨rfl, rfl, -⟩ := hfound other hother found hother'
        exact ⟨rfl, rfl⟩
    · have hnoLinks : ∀ run behind, Behind run behind → ∀ word ∈ words, link? word (text ++ behind) = none :=
        fun run behind => link?_behind_eq_none hwords hends hlinks hopen
      rcases ih hends hinner with hnot | ⟨field, word, hmem, hsuffix, hword⟩
      · refine Or.inl fun run behind hbehind => ?_
        rw [List.cons_append, cut?_cons_of_forall_none (hnoLinks run behind hbehind), hnot run behind hbehind,
          Option.map_none]
      · refine Or.inr ⟨c :: field, word, hmem, hsuffix.trans (List.suffix_cons c text), fun run behind hbehind => ?_⟩
        rw [List.cons_append, cut?_cons_of_forall_none (hnoLinks run behind hbehind), hword run behind hbehind]
        split <;> rfl

end Directive
end ThreatModel
