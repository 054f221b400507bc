import Mathlib
import ThreatModel.Proofs.Directive.Behind

/-!
# `Proofs.Directive.LastField` — texts that have their last field, and texts that lack it

The text after a keyword either has all the fields of its form, or lacks the last one, or lacks more. If it has them
all, or lacks more than one, nothing that stands behind it becomes a field. If it lacks the last one, the word behind it
does, whatever word it is.

## Contents

* `described?_eq` — a description is cut off as a clause is.
* `Finished`, `Lacks` — texts to which nothing is added, and texts that lack their last field.
* `clauses?_finished_or_lacks`, `described?_finished_or_lacks`, `wordThenText?_finished_or_lacks` — each form has only
  these.
* `Family.finished_or_lacks` — so has the text after the keyword of any family.
-/

namespace ThreatModel
namespace Directive

open Text

/-! ## Descriptions -/

theorem isClause_dashes : IsClause [dashes] := isClause_of_all (by decide)

/-- A name and a description are cut at the dashes between them, and a name alone is a last field. -/
theorem described?_eq (text : List Char) : described? text
    = match cut? [dashes] text with
      | some cut =>
        match closing? (cut.rest.dropWhile isGap) with
        | some (description, tail) => some ⟨[cut.field, description], [dashes], tail⟩
        | none => some ⟨[cut.field], [dashes], []⟩
      | none => (closing? text).map fun (name, tail) => ⟨[name], [], tail⟩ := by
  induction text with
  | nil => rfl
  | cons c text ih =>
    rw [described?, cut?, closing?]
    cases hlink : link? dashes text with
    | some rest =>
      cases hclosing : closing? (rest.dropWhile isGap) with
      | none => simp only [List.findSome?_cons, hlink, Option.map_some, hclosing]
      | some found => simp only [List.findSome?_cons, hlink, Option.map_some, hclosing]
    | none =>
      have hfind : ([dashes].findSome? fun word => (link? word text).map (Prod.mk word)) = none := by simp [hlink]
      rw [hfind]
      by_cases htail : isTail text = true
      · -- No dashes stand alone in a tail.
        obtain ⟨run, hrun, hlone⟩ := (isTail_iff.mp htail).lone
        have hmem : run ∉ [dashes] := by
          intro hmem
          obtain rfl := List.mem_singleton.mp hmem
          rcases hrun with hrun | hrun
          · exact dashes_ne_nil hrun
          · exact isClause_dashes.not_foreign dashes List.mem_cons_self (.terminator hrun)
        simp only [htail, if_true, hlone.cut?_eq_none isWords_dashes hmem, Option.map_none, Option.map_some]
      · simp only [htail, Bool.false_eq_true, if_false, ih]
        cases cut? [dashes] text with
        | some cut =>
          simp only [Option.map_some]
          cases closing? (cut.rest.dropWhile isGap) <;> rfl
        | none => cases closing? text <;> rfl

/-! ## Finished texts, and texts that lack a field -/

/-- A text whose phrase is the same with any tail behind it, and in which no word behind it is a field of its own. -/
structure Finished (cut : List Char → Option Phrase) (text : List Char) : Prop where
  same : ∀ tail, Tail tail → SetOff tail → cut (text ++ tail) = (cut text).map fun phrase => { phrase with tail }
  grows : ∀ phrase, cut (text ++ trial) = some phrase → ∃ field ∈ phrase.fields.getLast?, 1 < field.length

/-- A text that lacks its last field: the word behind it is that field. Without a word there are too few fields, unless
the text ends in dashes, which may belong to a name. -/
structure Lacks (cut : List Char → Option Phrase) (text : List Char) (fields words : List (List Char)) : Prop where
  filled : ∀ run behind, Foreign run → Behind run behind → cut (text ++ behind)
    = (closing? (behind.dropWhile isGap)).map fun (field, tail) => ⟨fields ++ [field], words, tail⟩
  blank : ∀ gaps, Gaps gaps → cut (text ++ gaps) = none ∨ dashes <:+ text

section Forms

variable {cut : List Char → Option Phrase} {text kept : List Char}

theorem Terminator.not_mem_trial {run : List Char} (h : Terminator run) : 'x' ∉ run := by
  cases h <;> simp

/-- A text that is not empty has a last field. -/
theorem exists_closing?_of_ne_nil {text : List Char} (hne : text ≠ []) : ∃ found, closing? text = some found := by
  have hfound := exists_closing? hne tail_nil
  rwa [List.append_nil] at hfound

theorem Behind.exists_closing? {run behind : List Char} (h : Behind run behind) (hforeign : Foreign run) :
    ∃ found, closing? (behind.dropWhile isGap) = some found := by
  obtain ⟨after, -, hdrop⟩ := h.lone.dropWhile
  rw [hdrop]
  exact exists_closing?_of_ne_nil (List.append_ne_nil_of_left_ne_nil hforeign.ne_nil after)

/-- A text behind which no word is found is finished. -/
theorem finished_of_none (h : ∀ run behind, Behind run behind → cut (text ++ behind) = none) : Finished cut text where
  same := by
    intro tail htail hsetOff
    obtain ⟨run, hrun⟩ := htail.behind hsetOff
    have hbare := h [] [] (Gaps.behind (List.forall_mem_nil _))
    rw [List.append_nil] at hbare
    rw [h run tail hrun, hbare, Option.map_none]
  grows := by
    intro phrase hphrase
    rw [h ['x'] trial behind_trial] at hphrase
    cases hphrase

/-- A text whose last field goes up to its end is finished. -/
theorem finished_of_closing {fields words : List (List Char)} (hne : kept ≠ []) (hends : Ends kept)
    (hopen : Unclosed kept) (h : ∀ run behind, Behind run behind → cut (text ++ behind)
      = (closing? (kept ++ behind)).map fun (field, tail) => ⟨fields ++ [field], words, tail⟩) : Finished cut text where
  same := by
    have hclosing : ∀ tail, Tail tail → SetOff tail → cut (text ++ tail) = some ⟨fields ++ [kept], words, tail⟩ := by
      intro tail htail hsetOff
      obtain ⟨run, hrun⟩ := htail.behind hsetOff
      rw [h run tail hrun, closing?_unclosed hne hends hopen htail hsetOff, Option.map_some]
    intro tail htail hsetOff
    have hbare := hclosing [] tail_nil (by decide)
    rw [List.append_nil] at hbare
    rw [hclosing tail htail hsetOff, hbare, Option.map_some]
  grows := by
    intro phrase hphrase
    -- The word of the trial ends no comment, so it belongs to the field.
    have hgrown : closing? (kept ++ trial ++ []) = some (kept ++ trial, []) := by
      refine closing?_unclosed (by simp [hne]) ?_ ?_ tail_nil (by decide)
      · intro c hc
        rw [List.getLast?_append_of_ne_nil _ (by simp [trial])] at hc
        obtain rfl := Option.some.inj hc
        decide
      · intro terminator hterminator hsuffix
        obtain ⟨front, hfront⟩ := hsuffix
        have hlast := congrArg List.getLast? hfront
        rw [List.getLast?_append_of_ne_nil _ hterminator.ne_nil, List.getLast?_append_of_ne_nil _ (by simp [trial])]
          at hlast
        exact hterminator.not_mem_trial (List.mem_of_getLast? hlast)
    rw [h ['x'] trial behind_trial, ← List.append_nil (kept ++ trial), hgrown, Option.map_some] at hphrase
    obtain rfl := Option.some.inj hphrase
    refine ⟨kept ++ trial, by simp, by simp [trial]⟩

/-- A clause before a text takes nothing from it. -/
theorem Finished.cons {inner : List Char → Option Phrase} {rest field word : List Char} (h : Finished inner rest)
    (hcut : ∀ behind, SetOff behind → cut (text ++ behind) = (inner (rest ++ behind)).map fun phrase =>
      ⟨field :: phrase.fields, word :: phrase.words, phrase.tail⟩) : Finished cut text where
  same := by
    intro tail htail hsetOff
    have hbare := hcut [] (by decide)
    rw [List.append_nil, List.append_nil] at hbare
    rw [hcut tail hsetOff, h.same tail htail hsetOff, hbare, Option.map_map, Option.map_map]
    rfl
  grows := by
    intro phrase hphrase
    rw [hcut trial behind_trial.setOff] at hphrase
    obtain ⟨later, hlater, rfl⟩ := Option.map_eq_some_iff.mp hphrase
    obtain ⟨last, hlast, hlength⟩ := h.grows later hlater
    refine ⟨last, ?_, hlength⟩
    have hne : later.fields ≠ [] := by
      intro hnil
      rw [hnil] at hlast
      cases hlast
    rwa [List.getLast?_cons_of_ne_nil hne]

theorem Lacks.cons {inner : List Char → Option Phrase} {rest field word : List Char} {fields words : List (List Char)}
    (h : Lacks inner rest fields words) (hsuffix : rest <:+ text)
    (hcut : ∀ behind, SetOff behind → cut (text ++ behind) = (inner (rest ++ behind)).map fun phrase =>
      ⟨field :: phrase.fields, word :: phrase.words, phrase.tail⟩) :
    Lacks cut text (field :: fields) (word :: words) where
  filled := by
    intro run behind hforeign hbehind
    rw [hcut behind hbehind.setOff, h.filled run behind hforeign hbehind, Option.map_map]
    rfl
  blank := by
    intro gaps hgaps
    rcases h.blank gaps hgaps with hnone | hdashes
    · exact Or.inl (by rw [hcut gaps hgaps.behind.setOff, hnone, Option.map_none])
    · exact Or.inr (hdashes.trans hsuffix)

/-- What a cut leaves ends as the text does. -/
theorem suffix_of_cut? {words : List (List Char)} {found : Cut} (h : cut? words text = some found) :
    found.rest ≠ [] ∧ found.rest <:+ text := by
  obtain ⟨-, -, ⟨behind, rfl, hlink⟩, -⟩ := cut?_eq_some h
  obtain ⟨hne, before, gap, -, -, -, rfl⟩ := link?_eq_some hlink
  exact ⟨hne, found.field ++ (before ++ found.word ++ [gap]), by simp⟩

/-! ## The forms -/

/-- A last field alone is there or missing. -/
theorem clauses?_nil_finished_or_lacks (hends : Ends text) (hopen : Unclosed text) :
    Finished (clauses? []) text ∨ Lacks (clauses? []) text [] [] := by
  by_cases hne : text = []
  · subst hne
    refine Or.inr ⟨fun run behind _ _ => rfl, fun gaps hgaps => Or.inl ?_⟩
    rw [List.nil_append, clauses?, gaps_iff_dropWhile.mp hgaps]
    rfl
  · obtain ⟨gaps, kept, rfl, hkept, hdrop⟩ := hends.exists_kept hne
    have hclosing : ∀ behind, clauses? [] (gaps ++ kept ++ behind)
        = (closing? (kept ++ behind)).map fun (field, tail) => ⟨[] ++ [field], [], tail⟩ := by
      intro behind
      rw [clauses?, hdrop]
      rfl
    exact Or.inl (finished_of_closing hkept hends.back hopen.back fun run behind _ => hclosing behind)

/-- A text that ends in the clause word of its first field lacks its last field, if no other clause comes after this
one; otherwise it lacks more. -/
theorem clauses?_of_word {words : List (List Char)} {links : List (List (List Char))}
    (hlinks : ∀ ws ∈ links, IsClause ws) {field word : List Char}
    (hdrop : ∀ behind, (text ++ behind).dropWhile isGap = kept ++ behind)
    (hword : ∀ run behind, Behind run behind → cut? words (kept ++ behind)
      = if behind.tail = [] then none else some ⟨field, word, behind.tail⟩) :
    Finished (clauses? (words :: links)) text ∨ Lacks (clauses? (words :: links)) text [field] [word] := by
  cases links with
  | nil =>
    refine Or.inr ⟨fun run behind hforeign hbehind => ?_, fun gaps hgaps => Or.inl ?_⟩
    · obtain ⟨gap, rest, hgap, hrest, rfl⟩ := hbehind.exists_cons hforeign
      rw [clauses?, hdrop, hword run _ hbehind, List.tail_cons, if_neg hrest, Option.bind_some, clauses?,
        Option.map_map, List.dropWhile_cons_of_pos hgap]
      rfl
    · rw [clauses?, hdrop, hword [] gaps hgaps.behind]
      split
      · rfl
      · have hrest : Gaps gaps.tail := fun c hc => hgaps c (List.mem_of_mem_tail hc)
        rw [Option.bind_some, clauses?, gaps_iff_dropWhile.mp hrest]
        rfl
  | cons next links =>
    -- Behind the clause word another one would have to come, with a field before it.
    refine Or.inl (finished_of_none fun run behind hbehind => ?_)
    rw [clauses?, hdrop, hword run behind hbehind]
    split
    · rfl
    · next hrest =>
      obtain ⟨gap, rest, rfl⟩ := List.exists_cons_of_ne_nil (fun h : behind = [] => hrest (by rw [h]; rfl))
      have hnone := (hbehind.cut?_eq_none (hlinks next List.mem_cons_self)).2
      rw [List.dropWhile_cons_of_pos (hbehind.setOff gap rfl)] at hnone
      rw [Option.bind_some, List.tail_cons, clauses?, hnone, Option.bind_none, Option.map_none]

/-- **Fields with clause words between them** are all there, or the last one is missing, or more than one is. -/
theorem clauses?_finished_or_lacks {links : List (List (List Char))} (hlinks : ∀ words ∈ links, IsClause words)
    (hends : Ends text) (hopen : Unclosed text) : Finished (clauses? links) text ∨
      ∃ fields words, Lacks (clauses? links) text fields words := by
  induction links generalizing text with
  | nil => exact (clauses?_nil_finished_or_lacks hends hopen).imp_right fun h => ⟨_, _, h⟩
  | cons words links ih =>
    have hwords := hlinks words List.mem_cons_self
    have hlater : ∀ ws ∈ links, IsClause ws := fun ws hws => hlinks ws (List.mem_cons_of_mem _ hws)
    by_cases hne : text = []
    · subst hne
      refine Or.inl (finished_of_none fun run behind hbehind => ?_)
      rw [List.nil_append, clauses?, (hbehind.cut?_eq_none hwords).2, Option.bind_none]
    · obtain ⟨gaps, kept, rfl, hkept, hdrop⟩ := hends.exists_kept hne
      have hkeptEnds : Ends kept := hends.back
      cases hcut : cut? words kept with
      | some cut =>
        -- All else is decided behind the clause word.
        obtain ⟨-, hsuffix⟩ := suffix_of_cut? hcut
        have hcons : ∀ behind, SetOff behind → clauses? (words :: links) (gaps ++ kept ++ behind)
            = (clauses? links (cut.rest ++ behind)).map fun phrase =>
              ⟨cut.field :: phrase.fields, cut.word :: phrase.words, phrase.tail⟩ := by
          intro behind hbehind
          rw [clauses?, hdrop, cut?_append hwords.isWords hkeptEnds hbehind hcut, Option.bind_some]
        have hrest := ih hlater (hkeptEnds.suffix hsuffix) (hopen.back.suffix hsuffix)
        rcases hrest with hfinished | ⟨fields, chosen, hlacks⟩
        · exact Or.inl (hfinished.cons hcons)
        · exact Or.inr ⟨_, _, hlacks.cons (hsuffix.trans (List.suffix_append gaps kept)) hcons⟩
      | none =>
        rcases cut?_behind hwords hkeptEnds hcut with hnone | ⟨field, word, -, -, hword⟩
        · refine Or.inl (finished_of_none fun run behind hbehind => ?_)
          rw [clauses?, hdrop, hnone run behind hbehind, Option.bind_none]
        · exact (clauses?_of_word hlater hdrop hword).imp_right fun h => ⟨_, _, h⟩

/-- An empty text lacks its only field, the name. -/
theorem described?_lacks_nil : Lacks (phrase? .described) [] [] [] := by
  refine ⟨fun run behind _ hbehind => ?_, fun gaps hgaps => Or.inl ?_⟩
  · have hnone := (hbehind.cut?_eq_none isClause_dashes).2
    rw [List.nil_append, phrase?, described?_eq, hnone]
    rfl
  · rw [List.nil_append, phrase?, gaps_iff_dropWhile.mp hgaps]
    rfl

/-- A name that dashes follow, with a description behind them, is all there. -/
theorem described?_finished_cut {gaps kept : List Char} {cut : Cut} (hends : Ends kept) (hopen : Unclosed kept)
    (hdrop : ∀ behind, (gaps ++ kept ++ behind).dropWhile isGap = kept ++ behind)
    (hcut : cut? [dashes] kept = some cut) : Finished (phrase? .described) (gaps ++ kept) := by
  obtain ⟨hrest, hsuffix⟩ := suffix_of_cut? hcut
  have hrestEnds := hends.suffix hsuffix
  obtain ⟨between, description, hsplit, hdescription, hdescriptionDrop⟩ := hrestEnds.exists_kept hrest
  have hlast : description <:+ cut.rest := by
    rw [hsplit]
    exact List.suffix_append between description
  have hclosing : ∀ behind, SetOff behind → phrase? .described (gaps ++ kept ++ behind)
      = match closing? (description ++ behind) with
        | some (field, tail) => some ⟨[cut.field, field], [dashes], tail⟩
        | none => some ⟨[cut.field], [dashes], []⟩ := by
    intro behind hbehind
    rw [phrase?, hdrop, described?_eq, cut?_append isWords_dashes hends hbehind hcut]
    simp only [hdescriptionDrop]
  have hform : ∀ run behind, Behind run behind → phrase? .described (gaps ++ kept ++ behind)
      = (closing? (description ++ behind)).map fun (field, tail) => ⟨[cut.field] ++ [field], [dashes], tail⟩ := by
    intro run behind hbehind
    obtain ⟨found, hfound⟩ := exists_closing?_of_ne_nil (List.append_ne_nil_of_left_ne_nil hdescription behind)
    rw [hclosing behind hbehind.setOff, hfound]
    rfl
  exact finished_of_closing hdescription (hrestEnds.suffix hlast) ((hopen.suffix hsuffix).suffix hlast) hform

/-- A name with dashes behind it at the end of the text lacks its description. -/
theorem described?_lacks_word {gaps kept field : List Char}
    (hdrop : ∀ behind, (gaps ++ kept ++ behind).dropWhile isGap = kept ++ behind) (hsuffix : dashes <:+ kept)
    (hword : ∀ run rest, Behind run rest →
      cut? [dashes] (kept ++ rest) = if rest.tail = [] then none else some ⟨field, dashes, rest.tail⟩) :
    Lacks (phrase? .described) (gaps ++ kept) [field] [dashes] := by
  refine ⟨fun run behind hforeign hbehind => ?_, fun _ _ => Or.inr ?_⟩
  · obtain ⟨found, hfound⟩ := hbehind.exists_closing? hforeign
    obtain ⟨gap, rest, hgap, hrest, rfl⟩ := hbehind.exists_cons hforeign
    rw [phrase?, hdrop, described?_eq, hword run _ hbehind, List.tail_cons, if_neg hrest, hfound]
    rw [List.dropWhile_cons_of_pos hgap] at hfound
    simp only [hfound]
    rfl
  · exact hsuffix.trans (List.suffix_append gaps kept)

/-- **A name with or without a description** is all there, or there is no name, or only the description is missing. -/
theorem described?_finished_or_lacks (hends : Ends text) (hopen : Unclosed text) :
    Finished (phrase? .described) text ∨ ∃ fields words, Lacks (phrase? .described) text fields words := by
  by_cases hne : text = []
  · subst hne
    exact Or.inr ⟨_, _, described?_lacks_nil⟩
  · obtain ⟨gaps, kept, rfl, hkept, hdrop⟩ := hends.exists_kept hne
    have hkeptEnds : Ends kept := hends.back
    have hkeptOpen : Unclosed kept := hopen.back
    cases hcut : cut? [dashes] kept with
    | some cut => exact Or.inl (described?_finished_cut hkeptEnds hkeptOpen hdrop hcut)
    | none =>
      rcases cut?_behind isClause_dashes hkeptEnds hcut with hnone | ⟨field, word, hmem, hsuffix, hword⟩
      · have hform : ∀ run behind, Behind run behind → phrase? .described (gaps ++ kept ++ behind)
            = (closing? (kept ++ behind)).map fun (field, tail) => ⟨[] ++ [field], [], tail⟩ := by
          intro run behind hbehind
          rw [phrase?, hdrop, described?_eq, hnone run behind hbehind]
          rfl
        exact Or.inl (finished_of_closing hkept hkeptEnds hkeptOpen hform)
      · obtain rfl := List.mem_singleton.mp hmem
        exact Or.inr ⟨_, _, described?_lacks_word hdrop hsuffix hword⟩

/-- A word at the start of a text is cut off, and the text after it is the last field. -/
theorem wordThenText?_word {word behind : List Char} (hne : word ≠ []) (hword : ∀ c ∈ word, isSpace c = false)
    (hbehind : SetOff behind) : wordThenText? (word ++ behind)
      = (closing? (behind.dropWhile isGap)).map fun (field, tail) => ⟨[word, field], [], tail⟩ := by
  have hnot : ∀ c ∈ word, (!isSpace c) = true := fun c hc => by simp [hword c hc]
  have hempty : word.isEmpty = false := by simp [hne]
  rw [wordThenText?, List.takeWhile_append_of_pos hnot, List.dropWhile_append_of_pos hnot]
  cases behind with
  | nil => rfl
  | cons gap rest =>
    have hgap := hbehind gap rfl
    have hend : (!isSpace gap) = false := by simp [isSpace_of_isGap hgap]
    rw [List.takeWhile_cons, List.dropWhile_cons, List.dropWhile_cons_of_pos hgap]
    simp only [hend, Bool.false_eq_true, if_false, List.append_nil, hgap, hempty, Bool.not_false, Bool.and_self,
      if_true]

/-- A text whose first word is followed by other white space than gaps, or that starts with white space, is not cut. -/
theorem wordThenText?_eq_none {word behind : List Char} {c : Char} (hword : ∀ c ∈ word, isSpace c = false)
    (hspace : isSpace c = true) (h : word = [] ∨ isGap c = false) : wordThenText? (word ++ c :: behind) = none := by
  have hnot : ∀ c ∈ word, (!isSpace c) = true := fun c hc => by simp [hword c hc]
  have hend : (!isSpace c) = false := by simp [hspace]
  rw [wordThenText?, List.takeWhile_append_of_pos hnot, List.dropWhile_append_of_pos hnot, List.takeWhile_cons,
    List.dropWhile_cons]
  simp only [hend, Bool.false_eq_true, if_false, List.append_nil]
  rcases h with rfl | h
  · simp
  · simp [h]

/-- An empty text is no word and text: the word behind it is the word of the form, and no text comes after it. -/
theorem wordThenText?_finished_nil : Finished (phrase? .wordThenText) [] := by
  refine finished_of_none fun run behind hbehind => ?_
  obtain ⟨after, hafter, hdrop⟩ := hbehind.lone.dropWhile
  rw [List.nil_append, phrase?, hdrop]
  rcases hbehind.foreign with rfl | hforeign
  · cases after with
    | nil => rfl
    | cons gap more =>
      have hgap := hafter gap List.mem_cons_self
      exact wordThenText?_eq_none (List.forall_mem_nil _) (isSpace_of_isGap hgap) (Or.inl rfl)
  · rw [wordThenText?_word hforeign.ne_nil hforeign.not_isSpace hafter.behind.setOff, gaps_iff_dropWhile.mp hafter]
    rfl

/-- Of a word alone only the text is missing. -/
theorem wordThenText?_lacks_word {gaps word : List Char} (hne : word ≠ []) (hword : ∀ c ∈ word, isSpace c = false)
    (hdrop : ∀ behind, (gaps ++ word ++ behind).dropWhile isGap = word ++ behind) :
    Lacks (phrase? .wordThenText) (gaps ++ word) [word] [] := by
  refine ⟨fun run behind _ hbehind => ?_, fun blank hblank => Or.inl ?_⟩
  · rw [phrase?, hdrop, wordThenText?_word hne hword hbehind.setOff]
    rfl
  · rw [phrase?, hdrop, wordThenText?_word hne hword hblank.behind.setOff, gaps_iff_dropWhile.mp hblank]
    rfl

/-- A word, a gap and a text are all there. -/
theorem wordThenText?_finished_word {gaps word rest : List Char} {c : Char} (hne : word ≠ [])
    (hword : ∀ c ∈ word, isSpace c = false) (hgap : isGap c = true) (hends : Ends (word ++ c :: rest))
    (hopen : Unclosed (word ++ c :: rest))
    (hdrop : ∀ behind, (gaps ++ (word ++ c :: rest) ++ behind).dropWhile isGap = word ++ c :: rest ++ behind) :
    Finished (phrase? .wordThenText) (gaps ++ (word ++ c :: rest)) := by
  have hrest : rest ≠ [] := by
    rintro rfl
    have hlast := hends c (by simp)
    exact absurd hgap (by simp [hlast])
  have hsuffix : rest <:+ word ++ c :: rest := (List.suffix_cons c rest).trans (List.suffix_append word _)
  have hrestEnds := hends.suffix hsuffix
  have hrestOpen := hopen.suffix hsuffix
  obtain ⟨between, field, rfl, hfield, hfieldDrop⟩ := hrestEnds.exists_kept hrest
  have hform : ∀ behind, phrase? .wordThenText (gaps ++ (word ++ c :: (between ++ field)) ++ behind)
      = (closing? (field ++ behind)).map fun (field, tail) => ⟨[word] ++ [field], [], tail⟩ := by
    intro behind
    have hsetOff : SetOff (c :: (between ++ field) ++ behind) := by
      intro d hd
      obtain rfl := Option.some.inj hd
      exact hgap
    rw [phrase?, hdrop, List.append_assoc, wordThenText?_word hne hword hsetOff, List.cons_append,
      List.dropWhile_cons_of_pos hgap, hfieldDrop]
    rfl
  exact finished_of_closing hfield hrestEnds.back hrestOpen.back fun run behind _ => hform behind

/-- **A word and a text** are all there, or there is no word, or only the text is missing. -/
theorem wordThenText?_finished_or_lacks (hends : Ends text) (hopen : Unclosed text) :
    Finished (phrase? .wordThenText) text ∨ ∃ fields words, Lacks (phrase? .wordThenText) text fields words := by
  by_cases hne : text = []
  · subst hne
    exact Or.inl wordThenText?_finished_nil
  · obtain ⟨gaps, kept, rfl, hkept, hdrop⟩ := hends.exists_kept hne
    have hword : ∀ c ∈ kept.takeWhile (fun c => !isSpace c), isSpace c = false :=
      fun c hc => by simpa using List.mem_takeWhile_imp (p := fun c => !isSpace c) hc
    have hsplit : kept = kept.takeWhile (fun c => !isSpace c) ++ kept.dropWhile fun c => !isSpace c :=
      List.takeWhile_append_dropWhile.symm
    generalize kept.takeWhile (fun c => !isSpace c) = word at hword hsplit
    cases hrest : kept.dropWhile fun c => !isSpace c with
    | nil =>
      rw [hrest, List.append_nil] at hsplit
      subst hsplit
      exact Or.inr ⟨_, _, wordThenText?_lacks_word hkept hword hdrop⟩
    | cons c rest =>
      have hspace : isSpace c = true := by simpa using not_of_dropWhile hrest
      rw [hrest] at hsplit
      subst hsplit
      by_cases hcut : word = [] ∨ isGap c = false
      · refine Or.inl (finished_of_none fun run behind hbehind => ?_)
        rw [phrase?, hdrop, List.append_assoc, List.cons_append]
        exact wordThenText?_eq_none hword hspace hcut
      · obtain ⟨hwordNe, hgap⟩ := not_or.mp hcut
        have hgap : isGap c = true := by simpa using hgap
        exact Or.inl (wordThenText?_finished_word hwordNe hword hgap hends.back hopen.back hdrop)

end Forms

/-! ## The families -/

theorem Family.isClause {family : Family} {links : List (List (List Char))} (h : family.form = .clauses links) :
    ∀ words ∈ links, IsClause words := by
  have hall : ∀ links : List (List (List Char)), (links.all fun words => words.all fun word =>
      !word.isEmpty && (word.all fun c => !isGap c) && !isTerminator word && word ≠ ['x']) = true →
      ∀ words ∈ links, IsClause words :=
    fun links h words hwords => isClause_of_all (List.all_eq_true.mp h words hwords)
  apply hall
  cases family with
  | component | control | threat | review => cases h
  | mitigate | accept | transfer | expose | connect | test =>
    obtain rfl := Form.clauses.inj h
    decide

/-- **The text after a keyword** has all its fields or lacks more than one, or it lacks the last one. -/
theorem Family.finished_or_lacks (family : Family) {text : List Char} (hends : Ends text) (hopen : Unclosed text) :
    Finished (phrase? family.form) text ∨ ∃ fields words, Lacks (phrase? family.form) text fields words := by
  cases hform : family.form with
  | described => exact described?_finished_or_lacks hends hopen
  | clauses links => exact clauses?_finished_or_lacks (family.isClause hform) hends hopen
  | wordThenText => exact wordThenText?_finished_or_lacks hends hopen

end Directive
end ThreatModel
