import Mathlib
import ThreatModel.Directive.Phrase
import ThreatModel.Proofs.Directive.Decoration

/-!
# `Proofs.Directive.Phrase` — the nearest cut of a text

The text after a keyword can be cut into fields in many ways, because a field may hold clause words itself. The
cut that is taken is the nearest one, field by field, and nothing is lost by that: what any cut finds after a
clause word, the nearest one still has before it, so if a text can be cut at all the nearest cut exists.

## Contents

* `Linked`, `Splits` — a place where a clause word follows, and the ways of cutting a text.
* `link?_eq_some`, `cut?_eq_some`, `exists_cut?` — the first place where a clause word follows.
* `closing?_eq_some`, `exists_closing?` — the shortest last field.
* `Nearest` — the nearest cut, with `nearest_of_clauses?` and `exists_clauses?`.
-/

namespace ThreatModel
namespace Directive

open Text

/-! ## Clause words -/

/-- A clause word at the start of a text, standing alone between gaps, and the text after it. -/
def Linked (word text rest : List Char) : Prop :=
  ∃ before after, before ≠ [] ∧ after ≠ [] ∧ Gaps before ∧ Gaps after ∧
    text = before ++ word ++ after ++ rest

/-- Clause words are not empty and hold no gap. -/
def IsWords (words : List (List Char)) : Prop := ∀ word ∈ words, word ≠ [] ∧ ∀ c ∈ word, isGap c = false

/-- Words are told by looking at each of them. -/
theorem isWords_of_all {words : List (List Char)}
    (h : (words.all fun word => !word.isEmpty && word.all fun c => !isGap c) = true) : IsWords words := by
  intro word hword
  have hword := List.all_eq_true.mp h word hword
  simpa [List.all_eq_true] using hword

/-- What a clause word that is found looks like: a gap is taken after it, and some text is left. -/
theorem link?_eq_some {word text rest : List Char} (h : link? word text = some rest) :
    rest ≠ [] ∧ ∃ before gap, before ≠ [] ∧ Gaps before ∧ isGap gap = true ∧
      text = before ++ word ++ gap :: rest := by
  cases text with
  | nil => simp [link?] at h
  | cons c more =>
    simp only [link?] at h
    split at h
    · next hc =>
      split at h
      · next gap left heq =>
        split at h
        · next hgap =>
          obtain rfl := Option.some.inj h
          simp only [Bool.and_eq_true, Bool.not_eq_true', List.isEmpty_eq_false_iff] at hgap
          have hdrop : (c :: more).dropWhile isGap = word ++ gap :: left :=
            (List.append_eq_of_isPrefixOf?_eq_some heq).symm
          refine ⟨hgap.2, (c :: more).takeWhile isGap, gap, ?_, gaps_takeWhile _, hgap.1, ?_⟩
          · simp [hc]
          · rw [List.append_assoc, ← hdrop, List.takeWhile_append_dropWhile]
        · exact absurd h (by simp)
      · exact absurd h (by simp)
    · exact absurd h (by simp)

/-- A clause word between gaps is found, if it holds none itself and some text is left. -/
theorem link?_append {word before rest : List Char} {gap : Char} (hne : word ≠ [])
    (hword : ∀ c ∈ word, isGap c = false) (hbefore : before ≠ []) (hgaps : Gaps before)
    (hgap : isGap gap = true) (hrest : rest ≠ []) :
    link? word (before ++ word ++ gap :: rest) = some rest := by
  obtain ⟨c, more, rfl⟩ := List.exists_cons_of_ne_nil hbefore
  have hdrop : ((c :: more) ++ word ++ gap :: rest).dropWhile isGap = word ++ gap :: rest := by
    rw [List.append_assoc, dropWhile_gaps_append hgaps, dropWhile_eq_self_of_forall hne hword]
  have hprefix : word.isPrefixOf? (word ++ gap :: rest) = some (gap :: rest) :=
    List.isPrefixOf?_eq_some_iff_append_eq.mpr rfl
  simp only [List.cons_append] at hdrop
  simp only [List.cons_append, link?, hgaps c List.mem_cons_self, hdrop, hprefix, hgap, if_true]
  simp [hrest]

/-- What follows a clause word that stands alone is still there after a word that is found further left, which
cannot reach over a gap. -/
theorem suffix_of_link? {word other front text rest found : List Char}
    (hword : word ≠ [] ∧ ∀ c ∈ word, isGap c = false) (hother : other ≠ [] ∧ ∀ c ∈ other, isGap c = false)
    (hlinked : Linked word text rest) (h : link? other (front ++ text) = some found) : rest <:+ found := by
  obtain ⟨before, after, -, hafter, -, hafterGaps, rfl⟩ := hlinked
  obtain ⟨-, gaps, gap, -, hgaps, hgap, heq⟩ := link?_eq_some h
  -- Both words are read off one text, the one without its leading gaps.
  have hfound : (front ++ (before ++ word ++ after ++ rest)).dropWhile isGap = other ++ gap :: found := by
    rw [heq, List.append_assoc, dropWhile_gaps_append hgaps, dropWhile_eq_self_of_forall hother.1 hother.2]
  have hrest : ∃ skipped, (front ++ (before ++ word ++ after ++ rest)).dropWhile isGap
      = (skipped ++ word ++ after) ++ rest := by
    have hassoc : front ++ (before ++ word ++ after ++ rest)
        = (front ++ before) ++ (word ++ (after ++ rest)) := by simp
    rw [hassoc, List.dropWhile_append]
    split
    · exact ⟨[], by rw [dropWhile_eq_self_of_forall hword.1 hword.2]; simp⟩
    · exact ⟨(front ++ before).dropWhile isGap, by simp⟩
  obtain ⟨skipped, hskipped⟩ := hrest
  have hboth : other ++ gap :: found = (skipped ++ word ++ after) ++ rest := hfound.symm.trans hskipped
  have hle : rest.length ≤ found.length := by
    by_contra hlt
    have hlength := congrArg List.length hboth
    simp only [List.length_append, List.length_cons] at hlength
    -- Otherwise the word that is found would contain the gaps after the other one.
    have hprefix : skipped ++ word ++ after <+: other := by
      refine List.prefix_of_prefix_length_le ⟨rest, hboth.symm⟩ ⟨gap :: found, rfl⟩ ?_
      simp only [List.length_append]
      omega
    obtain ⟨c, hc⟩ := List.exists_mem_of_ne_nil after hafter
    have hmem : c ∈ other := hprefix.subset (List.mem_append_right _ hc)
    exact absurd (hafterGaps c hc) (by simp [hother.2 c hmem])
  exact List.suffix_of_suffix_length_le ⟨skipped ++ word ++ after, rfl⟩
    ⟨other ++ [gap], by rw [List.append_assoc, List.singleton_append, hboth]⟩ hle

/-! ## The first place where a clause word follows -/

theorem findSome?_congr {α β : Type} {f g : α → Option β} {xs : List α} (h : ∀ x ∈ xs, f x = g x) :
    xs.findSome? f = xs.findSome? g := by
  rw [← List.head?_filterMap, ← List.head?_filterMap, List.filterMap_congr h]

/-- Whether one of the words stands alone at the start of a text. -/
def Follows (words : List (List Char)) (text : List Char) : Prop :=
  ∃ word ∈ words, ∃ rest, Linked word text rest

/-- A word that stands alone is found, unless the text ends with the one gap after it. -/
theorem link?_ne_none {word text rest : List Char} (hword : word ≠ [] ∧ ∀ c ∈ word, isGap c = false)
    (hlinked : Linked word text rest) :
    link? word text ≠ none ∨ ∃ before gap, rest = [] ∧ Gaps before ∧ text = before ++ word ++ [gap] := by
  obtain ⟨before, after, hbefore, hafter, hbeforeGaps, hafterGaps, rfl⟩ := hlinked
  obtain ⟨gap, more, rfl⟩ := List.exists_cons_of_ne_nil hafter
  have hgap := hafterGaps gap List.mem_cons_self
  by_cases hleft : more ++ rest = []
  · obtain ⟨rfl, rfl⟩ := List.append_eq_nil_iff.mp hleft
    exact Or.inr ⟨before, gap, rfl, hbeforeGaps, by simp⟩
  · have hlink := link?_append hword.1 hword.2 hbefore hbeforeGaps hgap hleft
    refine Or.inl ?_
    rw [List.append_assoc (before ++ word), List.cons_append, hlink]
    exact Option.some_ne_none _

/-- **The nearest cut.** Its field is not empty and is followed by one of the words, and at no place inside the
field one of the words is found. -/
theorem cut?_eq_some {words : List (List Char)} {text : List Char} {cut : Cut}
    (h : cut? words text = some cut) :
    cut.field ≠ [] ∧ cut.word ∈ words ∧
    (∃ behind, text = cut.field ++ behind ∧ link? cut.word behind = some cut.rest) ∧
    ∀ shorter behind, shorter ≠ [] → shorter.length < cut.field.length → text = shorter ++ behind →
      ∀ word ∈ words, link? word behind = none := by
  -- By induction on the text: a cut is found behind its first character, or is one of what comes after it.
  induction text generalizing cut with
  | nil => simp [cut?] at h
  | cons c rest ih =>
    unfold cut? at h
    split at h
    · next word found hfind =>
      obtain rfl := Option.some.inj h
      obtain ⟨w, hw, hmap⟩ := List.exists_of_findSome?_eq_some hfind
      obtain ⟨found, hlink, heq⟩ := Option.map_eq_some_iff.mp hmap
      obtain ⟨rfl, rfl⟩ := Prod.mk.inj heq
      refine ⟨List.cons_ne_nil _ _, hw, ⟨rest, rfl, hlink⟩, fun shorter _ hne hlt => ?_⟩
      have := List.length_pos_iff.mpr hne
      simp only [List.length_singleton] at hlt
      omega
    · next hfind =>
      obtain ⟨inner, hinner, rfl⟩ := Option.map_eq_some_iff.mp h
      obtain ⟨hne, hword, ⟨behind, hbehind, hlink⟩, hnearest⟩ := ih hinner
      refine ⟨List.cons_ne_nil _ _, hword, ⟨behind, by simp [hbehind], hlink⟩, ?_⟩
      intro shorter other hshorter hlt htext word hw
      obtain ⟨d, front, rfl⟩ := List.exists_cons_of_ne_nil hshorter
      rw [List.cons_append, List.cons_eq_cons] at htext
      obtain ⟨rfl, hrest⟩ := htext
      by_cases hfront : front = []
      · subst hfront
        have hnone := List.findSome?_eq_none_iff.mp hfind word hw
        rw [List.nil_append] at hrest
        rw [← hrest]
        simpa using hnone
      · exact hnearest front other hfront (by simpa using hlt) hrest word hw

/-- A word without gaps does not reach over one. -/
theorem not_reaches_over_gap {word front rest : List Char} {last gap : Char}
    (hword : ∀ c ∈ word, isGap c = false) (hgap : isGap gap = true) (hrest : rest ≠ []) :
    word ++ [last] ≠ front ++ gap :: rest := by
  intro h
  have hdropLast := congrArg List.dropLast h
  rw [List.dropLast_concat, List.dropLast_append_of_ne_nil (List.cons_ne_nil _ _),
    List.dropLast_cons_of_ne_nil hrest] at hdropLast
  have hmem : gap ∈ word := by simp [hdropLast]
  exact absurd hgap (by simp [hword gap hmem])

/-- A field of the nearest cut ends at the first place where one of the words follows, also where the text ends
after that word. -/
theorem length_field_le {words : List (List Char)} (hwords : IsWords words) {text : List Char} {cut : Cut}
    (h : cut? words text = some cut) {shorter behind : List Char} (hshorter : shorter ≠ [])
    (htext : text = shorter ++ behind) (hfollows : Follows words behind) :
    cut.field.length ≤ shorter.length := by
  obtain ⟨-, hcutWord, ⟨after, hcutText, hcutLink⟩, hnearest⟩ := cut?_eq_some h
  by_contra hlt
  obtain ⟨word, hword, rest, hlinked⟩ := hfollows
  have hnone := hnearest shorter behind hshorter (by omega) htext word hword
  rcases link?_ne_none (hwords word hword) hlinked with hlink | ⟨before, last, -, hbefore, hbehind⟩
  · exact hlink hnone
  · -- Only the last gap of the text follows the word, but the cut still leaves some text after a gap.
    obtain ⟨hrest, gaps, gap, -, -, hgap, hlinkText⟩ := link?_eq_some hcutLink
    obtain ⟨hcutNe, hcutGap⟩ := hwords cut.word hcutWord
    have hword := (hwords word hword).2
    have hinside : ∃ inner, behind = inner ++ after := by
      rw [htext] at hcutText
      rcases List.append_eq_append_iff.mp hcutText with ⟨inner, -, hinner⟩ | ⟨inner, hinner, -⟩
      · exact ⟨inner, hinner⟩
      · have := congrArg List.length hinner
        rw [List.length_append] at this
        omega
    obtain ⟨inner, hinner⟩ := hinside
    have hboth : before ++ (word ++ [last]) = (inner ++ gaps) ++ (cut.word ++ gap :: cut.rest) := by
      rw [← List.append_assoc, ← hbehind, hinner, hlinkText]
      simp
    -- The two words start at the same place, or one of them starts inside the gaps before the other.
    rcases List.append_eq_append_iff.mp hboth with ⟨front, -, heq⟩ | ⟨front, hfront, heq⟩
    · rw [← List.append_assoc] at heq
      exact not_reaches_over_gap hword hgap hrest heq
    · cases front with
      | nil => exact not_reaches_over_gap hword hgap hrest heq.symm
      | cons c more =>
        obtain ⟨d, wordRest, hcut⟩ := List.exists_cons_of_ne_nil hcutNe
        rw [hcut, List.cons_append, List.cons_append, List.cons_eq_cons] at heq
        have hd := hcutGap d (by simp [hcut])
        have hc := hbefore c (by simp [hfront])
        rw [← heq.1] at hc
        exact absurd hc (by simp [hd])

/-- **The nearest cut exists** wherever a text can be cut, and what any cut leaves is still there after the
nearest one. -/
theorem exists_cut? {words : List (List Char)} (hwords : IsWords words) {field behind word rest : List Char}
    (hfield : field ≠ []) (hword : word ∈ words) (hlinked : Linked word behind rest) (hrest : rest ≠ []) :
    ∃ cut, cut? words (field ++ behind) = some cut ∧ rest <:+ cut.rest := by
  induction field with
  | nil => exact absurd rfl hfield
  | cons c front ih =>
    rw [List.cons_append, cut?]
    split
    · next other found hfind =>
      obtain ⟨w, hw, hmap⟩ := List.exists_of_findSome?_eq_some hfind
      obtain ⟨found, hlink, heq⟩ := Option.map_eq_some_iff.mp hmap
      obtain ⟨rfl, rfl⟩ := Prod.mk.inj heq
      exact ⟨_, rfl, suffix_of_link? (hwords word hword) (hwords w hw) hlinked hlink⟩
    · next hfind =>
      by_cases hfront : front = []
      · -- The word is behind this character, and a word that leaves some text is found.
        subst hfront
        have hnone := List.findSome?_eq_none_iff.mp hfind word hword
        rcases link?_ne_none (hwords word hword) hlinked with hlink | ⟨_, _, hnil, _⟩
        · exact absurd (by simpa using hnone) hlink
        · exact absurd hnil hrest
      · obtain ⟨cut, hcut, hsuffix⟩ := ih hfront
        rw [hcut]
        exact ⟨_, rfl, hsuffix⟩

/-! ## The shortest last field -/

/-- **The shortest last field.** It is not empty and leaves a tail, and no shorter one does. -/
theorem closing?_eq_some {text field tail : List Char} (h : closing? text = some (field, tail)) :
    field ≠ [] ∧ text = field ++ tail ∧ Tail tail ∧
    ∀ shorter behind, shorter ≠ [] → text = shorter ++ behind → Tail behind →
      field.length ≤ shorter.length := by
  induction text generalizing field with
  | nil => simp [closing?] at h
  | cons c rest ih =>
    unfold closing? at h
    split at h
    · next htail =>
      obtain ⟨rfl, rfl⟩ := Prod.mk.inj (Option.some.inj h)
      refine ⟨List.cons_ne_nil _ _, rfl, isTail_iff.mp htail, fun shorter _ hne _ _ => ?_⟩
      exact List.length_pos_iff.mpr hne
    · next htail =>
      obtain ⟨⟨inner, innerTail⟩, hinner, heq⟩ := Option.map_eq_some_iff.mp h
      obtain ⟨rfl, rfl⟩ := Prod.mk.inj heq
      obtain ⟨hne, hrest, hinnerTail, hshortest⟩ := ih hinner
      refine ⟨List.cons_ne_nil _ _, by simp [hrest], hinnerTail, ?_⟩
      intro shorter behind hshorter htext hbehind
      obtain ⟨d, front, rfl⟩ := List.exists_cons_of_ne_nil hshorter
      rw [List.cons_append, List.cons_eq_cons] at htext
      obtain ⟨rfl, hfrontText⟩ := htext
      by_cases hfront : front = []
      · subst hfront
        rw [List.nil_append] at hfrontText
        exact absurd (isTail_iff.mpr (hfrontText ▸ hbehind)) htail
      · simpa using hshortest front behind hfront hfrontText hbehind

/-- A text that any field leaves a tail of has a last field. -/
theorem exists_closing? {field tail : List Char} (hfield : field ≠ []) (htail : Tail tail) :
    ∃ found, closing? (field ++ tail) = some found := by
  induction field with
  | nil => exact absurd rfl hfield
  | cons c front ih =>
    rw [List.cons_append, closing?]
    split
    · exact ⟨_, rfl⟩
    · next hnot =>
      by_cases hfront : front = []
      · subst hfront
        exact absurd (isTail_iff.mpr htail) hnot
      · obtain ⟨found, hfound⟩ := ih hfront
        rw [hfound]
        exact ⟨_, rfl⟩

/-! ## Ways of cutting, and the nearest one -/

/-- A text that is not blank. -/
def Filled (text : List Char) : Prop := ∃ c ∈ text, isSpace c = false

/-- The ways of cutting a text in a form: fields that are not blank, with a word of each link between them that
stands alone, and a tail after the last one. -/
inductive Splits : Form → List Char → Phrase → Prop where
  | last {field tail} : Filled field → Tail tail → Splits (.clauses []) (field ++ tail) ⟨[field], [], tail⟩
  | link {words links field behind word rest fields chosen tail} :
      Filled field → word ∈ words → Linked word behind rest →
      Splits (.clauses links) rest ⟨fields, chosen, tail⟩ →
      Splits (.clauses (words :: links)) (field ++ behind) ⟨field :: fields, word :: chosen, tail⟩
  | word {word gaps rest field tail} :
      word ≠ [] → (∀ c ∈ word, isSpace c = false) → gaps ≠ [] → Gaps gaps →
      Splits (.clauses []) rest ⟨[field], [], tail⟩ →
      Splits .wordThenText (word ++ gaps ++ rest) ⟨[word, field], [], tail⟩

/-- A text that does not start with a gap. -/
def Starts (text : List Char) : Prop := ∀ c ∈ text.head?, isGap c = false

/-- The nearest way of cutting a text in a form. A field starts after all gaps, and ends at the first place where
a clause word follows; the last one is the shortest that leaves a tail. -/
inductive Nearest : Form → List Char → Phrase → Prop where
  | last {field tail} : field ≠ [] → Starts (field ++ tail) → Tail tail →
      (∀ shorter behind, shorter ≠ [] → field ++ tail = shorter ++ behind → Tail behind →
        field.length ≤ shorter.length) →
      Nearest (.clauses []) (field ++ tail) ⟨[field], [], tail⟩
  | link {words links field behind word rest fields chosen tail} :
      field ≠ [] → Starts (field ++ behind) → word ∈ words → Linked word behind rest →
      (∀ shorter other, shorter ≠ [] → field ++ behind = shorter ++ other → Follows words other →
        field.length ≤ shorter.length) →
      Nearest (.clauses links) rest ⟨fields, chosen, tail⟩ →
      Nearest (.clauses (words :: links)) (field ++ behind) ⟨field :: fields, word :: chosen, tail⟩
  | word {word gaps rest field tail} :
      word ≠ [] → (∀ c ∈ word, isSpace c = false) → gaps ≠ [] → Gaps gaps →
      Nearest (.clauses []) rest ⟨[field], [], tail⟩ →
      Nearest .wordThenText (word ++ gaps ++ rest) ⟨[word, field], [], tail⟩

theorem starts_dropWhile (text : List Char) : Starts (text.dropWhile isGap) := by
  intro c hc
  cases hdrop : text.dropWhile isGap with
  | nil => simp [hdrop] at hc
  | cons d rest =>
    rw [hdrop, List.head?_cons, Option.mem_some_iff] at hc
    exact hc ▸ not_of_dropWhile hdrop

/-- The fields that are cut are those of the nearest way. -/
theorem nearest_of_clauses? {links : List (List (List Char))} (hlinks : ∀ words ∈ links, IsWords words)
    {text : List Char} {phrase : Phrase} (h : clauses? links text = some phrase) :
    Nearest (.clauses links) (text.dropWhile isGap) phrase := by
  induction links generalizing text phrase with
  | nil =>
    obtain ⟨⟨field, tail⟩, hclosing, rfl⟩ := Option.map_eq_some_iff.mp h
    obtain ⟨hne, htext, htail, hshortest⟩ := closing?_eq_some hclosing
    have hstarts := starts_dropWhile text
    rw [htext] at hstarts hshortest ⊢
    exact Nearest.last hne hstarts htail hshortest
  | cons words links ih =>
    obtain ⟨cut, hcut, hrest⟩ := Option.bind_eq_some_iff.mp h
    obtain ⟨⟨fields, chosen, tail⟩, hphrase, rfl⟩ := Option.map_eq_some_iff.mp hrest
    have hwords := hlinks words List.mem_cons_self
    obtain ⟨hne, hword, ⟨behind, htext, hlink⟩, -⟩ := cut?_eq_some hcut
    have hstarts := starts_dropWhile text
    rw [htext] at hstarts ⊢
    -- All gaps after the clause word belong to it.
    have hlinked : Linked cut.word behind (cut.rest.dropWhile isGap) := by
      obtain ⟨-, before, gap, hbefore, hgaps, hgap, rfl⟩ := link?_eq_some hlink
      refine ⟨before, gap :: cut.rest.takeWhile isGap, hbefore, List.cons_ne_nil _ _, hgaps, ?_, ?_⟩
      · intro c hc
        rcases List.mem_cons.mp hc with rfl | hc
        · exact hgap
        · exact gaps_takeWhile _ c hc
      · rw [List.append_assoc (before ++ cut.word), List.cons_append, List.takeWhile_append_dropWhile]
    refine Nearest.link hne hstarts hword hlinked ?_ ?_
    · intro shorter other hshorter hother hfollows
      exact length_field_le hwords hcut hshorter (htext.trans hother) hfollows
    · exact ih (fun words hmem => hlinks words (List.mem_cons_of_mem _ hmem)) hphrase

theorem not_isGap_of_not_isSpace {c : Char} (h : isSpace c = false) : isGap c = false := by
  cases hgap : isGap c with
  | false => rfl
  | true => exact absurd (isSpace_of_isGap hgap) (by simp [h])

/-- Dropping gaps leaves something of a text that is not blank, and all of what follows it. -/
theorem Filled.exists_kept {text : List Char} (h : Filled text) (front : List Char) :
    ∃ kept, kept ≠ [] ∧ ∀ behind, (front ++ (text ++ behind)).dropWhile isGap = kept ++ behind := by
  have hne : (front ++ text).dropWhile isGap ≠ [] := by
    intro hnil
    obtain ⟨c, hc, hspace⟩ := h
    have hgap := gaps_iff_dropWhile.mpr hnil c (List.mem_append_right _ hc)
    exact absurd hgap (by simp [not_isGap_of_not_isSpace hspace])
  refine ⟨(front ++ text).dropWhile isGap, hne, fun behind => ?_⟩
  rw [← List.append_assoc, List.dropWhile_append]
  simp [hne]

theorem Splits.ne_nil {form : Form} {text : List Char} {phrase : Phrase} (h : Splits form text phrase) :
    text ≠ [] := by
  have hfilled : ∀ {field behind : List Char}, Filled field → field ++ behind ≠ [] := by
    rintro field behind ⟨c, hc, -⟩
    exact List.append_ne_nil_of_left_ne_nil (List.ne_nil_of_mem hc) behind
  cases h with
  | last hfield => exact hfilled hfield
  | link hfield => exact hfilled hfield
  | word hword => simp [hword]

/-- A text that can be cut, also after some more text, is cut. -/
theorem exists_clauses? {links : List (List (List Char))} (hlinks : ∀ words ∈ links, IsWords words)
    {text : List Char} {phrase : Phrase} (h : Splits (.clauses links) text phrase) (front : List Char) :
    ∃ found, clauses? links (front ++ text) = some found := by
  induction links generalizing text phrase front with
  | nil =>
    cases h with
    | @last field tail hfield htail =>
      obtain ⟨kept, hne, hkept⟩ := hfield.exists_kept front
      obtain ⟨found, hfound⟩ := exists_closing? hne htail
      exact ⟨_, by rw [clauses?, hkept, hfound, Option.map_some]⟩
  | cons words links ih =>
    cases h with
    | @link _ _ field behind word rest fields chosen tail hfield hword hlinked hrest =>
      obtain ⟨kept, hne, hkept⟩ := hfield.exists_kept front
      obtain ⟨cut, hcut, hsuffix⟩ :=
        exists_cut? (hlinks words List.mem_cons_self) hne hword hlinked hrest.ne_nil
      obtain ⟨before, hbefore⟩ := hsuffix
      obtain ⟨found, hfound⟩ := ih (fun words hmem => hlinks words (List.mem_cons_of_mem _ hmem)) hrest before
      rw [hbefore] at hfound
      exact ⟨_, by rw [clauses?, hkept, hcut, Option.bind_some, hfound, Option.map_some]⟩

/-! ## All forms without a description -/

/-- The clause words of a form are words. -/
def Form.HasWords : Form → Prop
  | .clauses links => ∀ words ∈ links, IsWords words
  | .wordThenText => True
  | .described => False

theorem Form.hasWords_clauses {links : List (List (List Char))}
    (h : (links.all fun words => words.all fun word => !word.isEmpty && word.all fun c => !isGap c) = true) :
    (Form.clauses links).HasWords :=
  fun words hwords => isWords_of_all (List.all_eq_true.mp h words hwords)

/-- **Soundness of the cut**: it is the nearest one. -/
theorem nearest_of_phrase? {form : Form} (hform : form.HasWords) {text : List Char} {phrase : Phrase}
    (h : phrase? form text = some phrase) : Nearest form (text.dropWhile isGap) phrase := by
  cases form with
  | described => exact hform.elim
  | clauses links => exact nearest_of_clauses? hform h
  | wordThenText =>
    simp only [phrase?, wordThenText?] at h
    split at h
    · next gap rest heq =>
      split at h
      · next hgap =>
        simp only [Bool.and_eq_true, Bool.not_eq_true', List.isEmpty_eq_false_iff] at hgap
        obtain ⟨⟨field, tail⟩, hclosing, rfl⟩ := Option.map_eq_some_iff.mp h
        have hlast : clauses? [] rest = some ⟨[field], [], tail⟩ := by rw [clauses?, hclosing, Option.map_some]
        have htext : text.dropWhile isGap
            = (text.dropWhile isGap).takeWhile (fun c => !isSpace c)
              ++ (gap :: rest.takeWhile isGap) ++ rest.dropWhile isGap := by
          rw [List.append_assoc, List.cons_append, List.takeWhile_append_dropWhile, ← heq,
            List.takeWhile_append_dropWhile]
        have hgaps : Gaps (gap :: rest.takeWhile isGap) := by
          intro c hc
          rcases List.mem_cons.mp hc with rfl | hc
          · exact hgap.1
          · exact gaps_takeWhile _ c hc
        have hspace : ∀ c ∈ (text.dropWhile isGap).takeWhile (fun c => !isSpace c), isSpace c = false :=
          fun c hc => by simpa using List.mem_takeWhile_imp (p := fun c => !isSpace c) hc
        have hnearest := Nearest.word hgap.2 hspace (List.cons_ne_nil _ _) hgaps
          (nearest_of_clauses? (fun _ hmem => absurd hmem List.not_mem_nil) hlast)
        rwa [← htext] at hnearest
      · exact absurd h (by simp)
    · exact absurd h (by simp)

/-- **Completeness of the cut**: a text that can be cut is cut. -/
theorem exists_phrase? {form : Form} (hform : form.HasWords) {gaps text : List Char} {phrase : Phrase}
    (hgaps : Gaps gaps) (h : Splits form text phrase) : ∃ found, phrase? form (gaps ++ text) = some found := by
  cases form with
  | described => exact hform.elim
  | clauses links => exact exists_clauses? hform h gaps
  | wordThenText =>
    cases h with
    | @word word between rest field tail hword hspace hbetween hbetweenGaps hrest =>
      obtain ⟨gap, more, rfl⟩ := List.exists_cons_of_ne_nil hbetween
      obtain ⟨found, hfound⟩ := exists_clauses? (fun _ hmem => absurd hmem List.not_mem_nil) hrest more
      obtain ⟨closing, hclosing, -⟩ := Option.map_eq_some_iff.mp hfound
      have hgap := hbetweenGaps gap List.mem_cons_self
      have hnot : ∀ c ∈ word, (!isSpace c) = true := fun c hc => by simp [hspace c hc]
      have hend : (!isSpace gap) = false := by simp [isSpace_of_isGap hgap]
      have hdrop : (gaps ++ (word ++ (gap :: more) ++ rest)).dropWhile isGap
          = word ++ gap :: (more ++ rest) := by
        rw [dropWhile_gaps_append hgaps, List.append_assoc,
          dropWhile_eq_self_of_forall hword fun c hc => not_isGap_of_not_isSpace (hspace c hc),
          List.cons_append]
      refine ⟨⟨[word, closing.1], [], closing.2⟩, ?_⟩
      rw [phrase?, hdrop, wordThenText?, List.takeWhile_append_of_pos hnot, List.dropWhile_append_of_pos hnot,
        List.takeWhile_cons, List.dropWhile_cons]
      simp only [hend, Bool.false_eq_true, if_false, List.append_nil, hgap, hclosing, Option.map_some]
      simp [hword]

end Directive
end ThreatModel
