import Mathlib
import ThreatModel.Proofs.Directive.Relation

/-!
# `Proofs.Directive.FieldEnd` — where a field ends

A field that is written into a directive is found again if it ends where the search looks for its end: it holds none
of the words that may follow it, or, if it is the last one, does not end like a comment. A word or a terminator that
is found behind the beginning of such a field is therefore found behind all of it.

## Contents

* `SetOff`, `Holds` — words that stand alone in a text.
* `Unclosed`, `Ends` — texts that do not end like a comment, or in a gap.
* `Inline`, `IsField` — texts on one line, and texts that can be fields.
* `run_inside`, `link?_inside`, `tail_inside` — what is found inside a field.
* `cut?_field`, `closing?_unclosed`, `described?_append` — the cut of a text at the end of a field.
* `Lone` — texts with one word.
-/

namespace ThreatModel
namespace Directive

open Text

/-! ## Words that stand alone -/

/-- A text that is empty or starts with a gap. -/
def SetOff (text : List Char) : Prop := ∀ c ∈ text.head?, isGap c = true

-- The characters of a text are gone through one by one, not all that there are.
instance (text : List Char) : Decidable (SetOff text) := Option.decidableForallMem text.head?

theorem Gaps.setOff {gaps : List Char} (h : Gaps gaps) (hne : gaps ≠ []) (text : List Char) :
    SetOff (gaps ++ text) := by
  intro c hc
  obtain ⟨gap, more, rfl⟩ := List.exists_cons_of_ne_nil hne
  obtain rfl := Option.some.inj hc
  exact h _ List.mem_cons_self

/-- A word stands in a text, set off by gaps or by the ends of the text. -/
def Holds (word text : List Char) : Prop :=
  ∃ before after, text = before ++ word ++ after ∧ (∀ c ∈ before.getLast?, isGap c = true) ∧ SetOff after

/-- Where a word stands is told by the length of the text before it. -/
theorem holds_iff {word text : List Char} : Holds word text ↔ ∃ n ∈ List.range (text.length + 1),
    word <+: text.drop n ∧ (text.take n).getLast?.all isGap = true ∧ SetOff (text.drop (n + word.length)) := by
  simp only [Option.all_eq_true]
  constructor
  · rintro ⟨before, after, rfl, hbefore, hafter⟩
    refine ⟨before.length, by simp, ⟨after, ?_⟩, ?_, ?_⟩
    · rw [List.append_assoc, List.drop_left]
    · rwa [List.append_assoc, List.take_left]
    · rwa [← List.length_append, List.drop_left]
  · rintro ⟨n, -, ⟨after, hafter⟩, hbefore, hsetOff⟩
    refine ⟨text.take n, after, ?_, hbefore, ?_⟩
    · rw [List.append_assoc, hafter, List.take_append_drop]
    · rwa [← List.drop_drop, ← hafter, List.drop_left] at hsetOff

instance (word text : List Char) : Decidable (Holds word text) := decidable_of_iff _ holds_iff.symm

/-- A text that does not end like a comment. -/
def Unclosed (text : List Char) : Prop := ∀ terminator, Terminator terminator → ¬terminator <:+ text

theorem unclosed_iff {text : List Char} : Unclosed text ↔ ∀ back ∈ text.tails, isTerminator back = false := by
  constructor
  · intro h back hback
    have hsuffix := (List.mem_tails _ _).mp hback
    exact eq_false_of_ne_true fun hterminator => h back (isTerminator_iff.mp hterminator) hsuffix
  · intro h terminator hterminator hback
    have hfalse := h terminator ((List.mem_tails _ _).mpr hback)
    exact absurd (isTerminator_iff.mpr hterminator) (by simp [hfalse])

instance (text : List Char) : Decidable (Unclosed text) := decidable_of_iff _ unclosed_iff.symm

/-- A text that does not end in a gap. -/
def Ends (text : List Char) : Prop := ∀ c ∈ text.getLast?, isGap c = false

theorem Ends.back {front back : List Char} (h : Ends (front ++ back)) : Ends back := by
  intro c hc
  have hne : back ≠ [] := by
    rintro rfl
    cases hc
  exact h c (by rwa [List.getLast?_append_of_ne_nil front hne])

theorem Unclosed.back {front back : List Char} (h : Unclosed (front ++ back)) : Unclosed back :=
  fun terminator hterminator hsuffix => h terminator hterminator (hsuffix.trans (List.suffix_append front back))

theorem Ends.suffix {text back : List Char} (h : Ends text) (hback : back <:+ text) : Ends back := by
  obtain ⟨front, rfl⟩ := hback
  exact h.back

theorem Unclosed.suffix {text back : List Char} (h : Unclosed text) (hback : back <:+ text) : Unclosed back := by
  obtain ⟨front, rfl⟩ := hback
  exact h.back

/-! ## Fields -/

/-- A text on one line. -/
def Inline (text : List Char) : Prop := ∀ c ∈ text, c ≠ '\n' ∧ c ≠ '\r'

instance (text : List Char) : Decidable (Inline text) := List.decidableBAll _ text

/-- A text that can be a field: it is on one line, not empty, and has no white space at its ends. -/
structure IsField (text : List Char) : Prop where
  ne_nil : text ≠ []
  inline : Inline text
  starts : ∀ c ∈ text.head?, isSpace c = false
  ends : ∀ c ∈ text.getLast?, isSpace c = false

theorem isField_iff {text : List Char} : IsField text ↔ (text ≠ [] ∧ Inline text) ∧
    text.head?.all (fun c => !isSpace c) = true ∧ text.getLast?.all (fun c => !isSpace c) = true := by
  simp only [Option.all_eq_true, Bool.not_eq_true']
  constructor
  · rintro ⟨hne, hinline, hstarts, hends⟩
    exact ⟨⟨hne, hinline⟩, hstarts, hends⟩
  · rintro ⟨⟨hne, hinline⟩, hstarts, hends⟩
    exact ⟨hne, hinline, hstarts, hends⟩

instance (text : List Char) : Decidable (IsField text) := decidable_of_iff _ isField_iff.symm

theorem IsField.not_isGap_getLast {field : List Char} (h : IsField field) :
    ∀ c ∈ field.getLast?, isGap c = false := fun c hc => not_isGap_of_not_isSpace (h.ends c hc)

/-- What a field ends with ends as the field does. -/
theorem IsField.back_ends {field front back : List Char} (h : IsField field) (hsplit : field = front ++ back)
    (hne : back ≠ []) : ∀ c ∈ back.getLast?, isGap c = false := by
  rw [← List.getLast?_append_of_ne_nil front hne, ← hsplit]
  exact h.not_isGap_getLast

theorem IsField.dropWhile {field : List Char} (h : IsField field) (behind : List Char) :
    (field ++ behind).dropWhile isGap = field ++ behind := by
  obtain ⟨c, rest, rfl⟩ := List.exists_cons_of_ne_nil h.ne_nil
  exact dropWhile_of_not_isGap (not_isGap_of_not_isSpace (h.starts c rfl))

/-! ## What is found inside a field -/

/-- A run without gaps that stands between gaps does not begin in a text that ends otherwise and end behind it. -/
theorem run_inside {back behind before run after : List Char} (hne : back ≠ [])
    (hends : ∀ c ∈ back.getLast?, isGap c = false) (hbehind : SetOff behind) (hbefore : Gaps before)
    (hrun : ∀ c ∈ run, isGap c = false) (heq : back ++ behind = before ++ run ++ after) :
    ∃ more, back = before ++ run ++ more ∧ after = more ++ behind := by
  rcases List.append_eq_append_iff.mp heq with ⟨beyond, hbeyond, hafter⟩ | ⟨more, hback, hafter⟩
  · cases beyond with
    | nil =>
      rw [List.append_nil] at hbeyond
      exact ⟨[], by rw [List.append_nil, hbeyond], hafter.symm⟩
    | cons gap beyond =>
      -- The text behind starts with a gap, which the run cannot hold; and the gaps before it end too early.
      have hgap : isGap gap = true := hbehind gap (by rw [hafter]; rfl)
      rcases List.append_eq_append_iff.mp hbeyond with ⟨inner, hinner, hrest⟩ | ⟨inner, hinner, hrest⟩
      · have hmem : gap ∈ run := by simp [hrest]
        exact absurd hgap (by simp [hrun gap hmem])
      · have hlast := List.getLast_mem hne
        have hgaps : isGap (back.getLast hne) = true := hbefore _ (by rw [hinner]; exact List.mem_append_left _ hlast)
        have hends := hends _ (List.getLast?_eq_some_getLast hne)
        exact absurd hgaps (by simp [hends])
  · exact ⟨more, hback, hafter⟩

section FieldEnd

variable {field front back behind : List Char}

/-- Inside a field no word is found that the field does not hold. -/
theorem link?_inside {word : List Char} (hword : ∀ c ∈ word, isGap c = false) (hfield : IsField field)
    (hnot : ¬Holds word field) (hsplit : field = front ++ back) (hne : back ≠ []) (hbehind : SetOff behind) :
    link? word (back ++ behind) = none := by
  by_contra hsome
  obtain ⟨rest, hrest⟩ := Option.ne_none_iff_exists'.mp hsome
  obtain ⟨-, before, gap, hbefore, hgaps, hgap, heq⟩ := link?_eq_some hrest
  have hends := hfield.back_ends hsplit hne
  obtain ⟨more, hback, hmore⟩ := run_inside hne hends hbehind hgaps hword heq
  apply hnot
  refine ⟨front ++ before, more, by rw [hsplit, hback]; simp, ?_, ?_⟩
  · rw [List.getLast?_append_of_ne_nil _ hbefore]
    exact fun c hc => hgaps c (List.mem_of_mem_getLast? hc)
  · intro c hc
    cases more with
    | nil => cases hc
    | cons d more =>
      obtain rfl := Option.some.inj hc
      obtain rfl := (List.cons_eq_cons.mp hmore).1
      exact hgap

/-- A tail that begins inside a field holds a terminator at the end of the field, and gaps behind it. -/
theorem tail_inside (hends : ∀ c ∈ back.getLast?, isGap c = false) (hne : back ≠ []) (hbehind : SetOff behind)
    (h : Tail (back ++ behind)) : Gaps behind ∧ ∃ terminator, Terminator terminator ∧ terminator <:+ back := by
  obtain ⟨before, terminator, after, hbefore, hafter, hterminator, heq⟩ := h
  have hrun : ∀ c ∈ terminator, isGap c = false := by
    rcases hterminator with rfl | hterminator
    · exact fun c hc => absurd hc List.not_mem_nil
    · exact hterminator.not_isGap
  obtain ⟨more, hback, hmore⟩ := run_inside hne hends hbehind hbefore hrun heq
  obtain ⟨last, hlast⟩ : ∃ last, back.getLast? = some last := ⟨_, List.getLast?_eq_some_getLast hne⟩
  have hnot := hends last hlast
  -- Nothing of the gaps behind the terminator lies in the field, because the field does not end in a gap.
  have hnil : more = [] := by
    by_contra hmoreNe
    rw [hback, List.getLast?_append_of_ne_nil _ hmoreNe] at hlast
    have hgap := hafter last (by rw [hmore]; exact List.mem_append_left _ (List.mem_of_getLast? hlast))
    exact absurd hgap (by simp [hnot])
  rw [hnil, List.append_nil] at hback
  refine ⟨fun c hc => hafter c (by rw [hmore]; exact List.mem_append_right _ hc), terminator, ?_, before, hback.symm⟩
  rcases hterminator with rfl | hterminator
  · rw [List.append_nil] at hback
    have hgap := hbefore last (hback ▸ List.mem_of_getLast? hlast)
    exact absurd hgap (by simp [hnot])
  · exact hterminator

/-- No tail begins inside a field that does not end in a terminator. -/
theorem not_tail_inside (hfield : IsField field) (hopen : Unclosed field)
    (hsplit : field = front ++ back) (hne : back ≠ []) (hbehind : SetOff behind) : ¬Tail (back ++ behind) := by
  intro htail
  have hends := hfield.back_ends hsplit hne
  obtain ⟨-, terminator, hterminator, hsuffix⟩ := tail_inside hends hne hbehind htail
  exact hopen terminator hterminator (hsuffix.trans ⟨front, hsplit.symm⟩)

end FieldEnd

/-! ## The cut at the end of a field -/

/-- A text is cut at the end of a field, if it is cut no later and not inside the field. -/
theorem cut_at_end {field behind found left : List Char} (heq : field ++ behind = found ++ left)
    (hle : found.length ≤ field.length)
    (hinside : ∀ back, back ≠ [] → field = found ++ back → left ≠ back ++ behind) : found = field ∧ left = behind := by
  rcases List.append_eq_append_iff.mp heq with ⟨more, hfound, hbehind⟩ | ⟨more, hfield, hleft⟩
  · have hnil : more = [] := by
      rw [hfound, List.length_append] at hle
      exact List.length_eq_zero_iff.mp (by omega)
    subst hnil
    exact ⟨by rw [hfound, List.append_nil], hbehind.symm⟩
  · by_cases hnil : more = []
    · subst hnil
      exact ⟨by rw [hfield, List.append_nil], hleft⟩
    · exact absurd hleft (hinside more hnil hfield)

/-- A text that ends in a word, and not like a comment, is a last field as a whole. -/
theorem closing?_unclosed {text tail : List Char} (hne : text ≠ []) (hends : Ends text) (hopen : Unclosed text)
    (htail : Tail tail) (hsetOff : SetOff tail) : closing? (text ++ tail) = some (text, tail) := by
  obtain ⟨⟨found, left⟩, hfound⟩ := exists_closing? hne htail
  obtain ⟨-, heq, hleft, hshortest⟩ := closing?_eq_some hfound
  have hle := hshortest text tail hne rfl htail
  obtain ⟨rfl, rfl⟩ := cut_at_end heq hle fun back hback hsplit hbehind => by
    rw [hbehind] at hleft
    rw [hsplit] at hends hopen
    obtain ⟨-, terminator, hterminator, hsuffix⟩ := tail_inside hends.back hback hsetOff hleft
    exact hopen.back terminator hterminator hsuffix
  exact hfound

/-- Of a last field and the tail that is set off from it the field is found. -/
theorem closing?_field {field tail : List Char} (hfield : IsField field)
    (hopen : Unclosed field) (htail : Tail tail) (hsetOff : SetOff tail) :
    closing? (field ++ tail) = some (field, tail) :=
  closing?_unclosed hfield.ne_nil hfield.not_isGap_getLast hopen htail hsetOff

/-- What stands between gaps is known by them. -/
theorem takeWhile_link {before word : List Char} {gap : Char} (rest : List Char) (hbefore : Gaps before)
    (hne : word ≠ []) (hword : ∀ c ∈ word, isGap c = false) (hgap : isGap gap = true) :
    ((before ++ word ++ gap :: rest).dropWhile isGap).takeWhile (fun c => !isGap c) = word ∧
    ((before ++ word ++ gap :: rest).dropWhile isGap).dropWhile (fun c => !isGap c) = gap :: rest := by
  have hnot : ∀ c ∈ word, (!isGap c) = true := fun c hc => by simp [hword c hc]
  rw [List.append_assoc, dropWhile_gaps_append hbefore, dropWhile_eq_self_of_forall hne hword,
    List.takeWhile_append_of_pos hnot, List.dropWhile_append_of_pos hnot]
  simp [hgap]

/-- A field that holds none of the words which may follow it ends where the one stands that does. -/
theorem cut?_field {words : List (List Char)} (hwords : IsWords words) {field before word rest : List Char}
    {gap : Char} (hfield : IsField field) (hclear : ∀ w ∈ words, ¬Holds w field) (hword : word ∈ words)
    (hne : before ≠ []) (hbefore : Gaps before) (hgap : isGap gap = true) (hrest : rest ≠ []) :
    cut? words (field ++ (before ++ word ++ gap :: rest)) = some ⟨field, word, rest⟩ := by
  have hlinked : Linked word (before ++ word ++ gap :: rest) rest :=
    ⟨before, [gap], hne, List.cons_ne_nil _ _, hbefore, by simpa [Gaps] using hgap, by simp⟩
  have hsetOff : SetOff (before ++ word ++ gap :: rest) := by
    rw [List.append_assoc]
    exact hbefore.setOff hne _
  obtain ⟨⟨found, other, left⟩, hcut, -⟩ := exists_cut? hwords hfield.ne_nil hword hlinked hrest
  obtain ⟨-, hother, ⟨behind, heq, hlink⟩, -⟩ := cut?_eq_some hcut
  have hle := length_field_le hwords hcut hfield.ne_nil rfl ⟨word, hword, rest, hlinked⟩
  obtain ⟨rfl, rfl⟩ := cut_at_end heq hle fun back hback hsplit hbehind => by
    rw [hbehind, link?_inside (hwords other hother).2 hfield (hclear other hother) hsplit hback hsetOff] at hlink
    cases hlink
  -- The word that is found and the one that was written stand between the same gaps.
  obtain ⟨-, gaps, otherGap, -, hgaps, hotherGap, hsame⟩ := link?_eq_some hlink
  have hfirst := takeWhile_link rest hbefore (hwords word hword).1 (hwords word hword).2 hgap
  have hsecond := takeWhile_link left hgaps (hwords other hother).1 (hwords other hother).2 hotherGap
  rw [← hsame] at hsecond
  obtain rfl := hfirst.1.symm.trans hsecond.1
  obtain ⟨-, rfl⟩ := List.cons_eq_cons.mp (hfirst.2.symm.trans hsecond.2)
  exact hcut

/-- The name of a declaration ends at the first place where a description or a tail follows. -/
theorem described?_append {name behind : List Char} {fields words : List (List Char)} {tail : List Char}
    (hne : name ≠ [])
    (hinside : ∀ front back, name = front ++ back → back ≠ [] →
      link? dashes (back ++ behind) = none ∧ ¬Tail (back ++ behind))
    (hend : ∀ c, described? (c :: behind) = some ⟨[c] :: fields, words, tail⟩) :
    described? (name ++ behind) = some ⟨name :: fields, words, tail⟩ := by
  induction name with
  | nil => exact absurd rfl hne
  | cons c rest ih =>
    by_cases hrest : rest = []
    · subst hrest
      exact hend c
    · obtain ⟨hlink, htail⟩ := hinside [c] rest rfl hrest
      have hinner := ih hrest fun front back hsplit hback => hinside (c :: front) back (by rw [hsplit]; rfl) hback
      have hnot : isTail (rest ++ behind) = false := eq_false_of_ne_true fun h => htail (isTail_iff.mp h)
      simp only [List.cons_append, described?, hlink, hnot, Bool.false_eq_true, if_false, hinner, Option.map_some]

/-! ## Texts with one word -/

/-- A text that holds one word at most, between gaps. -/
def Lone (run text : List Char) : Prop :=
  ∃ before after, Gaps before ∧ Gaps after ∧ (∀ c ∈ run, isGap c = false) ∧ text = before ++ run ++ after

theorem Gaps.lone {gaps : List Char} (h : Gaps gaps) : Lone [] gaps :=
  ⟨gaps, [], h, List.forall_mem_nil _, List.forall_mem_nil _, by simp⟩

theorem Tail.lone {tail : List Char} (h : Tail tail) : ∃ run, (run = [] ∨ Terminator run) ∧ Lone run tail := by
  obtain ⟨before, terminator, after, hbefore, hafter, hterminator, rfl⟩ := h
  refine ⟨terminator, hterminator, before, after, hbefore, hafter, ?_, rfl⟩
  rcases hterminator with rfl | hterminator
  · exact List.forall_mem_nil _
  · exact hterminator.not_isGap

theorem Lone.dropWhile {run text : List Char} (h : Lone run text) :
    ∃ after, Gaps after ∧ text.dropWhile isGap = run ++ after := by
  obtain ⟨before, after, hbefore, hafter, hrun, rfl⟩ := h
  rw [List.append_assoc, dropWhile_gaps_append hbefore]
  by_cases hnil : run = []
  · subst hnil
    rw [List.nil_append, gaps_iff_dropWhile.mp hafter]
    exact ⟨[], List.forall_mem_nil _, rfl⟩
  · exact ⟨after, hafter, dropWhile_eq_self_of_forall hnil hrun⟩

theorem Lone.lone_dropWhile {run text : List Char} (h : Lone run text) : Lone run (text.dropWhile isGap) := by
  obtain ⟨after, hafter, heq⟩ := h.dropWhile
  obtain ⟨-, -, -, -, hrun, -⟩ := h
  exact ⟨[], after, List.forall_mem_nil _, hafter, hrun, heq⟩

/-- In a text with one word no other word is found. -/
theorem Lone.link?_eq_none {run text word : List Char} (h : Lone run text) (hne : word ≠ [])
    (hword : ∀ c ∈ word, isGap c = false) (hother : word ≠ run) : link? word text = none := by
  by_contra hsome
  obtain ⟨rest, hrest⟩ := Option.ne_none_iff_exists'.mp hsome
  obtain ⟨-, gaps, gap, -, hgaps, hgap, heq⟩ := link?_eq_some hrest
  have hfirst := (takeWhile_link rest hgaps hne hword hgap).1
  obtain ⟨after, hafter, hdrop⟩ := h.dropWhile
  obtain ⟨-, -, -, -, hrun, -⟩ := h
  have hnot : ∀ c ∈ run, (!isGap c) = true := fun c hc => by simp [hrun c hc]
  have hnone : after.takeWhile (fun c => !isGap c) = [] := by
    cases after with
    | nil => rfl
    | cons c more => simp [hafter c List.mem_cons_self]
  rw [← heq, hdrop, List.takeWhile_append_of_pos hnot, hnone, List.append_nil] at hfirst
  exact hother hfirst.symm

end Directive
end ThreatModel
