import Mathlib
import ThreatModel.Proofs.Json.Prolong.Nested

/-!
# `Proofs.Json.Prolong.Skip` — values that are passed over in longer texts

Passing over a value stops where reading it would, so it does not depend on what follows either, numbers apart that go
to the end of the text.

## Contents

* `prolongs_skipText`, `prolongs_skipNumber` — strings and numbers.
* `prolongs_skipItems`, `prolongs_skipMembers` — arrays and objects.
* `prolongs_skipValue` — any value.
-/

namespace ThreatModel
namespace Json

open Reader

/-- A step that ends where it is. -/
theorem prolongs_ok : Prolongs (fun c : Cursor => (.ok c : Except Fault Cursor)) fun c => .ok c :=
  fun _ => ProlongsAt.stay rfl rfl fun _ => rfl

/-! ## Strings -/

section Steps

variable {fuel offset : Nat} {rest : List Char}

theorem skipText_plain {d : Char} (hquote : d ≠ '"') (hslash : d ≠ '\\') :
    skipText (fuel + 1) ⟨d :: rest, offset⟩
      = if d.toNat < 32 then .error (Cursor.fault ⟨d :: rest, offset⟩ .controlCharacter)
        else skipText fuel ⟨rest, offset + d.utf8Size⟩ := by
  rw [skipText]
  split
  · next h => cases h
  · next h => exact absurd (List.cons.inj h).1 hquote
  · next h => exact absurd (List.cons.inj h).1 hslash
  · next h => exact absurd (List.cons.inj h).1 hslash
  · next h => exact absurd (List.cons.inj h).1 hslash
  · next h =>
    obtain ⟨rfl, rfl⟩ := List.cons.inj h
    rfl

theorem skipText_simple {escape : Char} (hunicode : escape ≠ 'u') (h : (simpleEscape? escape).isSome = true) :
    skipText (fuel + 1) ⟨['\\', escape] ++ rest, offset⟩ = skipText fuel ⟨rest, offset + 2⟩ := by
  simp only [List.cons_append, List.nil_append, skipText, h, if_true, Cursor.skip, List.drop_succ_cons, List.drop_zero]

theorem skipText_unicode {digits : List Char} {n : Nat} (hfour : digits.length = 4)
    (h : fourDigits (offset + 2) (digits ++ rest) = .ok n) :
    skipText (fuel + 1) ⟨'\\' :: 'u' :: digits ++ rest, offset⟩ = skipText fuel ⟨rest, offset + 6⟩ := by
  simp only [skipText, List.cons_append, h, Cursor.skip, List.drop_succ_cons, List.drop_left' hfour]

end Steps

theorem prolongs_skipText : ∀ {fuel more : Nat}, fuel ≤ more → Prolongs (skipText fuel) (skipText more)
  | 0, _, _ => fun _ => ProlongsAt.fail rfl
  | fuel + 1, 0, h => absurd h (Nat.not_succ_le_zero fuel)
  | fuel + 1, more + 1, h => by
    have ih := prolongs_skipText (Nat.le_of_succ_le_succ h)
    rintro ⟨_ | ⟨d, rest⟩, offset⟩
    · exact ProlongsAt.fail rfl
    · by_cases hquote : d = '"'
      · subst hquote
        exact (prolongs_ok _).next rfl fun _ _ => rfl
      · by_cases hslash : d = '\\'
        · subst hslash
          cases rest with
          | nil => exact ProlongsAt.fail rfl
          | cons escape rest =>
            by_cases hunicode : escape = 'u'
            · subst hunicode
              cases hdigits : fourDigits (offset + 2) rest with
              | error fault =>
                refine ProlongsAt.fail (e := fault) ?_
                simp only [skipText, hdigits]
              | ok n =>
                obtain ⟨hlength, hlonger⟩ := fourDigits_append hdigits
                have hsplit := (List.take_append_drop 4 rest).symm
                have hfour : (rest.take 4).length = 4 := List.length_take_of_le hlength
                generalize rest.take 4 = digits at hsplit hfour
                generalize rest.drop 4 = behind at hsplit
                subst hsplit
                refine (ih _).behind (skipText_unicode hfour hdigits) fun _ longer => ?_
                refine skipText_unicode (n := n) hfour ?_
                rw [← List.append_assoc]
                exact hlonger longer
            · by_cases hsimple : (simpleEscape? escape).isSome = true
              · exact (ih _).behind (skipText_simple hunicode hsimple) fun _ _ => skipText_simple hunicode hsimple
              · refine ProlongsAt.fail (e := ⟨.badEscape, offset + 2⟩) ?_
                simp only [skipText, hsimple]
                rfl
        · have hplain := fun fuel rest => @skipText_plain fuel offset rest d hquote hslash
          by_cases hcontrol : d.toNat < 32
          · exact ProlongsAt.fail ((hplain fuel rest).trans (if_pos hcontrol))
          · have hstep := fun fuel rest => (hplain fuel rest).trans (if_neg hcontrol)
            exact (ih _).next (hstep fuel rest) fun _ longer => hstep more (rest ++ longer)

/-! ## Numbers -/

/-- The digits of an exponent. -/
def skipDigits (c : Cursor) : Except Fault Cursor :=
  if c.rest.head?.any isDigit then .ok (c.skip (c.rest.takeWhile isDigit).length) else .error (c.faultAhead .badNumber)

theorem prolongs_skipDigits : Prolongs skipDigits skipDigits := by
  rintro ⟨_ | ⟨d, rest⟩, offset⟩
  · exact ProlongsAt.fail rfl
  · by_cases hd : isDigit d = true
    · refine ProlongsAt.afterWhile (p := isDigit) (prolongs_ok _) ?_ fun more hmore => ?_
      · simp only [skipDigits, List.head?_cons, Option.any_some, hd, if_true]
      · simp only [List.cons_append] at hmore
        simp only [skipDigits, Cursor.before, List.cons_append, List.head?_cons, Option.any_some, hd, if_true, hmore]
    · refine ProlongsAt.fail (e := Cursor.faultAhead ⟨d :: rest, offset⟩ .badNumber) ?_
      simp [skipDigits, hd]

/-- An exponent behind its `e`. -/
def skipSigned (c : Cursor) : Except Fault Cursor :=
  skipDigits (if c.rest.head?.any fun s => s = '+' || s = '-' then c.next else c)

theorem prolongs_skipSigned : Prolongs skipSigned skipSigned := by
  rintro ⟨_ | ⟨d, rest⟩, offset⟩
  · exact ProlongsAt.fail rfl
  · by_cases hsign : (d = '+' || d = '-') = true
    · have hstep : ∀ rest, skipSigned ⟨d :: rest, offset⟩ = skipDigits ⟨rest, offset + 1⟩ := by
        intro rest
        simp only [skipSigned, List.head?_cons, Option.any_some, hsign, if_true, Cursor.next, List.tail_cons]
      exact (prolongs_skipDigits _).next (hstep rest) fun _ more => hstep (rest ++ more)
    · have hstep : ∀ rest, skipSigned ⟨d :: rest, offset⟩ = skipDigits ⟨d :: rest, offset⟩ := by
        intro rest
        simp only [skipSigned, List.head?_cons, Option.any_some, hsign]
        rfl
      exact (prolongs_skipDigits _).congr (hstep rest) fun more => hstep (rest ++ more)

theorem prolongs_skipExponent : Prolongs skipExponent skipExponent := by
  rintro ⟨_ | ⟨d, rest⟩, offset⟩
  · exact (prolongs_ok _).atEnd rfl
  · by_cases hmark : (d = 'e' || d = 'E') = true
    · have hstep : ∀ rest, skipExponent ⟨d :: rest, offset⟩ = skipSigned ⟨rest, offset + 1⟩ := by
        intro rest
        simp only [skipExponent, List.head?_cons, Option.any_some, hmark, if_true]
        rfl
      exact (prolongs_skipSigned _).next (hstep rest) fun _ more => hstep (rest ++ more)
    · have hstep : ∀ rest, skipExponent ⟨d :: rest, offset⟩ = .ok ⟨d :: rest, offset⟩ := by
        intro rest
        simp only [skipExponent, List.head?_cons, Option.any_some, hmark]
        rfl
      exact (prolongs_ok _).congr (hstep rest) fun more => hstep (rest ++ more)

/-- The digits behind the point of a number, and its exponent. -/
def skipDecimals (c : Cursor) : Except Fault Cursor :=
  let digits := c.rest.takeWhile isDigit
  if digits.isEmpty then .error (c.faultAhead .badNumber) else skipExponent (c.skip digits.length)

theorem prolongs_skipDecimals : Prolongs skipDecimals skipDecimals := by
  intro c
  by_cases hempty : (c.rest.takeWhile isDigit).isEmpty = true
  · refine ProlongsAt.fail (e := c.faultAhead .badNumber) ?_
    simp only [skipDecimals, hempty, if_true]
  · refine ProlongsAt.afterWhile (p := isDigit) (prolongs_skipExponent _) ?_ fun more hmore => ?_
    · simp only [skipDecimals, hempty]
      rfl
    · simp only [skipDecimals, Cursor.before, hmore, hempty]
      rfl

theorem prolongs_skipFraction : Prolongs skipNumber.fraction skipNumber.fraction := by
  rintro ⟨_ | ⟨d, rest⟩, offset⟩
  · exact (prolongs_skipExponent _).atEnd rfl
  · by_cases hpoint : d = '.'
    · subst hpoint
      exact (prolongs_skipDecimals _).next rfl fun _ _ => rfl
    · have hstep : ∀ rest, skipNumber.fraction ⟨d :: rest, offset⟩ = skipExponent ⟨d :: rest, offset⟩ := by
        intro rest
        unfold skipNumber.fraction
        split
        · next h => exact absurd (List.cons.inj h).1 hpoint
        · rfl
      exact (prolongs_skipExponent _).congr (hstep rest) fun more => hstep (rest ++ more)

theorem prolongs_skipNumber : Prolongs skipNumber skipNumber := by
  rintro ⟨_ | ⟨d, rest⟩, offset⟩
  · exact ProlongsAt.fail rfl
  · by_cases hzero : d = '0'
    · subst hzero
      by_cases hmore : rest.head?.any isDigit = true
      · refine ProlongsAt.fail (e := Cursor.faultAhead ⟨rest, offset + 1⟩ .badNumber) ?_
        simp only [skipNumber, hmore, if_true, Cursor.next, List.tail_cons]
      · have hstep : ∀ rest, rest.head?.any isDigit ≠ true →
            skipNumber ⟨'0' :: rest, offset⟩ = skipNumber.fraction ⟨rest, offset + 1⟩ := by
          intro rest hmore
          simp only [skipNumber, hmore, Cursor.next, List.tail_cons]
          rfl
        refine (prolongs_skipFraction _).next (hstep rest hmore) fun hne more => hstep (rest ++ more) ?_
        rwa [List.head?_append_of_ne_nil _ hne]
    · by_cases hd : isDigit d = true
      · refine ProlongsAt.afterWhile (p := isDigit) (prolongs_skipFraction _) ?_ fun more hmore => ?_
        · simp only [skipNumber, hd, if_true]
        · simp only [List.cons_append] at hmore
          simp only [skipNumber, Cursor.before, List.cons_append, hd, if_true, hmore]
      · refine ProlongsAt.fail (e := Cursor.faultAhead ⟨d :: rest, offset⟩ .badNumber) ?_
        simp [skipNumber, hd]

/-! ## Arrays and objects -/

theorem prolongs_skipItems {item item' : Cursor → Except Fault Cursor} (hitem : Prolongs item item') :
    ∀ {fuel more : Nat} (first : Bool), fuel ≤ more → Prolongs (skipItems item fuel first) (skipItems item' more first)
  | 0, _, _, _ => fun _ => ProlongsAt.fail rfl
  | fuel + 1, 0, _, h => absurd h (Nat.not_succ_le_zero fuel)
  | fuel + 1, more + 1, first, h => by
    have hrest := hitem.bind (prolongs_skipItems hitem false (Nat.le_of_succ_le_succ h))
    have hskips : ∀ (item : Cursor → Except Fault Cursor) (fuel : Nat) (c : Cursor),
        skipItems item (fuel + 1) first c = skipItems item (fuel + 1) first c.skipSpace := by
      intro item fuel c
      unfold skipItems
      rw [skipSpace_skipSpace]
    refine prolongs_of_skipSpace (hskips item fuel) (hskips item' more) (fun offset => ⟨_, rfl⟩)
      fun d rest offset hd => ?_
    have hspace : ∀ rest, Cursor.skipSpace ⟨d :: rest, offset⟩ = ⟨d :: rest, offset⟩ := fun rest =>
      skipSpace_eq_self (forall_mem_head?_cons hd) offset
    by_cases hbracket : d = ']'
    · subst hbracket
      exact (prolongs_ok _).next rfl fun _ _ => rfl
    · cases first with
      | true =>
        have hstep : ∀ (item : Cursor → Except Fault Cursor) (fuel : Nat) rest,
            skipItems item (fuel + 1) true ⟨d :: rest, offset⟩
              = item ⟨d :: rest, offset⟩ >>= skipItems item fuel false := by
          intro item fuel rest
          simp only [skipItems, hspace, if_true]
        exact (hrest _).congr (hstep item fuel rest) fun longer => hstep item' more (rest ++ longer)
      | false =>
        by_cases hcomma : d = ','
        · subst hcomma
          exact (hrest _).next rfl fun _ _ => rfl
        · refine ProlongsAt.fail (e := Cursor.faultAhead ⟨d :: rest, offset⟩ .noArrayComma) ?_
          simp only [skipItems, hspace, hcomma, if_false, Bool.false_eq_true]

theorem prolongs_skipName : Prolongs skipName skipName := by
  have hskips : ∀ c, skipName c = skipName c.skipSpace := by
    intro c
    unfold skipName
    rw [skipSpace_skipSpace]
  refine prolongs_of_skipSpace hskips hskips (fun offset => ⟨_, rfl⟩) fun d rest offset hd => ?_
  by_cases hquote : d = '"'
  · subst hquote
    have hname := (prolongs_bounded 1 fun _ _ h => prolongs_skipText h).bind prolongs_colon
    exact (hname _).next rfl fun _ _ => rfl
  · refine ProlongsAt.fail (e := Cursor.faultAhead ⟨d :: rest, offset⟩ .nameNotText) ?_
    simp only [skipName, skipSpace_eq_self (forall_mem_head?_cons hd)]
    split
    · next h => cases h
    · next h => exact absurd (List.cons.inj h).1 hquote
    · rfl

theorem prolongs_skipMembers {item item' : Cursor → Except Fault Cursor} (hitem : Prolongs item item') :
    ∀ {fuel more : Nat} (first : Bool), fuel ≤ more →
      Prolongs (skipMembers item fuel first) (skipMembers item' more first)
  | 0, _, _, _ => fun _ => ProlongsAt.fail rfl
  | fuel + 1, 0, _, h => absurd h (Nat.not_succ_le_zero fuel)
  | fuel + 1, more + 1, first, h => by
    have hrest := (prolongs_skipName.bind hitem).bind (prolongs_skipMembers hitem false (Nat.le_of_succ_le_succ h))
    have hskips : ∀ (item : Cursor → Except Fault Cursor) (fuel : Nat) (c : Cursor),
        skipMembers item (fuel + 1) first c = skipMembers item (fuel + 1) first c.skipSpace := by
      intro item fuel c
      unfold skipMembers
      rw [skipSpace_skipSpace]
    refine prolongs_of_skipSpace (hskips item fuel) (hskips item' more) (fun offset => ⟨_, rfl⟩)
      fun d rest offset hd => ?_
    have hspace : ∀ rest, Cursor.skipSpace ⟨d :: rest, offset⟩ = ⟨d :: rest, offset⟩ := fun rest =>
      skipSpace_eq_self (forall_mem_head?_cons hd) offset
    by_cases hbracket : d = '\x7d'
    · subst hbracket
      exact (prolongs_ok _).next rfl fun _ _ => rfl
    · cases first with
      | true =>
        have hstep : ∀ (item : Cursor → Except Fault Cursor) (fuel : Nat) rest,
            skipMembers item (fuel + 1) true ⟨d :: rest, offset⟩
              = skipName ⟨d :: rest, offset⟩ >>= item >>= skipMembers item fuel false := by
          intro item fuel rest
          simp only [skipMembers, hspace, if_true]
        exact (hrest _).congr (hstep item fuel rest) fun longer => hstep item' more (rest ++ longer)
      | false =>
        by_cases hcomma : d = ','
        · subst hcomma
          exact (hrest _).next rfl fun _ _ => rfl
        · refine ProlongsAt.fail (e := Cursor.faultAhead ⟨d :: rest, offset⟩ .noObjectComma) ?_
          simp only [skipMembers, hspace, hcomma, if_false, Bool.false_eq_true]

/-! ## Values -/

theorem prolongs_skipNested : ∀ {fuel more : Nat}, fuel ≤ more → Prolongs (skipNested fuel) (skipNested more)
  | 0, _, _ => fun _ => ProlongsAt.fail rfl
  | fuel + 1, 0, h => absurd h (Nat.not_succ_le_zero fuel)
  | fuel + 1, more + 1, h => by
    have ih := prolongs_skipNested (Nat.le_of_succ_le_succ h)
    have hskips : ∀ (fuel : Nat) (c : Cursor), skipNested (fuel + 1) c = skipNested (fuel + 1) c.skipSpace := by
      intro fuel c
      unfold skipNested
      rw [skipSpace_skipSpace]
    refine prolongs_of_skipSpace (hskips fuel) (hskips more) (fun offset => ⟨_, rfl⟩) fun d rest offset hd => ?_
    have hspace : ∀ rest, Cursor.skipSpace ⟨d :: rest, offset⟩ = ⟨d :: rest, offset⟩ := fun rest =>
      skipSpace_eq_self (forall_mem_head?_cons hd) offset
    by_cases hnull : d = 'n'
    · subst hnull
      exact (prolongs_literal _ _).next rfl fun _ _ => rfl
    by_cases htrue : d = 't'
    · subst htrue
      exact (prolongs_literal _ _).next rfl fun _ _ => rfl
    by_cases hfalse : d = 'f'
    · subst hfalse
      exact (prolongs_literal _ _).next rfl fun _ _ => rfl
    by_cases hquote : d = '"'
    · subst hquote
      have htext := prolongs_bounded 1 fun _ _ h => prolongs_skipText h
      exact (htext _).next rfl fun _ _ => rfl
    by_cases harray : d = '['
    · subst harray
      have hitems := prolongs_bounded 1 fun _ _ h => prolongs_skipItems ih true h
      exact (hitems _).next rfl fun _ _ => rfl
    by_cases hobject : d = '\x7b'
    · subst hobject
      have hmembers := prolongs_bounded 1 fun _ _ h => prolongs_skipMembers ih true h
      exact (hmembers _).next rfl fun _ _ => rfl
    by_cases hminus : d = '-'
    · subst hminus
      exact (prolongs_skipNumber _).next rfl fun _ _ => rfl
    have hother : ∀ fuel rest, skipNested (fuel + 1) ⟨d :: rest, offset⟩
        = if isDigit d then skipNumber ⟨d :: rest, offset⟩
          else .error (Cursor.faultAhead ⟨d :: rest, offset⟩ .noValue) := by
      intro fuel rest
      unfold skipNested
      simp only [hspace]
    by_cases hdigit : isDigit d = true
    · have hstep := fun fuel rest => (hother fuel rest).trans (if_pos hdigit)
      exact (prolongs_skipNumber _).congr (hstep fuel rest) fun longer => hstep more (rest ++ longer)
    · exact ProlongsAt.fail ((hother fuel rest).trans (if_neg hdigit))

/-- **Values that are passed over.** -/
theorem prolongs_skipValue : Prolongs skipValue skipValue :=
  prolongs_bounded 1 fun _ _ h => prolongs_skipNested h

end Json
end ThreatModel
