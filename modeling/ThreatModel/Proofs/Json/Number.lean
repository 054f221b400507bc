import Mathlib
import ThreatModel.Proofs.Json.Reads

/-!
# `Proofs.Json.Number` — printed numbers are read back

A whole number that fits is read back exactly. The text of a floating point number is read to its end as well,
and what is made of it depends on the text alone.

## Contents

* `Digits`, `absorb_toDigits` — runs of digits and what they stand for.
* `IsWhole`, `IsFraction`, `IsExponent` — the parts of a numeral.
* `exists_reads_number` — a numeral is read to its end.
* `Number.reread`, `reads_number` — what becomes of a printed number.
* `reread_whole`, `whole_of_reread` — whole numbers in range stay, and others do not stay whole.
-/

namespace ThreatModel
namespace Json

open Reader

/-! ## Digits -/

/-- A run of digits. -/
def Digits (text : List Char) : Prop := ∀ d ∈ text, isDigit d = true

theorem digits_toDigits (n : Nat) : Digits (Nat.toDigits 10 n) := by
  intro d hd
  have h := Nat.isDigit_of_mem_toDigits (by decide) (by decide) hd
  simpa [Char.isDigit, isDigit, Char.le_def] using h

theorem takeWhile_digits {digits : List Char} (hdigits : Digits digits) (rest : List Char)
    (hrest : ∀ c ∈ rest.head?, isDigit c = false) : (digits ++ rest).takeWhile isDigit = digits := by
  rw [List.takeWhile_append_of_pos hdigits]
  cases rest with
  | nil => simp
  | cons c more => simp [hrest c rfl]

/-- A digit is none of the marks between the parts of a numeral. -/
theorem isDigit_ne {c : Char} (h : isDigit c = true) :
    c ≠ '-' ∧ c ≠ '+' ∧ c ≠ '.' ∧ c ≠ 'e' ∧ c ≠ 'E' := by
  refine ⟨?_, ?_, ?_, ?_, ?_⟩ <;> (rintro rfl; exact absurd h (by decide))

/-- Digits only make a number larger. -/
theorem le_ofDigitChars (digits : List Char) (n : Nat) : n ≤ Nat.ofDigitChars 10 digits n := by
  induction digits generalizing n with
  | nil => simp
  | cons d more ih =>
    rw [Nat.ofDigitChars_cons]
    have := ih (10 * n + (d.toNat - '0'.toNat))
    omega

/-- Digits are taken exactly as long as they stand for a number in range. -/
theorem absorb_eq {digits : List Char} {n : Nat} (h : Nat.ofDigitChars 10 digits n ≤ maxWhole) :
    absorb n digits = (Nat.ofDigitChars 10 digits n, 0) := by
  induction digits generalizing n with
  | nil => simp [absorb]
  | cons d more ih =>
    rw [Nat.ofDigitChars_cons, Nat.mul_comm] at h ⊢
    have hle := le_ofDigitChars more (n * 10 + (d.toNat - '0'.toNat))
    rw [absorb, if_neg (by omega), ih h]

/-- Digits of which none is left over stand for the number that was made of them. -/
theorem eq_of_absorb {digits : List Char} {n significand : Nat} (h : absorb n digits = (significand, 0)) :
    significand = Nat.ofDigitChars 10 digits n := by
  induction digits generalizing n with
  | nil =>
    rw [← (Prod.mk.inj h).1]
    simp
  | cons d more ih =>
    rw [absorb] at h
    split at h
    · exact absurd (Prod.mk.inj h).2 (Nat.succ_ne_zero _)
    · rw [Nat.ofDigitChars_cons, Nat.mul_comm]
      exact ih h

theorem absorb_toDigits {n : Nat} (h : n ≤ maxWhole) : absorb 0 (Nat.toDigits 10 n) = (n, 0) := by
  have hvalue : Nat.ofDigitChars 10 (Nat.toDigits 10 n) 0 = n := Nat.ofDigitChars_ten_toDigits
  rw [absorb_eq (by rw [hvalue]; exact h), hvalue]

/-- The digits of a number start with a zero only if it is zero. -/
theorem head_toDigits {n : Nat} (h : 0 < n) : (Nat.toDigits 10 n).head? ≠ some '0' := by
  induction n using Nat.strongRecOn with
  | ind n ih =>
    rw [Nat.toDigits_eq_if (by decide)]
    split
    · next hlt =>
      have hdigit : ∀ m < 10, 0 < m → Nat.digitChar m ≠ '0' := by decide
      simpa using hdigit n hlt h
    · have hrec := ih (n / 10) (by omega) (by omega)
      rw [List.head?_append_of_ne_nil _ Nat.toDigits_ne_nil]
      exact hrec

/-! ## The parts of a numeral -/

/-- Digits without a leading zero. -/
def IsWhole (text : List Char) : Prop := text = ['0'] ∨ ∃ d more, text = d :: more ∧ d ≠ '0' ∧ Digits (d :: more)

/-- A point with digits after it, or nothing. -/
def IsFraction (text : List Char) : Prop := text = [] ∨ ∃ digits, text = '.' :: digits ∧ digits ≠ [] ∧ Digits digits

/-- An exponent with its sign, or nothing. -/
def IsExponent (text : List Char) : Prop :=
  text = [] ∨ ∃ sign digits, text = 'e' :: sign :: digits ∧ (sign = '+' ∨ sign = '-') ∧ digits ≠ [] ∧ Digits digits

theorem isWhole_toDigits (n : Nat) : IsWhole (Nat.toDigits 10 n) := by
  rcases Nat.eq_zero_or_pos n with rfl | hpos
  · exact Or.inl (Nat.toDigits_zero 10)
  · obtain ⟨d, more, heq⟩ := List.exists_cons_of_ne_nil (Nat.toDigits_ne_nil (n := n) (b := 10))
    have hhead := head_toDigits hpos
    have hdigits := digits_toDigits n
    rw [heq] at hhead hdigits ⊢
    exact Or.inr ⟨d, more, rfl, fun h => hhead (by rw [h]; rfl), hdigits⟩

theorem skip_append (text rest : List Char) (offset : Nat) :
    Cursor.skip ⟨text ++ rest, offset⟩ text.length = ⟨rest, offset + text.length⟩ := by
  simp [Cursor.skip]

theorem reads_floatOf (negative : Bool) (significand : Nat) (exponent : Int) :
    Reads (floatOf negative significand exponent) [] (floatOf? negative significand exponent) := by
  intro rest offset _
  unfold floatOf
  cases floatOf? negative significand exponent with
  | none => exact Yields.error _ rest
  | some n => exact Yields.ok n rest offset

/-- A number that is not kept exactly is a floating point number. -/
theorem exists_bits_of_floatOf {negative : Bool} {significand : Nat} {exponent : Int} {c last : Cursor} {n : Number}
    (h : floatOf negative significand exponent c = .ok (n, last)) : ∃ bits, n = .float bits := by
  unfold floatOf floatOf? at h
  split at h
  · next found hfound =>
    obtain ⟨bits, -, rfl⟩ := Option.map_eq_some_iff.mp hfound
    exact ⟨_, (Prod.mk.inj (Except.ok.inj h)).1.symm⟩
  · cases h

/-- What follows a numeral does not go on with digits. -/
theorem Delimited.not_isDigit {rest : List Char} (h : Delimited rest) : ∀ c ∈ rest.head?, isDigit c = false :=
  fun c hc => (h c hc).1

/-- An exponent as far as it is told apart from larger ones. -/
def clampExponent (exponent : Int) : Int := max (-(maxExponent : Int) - 1) (min (maxExponent : Int) exponent)

theorem exists_reads_exponentPart (negative : Bool) (significand : Nat) (start : Int) {sign : Char}
    {digits : List Char} (hsign : sign = '+' ∨ sign = '-') (hne : digits ≠ []) (hdigits : Digits digits) :
    ∃ result, Reads (exponentPart negative significand start) (sign :: digits) result := by
  obtain ⟨d, more, rfl⟩ := List.exists_cons_of_ne_nil hne
  have hd := hdigits d List.mem_cons_self
  have htake := fun rest hrest => takeWhile_digits hdigits rest hrest
  have hskip := fun rest offset => skip_append (d :: more) rest offset
  simp only [List.cons_append, List.length_cons] at htake hskip
  cases h : absorbExponent 0 0 (d :: more) with
  | ok e =>
    rcases hsign with rfl | rfl
    · refine ⟨floatOf? negative significand (clampExponent (start + e)), fun rest offset hrest => ?_⟩
      simp only [exponentPart, List.cons_append, Cursor.next, List.tail_cons, hd, htake rest hrest.not_isDigit, h,
        List.length_cons, hskip, Bool.not_true, Bool.false_eq_true, if_false]
      exact reads_floatOf _ _ _ rest _ hrest
    · refine ⟨floatOf? negative significand (clampExponent (start - e)), fun rest offset hrest => ?_⟩
      simp only [exponentPart, List.cons_append, Cursor.next, List.tail_cons, hd, htake rest hrest.not_isDigit, h,
        List.length_cons, hskip, Bool.not_true, Bool.false_eq_true, if_false, if_true]
      exact reads_floatOf _ _ _ rest _ hrest
  | error read =>
    -- An exponent that is too large is a fault only if it makes the number large.
    by_cases hlarge : (decide (significand ≠ 0) && !decide (sign = '-')) = true
    · have hplus : sign = '+' := by
        rcases hsign with rfl | rfl
        · rfl
        · simp at hlarge
      subst hplus
      refine ⟨none, fun rest offset hrest => ?_⟩
      have hlarge : (decide (significand ≠ 0) && !false) = true := hlarge
      simp only [exponentPart, List.cons_append, Cursor.next, List.tail_cons, hd, htake rest hrest.not_isDigit, h,
        hlarge, Bool.not_true, Bool.false_eq_true, if_false, if_true]
      exact Yields.error _ rest
    · refine ⟨floatOf? negative 0 0, fun rest offset hrest => ?_⟩
      have hread : exponentPart negative significand start ⟨sign :: (d :: more) ++ rest, offset⟩
          = floatOf negative 0 0 ⟨rest, offset + 1 + (more.length + 1)⟩ := by
        rcases hsign with rfl | rfl
        · have hlarge : ¬(decide (significand ≠ 0) && !false) = true := hlarge
          simp only [exponentPart, List.cons_append, Cursor.next, List.tail_cons, hd,
            htake rest hrest.not_isDigit, h, hlarge, List.length_cons, hskip, Bool.not_true, Bool.false_eq_true,
            if_false]
        · simp only [exponentPart, List.cons_append, Cursor.next, List.tail_cons, hd,
            htake rest hrest.not_isDigit, h, List.length_cons, hskip, Bool.not_true, Bool.and_false,
            Bool.false_eq_true, if_false]
      rw [hread]
      exact reads_floatOf _ _ _ rest _ hrest

theorem exists_reads_fractionPart (negative : Bool) (significand : Nat) (start : Int)
    {digits exponent : List Char} (hne : digits ≠ []) (hdigits : Digits digits) (hexponent : IsExponent exponent) :
    ∃ result, Reads (fractionPart negative significand start) (digits ++ exponent) result := by
  have hempty : digits.isEmpty = false := by simpa using hne
  rcases hexponent with rfl | ⟨sign, more, rfl, hsign, hmore, hmoreDigits⟩
  · refine ⟨floatOf? negative (absorb significand digits).1
      (start - ((digits.length - (absorb significand digits).2 : Nat) : Int)), fun rest offset hrest => ?_⟩
    rw [List.append_nil]
    simp only [fractionPart, takeWhile_digits hdigits _ hrest.not_isDigit, hempty, Bool.false_eq_true, if_false,
      skip_append]
    split
    · exact absurd rfl (hrest 'e' rfl).2.2.1
    · exact absurd rfl (hrest 'E' rfl).2.2.2
    · exact reads_floatOf _ _ _ rest _ hrest
  · obtain ⟨result, hresult⟩ := exists_reads_exponentPart negative (absorb significand digits).1
      (start - ((digits.length - (absorb significand digits).2 : Nat) : Int)) hsign hmore hmoreDigits
    refine ⟨result, fun rest offset hrest => ?_⟩
    have hmark : ∀ c ∈ ('e' :: (sign :: more ++ rest)).head?, isDigit c = false :=
      forall_mem_head?_cons (by decide)
    rw [List.append_assoc, List.cons_append]
    simp only [fractionPart, takeWhile_digits hdigits _ hmark, hempty, Bool.false_eq_true, if_false, skip_append]
    exact hresult rest _ hrest

theorem exists_reads_afterWhole (negative : Bool) (significand left : Nat) {fraction exponent : List Char}
    (hfraction : IsFraction fraction) (hexponent : IsExponent exponent) :
    ∃ result, Reads (afterWhole negative significand left) (fraction ++ exponent) result := by
  rcases hfraction with rfl | ⟨digits, rfl, hne, hdigits⟩
  · rcases hexponent with rfl | ⟨sign, more, rfl, hsign, hmore, hmoreDigits⟩
    · -- Nothing follows: the number is whole, if it fits.
      have hplain : ∀ rest offset, Delimited rest → afterWhole negative significand left ⟨rest, offset⟩
          = if left ≠ 0 then floatOf negative significand left ⟨rest, offset⟩
            else if !negative then .ok (.whole significand, ⟨rest, offset⟩)
            else if significand = 0 || signBit < significand then floatOf true significand 0 ⟨rest, offset⟩
            else .ok (.whole (-significand), ⟨rest, offset⟩) := by
        intro rest offset hrest
        simp only [afterWhole]
        split
        · exact absurd rfl (hrest '.' rfl).2.1
        · exact absurd rfl (hrest 'e' rfl).2.2.1
        · exact absurd rfl (hrest 'E' rfl).2.2.2
        · rfl
      by_cases hleft : left ≠ 0
      · refine ⟨floatOf? negative significand left, fun rest offset hrest => ?_⟩
        rw [List.nil_append, List.nil_append, hplain rest offset hrest, if_pos hleft]
        exact reads_floatOf _ _ _ rest _ hrest
      · by_cases hnegative : (!negative) = true
        · refine ⟨some (.whole significand), fun rest offset hrest => ?_⟩
          rw [List.nil_append, List.nil_append, hplain rest offset hrest, if_neg hleft, if_pos hnegative]
          exact Yields.ok _ rest offset
        · by_cases hrange : (decide (significand = 0) || decide (signBit < significand)) = true
          · refine ⟨floatOf? true significand 0, fun rest offset hrest => ?_⟩
            rw [List.nil_append, List.nil_append, hplain rest offset hrest, if_neg hleft, if_neg hnegative,
              if_pos hrange]
            exact reads_floatOf _ _ _ rest _ hrest
          · refine ⟨some (.whole (-significand)), fun rest offset hrest => ?_⟩
            rw [List.nil_append, List.nil_append, hplain rest offset hrest, if_neg hleft, if_neg hnegative,
              if_neg hrange]
            exact Yields.ok _ rest offset
    · obtain ⟨result, hresult⟩ :=
        exists_reads_exponentPart negative significand left hsign hmore hmoreDigits
      exact ⟨result, fun rest offset hrest => hresult rest (offset + 1) hrest⟩
  · obtain ⟨result, hresult⟩ :=
      exists_reads_fractionPart negative significand left hne hdigits hexponent
    exact ⟨result, fun rest offset hrest => hresult rest (offset + 1) hrest⟩

/-! ## Numerals -/

/-- What follows a whole part does not go on with digits. -/
theorem not_isDigit_after_whole {fraction exponent rest : List Char} (hfraction : IsFraction fraction)
    (hexponent : IsExponent exponent) (hrest : Delimited rest) :
    ∀ c ∈ (fraction ++ exponent ++ rest).head?, isDigit c = false := by
  rcases hfraction with rfl | ⟨digits, rfl, -, -⟩
  · rcases hexponent with rfl | ⟨sign, more, rfl, -, -, -⟩
    · simpa using hrest.not_isDigit
    · exact forall_mem_head?_cons (by decide)
  · exact forall_mem_head?_cons (by decide)

theorem exists_reads_unsignedNumber (negative : Bool) {whole fraction exponent : List Char}
    (hwhole : IsWhole whole) (hfraction : IsFraction fraction) (hexponent : IsExponent exponent) :
    ∃ result, Reads (unsignedNumber negative) (whole ++ fraction ++ exponent) result := by
  rcases hwhole with rfl | ⟨d, more, rfl, hzero, hdigits⟩
  · -- A zero is a whole part by itself: a digit after it would be a fault, and none comes after it.
    obtain ⟨result, hresult⟩ := exists_reads_afterWhole negative 0 0 hfraction hexponent
    refine ⟨result, fun rest offset hrest => ?_⟩
    have hdigit := not_isDigit_after_whole hfraction hexponent hrest
    have hnone : (fraction ++ exponent ++ rest).head?.any isDigit = false := by
      cases h : (fraction ++ exponent ++ rest).head? with
      | none => rfl
      | some c => exact hdigit c h
    have hzero : isDigit '0' = true := by decide
    simp only [List.append_assoc] at hnone ⊢
    simp only [unsignedNumber, List.cons_append, List.nil_append, Cursor.next, List.tail_cons, hzero, hnone,
      Bool.not_true, Bool.false_eq_true, if_false, if_true]
    simpa only [List.append_assoc] using hresult rest (offset + 1) hrest
  · obtain ⟨result, hresult⟩ := exists_reads_afterWhole negative (absorb 0 (d :: more)).1
      (absorb 0 (d :: more)).2 hfraction hexponent
    refine ⟨result, fun rest offset hrest => ?_⟩
    have htake := takeWhile_digits hdigits _ (not_isDigit_after_whole hfraction hexponent hrest)
    have hskip := skip_append (d :: more) (fraction ++ exponent ++ rest) offset
    have hd := hdigits d List.mem_cons_self
    simp only [List.append_assoc, List.cons_append] at htake hskip ⊢
    simp only [unsignedNumber, hd, hzero, htake, hskip, Bool.not_true, Bool.false_eq_true, if_false]
    simpa only [List.append_assoc] using hresult rest (offset + (d :: more).length) hrest

/-- The text of a number: a sign, a whole part, maybe a fraction and maybe an exponent. -/
def IsNumeral (text : List Char) : Prop :=
  ∃ sign whole fraction exponent, (sign = [] ∨ sign = ['-']) ∧ IsWhole whole ∧ IsFraction fraction ∧
    IsExponent exponent ∧ text = sign ++ (whole ++ fraction ++ exponent)

theorem IsWhole.head {whole : List Char} (h : IsWhole whole) : ∃ d more, whole = d :: more ∧ isDigit d = true := by
  rcases h with rfl | ⟨d, more, rfl, -, hdigits⟩
  · exact ⟨'0', [], rfl, by decide⟩
  · exact ⟨d, more, rfl, hdigits d List.mem_cons_self⟩

/-- **A numeral is read to its end**, and what is made of it does not depend on its place. -/
theorem exists_reads_number {text : List Char} (h : IsNumeral text) : ∃ result, Reads Reader.number text result := by
  obtain ⟨sign, whole, fraction, exponent, hsign, hwhole, hfraction, hexponent, rfl⟩ := h
  rcases hsign with rfl | rfl
  · obtain ⟨result, hresult⟩ := exists_reads_unsignedNumber false hwhole hfraction hexponent
    refine ⟨result, fun rest offset hrest => ?_⟩
    have hread := hresult rest offset hrest
    obtain ⟨d, more, rfl, hd⟩ := hwhole.head
    have hminus := (isDigit_ne hd).1
    simp only [List.nil_append, List.append_assoc, List.cons_append] at hread ⊢
    unfold Reader.number
    split
    · next heq => exact absurd (List.cons.inj heq).1 hminus
    · exact hread
  · obtain ⟨result, hresult⟩ := exists_reads_unsignedNumber true hwhole hfraction hexponent
    exact ⟨result, fun rest offset hrest => hresult rest (offset + 1) hrest⟩

/-! ## Printed numbers -/

/-- A numeral without sign may carry one. -/
theorem isNumeral_signed {whole fraction exponent : List Char} (negative : Bool) (hwhole : IsWhole whole)
    (hfraction : IsFraction fraction) (hexponent : IsExponent exponent) :
    IsNumeral ((if negative then ['-'] else []) ++ (whole ++ fraction ++ exponent)) := by
  refine ⟨_, whole, fraction, exponent, ?_, hwhole, hfraction, hexponent, rfl⟩
  cases negative with
  | false => exact Or.inl rfl
  | true => exact Or.inr rfl

theorem digits_zeros (n : Nat) : Digits (Decimal.zeros n) := by
  intro d hd
  rw [List.eq_of_mem_replicate hd]
  decide

theorem Digits.append {front back : List Char} (hfront : Digits front) (hback : Digits back) :
    Digits (front ++ back) := by
  intro d hd
  rcases List.mem_append.mp hd with hd | hd
  · exact hfront d hd
  · exact hback d hd

/-- A whole part that is not zero may be continued or cut short. -/
theorem isWhole_of_head {whole : List Char} (hne : whole ≠ []) (hdigits : Digits whole)
    (hhead : whole.head? ≠ some '0') : IsWhole whole := by
  obtain ⟨d, more, rfl⟩ := List.exists_cons_of_ne_nil hne
  exact Or.inr ⟨d, more, rfl, fun h => hhead (by rw [h]; rfl), hdigits⟩

/-- A decimal that is not zero, written with a point and without an exponent. -/
theorem positional_parts {d : Decimal} (hpos : 0 < d.digits) (hexponent : d.exponent < 0) :
    ∃ whole fraction, IsWhole whole ∧ IsFraction fraction ∧ d.positional = whole ++ fraction := by
  have hdigits := digits_toDigits d.digits
  have hhead := head_toDigits hpos
  have hne : Nat.toDigits 10 d.digits ≠ [] := Nat.toDigits_ne_nil
  unfold Decimal.positional Decimal.natDigits
  dsimp only
  rw [if_neg (by omega)]
  generalize Nat.toDigits 10 d.digits = digits at hdigits hhead hne ⊢
  by_cases hpoint : 0 < (digits.length : Int) + d.exponent
  · obtain ⟨count, hcount⟩ := Int.eq_ofNat_of_zero_le (Int.le_of_lt hpoint)
    rw [if_pos hpoint, hcount, Int.toNat_natCast]
    have htake : digits.take count ≠ [] := by
      intro hnil
      rcases List.take_eq_nil_iff.mp hnil with h | h
      · omega
      · exact hne h
    have hdrop : digits.drop count ≠ [] := by
      intro hnil
      have := List.drop_eq_nil_iff.mp hnil
      omega
    refine ⟨digits.take count, '.' :: digits.drop count, ?_, ?_, by simp⟩
    · refine isWhole_of_head htake (fun c hc => hdigits c (List.mem_of_mem_take hc)) ?_
      rw [List.head?_take, if_neg (by omega)]
      exact hhead
    · exact Or.inr ⟨_, rfl, hdrop, fun c hc => hdigits c (List.mem_of_mem_drop hc)⟩
  · rw [if_neg hpoint]
    refine ⟨['0'], '.' :: (Decimal.zeros (-((digits.length : Int) + d.exponent)).toNat ++ digits), Or.inl rfl,
      Or.inr ⟨_, rfl, by simp [hne], (digits_zeros _).append hdigits⟩, by simp⟩

/-- The first digit of a number that is not zero is a whole part. -/
theorem isWhole_first {first : Char} {more : List Char} (hdigits : Digits (first :: more))
    (hhead : (first :: more).head? ≠ some '0') : IsWhole [first] := by
  refine isWhole_of_head (List.cons_ne_nil _ _) ?_ hhead
  intro c hc
  obtain rfl := List.mem_singleton.mp hc
  exact hdigits c List.mem_cons_self

/-- A decimal is written as a whole part, a fraction and an exponent. -/
theorem scientific_parts (d : Decimal) : ∃ whole fraction exponent, IsWhole whole ∧ IsFraction fraction ∧
    IsExponent exponent ∧ d.scientific = whole ++ fraction ++ exponent := by
  have hpoint : IsFraction ['.', '0'] := Or.inr ⟨['0'], rfl, List.cons_ne_nil _ _, digits_zeros 1⟩
  have hdigits := digits_toDigits d.digits
  have hne : Nat.toDigits 10 d.digits ≠ [] := Nat.toDigits_ne_nil
  by_cases hnull : d.digits = 0
  · exact ⟨['0'], ['.', '0'], [], Or.inl rfl, hpoint, Or.inl rfl, by simp [Decimal.scientific, hnull]⟩
  · have hpos := Nat.pos_of_ne_zero hnull
    have hhead := head_toDigits hpos
    unfold Decimal.scientific Decimal.natDigits
    dsimp only
    rw [if_neg hnull]
    split
    · by_cases hexponent : 0 ≤ d.exponent
      · rw [if_pos hexponent]
        refine ⟨d.positional, ['.', '0'], [], ?_, hpoint, Or.inl rfl, by simp⟩
        simp only [Decimal.positional, if_pos hexponent, Decimal.natDigits]
        refine isWhole_of_head (by simp [hne]) (hdigits.append (digits_zeros _)) ?_
        rw [List.head?_append_of_ne_nil _ hne]
        exact hhead
      · rw [if_neg hexponent]
        obtain ⟨whole, fraction, hwhole, hfraction, heq⟩ := positional_parts hpos (by omega)
        exact ⟨whole, fraction, [], hwhole, hfraction, Or.inl rfl, by rw [heq, List.append_nil]⟩
    · have hexponent : ∀ n : Int, IsExponent
          ('e' :: (if n < 0 then '-' else '+') :: Nat.toDigits 10 n.natAbs) := by
        intro n
        refine Or.inr ⟨_, _, rfl, ?_, Nat.toDigits_ne_nil, digits_toDigits _⟩
        split
        · exact Or.inr rfl
        · exact Or.inl rfl
      generalize Nat.toDigits 10 d.digits = digits at hdigits hhead hne ⊢
      obtain ⟨first, more, rfl⟩ := List.exists_cons_of_ne_nil hne
      have hfirst := isWhole_first hdigits hhead
      cases more with
      | nil => exact ⟨[first], [], _, hfirst, Or.inl rfl, hexponent _, rfl⟩
      | cons second rest =>
        refine ⟨[first], '.' :: second :: rest, _, hfirst, ?_, hexponent _, rfl⟩
        exact Or.inr ⟨_, rfl, List.cons_ne_nil _ _, fun c hc => hdigits c (List.mem_cons_of_mem _ hc)⟩

/-- The text of a number is a numeral. -/
theorem isNumeral_numberText (n : Number) : IsNumeral (numberText n) := by
  cases n with
  | whole value =>
    have hwhole := isWhole_toDigits value.natAbs
    have hfraction : IsFraction [] := Or.inl rfl
    have hexponent : IsExponent [] := Or.inl rfl
    by_cases hnegative : value < 0
    · simpa [numberText, hnegative] using isNumeral_signed true hwhole hfraction hexponent
    · simpa [numberText, hnegative] using isNumeral_signed false hwhole hfraction hexponent
  | float bits =>
    obtain ⟨whole, fraction, exponent, hwhole, hfraction, hexponent, heq⟩ :=
      scientific_parts (Decimal.shortest .even (Binary.ofBits bits))
    rw [numberText, heq]
    exact isNumeral_signed (isNegative bits) hwhole hfraction hexponent

end Json

/-- The number that is read back from the text of a number, if one is. -/
def Number.reread (n : Number) : Option Number :=
  match Json.Reader.number ⟨Json.numberText n, 0⟩ with
  | .ok (result, _) => some result
  | .error _ => none

namespace Json

open Reader

/-- **A printed number is read to its end**, wherever it stands. -/
theorem reads_number (n : Number) : Reads Reader.number (numberText n) n.reread := by
  obtain ⟨result, hresult⟩ := exists_reads_number (isNumeral_numberText n)
  have hplain := hresult [] 0 delimited_nil
  have hreread : n.reread = result := by
    rw [List.append_nil] at hplain
    unfold Number.reread
    cases result with
    | none =>
      obtain ⟨fault, heq⟩ := hplain
      rw [heq]
    | some a =>
      obtain ⟨offset, heq⟩ := hplain
      rw [heq]
  rw [hreread]
  exact hresult

/-! ## Whole numbers -/

/-- The digits of a number are read as far as they are kept exactly. -/
theorem unsignedNumber_toDigits (negative : Bool) (n offset : Nat) :
    unsignedNumber negative ⟨Nat.toDigits 10 n, offset⟩
      = afterWhole negative (absorb 0 (Nat.toDigits 10 n)).1 (absorb 0 (Nat.toDigits 10 n)).2
          ⟨[], offset + (Nat.toDigits 10 n).length⟩ := by
  rcases Nat.eq_zero_or_pos n with rfl | hpos
  · rw [Nat.toDigits_zero]
    rfl
  · have hhead := head_toDigits hpos
    have hdigits := digits_toDigits n
    obtain ⟨d, more, heq⟩ := List.exists_cons_of_ne_nil (Nat.toDigits_ne_nil (n := n) (b := 10))
    rw [heq] at hhead hdigits ⊢
    have hd := hdigits d List.mem_cons_self
    have hzero : d ≠ '0' := fun h => hhead (by rw [h]; rfl)
    have htake : (d :: more).takeWhile isDigit = d :: more := by
      simpa using takeWhile_digits hdigits [] (fun _ h => absurd h (Option.not_mem_none _))
    have hskip := skip_append (d :: more) [] offset
    rw [List.append_nil] at hskip
    simp only [unsignedNumber, hd, hzero, htake, hskip, Bool.not_true, Bool.false_eq_true, if_false]

/-- A number that starts with a digit has no sign. -/
theorem number_toDigits (n offset : Nat) :
    Reader.number ⟨Nat.toDigits 10 n, offset⟩ = unsignedNumber false ⟨Nat.toDigits 10 n, offset⟩ := by
  unfold Reader.number
  split
  · next heq =>
    have htext : Nat.toDigits 10 n = '-' :: _ := heq
    have hdash := digits_toDigits n '-' (htext ▸ List.mem_cons_self)
    exact absurd hdash (by decide)
  · rfl

/-- A whole number ends with its text. -/
theorem afterWhole_end {negative : Bool} {significand : Nat}
    (h : negative = true → significand ≠ 0 ∧ significand ≤ signBit) (offset : Nat) :
    afterWhole negative significand 0 ⟨[], offset⟩
      = .ok (.whole (if negative then -(significand : Int) else significand), ⟨[], offset⟩) := by
  cases negative with
  | false => rfl
  | true =>
    obtain ⟨hzero, hfits⟩ := h rfl
    have hover : ¬signBit < significand := by omega
    simp [afterWhole, hzero, hover]

/-- **A whole number that fits stays**: one of 64 bits, with or without a sign. -/
theorem reread_whole {n : Int} (hlow : -(signBit : Int) ≤ n) (hhigh : n ≤ maxWhole) :
    (Number.whole n).reread = some (.whole n) := by
  have hlimits : signBit ≤ maxWhole := by decide
  have hsize : n.natAbs ≤ maxWhole := by omega
  by_cases hnegative : n < 0
  · have hread : Reader.number ⟨numberText (.whole n), 0⟩
        = afterWhole true n.natAbs 0 ⟨[], 1 + (Nat.toDigits 10 n.natAbs).length⟩ := by
      rw [numberText, if_pos hnegative]
      have hrest := unsignedNumber_toDigits true n.natAbs 1
      rw [absorb_toDigits hsize] at hrest
      exact hrest
    have hvalue : (-(n.natAbs : Int)) = n := by omega
    rw [Number.reread, hread, afterWhole_end fun _ => ⟨by omega, by omega⟩]
    simp only [if_true, hvalue]
  · have hread : Reader.number ⟨numberText (.whole n), 0⟩
        = afterWhole false n.natAbs 0 ⟨[], 0 + (Nat.toDigits 10 n.natAbs).length⟩ := by
      rw [numberText, if_neg hnegative, number_toDigits, unsignedNumber_toDigits, absorb_toDigits hsize]
    have hvalue : (n.natAbs : Int) = n := by omega
    rw [Number.reread, hread, afterWhole_end fun h => absurd h Bool.false_ne_true]
    simp only [Bool.false_eq_true, if_false, hvalue]

/-- A natural number that is read back as a whole number is the same one. -/
theorem whole_of_reread {n : Nat} {value : Int} (h : (Number.whole n).reread = some (.whole value)) : value = n := by
  have hread : Reader.number ⟨numberText (.whole n), 0⟩
      = afterWhole false (absorb 0 (Nat.toDigits 10 n)).1 (absorb 0 (Nat.toDigits 10 n)).2
          ⟨[], 0 + (Nat.toDigits 10 n).length⟩ := by
    rw [numberText, if_neg (Int.not_lt.mpr (Int.natCast_nonneg n)), Int.natAbs_natCast, number_toDigits,
      unsignedNumber_toDigits]
  rw [Number.reread, hread] at h
  generalize habsorb : absorb 0 (Nat.toDigits 10 n) = absorbed at h
  obtain ⟨significand, left⟩ := absorbed
  simp only [afterWhole] at h
  by_cases hleft : left = 0
  · subst hleft
    obtain rfl := Number.whole.inj (Option.some.inj h)
    rw [eq_of_absorb habsorb, Nat.ofDigitChars_ten_toDigits]
  · -- Digits that are left over make a floating point number.
    rw [if_pos hleft] at h
    split at h
    · next result last heq =>
      obtain ⟨bits, rfl⟩ := exists_bits_of_floatOf heq
      cases h
    · cases h

end Json
end ThreatModel
