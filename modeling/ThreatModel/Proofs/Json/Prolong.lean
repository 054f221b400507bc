import Mathlib
import ThreatModel.Json.Skip
import ThreatModel.Proofs.FileTree
import ThreatModel.Proofs.Json.Reads

/-!
# `Proofs.Json.Prolong` — readers on longer texts

A reader that has stopped before the end of a text has seen all that it goes by. So it does the same where the text goes
on. Only a reader that stops at the very end, as one of a number does, may read on there.

## Contents

* `Stop` — results that say where a reader stopped.
* `Prolongs` — what a reader does on a text, another one does on every longer text.
* `prolongs_number`, `prolongs_text`, `prolongs_literal` — the readers of scalars.
-/

namespace ThreatModel
namespace Json

open FileTree (bind_ok)

/-! ## Results in a longer text -/

/-- The cursor in a text that goes on. -/
def Cursor.before (c : Cursor) (more : List Char) : Cursor := ⟨c.rest ++ more, c.offset⟩

/-- A result that says where a reader stopped. -/
class Stop (ρ : Type) where
  cursor : ρ → Cursor
  /-- The result in a text that goes on. -/
  before : ρ → List Char → ρ

instance : Stop Cursor := ⟨id, Cursor.before⟩

instance {α : Type} : Stop (α × Cursor) := ⟨Prod.snd, fun r more => (r.1, r.2.before more)⟩

instance : Stop (Cursor × Bool) := ⟨Prod.fst, fun r more => (r.1.before more, r.2)⟩

section Prolongs

variable {ρ σ τ α : Type} [Stop ρ] [Stop σ] [Stop τ]

/-- What one step does at a place, the other does there in every longer text, unless the step goes to the end. -/
def ProlongsAt (f g : ρ → Except Fault σ) (r : ρ) : Prop :=
  ∀ s, f r = .ok s → (Stop.cursor s).rest <:+ (Stop.cursor r).rest ∧
    ((Stop.cursor s).rest ≠ [] → ∀ more, g (Stop.before r more) = .ok (Stop.before s more))

/-- What one step does on a text, the other does on every longer text, unless the step goes to the end. -/
def Prolongs (f g : ρ → Except Fault σ) : Prop := ∀ r, ProlongsAt f g r

theorem ne_nil_of_isSuffix {xs ys : List Char} (h : xs <:+ ys) (hne : xs ≠ []) : ys ≠ [] := by
  rintro rfl
  exact hne (List.suffix_nil.mp h)

variable {f g : ρ → Except Fault σ} {next next' : σ → Except Fault τ} {r : ρ}

/-- Two steps one after the other. -/
theorem ProlongsAt.bind (h : ProlongsAt f g r) (hnext : ∀ s, f r = .ok s → ProlongsAt next next' s) :
    ProlongsAt (fun r => f r >>= next) (fun r => g r >>= next') r := by
  intro t ht
  obtain ⟨s, hs, ht⟩ := bind_ok.mp ht
  obtain ⟨hsuffix, hlonger⟩ := h s hs
  obtain ⟨hsuffix', hlonger'⟩ := hnext s hs t ht
  refine ⟨hsuffix'.trans hsuffix, fun hne more => ?_⟩
  exact bind_ok.mpr ⟨_, hlonger (ne_nil_of_isSuffix hsuffix' hne) more, hlonger' hne more⟩

theorem Prolongs.bind (h : Prolongs f g) (hnext : Prolongs next next') :
    Prolongs (fun r => f r >>= next) (fun r => g r >>= next') :=
  fun r => (h r).bind fun s _ => hnext s

/-- A step that is one step where the text is as it is there. -/
theorem ProlongsAt.congr {f' g' : ρ → Except Fault σ} (h : ProlongsAt f' g' r) (hf : f r = f' r)
    (hg : ∀ more, g (Stop.before r more) = g' (Stop.before r more)) : ProlongsAt f g r := by
  intro s hs
  obtain ⟨hsuffix, hlonger⟩ := h s (hf ▸ hs)
  exact ⟨hsuffix, fun hne more => (hg more).trans (hlonger hne more)⟩

/-- A step that fails. -/
theorem ProlongsAt.fail {e : Fault} (h : f r = .error e) : ProlongsAt f g r := by
  intro s hs
  rw [h] at hs
  cases hs

/-- A step that stays where it is. -/
theorem prolongs_stay {a : α} : Prolongs (fun c : Cursor => .ok (a, c)) fun c => .ok (a, c) := by
  intro c s hs
  obtain rfl := Except.ok.inj hs
  exact ⟨List.suffix_refl _, fun _ _ => rfl⟩

/-- What is read beside the cursor is handed on. -/
theorem prolongs_pair {next next' : α × Cursor → Except Fault τ}
    (h : ∀ a, Prolongs (fun c => next (a, c)) fun c => next' (a, c)) : Prolongs next next' :=
  fun ⟨a, c⟩ => h a c

/-- What is read is made into something else. -/
theorem prolongs_map {β : Type} (F : α → β) :
    Prolongs (fun r : α × Cursor => (.ok (F r.1, r.2) : Except Fault (β × Cursor))) fun r => .ok (F r.1, r.2) :=
  prolongs_pair fun a => prolongs_stay (α := β) (a := F a)

end Prolongs

/-! ## Steps over characters -/

section Characters

variable {σ : Type} [Stop σ] {f g f' g' : Cursor → Except Fault σ} {d : Char} {rest : List Char} {offset : Nat}

/-- A step that goes on behind characters that it passes over. -/
theorem ProlongsAt.behind {passed : List Char} {offset' : Nat} (h : ProlongsAt f' g' ⟨rest, offset'⟩)
    (hf : f ⟨passed ++ rest, offset⟩ = f' ⟨rest, offset'⟩)
    (hg : rest ≠ [] → ∀ more, g ⟨passed ++ (rest ++ more), offset⟩ = g' ⟨rest ++ more, offset'⟩) :
    ProlongsAt f g ⟨passed ++ rest, offset⟩ := by
  intro s hs
  obtain ⟨hsuffix, hlonger⟩ := h s (hf ▸ hs)
  refine ⟨hsuffix.trans (List.suffix_append passed rest), fun hne more => ?_⟩
  have hlonger := hlonger hne more
  show g ⟨passed ++ rest ++ more, offset⟩ = _
  rw [List.append_assoc, hg (ne_nil_of_isSuffix hsuffix hne) more]
  exact hlonger

/-- A step that goes on behind the next character. -/
theorem ProlongsAt.next {offset' : Nat} (h : ProlongsAt f' g' ⟨rest, offset'⟩)
    (hf : f ⟨d :: rest, offset⟩ = f' ⟨rest, offset'⟩)
    (hg : rest ≠ [] → ∀ more, g ⟨d :: (rest ++ more), offset⟩ = g' ⟨rest ++ more, offset'⟩) :
    ProlongsAt f g ⟨d :: rest, offset⟩ := by
  show ProlongsAt f g ⟨[d] ++ rest, offset⟩
  exact h.behind hf hg

/-- At the end of a text only the place where a step stops counts. -/
theorem ProlongsAt.atEnd (h : ProlongsAt f' g' ⟨[], offset⟩) (hf : f ⟨[], offset⟩ = f' ⟨[], offset⟩) :
    ProlongsAt f g ⟨[], offset⟩ := by
  show ProlongsAt f g ⟨[] ++ [], offset⟩
  exact h.behind hf fun hne => absurd rfl hne

theorem Cursor.before_skip {c : Cursor} {n : Nat} (h : n ≤ c.rest.length) (more : List Char) :
    (c.before more).skip n = (c.skip n).before more := by
  unfold Cursor.before Cursor.skip
  rw [List.drop_append_of_le_length h]

/-- Characters of a kind that end before the text does are the same ones in a longer text. -/
theorem takeWhile_append_of_drop {p : Char → Bool} {text : List Char}
    (h : text.drop (text.takeWhile p).length ≠ []) (more : List Char) :
    (text ++ more).takeWhile p = text.takeWhile p := by
  rw [List.takeWhile_append, if_neg]
  intro hlength
  exact h (by rw [hlength, List.drop_length])

/-- A step that goes on behind characters of a kind. -/
theorem ProlongsAt.afterWhile {p : Char → Bool} {c : Cursor}
    (h : ProlongsAt f' g' (c.skip (c.rest.takeWhile p).length))
    (hf : f c = f' (c.skip (c.rest.takeWhile p).length))
    (hg : ∀ more, (c.rest ++ more).takeWhile p = c.rest.takeWhile p →
      g (c.before more) = g' ((c.before more).skip (c.rest.takeWhile p).length)) :
    ProlongsAt f g c := by
  intro s hs
  obtain ⟨hsuffix, hlonger⟩ := h s (hf ▸ hs)
  refine ⟨hsuffix.trans (List.drop_suffix _ _), fun hne more => ?_⟩
  have hdrop : c.rest.drop (c.rest.takeWhile p).length ≠ [] := ne_nil_of_isSuffix hsuffix hne
  show g (c.before more) = _
  rw [hg more (takeWhile_append_of_drop hdrop more), Cursor.before_skip (List.takeWhile_prefix p).length_le]
  exact hlonger hne more

/-- A step that passes over white space first may be looked at where there is none. -/
theorem prolongs_of_skipSpace (hf : ∀ c, f c = f c.skipSpace) (hg : ∀ c, g c = g c.skipSpace)
    (hnil : ∀ offset, ∃ fault, f ⟨[], offset⟩ = .error fault)
    (h : ∀ d rest offset, isLayout d = false → ProlongsAt f g ⟨d :: rest, offset⟩) : Prolongs f g := by
  intro c
  have hsettled : ProlongsAt f g c.skipSpace := by
    have htwice := skipSpace_skipSpace c
    generalize c.skipSpace = settled at htwice
    obtain ⟨_ | ⟨d, rest⟩, offset⟩ := settled
    · obtain ⟨fault, hfault⟩ := hnil offset
      exact ProlongsAt.fail hfault
    · refine h d rest offset (Bool.eq_false_iff.mpr fun hlayout => ?_)
      -- White space at the front would be passed over once more.
      have hoffset := congrArg Cursor.offset htwice
      simp [Cursor.skipSpace, Cursor.skip, hlayout] at hoffset
  refine ProlongsAt.afterWhile hsettled (hf c) fun more hspace => ?_
  rw [hg (c.before more)]
  show g ((c.before more).skip ((c.rest ++ more).takeWhile isLayout).length) = _
  rw [hspace]

end Characters

/-! ## Numbers -/

section Number

open Reader

variable {negative : Bool} {significand left : Nat} {start : Int}

theorem prolongs_floatOf : Prolongs (floatOf negative significand start) (floatOf negative significand start) := by
  unfold floatOf
  cases floatOf? negative significand start with
  | none => exact fun _ => ProlongsAt.fail rfl
  | some n => exact prolongs_stay

/-- The exponent of a number after its sign. -/
def exponentDigits (down negative : Bool) (significand : Nat) (start : Int) : Reader Number := fun c =>
  match c.rest with
  | [] => .error (c.fault .endInValue)
  | d :: _ =>
    if !isDigit d then .error (c.faultAhead .badNumber)
    else
      let digits := c.rest.takeWhile isDigit
      match absorbExponent 0 0 digits with
      | .ok e =>
        let shifted := if down then start - e else start + e
        floatOf negative significand (max (-(maxExponent : Int) - 1) (min (maxExponent : Int) shifted))
          (c.skip digits.length)
      | .error read =>
        if significand ≠ 0 && !down then .error ((c.skip read).fault .numberTooLarge)
        else floatOf negative 0 0 (c.skip digits.length)

theorem prolongs_exponentDigits (down : Bool) : Prolongs (exponentDigits down negative significand start)
    (exponentDigits down negative significand start) := by
  rintro ⟨_ | ⟨d, rest⟩, offset⟩
  · exact ProlongsAt.fail rfl
  · by_cases hd : isDigit d = true
    · generalize hdigits : (d :: rest).takeWhile isDigit = digits
      cases hexponent : absorbExponent 0 0 digits with
      | ok e =>
        let exponent : Int := max (-(maxExponent : Int) - 1) (min (maxExponent : Int) (if down then start - e else start + e))
        have hfloat := @prolongs_floatOf negative significand exponent
        refine ProlongsAt.afterWhile (p := isDigit) (hfloat _) ?_ fun more hmore => ?_
        · simp only [exponentDigits, hd, Bool.not_true, Bool.false_eq_true, if_false, hdigits, hexponent, exponent]
        · simp only [List.cons_append] at hmore
          simp only [exponentDigits, Cursor.before, List.cons_append, hd, Bool.not_true, Bool.false_eq_true, if_false,
            hmore, hdigits, hexponent, exponent]
      | error read =>
        by_cases hlarge : (significand ≠ 0 && !down) = true
        · refine ProlongsAt.fail (e := ((⟨d :: rest, offset⟩ : Cursor).skip read).fault .numberTooLarge) ?_
          simp only [exponentDigits, hd, Bool.not_true, Bool.false_eq_true, if_false, hdigits, hexponent, hlarge, if_true]
        · have hfloat := @prolongs_floatOf negative 0 0
          refine ProlongsAt.afterWhile (p := isDigit) (hfloat _) ?_ fun more hmore => ?_
          · simp only [exponentDigits, hd, Bool.not_true, Bool.false_eq_true, if_false, hdigits, hexponent, hlarge]
          · simp only [List.cons_append] at hmore
            simp only [exponentDigits, Cursor.before, List.cons_append, hd, Bool.not_true, Bool.false_eq_true, if_false,
              hmore, hdigits, hexponent, hlarge]
    · refine ProlongsAt.fail (e := Cursor.faultAhead ⟨d :: rest, offset⟩ .badNumber) ?_
      simp [exponentDigits, hd]

theorem prolongs_exponentPart : Prolongs (exponentPart negative significand start)
    (exponentPart negative significand start) := by
  rintro ⟨_ | ⟨d, rest⟩, offset⟩
  · exact ProlongsAt.fail rfl
  · by_cases hplus : d = '+'
    · subst hplus
      exact (prolongs_exponentDigits false _).next rfl fun _ _ => rfl
    · by_cases hminus : d = '-'
      · subst hminus
        exact (prolongs_exponentDigits true _).next rfl fun _ _ => rfl
      · have hunsigned : ∀ rest, exponentPart negative significand start ⟨d :: rest, offset⟩
            = exponentDigits false negative significand start ⟨d :: rest, offset⟩ := by
          intro rest
          unfold exponentPart
          split
          next down c hsign =>
            split at hsign
            · next h => exact absurd (List.cons.inj h).1 hplus
            · next h => exact absurd (List.cons.inj h).1 hminus
            · obtain ⟨rfl, rfl⟩ := Prod.mk.inj hsign
              rfl
        exact (prolongs_exponentDigits false _).congr (hunsigned rest) fun more => hunsigned (rest ++ more)

/-- The end of a number: an exponent, or nothing. -/
def exponentOrEnd (negative : Bool) (significand : Nat) (start : Int) : Reader Number := fun c =>
  match c.rest with
  | 'e' :: _ | 'E' :: _ => exponentPart negative significand start c.next
  | _ => floatOf negative significand start c

theorem prolongs_exponentOrEnd : Prolongs (exponentOrEnd negative significand start)
    (exponentOrEnd negative significand start) := by
  rintro ⟨_ | ⟨d, rest⟩, offset⟩
  · exact (prolongs_floatOf _).atEnd rfl
  · by_cases hlower : d = 'e'
    · subst hlower
      exact (prolongs_exponentPart _).next rfl fun _ _ => rfl
    · by_cases hupper : d = 'E'
      · subst hupper
        exact (prolongs_exponentPart _).next rfl fun _ _ => rfl
      · have hend : ∀ rest, exponentOrEnd negative significand start ⟨d :: rest, offset⟩
            = floatOf negative significand start ⟨d :: rest, offset⟩ := by
          intro rest
          unfold exponentOrEnd
          split
          · next h => exact absurd (List.cons.inj h).1 hlower
          · next h => exact absurd (List.cons.inj h).1 hupper
          · rfl
        exact (prolongs_floatOf _).congr (hend rest) fun more => hend (rest ++ more)

theorem prolongs_fractionPart : Prolongs (fractionPart negative significand start)
    (fractionPart negative significand start) := by
  intro c
  by_cases hdigits : (c.rest.takeWhile isDigit).isEmpty = true
  · refine ProlongsAt.fail (e := c.faultAhead (if c.rest.isEmpty then .endInValue else .badNumber)) ?_
    simp only [fractionPart, hdigits, if_true]
  · generalize hgenerated : c.rest.takeWhile isDigit = digits at hdigits
    let taken := absorb significand digits
    have hrest := @prolongs_exponentOrEnd negative taken.1 (start - ((digits.length - taken.2 : Nat) : Int))
    refine ProlongsAt.afterWhile (p := isDigit) (hrest _) ?_ fun more hmore => ?_
    · simp only [fractionPart, hgenerated, hdigits]
      rfl
    · rw [hgenerated] at hmore
      simp only [fractionPart, Cursor.before, hmore, hdigits, hgenerated]
      rfl

/-- A number that ends with the digits before its point. -/
def wholeOf (negative : Bool) (significand left : Nat) : Reader Number := fun c =>
  if left ≠ 0 then floatOf negative significand left c
  else if !negative then .ok (.whole significand, c)
  else if significand = 0 || signBit < significand then floatOf true significand 0 c
  else .ok (.whole (-significand), c)

theorem prolongs_wholeOf : Prolongs (wholeOf negative significand left) (wholeOf negative significand left) := by
  unfold wholeOf
  split
  · exact prolongs_floatOf
  · split
    · exact prolongs_stay
    · split
      · exact prolongs_floatOf
      · exact prolongs_stay

theorem prolongs_afterWhole : Prolongs (afterWhole negative significand left) (afterWhole negative significand left) := by
  rintro ⟨_ | ⟨d, rest⟩, offset⟩
  · exact (prolongs_wholeOf _).atEnd rfl
  · by_cases hpoint : d = '.'
    · subst hpoint
      exact (prolongs_fractionPart _).next rfl fun _ _ => rfl
    · by_cases hlower : d = 'e'
      · subst hlower
        exact (prolongs_exponentPart _).next rfl fun _ _ => rfl
      · by_cases hupper : d = 'E'
        · subst hupper
          exact (prolongs_exponentPart _).next rfl fun _ _ => rfl
        · have hend : ∀ rest, afterWhole negative significand left ⟨d :: rest, offset⟩
              = wholeOf negative significand left ⟨d :: rest, offset⟩ := by
            intro rest
            unfold afterWhole
            split
            · next h => exact absurd (List.cons.inj h).1 hpoint
            · next h => exact absurd (List.cons.inj h).1 hlower
            · next h => exact absurd (List.cons.inj h).1 hupper
            · rfl
          exact (prolongs_wholeOf _).congr (hend rest) fun more => hend (rest ++ more)

theorem prolongs_unsignedNumber : Prolongs (unsignedNumber negative) (unsignedNumber negative) := by
  rintro ⟨_ | ⟨d, rest⟩, offset⟩
  · exact ProlongsAt.fail rfl
  · by_cases hd : isDigit d = true
    · by_cases hzero : d = '0'
      · subst hzero
        by_cases hmore : rest.head?.any isDigit = true
        · refine ProlongsAt.fail (e := Cursor.faultAhead ⟨rest, offset + 1⟩ .badNumber) ?_
          simp only [unsignedNumber, hd, hmore, Cursor.next, List.tail_cons, Bool.not_true, Bool.false_eq_true, if_false,
            if_true]
        · have hzero : ∀ rest, rest.head?.any isDigit ≠ true → unsignedNumber negative ⟨'0' :: rest, offset⟩
              = afterWhole negative 0 0 ⟨rest, offset + 1⟩ := by
            intro rest hmore
            simp only [unsignedNumber, hd, hmore, Cursor.next, List.tail_cons, Bool.not_true, Bool.false_eq_true, if_false,
              if_true]
          refine (prolongs_afterWhole _).next (hzero rest hmore) fun hne more => hzero (rest ++ more) ?_
          rwa [List.head?_append_of_ne_nil _ hne]
      · generalize hdigits : (d :: rest).takeWhile isDigit = digits
        have hrest := @prolongs_afterWhole negative (absorb 0 digits).1 (absorb 0 digits).2
        refine ProlongsAt.afterWhile (p := isDigit) (hrest _) ?_ fun more hmore => ?_
        · simp only [unsignedNumber, hd, hzero, hdigits, Bool.not_true, Bool.false_eq_true, if_false]
        · simp only [List.cons_append] at hmore
          simp only [unsignedNumber, Cursor.before, List.cons_append, hd, hzero, hmore, hdigits, Bool.not_true,
            Bool.false_eq_true, if_false]
    · refine ProlongsAt.fail (e := Cursor.faultAhead ⟨d :: rest, offset⟩ .badNumber) ?_
      simp [unsignedNumber, hd]

/-- **Numbers.** -/
theorem prolongs_number : Prolongs Reader.number Reader.number := by
  rintro ⟨_ | ⟨d, rest⟩, offset⟩
  · exact ProlongsAt.fail rfl
  · by_cases hminus : d = '-'
    · subst hminus
      exact (prolongs_unsignedNumber _).next rfl fun _ _ => rfl
    · have hunsigned : ∀ rest, Reader.number ⟨d :: rest, offset⟩ = unsignedNumber false ⟨d :: rest, offset⟩ := by
        intro rest
        unfold Reader.number
        split
        · next h => exact absurd (List.cons.inj h).1 hminus
        · rfl
      exact (prolongs_unsignedNumber _).congr (hunsigned rest) fun more => hunsigned (rest ++ more)

end Number

/-! ## Strings and literals -/

section Text

open Reader

/-- Four digits are four digits in a longer text. -/
theorem fourDigits_append {offset n : Nat} {text : List Char} (h : fourDigits offset text = .ok n) :
    4 ≤ text.length ∧ ∀ more, fourDigits offset (text ++ more) = .ok n := by
  unfold fourDigits at h
  simp only at h
  split at h
  · next hfour =>
    have hlength : 4 ≤ text.length := by
      have hle := List.length_filterMap_le hexValue? (text.take 4)
      rw [hfour, List.length_take] at hle
      omega
    refine ⟨hlength, fun more => ?_⟩
    unfold fourDigits
    simp only [List.take_append_of_le_length hlength, hfour, if_true]
    exact h
  · split at h <;> cases h

/-- A second half is a second half in a longer text. -/
theorem lowHalf_append {offset n : Nat} {text : List Char} (h : lowHalf offset text = .ok n) :
    6 ≤ text.length ∧ ∀ more, lowHalf offset (text ++ more) = .ok n := by
  unfold lowHalf at h
  split at h
  · next rest =>
    obtain ⟨low, hlow, h⟩ := bind_ok.mp h
    obtain ⟨hlength, hlonger⟩ := fourDigits_append hlow
    refine ⟨by simpa using hlength, fun more => ?_⟩
    exact bind_ok.mpr ⟨low, hlonger more, h⟩
  all_goals cases h

/-- An escape with digits is the same in a longer text. -/
theorem unicodeEscape_append {offset : Nat} {text : List Char} {r : Char × Nat} (h : unicodeEscape offset text = .ok r) :
    r.2 ≤ text.length ∧ ∀ more, unicodeEscape offset (text ++ more) = .ok r := by
  obtain ⟨n, hn, h⟩ := bind_ok.mp h
  obtain ⟨hfour, hlonger⟩ := fourDigits_append hn
  split at h
  · cases h
  · next hlow =>
    split at h
    · next hhigh =>
      obtain ⟨low, hsecond, h⟩ := bind_ok.mp h
      obtain ⟨hsix, hlonger'⟩ := lowHalf_append hsecond
      obtain rfl := Except.ok.inj h
      rw [List.length_drop] at hsix
      refine ⟨by show 10 ≤ text.length; omega, fun more => bind_ok.mpr ⟨n, hlonger more, ?_⟩⟩
      rw [if_neg hlow, if_pos hhigh, List.drop_append_of_le_length hfour]
      exact bind_ok.mpr ⟨low, hlonger' more, rfl⟩
    · next hhigh =>
      obtain rfl := Except.ok.inj h
      refine ⟨hfour, fun more => bind_ok.mpr ⟨n, hlonger more, ?_⟩⟩
      rw [if_neg hlow, if_neg hhigh]

section Steps

variable {fuel offset : Nat} {rest : List Char}

/-- A character that stands for itself. -/
theorem textBody_plain {d : Char} (hquote : d ≠ '"') (hslash : d ≠ '\\') (hcontrol : ¬d.toNat < 32) :
    textBody (fuel + 1) ⟨d :: rest, offset⟩
      = textBody fuel ⟨rest, offset + d.utf8Size⟩ >>= fun r => .ok (d :: r.1, r.2) := by
  simp only [textBody, hcontrol, if_false]

/-- A character that is escaped by a letter. -/
theorem textBody_simple {escape char : Char} (hunicode : escape ≠ 'u') (h : simpleEscape? escape = some char) :
    textBody (fuel + 1) ⟨['\\', escape] ++ rest, offset⟩
      = textBody fuel ⟨rest, offset + 2⟩ >>= fun r => .ok (char :: r.1, r.2) := by
  simp only [List.cons_append, List.nil_append, textBody, h, Cursor.skip, List.drop_succ_cons, List.drop_zero]

/-- A character that is escaped by digits. -/
theorem textBody_unicode {digits : List Char} {char : Char} {taken : Nat} (htaken : digits.length = taken)
    (h : unicodeEscape (offset + 2) (digits ++ rest) = .ok (char, taken)) :
    textBody (fuel + 1) ⟨'\\' :: 'u' :: digits ++ rest, offset⟩
      = textBody fuel ⟨rest, offset + (taken + 2)⟩ >>= fun r => .ok (char :: r.1, r.2) := by
  simp only [textBody, List.cons_append, h, bind, Except.bind, Cursor.skip, List.drop_succ_cons, List.drop_left' htaken]

end Steps

theorem prolongs_textBody : ∀ {fuel more : Nat}, fuel ≤ more → Prolongs (textBody fuel) (textBody more)
  | 0, _, _ => fun _ => ProlongsAt.fail rfl
  | fuel + 1, 0, h => absurd h (Nat.not_succ_le_zero fuel)
  | fuel + 1, more + 1, h => by
    have hcons : ∀ char : Char, Prolongs (fun c => textBody fuel c >>= fun r => .ok (char :: r.1, r.2))
        (fun c => textBody more c >>= fun r => .ok (char :: r.1, r.2)) := fun char =>
      (prolongs_textBody (Nat.le_of_succ_le_succ h)).bind (prolongs_map (char :: ·))
    rintro ⟨_ | ⟨d, rest⟩, offset⟩
    · exact ProlongsAt.fail rfl
    · by_cases hquote : d = '"'
      · subst hquote
        exact (prolongs_stay (a := ([] : List Char)) _).next rfl fun _ _ => rfl
      · by_cases hslash : d = '\\'
        · subst hslash
          cases rest with
          | nil => exact ProlongsAt.fail rfl
          | cons escape rest =>
            by_cases hunicode : escape = 'u'
            · subst hunicode
              cases hescape : unicodeEscape (offset + 2) rest with
              | error fault =>
                refine ProlongsAt.fail (e := fault) ?_
                simp only [textBody, hescape, bind, Except.bind]
              | ok r =>
                obtain ⟨char, taken⟩ := r
                -- The digits are cut off, so that the cursor behind them can be seen.
                obtain ⟨hlength, hlonger⟩ := unicodeEscape_append hescape
                have hsplit := (List.take_append_drop taken rest).symm
                have htaken : (rest.take taken).length = taken := List.length_take_of_le hlength
                generalize rest.take taken = digits at hsplit htaken
                generalize rest.drop taken = behind at hsplit
                subst hsplit
                refine (hcons char _).behind (textBody_unicode htaken hescape) fun _ longer => ?_
                refine textBody_unicode htaken ?_
                rw [← List.append_assoc]
                exact hlonger longer
            · cases hsimple : simpleEscape? escape with
              | none =>
                refine ProlongsAt.fail (e := ⟨.badEscape, offset + 2⟩) ?_
                simp only [textBody, hsimple]
              | some char =>
                exact (hcons char _).behind (textBody_simple hunicode hsimple) fun _ _ => textBody_simple hunicode hsimple
        · by_cases hcontrol : d.toNat < 32
          · refine ProlongsAt.fail (e := Cursor.faultAhead ⟨d :: rest, offset⟩ .controlCharacter) ?_
            simp [textBody, hcontrol]
          · exact (hcons d _).next (textBody_plain hquote hslash hcontrol) fun _ _ => textBody_plain hquote hslash hcontrol

/-- A step that is bounded by the length of the text. -/
theorem prolongs_bounded {σ : Type} [Stop σ] {f g : Nat → Cursor → Except Fault σ} (n : Nat)
    (h : ∀ fuel more, fuel ≤ more → Prolongs (f fuel) (g more)) :
    Prolongs (fun c => f (c.rest.length + n) c) fun c => g (c.rest.length + n) c := by
  intro c s hs
  obtain ⟨hsuffix, -⟩ := h _ _ (Nat.le_refl (c.rest.length + n)) c s hs
  refine ⟨hsuffix, fun hne more => ?_⟩
  have hle : c.rest.length + n ≤ (c.rest ++ more).length + n := by
    rw [List.length_append]
    omega
  exact (h _ _ hle c s hs).2 hne more

/-- **Strings.** -/
theorem prolongs_text : Prolongs Reader.text Reader.text := by
  have hbody := prolongs_bounded 1 fun _ _ h => prolongs_textBody h
  exact hbody.bind (prolongs_map String.ofList)

/-- **Literals.** -/
theorem prolongs_literal : ∀ word, Prolongs (literal word) (literal word)
  | [] => by
    intro c s hs
    obtain rfl := Except.ok.inj hs
    exact ⟨List.suffix_refl _, fun _ _ => rfl⟩
  | expected :: more => by
    rintro ⟨_ | ⟨d, rest⟩, offset⟩
    · exact ProlongsAt.fail rfl
    · by_cases hd : d = expected
      · have hstep : ∀ rest, literal (expected :: more) ⟨d :: rest, offset⟩ = literal more ⟨rest, offset + 1⟩ := by
          intro rest
          simp only [literal, hd, if_true, Cursor.next, List.tail_cons]
        exact (prolongs_literal more _).next (hstep rest) fun _ longer => hstep (rest ++ longer)
      · refine ProlongsAt.fail (e := Cursor.faultAhead ⟨d :: rest, offset⟩ .badLiteral) ?_
        simp only [literal, hd, if_false]

end Text

end Json
end ThreatModel
