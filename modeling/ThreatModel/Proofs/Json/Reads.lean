import Mathlib
import ThreatModel.Json.Reader

/-!
# `Proofs.Json.Reads` — what a reader makes of a text in its place

A printed text is read back inside a longer one. What a reader makes of it may depend on the text alone, and not
on what stands before it or after it. The one thing that has to be known of what follows is that it does not go
on with a number.

## Contents

* `Yields` — an outcome without its offsets.
* `Delimited`, `Reads` — what a reader makes of a text, wherever the text stands.
* `skipSpace_append` — white space before a text.
* `reads_text` — a printed string is read back.
-/

namespace ThreatModel
namespace Json

open Reader

variable {α β : Type}

/-! ## Outcomes -/

/-- An outcome of a reader: the given value with the given text left, or a fault where there is no value. -/
def Yields (outcome : Except Fault (α × Cursor)) (rest : List Char) : Option α → Prop
  | some a => ∃ offset, outcome = .ok (a, ⟨rest, offset⟩)
  | none => ∃ fault, outcome = .error fault

theorem Yields.ok (a : α) (rest : List Char) (offset : Nat) : Yields (.ok (a, ⟨rest, offset⟩)) rest (some a) :=
  ⟨offset, rfl⟩

theorem Yields.error (fault : Fault) (rest : List Char) : Yields (α := α) (.error fault) rest none := ⟨fault, rfl⟩

/-- Two stages one after the other. -/
theorem Yields.bind {outcome : Except Fault (α × Cursor)} {middle rest : List Char} {result : Option α}
    (h : Yields outcome middle result) (next : α × Cursor → Except Fault (β × Cursor)) (further : α → Option β)
    (hnext : ∀ a offset, result = some a → Yields (next (a, ⟨middle, offset⟩)) rest (further a)) :
    Yields (outcome >>= next) rest (result.bind further) := by
  cases result with
  | none =>
    obtain ⟨fault, rfl⟩ := h
    exact Yields.error fault rest
  | some a =>
    obtain ⟨offset, rfl⟩ := h
    exact hnext a offset rfl

theorem Yields.map {outcome : Except Fault (α × Cursor)} {rest : List Char} {result : Option α} (f : α → β)
    (h : Yields outcome rest result) :
    Yields (outcome >>= fun r => .ok (f r.1, r.2)) rest (result.map f) := by
  have hbind := h.bind (fun r => .ok (f r.1, r.2)) (fun a => some (f a)) fun a offset _ => Yields.ok (f a) rest offset
  rwa [Option.map_eq_bind]

/-- An outcome has one result. -/
theorem Yields.unique {outcome : Except Fault (α × Cursor)} {rest : List Char} {result other : Option α}
    (h : Yields outcome rest result) (hother : Yields outcome rest other) : result = other := by
  cases result with
  | none =>
    obtain ⟨fault, rfl⟩ := h
    cases other with
    | none => rfl
    | some b =>
      obtain ⟨offset, heq⟩ := hother
      cases heq
  | some a =>
    obtain ⟨offset, rfl⟩ := h
    cases other with
    | none =>
      obtain ⟨fault, heq⟩ := hother
      cases heq
    | some b =>
      obtain ⟨offset, heq⟩ := hother
      rw [(Prod.mk.inj (Except.ok.inj heq)).1]

/-! ## Texts in their place -/

/-- A text starts with its first character, and with no other. -/
theorem forall_mem_head?_cons {P : Char → Prop} {c : Char} {rest : List Char} (h : P c) :
    ∀ d ∈ (c :: rest).head?, P d := by
  intro d hd
  obtain rfl := Option.some.inj hd
  exact h

/-- A text that no number goes on with. -/
def Delimited (rest : List Char) : Prop :=
  ∀ c ∈ rest.head?, isDigit c = false ∧ c ≠ '.' ∧ c ≠ 'e' ∧ c ≠ 'E'

theorem delimited_nil : Delimited [] := fun _ h => absurd h (Option.not_mem_none _)

theorem delimited_cons {c : Char} {rest : List Char}
    (h : isDigit c = false ∧ c ≠ '.' ∧ c ≠ 'e' ∧ c ≠ 'E') : Delimited (c :: rest) :=
  forall_mem_head?_cons h

/-- What a reader makes of a text, whatever stands before it and after it. -/
def Reads (reader : Reader α) (text : List Char) (result : Option α) : Prop :=
  ∀ rest offset, Delimited rest → Yields (reader ⟨text ++ rest, offset⟩) rest result

/-- A reader makes one thing of a text. -/
theorem Reads.unique {reader : Reader α} {text : List Char} {result other : Option α}
    (h : Reads reader text result) (hother : Reads reader text other) : result = other :=
  (h [] 0 delimited_nil).unique (hother [] 0 delimited_nil)

/-! ## White space -/

/-- White space before a text is passed over. -/
theorem skipSpace_append {layout : List Char} (hlayout : ∀ c ∈ layout, isLayout c = true) {text : List Char}
    (htext : ∀ c ∈ text.head?, isLayout c = false) (offset : Nat) :
    Cursor.skipSpace ⟨layout ++ text, offset⟩ = ⟨text, offset + layout.length⟩ := by
  have htake : (layout ++ text).takeWhile isLayout = layout := by
    rw [List.takeWhile_append_of_pos hlayout]
    cases text with
    | nil => simp
    | cons c rest => simp [htext c rfl]
  simp [Cursor.skipSpace, Cursor.skip, htake]

/-- A cursor at a text that starts with no white space stays where it is. -/
theorem skipSpace_eq_self {text : List Char} (htext : ∀ c ∈ text.head?, isLayout c = false) (offset : Nat) :
    Cursor.skipSpace ⟨text, offset⟩ = ⟨text, offset⟩ :=
  skipSpace_append (List.forall_mem_nil _) htext offset

/-- White space is passed over at once. -/
theorem skipSpace_skipSpace (c : Cursor) : c.skipSpace.skipSpace = c.skipSpace := by
  obtain ⟨text, offset⟩ := c
  have htake : ∀ d ∈ text.takeWhile isLayout, isLayout d = true := fun d hd =>
    List.all_eq_true.mp List.all_takeWhile d hd
  have hdrop : ∀ d ∈ (text.dropWhile isLayout).head?, isLayout d = false := by
    intro d hd
    have hnot := List.head?_dropWhile_not isLayout text
    rw [Option.mem_def.mp hd] at hnot
    simpa using hnot
  have hskip := skipSpace_append htake hdrop offset
  rw [List.takeWhile_append_dropWhile] at hskip
  rw [hskip, skipSpace_eq_self hdrop]

/-! ## Strings -/

theorem hexValue?_hexDigit : ∀ n < 32, hexValue? (hexDigit (n / 16)) = some (n / 16) ∧
    hexValue? (hexDigit n) = some (n % 16) := by
  decide

/-- The four digits of a control character are read back. -/
theorem unicodeEscape_control {c : Char} (h : c.toNat < 32) (offset : Nat) (rest : List Char) :
    unicodeEscape offset ('0' :: '0' :: hexDigit (c.toNat / 16) :: hexDigit c.toNat :: rest) = .ok (c, 4) := by
  obtain ⟨hhigh, hlow⟩ := hexValue?_hexDigit c.toNat h
  have hzero : hexValue? '0' = some 0 := by decide
  have hdigits : fourDigits offset ('0' :: '0' :: hexDigit (c.toNat / 16) :: hexDigit c.toNat :: rest)
      = .ok c.toNat := by
    simp only [fourDigits, List.take_succ_cons, List.take_zero, List.filterMap_cons, hzero, hhigh, hlow,
      List.filterMap_nil, List.length_cons, List.length_nil, List.foldl_cons, List.foldl_nil]
    exact congrArg Except.ok (by omega)
  have hnotLow : isLowHalf c.toNat = false := by simp [isLowHalf]; omega
  have hnotHigh : isHighHalf c.toNat = false := by simp [isHighHalf]; omega
  simp only [unicodeEscape, hdigits, bind, Except.bind, hnotLow, hnotHigh, Bool.false_eq_true, if_false,
    Char.ofNat_toNat]

/-- One character of a string literal is read back as the character it stands for. -/
theorem textBody_escapeChar (c : Char) (fuel : Nat) {text rest : List Char} {result : Option (List Char)}
    (h : ∀ offset, Yields (textBody fuel ⟨text, offset⟩) rest result) (offset : Nat) :
    Yields (textBody (fuel + 1) ⟨escapeChar c ++ text, offset⟩) rest (result.map (c :: ·)) := by
  have hmap : ∀ offset, Yields (textBody fuel ⟨text, offset⟩ >>= fun r => .ok (c :: r.1, r.2)) rest
      (result.map (c :: ·)) := fun offset => (h offset).map (c :: ·)
  -- A character is escaped by one letter, or by its number, or stands for itself.
  by_cases hsimple : c = '"' ∨ c = '\\' ∨ c = '\n' ∨ c = '\r' ∨ c = '\t' ∨ c = '\x08' ∨ c = '\x0c'
  · rcases hsimple with rfl | rfl | rfl | rfl | rfl | rfl | rfl <;> exact hmap (offset + 2)
  · simp only [not_or] at hsimple
    obtain ⟨hquote, hslash, hfeed, hreturn, htab, hback, hform⟩ := hsimple
    by_cases hcontrol : c.toNat < 32
    · simp only [escapeChar, hquote, hslash, hfeed, hreturn, htab, hback, hform, hcontrol, if_false, if_true,
        List.cons_append, List.nil_append, textBody, unicodeEscape_control hcontrol]
      exact hmap (offset + 6)
    · simp only [escapeChar, hquote, hslash, hfeed, hreturn, htab, hback, hform, hcontrol, if_false,
        List.cons_append, List.nil_append, textBody]
      exact hmap (offset + c.utf8Size)

theorem textBody_printed (chars rest : List Char) :
    ∀ (fuel offset : Nat), chars.length < fuel →
      Yields (textBody fuel ⟨chars.flatMap escapeChar ++ '"' :: rest, offset⟩) rest (some chars) := by
  induction chars with
  | nil =>
    intro fuel offset hfuel
    obtain ⟨fuel, rfl⟩ := Nat.exists_eq_add_one_of_ne_zero (by omega : fuel ≠ 0)
    exact Yields.ok [] rest (offset + 1)
  | cons c more ih =>
    intro fuel offset hfuel
    obtain ⟨fuel, rfl⟩ := Nat.exists_eq_add_one_of_ne_zero (by omega : fuel ≠ 0)
    rw [List.flatMap_cons, List.append_assoc]
    have hfuel : more.length < fuel := by simpa using hfuel
    exact textBody_escapeChar c fuel (fun offset => ih fuel offset hfuel) offset

theorem length_le_length_flatMap_escapeChar (chars : List Char) :
    chars.length ≤ (chars.flatMap escapeChar).length := by
  induction chars with
  | nil => exact Nat.le_refl 0
  | cons c more ih =>
    have hpos : 0 < (escapeChar c).length := by
      unfold escapeChar
      repeat' split
      all_goals exact Nat.succ_pos _
    rw [List.flatMap_cons, List.length_append, List.length_cons]
    omega

/-- **A printed string is read back**, from after its opening quote. -/
theorem reads_text (s : String) (rest : List Char) (offset : Nat) :
    Yields (text ⟨s.toList.flatMap escapeChar ++ '"' :: rest, offset⟩) rest (some s) := by
  have hle := length_le_length_flatMap_escapeChar s.toList
  have hbody := textBody_printed s.toList rest ((s.toList.flatMap escapeChar ++ '"' :: rest).length + 1)
    offset (by
      rw [List.length_append]
      omega)
  have hmap := hbody.map String.ofList
  rwa [Option.map_some, String.ofList_toList] at hmap

end Json
end ThreatModel
