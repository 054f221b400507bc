import Mathlib
import ThreatModel.Proofs.Text

/-!
# `Proofs.Text.Offset` — the line that holds a byte offset

The starts of the lines of a text increase from zero on, so a search by halves says where an offset belongs among them:
at a start, or behind at least one. The line it gives is the one that the offset is on, whose number is that of the line
feeds among the bytes before the offset.

## Contents

* `Belongs` — what a search has to say, and `belongs_search`.
* `pairwise_lineStarts`, `length_lineStarts` — the starts of the lines of a text.
* `bytes`, `countP_startsAfter`, `count_bytes` — line starts and line feeds.
* `lineAt_eq_count`, `lineAt_mono`, `lineAt_eq_of_stretch` — the line of an offset and the line feeds before it.
* `lineAt_lineStarts` — the line of an offset.
-/

namespace ThreatModel
namespace Text

/-! ## Searching by halves -/

/-- Where a number belongs among others: at an index, or between those that are less and those that are greater. -/
inductive Belongs (numbers : List Nat) (wanted : Nat) : Sought → Prop
  /-- The number is one of them. -/
  | found {less greater : List Nat} : numbers = less ++ wanted :: greater → (∀ n ∈ less, n < wanted) →
      (∀ n ∈ greater, wanted < n) → Belongs numbers wanted (Sought.found less.length)
  /-- The number is none of them. -/
  | missing {less greater : List Nat} : numbers = less ++ greater → (∀ n ∈ less, n < wanted) →
      (∀ n ∈ greater, wanted < n) → Belongs numbers wanted (.missing less.length)

variable {numbers : List Nat} {wanted low high : Nat}

/-- Increasing numbers around the one at an index. -/
theorem around_getElem (hsorted : numbers.Pairwise (· < ·)) {middle : Nat} (h : middle < numbers.length) :
    (∀ n ∈ numbers.take middle, n < numbers[middle]) ∧ ∀ n ∈ numbers.drop (middle + 1), numbers[middle] < n := by
  have hsplit : numbers = numbers.take middle ++ numbers[middle] :: numbers.drop (middle + 1) := by
    rw [← List.drop_eq_getElem_cons h, List.take_append_drop]
  have hparts : (numbers.take middle ++ numbers[middle] :: numbers.drop (middle + 1)).Pairwise (· < ·) := hsplit ▸ hsorted
  obtain ⟨-, hback, hfront⟩ := List.pairwise_append.mp hparts
  exact ⟨fun n hn => hfront n hn _ List.mem_cons_self, (List.pairwise_cons.mp hback).1⟩

/-- **The halves that are left out do not hold the number**, so what is left tells where it belongs. -/
theorem belongs_searchBetween (hsorted : numbers.Pairwise (· < ·)) (bound : high ≤ numbers.length) (hle : low ≤ high)
    (hless : ∀ n ∈ numbers.take low, n < wanted) (hgreater : ∀ n ∈ numbers.drop high, wanted < n) :
    Belongs numbers wanted (searchBetween numbers wanted low high bound) := by
  fun_induction searchBetween numbers wanted low high bound with
  | case1 low high bound hlt middle hmiddle heq =>
    obtain ⟨hbefore, hafter⟩ := around_getElem hsorted hmiddle
    rw [heq] at hbefore hafter
    have hsplit : numbers = numbers.take middle ++ wanted :: numbers.drop (middle + 1) := by
      rw [← heq, ← List.drop_eq_getElem_cons hmiddle, List.take_append_drop]
    have hlength : (numbers.take middle).length = middle := List.length_take_of_le hmiddle.le
    have hfound := Belongs.found hsplit hbefore hafter
    rwa [hlength] at hfound
  | case2 low high bound hlt middle hmiddle hne hsmall ih =>
    refine ih (by omega) (fun n hn => ?_) hgreater
    rw [List.take_add_one, List.getElem?_eq_getElem hmiddle, Option.toList_some, List.mem_append, List.mem_singleton] at hn
    rcases hn with hn | rfl
    · exact ((around_getElem hsorted hmiddle).1 n hn).trans hsmall
    · exact hsmall
  | case3 low high bound hlt middle hmiddle hne hlarge ih =>
    refine ih (by omega) hless fun n hn => ?_
    have hwanted : wanted < numbers[middle] := by omega
    rw [List.drop_eq_getElem_cons hmiddle, List.mem_cons] at hn
    rcases hn with rfl | hn
    · exact hwanted
    · exact hwanted.trans ((around_getElem hsorted hmiddle).2 n hn)
  | case4 low high bound hge =>
    obtain rfl : low = high := by omega
    have hlength : (numbers.take low).length = low := List.length_take_of_le bound
    have hmissing := Belongs.missing (List.take_append_drop low numbers).symm hless hgreater
    rwa [hlength] at hmissing

/-- **A search tells where the number belongs.** -/
theorem belongs_search (hsorted : numbers.Pairwise (· < ·)) (wanted : Nat) :
    Belongs numbers wanted (search numbers wanted) := by
  apply belongs_searchBetween hsorted (Nat.le_refl _) (Nat.zero_le _)
  · simp
  · simp

/-! ## The starts of lines -/

theorem lt_of_mem_startsAfter {base start : Nat} {text : List Char} (h : start ∈ startsAfter base text) :
    base < start := by
  induction text generalizing base with
  | nil => cases h
  | cons c rest ih =>
    have hsize : 0 < c.utf8Size := Char.utf8Size_pos c
    rw [startsAfter] at h
    split at h
    · rcases List.mem_cons.mp h with rfl | h
      · omega
      · have := ih h
        omega
    · have := ih h
      omega

theorem pairwise_startsAfter (base : Nat) (text : List Char) : (startsAfter base text).Pairwise (· < ·) := by
  induction text generalizing base with
  | nil => exact List.Pairwise.nil
  | cons c rest ih =>
    rw [startsAfter]
    split
    · exact List.pairwise_cons.mpr ⟨fun start hstart => lt_of_mem_startsAfter hstart, ih _⟩
    · exact ih _

/-- **The starts of lines increase**, from zero on. -/
theorem pairwise_lineStarts (text : List Char) : (lineStarts text).Pairwise (· < ·) :=
  List.pairwise_cons.mpr ⟨fun _ hstart => lt_of_mem_startsAfter hstart, pairwise_startsAfter 0 text⟩

/-- A line starts at the beginning of a text and behind every line feed. -/
theorem length_lineStarts (text : List Char) : (lineStarts text).length = (splitOn '\n' text).length := by
  have hafter : ∀ base, (startsAfter base text).length + 1 = (splitOn '\n' text).length := by
    induction text with
    | nil => exact fun _ => rfl
    | cons c rest ih =>
      intro base
      rw [startsAfter, splitOn_cons]
      split
      · rw [List.length_cons, List.length_cons, ih]
      · rw [List.length_modifyHead, ih]
  exact hafter 0

/-! ## Line feeds -/

/-- The bytes of a text. -/
def bytes (text : List Char) : List UInt8 := text.flatMap String.utf8EncodeChar

/-- The byte of a line feed. -/
def feedByte : UInt8 := 0x0A

/-- No other character has the byte of a line feed. -/
theorem feedByte_not_mem {c : Char} (h : c ≠ '\n') : feedByte ∉ String.utf8EncodeChar c := by
  have hvalue : c.val.toNat ≠ 10 := fun heq => h (Char.ext (UInt32.toNat_inj.mp heq))
  have hbyte : ∀ n, n < 256 → n ≠ 10 → feedByte ≠ UInt8.ofNat n := by
    intro n hn hne heq
    have := congrArg UInt8.toNat heq
    rw [UInt8.toNat_ofNat', Nat.mod_eq_of_lt hn] at this
    exact hne this.symm
  suffices hbytes : ∀ byte ∈ String.utf8EncodeChar c, feedByte ≠ byte from fun hmem => hbytes _ hmem rfl
  unfold String.utf8EncodeChar
  simp only
  -- All bytes of a character that takes more than one are greater than those of the characters that take one.
  have hhigh : ∀ n size least, 0 < size → 128 ≤ least → size + least ≤ 256 →
      feedByte ≠ UInt8.ofNat (n % size + least) := by
    intro n size least hsize hleast hfits
    have := Nat.mod_lt n hsize
    exact hbyte _ (by omega) (by omega)
  have hlast : ∀ n, feedByte ≠ UInt8.ofNat (n % 64 + 128) := fun n =>
    hhigh n 64 128 (by decide) (by decide) (by decide)
  split
  · exact List.forall_mem_singleton.mpr (hbyte _ (by omega) hvalue)
  · split
    · exact List.forall_mem_cons.mpr ⟨hhigh _ 32 192 (by decide) (by decide) (by decide),
        List.forall_mem_singleton.mpr (hlast _)⟩
    · split
      · exact List.forall_mem_cons.mpr ⟨hhigh _ 16 224 (by decide) (by decide) (by decide),
          List.forall_mem_cons.mpr ⟨hlast _, List.forall_mem_singleton.mpr (hlast _)⟩⟩
      · exact List.forall_mem_cons.mpr ⟨hhigh _ 8 240 (by decide) (by decide) (by decide),
          List.forall_mem_cons.mpr ⟨hlast _, List.forall_mem_cons.mpr ⟨hlast _,
            List.forall_mem_singleton.mpr (hlast _)⟩⟩⟩

/-- **As many lines start up to an offset as there are line feeds among the bytes before it.** -/
theorem countP_startsAfter (base offset : Nat) (text : List Char) :
    (startsAfter base text).countP (· ≤ base + offset) = ((bytes text).take offset).count feedByte := by
  induction text generalizing base offset with
  | nil => simp [startsAfter, bytes]
  | cons c rest ih =>
    have hbytes : bytes (c :: rest) = String.utf8EncodeChar c ++ bytes rest := rfl
    have hlength := String.length_utf8EncodeChar c
    have hcut : ((bytes (c :: rest)).take offset).count feedByte
        = ((String.utf8EncodeChar c).take offset).count feedByte
          + ((bytes rest).take (offset - c.utf8Size)).count feedByte := by
      rw [hbytes, List.take_append, List.count_append, hlength]
    have hrest : (startsAfter (base + c.utf8Size) rest).countP (· ≤ base + offset)
        = ((bytes rest).take (offset - c.utf8Size)).count feedByte := by
      by_cases hle : c.utf8Size ≤ offset
      · rw [← ih (base + c.utf8Size)]
        congr! 3
        omega
      · -- The offset lies inside the character, before all that follows.
        rw [Nat.sub_eq_zero_of_le (by omega), List.take_zero, List.count_nil, List.countP_eq_zero]
        intro start hstart
        have := lt_of_mem_startsAfter hstart
        simp
        omega
    rw [hcut, ← hrest, startsAfter]
    split
    · next hfeed =>
      subst hfeed
      have hsize : Char.utf8Size '\n' = 1 := rfl
      have hencoded : String.utf8EncodeChar '\n' = [feedByte] := rfl
      rw [List.countP_cons, hencoded, hsize, Nat.add_comm]
      congr 1
      cases offset with
      | zero => simp
      | succ n => simp
    · next hother =>
      have hnone : ((String.utf8EncodeChar c).take offset).count feedByte = 0 :=
        List.count_eq_zero.mpr fun hmem => feedByte_not_mem hother (List.mem_of_mem_take hmem)
      rw [hnone, Nat.zero_add]

/-- A text has a line feed for every byte of a line feed. -/
theorem count_bytes (text : List Char) : (bytes text).count feedByte = text.count '\n' := by
  induction text with
  | nil => rfl
  | cons c rest ih =>
    have hbytes : bytes (c :: rest) = String.utf8EncodeChar c ++ bytes rest := rfl
    rw [hbytes, List.count_append, ih, List.count_cons, Nat.add_comm]
    congr 1
    by_cases hfeed : c = '\n'
    · subst hfeed
      rfl
    · rw [List.count_eq_zero.mpr (feedByte_not_mem hfeed), if_neg (by simpa using hfeed)]

/-! ## The line of an offset -/

/-- **The line of an offset** is the last one that starts at or before it. -/
theorem exists_split_lineAt (hsorted : numbers.Pairwise (· < ·)) (wanted : Nat) :
    ∃ upTo later, numbers = upTo ++ later ∧ (∀ n ∈ upTo, n ≤ wanted) ∧ (∀ n ∈ later, wanted < n) ∧
      lineAt numbers wanted = upTo.length - 1 := by
  have hbelongs := belongs_search hsorted wanted
  unfold lineAt
  cases hsearch : search numbers wanted with
  | found index =>
    rw [hsearch] at hbelongs
    cases hbelongs with
    | @found less greater hsplit hless hgreater =>
      refine ⟨less ++ [wanted], greater, by simpa using hsplit, fun n hn => ?_, hgreater, by simp⟩
      rcases List.mem_append.mp hn with hn | hn
      · exact (hless n hn).le
      · exact (List.mem_singleton.mp hn).le
  | missing index =>
    rw [hsearch] at hbelongs
    cases hbelongs with
    | @missing less greater hsplit hless hgreater =>
      exact ⟨less, greater, hsplit, fun n hn => (hless n hn).le, hgreater, rfl⟩

/-- A number that is not found belongs behind all that are not greater, so it does not belong in front of them all. -/
theorem pos_of_search_eq_missing (hsorted : numbers.Pairwise (· < ·)) {least next : Nat} (hleast : least ∈ numbers)
    (hle : least ≤ wanted) (h : search numbers wanted = .missing next) : 0 < next := by
  have hbelongs := belongs_search hsorted wanted
  rw [h] at hbelongs
  cases hbelongs with
  | @missing less greater hsplit hless hgreater =>
    rw [hsplit, List.mem_append] at hleast
    rcases hleast with hleast | hleast
    · exact List.length_pos_of_mem hleast
    · exact absurd (hgreater _ hleast) (Nat.not_lt.mpr hle)

/-- The number of the line that holds an offset is that of the line feeds among the bytes before it. -/
theorem lineAt_eq_count (text : List Char) (offset : Nat) :
    lineAt (lineStarts text) offset = ((bytes text).take offset).count feedByte := by
  obtain ⟨upTo, later, hsplit, hupTo, hlater, hline⟩ := exists_split_lineAt (pairwise_lineStarts text) offset
  have hcount : (lineStarts text).countP (· ≤ offset) = upTo.length := by
    have hall : upTo.countP (· ≤ offset) = upTo.length := List.countP_eq_length.mpr (by simpa using hupTo)
    have hnone : later.countP (· ≤ offset) = 0 := List.countP_eq_zero.mpr (by simpa using hlater)
    rw [hsplit, List.countP_append, hall, hnone, Nat.add_zero]
  have hstarts := countP_startsAfter 0 offset text
  rw [Nat.zero_add] at hstarts
  rw [hline, ← hcount, lineStarts, List.countP_cons, hstarts]
  simp

/-- An offset further on is on the same line or on a later one. -/
theorem lineAt_mono (text : List Char) {offset later : Nat} (h : offset ≤ later) :
    lineAt (lineStarts text) offset ≤ lineAt (lineStarts text) later := by
  rw [lineAt_eq_count, lineAt_eq_count]
  exact (List.take_prefix_take_left h).count_le feedByte

/-- The line behind a text is the one after its line feeds. -/
theorem lineAt_length_bytes (before after : List Char) :
    lineAt (lineStarts (before ++ after)) (bytes before).length = before.count '\n' := by
  have hbytes : bytes (before ++ after) = bytes before ++ bytes after := List.flatMap_append
  rw [lineAt_eq_count, hbytes, List.take_left, count_bytes]

/-- All offsets in a stretch without line feeds are on the line after the line feeds before it. -/
theorem lineAt_eq_of_stretch {before stretch : List Char} (after : List Char) (hfeed : '\n' ∉ stretch) {offset : Nat}
    (hstart : (bytes before).length ≤ offset) (hend : offset ≤ (bytes (before ++ stretch)).length) :
    lineAt (lineStarts (before ++ stretch ++ after)) offset = before.count '\n' := by
  apply Nat.le_antisymm
  · calc lineAt (lineStarts (before ++ stretch ++ after)) offset
        ≤ lineAt (lineStarts (before ++ stretch ++ after)) (bytes (before ++ stretch)).length := lineAt_mono _ hend
      _ = (before ++ stretch).count '\n' := lineAt_length_bytes (before ++ stretch) after
      _ = before.count '\n' := by rw [List.count_append, List.count_eq_zero.mpr hfeed, Nat.add_zero]
  · calc before.count '\n'
        = lineAt (lineStarts (before ++ (stretch ++ after))) (bytes before).length := by
          rw [lineAt_length_bytes]
      _ = lineAt (lineStarts (before ++ stretch ++ after)) (bytes before).length := by rw [List.append_assoc]
      _ ≤ lineAt (lineStarts (before ++ stretch ++ after)) offset := lineAt_mono _ hstart

/-- **The line of an offset.** It is the number of line feeds among the bytes before the offset. The search never puts
an offset in front of all lines, and the line it gives starts at or before the offset, while the next one starts behind
it. So there is such a line, and an offset further on is on the same line or on a later one. -/
theorem lineAt_lineStarts (text : List Char) (offset : Nat) :
    lineAt (lineStarts text) offset = ((bytes text).take offset).count feedByte ∧
      (∀ next, search (lineStarts text) offset = .missing next → 0 < next) ∧
      (∃ start ∈ (lineStarts text)[lineAt (lineStarts text) offset]?, start ≤ offset ∧
        ∀ next ∈ (lineStarts text)[lineAt (lineStarts text) offset + 1]?, offset < next) ∧
      lineAt (lineStarts text) offset < (splitOn '\n' text).length ∧
      ∀ later, offset ≤ later → lineAt (lineStarts text) offset ≤ lineAt (lineStarts text) later := by
  have hsorted := pairwise_lineStarts text
  obtain ⟨upTo, later, hsplit, hupTo, hlater, hline⟩ := exists_split_lineAt hsorted offset
  have hfirst : upTo ≠ [] := by
    rintro rfl
    have hzero : 0 ∈ later := by
      rw [List.nil_append] at hsplit
      exact hsplit ▸ List.mem_cons_self
    exact absurd (hlater 0 hzero) (Nat.not_lt_zero _)
  have hlength : 0 < upTo.length := List.length_pos_iff.mpr hfirst
  refine ⟨lineAt_eq_count text offset,
    fun next => pos_of_search_eq_missing hsorted List.mem_cons_self (Nat.zero_le _), ?_, ?_, fun _ => lineAt_mono text⟩
  · refine ⟨upTo.getLast hfirst, ?_, hupTo _ (List.getLast_mem hfirst), fun next hnext => ?_⟩
    · rw [hline, hsplit, List.getElem?_append_left (by omega), ← List.getLast?_eq_getElem?]
      exact List.getLast?_eq_some_getLast hfirst
    · rw [hline, Nat.sub_add_cancel hlength, hsplit, List.getElem?_append_right (Nat.le_refl _)] at hnext
      exact hlater next (List.mem_of_getElem? hnext)
  · rw [← length_lineStarts, hline, hsplit, List.length_append]
    omega

end Text
end ThreatModel
