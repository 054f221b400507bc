import Mathlib
import ThreatModel.Text

/-!
# `Proofs.Text` — cutting a text and putting it together again

The cut of a text at one character is the library's `List.splitOn`, so its laws carry over: lines that hold no
line feed are the lines of the text they are joined to. What a carriage return at the end of a line adds is one
empty segment, and nothing else.

## Contents

* `splitOn_eq` — the cut as the one of the standard library, and `splitOn_intercalate`.
* `splitOn_dropReturn` — a carriage return at the end of a line.
* `sublist_of_mem_segments`, `segments_intercalate`, `segments_of_not_mem` — the segments of any text, of joined
  lines and of one line.
* `exists_eq_trimEnd_append`, `trimEnd_append`, `trim_append_of_isBlank` — what trimming takes away.
-/

namespace ThreatModel
namespace Text

/-! ## The cut at one character -/

theorem splitOn_cons (separator c : Char) (text : List Char) :
    splitOn separator (c :: text)
      = if c = separator then [] :: splitOn separator text
        else (splitOn separator text).modifyHead (c :: ·) := by
  have hne := splitOn_ne_nil separator text
  simp only [splitOn, List.foldr_cons] at hne ⊢
  split
  · rfl
  · split
    · next h => exact absurd h hne
    · next h => rw [h]; rfl

/-- The cut at one character is the one of the standard library. -/
theorem splitOn_eq (separator : Char) (text : List Char) :
    splitOn separator text = text.splitOn separator := by
  induction text with
  | nil => simp
  | cons c rest ih =>
    rw [splitOn_cons, List.splitOn_cons_eq_if_modifyHead, ih]
    by_cases h : c = separator <;> simp [h]

/-- A text without the separator is a single part. -/
theorem splitOn_of_not_mem {separator : Char} {text : List Char} (h : separator ∉ text) :
    splitOn separator text = [text] := by
  rw [splitOn_eq]
  exact List.splitOn_eq_singleton h

/-- Parts without the separator are the parts of the text they are joined to. -/
theorem splitOn_intercalate {separator : Char} {parts : List (List Char)} (hne : parts ≠ [])
    (h : ∀ part ∈ parts, separator ∉ part) :
    splitOn separator ([separator].intercalate parts) = parts := by
  rw [splitOn_eq]
  exact List.splitOn_intercalate separator h hne

/-- A part of a cut is cut out of the text, and does not hold the separator. -/
theorem sublist_of_mem_splitOn {separator : Char} {text part : List Char}
    (h : part ∈ splitOn separator text) : part.Sublist text ∧ separator ∉ part := by
  induction text generalizing part with
  | nil =>
    rw [splitOn_nil, List.mem_singleton] at h
    simp [h]
  | cons c rest ih =>
    rw [splitOn_cons] at h
    split at h
    · rcases List.mem_cons.mp h with rfl | h
      · simp
      · exact ⟨(ih h).1.cons c, (ih h).2⟩
    · next hc =>
      -- The character goes in front of the first part; the other parts are those of the rest.
      cases hparts : splitOn separator rest with
      | nil => exact absurd hparts (splitOn_ne_nil _ _)
      | cons first more =>
        rw [hparts, List.modifyHead_cons] at h
        rcases List.mem_cons.mp h with rfl | h
        · have hfirst : first ∈ splitOn separator rest := hparts ▸ List.mem_cons_self
          obtain ⟨hsub, hnot⟩ := ih hfirst
          exact ⟨hsub.cons_cons c, by simpa [Ne.symm hc] using hnot⟩
        · obtain ⟨hsub, hnot⟩ := ih (hparts ▸ List.mem_cons_of_mem _ h)
          exact ⟨hsub.cons c, hnot⟩

/-- A separator at the end adds one empty part. -/
theorem splitOn_concat_self (separator : Char) (text : List Char) :
    splitOn separator (text ++ [separator]) = splitOn separator text ++ [[]] := by
  rw [splitOn_eq, splitOn_eq, List.splitOn_append_cons_self]
  simp

/-- A separator cuts a text into the parts before it and the parts after it. -/
theorem splitOn_append_cons (separator : Char) (front back : List Char) :
    splitOn separator (front ++ separator :: back) = splitOn separator front ++ splitOn separator back := by
  rw [splitOn_eq, splitOn_eq, splitOn_eq, List.splitOn_append_cons_self]

/-! ## Lines and their segments -/

/-- A line loses at most a carriage return, which its segments show as an empty one at the end. -/
theorem splitOn_dropReturn (line : List Char) :
    splitOn '\r' line = splitOn '\r' (dropReturn line) ∨
    splitOn '\r' line = splitOn '\r' (dropReturn line) ++ [[]] := by
  unfold dropReturn
  split
  · next h =>
    obtain ⟨front, rfl⟩ := List.getLast?_eq_some_iff.mp h
    rw [List.dropLast_concat]
    exact Or.inr (splitOn_concat_self _ _)
  · exact Or.inl rfl

theorem dropReturn_sublist (line : List Char) : (dropReturn line).Sublist line := by
  unfold dropReturn
  split
  · exact List.dropLast_sublist line
  · exact List.Sublist.refl line

/-- A segment is cut out of its text. -/
theorem sublist_of_mem_segments {text segment : List Char} {line : List (List Char)}
    (hline : line ∈ segments text) (h : segment ∈ line) : segment.Sublist text := by
  simp only [segments] at hline
  obtain ⟨whole, hwhole, rfl⟩ := List.mem_map.mp hline
  refine (sublist_of_mem_splitOn h).1.trans ?_
  rcases List.mem_append.mp hwhole with hmem | hmem
  · obtain ⟨part, hpart, rfl⟩ := List.mem_map.mp hmem
    exact (dropReturn_sublist part).trans (sublist_of_mem_splitOn (List.dropLast_subset _ hpart)).1
  · rw [List.mem_singleton] at hmem
    rw [hmem, List.getLast?_eq_some_getLast (splitOn_ne_nil _ _), Option.getD_some]
    exact (sublist_of_mem_splitOn (List.getLast_mem _)).1

/-- The segments of joined lines: those of each line, where a carriage return at the end of a line counts only
on the last one. -/
theorem segments_intercalate {lines : List (List Char)} (hne : lines ≠ [])
    (h : ∀ line ∈ lines, '\n' ∉ line) :
    segments (['\n'].intercalate lines)
      = (lines.dropLast.map dropReturn ++ [lines.getLast hne]).map (splitOn '\r') := by
  simp only [segments, splitOn_intercalate hne h, List.getLast?_eq_some_getLast hne, Option.getD_some]

/-- The segments of a single line. -/
theorem segments_of_not_mem {line : List Char} (h : '\n' ∉ line) :
    segments line = [splitOn '\r' line] := by
  simp [segments, splitOn_of_not_mem h]

/-! ## Trimming -/

/-- The white space that is taken away at the end. -/
theorem exists_eq_trimEnd_append (text : List Char) :
    ∃ spaces, isBlank spaces = true ∧ text = trimEnd text ++ spaces := by
  refine ⟨text.rtakeWhile isSpace, ?_, List.rdropWhile_append_rtakeWhile.symm⟩
  exact List.all_eq_true.mpr fun c hc => List.mem_rtakeWhile_imp hc

/-- White space at the end makes no difference. -/
theorem trimEnd_append_of_isBlank {spaces : List Char} (h : isBlank spaces = true) (text : List Char) :
    trimEnd (text ++ spaces) = trimEnd text := by
  have hback : ∀ c ∈ spaces.reverse, isSpace c = true := fun c hc =>
    List.all_eq_true.mp h c (List.mem_reverse.mp hc)
  rw [trimEnd, trimEnd, List.reverse_append, List.dropWhile_append_of_pos hback]

/-- What stands before the end is kept. -/
theorem trimEnd_append {back : List Char} (h : trimEnd back ≠ []) (front : List Char) :
    trimEnd (front ++ back) = front ++ trimEnd back := by
  have hne : back.reverse.dropWhile isSpace ≠ [] := fun hnil => h (by rw [trimEnd, hnil, List.reverse_nil])
  rw [trimEnd, trimEnd, List.reverse_append, List.dropWhile_append]
  simp [hne]

/-- A trimmed text ends in something that is no white space. -/
theorem not_isSpace_getLast_trimEnd (text : List Char) : ∀ c ∈ (trimEnd text).getLast?, isSpace c = false := by
  intro c hc
  obtain ⟨hne, rfl⟩ := List.mem_getLast?_eq_getLast hc
  exact eq_false_of_ne_true (List.rdropWhile_last_not isSpace text hne)

theorem trim_append_of_isBlank {spaces : List Char} (h : isBlank spaces = true) (text : List Char) :
    trim (text ++ spaces) = trim text := by
  have hspaces : spaces.dropWhile isSpace = [] := List.dropWhile_eq_nil_iff.mpr (List.all_eq_true.mp h)
  rw [trim, trim, trimStart, trimStart, List.dropWhile_append]
  split
  · next hnil => rw [hspaces, List.isEmpty_iff.mp hnil]
  · exact trimEnd_append_of_isBlank h _

theorem isPrefix_trimEnd (text : List Char) : trimEnd text <+: text :=
  List.rdropWhile_prefix (l := text) isSpace

theorem isInfix_trim (text : List Char) : trim text <:+: text :=
  (isPrefix_trimEnd (trimStart text)).isInfix.trans (List.dropWhile_suffix isSpace).isInfix

/-- A trimmed text starts with something that is no white space. -/
theorem not_isSpace_head_trim (text : List Char) : ∀ c ∈ (trim text).head?, isSpace c = false := by
  intro c hc
  obtain ⟨behind, hbehind⟩ : trim text <+: trimStart text := isPrefix_trimEnd (trimStart text)
  have hhead : (text.dropWhile isSpace).head? = some c := by
    rw [← trimStart, ← hbehind, List.head?_append, hc]
    rfl
  have hnot := List.head?_dropWhile_not isSpace text
  rw [hhead] at hnot
  simpa using hnot

end Text
end ThreatModel
