import Mathlib
import ThreatModel.Comment
import ThreatModel.Proofs.Directive.Candidates

/-!
# `Proofs.LineEnds` — carriage returns before line feeds

It does not matter whether the lines of a text end in a line feed or in a carriage return and a line feed. The cut at
line feeds leaves the carriage returns at the ends of the lines, where the search for directives does not see them; and
the lines of a file are taken without them. So neither the directives nor the comments of a text are other ones.

## Contents

* `Text.withReturns` — the text with a carriage return before every line feed, and `splitOn_withReturns`.
* `lines_withReturns` — the lines of a file, which lose one carriage return each.
* `map_zipIdx_withReturns`, `found_withReturns`, `skipped_withReturns` — lines with a carriage return at their end.
* `parse_withReturns` — what is found in such a text.
-/

namespace ThreatModel

/-! ## Texts with carriage returns -/

namespace Text

/-- The text with a carriage return put before every line feed. -/
def withReturns (text : List Char) : List Char := text.flatMap fun c => if c = '\n' then ['\r', '\n'] else [c]

/-- A carriage return is put at the end of every line but the last one, which no line feed ends. -/
theorem splitOn_withReturns (text : List Char) :
    splitOn '\n' (withReturns text)
      = (splitOn '\n' text).dropLast.map (· ++ ['\r']) ++ [(splitOn '\n' text).getLast (splitOn_ne_nil _ _)] := by
  induction text with
  | nil => rfl
  | cons c rest ih =>
    obtain ⟨first, more, hparts⟩ := List.exists_cons_of_ne_nil (splitOn_ne_nil '\n' rest)
    have hcut : splitOn '\n' (c :: rest)
        = if c = '\n' then [] :: first :: more else (c :: first) :: more := by
      rw [splitOn_cons, hparts, List.modifyHead_cons]
    simp only [hparts] at ih
    by_cases hc : c = '\n'
    · have htext : withReturns (c :: rest) = '\r' :: '\n' :: withReturns rest := by simp [withReturns, hc]
      have hreturn : '\r' ≠ '\n' := by decide
      simp only [hcut, if_pos hc]
      rw [htext, splitOn_cons, if_neg hreturn, splitOn_cons_self, ih]
      simp
    · have htext : withReturns (c :: rest) = c :: withReturns rest := by simp [withReturns, hc]
      simp only [hcut, if_neg hc]
      rw [htext, splitOn_cons, if_neg hc, ih]
      -- The character goes in front of the first line, which is the last one if there is no other.
      cases more with
      | nil => simp
      | cons second others => simp

theorem dropReturn_concat (line : List Char) : dropReturn (line ++ ['\r']) = line := by
  simp [dropReturn]

/-- What does not depend on a carriage return at the end of a line is the same for all lines of the text. -/
theorem map_zipIdx_withReturns {α : Type} {f : List Char × Nat → α}
    (h : ∀ line number, f (dropReturn line, number) = f (line, number)) (text : List Char) :
    (splitOn '\n' (withReturns text)).zipIdx.map f = (splitOn '\n' text).zipIdx.map f := by
  have hparts : splitOn '\n' text
      = (splitOn '\n' text).dropLast ++ [(splitOn '\n' text).getLast (splitOn_ne_nil _ _)] :=
    (List.dropLast_append_getLast _).symm
  rw [splitOn_withReturns]
  conv_rhs => rw [hparts]
  rw [List.zipIdx_append, List.zipIdx_append, List.zipIdx_map, List.map_append, List.map_append, List.map_map,
    List.length_map]
  congr 1
  apply List.map_congr_left
  rintro ⟨line, number⟩ _
  have hline := h (line ++ ['\r']) number
  rw [dropReturn_concat] at hline
  exact hline.symm

theorem dropReturn_of_not_mem {line : List Char} (h : '\r' ∉ line) : dropReturn line = line := by
  unfold dropReturn
  split
  · next hlast => exact absurd (List.mem_of_getLast? hlast) h
  · rfl

/-- A file without carriage returns has the same lines with them. -/
theorem lines_withReturns {text : List Char} (h : '\r' ∉ text) : lines (withReturns text) = lines text := by
  have hline : ∀ line ∈ (splitOn '\n' text).dropLast, (dropReturn ∘ (· ++ ['\r'])) line = dropReturn line := by
    intro line hline
    have hpart := sublist_of_mem_splitOn (List.dropLast_subset _ hline)
    have hnot : '\r' ∉ line := fun hmem => h (hpart.1.subset hmem)
    rw [Function.comp_apply, dropReturn_concat, dropReturn_of_not_mem hnot]
  simp only [lines, splitOn_withReturns, List.dropLast_concat, List.getLast?_concat, Option.getD_some, List.map_map,
    List.map_congr_left hline, List.getLast?_eq_some_getLast (splitOn_ne_nil '\n' text)]

end Text

namespace Directive

open Text

/-! ## What is found -/

theorem found_withReturns (text : List Char) : found (withReturns text) = found text := by
  rw [found_eq, found_eq]
  exact map_zipIdx_withReturns (fun line number => lineOccurrences_dropReturn number line) text

theorem skipped_withReturns (text : List Char) : skipped (withReturns text) = skipped text := by
  rw [skipped_eq, skipped_eq, List.flatMap_def, List.flatMap_def]
  congr 1
  refine map_zipIdx_withReturns (fun line number => ?_) text
  simp only [lineOccurrences_dropReturn, filter_isCandidate_dropReturn]

end Directive

/-- A file is read line by line, so its comments are the same. -/
theorem Comment.extractBlocks_withReturns {text : List Char} (h : '\r' ∉ text) (filename : String) (style : Style) :
    extractBlocks filename (Text.withReturns text) style = extractBlocks filename text style := by
  simp only [extractBlocks, runs, linesOf, Text.lines_withReturns h]

open Text Directive

/-- **Line ends do not matter.** With a carriage return before every line feed a text lists the same directives on the
same lines and in the same order, and the same lines are reported as skipped. From a file without carriage returns the
same blocks are made, at the same places, with the same directives in them. -/
theorem parse_withReturns (text : List Char) :
    parse (withReturns text) = parse text ∧ skipped (withReturns text) = skipped text ∧
    ('\r' ∉ text → ∀ filename style,
      (Comment.extractBlocks filename (withReturns text) style).map Block.scan
        = (Comment.extractBlocks filename text style).map Block.scan) := by
  refine ⟨?_, skipped_withReturns text, fun h filename style => ?_⟩
  · rw [parse_eq, parse_eq, found_withReturns]
  · rw [Comment.extractBlocks_withReturns h]

/-- A file with comments of both kinds, a description and a terminator. -/
theorem parse_withReturns_commented :
    let text := "// @component Api -- entry\nlet x = 1; // @review Api soon\n/* @threat SQLi\n * @tests WAF for Api */\n".toList
    '\r' ∉ text ∧ (Comment.extractBlocks "a.rs" text .slashes).length = 3 ∧ withReturns text ≠ text ∧
      (Comment.extractBlocks "a.rs" (withReturns text) .slashes).map Block.scan
        = (Comment.extractBlocks "a.rs" text .slashes).map Block.scan := by
  intro text
  have hreturn : '\r' ∉ text := by decide
  exact ⟨hreturn, by decide +kernel, by decide, (parse_withReturns text).2.2 hreturn "a.rs" .slashes⟩

end ThreatModel
