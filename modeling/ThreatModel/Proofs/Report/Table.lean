import Mathlib
import ThreatModel.Proofs.Text
import ThreatModel.Report.Table

/-!
# `Proofs.Report.Table` — tables can be read back

A line of a table is cut at the pipes that no backslash stands before. As a pipe inside a cell is always written with
a backslash, and the cells are framed by spaces, the cut finds the cells and nothing else, whatever they hold.

## Contents

* `shown` — what can be seen of a text in a table.
* `cutAtPipes`, `unescape`, `unframe?`, `readRow?` — reading a line.
* `rowText`, `rowLine_eq` — a line of cells without the line end.
* `cutAtPipes_rowText`, `readRow?_rowText` — a line of escaped cells is read back.
* `readTable?`, `readTable?_lines` — the lines of a table are read back.
* `unlines`, `splitOn_unlines` — the lines of a text.
* `ReadsAs`, `rows_of_render` — the rows of a table are read back from its text.
-/

namespace ThreatModel
namespace Report

/-! ## Reading a line -/

/-- What can be seen of a text in a table: every line end as a space. -/
def shown (text : List Char) : List Char := text.map fun c => if c = '\r' || c = '\n' then ' ' else c

/-- The parts of a line between the pipes that no backslash stands before; `escaped` holds after a backslash. -/
def cutAtPipes : Bool → List Char → List (List Char)
  | _, [] => [[]]
  | escaped, c :: rest =>
    if c = '|' && !escaped then [] :: cutAtPipes false rest
    else (cutAtPipes (c = '\\') rest).modifyHead (c :: ·)

/-- The text with every backslash before a pipe left out. -/
def unescape : List Char → List Char
  | '\\' :: '|' :: rest => '|' :: unescape rest
  | c :: rest => c :: unescape rest
  | [] => []

/-- The text without the space on either side. -/
def unframe? : List Char → Option (List Char)
  | ' ' :: rest => if rest.getLast? = some ' ' then some rest.dropLast else none
  | _ => none

/-- The cells of a line that starts and ends with a pipe. -/
def readRow? (line : List Char) : Option (List String) :=
  match cutAtPipes false line with
  | [] :: parts =>
    if parts.getLast? = some [] then
      parts.dropLast.mapM fun part => (unframe? part).map fun cell => String.ofList (unescape cell)
    else none
  | _ => none

/-! ## Cells -/

theorem escapeCell_cons (c : Char) (cell : List Char) :
    escapeCell (c :: cell)
      = (if c = '|' then ['\\', '|'] else if c = '\r' || c = '\n' then [' '] else [c]) ++ escapeCell cell := rfl

/-- No line end is left in a cell. -/
theorem not_mem_escapeCell {c : Char} (hc : c = '\r' ∨ c = '\n') (cell : List Char) : c ∉ escapeCell cell := by
  induction cell with
  | nil => exact List.not_mem_nil
  | cons first rest ih =>
    rw [escapeCell_cons, List.mem_append, not_or]
    refine ⟨?_, ih⟩
    split
    · rcases hc with rfl | rfl <;> decide
    · split
      · rcases hc with rfl | rfl <;> decide
      · next hline =>
        simp only [Bool.or_eq_true, decide_eq_true_eq, not_or] at hline
        rw [List.mem_singleton]
        rcases hc with rfl | rfl
        · exact fun heq => hline.1 heq.symm
        · exact fun heq => hline.2 heq.symm

/-- A cell without pipes and line ends is written as it is. -/
theorem escapeCell_eq_self {cell : List Char} (h : ∀ c ∈ cell, c ≠ '|' ∧ c ≠ '\r' ∧ c ≠ '\n') :
    escapeCell cell = cell := by
  induction cell with
  | nil => rfl
  | cons c rest ih =>
    obtain ⟨⟨hpipe, hreturn, hfeed⟩, hrest⟩ := List.forall_mem_cons.mp h
    rw [escapeCell_cons, ih hrest, if_neg hpipe, if_neg (by simp [hreturn, hfeed])]
    rfl

theorem shown_eq_self {cell : List Char} (h : ∀ c ∈ cell, c ≠ '\r' ∧ c ≠ '\n') : shown cell = cell := by
  induction cell with
  | nil => rfl
  | cons c rest ih =>
    obtain ⟨⟨hreturn, hfeed⟩, hrest⟩ := List.forall_mem_cons.mp h
    have hcons : shown (c :: rest) = c :: shown rest := by simp [shown, hreturn, hfeed]
    rw [hcons, ih hrest]

/-- A character other than a backslash stays. -/
theorem unescape_cons {c : Char} (hc : c ≠ '\\') (rest : List Char) : unescape (c :: rest) = c :: unescape rest := by
  rw [unescape]
  intro rest' h _
  exact hc h

/-- A backslash that no pipe follows stays. -/
theorem unescape_backslash {rest : List Char} (h : rest.head? ≠ some '|') :
    unescape ('\\' :: rest) = '\\' :: unescape rest := by
  rw [unescape]
  rintro rest' - rfl
  exact h rfl

theorem head?_escapeCell_ne_pipe (cell : List Char) : (escapeCell cell).head? ≠ some '|' := by
  cases cell with
  | nil => nofun
  | cons c rest =>
    rw [escapeCell_cons]
    by_cases hpipe : c = '|'
    · rw [if_pos hpipe]
      simp
    · rw [if_neg hpipe]
      split
      · simp
      · simpa using hpipe

/-- **Leaving out the backslashes gives the cell back**, but for its line ends. -/
theorem unescape_escapeCell (cell : List Char) : unescape (escapeCell cell) = shown cell := by
  induction cell with
  | nil => rfl
  | cons c rest ih =>
    rw [escapeCell_cons]
    by_cases hpipe : c = '|'
    · subst hpipe
      rw [if_pos rfl, List.cons_append, List.singleton_append, unescape, ih]
      rfl
    · rw [if_neg hpipe]
      by_cases hline : (c = '\r' || c = '\n') = true
      · rw [if_pos hline, List.singleton_append, unescape_cons (by decide), ih]
        simp only [shown, List.map_cons, hline, if_true]
      · have hcons : shown (c :: rest) = c :: shown rest := by
          simp only [shown, List.map_cons, hline, Bool.false_eq_true, if_false]
        rw [if_neg hline, List.singleton_append, hcons, ← ih]
        by_cases hback : c = '\\'
        · subst hback
          exact unescape_backslash (head?_escapeCell_ne_pipe rest)
        · exact unescape_cons hback _

/-- **A cell with a space and a pipe after it is cut off there**: none of its own pipes cuts it, and a backslash at its
end does not reach the pipe after it. -/
theorem cutAtPipes_cell (escaped : Bool) (cell rest : List Char) :
    cutAtPipes escaped (escapeCell cell ++ ' ' :: '|' :: rest)
      = (escapeCell cell ++ [' ']) :: cutAtPipes false rest := by
  induction cell generalizing escaped with
  | nil => simp [escapeCell, cutAtPipes]
  | cons c more ih =>
    rw [escapeCell_cons, List.append_assoc, List.append_assoc]
    by_cases hpipe : c = '|'
    · rw [if_pos hpipe]
      simp [cutAtPipes, ih]
    · rw [if_neg hpipe]
      split
      · simp [cutAtPipes, ih]
      · simp [cutAtPipes, hpipe, ih]

theorem unframe?_framed (cell : List Char) : unframe? (' ' :: cell ++ [' ']) = some cell := by
  rw [List.cons_append, unframe?, List.getLast?_concat, if_pos rfl, List.dropLast_concat]

/-! ## Lines -/

/-- A line of cells, without the line end. -/
def rowText (cells : List (List Char)) : List Char :=
  '|' :: cells.flatMap fun cell => ' ' :: cell ++ [' ', '|']

/-- Cells with frames between them, and frames around all but the first one. -/
theorem intercalate_framed (first : List Char) (rest : List (List Char)) (tail : List Char) :
    [' ', '|', ' '].intercalate (first :: rest) ++ ' ' :: '|' :: tail
      = first ++ ' ' :: '|' :: ((rest.flatMap fun cell => ' ' :: cell ++ [' ', '|']) ++ tail) := by
  induction rest generalizing first with
  | nil => rw [List.intercalate_singleton, List.flatMap_nil, List.nil_append]
  | cons second rest ih =>
    rw [List.intercalate_cons_cons, List.append_assoc, List.append_assoc, ih second, List.flatMap_cons]
    simp

theorem rowLine_eq {cells : List (List Char)} (h : cells ≠ []) : rowLine cells = rowText cells ++ ['\n'] := by
  obtain ⟨first, rest, rfl⟩ := List.exists_cons_of_ne_nil h
  have hframed := intercalate_framed first rest ['\n']
  rw [rowLine, List.append_assoc, hframed, rowText, List.flatMap_cons]
  simp

/-- A line of escaped cells is one line. -/
theorem not_mem_rowText {c : Char} (hc : c = '\r' ∨ c = '\n') (cells : List (List Char)) :
    c ∉ rowText (cells.map escapeCell) := by
  have hframe : c ≠ '|' ∧ c ≠ ' ' := by rcases hc with rfl | rfl <;> decide
  intro hmem
  rcases List.mem_cons.mp hmem with heq | hmem
  · exact hframe.1 heq
  · obtain ⟨cell, hcell, hmem⟩ := List.mem_flatMap.mp hmem
    obtain ⟨raw, -, rfl⟩ := List.mem_map.mp hcell
    rw [List.cons_append, List.mem_cons, List.mem_append] at hmem
    rcases hmem with heq | hmem | hmem
    · exact hframe.2 heq
    · exact not_mem_escapeCell hc raw hmem
    · simp [hframe] at hmem

/-- The cut of a line of escaped cells. -/
theorem cutAtPipes_cells (cells : List (List Char)) :
    cutAtPipes false ((cells.map escapeCell).flatMap fun cell => ' ' :: cell ++ [' ', '|'])
      = (cells.map fun cell => ' ' :: escapeCell cell ++ [' ']) ++ [[]] := by
  induction cells with
  | nil => rfl
  | cons cell more ih =>
    have hnot : ¬(decide (' ' = '|') && !false) = true := by decide
    have hframed : ∀ rest, (' ' :: escapeCell cell ++ [' ', '|']) ++ rest
        = ' ' :: (escapeCell cell ++ ' ' :: '|' :: rest) := fun rest => by simp
    rw [List.map_cons, List.flatMap_cons, hframed, cutAtPipes, if_neg hnot, cutAtPipes_cell, ih]
    rfl

/-- **The cut of a line of escaped cells** is at the pipes around them, and nowhere else. -/
theorem cutAtPipes_rowText (cells : List (List Char)) :
    cutAtPipes false (rowText (cells.map escapeCell))
      = [] :: (cells.map fun cell => ' ' :: escapeCell cell ++ [' ']) ++ [[]] := by
  rw [rowText, cutAtPipes, if_pos (by decide), cutAtPipes_cells]
  rfl

/-- The cell that a part of a line stands for. -/
def readCell? (part : List Char) : Option String := (unframe? part).map fun cell => String.ofList (unescape cell)

theorem readCell?_framed (cell : List Char) :
    readCell? (' ' :: escapeCell cell ++ [' ']) = some (String.ofList (shown cell)) := by
  rw [readCell?, unframe?_framed, Option.map_some, unescape_escapeCell]

/-- **A line of escaped cells is read back**: exactly its cells, as far as they can be seen. -/
theorem readRow?_rowText (cells : List (List Char)) :
    readRow? (rowText (cells.map escapeCell)) = some (cells.map fun cell => String.ofList (shown cell)) := by
  have hcells : ∀ cells : List (List Char), (cells.map fun cell => ' ' :: escapeCell cell ++ [' ']).mapM readCell?
      = some (cells.map fun cell => String.ofList (shown cell)) := by
    intro cells
    induction cells with
    | nil => rfl
    | cons cell more ih =>
      rw [List.map_cons, List.mapM_cons, ih, readCell?_framed]
      rfl
  rw [readRow?, cutAtPipes_rowText, List.cons_append]
  simp only [List.getLast?_concat, if_true, List.dropLast_concat]
  exact hcells cells

/-! ## Tables -/

namespace Table

/-- The lines of a table, without the line ends. -/
def lines (t : Table) : List (List Char) :=
  rowText (t.header.map String.toList) :: rowText (List.replicate t.header.length ['-', '-', '-'])
    :: t.rows.map fun row => rowText (fit t.header.length (row.map fun cell => escapeCell cell.toList))

/-- A header that needs no escaping, with at least one name. -/
structure PlainHeader (t : Table) : Prop where
  ne_nil : t.header ≠ []
  plain : ∀ name ∈ t.header, ∀ c ∈ name.toList, c ≠ '|' ∧ c ≠ '\r' ∧ c ≠ '\n'

/-- The cells of a row as they are shown: as many as the header has names. -/
def shownRow (t : Table) (row : List String) : List String :=
  (row.map fun cell => String.ofList (shown cell.toList)).take t.header.length
    ++ List.replicate (t.header.length - row.length) ""

variable {t : Table}

/-- Escaping comes before the cut to the width of the header, but could come after it. -/
theorem fit_escaped (width : Nat) (row : List String) :
    fit width (row.map fun cell => escapeCell cell.toList) = (fit width (row.map String.toList)).map escapeCell := by
  have hcells : (row.map fun cell => escapeCell cell.toList) = (row.map String.toList).map escapeCell := by
    rw [List.map_map]
    rfl
  rw [fit, fit, hcells, List.map_append, List.map_take, List.map_replicate, List.length_map]
  rfl

theorem header_escaped (h : t.PlainHeader) :
    t.header.map String.toList = (t.header.map String.toList).map escapeCell := by
  conv_lhs => rw [← List.map_id (t.header.map String.toList)]
  refine List.map_congr_left fun cell hcell => ?_
  obtain ⟨name, hname, rfl⟩ := List.mem_map.mp hcell
  exact (escapeCell_eq_self (h.plain name hname)).symm

theorem dashes_escaped (width : Nat) :
    List.replicate width ['-', '-', '-'] = (List.replicate width ['-', '-', '-']).map escapeCell := by
  rw [List.map_replicate]
  rfl

/-- Every line of a table is a line of escaped cells. -/
theorem exists_of_mem_lines (h : t.PlainHeader) {line : List Char} (hline : line ∈ t.lines) :
    ∃ cells : List (List Char), line = rowText (cells.map escapeCell) := by
  rcases List.mem_cons.mp hline with rfl | hline
  · exact ⟨_, congrArg rowText (header_escaped h)⟩
  · rcases List.mem_cons.mp hline with rfl | hline
    · exact ⟨_, congrArg rowText (dashes_escaped _)⟩
    · obtain ⟨row, -, rfl⟩ := List.mem_map.mp hline
      exact ⟨_, congrArg rowText (fit_escaped _ row)⟩

/-- The text of a table is made of its lines. -/
theorem render_eq (h : t.PlainHeader) : t.render = t.lines.flatMap (· ++ ['\n']) := by
  have hwidth : t.header.length ≠ 0 := by simpa using h.ne_nil
  have hheader : t.header.map String.toList ≠ [] := by simpa using h.ne_nil
  have hdashes : List.replicate t.header.length ['-', '-', '-'] ≠ [] := by simpa using hwidth
  have hrows : ∀ row : List String,
      fit t.header.length (row.map fun cell => escapeCell cell.toList) ≠ [] := by
    intro row heq
    have hlength := congrArg List.length heq
    simp only [fit, List.length_append, List.length_take, List.length_replicate, List.length_map, List.length_nil]
      at hlength
    omega
  rw [render, lines, rowLine_eq hheader, rowLine_eq hdashes, List.flatMap_cons, List.flatMap_cons, List.flatMap_map,
    List.append_assoc]
  simp only [rowLine_eq (hrows _)]

/-- The cells of a row are as many as the header has names. -/
theorem length_fit (width : Nat) (cells : List (List Char)) : (fit width cells).length = width := by
  rw [fit, List.length_append, List.length_take, List.length_replicate]
  omega

/-- The cells of a row as they are shown are those of its line. -/
theorem shownRow_eq (t : Table) (row : List String) :
    t.shownRow row = (fit t.header.length (row.map String.toList)).map fun cell => String.ofList (shown cell) := by
  rw [shownRow, fit, List.map_append, List.map_take, List.map_map, List.map_replicate, List.length_map]
  rfl

theorem readRow?_header (h : t.PlainHeader) : readRow? (rowText (t.header.map String.toList)) = some t.header := by
  have hnames : (t.header.map String.toList).map (fun cell => String.ofList (shown cell)) = t.header := by
    rw [List.map_map]
    conv_rhs => rw [← List.map_id t.header]
    refine List.map_congr_left fun name hname => ?_
    rw [Function.comp_apply, shown_eq_self fun c hc => (h.plain name hname c hc).2, String.ofList_toList]
    rfl
  rw [header_escaped h, readRow?_rowText, hnames]

theorem readRow?_dashes (t : Table) :
    readRow? (rowText (List.replicate t.header.length ['-', '-', '-'])) = some (t.header.map fun _ => "---") := by
  rw [dashes_escaped, readRow?_rowText, List.map_replicate, List.map_const']
  rfl

end Table

/-! ## Rows in a text -/

/-- Lines with their line ends. -/
def unlines (lines : List (List Char)) : List Char := lines.flatMap (· ++ ['\n'])

theorem splitOn_unlines {lines : List (List Char)} (h : ∀ line ∈ lines, '\n' ∉ line) (rest : List Char) :
    Text.splitOn '\n' (unlines lines ++ rest) = lines ++ Text.splitOn '\n' rest := by
  induction lines with
  | nil => rfl
  | cons line more ih =>
    obtain ⟨hline, hmore⟩ := List.forall_mem_cons.mp h
    rw [unlines, List.flatMap_cons, List.append_assoc, List.append_assoc, List.singleton_append,
      Text.splitOn_append_cons, Text.splitOn_of_not_mem hline, List.singleton_append, List.cons_append]
    exact congrArg (line :: ·) (ih hmore)

/-- A line from which cells are read. It is one line, and the cut at the pipes that no backslash stands before leaves
nothing outside the first and the last pipe, and one part for each cell between them. -/
structure ReadsAs (cells : List String) (line : List Char) : Prop where
  inline : '\r' ∉ line ∧ '\n' ∉ line
  parts : ∃ parts, cutAtPipes false line = [] :: parts ++ [[]] ∧ parts.map readCell? = cells.map some

/-- Cells are read from their line. -/
theorem readsAs_rowText (cells : List (List Char)) :
    ReadsAs (cells.map fun cell => String.ofList (shown cell)) (rowText (cells.map escapeCell)) where
  inline := ⟨not_mem_rowText (Or.inl rfl) cells, not_mem_rowText (Or.inr rfl) cells⟩
  parts := by
    refine ⟨_, cutAtPipes_rowText cells, ?_⟩
    rw [List.map_map, List.map_map]
    exact List.map_congr_left fun cell _ => readCell?_framed cell

namespace Table

variable {t : Table}

/-- **The rows of a table are read back from its text.** Behind the line with the header and that with the dashes there
is exactly one line for each row, in their order. From the line of a row as many cells are read as the header has names:
the cells of the row as they can be seen, cut or filled with empty ones. -/
theorem rows_of_render (h : t.PlainHeader) :
    ∃ header dashes body, Text.splitOn '\n' t.render = header :: dashes :: body ++ [[]] ∧
      readRow? header = some t.header ∧ readRow? dashes = some (t.header.map fun _ => "---") ∧
      List.Forall₂ (fun row line => (t.shownRow row).length = t.header.length ∧ ReadsAs (t.shownRow row) line)
        t.rows body := by
  have hinline : ∀ line ∈ t.lines, '\n' ∉ line := by
    intro line hline
    obtain ⟨cells, rfl⟩ := exists_of_mem_lines h hline
    exact not_mem_rowText (Or.inr rfl) cells
  have hsplit : Text.splitOn '\n' t.render = t.lines ++ [[]] := by
    have hlines := splitOn_unlines hinline []
    rwa [List.append_nil, unlines, ← render_eq h] at hlines
  refine ⟨_, _, _, hsplit, readRow?_header h, readRow?_dashes t, ?_⟩
  rw [List.forall₂_map_right_iff, List.forall₂_same]
  intro row _
  rw [fit_escaped, shownRow_eq, List.length_map]
  exact ⟨length_fit _ _, readsAs_rowText _⟩

/-- A table with pipes, backslashes, line ends and spaces in its cells, and with rows that are too short or too long. -/
def crowded : Table where
  header := ["A", "B\\"]
  rows := [["x|y\\", "\\|"], ["\r\n", " | "], ["only"], [], ["1", "2", "3"]]

/-- Its cells are read back, with spaces for the line ends. -/
theorem rows_of_render_crowded :
    crowded.PlainHeader ∧
      crowded.rows.map crowded.shownRow = [["x|y\\", "\\|"], ["  ", " | "], ["only", ""], ["", ""], ["1", "2"]] ∧
      ∃ header dashes body, Text.splitOn '\n' crowded.render = header :: dashes :: body ++ [[]] ∧
        readRow? header = some crowded.header ∧ readRow? dashes = some (crowded.header.map fun _ => "---") ∧
        List.Forall₂ (fun row line => (crowded.shownRow row).length = crowded.header.length ∧
          ReadsAs (crowded.shownRow row) line) crowded.rows body := by
  have hplain : crowded.PlainHeader := ⟨by decide, by simp [crowded]⟩
  exact ⟨hplain, by decide, rows_of_render hplain⟩

end Table
end Report
end ThreatModel
