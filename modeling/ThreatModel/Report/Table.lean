/-!
# `Report.Table` — pipe tables

A table is written one line per row, its cells between pipes. A pipe inside a cell is written with a backslash
before it and a line end inside a cell as a space, so that no cell can end its line or its column.

## Contents

* `escapeCell`, `rowLine` — a cell and a line of cells.
* `Table`, `Table.render` — a table and its text.
-/

namespace ThreatModel
namespace Report

/-- The text of a cell of a row. -/
def escapeCell (cell : List Char) : List Char :=
  cell.flatMap fun c =>
    if c = '|' then ['\\', '|']
    else if c = '\r' || c = '\n' then [' ']
    else [c]

/-- A line of cells, closed by a line feed. -/
def rowLine (cells : List (List Char)) : List Char :=
  ['|', ' '] ++ [' ', '|', ' '].intercalate cells ++ [' ', '|', '\n']

/-- A table with a header and rows. -/
structure Table where
  header : List String
  rows : List (List String)
deriving DecidableEq, Repr

namespace Table

/-- The cells of a row, cut or filled with empty cells to the given number. -/
def fit (width : Nat) (cells : List (List Char)) : List (List Char) :=
  cells.take width ++ List.replicate (width - cells.length) []

/-- Whether a table has no rows. -/
def isEmpty (t : Table) : Bool := t.rows.isEmpty

/-- The lines of a table: the header, a line of dashes, and the rows as wide as the header. -/
def render (t : Table) : List Char :=
  rowLine (t.header.map String.toList)
    ++ rowLine (List.replicate t.header.length ['-', '-', '-'])
    ++ t.rows.flatMap fun row =>
      rowLine (fit t.header.length (row.map fun cell => escapeCell cell.toList))

end Table
end Report
end ThreatModel
