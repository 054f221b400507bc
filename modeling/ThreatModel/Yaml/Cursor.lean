import ThreatModel.Yaml

/-!
# `Yaml.Cursor` — positions in a configuration file

A file is read line by line. A cursor stands in a line and knows its column there, since the columns of lines
decide what belongs together: the content of a value stands at or right of a least column, its limit.

## Contents

* `isBlank`, `isIgnorable`, `isIndentedByTab` — what lines are made of.
* `Cursor` — a position, with `skip`, `skipBlanks`, `endsLine`.
* `Cursor.descend`, `Cursor.finish`, `Cursor.toToken` — going to what comes next.
-/

namespace ThreatModel
namespace Yaml

/-! ## Lines -/

/-- White space within a line. -/
def isBlank (c : Char) : Bool := c = ' ' || c = '\t'

/-- Whether nothing, or white space, comes next. -/
def isApartNext (rest : List Char) : Bool := rest.head?.all isBlank

/-- Whether a line holds nothing but white space and a comment. -/
def isIgnorable (line : List Char) : Bool := (line.dropWhile isBlank).head?.all (· = '#')

/-- Whether a tab stands in the white space at the start of a line, left of the limit. -/
def isIndentedByTab (limit : Nat) (line : List Char) : Bool :=
  let indentation := line.takeWhile (· = ' ')
  indentation.length < limit && (line.drop indentation.length).head? = some '\t'

/-- The column of the first character of a line that is not white space. -/
def columnOf (line : List Char) : Nat := (line.takeWhile isBlank).length

/-! ## Cursors -/

/-- A position: the rest of the line, the column where it starts, the lines below, and the values that have been
given names so far. -/
structure Cursor where
  rest : List Char
  column : Nat
  below : List (List Char)
  anchors : List (String × Yaml)

namespace Cursor

/-- The cursor after a number of characters of the line. -/
def skip (c : Cursor) (n : Nat) : Cursor := { c with rest := c.rest.drop n, column := c.column + n }

/-- The cursor after the white space in the line. -/
def skipBlanks (c : Cursor) : Cursor := c.skip (c.rest.takeWhile isBlank).length

/-- Whether nothing is left to read. -/
def isEnd (c : Cursor) : Bool := c.rest.isEmpty && c.below.isEmpty

/-- Whether nothing but white space and a comment is left of the line. A comment stands after white space. -/
def endsLine (c : Cursor) : Bool :=
  match c.rest with
  | [] => true
  | first :: _ => isBlank first && isIgnorable c.rest

/-- The cursor at the first line below that says something, or at the end. Such a line is not indented by a tab
left of the limit. -/
def descendTo (limit : Nat) (anchors : List (String × Yaml)) : List (List Char) → Option Cursor
  | [] => some ⟨[], 0, [], anchors⟩
  | line :: below =>
    if isIgnorable line then descendTo limit anchors below
    else if isIndentedByTab limit line then none
    else some ⟨line.dropWhile isBlank, columnOf line, below, anchors⟩

/-- The cursor at the first line below that says something, or at the end. -/
def descend (limit : Nat) (c : Cursor) : Option Cursor := descendTo limit c.anchors c.below

/-- The cursor at the next line that says something, if this line says nothing more. -/
def finish (limit : Nat) (c : Cursor) : Option Cursor := if c.endsLine then c.descend limit else none

/-- The cursor at whatever comes next, in this line or in one below that is not left of the limit. -/
def toToken (limit : Nat) (c : Cursor) : Option Cursor :=
  if c.endsLine then (c.descend limit).filter fun next => !next.isEnd && limit ≤ next.column
  else some c.skipBlanks

/-- The cursor after a colon before a value. A word does not follow a colon after tabs alone. -/
def afterColon (c : Cursor) : Option Cursor :=
  let after := c.skip 1
  let gap := after.rest.takeWhile isBlank
  let startsWord := (after.rest.drop gap.length).head?.any fun c => c.isAlphanum || c = '_' || c = '-'
  if !gap.isEmpty && gap.all (· = '\t') && startsWord then none else some after

/-- The cursor where a value has been given a name. -/
def define (c : Cursor) (name : Option String) (value : Yaml) : Cursor :=
  match name with
  | some name => { c with anchors := (name, value) :: c.anchors }
  | none => c

end Cursor
end Yaml
end ThreatModel
