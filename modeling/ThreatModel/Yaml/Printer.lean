import ThreatModel.Yaml

/-!
# `Yaml.Printer` — values as the text of a configuration file

Sequences and mappings are written one entry per line. The entries of a mapping within a mapping are indented by
two spaces, those of a sequence within a mapping are not. A text is written without quotes where it can be read
back as the same text, else in the plainest style that keeps it.

## Contents

* `Style`, `Style.ofText` — the ways of writing a text, and which one is taken.
* `scalarText` — a text in its style.
* `block` — values over several lines.
* `render` — a whole file.
-/

namespace ThreatModel
namespace Yaml

/-! ## Characters -/

/-- A character that ends a line. -/
def isBreak (c : Char) : Bool :=
  c = '\n' || c = '\r' || c = '\x85' || c = '\u2028' || c = '\u2029'

/-- A character after which, or before which, an indicator counts: white space, a line end or a zero character. -/
def isApart (c : Char) : Bool := c = ' ' || c = '\t' || c = '\x00' || isBreak c

/-- A character that can be written as itself. -/
def isPrintable (c : Char) : Bool :=
  let n := c.toNat
  c = '\n' || (0x20 ≤ n && n ≤ 0x7E) || (0xA0 ≤ n && n ≤ 0xFFFD && n ≠ 0xFEFF)

/-- The indicators that no unquoted text starts with. -/
def leadingIndicators : List Char :=
  ['#', ',', '[', ']', '\x7b', '\x7d', '&', '*', '!', '|', '>', '\'', '"', '%', '@', '\x60']

/-! ## Looks -/

/-- A number in base sixteen, eight or two, marked as such, that fits 128 bits and may have a sign. -/
def looksMarked (text : List Char) : Bool :=
  let largest : Nat := 0xFFFFFFFFFFFFFFFFFFFFFFFFFFFFFFFF
  let (limit, size) : Nat × List Char :=
    match text with
    | '-' :: size => (largest / 2 + 1, size)
    | '+' :: size => (largest, size)
    | size => (largest, size)
  let fits (base : Nat) (digits : List Char) : Bool :=
    match natOf? base digits with
    | some n => n ≤ limit
    | none => false
  match size with
  | '0' :: 'x' :: digits => fits 16 digits
  | '0' :: 'o' :: digits => fits 8 digits
  | '0' :: 'b' :: digits => fits 2 digits
  | _ => false

/-- A floating point number. -/
def looksReal (text : List Char) : Bool :=
  if specialReals.contains (String.ofList text) then true
  else
    match text with
    | '+' :: '+' :: _ | '+' :: '-' :: _ => false
    | _ =>
      match Decimal.floatBits? text with
      | some bits => bits % signBit < infinityBits
      | none => false

/-- The words for nothing, truth and falsehood. -/
def reservedWords : List String := ["", "~", "null", "Null", "NULL", "true", "True", "TRUE", "false", "False", "FALSE"]

/-- Whether a text would be taken for another kind of value if it were written without quotes. -/
def looksTyped (text : List Char) : Bool :=
  reservedWords.contains (String.ofList text) || looksMarked text || looksReal text

/-! ## Styles -/

/-- The ways of writing a text. -/
inductive Style where
  | plain
  | single
  | double
  | literal
deriving DecidableEq, Repr

/-- The characters of a text with their neighbours: the one before, if any, the character, the one after. -/
def triples (before : Option Char) : List Char → List (Option Char × Char × Option Char)
  | [] => []
  | c :: rest => (before, c, rest.head?) :: triples (some c) rest

/-- Whether nothing, or a character that sets apart, is there. -/
def apart? : Option Char → Bool
  | none => true
  | some c => isApart c

/-- Whether a character has a meaning of its own where it stands in an unquoted text. -/
def isIndicator : Option Char × Char × Option Char → Bool
  | (none, c, after) =>
    leadingIndicators.contains c || ((c = '?' || c = ':' || c = '-') && apart? after)
  | (some before, c, after) => (c = ':' && apart? after) || (c = '#' && isApart before)

/-- Whether a text starts like the line between two documents. -/
def startsMarker (text : List Char) : Bool := text.take 3 = ['-', '-', '-'] || text.take 3 = ['.', '.', '.']

/-- Whether a line break stands next to a space, in the given order. -/
def breaksAtSpace (spaceFirst : Bool) (text : List Char) : Bool :=
  (text.zip text.tail).any fun (a, b) => if spaceFirst then a = ' ' && isBreak b else isBreak a && b = ' '

/-- Whether a text can be written between single quotes. -/
def allowsSingle (text : List Char) : Bool :=
  text.all isPrintable && !breaksAtSpace true text && !breaksAtSpace false text

/-- Whether a text can be written without quotes. -/
def allowsPlain (text : List Char) : Bool :=
  text.all (fun c => isPrintable c && !isBreak c) && !startsMarker text
    && !(triples none text).any isIndicator && text.head? ≠ some ' ' && text.getLast? ≠ some ' '

/-- Whether a text can be written line by line. -/
def allowsLiteral (text : List Char) : Bool :=
  text.all isPrintable && !breaksAtSpace true text && text.getLast? ≠ some ' '

/-- The style that a text is written in. -/
def Style.ofText (text : List Char) : Style :=
  if text.contains '\n' then if allowsLiteral text then .literal else .double
  else if !looksTyped text && allowsPlain text then .plain
  else if allowsSingle text then .single
  else .double

/-! ## Scalars -/

/-- A run of spaces. -/
def spaces (n : Nat) : List Char := List.replicate n ' '

/-- A character between single quotes; `atStart` holds after a line break, where the line is indented first. -/
def singleBody (indent : Nat) : Bool → List Char → List Char
  | atStart, [] => if atStart then spaces indent else []
  | atStart, c :: rest =>
    if isBreak c then c :: singleBody indent true rest
    else
      (if atStart then spaces indent else []) ++ (if c = '\'' then ['\'', '\''] else [c])
        ++ singleBody indent false rest

/-- The last digits of a number in base sixteen, written with capital letters. -/
def hexDigits (width n : Nat) : List Char :=
  (List.range width).reverse.map fun place => (Nat.digitChar (n / Nat.pow 16 place % 16)).toUpper

/-- A character between double quotes. -/
def escapeChar (c : Char) : List Char :=
  let n := c.toNat
  if c = '"' || c = '\\' then ['\\', c]
  else if isPrintable c && !isBreak c then [c]
  else if c = '\x00' then ['\\', '0']
  else if c = '\x07' then ['\\', 'a']
  else if c = '\x08' then ['\\', 'b']
  else if c = '\t' then ['\\', 't']
  else if c = '\n' then ['\\', 'n']
  else if c = '\x0b' then ['\\', 'v']
  else if c = '\x0c' then ['\\', 'f']
  else if c = '\r' then ['\\', 'r']
  else if c = '\x1b' then ['\\', 'e']
  else if c = '\x85' then ['\\', 'N']
  else if c = '\u2028' then ['\\', 'L']
  else if c = '\u2029' then ['\\', 'P']
  else if n ≤ 0xFF then '\\' :: 'x' :: hexDigits 2 n
  else if n ≤ 0xFFFF then '\\' :: 'u' :: hexDigits 4 n
  else '\\' :: 'U' :: hexDigits 8 n

/-- The lines of a text written line by line, each indented unless it is empty. -/
def literalBody (indent : Nat) : Bool → List Char → List Char
  | _, [] => []
  | atStart, c :: rest =>
    if isBreak c then c :: literalBody indent true rest
    else (if atStart then spaces indent else []) ++ c :: literalBody indent false rest

/-- Whether a text ends with an empty line. -/
def endsOpen (text : List Char) : Bool :=
  match text.reverse with
  | [last] => isBreak last
  | last :: previous :: _ => isBreak last && isBreak previous
  | [] => false

/-- The head of a text written line by line: whether its first line starts with white space of its own, and how
its last lines end. -/
def literalHead (text : List Char) : List Char :=
  let first := text.head?.any fun c => c = ' ' || isBreak c
  let ends :=
    if endsOpen text then ['+'] else if text.getLast?.any isBreak then [] else ['-']
  '|' :: (if first then ['2'] else []) ++ ends

/-- A text in its style, with its further lines indented. -/
def scalarText (indent : Nat) (text : List Char) : List Char :=
  match Style.ofText text with
  | .plain => text
  | .single => '\'' :: singleBody indent false text ++ ['\'']
  | .double => '"' :: text.flatMap escapeChar ++ ['"']
  | .literal => literalHead text ++ '\n' :: literalBody indent true text

/-- The text with a line end after it, unless it has one. -/
def endLine (text : List Char) : List Char :=
  if text.getLast?.any isBreak then text else text ++ ['\n']

/-- A whole number. -/
def wholeText (n : Int) : List Char :=
  if n < 0 then '-' :: Decimal.natDigits n.natAbs else Decimal.natDigits n.natAbs

/-- A key, on one line. -/
def keyText : Key → List Char
  | .text value =>
    match Style.ofText value.toList with
    | .literal => '"' :: value.toList.flatMap escapeChar ++ ['"']
    | _ => scalarText 0 value.toList
  | .whole n => wholeText n

/-- A value that takes no lines of its own, with its further lines indented. -/
def inline? (indent : Nat) : Yaml → Option (List Char)
  | .null => some ['n', 'u', 'l', 'l']
  | .bool true => some ['t', 'r', 'u', 'e']
  | .bool false => some ['f', 'a', 'l', 's', 'e']
  | .whole n => some (wholeText n)
  | .real digits => some digits.toList
  | .text value => some (scalarText indent value.toList)
  | .sequence [] => some ['[', ']']
  | .mapping [] => some ['\x7b', '\x7d']
  | .sequence (_ :: _) | .mapping (_ :: _) => none

/-! ## Blocks -/

/-- Whether a value is a sequence with items. -/
def isListed : Yaml → Bool
  | .sequence (_ :: _) => true
  | _ => false

/-- What stands between the colon after a key and its value: a space, or the start of the next line. -/
def entryGap (column : Nat) : Yaml → List Char
  | .sequence (_ :: _) => '\n' :: spaces column
  | .mapping (_ :: _) => '\n' :: spaces (column + 2)
  | _ => [' ']

mutual

/-- A value whose first line starts in the given column, where its first line has been indented already. -/
def block (column : Nat) : Yaml → List Char
  | .sequence (item :: rest) => '-' :: ' ' :: block (column + 2) item ++ blockItems column rest
  | .mapping ((key, value) :: rest) =>
    keyText key ++ ':' :: entryGap column value
      ++ block (if isListed value then column else column + 2) value ++ blockEntries column rest
  | value => endLine ((inline? column value).getD [])

/-- The further items of a sequence. -/
def blockItems (column : Nat) : List Yaml → List Char
  | [] => []
  | item :: rest =>
    spaces column ++ '-' :: ' ' :: block (column + 2) item ++ blockItems column rest

/-- The further entries of a mapping. -/
def blockEntries (column : Nat) : List (Key × Yaml) → List Char
  | [] => []
  | (key, value) :: rest =>
    spaces column ++ keyText key ++ ':' :: entryGap column value
      ++ block (if isListed value then column else column + 2) value ++ blockEntries column rest

end

/-! ## Files -/

mutual

/-- The texts of a value in the order in which they are written. -/
def texts : Yaml → List String
  | .text value => [value]
  | .sequence items => textsOfItems items
  | .mapping entries => textsOfEntries entries
  | .null | .bool _ | .whole _ | .real _ => []

/-- The texts of the items of a sequence. -/
def textsOfItems : List Yaml → List String
  | [] => []
  | item :: rest => texts item ++ textsOfItems rest

/-- The texts of the values of a mapping. -/
def textsOfEntries : List (Key × Yaml) → List String
  | [] => []
  | (_, value) :: rest => texts value ++ textsOfEntries rest

end

/-- The end of a file. If the last text that is written line by line ends with an empty line, the end is marked. -/
def endMark (value : Yaml) : List Char :=
  let literals := (texts value).filter fun text => Style.ofText text.toList = .literal
  if literals.getLast?.any fun text => endsOpen text.toList then ['.', '.', '.', '\n'] else []

/-- The text of a file that holds a value. -/
def render (value : Yaml) : String := String.ofList (block 0 value ++ endMark value)

end Yaml
end ThreatModel
