/-!
# `Text` — white space, trimming, and the ways a text falls apart

Everything the library reads is a list of characters. This module fixes the three classes of white space it
tells apart, cuts a text at line feeds, and cuts it at every line end.

## Contents

* `isGap`, `isSpace` — the white space inside a directive, and white space in general.
* `trimStart`, `trimEnd`, `trim`, `isBlank` — removing white space at the ends.
* `splitOn` — the parts between occurrences of one character.
* `places` — where a text holds another one.
* `lines` — the lines of a file.
* `segments` — the stretches between line ends of any kind, line by line.
* `search` — where a number belongs among increasing numbers.
* `lineStarts`, `lineAt`, `Position.ofOffset` — the line that holds an offset.
-/

namespace ThreatModel
namespace Text

/-! ## Classes of white space -/

/-- The white space that separates the words of a directive: a space or a tab. -/
def isGap (c : Char) : Bool := c = ' ' || c = '\t'

/-- White space in general: the characters with the property `White_Space`. -/
def isSpace (c : Char) : Bool :=
  let n := c.toNat
  (9 ≤ n && n ≤ 13) || n = 0x20 || n = 0x85 || n = 0xA0 || n = 0x1680 || (0x2000 ≤ n && n ≤ 0x200A)
    || n = 0x2028 || n = 0x2029 || n = 0x202F || n = 0x205F || n = 0x3000

/-- A gap is white space. -/
theorem isSpace_of_isGap {c : Char} (h : isGap c = true) : isSpace c = true := by
  simp only [isGap, Bool.or_eq_true, decide_eq_true_eq] at h
  rcases h with rfl | rfl <;> decide

/-! ## Trimming -/

/-- The text without its leading white space. -/
def trimStart (text : List Char) : List Char := text.dropWhile isSpace

/-- The text without its trailing white space. -/
def trimEnd (text : List Char) : List Char := (text.reverse.dropWhile isSpace).reverse

/-- The text without white space at either end. -/
def trim (text : List Char) : List Char := trimEnd (trimStart text)

/-- Whether a text holds nothing but white space. -/
def isBlank (text : List Char) : Bool := text.all isSpace

/-! ## Texts in a text -/

/-- The places at which a text holds `part`, as they are met from the left: none starts inside the one before it. The
text starts at the given place, and its first `inside` characters belong to the place that was met last. -/
def placesFrom (part : List Char) : (place inside : Nat) → List Char → List Nat
  | place, inside, [] => if part.isEmpty && inside = 0 then [place] else []
  | place, inside + 1, _ :: rest => placesFrom part (place + 1) inside rest
  | place, 0, c :: rest =>
    if part.isPrefixOf (c :: rest) then place :: placesFrom part (place + 1) (part.length - 1) rest
    else placesFrom part (place + 1) 0 rest

/-- The places at which a text holds `part`, counted in characters. -/
def places (part text : List Char) : List Nat := placesFrom part 0 0 text

/-! ## Cutting at one character -/

/-- The parts of a text between the occurrences of `separator`; there is always one part more than there are
separators. -/
def splitOn (separator : Char) (text : List Char) : List (List Char) :=
  text.foldr
    (fun c parts =>
      if c = separator then [] :: parts
      else match parts with
        | [] => [[c]]
        | part :: rest => (c :: part) :: rest)
    [[]]

@[simp] theorem splitOn_nil (separator : Char) : splitOn separator [] = [[]] := rfl

/-- A separator in front starts with an empty part. -/
theorem splitOn_cons_self (separator : Char) (text : List Char) :
    splitOn separator (separator :: text) = [] :: splitOn separator text := by
  simp [splitOn]

/-- There is always a first part. -/
theorem splitOn_ne_nil (separator : Char) (text : List Char) : splitOn separator text ≠ [] := by
  induction text with
  | nil => simp
  | cons c rest ih =>
    simp only [splitOn, List.foldr_cons] at ih ⊢
    split
    · simp
    · split <;> simp

/-! ## Lines and segments -/

/-- The text without one carriage return at its end, if it has one. -/
def dropReturn (line : List Char) : List Char :=
  if line.getLast? = some '\r' then line.dropLast else line

/-- The lines of a file. A line ends at a line feed, and a carriage return directly before the line feed
belongs to the line end; a line feed at the very end of the file starts no further line. -/
def lines (text : List Char) : List (List Char) :=
  let parts := splitOn '\n' text
  let last := parts.getLast?.getD []
  parts.dropLast.map dropReturn ++ (if last = [] then [] else [last])

/-- The stretches of a text between its line ends, grouped by the lines that line feeds make. A line end is a
carriage return, a line feed, or a carriage return directly followed by a line feed; after the last line feed a
carriage return always stands alone. -/
def segments (text : List Char) : List (List (List Char)) :=
  let parts := splitOn '\n' text
  (parts.dropLast.map dropReturn ++ [parts.getLast?.getD []]).map (splitOn '\r')

/-! ## Offsets -/

/-- The byte offsets at which the lines after each line feed start, for a text that itself starts at
`offset`. -/
def startsAfter (offset : Nat) : List Char → List Nat
  | [] => []
  | c :: rest =>
    let next := offset + c.utf8Size
    if c = '\n' then next :: startsAfter next rest else startsAfter next rest

/-- The byte offsets at which the lines of a text start, in increasing order. -/
def lineStarts (text : List Char) : List Nat := 0 :: startsAfter 0 text

/-- Where a number belongs among increasing numbers. -/
inductive Sought where
  /-- It is the number at an index. -/
  | found (index : Nat)
  /-- It is none of the numbers, and belongs in front of the one at an index, or behind the last one. -/
  | missing (index : Nat)
deriving DecidableEq, Repr

/-- Looks for a number among those from the index `low` up to the index `high`. The one in the middle tells which
half can hold it. -/
def searchBetween (numbers : List Nat) (wanted low high : Nat) (bound : high ≤ numbers.length) : Sought :=
  if h : low < high then
    let middle := low + (high - low) / 2
    have hmiddle : middle < numbers.length := by omega
    if numbers[middle] = wanted then .found middle
    else if numbers[middle] < wanted then searchBetween numbers wanted (middle + 1) high bound
    else searchBetween numbers wanted low middle (by omega)
  else .missing low
termination_by high - low

/-- Looks for a number among increasing numbers. -/
def search (numbers : List Nat) (wanted : Nat) : Sought :=
  searchBetween numbers wanted 0 numbers.length (Nat.le_refl _)

/-- The number of the line that holds a byte offset, where lines are numbered from zero: the one that starts there,
or else the one before the first that starts later. -/
def lineAt (starts : List Nat) (offset : Nat) : Nat :=
  match search starts offset with
  | .found line => line
  | .missing next => next - 1

end Text

/-- A place in a document: a line counted from one, and the bytes before the place on that line. -/
structure Position where
  line : Nat
  column : Nat
deriving DecidableEq, Repr

/-- The place of a byte offset in a text. -/
def Position.ofOffset (text : List Char) (offset : Nat) : Position :=
  let starts := Text.lineStarts text
  let line := Text.lineAt starts offset
  ⟨line + 1, offset - (starts[line]?.getD 0)⟩

end ThreatModel
