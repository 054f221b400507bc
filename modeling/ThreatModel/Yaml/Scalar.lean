import ThreatModel.Yaml.Cursor

/-!
# `Yaml.Scalar` — texts in a configuration file

A scalar may go on over several lines. A line break within it stands for a space, and each empty line for a line
break; only in a block of literal lines are line breaks kept as they are.

## Contents

* `plainLine`, `plain` — scalars without quotes.
* `single`, `double` — scalars between quotes.
* `blockText` — scalars that are blocks of lines.
-/

namespace ThreatModel
namespace Yaml

/-- What stands for the end of a line that has been read, and for a number of empty lines after it. -/
def fold (empty : Nat) : List Char := if empty = 0 then [' '] else List.replicate empty '\n'

/-- The text without the white space at its end. -/
def dropBlanksAtEnd (text : List Char) : List Char := (text.reverse.dropWhile isBlank).reverse

/-! ## Without quotes -/

/-- The characters that have a meaning between brackets. -/
def isBracketing (c : Char) : Bool := c = ',' || c = '[' || c = ']' || c = '\x7b' || c = '\x7d'

/-- Whether a colon sets a key apart from a value, by what follows it. -/
def isValueNext (bracketed : Bool) (rest : List Char) : Bool :=
  rest.head?.all fun c => isBlank c || (bracketed && isBracketing c)

/-- Whether a scalar without quotes starts here. -/
def startsPlain (bracketed : Bool) : List Char → Bool
  | [] => false
  | c :: rest =>
    if isBracketing c || ['#', '&', '*', '!', '\'', '"', '%', '@', '\x60'].contains c then false
    else if c = '|' || c = '>' then bracketed
    else if c = '-' then
      !isApartNext rest && !(bracketed && rest.head?.any isBracketing)
    else if c = '?' then !isApartNext rest
    else if c = ':' then !isValueNext bracketed rest
    else true

/-- The text up to a colon before a value, a comment, or a bracket or comma between brackets. -/
def plainSpan (bracketed : Bool) : Bool → List Char → List Char
  | _, [] => []
  | afterBlank, c :: rest =>
    if (c = ':' && isValueNext bracketed rest) || (c = '#' && afterBlank) || (bracketed && isBracketing c) then []
    else c :: plainSpan bracketed (isBlank c) rest

/-- The part of a scalar without quotes that stands in one line. -/
def plainLine (bracketed : Bool) (line : List Char) : List Char :=
  dropBlanksAtEnd (plainSpan bracketed false line)

/-- The lines that go on with a scalar whose text so far ends at `here`, after a number of empty lines. Outside of
brackets they stand at or right of the limit. -/
def plainMore (bracketed : Bool) (limit : Nat) (here : Cursor) (empty : Nat) :
    List (List Char) → Option (List Char × Cursor)
  | [] => some ([], here)
  | line :: below =>
    let content := line.dropWhile isBlank
    if content.isEmpty then plainMore bracketed limit here (empty + 1) below
    else if content.head? = some '#' then some ([], here)
    else if isIndentedByTab limit line then none
    else
      let text := plainLine bracketed content
      if text.isEmpty || (!bracketed && columnOf line < limit) then some ([], here)
      else
        let after : Cursor := ⟨content.drop text.length, columnOf line + text.length, below, here.anchors⟩
        if after.rest.all isBlank then
          (plainMore bracketed limit after 0 below).map fun (more, c) => (fold empty ++ text ++ more, c)
        else some (fold empty ++ text, after)

/-- A scalar without quotes. -/
def plain (bracketed : Bool) (limit : Nat) (c : Cursor) : Option (List Char × Cursor) :=
  let text := plainLine bracketed c.rest
  let after := c.skip text.length
  if after.rest.all isBlank then
    (plainMore bracketed limit after 0 after.below).map fun (more, c) => (text ++ more, c)
  else some (text, after)

/-! ## Between quotes -/

/-- How the part of a quoted scalar that stands in one line ends. -/
inductive QuoteEnd where
  /-- With the closing quote, and with what follows it in the line. -/
  | closed (rest : List Char)
  /-- With the line. -/
  | broken
  /-- With the line, whose end does not count. -/
  | continued

/-- A part of a quoted scalar: its characters, and for each whether white space counts even at the end of a line. -/
structure QuotePart where
  chars : List (Char × Bool)
  ending : QuoteEnd

/-- A part with one more character in front. -/
def QuotePart.push (c : Char) (counts : Bool) (part : QuotePart) : QuotePart :=
  { part with chars := (c, counts) :: part.chars }

/-- The text of a part. White space before a line end does not count. -/
def QuotePart.text (part : QuotePart) : List Char :=
  match part.ending with
  | .broken => ((part.chars.reverse.dropWhile fun (c, counts) => isBlank c && !counts).reverse).map Prod.fst
  | .closed _ | .continued => part.chars.map Prod.fst

/-- The part of a scalar between single quotes that stands in one line. -/
def singleLine : List Char → QuotePart
  | [] => ⟨[], .broken⟩
  | '\'' :: '\'' :: rest => (singleLine rest).push '\'' true
  | '\'' :: rest => ⟨[], .closed rest⟩
  | c :: rest => (singleLine rest).push c false

/-- The characters that a backslash and a letter stand for. -/
def escaped? : Char → Option Char
  | '0' => some '\x00'
  | 'a' => some '\x07'
  | 'b' => some '\x08'
  | 't' | '\t' => some '\t'
  | 'n' => some '\n'
  | 'v' => some '\x0b'
  | 'f' => some '\x0c'
  | 'r' => some '\r'
  | 'e' => some '\x1b'
  | ' ' => some ' '
  | '"' => some '"'
  | '/' => some '/'
  | '\\' => some '\\'
  | 'N' => some '\x85'
  | '_' => some '\xa0'
  | 'L' => some '\u2028'
  | 'P' => some '\u2029'
  | _ => none

/-- The number of digits after a backslash and a letter that announces a character by its number. -/
def codeLength? : Char → Option Nat
  | 'x' => some 2
  | 'u' => some 4
  | 'U' => some 8
  | _ => none

/-- The character with a number. -/
def charOf? (n : Nat) : Option Char := if n.isValidChar then some (Char.ofNat n) else none

/-- The part of a scalar between double quotes that stands in one line; `fuel` bounds its length. -/
def doubleLine : Nat → List Char → Option QuotePart
  | 0, _ => none
  | _, [] => some ⟨[], .broken⟩
  | _, '"' :: rest => some ⟨[], .closed rest⟩
  | _, ['\\'] => some ⟨[], .continued⟩
  | fuel + 1, '\\' :: c :: rest =>
    match escaped? c, codeLength? c with
    | some meant, _ => (doubleLine fuel rest).map (·.push meant true)
    | none, some count => do
      let digits := rest.take count
      if digits.length < count then none
      let meant ← (natOf? 16 digits).bind charOf?
      (doubleLine fuel (rest.drop count)).map (·.push meant true)
    | none, none => none
  | fuel + 1, c :: rest => (doubleLine fuel rest).map (·.push c false)

/-- The lines that go on with a quoted scalar, after a number of empty lines; `glued` holds if the end of the line
before does not count. -/
def quotedMore (limit : Nat) (part? : List Char → Option QuotePart) (anchors : List (String × Yaml)) (glued : Bool)
    (empty : Nat) : List (List Char) → Option (List Char × Cursor)
  | [] => none
  | line :: below =>
    if isIndentedByTab limit line then none
    else
      let content := line.dropWhile isBlank
      if content.isEmpty then quotedMore limit part? anchors glued (empty + 1) below
      else if columnOf line < limit then none
      else do
        let part ← part? content
        let before := if glued then List.replicate empty '\n' else fold empty
        match part.ending with
        | .closed rest =>
          some (before ++ part.text, ⟨rest, line.length - rest.length, below, anchors⟩)
        | .broken =>
          (quotedMore limit part? anchors false 0 below).map fun (more, c) => (before ++ part.text ++ more, c)
        | .continued =>
          (quotedMore limit part? anchors true 0 below).map fun (more, c) => (before ++ part.text ++ more, c)

/-- A quoted scalar, at its opening quote. -/
def quoted (limit : Nat) (part? : List Char → Option QuotePart) (c : Cursor) : Option (List Char × Cursor) := do
  let after := c.skip 1
  let part ← part? after.rest
  match part.ending with
  | .closed rest => some (part.text, after.skip (after.rest.length - rest.length))
  | .broken =>
    (quotedMore limit part? c.anchors false 0 c.below).map fun (more, c) => (part.text ++ more, c)
  | .continued =>
    (quotedMore limit part? c.anchors true 0 c.below).map fun (more, c) => (part.text ++ more, c)

/-- A scalar between single quotes. -/
def single (limit : Nat) : Cursor → Option (List Char × Cursor) := quoted limit fun line => some (singleLine line)

/-- A scalar between double quotes. -/
def double (limit : Nat) : Cursor → Option (List Char × Cursor) :=
  quoted limit fun line => doubleLine (line.length + 1) line

/-! ## Blocks of lines -/

/-- What becomes of the line ends at the end of a block of lines. -/
inductive Chomping where
  | strip
  | clip
  | keep
deriving DecidableEq, Repr

/-- The head of a block of lines: whether lines are folded, how it ends, and how far its lines are indented if
that is said. -/
structure BlockHead where
  folded : Bool
  chomping : Chomping
  indent : Option Nat
deriving DecidableEq, Repr

/-- The head of a block of lines and the number of characters it takes. -/
def blockHead? : List Char → Option (BlockHead × Nat)
  | [] => none
  | sign :: rest =>
    let folded := sign = '>'
    let chomping? : Char → Option Chomping
      | '-' => some .strip
      | '+' => some .keep
      | _ => none
    let indent? (c : Char) : Option Nat := (digit? 10 c).filter (· ≠ 0)
    match rest with
    | a :: b :: _ =>
      match chomping? a, indent? a with
      | some chomping, _ =>
        match indent? b with
        | some n => some (⟨folded, chomping, some n⟩, 3)
        | none => some (⟨folded, chomping, none⟩, 2)
      | none, some n =>
        match chomping? b with
        | some chomping => some (⟨folded, chomping, some n⟩, 3)
        | none => some (⟨folded, .clip, some n⟩, 2)
      | none, none => some (⟨folded, .clip, none⟩, 1)
    | [a] =>
      match chomping? a, indent? a with
      | some chomping, _ => some (⟨folded, chomping, none⟩, 2)
      | none, some n => some (⟨folded, .clip, some n⟩, 2)
      | none, none => some (⟨folded, .clip, none⟩, 1)
    | [] => some (⟨folded, .clip, none⟩, 1)

/-- The number of spaces at the start of a line. -/
def spacesOf (line : List Char) : Nat := (line.takeWhile (· = ' ')).length

/-- The indentation of a block whose head does not say it: that of its first line that holds more than spaces,
but no less than that of the lines before it and no less than the limit. -/
def detectIndent (limit : Nat) (lines : List (List Char)) : Nat :=
  let leading := lines.takeWhile fun line => line.all (· = ' ')
  let first := (lines.drop leading.length).head?
  ((leading ++ first.toList).map spacesOf).foldl max limit

/-- Lines joined to a text, after a number of empty lines. Where lines are folded, the end of a line becomes a
space unless it or the next line starts with white space; `last` says whether the line before does. -/
def joinLines (folded : Bool) : Option Bool → Nat → List (List Char) → List Char
  | _, _, [] => []
  | last, empty, line :: rest =>
    if line.isEmpty then joinLines folded last (empty + 1) rest
    else
      let led := line.head?.any isBlank
      let before :=
        match last with
        | none => List.replicate empty '\n'
        | some lastLed =>
          if folded && !lastLed && !led then fold empty else '\n' :: List.replicate empty '\n'
      before ++ line ++ joinLines folded (some led) 0 rest

/-- The text of the lines of a block. -/
def BlockHead.text (head : BlockHead) (lines : List (List Char)) : List Char :=
  let trailing := (lines.reverse.takeWhile List.isEmpty).length
  let body := joinLines head.folded none 0 lines
  let lastBreak := if body.isEmpty then [] else ['\n']
  match head.chomping with
  | .strip => body
  | .clip => body ++ lastBreak
  | .keep => body ++ lastBreak ++ List.replicate trailing '\n'

/-- A scalar that is a block of lines, at its head. -/
def blockText (limit : Nat) (c : Cursor) : Option (List Char × Cursor) := do
  let (head, length) ← blockHead? c.rest
  if !(c.skip length).endsLine then none
  if (c.below.head?.bind List.head?) = some '\t' then none
  let indent := match head.indent with
    | some n => limit - 1 + n
    | none => detectIndent limit c.below
  let belongs (line : List Char) : Bool := (line.take indent).all (· = ' ')
  let lines := c.below.takeWhile belongs
  let below := c.below.drop lines.length
  let text := head.text (lines.map (·.drop indent))
  -- A first line that stands between the limit and the indentation belongs to nothing.
  if text.all (· = '\n') && below.head?.any fun line => limit ≤ spacesOf line then none
  some (text, ⟨[], 0, below, c.anchors⟩)

end Yaml
end ThreatModel
