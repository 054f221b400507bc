import ThreatModel.Json.Fault

/-!
# `Json.Reader` — document text as values

A document is read from its first character to its last. A reader takes a cursor and gives a value and the
cursor after it, or the first fault it meets. Values nest at most 127 levels deep.

## Contents

* `Cursor`, `Reader` — where a reader stands and what it does.
* `Reader.number`, `Reader.text` — scalars.
* `Reader.sequence`, `Reader.entries` — what stands between brackets, for any way of reading the items.
* `Reader.value` — any value.
* `Reader.document`, `ofText` — a whole text.
-/

namespace ThreatModel
namespace Json

/-! ## Cursors -/

/-- The text that is still to be read and the number of bytes read so far. -/
structure Cursor where
  rest : List Char
  offset : Nat
deriving DecidableEq, Repr

/-- What reads a value at a cursor. -/
abbrev Reader (α : Type) := Cursor → Except Fault (α × Cursor)

/-- The number of bytes of a text. -/
def byteLength (text : List Char) : Nat := text.foldl (fun n c => n + c.utf8Size) 0

/-- White space between the parts of a document. -/
def isLayout (c : Char) : Bool := c = ' ' || c = '\n' || c = '\t' || c = '\r'

/-- A digit. -/
def isDigit (c : Char) : Bool := '0' ≤ c && c ≤ '9'

namespace Cursor

/-- The cursor after the next character, which is one byte long. -/
def next (c : Cursor) : Cursor := ⟨c.rest.tail, c.offset + 1⟩

/-- The cursor after a number of characters, each one byte long. -/
def skip (c : Cursor) (n : Nat) : Cursor := ⟨c.rest.drop n, c.offset + n⟩

/-- The cursor after white space. -/
def skipSpace (c : Cursor) : Cursor := c.skip (c.rest.takeWhile isLayout).length

/-- The fault noticed at a cursor. -/
def fault (c : Cursor) (cause : Cause) : Fault := ⟨cause, c.offset⟩

/-- The fault noticed at the byte that follows, if one does. -/
def faultAhead (c : Cursor) (cause : Cause) : Fault :=
  ⟨cause, if c.rest.isEmpty then c.offset else c.offset + 1⟩

end Cursor

namespace Reader

/-! ## Numbers -/

/-- The greatest whole number that is kept exactly. -/
def maxWhole : Nat := 18446744073709551615

/-- A significand continued by digits as far as it stays exact, and the number of digits that are left over. -/
def absorb (significand : Nat) : List Char → Nat × Nat
  | [] => (significand, 0)
  | d :: rest =>
    let more := significand * 10 + (d.toNat - '0'.toNat)
    if maxWhole < more then (significand, rest.length + 1) else absorb more rest

/-- The floating point number nearest to a power of ten. -/
def powerOfTen (exponent : Nat) : Binary := .ofBits (nearestBits (Nat.pow 10 exponent) 1)

/-- The product of two floating point numbers, rounded. -/
def product (a b : Binary) : Nat :=
  nearestBits (a.quotient.1 * b.quotient.1) (a.quotient.2 * b.quotient.2)

/-- The quotient of two floating point numbers, rounded. -/
def ratio (a b : Binary) : Nat :=
  nearestBits (a.quotient.1 * b.quotient.2) (a.quotient.2 * b.quotient.1)

/-- Divides by `10 ^ 308` until a power of ten that is a floating point number is left. -/
def scaleDown : Nat → Nat → Int → Nat × Int
  | 0, bits, e => (bits, e)
  | fuel + 1, bits, e =>
    if -308 ≤ e || bits = 0 then (bits, e)
    else scaleDown fuel (ratio (.ofBits bits) (powerOfTen 308)) (e + 308)

/-- The floating point number `significand · 10 ^ exponent`: the significand is rounded, and the result of its
multiplication or division by a rounded power of ten is rounded again. There is none if it is too large. -/
def floatOf? (negative : Bool) (significand : Nat) (exponent : Int) : Option Number :=
  let (bits, e) := scaleDown 4 (nearestBits significand 1) exponent
  let scaled : Option Nat :=
    if bits = 0 then some 0
    else if e < 0 then some (ratio (.ofBits bits) (powerOfTen e.natAbs))
    else if e ≤ 308 then
      let result := product (.ofBits bits) (powerOfTen e.natAbs)
      if result = infinityBits then none else some result
    else none
  scaled.map fun bits => .float (if negative then signBit + bits else bits)

/-- The number of the given parts, or the fault that it is too large. -/
def floatOf (negative : Bool) (significand : Nat) (exponent : Int) : Reader Number := fun c =>
  match floatOf? negative significand exponent with
  | some n => .ok (n, c)
  | none => .error (c.fault .numberTooLarge)

/-- The greatest exponent that is told apart from larger ones. -/
def maxExponent : Nat := 2147483647

/-- An exponent continued by digits, or the number of digits after which it was too large. -/
def absorbExponent (read exponent : Nat) : List Char → Except Nat Nat
  | [] => .ok exponent
  | d :: rest =>
    let more := exponent * 10 + (d.toNat - '0'.toNat)
    if maxExponent < more then .error (read + 1) else absorbExponent (read + 1) more rest

/-- The rest of a number after its `e`. -/
def exponentPart (negative : Bool) (significand : Nat) (start : Int) : Reader Number := fun c =>
  let (down, c) : Bool × Cursor :=
    match c.rest with
    | '+' :: _ => (false, c.next)
    | '-' :: _ => (true, c.next)
    | _ => (false, c)
  match c.rest with
  | [] => .error (c.fault .endInValue)
  | d :: _ =>
    if !isDigit d then .error (c.faultAhead .badNumber)
    else
      let digits := c.rest.takeWhile isDigit
      match absorbExponent 0 0 digits with
      | .ok e =>
        let shifted := if down then start - e else start + e
        floatOf negative significand (max (-(maxExponent : Int) - 1) (min (maxExponent : Int) shifted))
          (c.skip digits.length)
      | .error read =>
        if significand ≠ 0 && !down then .error ((c.skip read).fault .numberTooLarge)
        else floatOf negative 0 0 (c.skip digits.length)

/-- The rest of a number after its point. -/
def fractionPart (negative : Bool) (significand : Nat) (start : Int) : Reader Number := fun c =>
  let digits := c.rest.takeWhile isDigit
  if digits.isEmpty then
    .error (c.faultAhead (if c.rest.isEmpty then .endInValue else .badNumber))
  else
    let (significand, left) := absorb significand digits
    let exponent := start - ((digits.length - left : Nat) : Int)
    let c := c.skip digits.length
    match c.rest with
    | 'e' :: _ | 'E' :: _ => exponentPart negative significand exponent c.next
    | _ => floatOf negative significand exponent c

/-- The rest of a number after the digits before its point, of which `left` are not part of the
significand. -/
def afterWhole (negative : Bool) (significand left : Nat) : Reader Number := fun c =>
  match c.rest with
  | '.' :: _ => fractionPart negative significand left c.next
  | 'e' :: _ | 'E' :: _ => exponentPart negative significand left c.next
  | _ =>
    if left ≠ 0 then floatOf negative significand left c
    else if !negative then .ok (.whole significand, c)
    else if significand = 0 || signBit < significand then floatOf true significand 0 c
    else .ok (.whole (-significand), c)

/-- A number after its sign. -/
def unsignedNumber (negative : Bool) : Reader Number := fun c =>
  match c.rest with
  | [] => .error (c.fault .endInValue)
  | d :: rest =>
    if !isDigit d then .error (c.faultAhead .badNumber)
    else if d = '0' then
      if rest.head?.any isDigit then .error (c.next.faultAhead .badNumber)
      else afterWhole negative 0 0 c.next
    else
      let digits := c.rest.takeWhile isDigit
      let (significand, left) := absorb 0 digits
      afterWhole negative significand left (c.skip digits.length)

/-- A number. -/
def number : Reader Number := fun c =>
  match c.rest with
  | '-' :: _ => unsignedNumber true c.next
  | _ => unsignedNumber false c

/-! ## Strings -/

/-- The value of a digit in base sixteen. -/
def hexValue? (c : Char) : Option Nat :=
  if isDigit c then some (c.toNat - '0'.toNat)
  else if 'a' ≤ c && c ≤ 'f' then some (c.toNat - 'a'.toNat + 10)
  else if 'A' ≤ c && c ≤ 'F' then some (c.toNat - 'A'.toNat + 10)
  else none

/-- The number that four digits in base sixteen stand for, at the start of a text whose first byte has the given
offset. -/
def fourDigits (offset : Nat) (text : List Char) : Except Fault Nat :=
  let digits := (text.take 4).filterMap hexValue?
  if digits.length = 4 then .ok (digits.foldl (fun n d => n * 16 + d) 0)
  else if byteLength (text.take 4) < 4 then .error ⟨.endInText, offset + byteLength text⟩
  else .error ⟨.badEscape, offset + 4⟩

/-- The character that a backslash and the given one stand for, if it takes no digits. -/
def simpleEscape? (c : Char) : Option Char :=
  match c with
  | '"' => some '"'
  | '\\' => some '\\'
  | '/' => some '/'
  | 'b' => some '\x08'
  | 'f' => some '\x0c'
  | 'n' => some '\n'
  | 'r' => some '\r'
  | 't' => some '\t'
  | _ => none

/-- Whether a code is the first half of a pair. -/
def isHighHalf (n : Nat) : Bool := 0xD800 ≤ n && n ≤ 0xDBFF

/-- Whether a code is the second half of a pair. -/
def isLowHalf (n : Nat) : Bool := 0xDC00 ≤ n && n ≤ 0xDFFF

/-- The second half of a pair, read after the first. -/
def lowHalf (offset : Nat) : List Char → Except Fault Nat
  | '\\' :: 'u' :: rest => do
    let n ← fourDigits (offset + 2) rest
    if isLowHalf n then .ok n else .error ⟨.loneSurrogate, offset + 6⟩
  | ['\\'] => .error ⟨.endInText, offset + 1⟩
  | '\\' :: _ => .error ⟨.unpairedSurrogate, offset + 2⟩
  | [] => .error ⟨.endInText, offset⟩
  | _ => .error ⟨.unpairedSurrogate, offset + 1⟩

/-- The character of an escape with digits, read after its `u`, and the number of characters that it takes. -/
def unicodeEscape (offset : Nat) (text : List Char) : Except Fault (Char × Nat) := do
  let n ← fourDigits offset text
  if isLowHalf n then .error ⟨.loneSurrogate, offset + 4⟩
  else if isHighHalf n then
    let low ← lowHalf (offset + 4) (text.drop 4)
    .ok (Char.ofNat (0x10000 + (n - 0xD800) * 1024 + (low - 0xDC00)), 10)
  else .ok (Char.ofNat n, 4)

/-- What a string holds, read after its opening quote, character by character; `fuel` bounds the number of
characters. -/
def textBody : Nat → Reader (List Char)
  | 0, c => .error (c.fault .endInText)
  | fuel + 1, c =>
    match c.rest with
    | [] => .error (c.fault .endInText)
    | '"' :: _ => .ok ([], c.next)
    | '\\' :: rest =>
      match rest with
      | [] => .error (c.next.fault .endInText)
      | 'u' :: digits => do
        let (char, taken) ← unicodeEscape (c.offset + 2) digits
        let (more, c) ← textBody fuel (c.skip (taken + 2))
        .ok (char :: more, c)
      | escape :: _ =>
        match simpleEscape? escape with
        | none => .error ⟨.badEscape, c.offset + 2⟩
        | some char => do
          let (more, c) ← textBody fuel (c.skip 2)
          .ok (char :: more, c)
    | char :: rest =>
      if char.toNat < 32 then .error (c.faultAhead .controlCharacter)
      else do
        let (more, c) ← textBody fuel ⟨rest, c.offset + char.utf8Size⟩
        .ok (char :: more, c)

/-- A string, read after its opening quote. -/
def text : Reader String := fun c => do
  let (chars, c) ← textBody (c.rest.length + 1) c
  .ok (String.ofList chars, c)

/-! ## Literals -/

/-- The remaining characters of a literal. -/
def literal : List Char → Cursor → Except Fault Cursor
  | [], c => .ok c
  | expected :: more, c =>
    match c.rest with
    | [] => .error (c.fault .endInValue)
    | char :: _ => if char = expected then literal more c.next else .error (c.faultAhead .badLiteral)

/-! ## Between brackets -/

/-- The cursor at the next item of an array, or at the closing bracket if there is none, and which of the two it
is. -/
def nextItem (first : Bool) (c : Cursor) : Except Fault (Cursor × Bool) :=
  let c := c.skipSpace
  match c.rest with
  | [] => .error (c.faultAhead .endInArray)
  | ']' :: _ => .ok (c, false)
  | char :: _ =>
    if first then .ok (c, true)
    else if char = ',' then
      let c := c.next.skipSpace
      match c.rest with
      | [] => .error (c.faultAhead .endInValue)
      | ']' :: _ => .error (c.faultAhead .trailingComma)
      | _ => .ok (c, true)
    else .error (c.faultAhead .noArrayComma)

/-- The items of an array after its opening bracket, up to its closing bracket; `fuel` bounds their number. -/
def sequence {α : Type} (item : Reader α) : Nat → Bool → Reader (List α)
  | 0, _, c => .error (c.fault .endInArray)
  | fuel + 1, first, c => do
    match ← nextItem first c with
    | (c, false) => .ok ([], c)
    | (c, true) =>
      let (head, c) ← item c
      let (tail, c) ← sequence item fuel false c
      .ok (head :: tail, c)

/-- The cursor after the colon of a member. -/
def colon (c : Cursor) : Except Fault Cursor :=
  let c := c.skipSpace
  match c.rest with
  | [] => .error (c.faultAhead .endInObject)
  | ':' :: _ => .ok c.next
  | _ => .error (c.faultAhead .noColon)

/-- The cursor inside the quotes of the next name of an object, or at the closing bracket if there is none, and
which of the two it is. -/
def nextName (first : Bool) (c : Cursor) : Except Fault (Cursor × Bool) :=
  let name (c : Cursor) : Except Fault (Cursor × Bool) :=
    if c.rest.head? = some '"' then .ok (c.next, true) else .error (c.faultAhead .nameNotText)
  let c := c.skipSpace
  match c.rest with
  | [] => .error (c.faultAhead .endInObject)
  | '\x7d' :: _ => .ok (c, false)
  | char :: _ =>
    if first then name c
    else if char = ',' then
      let c := c.next.skipSpace
      match c.rest with
      | [] => .error (c.faultAhead .endInValue)
      | '\x7d' :: _ => .error (c.faultAhead .trailingComma)
      | _ => name c
    else .error (c.faultAhead .noObjectComma)

/-- The members of an object after its opening bracket, up to its closing bracket. Each name is handed, with
what was made of the members before, to `member`, which reads on from the end of the name. -/
def entries {σ : Type} (member : σ → String → Reader σ) : Nat → Bool → σ → Reader σ
  | 0, _, _, c => .error (c.fault .endInObject)
  | fuel + 1, first, state, c => do
    match ← nextName first c with
    | (c, false) => .ok (state, c)
    | (c, true) =>
      let (name, c) ← text c
      let (state, c) ← member state name c
      entries member fuel false state c

/-- A member whose value is kept with its name, in front of the members before it. -/
def keep {α : Type} (item : Reader α) (before : List (String × α)) (name : String) :
    Reader (List (String × α)) := fun c => do
  let (value, c) ← item (← colon c)
  .ok ((name, value) :: before, c)

/-! ## Values -/

/-- How deep values may nest. -/
def maxLevels : Nat := 127

/-- A value that nests at most as many levels deep as given. -/
def value (levels : Nat) : Reader Json := fun c =>
  let c := c.skipSpace
  match c.rest with
  | [] => .error (c.faultAhead .endInValue)
  | 'n' :: _ => do .ok (.null, ← literal ['u', 'l', 'l'] c.next)
  | 't' :: _ => do .ok (.bool true, ← literal ['r', 'u', 'e'] c.next)
  | 'f' :: _ => do .ok (.bool false, ← literal ['a', 'l', 's', 'e'] c.next)
  | '"' :: _ => do
    let (s, c) ← text c.next
    .ok (.string s, c)
  | '[' :: rest =>
    match levels with
    | 0 => .error (c.faultAhead .tooDeep)
    | levels + 1 => do
      let (items, c) ← sequence (value levels) (rest.length + 1) true c.next
      .ok (.array items, c.next)
  | '\x7b' :: rest =>
    match levels with
    | 0 => .error (c.faultAhead .tooDeep)
    | levels + 1 => do
      let (members, c) ← entries (keep (value levels)) (rest.length + 1) true [] c.next
      .ok (.object members.reverse, c.next)
  | char :: _ =>
    if isDigit char || char = '-' then do
      let (n, c) ← number c
      .ok (.number n, c)
    else .error (c.faultAhead .noValue)

/-- The cursor after a document, which only white space may follow. -/
def finish (c : Cursor) : Except Fault Unit :=
  let c := c.skipSpace
  if c.rest.isEmpty then .ok () else .error (c.faultAhead .trailingText)

/-- What a reader makes of a whole text. -/
def document {α : Type} (reader : Reader α) (text : List Char) : Except Fault α := do
  let (value, c) ← reader ⟨text, 0⟩
  finish c
  .ok value

end Reader

/-- The value of a whole text. -/
def ofText (text : List Char) : Except Fault Json := Reader.document (Reader.value Reader.maxLevels) text

end Json
end ThreatModel
