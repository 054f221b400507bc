import ThreatModel.Decimal
import ThreatModel.Json

/-!
# `Json.Printer` — document values as text

Values are written over several lines: every item of an array and every member of an object stands on a line of
its own, indented by two spaces per level; an empty array or object stays on one line.

## Contents

* `escapeChar`, `textLiteral` — strings.
* `Number.text` — numbers.
* `pretty` — values.
-/

namespace ThreatModel
namespace Json

/-! ## Scalars -/

/-- The digit with the given value in base sixteen. -/
def hexDigit (n : Nat) : Char := Nat.digitChar (n % 16)

/-- A character inside a string literal. -/
def escapeChar (c : Char) : List Char :=
  if c = '"' then ['\\', '"']
  else if c = '\\' then ['\\', '\\']
  else if c = '\n' then ['\\', 'n']
  else if c = '\r' then ['\\', 'r']
  else if c = '\t' then ['\\', 't']
  else if c = '\x08' then ['\\', 'b']
  else if c = '\x0c' then ['\\', 'f']
  else if c.toNat < 32 then ['\\', 'u', '0', '0', hexDigit (c.toNat / 16), hexDigit c.toNat]
  else [c]

/-- A string literal. -/
def textLiteral (text : String) : List Char := '"' :: text.toList.flatMap escapeChar ++ ['"']

/-- Whether a floating point number carries the negative sign. -/
def isNegative (bits : Nat) : Bool := signBit ≤ bits

/-- A number: digits for a whole number, the shortest decimal for a floating point number. -/
def numberText : Number → List Char
  | .whole value =>
    if value < 0 then '-' :: Nat.toDigits 10 value.natAbs else Nat.toDigits 10 value.natAbs
  | .float bits =>
    (if isNegative bits then ['-'] else []) ++ (Decimal.shortest .even (Binary.ofBits bits)).scientific

/-! ## Values -/

/-- The start of a line at a level of indentation. -/
def newline (level : Nat) : List Char := '\n' :: List.replicate (2 * level) ' '

mutual

/-- A value that starts at the given level of indentation. -/
def pretty (level : Nat) : Json → List Char
  | .null => ['n', 'u', 'l', 'l']
  | .bool true => ['t', 'r', 'u', 'e']
  | .bool false => ['f', 'a', 'l', 's', 'e']
  | .number n => numberText n
  | .string s => textLiteral s
  | .array [] => ['[', ']']
  | .array (item :: rest) =>
    '[' :: newline (level + 1) ++ pretty (level + 1) item ++ prettyItems (level + 1) rest
      ++ newline level ++ [']']
  | .object [] => ['\x7b', '\x7d']
  | .object ((name, value) :: rest) =>
    '\x7b' :: newline (level + 1) ++ textLiteral name ++ [':', ' '] ++ pretty (level + 1) value
      ++ prettyMembers (level + 1) rest ++ newline level ++ ['\x7d']

/-- The further items of an array, each after a comma. -/
def prettyItems (level : Nat) : List Json → List Char
  | [] => []
  | item :: rest => ',' :: newline level ++ pretty level item ++ prettyItems level rest

/-- The further members of an object, each after a comma. -/
def prettyMembers (level : Nat) : List (String × Json) → List Char
  | [] => []
  | (name, value) :: rest =>
    ',' :: newline level ++ textLiteral name ++ [':', ' '] ++ pretty level value
      ++ prettyMembers level rest

end

/-- The text of a document. -/
def render (value : Json) : String := String.ofList (pretty 0 value)

end Json
end ThreatModel
