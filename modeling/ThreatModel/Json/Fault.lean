import ThreatModel.Json.Printer
import ThreatModel.Text
import ThreatModel.Text.Quoted

/-!
# `Json.Fault` — what is wrong with a document

A document can be wrong in its form, so that it is no JSON at all, or hold values of another shape than its
records have. Both kinds of cause are told apart here and given their wording.

## Contents

* `Found`, `Expected`, `Mismatch` — values of the wrong shape.
* `Cause`, `Cause.category` — everything that can be wrong with a document.
* `Fault`, `Fault.message` — a cause and where it was noticed.
-/

namespace ThreatModel
namespace Json

/-! ## Values of the wrong shape -/

/-- A value as far as a message shows it. -/
inductive Found where
  | null
  | bool (value : Bool)
  | number (value : Number)
  | text (value : String)
  | sequence
  | map
deriving DecidableEq, Repr

/-- What a message shows of a value. -/
def Found.ofJson : Json → Found
  | .null => .null
  | .bool b => .bool b
  | .number n => .number n
  | .string s => .text s
  | .array _ => .sequence
  | .object _ => .map

/-- The words for a value. -/
def Found.message : Found → String
  | .null => "null"
  | .bool b => "boolean \x60" ++ (if b then "true" else "false") ++ "\x60"
  | .number (.whole n) => "integer \x60" ++ String.ofList (numberText (.whole n)) ++ "\x60"
  | .number (.float bits) => "floating point \x60" ++ String.ofList (numberText (.float bits)) ++ "\x60"
  | .text s => "string " ++ Text.quoted s
  | .sequence => "sequence"
  | .map => "map"

/-- What a place of a document is expected to hold. -/
inductive Expected where
  | text
  | map
  | sequence
  | record (title : String)
  | count
  | choice
  | nothing
deriving DecidableEq, Repr

/-- The words for an expectation. -/
def Expected.message : Expected → String
  | .text => "a string"
  | .map => "a map"
  | .sequence => "a sequence"
  | .record title => "struct " ++ title
  | .count => "usize"
  | .choice => "string or map"
  | .nothing => "unit"

/-- Why a value is not of the shape that its place asks for. -/
inductive Mismatch where
  /-- The value is of another type. -/
  | wrongType (found : Found) (expected : Expected)
  /-- A count is negative. -/
  | negative (value : Int)
  /-- A record lacks a required member. -/
  | missing (field : String)
  /-- A record has a member twice. -/
  | repeated (field : String)
  /-- A record written as a sequence ends before its required members do. -/
  | short (length : Nat) (title : String) (fields : Nat)
  /-- A record written as a sequence has more items than members. -/
  | long (length fields : Nat)
  /-- The same, for a value that is not part of a stored document. -/
  | excess (length : Nat)
  /-- A choice is none of the given words. -/
  | unknownWord (word : String) (words : List String)
  /-- A choice is written as an object that has not exactly one member. -/
  | notSingle
  /-- A value fits none of the forms in which it may be written. -/
  | noForm (title : String)
deriving DecidableEq, Repr

/-- A number of elements in words. -/
def elements (n : Nat) : String := toString n ++ (if n = 1 then " element" else " elements")

/-- The wording of a mismatch. -/
def Mismatch.message : Mismatch → String
  | .wrongType found expected => "invalid type: " ++ found.message ++ ", expected " ++ expected.message
  | .negative value =>
    "invalid value: " ++ (Found.number (.whole value)).message ++ ", expected " ++ Expected.count.message
  | .missing field => "missing field \x60" ++ field ++ "\x60"
  | .repeated field => "duplicate field \x60" ++ field ++ "\x60"
  | .short length title fields =>
    "invalid length " ++ toString length ++ ", expected struct " ++ title ++ " with " ++ elements fields
  | .long length fields =>
    "invalid length " ++ toString length ++ ", expected " ++ elements fields ++ " in sequence"
  | .excess length => "invalid length " ++ toString length ++ ", expected fewer elements in array"
  | .unknownWord word words =>
    "unknown variant \x60" ++ word ++ "\x60, expected "
      ++ " or ".intercalate (words.map fun w => "\x60" ++ w ++ "\x60")
  | .notSingle => "invalid value: map, expected map with a single key"
  | .noForm title => "data did not match any variant of untagged enum " ++ title

/-! ## Everything that can be wrong -/

/-- Why a document cannot be read. -/
inductive Cause where
  | endInArray
  | endInObject
  | endInText
  | endInValue
  | noColon
  | noArrayComma
  | noObjectComma
  | badLiteral
  | noValue
  | badEscape
  | badNumber
  | numberTooLarge
  | controlCharacter
  | nameNotText
  | loneSurrogate
  | unpairedSurrogate
  | trailingComma
  | trailingText
  | tooDeep
  | mismatch (mismatch : Mismatch)
deriving DecidableEq, Repr

/-- The wording of a cause. -/
def Cause.message : Cause → String
  | .endInArray => "EOF while parsing a list"
  | .endInObject => "EOF while parsing an object"
  | .endInText => "EOF while parsing a string"
  | .endInValue => "EOF while parsing a value"
  | .noColon => "expected \x60:\x60"
  | .noArrayComma => "expected \x60,\x60 or \x60]\x60"
  | .noObjectComma => "expected \x60,\x60 or \x60\x7d\x60"
  | .badLiteral => "expected ident"
  | .noValue => "expected value"
  | .badEscape => "invalid escape"
  | .badNumber => "invalid number"
  | .numberTooLarge => "number out of range"
  | .controlCharacter => "control character (\\u0000-\\u001F) found while parsing a string"
  | .nameNotText => "key must be a string"
  | .loneSurrogate => "lone leading surrogate in hex escape"
  | .unpairedSurrogate => "unexpected end of hex escape"
  | .trailingComma => "trailing comma"
  | .trailingText => "trailing characters"
  | .tooDeep => "recursion limit exceeded"
  | .mismatch m => m.message

/-- The categories of causes: the document ends too early, is no JSON, or has another shape. -/
inductive Category where
  | truncated
  | malformed
  | mismatched
deriving DecidableEq, Repr

/-- The category of a cause. -/
def Cause.category : Cause → Category
  | .endInArray | .endInObject | .endInText | .endInValue => .truncated
  | .mismatch _ => .mismatched
  | _ => .malformed

/-- A cause, and the number of bytes of the document that had been read when it was noticed. -/
structure Fault where
  cause : Cause
  offset : Nat
deriving DecidableEq, Repr

/-- A cause, and the place of the document where it was noticed. -/
structure LocatedFault where
  cause : Cause
  position : Position
deriving DecidableEq, Repr

/-- The fault of a document, with its place. -/
def Fault.locate (fault : Fault) (text : List Char) : LocatedFault :=
  ⟨fault.cause, Position.ofOffset text fault.offset⟩

/-- The wording of a fault with its place. -/
def LocatedFault.message (fault : LocatedFault) : String :=
  fault.cause.message ++ " at line " ++ toString fault.position.line ++ " column "
    ++ toString fault.position.column

end Json
end ThreatModel
