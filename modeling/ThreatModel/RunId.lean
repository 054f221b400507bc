/-!
# `RunId` — identifiers of runs

A run is identified by sixteen random bytes, of which six bits say that they are random. They are written as
digits in base sixteen, in five groups.

## Contents

* `RunId.ofBytes` — the text of an identifier.
* `RunId.isWellFormed` — whether a text has that form.
-/

namespace ThreatModel
namespace RunId

/-- The two digits of a byte. -/
def byteDigits (b : UInt8) : List Char :=
  [Nat.digitChar (b.toNat / 16), Nat.digitChar (b.toNat % 16)]

/-- The byte at an index, with the bits that mark the identifier as random. -/
def marked (index : Nat) (b : UInt8) : UInt8 :=
  if index = 6 then (b &&& 0x0F) ||| 0x40
  else if index = 8 then (b &&& 0x3F) ||| 0x80
  else b

/-- The identifier made of the first sixteen of the given bytes. -/
def ofBytes (bytes : List UInt8) : String :=
  let groups := (bytes.take 16).zipIdx.flatMap fun (b, index) =>
    (if index ∈ [4, 6, 8, 10] then ['-'] else []) ++ byteDigits (marked index b)
  String.ofList groups

/-- Whether a character is a digit in base sixteen, in lower case. -/
def isHexDigit (c : Char) : Bool := ('0' ≤ c && c ≤ '9') || ('a' ≤ c && c ≤ 'f')

/-- Whether a text is the identifier of a run. -/
def isWellFormed (text : List Char) : Bool :=
  text.length = 36 && text.zipIdx.all fun (c, index) =>
    if index ∈ [8, 13, 18, 23] then c = '-'
    else if index = 14 then c = '4'
    else if index = 19 then c = '8' || c = '9' || c = 'a' || c = 'b'
    else isHexDigit c

end RunId
end ThreatModel
