import ThreatModel.Decimal

/-!
# `Decimal.Reader` — floating point numbers from text

A number is written with digits, a point anywhere among them and an exponent, or as one of the words for infinity
and for a value that is no number. Every such text stands for the floating point number nearest to it.

## Contents

* `digits`, `value` — runs of digits.
* `floatBits?` — the number that a text stands for.
* `floatText` — the text of a number, without an exponent.
-/

namespace ThreatModel
namespace Decimal

/-- Whether a character is a digit. -/
def isDigit (c : Char) : Bool := '0' ≤ c && c ≤ '9'

/-- The number that a run of digits stands for. -/
def value (digits : List Char) : Nat := digits.foldl (fun n d => n * 10 + (d.toNat - '0'.toNat)) 0

/-- The exponent after a significand: none, or a mark followed by digits that may have a sign. -/
def exponent? : List Char → Option Int
  | [] => some 0
  | mark :: rest =>
    if mark = 'e' || mark = 'E' then
      let (down, digits) : Bool × List Char :=
        match rest with
        | '-' :: digits => (true, digits)
        | '+' :: digits => (false, digits)
        | digits => (false, digits)
      if digits.isEmpty || !digits.all isDigit then none
      else some (if down then -(value digits : Int) else value digits)
    else none

/-- The decimal that a text without sign stands for. -/
def unsigned? (text : List Char) : Option Decimal :=
  let whole := text.takeWhile isDigit
  let (fraction, rest) : List Char × List Char :=
    match text.dropWhile isDigit with
    | '.' :: rest => (rest.takeWhile isDigit, rest.dropWhile isDigit)
    | rest => ([], rest)
  if whole.isEmpty && fraction.isEmpty then none
  else (exponent? rest).map fun e => ⟨value (whole ++ fraction), e - fraction.length⟩

/-- The bits of the floating point number that a text stands for. Words count in any mixture of cases. -/
def floatBits? (text : List Char) : Option Nat :=
  let (negative, size) : Bool × List Char :=
    match text with
    | '-' :: size => (true, size)
    | '+' :: size => (false, size)
    | size => (false, size)
  let word := String.ofList (size.map Char.toLower)
  let magnitude : Option Nat :=
    if word = "inf" || word = "infinity" then some infinityBits
    else if word = "nan" then some nanBits
    else (unsigned? size).map nearest
  magnitude.map fun bits => if negative then signBit + bits else bits

/-- A floating point number written without an exponent. -/
def floatText (bits : Nat) : List Char :=
  let size := bits % signBit
  if infinityBits < size then ['N', 'a', 'N']
  else
    let sign := if signBit ≤ bits then ['-'] else []
    if size = infinityBits then sign ++ ['i', 'n', 'f']
    else sign ++ (shortest .up (Binary.ofBits size)).positional

end Decimal
end ThreatModel
