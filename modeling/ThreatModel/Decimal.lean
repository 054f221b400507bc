/-!
# `Decimal` — floating point numbers as decimals

A binary floating point number is written with the fewest digits that read back as the same number, and of the
decimals with that many digits the nearest one. The digits are found in exact arithmetic: a decimal reads back
as the number if it lies in the interval of values that round to it.

## Contents

* `Binary` — a finite number as a multiple of a power of two, and `Binary.ofBits`.
* `nearestBits`, `Decimal.nearest` — the number nearest to a quotient, and to a decimal.
* `Decimal.shortest` — the shortest decimal of a number.
* `Decimal.scientific`, `Decimal.positional` — the two ways of writing it.
-/

namespace ThreatModel

/-- A finite, positive number `significand · 2 ^ exponent`; `isLowest` holds if the next number below it is only
half as far away as the next one above. -/
structure Binary where
  significand : Nat
  exponent : Int
  isLowest : Bool
deriving DecidableEq, Repr

/-- The decimal `digits · 10 ^ exponent`. -/
structure Decimal where
  digits : Nat
  exponent : Int
deriving DecidableEq, Repr

/-- The weight of the highest of 64 bits, which says that a number is negative. -/
def signBit : Nat := 0x8000000000000000

/-- The weight of the lowest of the bits that hold the exponent: the bits below it hold the fraction. -/
def exponentUnit : Nat := 0x10000000000000

/-- The absolute value of the finite number with the given 64 bits. -/
def Binary.ofBits (bits : Nat) : Binary :=
  let n := bits % signBit
  let field : Nat := n / exponentUnit
  let fraction : Nat := n % exponentUnit
  if field = 0 then ⟨fraction, -1074, false⟩
  else ⟨fraction + exponentUnit, (field : Int) - 1075, fraction = 0 && field > 1⟩

/-! ## Rounding -/

/-- The bits of infinity. -/
def infinityBits : Nat := 2047 * exponentUnit

/-- The bits of a value that is no number. -/
def nanBits : Nat := infinityBits + exponentUnit / 2

/-- The quotient of two natural numbers, rounded to the nearest whole number and to the even one of two. -/
def roundHalfEven (numerator denominator : Nat) : Nat :=
  let quotient := numerator / denominator
  let twice := 2 * (numerator - quotient * denominator)
  if denominator < twice || (twice = denominator && quotient % 2 = 1) then quotient + 1 else quotient

/-- The quotient of two natural numbers in units of a power of two. -/
def inUnits (numerator denominator : Nat) (exponent : Int) : Nat × Nat :=
  if exponent < 0 then (numerator * Nat.pow 2 exponent.natAbs, denominator)
  else (numerator, denominator * Nat.pow 2 exponent.natAbs)

/-- The bits of the floating point number nearest to a quotient of natural numbers; of two equally near ones the
one with the even significand. A quotient that is too large becomes infinity. -/
def nearestBits (numerator denominator : Nat) : Nat :=
  if numerator = 0 then 0
  else
    -- The unit in which the quotient has 53 binary digits, unless it is too small for that.
    let guess : Int := (numerator.log2 : Int) - denominator.log2 - 52
    let (n, d) := inUnits numerator denominator guess
    let fitted := if n / d < exponentUnit then guess - 1 else guess
    let exponent : Int := max (-1074) fitted
    let (n, d) := inUnits numerator denominator exponent
    let significand := roundHalfEven n d
    let bits := (exponent + 1074).toNat * exponentUnit + significand
    min bits infinityBits

/-- A finite number as a quotient of natural numbers. -/
def Binary.quotient (b : Binary) : Nat × Nat :=
  if b.exponent < 0 then (b.significand, Nat.pow 2 b.exponent.natAbs)
  else (b.significand * Nat.pow 2 b.exponent.natAbs, 1)

/-! ## Shortest decimals -/

namespace Decimal

/-- The bits of the floating point number nearest to a decimal. Decimals far outside the range of floating point
numbers are recognised by their length. -/
def nearest (d : Decimal) : Nat :=
  let length : Int := (Nat.toDigits 10 d.digits).length + d.exponent
  if d.digits = 0 || length < -400 then 0
  else if 400 < length then infinityBits
  else if d.exponent < 0 then nearestBits d.digits (Nat.pow 10 d.exponent.natAbs)
  else nearestBits (d.digits * Nat.pow 10 d.exponent.natAbs) 1

/-- A quotient of natural numbers, scaled by a power of ten. -/
def scaled (numerator denominator : Nat) (power : Int) : Nat × Nat :=
  if power < 0 then (numerator, denominator * Nat.pow 10 power.natAbs)
  else (numerator * Nat.pow 10 power.natAbs, denominator)

/-- The number of decimal places of a quotient before the point if it is one or more, else minus the number of
zeros directly after the point. -/
def magnitude (numerator denominator : Nat) : Int :=
  let whole : Nat := numerator / denominator
  if whole = 0 then
    -- The quotient is below one: scale its reciprocal instead.
    let inverse : Nat := (denominator - 1) / numerator
    1 - ((Nat.toDigits 10 inverse).length : Int)
  else ((Nat.toDigits 10 whole).length : Int)

/-- The decimal without trailing zeros in its digits. -/
def stripZeros : Nat → Decimal → Decimal
  | 0, d => d
  | fuel + 1, d =>
    if d.digits ≠ 0 && d.digits % 10 = 0 then stripZeros fuel ⟨d.digits / 10, d.exponent + 1⟩ else d

/-- Which of two equally near decimals is taken: the one with the even last digit, or the larger one. -/
inductive Tie where
  | even
  | up
deriving DecidableEq, Repr

/-- The decimal with `count` digits that is nearest to the number and lies in its rounding interval, if there is
one. Everything is measured in quarters of the unit of the significand. -/
def withDigits? (tie : Tie) (b : Binary) (count : Nat) (places : Int) : Option Decimal :=
  let (scale, unit) : Nat × Nat :=
    if b.exponent < 2 then (1, Nat.pow 2 (2 - b.exponent).toNat) else (Nat.pow 2 (b.exponent - 2).toNat, 1)
  let value := 4 * b.significand * scale
  let low := (4 * b.significand - (if b.isLowest then 1 else 2)) * scale
  let high := (4 * b.significand + 2) * scale
  let step := places - count
  let (valueNum, valueDen) := scaled value unit (-step)
  let (lowNum, lowDen) := scaled low unit (-step)
  let (highNum, highDen) := scaled high unit (-step)
  let below := valueNum / valueDen
  let closed := b.significand % 2 = 0
  let fits (digits : Nat) : Bool :=
    if closed then lowNum ≤ digits * lowDen && digits * highDen ≤ highNum
    else lowNum < digits * lowDen && digits * highDen < highNum
  let remainder := 2 * (valueNum - below * valueDen)
  let fitsBelow := below ≠ 0 && fits below
  let fitsAbove := fits (below + 1)
  let takeAbove :=
    if fitsBelow && fitsAbove then
      if remainder = valueDen then tie = .up || below % 2 = 1 else valueDen < remainder
    else fitsAbove
  if takeAbove then some ⟨below + 1, step⟩
  else if fitsBelow then some ⟨below, step⟩
  else none

/-- The shortest decimal that reads back as the number. Seventeen digits always do. -/
def shortest (tie : Tie) (b : Binary) : Decimal :=
  if b.significand = 0 then ⟨0, 0⟩
  else
    let places :=
      if b.exponent < 0 then magnitude b.significand (Nat.pow 2 b.exponent.natAbs)
      else magnitude (b.significand * Nat.pow 2 b.exponent.natAbs) 1
    let found := (List.range 17).findSome? fun count => withDigits? tie b (count + 1) places
    stripZeros 20 (found.getD ⟨0, 0⟩)

/-! ## Texts -/

/-- The text of a natural number in decimal digits. -/
def natDigits (n : Nat) : List Char := Nat.toDigits 10 n

/-- A run of zeros. -/
def zeros (n : Nat) : List Char := List.replicate n '0'

/-- A decimal written without an exponent; a whole number has no point. -/
def positional (d : Decimal) : List Char :=
  let digits := natDigits d.digits
  let point : Int := digits.length + d.exponent
  if 0 ≤ d.exponent then digits ++ zeros d.exponent.toNat
  else if 0 < point then digits.take point.toNat ++ ['.'] ++ digits.drop point.toNat
  else ['0', '.'] ++ zeros (-point).toNat ++ digits

/-- A decimal written so that it is seen to be a floating point number: positional with a point for magnitudes
from `10 ^ -5` up to below `10 ^ 16`, else with a signed exponent. -/
def scientific (d : Decimal) : List Char :=
  let digits := natDigits d.digits
  let point : Int := digits.length + d.exponent
  if d.digits = 0 then ['0', '.', '0']
  else if -5 < point && point ≤ 16 then
    if 0 ≤ d.exponent then positional d ++ ['.', '0'] else positional d
  else
    let exponent := 'e' :: (if point - 1 < 0 then '-' else '+') :: natDigits (point - 1).natAbs
    match digits with
    | [first] => first :: exponent
    | first :: rest => first :: '.' :: rest ++ exponent
    | [] => exponent

end Decimal
end ThreatModel
