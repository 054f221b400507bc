import ThreatModel.Decimal.Reader

/-!
# `Yaml` — the values of a configuration file

A configuration file is a YAML document: scalars, sequences, and mappings from keys to values. An unquoted scalar
stands for the kind of value that it looks like; every other scalar is a text.

## Contents

* `Key`, `Yaml` — the values.
* `whole?` — the whole numbers among unquoted scalars.
* `isReal` — the floating point numbers among them.
* `ofPlain`, `ofTagged` — the value of a scalar, by its looks or by its tag.
-/

namespace ThreatModel

/-- A key of a mapping. -/
inductive Key where
  | text (value : String)
  | whole (value : Int)
deriving DecidableEq, Repr, Inhabited

/-- A value of a configuration file. A floating point number keeps its text. -/
inductive Yaml where
  | null
  | bool (value : Bool)
  | whole (value : Int)
  | real (text : String)
  | text (value : String)
  | sequence (items : List Yaml)
  | mapping (entries : List (Key × Yaml))
deriving Repr, Inhabited

namespace Yaml

/-- The value as a key. Only texts and whole numbers are keys. -/
def key? : Yaml → Option Key
  | .text value => some (.text value)
  | .whole value => some (.whole value)
  | _ => none

/-! ## Whole numbers -/

/-- The value of a digit in a base of at most sixteen. -/
def digit? (base : Nat) (c : Char) : Option Nat :=
  let value : Nat :=
    if Decimal.isDigit c then c.toNat - '0'.toNat
    else if 'a' ≤ c && c ≤ 'f' then c.toNat - 'a'.toNat + 10
    else if 'A' ≤ c && c ≤ 'F' then c.toNat - 'A'.toNat + 10
    else base
  if value < base then some value else none

/-- The number that digits stand for in a base. -/
def natOf? (base : Nat) (digits : List Char) : Option Nat :=
  if digits.isEmpty then none
  else digits.foldlM (fun n c => (digit? base c).map (n * base + ·)) 0

/-- The whole number that a text stands for in a base: digits that may have a sign, with a value of 64 bits. -/
def signed? (base : Nat) (text : List Char) : Option Int :=
  let number : Option Int :=
    match text with
    | '-' :: digits => (natOf? base digits).map fun n => -(n : Int)
    | '+' :: digits => (natOf? base digits).map Int.ofNat
    | digits => (natOf? base digits).map Int.ofNat
  number.filter fun n => -(signBit : Int) ≤ n && n < signBit

/-- The whole number that an unquoted scalar stands for: in base sixteen after `0x`, in base eight after `0o`,
else in base ten. -/
def whole? (text : List Char) : Option Int :=
  let prefixed : Option Int :=
    match text with
    | '0' :: 'x' :: rest => signed? 16 rest
    | '0' :: 'o' :: rest => signed? 8 rest
    | '+' :: rest => signed? 10 rest
    | _ => none
  prefixed.or (signed? 10 text)

/-! ## Scalars -/

/-- The words for infinity and for a value that is no number. -/
def specialReals : List String :=
  [".inf", ".Inf", ".INF", "+.inf", "+.Inf", "+.INF", "-.inf", "-.Inf", "-.INF", ".nan", ".NaN", ".NAN"]

/-- Whether an unquoted scalar stands for a floating point number. -/
def isReal (text : List Char) : Bool :=
  specialReals.contains (String.ofList text) || (Decimal.floatBits? text).isSome

/-- The value that an unquoted scalar stands for. -/
def ofPlain (text : List Char) : Yaml :=
  match String.ofList text with
  | "" | "~" | "null" => .null
  | "true" => .bool true
  | "false" => .bool false
  | word =>
    match whole? text with
    | some n => .whole n
    | none => if isReal text then .real word else .text word

/-- A tag: a mark for the kind of a value. -/
inductive Tag where
  | bool
  | whole
  | real
  | null
  /-- Any other tag; a scalar that has it is a text. -/
  | other
deriving DecidableEq, Repr

/-- The value that an unquoted scalar with a tag stands for; null if it does not look like one of that kind. -/
def ofTagged (tag : Tag) (text : List Char) : Yaml :=
  match tag with
  | .bool => if text = ['t', 'r', 'u', 'e'] then .bool true
    else if text = ['f', 'a', 'l', 's', 'e'] then .bool false
    else .null
  | .whole => ((signed? 10 text).map Yaml.whole).getD .null
  | .real => if isReal text then .real (String.ofList text) else .null
  | .null => .null
  | .other => .text (String.ofList text)

end Yaml
end ThreatModel
