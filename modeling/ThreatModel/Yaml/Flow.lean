import ThreatModel.Yaml.Scalar

/-!
# `Yaml.Flow` — values that do not depend on lines

Between brackets, items and entries are set apart by commas, and lines matter no longer. This module also holds what
can stand in front of any value: a name that the value is given, and a tag.

## Contents

* `Properties`, `properties?` — names and tags.
* `scalarValue` — the value of a scalar.
* `flowNode` — scalars, names of values, sequences and mappings between brackets.
-/

namespace ThreatModel
namespace Yaml

/-! ## Properties -/

/-- What stands in front of a value: a name to give it, and a tag. -/
structure Properties where
  anchor : Option String
  tag : Option Tag
deriving DecidableEq, Repr

/-- Nothing in front of a value. -/
def Properties.none : Properties := ⟨.none, .none⟩

/-- A character of a name. -/
def isNameChar (c : Char) : Bool := !isBlank c && !isBracketing c

/-- The name after the sign at the front of a line, if there is one. -/
def nameAfterSign? (line : List Char) : Option String :=
  let name := line.tail.takeWhile isNameChar
  if name.isEmpty then none else some (String.ofList name)

/-- A character of a tag. -/
def isTagChar (c : Char) : Bool := !isBlank c && '!' ≤ c && c ≤ '~'

/-- The meaning of a tag. A tag with a handle of its own would have to be declared. -/
def Tag.ofText? (text : List Char) : Option Tag :=
  match String.ofList text with
  | "!!bool" => some .bool
  | "!!int" => some .whole
  | "!!float" => some .real
  | "!!null" => some .null
  | _ =>
    match text with
    | '!' :: '<' :: rest => if rest.getLast? = some '>' then some .other else none
    | '!' :: '!' :: rest => if rest.isEmpty then none else some .other
    | '!' :: rest => if rest.contains '!' then none else some .other
    | _ => none

/-- What stands in front of a value. Name and tag come in either order, each at most once. -/
def properties? (bracketed : Bool) : Nat → Properties → Cursor → Option (Properties × Cursor)
  | 0, found, c => some (found, c)
  | fuel + 1, found, c =>
    match c.rest with
    | '&' :: _ =>
      match found.anchor, nameAfterSign? c.rest with
      | none, some name =>
        let after := c.skip (name.length + 1)
        properties? bracketed fuel { found with anchor := some name }
          (if after.endsLine then after else after.skipBlanks)
      | _, _ => none
    | '!' :: _ => do
      let text := c.rest.takeWhile fun d => isTagChar d && !(bracketed && d = ',')
      let tag ← Tag.ofText? text
      let after := c.skip text.length
      if found.tag.isSome then none
      if !(isApartNext after.rest || (bracketed && after.rest.head? = some ',')) then none
      properties? bracketed fuel { found with tag := some tag }
        (if after.endsLine then after else after.skipBlanks)
    | _ => some (found, c)

/-- The value of a scalar without quotes. -/
def scalarValue (tag : Option Tag) (text : List Char) : Yaml :=
  match tag with
  | some tag => ofTagged tag text
  | none => ofPlain text

/-- The value that a name stands for, at the sign before the name. -/
def alias? (c : Cursor) : Option (Yaml × Cursor) := do
  let name ← nameAfterSign? c.rest
  let value ← c.anchors.lookup name
  some (value, c.skip (name.length + 1))

/-! ## Brackets -/

/-- Whether a colon before a value comes next; after a quote or a bracket it need not be followed by white space. -/
def isColonNext (adjacent : Bool) (rest : List Char) : Bool :=
  match rest with
  | ':' :: after => adjacent || isValueNext true after
  | _ => false

/-- Whether a scalar between quotes, or brackets, come next; a colon may directly follow them. -/
def isClosedNext (rest : List Char) : Bool :=
  match rest with
  | c :: _ => c = '\'' || c = '"' || c = '[' || c = '\x7b'
  | [] => false

/-- The mark of a key that is given away from its value. -/
def isKeyMarkNext (rest : List Char) : Bool :=
  match rest with
  | '?' :: after => isApartNext after
  | _ => false

/-- Entries with another one in front of those under other keys. -/
def addEntry (entries : List (Key × Yaml)) (key value : Yaml) : Option (List (Key × Yaml)) := do
  let key ← key.key?
  if (entries.map Prod.fst).contains key then none
  some (entries ++ [(key, value)])

mutual

/-- A value between brackets, at its first character; `fuel` bounds how much is read. -/
def flowNode (fuel : Nat) (limit : Nat) (c : Cursor) : Option (Yaml × Cursor) :=
  match fuel with
  | 0 => none
  | fuel + 1 => do
    let (found, c) ← properties? true 2 .none c
    let c ← if found = .none then some c else c.toToken limit
    let (value, after) ← flowContent fuel limit found.tag (c.define found.anchor .null)
    some (value, after.define found.anchor value)

/-- A value between brackets, after its properties. -/
def flowContent (fuel : Nat) (limit : Nat) (tag : Option Tag) (c : Cursor) : Option (Yaml × Cursor) :=
  match fuel with
  | 0 => none
  | fuel + 1 =>
    match c.rest with
    | '[' :: _ => do
      let c ← (c.skip 1).toToken limit
      let (items, c) ← flowItems fuel limit [] c
      some (.sequence items, c)
    | '\x7b' :: _ => do
      let c ← (c.skip 1).toToken limit
      let (entries, c) ← flowEntries fuel limit [] c
      some (.mapping entries, c)
    | '*' :: _ => alias? c
    | '\'' :: _ => (single limit c).map fun (chars, c) => (.text (String.ofList chars), c)
    | '"' :: _ => (double limit c).map fun (chars, c) => (.text (String.ofList chars), c)
    | _ =>
      if startsPlain true c.rest then
        (plain true limit c).map fun (chars, c) => (scalarValue tag chars, c)
      else some (scalarValue tag [], c)

/-- The value after a colon between brackets, at the colon. -/
def flowValue (fuel : Nat) (limit : Nat) (c : Cursor) : Option (Yaml × Cursor) :=
  match fuel with
  | 0 => none
  | fuel + 1 => do
    let c ← (← c.afterColon).toToken limit
    match c.rest with
    | ',' :: _ | ']' :: _ | '\x7d' :: _ => some (.null, c)
    | _ => flowNode fuel limit c

/-- The items of a sequence up to its closing bracket, after those read already. An item may be a mapping of one
entry, whose key and colon stand in one line. -/
def flowItems (fuel : Nat) (limit : Nat) (items : List Yaml) (c : Cursor) : Option (List Yaml × Cursor) :=
  match fuel with
  | 0 => none
  | fuel + 1 =>
    match c.rest with
    | ']' :: _ => some (items, c.skip 1)
    | ',' :: _ | '\x7d' :: _ => none
    | _ => do
      let marked := isKeyMarkNext c.rest
      let start ← if marked then (c.skip 1).toToken limit else some c
      if isColonNext false start.rest then none
      let (value, after) ← flowNode fuel limit start
      let next ← after.toToken limit
      let (item, next) ←
        if isColonNext (isClosedNext start.rest) next.rest then do
          if !marked && next.below.length ≠ start.below.length then none
          let (content, c) ← flowValue fuel limit next
          let entries ← addEntry [] value content
          some (Yaml.mapping entries, ← c.toToken limit)
        else if marked then do
          let entries ← addEntry [] value .null
          some (Yaml.mapping entries, next)
        else some (value, next)
      match next.rest with
      | ',' :: _ => flowItems fuel limit (items ++ [item]) (← (next.skip 1).toToken limit)
      | ']' :: _ => some (items ++ [item], next.skip 1)
      | _ => none

/-- The entries of a mapping up to its closing bracket, after those read already. -/
def flowEntries (fuel : Nat) (limit : Nat) (entries : List (Key × Yaml)) (c : Cursor) :
    Option (List (Key × Yaml) × Cursor) :=
  match fuel with
  | 0 => none
  | fuel + 1 =>
    match c.rest with
    | '\x7d' :: _ => some (entries, c.skip 1)
    | ',' :: _ | ']' :: _ => none
    | _ => do
      let start ← if isKeyMarkNext c.rest then (c.skip 1).toToken limit else some c
      if isColonNext false start.rest then none
      let (key, after) ← flowNode fuel limit start
      let next ← after.toToken limit
      let (value, next) ←
        if isColonNext (isClosedNext start.rest) next.rest then do
          let (value, c) ← flowValue fuel limit next
          some (value, ← c.toToken limit)
        else some (Yaml.null, next)
      let entries ← addEntry entries key value
      match next.rest with
      | ',' :: _ => flowEntries fuel limit entries (← (next.skip 1).toToken limit)
      | '\x7d' :: _ => some (entries, next.skip 1)
      | _ => none

end

end Yaml
end ThreatModel
