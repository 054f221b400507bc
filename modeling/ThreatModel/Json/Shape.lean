import ThreatModel.Json.Skip

/-!
# `Json.Shape` — records as objects

A record is written as an object with one member per field, in the order of its fields. It is read back from an
object whose members may stand in any order, with members it does not know passed over and optional ones left
out, or from an array of its fields in order.

A shape describes the fields of a record once, for writing and for both ways of reading: from a value that is
there already, and from the text of a document.

## Contents

* `Codec` — how a value of one type is written and read; `Codec.text`, `Codec.list`, `Codec.custom`.
* `Field`, `Shape` — a record as its fields.
* `Shape.encode`, `Shape.decode` — records and values.
* `Reader.guided`, `Reader.record`, `Reader.mapOf` — records from text.
-/

namespace ThreatModel
namespace Json

/-! ## Values of one type -/

/-- Where a value that is read comes from: a stored document, or somewhere else. -/
inductive Origin where
  | stored
  | given
deriving DecidableEq, Repr

/-- What the text of a value has to look like for the value to be read. -/
inductive Guide where
  | text
  | list (item : Guide)
  | members
  | any
deriving DecidableEq, Repr

/-- How a value of one type is written and read. -/
structure Codec (α : Type) where
  guide : Guide
  encode : α → Json
  decode : Origin → Json → Except Mismatch α

namespace Codec

/-- Texts. -/
def text : Codec String where
  guide := .text
  encode := .string
  decode _
    | .string s => .ok s
    | other => .error (.wrongType (.ofJson other) .text)

/-- Lists of values. -/
def list {α : Type} (item : Codec α) : Codec (List α) where
  guide := .list item.guide
  encode values := .array (values.map item.encode)
  decode origin
    | .array items => items.mapM (item.decode origin)
    | other => .error (.wrongType (.ofJson other) .sequence)

/-- Extension slots. -/
def custom : Codec Custom where
  guide := .members
  encode slot := .object slot.members
  decode _
    | .object members => .ok (Custom.ofMembers members)
    | other => .error (.wrongType (.ofJson other) .map)

/-- Counts. -/
def count : Codec Nat where
  guide := .any
  encode n := .number (.whole n)
  decode _
    | .number (.whole n) => if n < 0 then .error (.negative n) else .ok n.toNat
    | other => .error (.wrongType (.ofJson other) .count)

/-- Choices, each of which is a word. -/
def choice {α : Type} (all : List α) (word : α → String) : Codec α where
  guide := .any
  encode a := .string (word a)
  decode origin value :=
    let pick (w : String) : Except Mismatch α :=
      match all.find? fun a => word a = w with
      | some a => .ok a
      | none => .error (.unknownWord w (all.map word))
    match value with
    | .string w => pick w
    | .object [(w, content)] => do
      let a ← pick w
      match content, origin with
      | .null, _ => .ok a
      | .object [], .stored => .ok a
      | other, _ => .error (.wrongType (.ofJson other) .nothing)
    | .object _ => .error .notSingle
    | other => .error (.wrongType (.ofJson other) .choice)

end Codec

/-! ## Records -/

/-- A field of a record: its name, whether it has to be there, and how it is written and read. -/
structure Field (σ : Type) where
  name : String
  required : Bool
  guide : Guide
  encode : σ → Json
  decode : Origin → Json → Except Mismatch (σ → σ)

/-- The field that holds a value of the type of a codec. -/
def Codec.field {α σ : Type} (codec : Codec α) (name : String) (required : Bool) (get : σ → α)
    (put : α → σ → σ) : Field σ where
  name := name
  required := required
  guide := codec.guide
  encode := fun record => codec.encode (get record)
  decode := fun origin value => (codec.decode origin value).map put

/-- A record: its title, what it is with all fields at their defaults, and its fields. -/
structure Shape (σ : Type) where
  title : String
  blank : σ
  fields : List (Field σ)

namespace Shape

variable {σ : Type}

/-- A record as an object, its members in the order of the fields. -/
def encode (shape : Shape σ) (record : σ) : Json :=
  .object (shape.fields.map fun field => (field.name, field.encode record))

/-- The field with a name. -/
def field? (shape : Shape σ) (name : String) : Option (Field σ) :=
  shape.fields.find? fun field => field.name = name

/-- Reads members into a record. The names of the members before are `seen`. -/
def decodeMembers (shape : Shape σ) (origin : Origin) (seen : List String) (record : σ) :
    List (String × Json) → Except Mismatch (σ × List String)
  | [] => .ok (record, seen)
  | (name, value) :: rest =>
    match shape.field? name with
    | none => shape.decodeMembers origin seen record rest
    | some field =>
      if seen.contains name then .error (.repeated name)
      else do
        let update ← field.decode origin value
        shape.decodeMembers origin (name :: seen) (update record) rest

/-- The record, unless a required member is not among those seen. -/
def complete (shape : Shape σ) (record : σ) (seen : List String) : Except Mismatch σ :=
  match shape.fields.find? fun field => field.required && !seen.contains field.name with
  | some field => .error (.missing field.name)
  | none => .ok record

/-- Reads the items of an array into the fields in order; fields at the end may be left out if they are not
required. The items before are `taken` in number. -/
def decodeItems (shape : Shape σ) (origin : Origin) (taken : Nat) (record : σ) :
    List (Field σ) → List Json → Except Mismatch σ
  | [], [] => .ok record
  | [], rest =>
    .error (match origin with
      | .stored => .long (taken + rest.length) taken
      | .given => .excess (taken + rest.length))
  | field :: fields, [] =>
    if field.required then .error (.short taken shape.title shape.fields.length)
    else shape.decodeItems origin (taken + 1) record fields []
  | field :: fields, value :: rest => do
    let update ← field.decode origin value
    shape.decodeItems origin (taken + 1) (update record) fields rest

/-- A record from a value. -/
def decode (shape : Shape σ) (origin : Origin) : Json → Except Mismatch σ
  | .object members => do
    let (record, seen) ← shape.decodeMembers origin [] shape.blank members
    shape.complete record seen
  | .array items => shape.decodeItems origin 0 shape.blank shape.fields items
  | other => .error (.wrongType (.ofJson other) (.record shape.title))

/-- A record as a value of a field. -/
def codec (shape : Shape σ) : Codec σ where
  guide := .any
  encode := shape.encode
  decode := shape.decode

end Shape

/-! ## Records from text -/

namespace Reader

/-- The fault that something else is expected than what starts at the cursor. A scalar is read first, an array
or object is not. -/
def mistyped (expected : Expected) (c : Cursor) : Fault :=
  let wrong (found : Found) (c : Cursor) : Fault := c.fault (.mismatch (.wrongType found expected))
  match c.rest.head? with
  | some '[' => wrong .sequence c
  | some '\x7b' => wrong .map c
  | _ =>
    match value 0 c with
    | .ok (scalar, c) => wrong (.ofJson scalar) c
    | .error fault => fault

/-- The members of an object as a list, read from after its opening bracket. -/
def membersOf (levels : Nat) : Reader Json := fun c => do
  let (members, c) ← entries (keep (value levels)) (c.rest.length + 1) true [] c
  .ok (.object members.reverse, c.next)

/-- A value that has to look as the guide says. -/
def guided (guide : Guide) (levels : Nat) : Reader Json := fun c =>
  let c := c.skipSpace
  if c.rest.isEmpty then .error (c.faultAhead .endInValue)
  else
    match guide with
    | .any => value levels c
    | .text =>
      if c.rest.head? = some '"' then do
        let (s, c) ← text c.next
        .ok (.string s, c)
      else .error (mistyped .text c)
    | .list item =>
      if c.rest.head? = some '[' then
        match levels with
        | 0 => .error (c.faultAhead .tooDeep)
        | levels + 1 => do
          let (items, c) ← sequence (guided item levels) (c.rest.length + 1) true c.next
          .ok (.array items, c.next)
      else .error (mistyped .sequence c)
    | .members =>
      if c.rest.head? = some '\x7b' then
        match levels with
        | 0 => .error (c.faultAhead .tooDeep)
        | levels + 1 => membersOf levels c.next
      else .error (mistyped .map c)

/-- The items of an array of fields, from after its opening bracket to after its closing bracket. When no field
is left the array has to end. -/
def fieldItems {σ : Type} (levels : Nat) : List (Field σ) → Bool → Reader (List Json)
  | [], _, c =>
    let c := c.skipSpace
    match c.rest with
    | [] => .error (c.faultAhead .endInArray)
    | ']' :: _ => .ok ([], c.next)
    | ',' :: _ =>
      let c := c.next.skipSpace
      .error (c.faultAhead (if c.rest.head? = some ']' then .trailingComma else .trailingText))
    | _ => .error (c.faultAhead .trailingText)
  | field :: fields, first, c => do
    match ← nextItem first c with
    | (c, false) => .ok ([], c.next)
    | (c, true) =>
      let (item, c) ← guided field.guide levels c
      let (rest, c) ← fieldItems levels fields false c
      .ok (item :: rest, c)

/-- A member of a record, read from the end of its name and kept in front of the members before it. A member
that the record does not know is passed over; one that is there already is a fault. -/
def fieldMember {σ : Type} (shape : Shape σ) (levels : Nat) (before : List (String × Json)) (name : String) :
    Reader (List (String × Json)) := fun c =>
  match shape.field? name with
  | none => do .ok (before, ← skipValue (← colon c))
  | some field =>
    if before.any fun member => member.1 = name then
      let c := c.skipSpace
      let c := if c.rest.head? = some '\x7d' then c.next else c
      .error (c.fault (.mismatch (.repeated name)))
    else keep (guided field.guide levels) before name c

/-- What a shape makes of a value that was read up to the cursor. -/
def shaped {σ : Type} (shape : Shape σ) (value : Json) : Reader σ := fun c =>
  match shape.decode .stored value with
  | .ok record => .ok (record, c)
  | .error m => .error (c.fault (.mismatch m))

/-- A record. -/
def record {σ : Type} (shape : Shape σ) (levels : Nat) : Reader σ := fun c =>
  let c := c.skipSpace
  match c.rest, levels with
  | [], _ => .error (c.faultAhead .endInValue)
  | '\x7b' :: _, 0 | '[' :: _, 0 => .error (c.faultAhead .tooDeep)
  | '\x7b' :: rest, levels + 1 => do
    let (members, c) ← entries (fieldMember shape levels) (rest.length + 1) true [] c.next
    shaped shape (.object members.reverse) c.next
  | '[' :: _, levels + 1 => do
    let (items, c) ← fieldItems levels shape.fields true c.next
    shaped shape (.array items) c
  | _, _ => .error (mistyped (.record shape.title) c)

/-- An object whose members are all of one type; of the members under one name the last one counts. -/
def mapOf {α : Type} (item : Nat → Reader α) (levels : Nat) : Reader (NameMap α) := fun c =>
  let c := c.skipSpace
  match c.rest, levels with
  | [], _ => .error (c.faultAhead .endInValue)
  | '\x7b' :: _, 0 => .error (c.faultAhead .tooDeep)
  | '\x7b' :: rest, levels + 1 => do
    let (members, c) ← entries (keep (item levels)) (rest.length + 1) true [] c.next
    .ok (NameMap.ofList members.reverse, c.next)
  | _, _ => .error (mistyped .map c)

end Reader
end Json
end ThreatModel
