import ThreatModel.NameMap
import ThreatModel.Text.Lowercase
import ThreatModel.Yaml

/-!
# `Setting` — settings and where they come from

A setting is a value of a configuration after all its sources have been laid over each other. The names of
settings are in lower case; a table that is laid over another one replaces only the entries that it has.

## Contents

* `Setting` — the values, and `Setting.ofYaml?`.
* `Setting.assign` — laying a value over the entries of a table.
* `Setting.alterAt` — changing what a path leads to.
* `Setting.text?`, `Setting.entry?` — what a setting says.
-/

namespace ThreatModel

/-- A value of a configuration. A floating point number is given by its 64 bits. -/
inductive Setting where
  | nothing
  | bool (value : Bool)
  | whole (value : Int)
  | real (bits : Nat)
  | text (value : String)
  | list (items : List Setting)
  | table (entries : List (String × Setting))
deriving Repr, Inhabited

namespace Setting

/-- The text of a whole number. -/
def wholeText (n : Int) : String :=
  String.ofList (if n < 0 then '-' :: Decimal.natDigits n.natAbs else Decimal.natDigits n.natAbs)

/-- The name of a key. -/
def nameOf : Key → String
  | .text value => value
  | .whole n => wholeText n

mutual

/-- The setting that a value of a configuration file stands for. The words for infinity that start with a point
stand for none. -/
def ofYaml? : Yaml → Option Setting
  | .null => some .nothing
  | .bool value => some (.bool value)
  | .whole value => some (.whole value)
  | .real digits => (Decimal.floatBits? digits.toList).map .real
  | .text value => some (.text value)
  | .sequence items => (ofItems? items).map .list
  | .mapping entries => (ofEntries? entries).map .table

/-- The settings that the items of a sequence stand for. -/
def ofItems? : List Yaml → Option (List Setting)
  | [] => some []
  | item :: rest => do return (← ofYaml? item) :: (← ofItems? rest)

/-- The entries of a table, of which a later one under the same name counts. -/
def ofEntries? : List (Key × Yaml) → Option (List (String × Setting))
  | [] => some []
  | (key, value) :: rest => do
    let first ← ofYaml? value
    return alterEntries (nameOf key) (fun later => later.getD first) (← ofEntries? rest)

end

/-! ## Laying settings over each other -/

/-- The entries of a table; nothing else has entries. -/
def entries : Setting → List (String × Setting)
  | .table entries => entries
  | _ => []

/-- The items of a list; nothing else has items. -/
def items : Setting → List Setting
  | .list items => items
  | _ => []

mutual

/-- The table with a value under a name. A table is laid over what is there; anything else takes its place. -/
def assign (name : String) (value : Setting) (target : Setting) : Setting :=
  match value with
  | .table incoming =>
    .table (alterEntries (Text.lowercase name) (fun old => assignAll incoming (.table (old.getD .nothing).entries))
      target.entries)
  | value => .table (alterEntries (Text.lowercase name) (fun _ => value) target.entries)

/-- The table with every one of the given entries laid over it. -/
def assignAll (incoming : List (String × Setting)) (target : Setting) : Setting :=
  match incoming with
  | [] => target
  | (name, value) :: rest => assignAll rest (assign name value target)

end

/-! ## Paths -/

/-- A step from a setting to a part of it. Items are counted from zero, or from the end with minus one. -/
inductive Step where
  | child (name : String)
  | item (index : Int)
deriving DecidableEq, Repr

/-- The list with one item changed. Missing items before it are nothing. -/
def alterItem (index : Int) (change : Setting → Setting) (items : List Setting) : List Setting :=
  let place := if index < 0 then items.length - index.natAbs else index.toNat
  let filled := items ++ List.replicate (place + 1 - items.length) .nothing
  filled.modify place change

/-- The setting with the part that some steps lead to changed. What stands in the way is replaced. -/
def alterAt (change : Setting → Setting) : List Step → Setting → Setting
  | [], target => change target
  | .child name :: rest, target =>
    .table (alterEntries name (fun old => alterAt change rest (old.getD .nothing)) target.entries)
  | .item index :: rest, target => .list (alterItem index (alterAt change rest) target.items)

/-! ## What settings say -/

/-- A setting taken as a text. Numbers and truth values can be. -/
def text? : Setting → Option String
  | .text value => some value
  | .bool true => some "true"
  | .bool false => some "false"
  | .whole n => some (wholeText n)
  | .real bits => some (String.ofList (Decimal.floatText bits))
  | .nothing | .list _ | .table _ => none

/-- The entry of a table under a name. -/
def entry? (name : String) (setting : Setting) : Option Setting := setting.entries.lookup name

end Setting
end ThreatModel
