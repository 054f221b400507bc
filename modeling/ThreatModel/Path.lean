import ThreatModel.Text

/-!
# `Path` — the text of file paths

A path is a text whose parts are set apart by slashes. Paths keep the spelling they are given; what they have in
common is decided by their parts, in which repeated slashes and single dots after the start do not count.

## Contents

* `Part`, `parts` — the parts of a path, and `Part.before`, their order.
* `join`, `parent?`, `extension?` — putting paths together and taking them apart.
* `stripBase?` — a path relative to another one.
-/

namespace ThreatModel
namespace Path

/-! ## Parts -/

/-- A part of a path. -/
inductive Part where
  /-- The slash at the start of a path. -/
  | root
  /-- A single dot at the start of a path. -/
  | here
  /-- Two dots: the directory above. -/
  | up
  | name (text : String)
deriving DecidableEq, Repr

/-- The texts between the slashes of a path. -/
def pieces (path : String) : List String := (Text.splitOn '/' path.toList).map String.ofList

/-- The parts of a path. -/
def parts (path : String) : List Part :=
  let named := (pieces path).filterMap fun piece =>
    if piece = "" || piece = "." then none
    else if piece = ".." then some .up
    else some (.name piece)
  if path.toList.head? = some '/' then .root :: named
  else if (pieces path).head? = some "." then .here :: named
  else named

/-- The place of a part among parts of different sorts. -/
def Part.rank : Part → Nat
  | .root => 0
  | .here => 1
  | .up => 2
  | .name _ => 3

/-- The order of parts: the start of a path, then the directory above, then names. -/
def Part.before : Part → Part → Bool
  | .name a, .name b => a < b
  | a, b => a.rank < b.rank

/-- The order of lists of parts: at the first difference, or the shorter one first. -/
def partsBefore : List Part → List Part → Bool
  | _, [] => false
  | [], _ :: _ => true
  | a :: as, b :: bs => if a = b then partsBefore as bs else a.before b

/-! ## Operations -/

/-- Whether a path starts at the root. -/
def isAbsolute (path : String) : Bool := path.toList.head? = some '/'

/-- The path of `path` seen from the directory `base`. -/
def join (base path : String) : String :=
  if isAbsolute path || base = "" then path
  else if base.toList.getLast? = some '/' then base ++ path
  else base ++ "/" ++ path

/-- The text of parts. -/
def ofParts (parts : List Part) : String :=
  let word : Part → String
    | .root => ""
    | .here => "."
    | .up => ".."
    | .name text => text
  match parts with
  | [.root] => "/"
  | _ => "/".intercalate (parts.map word)

/-- The directory that holds the last part of a path; a path without parts has none. -/
def parent? (path : String) : Option String :=
  match parts path with
  | [] | [.root] => none
  | ps => some (ofParts ps.dropLast)

/-- The name at the end of a path. -/
def fileName? (path : String) : Option String :=
  match (parts path).getLast? with
  | some (.name text) => some text
  | _ => none

/-- What follows the last dot of a name, unless the name starts with that dot. -/
def extension? (path : String) : Option String := do
  let name ← fileName? path
  let reversed := name.toList.reverse
  let stem := (reversed.dropWhile (· ≠ '.')).drop 1
  if stem.isEmpty then none else some (String.ofList (reversed.takeWhile (· ≠ '.')).reverse)

/-- The parts of a path after those of a base that it starts with. -/
def stripBase? (base path : String) : Option (List Part) := (parts base).isPrefixOf? (parts path)

/-- The names among parts, with slashes between them. -/
def namesText (parts : List Part) : String :=
  "/".intercalate (parts.filterMap fun
    | .name text => some text
    | _ => none)

end Path
end ThreatModel
