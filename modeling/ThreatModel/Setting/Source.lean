import ThreatModel.Setting

/-!
# `Setting.Source` — where settings come from

A source gives values for names. A name leads to a setting by the names and places in it, as in `project.name` or
`paths[0]`; a name that cannot be read like this is taken as it is. The sources are a configuration file and, over
it, variables of the environment.

## Contents

* `Path`, `Path.ofText?` — the names of settings.
* `Setting.put` — a value laid over settings.
* `Setting.ofVariable?` — the setting that a variable of the environment stands for.
* `Setting.layer` — the settings of a file and an environment.
-/

namespace ThreatModel
namespace Setting

/-! ## Names -/

/-- The way to a setting: a name, and steps from there. -/
structure Path where
  name : String
  steps : List Step
deriving DecidableEq, Repr

/-- A character of a name. -/
def isNameChar (c : Char) : Bool := c.isAlphanum || c = ' ' || c = '_' || c = '-'

/-- The number between brackets: digits that may have a sign, with spaces around them. -/
def index? (text : List Char) : Option Int :=
  let isGap (c : Char) : Bool := c = ' ' || c = '\t'
  let inner := ((text.dropWhile isGap).reverse.dropWhile isGap).reverse
  if inner.head? = some '+' then none else Yaml.signed? 10 inner

/-- The steps that a text stands for; `fuel` bounds their number. -/
def stepsOf? : Nat → List Char → Option (List Step)
  | _, [] => some []
  | fuel + 1, '.' :: rest =>
    let name := rest.takeWhile isNameChar
    if name.isEmpty then none
    else (stepsOf? fuel (rest.drop name.length)).map (.child (String.ofList name) :: ·)
  | fuel + 1, '[' :: rest =>
    let inner := rest.takeWhile (· ≠ ']')
    match index? inner, rest.drop inner.length with
    | some index, _ :: after => (stepsOf? fuel after).map (.item index :: ·)
    | _, _ => none
  | _, _ => none

/-- The way that a text describes. -/
def Path.ofText? (text : String) : Option Path :=
  let name := text.toList.takeWhile isNameChar
  if name.isEmpty then none
  else (stepsOf? text.length (text.toList.drop name.length)).map fun steps => ⟨String.ofList name, steps⟩

/-! ## Putting values in place -/

/-- The settings with a value laid over what a way leads to. -/
def putAt (path : Path) (value : Setting) (settings : Setting) : Setting :=
  match path.steps.getLast? with
  | none => assign path.name value settings
  | some last =>
    let parent := Step.child path.name :: path.steps.dropLast
    match last with
    | .child name => alterAt (assign name value) parent settings
    | .item index => alterAt (fun list => .list (alterItem index (fun _ => value) list.items)) parent settings

/-- The settings with a value laid over them under the name that a source gives it. -/
def put (settings : Setting) (entry : String × Setting) : Setting :=
  match Path.ofText? entry.1 with
  | some path => putAt path entry.2 settings
  | none => assign entry.1 entry.2 settings

/-! ## Sources -/

/-- What the names of variables of the environment that stand for settings start with. -/
def variableStart : List Char := "threatline_".toList

/-- The text with every pair of underscores replaced by a point. -/
def pointsForPairs : List Char → List Char
  | '_' :: '_' :: rest => '.' :: pointsForPairs rest
  | c :: rest => c :: pointsForPairs rest
  | [] => []

/-- The setting that a variable of the environment stands for. Its value is always a text. -/
def ofVariable? (variable_ : String × String) : Option (String × Setting) :=
  (variableStart.isPrefixOf? (Text.lowercase variable_.1).toList).map fun name =>
    (String.ofList (pointsForPairs name), .text variable_.2)

/-- The settings of a file, with those of an environment laid over them. -/
def layer (file : Setting) (environment : List (String × String)) : Setting :=
  (file.entries ++ environment.filterMap ofVariable?).foldl put (.table [])

end Setting
end ThreatModel
