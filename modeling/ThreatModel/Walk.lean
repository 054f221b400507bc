import ThreatModel.IgnoreFile

/-!
# `Walk` — the files below a directory

A walk visits the directories below a path and finds the files in them. It leaves out hidden files and directories
and what ignore files rule out: those in the directories that it visits and those in the directories above.
Rules of the innermost directory count first. The rules of a version controlled tree count only within it.

## Contents

* `Scope`, `Level`, `levelAt` — the ignore files of one directory.
* `verdict` — what the ignore files of several directories say.
* `Found`, `filesBelow` — the walk.
-/

namespace ThreatModel
namespace Walk

open IgnoreFile (Rule Verdict)

/-! ## Directories -/

/-- How a directory on the way to a path is known. -/
inductive Scope where
  /-- A directory of the walk, as it is spelled. -/
  | within (spelling : String)
  /-- A directory above the start of the walk, by the names that lead from it to the start. -/
  | above (names : List String)
deriving DecidableEq, Repr

/-- The ignore files of a directory. -/
structure Level where
  scope : Scope
  rules : List Rule
  /-- The rules that count in a version controlled tree only. -/
  treeRules : List Rule
  /-- The rules kept with the history of a version controlled tree. -/
  historyRules : List Rule
  /-- Whether a version controlled tree starts here. -/
  startsTree : Bool

/-- The ignore files of the directory at a place. -/
def levelAt (tree : FileTree) (scope : Scope) (place : Place) : Level where
  scope := scope
  rules := IgnoreFile.rulesOf tree (place ++ [".ignore"])
  treeRules := IgnoreFile.rulesOf tree (place ++ [".gitignore"])
  historyRules := IgnoreFile.rulesOf tree (place ++ [".git", "info", "exclude"])
  startsTree := (tree.get? (place ++ [".git"])).isSome

/-- The levels above a place, the innermost first. -/
def levelsAbove (tree : FileTree) (place : Place) : List Level :=
  (List.range place.length).reverse.map fun count =>
    levelAt tree (.above (place.drop count)) (place.take count)

/-! ## Verdicts -/

/-- The text without one step to the same directory at its start. -/
def dropHere : List Char → List Char
  | '.' :: '/' :: rest => rest
  | text => text

/-- A path as seen from a directory of the walk. Both are compared as they are spelled, apart from steps to the
same directory at the start: one of the directory's and two of the path's do not count. -/
def seenFrom (base path : String) : String :=
  let base := dropHere base.toList
  let path := dropHere (dropHere path.toList)
  let seen :=
    if Path.parts (String.ofList base) ≠ [.here] && path.contains '/' then
      match base.isPrefixOf? path with
      | some ('/' :: rest) => rest
      | some rest => rest
      | none => path
    else path
  String.ofList seen

/-- A path as the ignore files of a level see it; `names` lead to it from the start of the walk. -/
def Level.view (level : Level) (path : String) (names : List String) : String :=
  match level.scope with
  | .within spelling => seenFrom spelling path
  | .above outer => "/".intercalate (outer ++ names)

/-- The verdict of the first level that is not silent. -/
def firstVerdict (verdicts : List Verdict) : Verdict := verdicts.foldr Verdict.or .silent

/-- What the ignore files of some levels, the innermost first, say about a path. -/
def verdict (levels : List Level) (path : String) (names : List String) (isDirectory : Bool) : Verdict :=
  let say (rules : Level → List Rule) (level : Level) : Verdict :=
    IgnoreFile.verdictOf (rules level) (level.view path names) isDirectory
  let outside := levels.dropWhile fun level => !level.startsTree
  let inTree := if outside.isEmpty then [] else levels.take (levels.length - outside.length + 1)
  (firstVerdict (levels.map (say Level.rules))).or
    ((firstVerdict (inTree.map (say Level.treeRules))).or
      (firstVerdict (inTree.map (say Level.historyRules))))

/-- Whether a walk passes over something: if it is ruled out, or hidden and not kept by a rule. -/
def passesOver (levels : List Level) (path : String) (names : List String) (isDirectory : Bool) : Bool :=
  match verdict levels path names isDirectory with
  | .leaveOut => true
  | .keep => false
  | .silent => names.getLast?.any fun name => name.toList.head? = some '.'

/-! ## The walk -/

/-- A file that a walk finds: its path, and the names that lead to it from the start. -/
structure Found where
  path : String
  names : List String
deriving DecidableEq, Repr

/-- The files below the directory at a place, whose path and names are given; `depth` bounds how deep the walk
goes. -/
def visit (tree : FileTree) : Nat → List Level → String → List String → Place → List Found
  | 0, _, _, _, _ => []
  | depth + 1, levels, path, names, place =>
    (tree.children place).flatMap fun (name, entry) =>
      let path := Path.join path name
      let names := names ++ [name]
      let place := place ++ [name]
      if passesOver levels path names (entry = .directory) then []
      else
        match entry with
        | .file _ => [⟨path, names⟩]
        | .directory => visit tree depth (levelAt tree (.within path) place :: levels) path names place

/-- The files that a walk from a path finds: the file there, or those below the directory there. -/
def filesBelow (tree : FileTree) (start : String) : List Found :=
  match tree.locate start with
  | .error _ => []
  | .ok place =>
    match tree.get? place with
    | none => []
    | some (.file _) => [⟨start, []⟩]
    | some .directory =>
      visit tree (tree.entries.length + 1) (levelAt tree (.within start) place :: levelsAbove tree place) start [] place

end Walk
end ThreatModel
