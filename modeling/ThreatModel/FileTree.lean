import ThreatModel.Path

/-!
# `FileTree` — files and directories

A file tree holds the files and directories below one directory, by the names that lead to them. Operations take
paths as texts and fail as the operations of a file system do: a path is followed name by name, and every name
but the last has to lead to a directory.

A change of the tree can also fail for reasons that are not in the tree, such as a permission or the space that is
left. What a system refuses in this way is a parameter of every action that changes files. A file whose writing is
refused half way is left with a part of its content.

## Contents

* `Entry`, `FileTree` — the type, with `get?`, `set`, `erase`.
* `FileError` — why an operation fails.
* `locate` — the place that a path leads to.
* `read`, `write`, `createDirectory`, `rename`, `children` — the operations, as the tree alone decides them.
* `System` — what a system refuses; `System.write`, `createDirectories`, `System.rename` — the operations under a system.
* `FileAction` — computations that change a file tree, and keep their changes when they fail.
-/

namespace ThreatModel

/-- What is found at a place: a file with its bytes, or a directory. -/
inductive Entry where
  | file (content : ByteArray)
  | directory

/-- Entries are compared by what they hold. -/
instance Entry.decideEq : DecidableEq Entry
  | .file a, .file b =>
    match ByteArray.instDecidableEq a b with
    | isTrue h => isTrue (congrArg Entry.file h)
    | isFalse h => isFalse fun e => h (Entry.file.inj e)
  | .directory, .directory => isTrue rfl
  | .file _, .directory => isFalse Entry.noConfusion
  | .directory, .file _ => isFalse Entry.noConfusion

/-- The names that lead to a place, the outermost first. -/
abbrev Place := List String

/-- The entries below one directory. A tree is proper if every place occurs once, spelled by names that can stand in
paths (`FileTree.Proper`); operations keep a tree proper. Where a place occurs twice the first entry counts. -/
structure FileTree where
  entries : List (Place × Entry)

/-- Why an operation on files fails. -/
inductive FileError where
  | notFound
  | exists_
  | notDirectory
  | isDirectory
  | nameTooLong
  | notEmpty
  | zeroInName
  | notText
  /-- The system refuses the operation for a reason that is not in the tree. -/
  | refused (reason : String)
deriving DecidableEq, Repr

/-- The wording of an error. -/
def FileError.message : FileError → String
  | .notFound => "No such file or directory (os error 2)"
  | .exists_ => "File exists (os error 17)"
  | .notDirectory => "Not a directory (os error 20)"
  | .isDirectory => "Is a directory (os error 21)"
  | .nameTooLong => "File name too long (os error 36)"
  | .notEmpty => "Directory not empty (os error 39)"
  | .zeroInName => "file name contained an unexpected NUL byte"
  | .notText => "stream did not contain valid UTF-8"
  | .refused reason => reason

namespace FileTree

/-! ## Entries -/

/-- The tree of an empty directory. -/
def empty : FileTree := ⟨[]⟩

instance : Inhabited FileTree := ⟨empty⟩

/-- The entry at a place. The place of the tree itself is a directory. -/
def get? (tree : FileTree) (place : Place) : Option Entry :=
  if place = [] then some .directory else tree.entries.lookup place

/-- The tree without the entry at one place. -/
def erase (tree : FileTree) (place : Place) : FileTree :=
  ⟨tree.entries.filter fun entry => entry.1 ≠ place⟩

/-- The tree with another entry at one place. -/
def set (tree : FileTree) (place : Place) (entry : Entry) : FileTree :=
  ⟨(place, entry) :: (tree.erase place).entries⟩

/-- The tree without a place and everything below it. -/
def eraseBelow (tree : FileTree) (place : Place) : FileTree :=
  ⟨tree.entries.filter fun entry => !place.isPrefixOf entry.1⟩

/-! ## Following paths -/

/-- The place that pieces of a path lead to from a directory. The last name need not exist; all others have to be
directories. -/
def follow (tree : FileTree) (here : Place) : List String → Except FileError Place
  | [] => .ok here
  | piece :: rest =>
    if piece = "" || piece = "." then
      if tree.get? here = some .directory then tree.follow here rest else .error .notDirectory
    else if piece = ".." then
      if here = [] then .error .notFound else tree.follow here.dropLast rest
    else if 255 < piece.utf8ByteSize then .error .nameTooLong
    else
      let there := here ++ [piece]
      if rest = [] then .ok there
      else
        match tree.get? there with
        | none => if rest.all (· = "") then .ok there else .error .notFound
        | some .directory => tree.follow there rest
        | some (.file _) => .error .notDirectory

/-- The place that a path leads to. Paths from the root lead out of the tree. -/
def locate (tree : FileTree) (path : String) : Except FileError Place :=
  if path.toList.contains '\x00' then .error .zeroInName
  else if path = "" || Path.isAbsolute path then .error .notFound
  else tree.follow [] (Path.pieces path)

/-- What a path leads to, if it leads anywhere. -/
def find? (tree : FileTree) (path : String) : Option Entry :=
  match tree.locate path with
  | .ok place => tree.get? place
  | .error _ => none

/-- Whether a path leads to something. -/
def contains (tree : FileTree) (path : String) : Bool := (tree.find? path).isSome

/-- Whether a path leads to a directory. -/
def isDirectory (tree : FileTree) (path : String) : Bool := tree.find? path = some .directory

/-- Whether a path leads to a file. -/
def isFile (tree : FileTree) (path : String) : Bool :=
  match tree.find? path with
  | some (.file _) => true
  | _ => false

/-! ## Reading -/

/-- The bytes of a file. -/
def readBytes (tree : FileTree) (path : String) : Except FileError ByteArray := do
  match tree.get? (← tree.locate path) with
  | none => .error .notFound
  | some .directory => .error .isDirectory
  | some (.file content) => .ok content

/-- The text of a file. -/
def read (tree : FileTree) (path : String) : Except FileError String := do
  match String.fromUTF8? (← tree.readBytes path) with
  | some text => .ok text
  | none => .error .notText

/-- The names in a directory and what they lead to, in the order of the names. -/
def children (tree : FileTree) (place : Place) : List (String × Entry) :=
  let below := tree.entries.filterMap fun (p, entry) =>
    match place.isPrefixOf? p with
    | some [name] => some (name, entry)
    | _ => none
  below.mergeSort fun a b => a.1 ≤ b.1

/-! ## Changing -/

/-- Whether a path is written with a slash at its end. -/
def endsInSlash (path : String) : Bool := path.toList.getLast? = some '/'

/-- The tree with a file of the given content, in place of any file before. Its directory has to exist. -/
def write (tree : FileTree) (path : String) (content : ByteArray) : Except FileError FileTree := do
  let place ← tree.locate path
  match tree.get? place with
  | some .directory => .error .isDirectory
  | some (.file _) => .ok (tree.set place (.file content))
  | none => if endsInSlash path then .error .isDirectory else .ok (tree.set place (.file content))

/-- The tree with one more directory. -/
def createDirectory (tree : FileTree) (path : String) : Except FileError FileTree := do
  let place ← tree.locate path
  if (tree.get? place).isSome then .error .exists_ else .ok (tree.set place .directory)

/-- The tree with a file moved to another path, in place of any file there. -/
def rename (tree : FileTree) (source destination : String) : Except FileError FileTree := do
  let origin ← tree.locate source
  let target ← tree.locate destination
  match tree.get? origin with
  | none => .error .notFound
  | some .directory => .error .isDirectory
  | some (.file content) =>
    if tree.get? target = some .directory then .error .isDirectory
    else .ok ((tree.erase origin).set target (.file content))

end FileTree

/-! ## Systems -/

/-- A change that a system is asked for. -/
inductive Change where
  | createDirectory (path : String)
  | write (path : String) (content : ByteArray)
  | rename (source destination : String)

/-- How a system refuses a change. -/
structure Refusal where
  /-- The wording of the reason. -/
  reason : String
  /-- How many bytes of a file were written before; nothing if the file was not even opened. -/
  written : Option Nat

/-- What a system refuses for reasons that are not in the tree: a permission, the space that is left, the state of the
medium. The tree at the moment of a change tells one moment from another. -/
structure System where
  refusal? : Change → FileTree → Option Refusal

namespace System

/-- The system that refuses nothing. -/
def willing : System := ⟨fun _ _ => none⟩

/-- The tree with one more directory, unless the system refuses it. -/
def createDirectory (system : System) (tree : FileTree) (path : String) : Except FileError FileTree :=
  match system.refusal? (.createDirectory path) tree with
  | some refusal => .error (.refused refusal.reason)
  | none => tree.createDirectory path

/-- The tree with a file of the given content, and the error that stopped the writing. A file that was opened before
the system refused is left with the bytes that were written. -/
def write (system : System) (tree : FileTree) (path : String) (content : ByteArray) : FileTree × Option FileError :=
  match system.refusal? (.write path content) tree with
  | some ⟨reason, none⟩ => (tree, some (.refused reason))
  | some ⟨reason, some written⟩ =>
    match tree.write path (content.extract 0 written) with
    | .ok after => (after, some (.refused reason))
    | .error error => (tree, some error)
  | none =>
    match tree.write path content with
    | .ok after => (after, none)
    | .error error => (tree, some error)

/-- The tree with a file moved to another path, as a whole or not at all. -/
def rename (system : System) (tree : FileTree) (source destination : String) : FileTree × Option FileError :=
  match system.refusal? (.rename source destination) tree with
  | some refusal => (tree, some (.refused refusal.reason))
  | none =>
    match tree.rename source destination with
    | .ok after => (after, none)
    | .error error => (tree, some error)

end System

/-- The tree with a directory and all directories that lead to it, as far as they are missing, and the error
that stopped their creation. The parts of the path bound how many are missing. -/
def FileTree.createDirectories (tree : FileTree) (path : String) (system : System := .willing) :
    FileTree × Option FileError :=
  go (Path.parts path).length tree path
where
  /-- Creates the directory, after those above it if they are missing. -/
  go : Nat → FileTree → String → FileTree × Option FileError
    | fuel, tree, path =>
      if path = "" then (tree, none)
      else
        match system.createDirectory tree path with
        | .ok tree => (tree, none)
        | .error .notFound =>
          match fuel, Path.parent? path with
          | fuel + 1, some parent =>
            match go fuel tree parent with
            | (tree, some error) => (tree, some error)
            | (tree, none) =>
              match system.createDirectory tree path with
              | .ok tree => (tree, none)
              | .error error => (tree, if tree.isDirectory path then none else some error)
          | _, _ => (tree, some .notFound)
        | .error error => (tree, if tree.isDirectory path then none else some error)

/-! ## Actions -/

/-- Computations that read and change a file tree. What was changed before a failure stays changed. -/
abbrev FileAction (ε α : Type) := ExceptT ε (StateM FileTree) α

namespace FileAction

variable {ε α : Type}

/-- What can be seen of the tree. -/
def look (f : FileTree → α) : FileAction ε α := do return f (← get)

/-- A result that does not depend on the tree, or an error. -/
def ofExcept (result : Except ε α) : FileAction ε α :=
  match result with
  | .ok a => pure a
  | .error e => throw e

/-- A change of the tree, which ends with the error that stopped it, if any. -/
def change (wrap : FileError → ε) (f : FileTree → FileTree × Option FileError) : FileAction ε Unit := do
  let (tree, error) := f (← get)
  set tree
  match error with
  | some e => throw (wrap e)
  | none => pure ()

/-- Creates a directory and the directories that lead to it. -/
def createDirectories (wrap : FileError → ε) (path : String) (system : System := .willing) : FileAction ε Unit :=
  change wrap fun tree => tree.createDirectories path system

/-- Writes a file, in place of any file before. -/
def write (wrap : FileError → ε) (path : String) (content : ByteArray) (system : System := .willing) :
    FileAction ε Unit :=
  change wrap fun tree => system.write tree path content

/-- Moves a file, in place of any file before. -/
def rename (wrap : FileError → ε) (source destination : String) (system : System := .willing) : FileAction ε Unit :=
  change wrap fun tree => system.rename tree source destination

end FileAction
end ThreatModel
