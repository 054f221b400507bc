import ThreatModel.Comment
import ThreatModel.Project
import ThreatModel.Walk

/-!
# `Scan` — the directives in the sources of a project

The files of a project are found below its scan roots, by their extensions, and read in the order of their paths.
Every comment that holds directives becomes a block.

## Contents

* `ScanError` — a pattern that cannot be used.
* `Scan.isIgnored` — the files that the patterns of a scan root leave out.
* `Scan.files` — the files to read.
* `Scan.blocks` — the blocks in them.
-/

namespace ThreatModel

/-- A pattern for files to leave out that is no pattern. -/
structure ScanError where
  pattern : String
  fault : Glob.Fault
deriving DecidableEq, Repr

/-- The wording of an error. -/
def ScanError.message (e : ScanError) : String :=
  "invalid ignore pattern '" ++ e.pattern ++ "': error parsing glob '" ++ e.pattern ++ "': " ++ e.fault.message

namespace Scan

/-! ## Files -/

/-- The patterns of a scan root. -/
def patterns (root : ScanRoot) : Except ScanError (List Glob) :=
  root.ignore.mapM fun pattern => (Glob.ofText pattern).mapError fun fault => ⟨pattern, fault⟩

/-- Whether a file is left out: a pattern matches its path below the scan root, or a part of it. -/
def isIgnored (patterns : List Glob) (names : List String) : Bool :=
  patterns.any fun pattern => pattern.accepts ("/".intercalate names) || names.any pattern.accepts

/-- An extension without the points in front of it. -/
def bareExtension (extension : String) : String := String.ofList (extension.toList.dropWhile (· = '.'))

/-- Whether a file has one of the extensions to scan. -/
def hasExtension (extensions : List String) (path : String) : Bool :=
  match Path.extension? path with
  | some extension => extensions.any fun e => bareExtension e = extension
  | none => false

/-- Paths in order, each place once, with one more; a place that is there keeps its spelling. -/
def insertPath (path : String) : List String → List String
  | [] => [path]
  | other :: rest =>
    if Path.parts path = Path.parts other then other :: rest
    else if Path.partsBefore (Path.parts path) (Path.parts other) then path :: other :: rest
    else other :: insertPath path rest

/-- The files below one scan root. A scan root that is not there has none. -/
def filesOf (directory : String) (extensions : List String) (tree : FileTree) (root : ScanRoot) :
    Except ScanError (List String) :=
  let start := Path.join directory root.path
  if tree.contains start then do
    let patterns ← patterns root
    let found := (Walk.filesBelow tree start).filter fun file =>
      hasExtension extensions file.path && !isIgnored patterns file.names
    .ok (found.map Walk.Found.path)
  else .ok []

/-- The files to scan, in the order of their paths. -/
def files (directory : String) (p : Project) (tree : FileTree) : Except ScanError (List String) := do
  let found ← p.scanRoots.mapM (filesOf directory p.extensions tree)
  .ok (found.flatten.foldl (fun files path => insertPath path files) [])

/-! ## Blocks -/

/-- The name under which a file is known: the names on its path from the directory of the project. -/
def displayName (directory path : String) : String :=
  Path.namesText ((Path.stripBase? directory path).getD (Path.parts path))

/-- The blocks with directives in a file. A file that is no text has none. -/
def blocksOf (directory : String) (tree : FileTree) (path : String) : List ScannedBlock :=
  match tree.read path with
  | .error _ => []
  | .ok text =>
    let style := Comment.Style.ofExtension ((Path.extension? path).getD "")
    let blocks := Comment.extractBlocks (displayName directory path) text.toList style
    (blocks.map Block.scan).filter fun block => !block.occurrences.isEmpty

/-- The blocks with directives in the sources of a project, in the order of the files. -/
def blocks (directory : String) (p : Project) (tree : FileTree) : Except ScanError (List ScannedBlock) := do
  .ok ((← files directory p tree).flatMap (blocksOf directory tree))

end Scan
end ThreatModel
