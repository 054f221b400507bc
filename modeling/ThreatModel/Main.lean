import Std.Data.HashMap
import Std.Time.DateTime.Timestamp
import ThreatModel.Program
import ThreatModel.RunId

/-!
# `Main` — the program at a terminal

The program sees the files and directories below the directory it is started in. It reads them, works out the
outcome, and then brings the files up to what they are afterwards.

## Contents

* `loadEntries`, `storeChanges` — the files before and after.
* `readEnvironment` — the environment.
* `main` — the program.
-/

namespace ThreatModel
namespace Main

/-- The tree with everything that the entries of a directory lead to. Links and files that cannot be read are
left out. -/
partial def loadEntries (place : Place) (tree : FileTree) (found : Array IO.FS.DirEntry) : IO FileTree :=
  found.foldlM
    (fun tree entry => do
      let there := place ++ [entry.fileName]
      try
        match (← entry.path.symlinkMetadata).type with
        | .dir => loadEntries there ⟨(there, .directory) :: tree.entries⟩ (← entry.path.readDir)
        | .file => return ⟨(there, .file (← IO.FS.readBinFile entry.path)) :: tree.entries⟩
        | _ => return tree
      catch _ => return tree) tree

/-- Makes files and directories what they are afterwards. A file is written beside its place and then moved
there. -/
def storeChanges (before after : FileTree) : IO Unit := do
  let old := Std.HashMap.ofList before.entries
  let new := Std.HashMap.ofList after.entries
  for (place, _) in before.entries do
    if !new.contains place then IO.FS.removeFile ("/".intercalate place)
  let changed := after.entries.filter fun (place, entry) => old[place]? ≠ some entry
  for (place, entry) in changed.mergeSort fun a b => a.1.length ≤ b.1.length do
    let path := "/".intercalate place
    match entry with
    | .directory => IO.FS.createDirAll path
    | .file content =>
      IO.FS.writeBinFile (path ++ ".part") content
      IO.FS.rename (path ++ ".part") path

/-- The variables in a list of assignments, each of which ends with a null character. -/
def variablesOf (assignments : String) : List (String × String) :=
  (Text.splitOn '\x00' assignments.toList).filterMap fun assignment =>
    match assignment.dropWhile (· ≠ '=') with
    | [] => none
    | _ :: value => some (String.ofList (assignment.takeWhile (· ≠ '=')), String.ofList value)

/-- The environment. -/
def readEnvironment : IO (List (String × String)) := do
  try
    let assignments ← IO.FS.readBinFile "/proc/self/environ"
    return variablesOf ((String.fromUTF8? assignments).getD "")
  catch _ => return []

/-- What surrounds this execution. -/
def occasion : IO Occasion := do
  return {
    environment := ← readEnvironment
    runId := RunId.ofBytes (← IO.getRandomBytes 16).toList
    seconds := (← Std.Time.Timestamp.now).toSecondsSinceUnixEpoch.val
    colors := ← (← IO.getStdout).isTty }

end Main
end ThreatModel

open ThreatModel in
/-- Carries out the command that the arguments name. -/
def main (arguments : List String) : IO UInt32 := do
  let before ← Main.loadEntries [] FileTree.empty (← (← IO.currentDir).readDir)
  let errors ← IO.getStderr
  let (outcome, after) := (Program.execute (← Main.occasion) (← errors.isTty) arguments).run before
  Main.storeChanges before after
  (← IO.getStdout).putStr outcome.output
  errors.putStr outcome.errors
  return outcome.exitCode.toUInt32
