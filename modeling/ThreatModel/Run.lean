import ThreatModel.Command.Error
import ThreatModel.Graph
import ThreatModel.Project.Configure
import ThreatModel.Scan

/-!
# `Run` — from sources to a stored model

A run builds a model and then stores it. The model is made of what was stored before, if the run merges into it,
of the entities of imported libraries, and of the directives in the sources, in this order. Nothing is written
before the whole model is there, so that a run that fails to build it leaves all files as they are.

## Contents

* `Run` — what a run is asked to do.
* `Run.Summary` — the counts it ends with.
* `Run.model` — the model it builds.
* `Run.perform` — building and storing.
-/

namespace ThreatModel

/-- A run over the project in a directory. -/
structure Run where
  directory : String
  /-- Whether the stored model is built upon, instead of being replaced. -/
  merge : Bool
  environment : List (String × String)
  /-- The identifier of the run. -/
  runId : String

namespace Run

/-! ## Places -/

/-- The file with the configuration of the project in a directory. -/
def projectFile (directory : String) : String := Path.join directory Project.fileName

/-- The store of the project in a directory. -/
def storeIn (directory : String) : Store := ⟨Path.join directory Store.directoryName⟩

/-- The store of a library, which is imported by its directory as seen from the project. -/
def libraryStore (directory library : String) : Store := storeIn (Path.join directory library)

/-! ## Building -/

/-- The model a run starts from: the stored one if the run merges and any of its documents is there, or else an
empty one. -/
def priorModel (r : Run) (tree : FileTree) : Except CommandError Graph :=
  let store := storeIn r.directory
  if r.merge && store.holdsAny tree then (store.load tree).mapError .store else .ok (.empty r.runId)

/-- The model with the entities of one more library. -/
def importLibrary (r : Run) (tree : FileTree) (g : Graph) (library : String) : Except CommandError Graph :=
  match (libraryStore r.directory library).loadLibrary tree with
  | .ok registry => .ok (g.importLibrary registry)
  | .error error => .error (.library library error)

/-- The model with blocks merged into it, and the number of directives in them. -/
def mergeBlocks (g : Graph) (blocks : List ScannedBlock) : Graph × Nat :=
  blocks.foldl
    (fun (g, directives) block =>
      let (g, applied) := g.merge block
      (g, directives + applied)) (g, 0)

/-- The counts that a run ends with. -/
structure Summary where
  blocks : Nat
  directives : Nat
  components : Nat
  controls : Nat
  threats : Nat
  relations : Nat
deriving DecidableEq, Repr

/-- The counts of a model, and of the sources it was built from. -/
def Summary.ofModel (g : Graph) (blocks directives : Nat) : Summary where
  blocks
  directives
  components := g.registry.components.size
  controls := g.registry.controls.size
  threats := g.registry.threats.size
  relations := g.relations.size

/-- The model that a run builds. -/
def model (r : Run) (tree : FileTree) : Except CommandError (Graph × Summary) := do
  let project ← (Project.load (projectFile r.directory) r.environment tree).mapError .project
  let prior ← r.priorModel tree
  let imported ← project.imports.foldlM (r.importLibrary tree) (prior.startRun r.runId)
  let blocks ← (Scan.blocks r.directory project tree).mapError fun error => .scan error.message
  let (g, directives) := mergeBlocks imported blocks
  .ok (g, .ofModel g blocks.length directives)

/-! ## Storing -/

/-- Builds a model and stores it. -/
def perform (r : Run) (system : System := .willing) : FileAction CommandError (Graph × Summary) := do
  let (g, summary) ← FileAction.ofExcept (r.model (← get))
  ((storeIn r.directory).save g system).adapt .store
  return (g, summary)

end Run
end ThreatModel
