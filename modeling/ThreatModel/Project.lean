import ThreatModel.Text

/-!
# `Project` — the configuration of a project

A project has a name and a description, and says where its sources are, which libraries it imports and what its
repository is called.

## Contents

* `ScanRoot` — a directory to scan, with or without ignore patterns.
* `Project` — the configuration, and `Project.default`.
* `Project.fault?` — what makes a configuration unusable.
-/

namespace ThreatModel

/-- A directory to scan: its path alone, or its path with patterns for the files to leave out. -/
inductive ScanRoot where
  | plain (path : String)
  | filtered (path : String) (ignore : List String)
deriving DecidableEq, Repr

namespace ScanRoot

/-- The path of the directory. -/
def path : ScanRoot → String
  | .plain path => path
  | .filtered path _ => path

/-- The patterns for the files to leave out. -/
def ignore : ScanRoot → List String
  | .plain _ => []
  | .filtered _ ignore => ignore

end ScanRoot

/-- The configuration of a project. -/
structure Project where
  name : String
  description : String
  repositoryUrl : Option String
  /-- Directories whose stored entities are merged before scanning. -/
  imports : List String
  scanRoots : List ScanRoot
  /-- The extensions of the files to scan. -/
  extensions : List String
deriving DecidableEq, Repr

namespace Project

/-- The file that holds the configuration, in the directory of the project. -/
def fileName : String := "threatline.yaml"

/-- The directories scanned where none are configured. -/
def defaultScanRoots : List ScanRoot := [.plain "./"]

/-- The extensions scanned where none are configured. -/
def defaultExtensions : List String :=
  ["rs", "go", "c", "h", "cc", "cpp", "hpp", "cs", "java", "kt", "scala", "swift", "js", "jsx", "ts", "tsx",
    "py", "rb", "php", "sh", "sql", "lua", "yaml", "yml", "toml", "tf"]

/-- The configuration that a new project starts with. -/
def default : Project where
  name := "threatline"
  description := "A threatline project."
  repositoryUrl := none
  imports := []
  scanRoots := defaultScanRoots
  extensions := defaultExtensions

instance : Inhabited Project := ⟨default⟩

/-- What makes a configuration unusable. -/
inductive Fault where
  | blankName
  | noScanRoot
  | blankScanRoot
deriving DecidableEq, Repr

/-- The wording of a fault. -/
def Fault.message : Fault → String
  | .blankName => "project.name must not be empty"
  | .noScanRoot => "at least one scan path is required"
  | .blankScanRoot => "scan paths must not be empty"

/-- The first fault of a configuration. -/
def fault? (p : Project) : Option Fault :=
  if Text.isBlank p.name.toList then some .blankName
  else if p.scanRoots.isEmpty then some .noScanRoot
  else if p.scanRoots.any fun root => Text.isBlank root.path.toList then some .blankScanRoot
  else none

end Project
end ThreatModel
