import ThreatModel.FileTree
import ThreatModel.Project

/-!
# `Project.Error` — why a configuration cannot be used

## Contents

* `ProjectError` — the causes and their wording.
-/

namespace ThreatModel

/-- Why the configuration of a project cannot be loaded or saved. -/
inductive ProjectError where
  /-- There is no configuration file. -/
  | notFound (path : String)
  /-- There is a configuration file already. -/
  | alreadyExists (path : String)
  /-- The configuration file or the environment does not describe a project. -/
  | undecodable
  /-- The configuration describes a project that cannot be used, for the given reason. -/
  | invalid (reason : String)
  /-- A file cannot be read or written. -/
  | file (error : FileError)
deriving DecidableEq, Repr

/-- The wording of an error. -/
def ProjectError.message : ProjectError → String
  | .notFound path => "Config file not found: " ++ path
  | .alreadyExists path => "Config file already exists: " ++ path
  | .undecodable => "Parse error: the configuration does not describe a project"
  | .invalid reason => "Validation error: " ++ reason
  | .file error => "IO error: " ++ error.message

/-- A configuration as it is, if it can be used. -/
def Project.validate (p : Project) : Except ProjectError Project :=
  match p.fault? with
  | some fault => .error (.invalid fault.message)
  | none => .ok p

end ThreatModel
