import ThreatModel.LogLevel
import ThreatModel.Project.Error
import ThreatModel.Store

/-!
# `Command.Error` — why a command fails

An error has a short wording for logs and a longer one for the person at the terminal, which says what to do
next.

## Contents

* `CommandError`, with `message` and `advice`.
* `LogLevel.select` — the level named on the command line.
-/

namespace ThreatModel

/-- Why a command fails. -/
inductive CommandError where
  | invalidArgument (reason : String)
  | file (error : FileError)
  | project (error : ProjectError)
  | store (error : StoreError)
  /-- A library that the project imports cannot be loaded. -/
  | library (name : String) (error : StoreError)
  | scan (reason : String)
  | internal (reason : String)
deriving DecidableEq, Repr

namespace CommandError

/-- The short wording of an error. -/
def message : CommandError → String
  | .invalidArgument reason => "Invalid argument: " ++ reason
  | .file error => "IO error: " ++ error.message
  | .project error => "Configuration error: " ++ error.message
  | .store error => "Threat model error: " ++ error.message
  | .library name error => "Failed to import library " ++ name ++ ": " ++ error.message
  | .scan reason => "Scan error: " ++ reason
  | .internal reason => "Internal error: " ++ reason

/-- What the person at the terminal is told. -/
def advice : CommandError → String
  | .invalidArgument reason =>
    "Invalid argument: " ++ reason ++ "\n\nRun 'threatline --help' for usage information."
  | .file error => "File operation failed: " ++ error.message
  | .project (.notFound path) =>
    "No configuration found at " ++ path ++ "\n\nRun 'threatline init' to create one."
  | .project (.alreadyExists path) =>
    "Configuration already exists at " ++ path
      ++ "\n\nUse 'threatline init --force' to overwrite it."
  | .project error => "Configuration error: " ++ error.message ++ "\n\nCheck threatline.yaml."
  | .store (.missing document path) =>
    (StoreError.missing document path).message
      ++ "\n\nRun 'threatline run' to generate the threat model first."
  | .store (.corrupt document fault) =>
    document.fileName ++ " could not be decoded: " ++ fault.message
      ++ "\n\nRestore it from version control or delete the threatmodel/ directory and run again."
  | .store error => "Threat model error: " ++ error.message
  | .library name error =>
    if error.isMissing then
      "Import '" ++ name ++ "' has no stored threat model: " ++ error.message
        ++ "\n\nCheck the imports list in threatline.yaml."
    else "Failed to import library '" ++ name ++ "': " ++ error.message
  | .scan reason => "Source scan failed: " ++ reason
  | .internal reason => "Internal error: " ++ reason ++ "\n\nPlease report this issue."

end CommandError

/-- The log level named on the command line. -/
def LogLevel.select (name : String) : Except CommandError LogLevel :=
  match LogLevel.ofName name with
  | .ok level => .ok level
  | .error lower =>
    .error (.invalidArgument
      ("unknown log level '" ++ lower ++ "' (expected trace, debug, info, warn or error)"))

end ThreatModel
