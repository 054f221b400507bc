import ThreatModel.CommandLine

/-!
# `Program` — one execution of the program

The program gets arguments and ends with a status, with text on the standard output, and with text on the
standard error. Success is told on the one, failure on the other.

## Contents

* `Program.Outcome` — what the program ends with.
* `Program.execute` — the outcome of a command line, and the files after it.
-/

namespace ThreatModel
namespace Program

/-- What the program ends with. -/
structure Outcome where
  exitCode : Nat
  output : String
  errors : String
deriving DecidableEq, Repr

/-- Messages, each on a line of its own. -/
def linesText (messages : List String) : String := String.join (messages.map (· ++ "\n"))

/-- The version of the program. -/
def version : String := "threatline 0.1.0"

/-- How the program is used. -/
def helpText : List String :=
  ["Build a threat model from @-annotations in source comments", "",
    "Usage: threatline [OPTIONS] <COMMAND>", "",
    "Commands:",
    "  init [--force]          Create a default threatline.yaml and the threatmodel/ directory",
    "  run [--merge]           Scan the configured sources and replace the stored threat model",
    "  report [-o <FILE>]      Render the stored threat model as markdown", "",
    "Options:",
    "  -C, --dir <DIR>         Project directory holding threatline.yaml",
    "      --log-level <LEVEL> Log level: trace, debug, info, warn or error",
    "  -q, --quiet             Only log errors",
    "  -h, --help              Print help",
    "  -V, --version           Print version"]

/-- The outcome of arguments that name no command. -/
def stopped (stop : CommandLine.Stop) : Outcome :=
  match stop with
  | .helpWanted => ⟨stop.exitCode, linesText helpText, ""⟩
  | .versionWanted => ⟨stop.exitCode, linesText [version], ""⟩
  | _ => ⟨stop.exitCode, "", linesText (("error: " ++ stop.message) :: "" :: helpText)⟩

/-- The outcome of a command. -/
def finished (errorColors : Bool) : Except CommandError (List String) → Outcome
  | .ok messages => ⟨0, linesText messages, ""⟩
  | .error error => ⟨1, "", linesText [Terminal.failure errorColors error.advice]⟩

/-- Carries out the command that arguments name. Errors are styled if `errorColors` says so. -/
def execute (o : Occasion) (errorColors : Bool) (arguments : List String) (system : System := .willing) :
    StateM FileTree Outcome :=
  match CommandLine.ofArguments arguments with
  | .error stop => return stopped stop
  | .ok line => return finished errorColors (← (line.perform o system).run)

end Program
end ThreatModel
