import ThreatModel.Report
import ThreatModel.Run
import ThreatModel.Terminal

/-!
# `Command` — what the program is asked to do

A command reads and changes the files of a project and ends with messages, or fails with an error. Whatever else
it depends on is given to it: the environment, the identifier for a new run, and the time.

## Contents

* `Command`, `Occasion` — the commands, and what surrounds them.
* `Command.perform` — carrying out a command, with the messages for the person at the terminal.
-/

namespace ThreatModel

/-- The commands. -/
inductive Command where
  /-- Start a project, over an existing configuration only by force. -/
  | init (force : Bool)
  /-- Build the model from the sources and store it. -/
  | run (merge : Bool)
  /-- Write the report on the stored model. -/
  | report (output : Option String)
deriving DecidableEq, Repr

/-- What surrounds the execution of a command. -/
structure Occasion where
  environment : List (String × String)
  /-- The identifier for a run that is started. -/
  runId : String
  /-- The time, in seconds since the start of 1970. -/
  seconds : Int
  /-- Whether messages are styled. -/
  colors : Bool

namespace Command

/-! ## Starting a project -/

/-- The messages after a project was started. -/
def initMessages (colors : Bool) (path : String) : List String :=
  [Terminal.success colors ("Created " ++ path), Terminal.heading colors "Next steps",
    Terminal.tip colors "Annotate your code, e.g. // @exposes API to SQLi with string-built queries",
    Terminal.tip colors "Run 'threatline run' to build the threat model",
    Terminal.tip colors "Run 'threatline report' to write ThreatModel.md"]

/-- Starts a project in a directory: writes a configuration and creates the directory of the store. -/
def startProject (o : Occasion) (directory : String) (force : Bool) (system : System := .willing) :
    FileAction CommandError (List String) := do
  let path := Run.projectFile directory
  (Project.create path force system).adapt .project
  FileAction.createDirectories .file (Run.storeIn directory).directory system
  return initMessages o.colors path

/-! ## Running -/

/-- The messages after a run. -/
def runMessages (colors : Bool) (s : Run.Summary) : List String :=
  (if s.directives = 0 then [Terminal.warning colors "No annotations found in the configured paths"] else [])
    ++ [Terminal.success colors "Threat model updated", Terminal.heading colors "Summary"]
    ++ [("annotated blocks", s.blocks), ("directives", s.directives), ("components", s.components),
        ("controls", s.controls), ("threats", s.threats), ("relations", s.relations)].map
      fun (key, count) => Terminal.keyValue colors key (toString count)

/-- Builds the model of a project and stores it. -/
def updateModel (o : Occasion) (directory : String) (merge : Bool) (system : System := .willing) :
    FileAction CommandError (List String) := do
  let (_, summary) ← Run.perform ⟨directory, merge, o.environment, o.runId⟩ system
  return runMessages o.colors summary

/-! ## Reporting -/

/-- The report on the stored model of a project. -/
def reportText (o : Occasion) (directory : String) (tree : FileTree) : Except CommandError String := do
  let project ← (Project.load (Run.projectFile directory) o.environment tree).mapError .project
  let g ← ((Run.storeIn directory).load tree).mapError .store
  .ok (Report.render g project o.seconds)

/-- Writes the report on the stored model of a project, to a file in a directory that is created if it is
missing. -/
def writeReport (o : Occasion) (directory : String) (output : Option String) (system : System := .willing) :
    FileAction CommandError (List String) := do
  let text ← FileAction.ofExcept (reportText o directory (← get))
  let path := Path.join directory (output.getD Report.defaultFileName)
  match Path.parent? path with
  | some parent => FileAction.createDirectories .file parent system
  | none => pure ()
  FileAction.write .file path text.toUTF8 system
  return [Terminal.success o.colors ("Wrote " ++ path)]

/-! ## Any command -/

/-- Carries out a command on the project in a directory, and gives the messages that it ends with. If nothing is to
be said about success, only the start of a project is told. -/
def perform (o : Occasion) (directory : String) (quiet : Bool) (command : Command) (system : System := .willing) :
    FileAction CommandError (List String) :=
  match command with
  | .init force => startProject o directory force system
  | .run merge => do
    let messages ← updateModel o directory merge system
    return if quiet then [] else messages
  | .report output => do
    let messages ← writeReport o directory output system
    return if quiet then [] else messages

end Command
end ThreatModel
