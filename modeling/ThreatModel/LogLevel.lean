import ThreatModel.Text.Lowercase

/-!
# `LogLevel` — how much is logged

## Contents

* `LogLevel` — the levels.
* `LogLevel.ofName` — the level of a name, in any case.
-/

namespace ThreatModel

/-- The levels of log messages, the most talkative first. -/
inductive LogLevel where
  | trace
  | debug
  | info
  | warn
  | error
deriving DecidableEq, Repr

namespace LogLevel

/-- The name of a level. -/
def name : LogLevel → String
  | .trace => "trace"
  | .debug => "debug"
  | .info => "info"
  | .warn => "warn"
  | .error => "error"

/-- All levels. -/
def all : List LogLevel := [.trace, .debug, .info, .warn, .error]

/-- The level with a name, or the name in lower case if there is none. -/
def ofName (text : String) : Except String LogLevel :=
  let lower := Text.lowercase text
  match all.find? fun level => level.name = lower with
  | some level => .ok level
  | none => .error lower

end LogLevel
end ThreatModel
