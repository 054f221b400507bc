import ThreatModel.Command

/-!
# `CommandLine.Switch` — the words of a command line

A command line consists of the name of a command, of switches before and after it, and of the values of
switches. A switch is named by a word after two dashes or by a letter after one; several letters can share a
dash, and a value can be attached to either.

## Contents

* `CommandName`, `Switch` — the names, and which switches belong to which command.
* `Argument.ofText` — what an argument looks like.
* `CommandLine.Stop` — why a command line leads to no command.
-/

namespace ThreatModel

/-- The names of the commands. -/
inductive CommandName where
  | init
  | run
  | report
deriving DecidableEq, Repr

namespace CommandName

/-- The word for a command. -/
def word : CommandName → String
  | .init => "init"
  | .run => "run"
  | .report => "report"

/-- All commands. -/
def all : List CommandName := [.init, .run, .report]

/-- The command that a word names. -/
def ofWord? (word : String) : Option CommandName := all.find? fun name => name.word = word

end CommandName

/-- The word that asks for help where a command could be named. -/
def helpWord : String := "help"

/-! ## Switches -/

/-- The switches. -/
inductive Switch where
  | directory
  | logLevel
  | quiet
  | help
  | version
  | force
  | merge
  | output
deriving DecidableEq, Repr

namespace Switch

/-- The word for a switch. -/
def word : Switch → String
  | .directory => "dir"
  | .logLevel => "log-level"
  | .quiet => "quiet"
  | .help => "help"
  | .version => "version"
  | .force => "force"
  | .merge => "merge"
  | .output => "output"

/-- The letter for a switch, if it has one. -/
def letter? : Switch → Option Char
  | .directory => some 'C'
  | .quiet => some 'q'
  | .help => some 'h'
  | .version => some 'V'
  | .output => some 'o'
  | .logLevel | .force | .merge => none

/-- Whether a switch has a value. -/
def takesValue : Switch → Bool
  | .directory | .logLevel | .output => true
  | .quiet | .help | .version | .force | .merge => false

/-- Whether the value of a switch is a path, and so cannot be empty. -/
def takesPath : Switch → Bool
  | .directory | .output => true
  | _ => false

/-- The switches that mean the same before and after the name of a command. -/
def shared : List Switch := [.directory, .logLevel, .quiet, .help]

/-- The switches that can be given after the name of a command, or before any. -/
def after : Option CommandName → List Switch
  | none => shared ++ [.version]
  | some .init => shared ++ [.force]
  | some .run => shared ++ [.merge]
  | some .report => shared ++ [.output]

end Switch

/-! ## Arguments -/

/-- What an argument looks like. -/
inductive Argument where
  /-- Two dashes alone: no switch follows. -/
  | terminator
  /-- The word for a switch, with the value attached to it. -/
  | word (word : String) (value : Option String)
  /-- The letters of switches, the last of which can have its value attached. -/
  | letters (letters : List Char)
  /-- A name or a value. -/
  | plain
deriving DecidableEq, Repr

/-- What an argument looks like: it starts with two dashes, with one dash that does not stand alone, or
otherwise. -/
def Argument.ofText (text : String) : Argument :=
  match text.toList with
  | ['-', '-'] => .terminator
  | '-' :: '-' :: rest =>
    let value := match rest.dropWhile (· ≠ '=') with
      | [] => none
      | _ :: value => some (String.ofList value)
    .word (String.ofList (rest.takeWhile (· ≠ '='))) value
  | '-' :: letter :: rest => .letters (letter :: rest)
  | _ => .plain

namespace CommandLine

/-- Why a command line leads to no command. -/
inductive Stop where
  | helpWanted
  | versionWanted
  /-- The command line is empty. -/
  | nothingGiven
  /-- There are switches but no command. -/
  | commandMissing
  | unknownCommand (text : String)
  | unknownArgument (text : String)
  /-- A switch lacks its value, or cannot have the empty one. -/
  | valueMissing (switch : Switch)
  /-- A switch without a value has one attached. -/
  | valueSurplus (switch : Switch)
  /-- A switch is given twice in one place. -/
  | repeated (switch : Switch)
deriving DecidableEq, Repr

namespace Stop

/-- Whether the person at the terminal asked for nothing else. -/
def isWanted : Stop → Bool
  | .helpWanted | .versionWanted => true
  | _ => false

/-- The status the program ends with. -/
def exitCode (stop : Stop) : Nat := if stop.isWanted then 0 else 2

/-- What the person at the terminal is told, unless help or the version was asked for. -/
def message : Stop → String
  | .helpWanted | .versionWanted => ""
  | .nothingGiven | .commandMissing => "a command is required: init, run or report"
  | .unknownCommand text => "there is no command '" ++ text ++ "'"
  | .unknownArgument text => "unexpected argument '" ++ text ++ "'"
  | .valueMissing switch => "a value is required for '--" ++ switch.word ++ "'"
  | .valueSurplus switch => "'--" ++ switch.word ++ "' takes no value"
  | .repeated switch => "'--" ++ switch.word ++ "' cannot be given twice"

end Stop

end CommandLine
end ThreatModel
