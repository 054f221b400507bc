import ThreatModel.CommandLine.Switch

/-!
# `CommandLine` — commands as they are typed

A command line has two places for switches, before the name of the command and after it. Each place is read from
left to right. A switch that waits for its value takes the next argument that is no switch; the value is checked
when the next switch comes, or at the end of the place, and the place before the command ends last.

## Contents

* `CommandLine` — the type.
* `CommandLine.Given` — the switches given in one place.
* `CommandLine.readPlace` — reading one place.
* `CommandLine.ofArguments` — the command line that arguments make.
* `CommandLine.perform` — carrying it out.
-/

namespace ThreatModel

/-- A command and what applies to every command. -/
structure CommandLine where
  /-- The directory of the project. -/
  directory : String
  /-- The name of the level of log messages. -/
  logLevel : String
  /-- Whether nothing is said about success. -/
  quiet : Bool
  command : Command
deriving DecidableEq, Repr

namespace CommandLine

/-! ## Switches in one place -/

/-- The switches given in one place so far, with their values. -/
structure Given where
  values : List (Switch × String) := []
  /-- The last switch, if its value was not attached to it, and that value once it is there. -/
  waiting : Option (Switch × Option String) := none

namespace Given

/-- Whether the next argument that is no switch is the value of a switch. -/
def awaitsValue (g : Given) : Bool :=
  match g.waiting with
  | some (_, none) => true
  | _ => false

/-- A switch with its value. A switch without a value has the empty one. -/
def insert (g : Given) (switch : Switch) (value : String) : Except Stop Given :=
  if switch = .help then .error .helpWanted
  else if switch = .version then .error .versionWanted
  else if g.values.any fun entry => entry.1 = switch then .error (.repeated switch)
  else if value = "" && switch.takesPath then .error (.valueMissing switch)
  else .ok { g with values := (switch, value) :: g.values }

/-- Nothing waits any more: the value of the last switch has to be there. -/
def settle (g : Given) : Except Stop Given :=
  match g.waiting with
  | none => .ok g
  | some (switch, none) => .error (.valueMissing switch)
  | some (switch, some value) => { g with waiting := none }.insert switch value

/-- One more switch with its value. -/
def add (g : Given) (switch : Switch) (value : String) : Except Stop Given := do
  (← g.settle).insert switch value

/-- One more switch, which waits for its value. -/
def await (g : Given) (switch : Switch) : Except Stop Given := do
  .ok { (← g.settle) with waiting := some (switch, none) }

/-- One more switch, named by a word among those that are known. -/
def addWord (known : List Switch) (g : Given) (argument word : String) (value : Option String) :
    Except Stop Given :=
  match known.find? fun switch => switch.word = word with
  | none => .error (.unknownArgument argument)
  | some switch =>
    match switch.takesValue, value with
    | true, some value => g.add switch value
    | true, none => g.await switch
    | false, some _ => .error (.valueSurplus switch)
    | false, none => g.add switch ""

/-- More switches, named by letters. What follows the letter of a switch with a value is that value, after an
equals sign or at once. -/
def addLetters (known : List Switch) (g : Given) : List Char → Except Stop Given
  | [] => .ok g
  | letter :: rest =>
    match known.find? fun switch => switch.letter? = some letter with
    | none => .error (.unknownArgument (String.ofList ['-', letter]))
    | some switch =>
      match switch.takesValue, rest with
      | true, [] => g.await switch
      | true, '=' :: value => g.add switch (String.ofList value)
      | true, value => g.add switch (String.ofList value)
      | false, rest => do addLetters known (← g.add switch "") rest

end Given

/-! ## Places -/

/-- Whether a word can stand where a command is named. -/
def namesCommand (word : String) : Bool := word = helpWord || (CommandName.ofWord? word).isSome

/-- The answer to a request for help on the given words: at most one of them, which names a command. -/
def helpOn : List String → Stop
  | [] => .helpWanted
  | word :: rest =>
    if namesCommand word then
      match rest with
      | [] => .helpWanted
      | next :: _ => .unknownCommand next
    else .unknownCommand word

/-- The answer to an argument that nothing waits for. -/
def surplus (place : Option CommandName) (terminated : Bool) (argument : String) : Stop :=
  if place = none && !(terminated && namesCommand argument) then .unknownCommand argument
  else .unknownArgument argument

/-- Reads the arguments of one place: before the name of a command, or after the given one. The result holds the
name that ends the place before it, and the arguments that follow it. -/
def readPlace (place : Option CommandName) (g : Given) :
    List String → Except Stop (Given × Option (CommandName × List String))
  | [] => .ok (g, none)
  | argument :: rest =>
    let named := if place = none && !g.awaitsValue then CommandName.ofWord? argument else none
    if place = none && !g.awaitsValue && argument = helpWord then .error (helpOn rest)
    else
      match named, Argument.ofText argument with
      | some name, _ => .ok (g, some (name, rest))
      | none, .terminator =>
        match rest with
        | [] => .ok (g, none)
        | next :: _ => .error (surplus place true next)
      | none, .word word value => do
        readPlace place (← g.addWord (Switch.after place) argument word value) rest
      | none, .letters letters => do readPlace place (← g.addLetters (Switch.after place) letters) rest
      | none, .plain =>
        match g.waiting with
        | some (switch, none) => readPlace place { g with waiting := some (switch, some argument) } rest
        | _ => .error (surplus place false argument)

/-! ## Whole command lines -/

/-- The command of a name, with the switches that were given. -/
def commandOf (given : List (Switch × String)) : CommandName → Command
  | .init => .init (given.lookup .force).isSome
  | .run => .run (given.lookup .merge).isSome
  | .report => .report (given.lookup .output)

/-- The command line that arguments make. What is given after the name of the command overrides what is given
before it. -/
def ofArguments (arguments : List String) : Except Stop CommandLine := do
  match ← readPlace none {} arguments with
  | (before, none) =>
    let before ← before.settle
    .error (if before.values.isEmpty then .nothingGiven else .commandMissing)
  | (before, some (name, rest)) =>
    let (after, _) ← readPlace (some name) {} rest
    let after ← after.settle
    let before ← before.settle
    let given := after.values ++ before.values
    .ok
      { directory := (given.lookup .directory).getD "."
        logLevel := (given.lookup .logLevel).getD "info"
        quiet := (given.lookup .quiet).isSome
        command := commandOf given name }

/-! ## Carrying out -/

/-- The level of log messages: with `quiet` the last one, whatever name is given. -/
def level (line : CommandLine) : Except CommandError LogLevel :=
  if line.quiet then .ok .error else LogLevel.select line.logLevel

/-- Carries out a command line, and gives the messages that it ends with. -/
def perform (o : Occasion) (line : CommandLine) (system : System := .willing) :
    FileAction CommandError (List String) := do
  let _ ← FileAction.ofExcept line.level
  line.command.perform o line.directory line.quiet system

end CommandLine
end ThreatModel
