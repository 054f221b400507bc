import ThreatModel.FileTree
import ThreatModel.Glob.Reader
import ThreatModel.Text

/-!
# `IgnoreFile` — files that say what not to scan

A line of an ignore file is a rule about paths: what it leaves out, or, after an exclamation mark, what it keeps.
The last rule that a path matches decides. A rule without a slash inside is about the last part of a path, any
other rule about the path as seen from the directory of the file.

## Contents

* `Rule`, `Rule.ofLine?` — rules.
* `rulesOf` — the rules of a file.
* `Verdict`, `verdictOf` — what rules say about a path.
-/

namespace ThreatModel
namespace IgnoreFile

/-- A rule about the paths that match a pattern. -/
structure Rule where
  pattern : Glob
  /-- Whether the paths are kept rather than left out. -/
  keeps : Bool
  /-- Whether the rule is about directories only. -/
  directories : Bool

/-! ## Rules from text -/

/-- Whether a pattern starts with any directories already. -/
def startsAnywhere (text : List Char) : Bool := text.take 3 = ['*', '*', '/'] || text = ['*', '*']

/-- The pattern of a rule as a pattern of whole paths. -/
def wholePattern (anchored : Bool) (text : List Char) : List Char :=
  let spread :=
    if !anchored && !text.contains '/' && !startsAnywhere text then ['*', '*', '/'] ++ text else text
  if (spread.drop (spread.length - 3)) = ['/', '*', '*'] then spread ++ ['/', '*'] else spread

/-- The text without a slash at its end and a backslash before it. -/
def dropSlash (text : List Char) : List Char :=
  let rest := text.dropLast
  if rest.getLast? = some '\\' then rest.dropLast else rest

/-- The rule that a line gives. Comments, lines without text and lines that hold no pattern give none. -/
def Rule.ofLine? (line : List Char) : Option Rule :=
  if line.head? = some '#' then none
  else
    let text := if (line.drop (line.length - 2)) = ['\\', ' '] then line else Text.trimEnd line
    if text.isEmpty then none
    else
      let (keeps, anchored, text) : Bool × Bool × List Char :=
        match text with
        | '\\' :: '!' :: rest => (false, false, '!' :: rest)
        | '\\' :: '#' :: rest => (false, false, '#' :: rest)
        | '!' :: '/' :: rest => (true, true, rest)
        | '!' :: rest => (true, false, rest)
        | '/' :: rest => (false, true, rest)
        | rest => (false, false, rest)
      let directories := text.getLast? = some '/'
      let text := if directories then dropSlash text else text
      match Glob.ofRule (wholePattern anchored text) with
      | .ok pattern => some ⟨pattern, keeps, directories⟩
      | .error _ => none

/-! ## Rules from files -/

/-- The lines of bytes. -/
def byteLines (bytes : List UInt8) : List (List UInt8) :=
  bytes.foldr
    (fun b lines =>
      if b = 10 then [] :: lines
      else match lines with
        | [] => [[b]]
        | line :: rest => (b :: line) :: rest)
    [[]]

/-- The lines of a file up to the first one that is no text, without a mark for the order of bytes in front. -/
def textLines (content : ByteArray) : List (List Char) :=
  let lines := (byteLines content.toList).map fun line => String.fromUTF8? (ByteArray.mk line.toArray)
  let texts := (lines.takeWhile Option.isSome).filterMap id |>.map fun line => Text.dropReturn line.toList
  match texts with
  | [] => []
  | first :: rest => first.dropWhile (· = '\ufeff') :: rest

/-- The rules of the file at a place, in order; none if there is no such file. -/
def rulesOf (tree : FileTree) (place : Place) : List Rule :=
  match tree.get? place with
  | some (.file content) => (textLines content).filterMap Rule.ofLine?
  | _ => []

/-! ## Verdicts -/

/-- What rules say about a path. -/
inductive Verdict where
  | silent
  | keep
  | leaveOut
deriving DecidableEq, Repr

/-- The first verdict, or the second one where the first is silent. -/
def Verdict.or (first second : Verdict) : Verdict := if first = .silent then second else first

/-- What rules say about a path, which leads to a directory or not. -/
def verdictOf (rules : List Rule) (path : String) (isDirectory : Bool) : Verdict :=
  match rules.reverse.find? fun rule => (isDirectory || !rule.directories) && rule.pattern.accepts path with
  | some rule => if rule.keeps then .keep else .leaveOut
  | none => .silent

end IgnoreFile
end ThreatModel
