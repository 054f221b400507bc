import ThreatModel.Glob

/-!
# `Glob.Reader` — patterns from text

In a pattern `*` stands for any stretch, `?` for any byte, `[...]` for one of some characters, braces for a choice,
and `**` as a whole part of a path for any directories. A backslash takes the meaning from the character after it.

## Contents

* `Fault` — what makes a text no pattern.
* `readClass` — the characters between brackets.
* `readStars` — what stars stand for.
* `Glob.ofText` — a whole pattern.
-/

namespace ThreatModel
namespace Glob

/-! ## Faults -/

/-- What makes a text no pattern. -/
inductive Fault where
  | unclosedClass
  | reversedRange (low high : Char)
  | unopenedChoice
  | unclosedChoice
  | danglingEscape
deriving DecidableEq, Repr

/-- The wording of a fault. -/
def Fault.message : Fault → String
  | .unclosedClass => "unclosed character class; missing ']'"
  | .reversedRange low high =>
    "invalid range; '" ++ String.singleton low ++ "' > '" ++ String.singleton high ++ "'"
  | .unopenedChoice =>
    "unopened alternate group; missing '\x7b' (maybe escape '\x7d' with '[\x7d]'?)"
  | .unclosedChoice =>
    "unclosed alternate group; missing '\x7d' (maybe escape '\x7b' with '[\x7b]'?)"
  | .danglingEscape => "dangling '\\'"

/-! ## Character classes -/

/-- The ranges between brackets and what follows the closing one, after the ranges read already, the last one
first. A closing bracket or a dash in front stands for itself, and so does a dash at the end; `pending` holds
after a dash that may go on with a range. There is no result where the bracket is not closed. -/
def readRanges (pending : Bool) (ranges : List (Char × Char)) :
    List Char → Except Fault (Option (List (Char × Char) × List Char))
  | [] => .ok none
  | c :: rest =>
    match ranges with
    | [] => readRanges false [(c, c)] rest
    | (low, high) :: earlier =>
      if c = ']' then
        .ok (some ((if pending then ('-', '-') :: ranges else ranges).reverse, rest))
      else if pending then
        if c < low then .error (.reversedRange low c) else readRanges false ((low, c) :: earlier) rest
      else if c = '-' then readRanges true ((low, high) :: earlier) rest
      else readRanges false ((c, c) :: ranges) rest

/-- The class after an opening bracket and what follows its closing one. -/
def readClass (text : List Char) : Except Fault (Option (Token × List Char)) :=
  let (negated, text) : Bool × List Char :=
    match text with
    | '!' :: rest => (true, rest)
    | '^' :: rest => (true, rest)
    | rest => (false, rest)
  (readRanges false [] text).map fun found => found.map fun (ranges, rest) => (.oneOf negated ranges, rest)

/-! ## Stars -/

/-- The tokens so far, the last one first, with what two stars stand for, what follows the stars, and the last
character read. `before` is the character before the stars. -/
def readStars (inChoice : Bool) (before : Option Char) (tokens : List Token) (rest : List Char) :
    List Token × List Char × Char :=
  let plain := (.stretch :: .stretch :: tokens, rest, '*')
  match tokens with
  | [] =>
    match rest with
    | [] => ([.leadingDirectories], [], '*')
    | '/' :: more => ([.leadingDirectories], more, '/')
    | _ => plain
  | last :: earlier =>
    let joined (token : Token) : List Token :=
      match last with
      | .leadingDirectories => last :: earlier
      | .contents => last :: earlier
      | _ => token :: earlier
    let follows := before = some '/' || (inChoice && (before = some ',' || before = some '\x7b'))
    if !follows then plain
    else
      match rest with
      | [] => (joined .contents, [], '*')
      | '/' :: more => (joined .directories, more, '/')
      | c :: _ => if inChoice && (c = ',' || c = '\x7d') then (joined .contents, rest, '*') else plain

/-! ## Patterns -/

/-- An open choice: the tokens before it and its branches so far, the last ones first. -/
structure OpenChoice where
  outer : List Token
  branches : List (List Token)

/-- The tokens of a text, after open choices and tokens read already, the last ones first. If `lenient` holds, an
opening bracket without a closing one stands for itself, and so do all after it. The fuel bounds the length of the
text. -/
def readTokens (lenient : Bool) : Nat → Option Char → List OpenChoice → List Token → List Char →
    Except Fault (List Token)
  | _, _, choices, tokens, [] => if choices.isEmpty then .ok tokens.reverse else .error .unclosedChoice
  | 0, _, _, _, _ => .error .unclosedChoice
  | fuel + 1, before, choices, tokens, c :: rest =>
    match c with
    | '?' => readTokens lenient fuel (some c) choices (.any :: tokens) rest
    | '*' =>
      match rest with
      | '*' :: rest =>
        let (tokens, rest, last) := readStars (!choices.isEmpty) before tokens rest
        readTokens lenient fuel (some last) choices tokens rest
      | rest => readTokens lenient fuel (some c) choices (.stretch :: tokens) rest
    | '[' =>
      match readClass rest with
      | .error fault => .error fault
      | .ok (some (token, rest)) => readTokens lenient fuel (some ']') choices (token :: tokens) rest
      | .ok none =>
        if lenient then readTokens lenient fuel (some c) choices (.literal c :: tokens) rest
        else .error .unclosedClass
    | '\x7b' => readTokens lenient fuel (some c) (⟨tokens, []⟩ :: choices) [] rest
    | '\x7d' =>
      match choices with
      | [] => .error .unopenedChoice
      | choice :: choices =>
        let branches := (tokens.reverse :: choice.branches).reverse
        readTokens lenient fuel (some c) choices (.anyOf branches :: choice.outer) rest
    | ',' =>
      match choices with
      | [] => readTokens lenient fuel (some c) [] (.literal c :: tokens) rest
      | choice :: choices =>
        let choice := { choice with branches := tokens.reverse :: choice.branches }
        readTokens lenient fuel (some c) (choice :: choices) [] rest
    | '\\' =>
      match rest with
      | [] => .error .danglingEscape
      | d :: rest => readTokens lenient fuel (some d) choices (.literal d :: tokens) rest
    | c => readTokens lenient fuel (some c) choices (.literal c :: tokens) rest

/-- The pattern that a text stands for, whose wildcards take slashes too. -/
def ofText (text : String) : Except Fault Glob :=
  (readTokens false (text.length + 1) none [] [] text.toList).map fun tokens => ⟨tokens, false⟩

/-- The pattern that a line of an ignore file stands for, whose wildcards stop at slashes. -/
def ofRule (text : List Char) : Except Fault Glob :=
  (readTokens true (text.length + 1) none [] [] text).map fun tokens => ⟨tokens, true⟩

end Glob
end ThreatModel
