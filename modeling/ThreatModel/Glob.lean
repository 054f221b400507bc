/-!
# `Glob` — patterns for paths

A pattern is a list of tokens, each of which takes a stretch of the bytes of a path; the path matches if the
tokens together take all of it. Whether the wildcards take slashes depends on what the pattern is used for.

## Contents

* `Token`, `Glob` — patterns.
* `Token.after`, `Glob.accepts` — what patterns match.
-/

namespace ThreatModel
namespace Glob

/-- A part of a pattern. -/
inductive Token where
  /-- One character as it is. -/
  | literal (c : Char)
  /-- Any byte. -/
  | any
  /-- Any stretch of bytes. -/
  | stretch
  /-- Nothing, or directories, at the start of a path. -/
  | leadingDirectories
  /-- A slash and anything after it. -/
  | contents
  /-- A slash, or directories between two slashes. -/
  | directories
  /-- One of the characters in some ranges, or none of them. -/
  | oneOf (negated : Bool) (ranges : List (Char × Char))
  /-- Any of several patterns. -/
  | anyOf (branches : List (List Token))
deriving Repr, Inhabited

/-- The byte of a slash. -/
def slash : UInt8 := 47

/-- The bytes of a character. -/
def bytesOf (c : Char) : List UInt8 := (String.singleton c).toUTF8.toList

/-- The ranges of bytes that a range of characters stands for: of a character of several bytes every byte
counts. -/
def byteRanges (range : Char × Char) : List (UInt8 × UInt8) :=
  let (low, high) := (bytesOf range.1, bytesOf range.2)
  if range.1 = range.2 then low.map fun b => (b, b)
  else
    (low.dropLast.map fun b => (b, b)) ++ (low.getLast?.toList.zip high.head?.toList)
      ++ (high.tail.map fun b => (b, b))

/-- Whether a byte is in one of some ranges. -/
def inRanges (ranges : List (Char × Char)) (byte : UInt8) : Bool :=
  (ranges.flatMap byteRanges).any fun (low, high) => low ≤ byte && byte ≤ high

/-- What is left of a text after every stretch at its start. -/
def allRests : List UInt8 → List (List UInt8)
  | [] => [[]]
  | byte :: rest => (byte :: rest) :: allRests rest

/-- What is left of a text after every stretch without slashes at its start. -/
def restsInName : List UInt8 → List (List UInt8)
  | [] => [[]]
  | byte :: rest => (byte :: rest) :: if byte = slash then [] else restsInName rest

/-- What is left of a text after each of its slashes. -/
def restsAfterSlashes : List UInt8 → List (List UInt8)
  | [] => []
  | byte :: rest => if byte = slash then rest :: restsAfterSlashes rest else restsAfterSlashes rest

mutual

/-- Whether a pattern consists of nothing but choices of nothing. -/
def areVoid : List Token → Bool
  | [] => true
  | .anyOf branches :: rest => allVoid branches && areVoid rest
  | _ :: _ => false

/-- Whether all of some patterns do. -/
def allVoid : List (List Token) → Bool
  | [] => true
  | branch :: rest => areVoid branch && allVoid rest

end

mutual

/-- What is left of a text after a token, in every way of taking something. `separating` holds where wildcards
take no slashes. -/
def Token.after (separating : Bool) : Token → List UInt8 → List (List UInt8)
  | .literal c, text => ((bytesOf c).isPrefixOf? text).toList
  | .any, text =>
    match text with
    | byte :: rest => if separating && byte = slash then [] else [rest]
    | [] => []
  | .stretch, text => if separating then restsInName text else allRests text
  | .leadingDirectories, text => text :: restsAfterSlashes text
  | .contents, text =>
    match text with
    | byte :: rest => if byte = slash then allRests rest else []
    | [] => []
  | .directories, text =>
    match text with
    | byte :: rest => if byte = slash then rest :: restsAfterSlashes rest else []
    | [] => []
  | .oneOf negated ranges, text =>
    match text with
    | byte :: rest => if inRanges ranges byte != negated then [rest] else []
    | [] => []
  | .anyOf branches, text => if allVoid branches then [text] else afterBranches separating branches text

/-- What is left of a text after one token after the other. -/
def afterAll (separating : Bool) : List Token → List UInt8 → List (List UInt8)
  | [], text => [text]
  | token :: rest, text =>
    ((token.after separating text).eraseDups.flatMap fun left => afterAll separating rest left).eraseDups

/-- What is left of a text after one of several patterns. Patterns of nothing do not count. -/
def afterBranches (separating : Bool) : List (List Token) → List UInt8 → List (List UInt8)
  | [], _ => []
  | branch :: rest, text =>
    (if areVoid branch then [] else afterAll separating branch text) ++ afterBranches separating rest text

end

end Glob

/-- A pattern, and whether its wildcards stop at slashes. -/
structure Glob where
  tokens : List Glob.Token
  separating : Bool

namespace Glob

/-- Whether a pattern is a choice of directories alone, which matches everything. -/
def isUniversal (glob : Glob) : Bool :=
  match glob.tokens with
  | [.leadingDirectories] => true
  | _ => false

/-- Whether a path matches. -/
def accepts (glob : Glob) (path : String) : Bool :=
  glob.isUniversal || (afterAll glob.separating glob.tokens path.toUTF8.toList).any List.isEmpty

end Glob
end ThreatModel
