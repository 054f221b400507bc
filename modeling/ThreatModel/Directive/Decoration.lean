import ThreatModel.Text

/-!
# `Directive.Decoration` — what may stand around a directive

A directive stands at the start of a segment, after indentation and at most one comment marker, and may be
followed by at most one comment terminator. Neither belongs to what the directive says.

## Contents

* `isMarker`, `isTerminator` — the comment markers and terminators.
* `isLead`, `isTail` — the texts that may stand before and after a directive.
* `directiveBody?` — what follows the `@` of a decorated directive.
-/

namespace ThreatModel
namespace Directive

open Text

/-- The text without gaps at either end. -/
def trimGaps (text : List Char) : List Char :=
  ((text.dropWhile isGap).reverse.dropWhile isGap).reverse

/-- Whether a run of characters is a comment marker: two or more slashes, a slash and stars, stars, hashes,
semicolons, `<!--`, `--[[` or `--`. -/
def isMarker : List Char → Bool
  | '/' :: '/' :: rest => rest.all (· = '/')
  | '/' :: '*' :: rest => rest.all (· = '*')
  | '*' :: rest => rest.all (· = '*')
  | '#' :: rest => rest.all (· = '#')
  | ';' :: rest => rest.all (· = ';')
  | run => run = "<!--".toList || run = "--[[".toList || run = "--".toList

/-- Whether a run of characters is a comment terminator: stars and a slash, `-->` or `]]`. -/
def isTerminator : List Char → Bool
  | '*' :: rest => rest.dropWhile (· = '*') = ['/']
  | run => run = "-->".toList || run = "]]".toList

/-- Whether a text may stand before a directive: gaps around at most one marker. -/
def isLead (text : List Char) : Bool :=
  let run := trimGaps text
  run = [] || isMarker run

/-- Whether a text may stand after a directive: gaps around at most one terminator. -/
def isTail (text : List Char) : Bool :=
  let run := trimGaps text
  run = [] || isTerminator run

/-- What follows the first `@` of a segment, if only a lead stands before it. No lead contains an `@`, so this
is the only place where a directive can start. -/
def directiveBody? (segment : List Char) : Option (List Char) :=
  match segment.dropWhile (· ≠ '@') with
  | [] => none
  | _ :: body => if isLead (segment.takeWhile (· ≠ '@')) then some body else none

end Directive
end ThreatModel
