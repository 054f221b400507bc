import ThreatModel.Directive.Family
import ThreatModel.Text.Word

/-!
# `Directive` — finding directives in a text

A text is searched segment by segment. A segment that starts with a directive of one of the families yields an
occurrence; one that starts with a keyword and still yields none is a candidate whose line is reported as
skipped, unless another segment of that line yields an occurrence. All other text is prose.

## Contents

* `Occurrence` — a directive found, with its text and its line.
* `occurrence?`, `isCandidate` — a single segment.
* `parse`, `skipped` — a whole text.
-/

namespace ThreatModel
namespace Directive

open Text

/-- A directive found in a text. -/
structure Occurrence where
  family : Family
  statement : Statement
  /-- The directive as written, without decoration. -/
  text : String
  /-- The number of line feeds before the directive. -/
  line : Nat

/-! ## One segment -/

/-- The directive that stands in a segment. -/
def occurrence? (line : Nat) (segment : List Char) : Option Occurrence := do
  let body ← directiveBody? segment
  let family ← Family.ofKeyword? (body.takeWhile fun c => !isGap c)
  let phrase ← phrase? family.form (body.dropWhile fun c => !isGap c)
  let statement ← Statement.ofFields? family phrase.words phrase.fields
  let text := '@' :: body.take (body.length - phrase.tail.length)
  return { family, statement, text := String.ofList (trim text), line }

/-- Whether a segment starts with a keyword that ends at a word boundary. -/
def isCandidate (segment : List Char) : Bool :=
  match directiveBody? segment with
  | none => false
  | some body =>
    (Family.all.flatMap Family.keywords).any fun keyword =>
      match keyword.isPrefixOf? body with
      | some [] => true
      | some (c :: _) => !isWord c
      | none => false

/-! ## A whole text -/

/-- The occurrences of the segments of one line, in their order on the line. -/
def lineOccurrences (line : Nat) (segments : List (List Char)) : List Occurrence :=
  segments.filterMap (occurrence? line)

/-- The occurrences of the given families, family by family. -/
def inFamilies (families : List Family) (occurrences : List Occurrence) : List Occurrence :=
  families.flatMap fun family => occurrences.filter fun a => a.family = family

/-- The occurrences of a text: the declarations line by line, then the relations line by line. On a line with
several segments they follow in the order of their families. -/
def parse (text : List Char) : List Occurrence :=
  let found := (segments text).zipIdx.map fun (line, number) => lineOccurrences number line
  found.flatMap (inFamilies Family.declarations) ++ found.flatMap (inFamilies Family.relations)

/-- The lines of candidates on lines without an occurrence, once for every candidate. -/
def skipped (text : List Char) : List Nat :=
  (segments text).zipIdx.flatMap fun (line, number) =>
    if (lineOccurrences number line).isEmpty then (line.filter isCandidate).map fun _ => number else []

end Directive
end ThreatModel
