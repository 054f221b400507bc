import ThreatModel.Comment.Style
import ThreatModel.Block

/-!
# `Comment` — the comments of a file

Every line of a file has a role: it opens a block comment, lies inside one, is a line comment, carries a comment
after code, or is code. A block comment is one comment over all its lines, as is a run of line comments; a
comment after code stands for itself. Each comment that could hold a directive becomes a block of text.

## Contents

* `Role`, `roles` — the role of every line.
* `linesOf`, `runs` — the lines with their roles, and the runs of lines that belong together.
* `extractBlocks` — the blocks of a file.
-/

namespace ThreatModel
namespace Comment

open Text

/-! ## Roles of lines -/

/-- What a line contributes to the comments of a file. -/
inductive Role where
  /-- The line starts with the opener of a block comment. -/
  | opens
  /-- The line lies in a block comment opened above it. -/
  | inside
  /-- The line starts with the marker of a line comment. -/
  | comment
  /-- A line comment follows code. -/
  | trailing (code comment : List Char)
  /-- The line holds no comment. -/
  | code
deriving DecidableEq, Repr

/-- Whether a text contains another one. -/
def containsText (text part : List Char) : Bool :=
  match text with
  | [] => part.isEmpty
  | c :: rest => part.isPrefixOf (c :: rest) || containsText rest part

/-- The closer of the block comment that a line opens, and the text after the opener. -/
def Style.opened? (style : Style) (line : List Char) : Option (List Char × List Char) :=
  style.block.bind fun (opener, closer) =>
    (opener.isPrefixOf? (trimStart line)).map (Prod.mk closer)

/-- Whether a line starts with a marker of a line comment. -/
def Style.startsComment (style : Style) (line : List Char) : Bool :=
  style.line.any fun marker => marker.isPrefixOf (trimStart line)

/-- Whether a comment may start behind a text: it is code and ends in a gap, so that `http://` and `a#b` hold no
comments. -/
def isSetOffCode (code : List Char) : Bool := code.getLast?.any isGap && !isBlank code

/-- The code and the comment of a line on which a line comment follows code. Every marker is met from the left, and the
first place of any of them that is set off from code counts. -/
def trailing? (markers : List (List Char)) (line : List Char) : Option (List Char × List Char) :=
  let starts := markers.flatMap fun marker => (places marker line).filter fun place => isSetOffCode (line.take place)
  starts.min?.map fun place => (line.take place, line.drop place)

/-- The role of a line outside block comments that does not open one. -/
def Style.plainRole (style : Style) (line : List Char) : Role :=
  if style.startsComment line then .comment
  else
    match trailing? style.line line with
    | some (code, comment) => .trailing code comment
    | none => .code

/-- The roles of the lines of a file, where `closer` is the closer of the block comment that is open before the
first of them. A block comment without closer runs to the end of the file. -/
def roles (style : Style) (closer : Option (List Char)) : List (List Char) → List Role
  | [] => []
  | line :: rest =>
    match closer with
    | some c => .inside :: roles style (if containsText line c then none else some c) rest
    | none =>
      match style.opened? line with
      | some (c, after) => .opens :: roles style (if containsText after c then none else some c) rest
      | none => style.plainRole line :: roles style none rest

/-! ## Groups -/

/-- A line of a file with its role and its number counted from zero. -/
structure Line where
  number : Nat
  text : List Char
  role : Role
deriving DecidableEq, Repr

/-- The lines of a file with their roles. -/
def linesOf (style : Style) (content : List Char) : List Line :=
  let texts := lines content
  ((texts.zip (roles style none texts)).zipIdx).map fun ((text, role), number) => ⟨number, text, role⟩

/-- Whether a line belongs to the same comment as the line directly before it. -/
def continues (previous line : Line) : Bool :=
  match previous.role, line.role with
  | .comment, .comment => true
  | _, .inside => true
  | _, _ => false

/-- The lines of a file, cut into runs that belong together. -/
def runs (style : Style) (content : List Char) : List (List Line) :=
  (linesOf style content).splitBy continues

/-- The code that stands at a comment: the first of the lines after it that is not blank, trimmed. -/
def codeAfter (after : List (List Char)) : List Char :=
  ((after.find? fun line => !isBlank line).map trim).getD []

/-- The text of a run of lines of the file `texts`, and the code that stands at it, if the run is a comment. -/
def textAndCode? (texts : List (List Char)) : List Line → Option (List Char × List Char)
  | [] => none
  | first :: rest =>
    match first.role with
    | .code => none
    | .trailing code comment => some (comment, trim code)
    | .opens | .inside | .comment =>
      some (['\n'].intercalate ((first :: rest).map (·.text)),
        codeAfter (texts.drop (first.number + rest.length + 1)))

/-- The blocks of a file: one for every comment that contains an `@`, at the line on which it starts. -/
def extractBlocks (filename : String) (content : List Char) (style : Style) : List Block :=
  let texts := lines content
  (runs style content).filterMap fun run => do
    let (text, code) ← textAndCode? texts run
    let first ← run.head?
    if text.contains '@' then
      some ⟨String.ofList text, some ⟨filename, first.number + 1, String.ofList code⟩⟩
    else none

end Comment
end ThreatModel
