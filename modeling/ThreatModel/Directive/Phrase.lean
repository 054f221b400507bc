import ThreatModel.Directive.Decoration

/-!
# `Directive.Phrase` — cutting a text into fields

After its keyword a directive is a sequence of fields with clause words between them, set off by gaps. The cut
is the nearest one: a field ends at the first place where its clause word can follow, and the last field is the
shortest text that leaves only a tail.

## Contents

* `link?`, `cut?` — the first place where a clause word follows a field.
* `closing?` — the last field.
* `Form`, `Phrase`, `phrase?` — the forms that phrases take and the cut of a text in one of them.
-/

namespace ThreatModel
namespace Directive

open Text

/-! ## Clause words -/

/-- What follows a clause word: the text has to start with a gap, the word and another gap, and to go on after
that. -/
def link? (word text : List Char) : Option (List Char) :=
  match text with
  | [] => none
  | c :: _ =>
    if isGap c then
      match word.isPrefixOf? (text.dropWhile isGap) with
      | some (gap :: rest) => if isGap gap && !rest.isEmpty then some rest else none
      | _ => none
    else none

/-- A field, the clause word after it, and the text after that. -/
structure Cut where
  field : List Char
  word : List Char
  rest : List Char
deriving DecidableEq, Repr

/-- The nearest cut of a text: its field is not empty and ends at the first place where one of the words
follows. -/
def cut? (words : List (List Char)) : List Char → Option Cut
  | [] => none
  | c :: text =>
    match words.findSome? fun word => (link? word text).map (Prod.mk word) with
    | some (word, rest) => some ⟨[c], word, rest⟩
    | none => (cut? words text).map fun cut => { cut with field := c :: cut.field }

/-- The last field of a phrase and the tail after it: the shortest text that is not empty and leaves a tail. -/
def closing? : List Char → Option (List Char × List Char)
  | [] => none
  | c :: text =>
    if isTail text then some ([c], text)
    else (closing? text).map fun (field, tail) => (c :: field, tail)

/-! ## Phrases -/

/-- The forms that the text after a keyword takes. -/
inductive Form where
  /-- A name, then optionally `--` and a description. -/
  | described
  /-- Fields with one of the given words between each two of them. -/
  | clauses (links : List (List (List Char)))
  /-- A word without white space, then a text. -/
  | wordThenText
deriving DecidableEq, Repr

/-- The fields of a text, the clause words chosen between them, and the tail after the last field. -/
structure Phrase where
  fields : List (List Char)
  words : List (List Char)
  tail : List Char
deriving DecidableEq, Repr

/-- The nearest cut of a text into fields between the given clause words. -/
def clauses? : List (List (List Char)) → List Char → Option Phrase
  | [], text => (closing? (text.dropWhile isGap)).map fun (field, tail) => ⟨[field], [], tail⟩
  | words :: links, text =>
    (cut? words (text.dropWhile isGap)).bind fun cut =>
      (clauses? links cut.rest).map fun phrase =>
        ⟨cut.field :: phrase.fields, cut.word :: phrase.words, phrase.tail⟩

/-- The words that set a description off from a name. -/
def dashes : List Char := "--".toList

/-- The nearest cut of a text into a name and a description, or a name alone. A description of gaps only is no
field. -/
def described? : List Char → Option Phrase
  | [] => none
  | c :: text =>
    match link? dashes text with
    | some rest =>
      match closing? (rest.dropWhile isGap) with
      | some (description, tail) => some ⟨[[c], description], [dashes], tail⟩
      | none => some ⟨[[c]], [dashes], []⟩
    | none =>
      if isTail text then some ⟨[[c]], [], text⟩
      else (described? text).map fun phrase =>
        match phrase.fields with
        | name :: more => { phrase with fields := (c :: name) :: more }
        | [] => phrase

/-- A text cut after its first word, which a gap has to follow. -/
def wordThenText? (text : List Char) : Option Phrase :=
  let word := text.takeWhile fun c => !isSpace c
  match text.dropWhile fun c => !isSpace c with
  | gap :: rest =>
    if isGap gap && !word.isEmpty then
      (closing? (rest.dropWhile isGap)).map fun (field, tail) => ⟨[word, field], [], tail⟩
    else none
  | [] => none

/-- The cut of a text in the given form. -/
def phrase? (form : Form) (text : List Char) : Option Phrase :=
  match form with
  | .described => described? (text.dropWhile isGap)
  | .clauses links => clauses? links text
  | .wordThenText => wordThenText? (text.dropWhile isGap)

end Directive
end ThreatModel
