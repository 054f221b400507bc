import Mathlib
import ThreatModel.Comment
import ThreatModel.Proofs.Directive.Lines

/-!
# `Proofs.Comment.Lines` — the directives of comments, line by line

The comments of a file are grouped into blocks before they are searched, and a directive found in a block is
located by the line of the block and its own line in it. None of this shows in the result: the directives found
are those of every comment line, searched for itself and located by the number of that line.

## Contents

* `Line.comment?`, `commentLines` — what counts of a line as comment, and the comment lines of a file.
* `Block.findings` — the directives of a block, each on its line of the file.
* `Follows`, `isChain_linesOf` — how the lines of a file follow each other.
* `commentBlock?`, `findings_run_perm` — the block of one run of lines, and the directives in it.
* `findings_extractBlocks_perm` — the directives of all blocks.
-/

namespace ThreatModel

open Directive (Occurrence parse)

/-- The directives of a block, each on its line of the file. -/
def Block.findings (b : Block) : List Occurrence :=
  match b.location with
  | none => []
  | some l => b.scan.occurrences.map fun o => o.atLine (l.line + o.line)

namespace Comment

open Text

/-- What counts of a line as comment: the whole line, or the part from the marker on where code stands before
it. -/
def Line.comment? (line : Line) : Option (List Char) :=
  match line.role with
  | .opens | .inside | .comment => some line.text
  | .trailing _ comment => some comment
  | .code => none

/-- The comment lines of a file with their numbers counted from zero. -/
def commentLines (style : Style) (content : List Char) : List (Nat × List Char) :=
  (linesOf style content).filterMap fun line => line.comment?.map (Prod.mk line.number)

/-- The directives of a line that is searched for itself, on the line of the file that it is. -/
def Line.findings (line : Line) : List Occurrence :=
  match line.comment? with
  | none => []
  | some text => (parse text).map (·.atLine (line.number + 1))

/-! ## Lines hold no line feed -/

theorem not_mem_of_mem_lines {content line : List Char} (h : line ∈ lines content) : '\n' ∉ line := by
  simp only [lines] at h
  rcases List.mem_append.mp h with h | h
  · obtain ⟨part, hpart, rfl⟩ := List.mem_map.mp h
    exact fun hc => (sublist_of_mem_splitOn (List.dropLast_subset _ hpart)).2 ((dropReturn_sublist part).subset hc)
  · split at h
    · exact absurd h List.not_mem_nil
    · rw [List.mem_singleton] at h
      subst h
      rw [List.getLast?_eq_some_getLast (splitOn_ne_nil _ _), Option.getD_some]
      exact (sublist_of_mem_splitOn (List.getLast_mem _)).2

/-- The comment after code is an end of its line. -/
theorem suffix_of_trailing? {markers : List (List Char)} {line code comment : List Char}
    (h : trailing? markers line = some (code, comment)) : comment <:+ line := by
  obtain ⟨place, -, hcut⟩ := Option.map_eq_some_iff.mp h
  obtain ⟨-, rfl⟩ := Prod.mk.inj hcut
  exact List.drop_suffix place line

/-! ## Roles -/

/-- How a role may follow another one: only the lines of a block comment have a line inside it after them. -/
def Role.Follows (previous role : Role) : Prop := role = .inside → previous = .opens ∨ previous = .inside

theorem length_roles (style : Style) (closer : Option (List Char)) (texts : List (List Char)) :
    (roles style closer texts).length = texts.length := by
  induction texts generalizing closer with
  | nil => rfl
  | cons text rest ih =>
    unfold roles
    split
    · simp [ih]
    · split <;> simp [ih]

theorem plainRole_ne_inside (style : Style) (line : List Char) : style.plainRole line ≠ .inside := by
  unfold Style.plainRole
  split
  · exact Role.noConfusion
  · split <;> exact Role.noConfusion

/-- Outside block comments the next line does not lie inside one. -/
theorem head?_roles_none {style : Style} {texts : List (List Char)} {role : Role}
    (h : role ∈ (roles style none texts).head?) : role ≠ .inside := by
  cases texts with
  | nil => simp [roles] at h
  | cons text rest =>
    simp only [roles] at h
    split at h
    · simp only [List.head?_cons, Option.mem_some_iff] at h
      simp [← h]
    · simp only [List.head?_cons, Option.mem_some_iff] at h
      exact h ▸ plainRole_ne_inside style text

theorem isChain_roles (style : Style) (closer : Option (List Char)) (texts : List (List Char)) :
    (roles style closer texts).IsChain Role.Follows := by
  induction texts generalizing closer with
  | nil => exact List.IsChain.nil
  | cons text rest ih =>
    unfold roles
    split
    · exact (ih _).cons fun _ _ _ => Or.inr rfl
    · split
      · exact (ih _).cons fun _ _ _ => Or.inl rfl
      · exact (ih _).cons fun _ hrole hinside => absurd hinside (head?_roles_none hrole)

/-! ## The lines of a file, one after the other -/

/-- How a line of a file follows another one: by its number, and by its role. -/
def Line.Follows (previous line : Line) : Prop :=
  line.number = previous.number + 1 ∧ Role.Follows previous.role line.role

theorem isChain_linesOf (style : Style) (content : List Char) :
    (linesOf style content).IsChain Line.Follows := by
  rw [List.isChain_iff_getElem]
  intro i hi
  have hroles := List.isChain_iff_getElem.mp (isChain_roles style none (lines content))
  -- There are as many roles as lines, so the two chains have their steps at the same places.
  simp only [linesOf, List.length_map, List.length_zipIdx, List.length_zip, length_roles, min_self] at hi
  have hnext := hroles i (by rw [length_roles]; exact hi)
  simp only [linesOf, List.getElem_map, List.getElem_zipIdx, List.getElem_zip]
  exact ⟨by simp only; omega, hnext⟩

theorem suffix_of_mem_zip_roles {style : Style} {closer : Option (List Char)} {texts : List (List Char)}
    {text code comment : List Char}
    (h : (text, Role.trailing code comment) ∈ texts.zip (roles style closer texts)) : comment <:+ text := by
  induction texts generalizing closer with
  | nil => simp at h
  | cons first rest ih =>
    unfold roles at h
    split at h
    · rcases List.mem_cons.mp h with h | h
      · exact Role.noConfusion (Prod.mk.inj h).2
      · exact ih h
    · split at h
      · rcases List.mem_cons.mp h with h | h
        · exact Role.noConfusion (Prod.mk.inj h).2
        · exact ih h
      · rcases List.mem_cons.mp h with h | h
        · obtain ⟨rfl, hrole⟩ := Prod.mk.inj h
          unfold Style.plainRole at hrole
          split at hrole
          · exact Role.noConfusion hrole
          · split at hrole
            · next heq =>
              obtain ⟨rfl, rfl⟩ := Role.trailing.inj hrole
              exact suffix_of_trailing? heq
            · exact Role.noConfusion hrole
        · exact ih h

/-- What counts of a line as comment holds no line feed. -/
theorem not_mem_of_comment? {style : Style} {content text : List Char} {line : Line}
    (hline : line ∈ linesOf style content) (htext : line.comment? = some text) : '\n' ∉ text := by
  obtain ⟨⟨⟨whole, role⟩, number⟩, hmem, rfl⟩ := List.mem_map.mp hline
  have hzip := List.fst_mem_of_mem_zipIdx hmem
  have hwhole : '\n' ∉ whole := not_mem_of_mem_lines (List.of_mem_zip hzip).1
  cases role with
  | opens | inside | comment =>
    obtain rfl := Option.some.inj htext
    exact hwhole
  | trailing code comment =>
    obtain rfl := Option.some.inj htext
    exact fun hc => hwhole ((suffix_of_mem_zip_roles hzip).subset hc)
  | code => exact absurd htext (by simp [Line.comment?])

/-! ## The block of a run of lines -/

/-- The block of a run of lines, if the run is a comment that contains an `@`. -/
def commentBlock? (filename : String) (texts : List (List Char)) (run : List Line) : Option Block := do
  let (text, code) ← textAndCode? texts run
  let first ← run.head?
  if text.contains '@' then
    some ⟨String.ofList text, some ⟨filename, first.number + 1, String.ofList code⟩⟩
  else none

theorem extractBlocks_eq (filename : String) (content : List Char) (style : Style) :
    extractBlocks filename content style
      = (runs style content).filterMap (commentBlock? filename (lines content)) := rfl

/-- The directives of a run that becomes a block, if its text holds an `@`. -/
theorem findings_commentBlock? {filename : String} {texts : List (List Char)} {first : Line}
    {rest : List Line} {text code : List Char}
    (h : textAndCode? texts (first :: rest) = some (text, code)) :
    (commentBlock? filename texts (first :: rest)).toList.flatMap Block.findings
      = (parse text).map fun o => o.atLine (first.number + 1 + o.line) := by
  simp only [commentBlock?, h, List.head?_cons, Option.bind_eq_bind, Option.bind_some]
  by_cases hat : '@' ∈ text
  · simp [hat, Block.findings, Block.scan]
  · -- No block is made of the run, and no directive is lost by that.
    simp [hat, Directive.parse_of_not_mem hat]

/-- The lines of a run that follow each other are numbered from its first line on. -/
theorem zipIdx_texts_of_isChain {first : Line} {rest : List Line}
    (h : (first :: rest).IsChain Line.Follows) (offset : Nat) :
    ((first :: rest).map Line.text).zipIdx (first.number + offset)
      = (first :: rest).map fun line => (line.text, line.number + offset) := by
  induction rest generalizing first with
  | nil => simp
  | cons second more ih =>
    -- The number of the second line is the one that counting has reached there.
    obtain ⟨hfollows, hchain⟩ := List.isChain_cons_cons.mp h
    have hnumber : first.number + offset + 1 = second.number + offset := by
      have := hfollows.1
      omega
    rw [List.map_cons, List.zipIdx_cons, hnumber, ih hchain]
    rfl

/-- In a run that starts with a comment, every line counts as a whole. -/
theorem comment?_of_isChain {first : Line} {rest : List Line}
    (hrole : first.comment? = some first.text) (h : (first :: rest).IsChain fun a b => continues a b) :
    ∀ line ∈ first :: rest, line.comment? = some line.text := by
  induction rest generalizing first with
  | nil => simpa using hrole
  | cons second more ih =>
    obtain ⟨hcontinues, hchain⟩ := List.isChain_cons_cons.mp h
    have hsecond : second.comment? = some second.text := by
      unfold continues at hcontinues
      split at hcontinues
      · next heq => simp [Line.comment?, heq]
      · next heq => simp [Line.comment?, heq]
      · exact absurd hcontinues (by simp)
    intro line hline
    rcases List.mem_cons.mp hline with rfl | hline
    · exact hrole
    · exact ih hsecond hchain line hline

/-- A run that does not start with a comment or a line of one is a single line. -/
theorem rest_eq_nil_of_isChain {first : Line} {rest : List Line}
    (hrole : first.role ≠ .opens ∧ first.role ≠ .inside ∧ first.role ≠ .comment)
    (hfollows : (first :: rest).IsChain Line.Follows)
    (hcontinues : (first :: rest).IsChain fun a b => continues a b) : rest = [] := by
  cases rest with
  | nil => rfl
  | cons second more =>
    have hfollows := (List.isChain_cons_cons.mp hfollows).1
    have hcontinues := (List.isChain_cons_cons.mp hcontinues).1
    unfold continues at hcontinues
    split at hcontinues
    · next heq _ => exact absurd heq hrole.2.2
    · -- A line inside a block comment comes after a line of that comment only.
      next heq => exact ((hfollows.2 heq).elim hrole.1 hrole.2.1).elim
    · exact absurd hcontinues (by simp)

/-- The directives of a run of lines that all count as a whole. -/
theorem findings_whole_perm {filename : String} {texts : List (List Char)} {first : Line} {rest : List Line}
    {code : List Char} (hfollows : (first :: rest).IsChain Line.Follows)
    (htext : textAndCode? texts (first :: rest)
      = some (['\n'].intercalate ((first :: rest).map Line.text), code))
    (hwhole : ∀ line ∈ first :: rest, line.comment? = some line.text)
    (hfeed : ∀ line ∈ first :: rest, '\n' ∉ line.text) :
    ((commentBlock? filename texts (first :: rest)).toList.flatMap Block.findings).Perm
      ((first :: rest).flatMap Line.findings) := by
  have hlines : ∀ text ∈ (first :: rest).map Line.text, '\n' ∉ text := by
    intro text htext
    obtain ⟨line, hline, rfl⟩ := List.mem_map.mp htext
    exact hfeed line hline
  rw [findings_commentBlock? htext]
  refine (Directive.parse_intercalate_perm _ (by simp) hlines).trans (List.Perm.of_eq ?_)
  rw [zipIdx_texts_of_isChain hfollows 1, List.flatMap_map]
  refine List.flatMap_congr fun line hline => ?_
  simp only [Line.findings, hwhole line hline]

/-- **The directives of a run of lines** are those of its lines. -/
theorem findings_run_perm {filename : String} {texts : List (List Char)} {run : List Line} (hne : run ≠ [])
    (hfollows : run.IsChain Line.Follows) (hcontinues : run.IsChain fun a b => continues a b)
    (hfeed : ∀ line ∈ run, ∀ text, line.comment? = some text → '\n' ∉ text) :
    ((commentBlock? filename texts run).toList.flatMap Block.findings).Perm (run.flatMap Line.findings) := by
  obtain ⟨first, rest, rfl⟩ := List.exists_cons_of_ne_nil hne
  cases hrole : first.role with
  | opens | inside | comment =>
    have hwhole := comment?_of_isChain (by simp [Line.comment?, hrole]) hcontinues
    have htext : textAndCode? texts (first :: rest)
        = some (['\n'].intercalate ((first :: rest).map Line.text),
            codeAfter (texts.drop (first.number + rest.length + 1))) := by
      simp only [textAndCode?, hrole]
    exact findings_whole_perm hfollows htext hwhole fun line hline => hfeed line hline _ (hwhole line hline)
  | trailing code comment =>
    -- The comment after code is a block of one line, and that line counts in part.
    obtain rfl := rest_eq_nil_of_isChain (by simp [hrole]) hfollows hcontinues
    have hcomment : first.comment? = some comment := by simp [Line.comment?, hrole]
    have htext : textAndCode? texts [first] = some (comment, trim code) := by
      simp only [textAndCode?, hrole]
    have hfeed : ∀ text ∈ [comment], '\n' ∉ text := by
      simpa using hfeed first List.mem_cons_self comment hcomment
    have hperm := Directive.parse_intercalate_perm (first.number + 1) (List.cons_ne_nil _ _) hfeed
    rw [findings_commentBlock? htext]
    simpa [Line.findings, hcomment] using hperm
  | code =>
    obtain rfl := rest_eq_nil_of_isChain (by simp [hrole]) hfollows hcontinues
    simp [commentBlock?, textAndCode?, Line.findings, Line.comment?, hrole]

/-! ## All blocks of a file -/

theorem findings_commentLines (style : Style) (content : List Char) :
    (linesOf style content).flatMap Line.findings
      = (commentLines style content).flatMap fun (number, text) =>
          (parse text).map (·.atLine (number + 1)) := by
  rw [commentLines, List.filterMap_eq_flatMap_toList, List.flatMap_assoc]
  refine List.flatMap_congr fun line _ => ?_
  unfold Line.findings
  cases line.comment? <;> simp

/-- **Directives are found line by line.** The directives of the blocks of a file, each on the line that the
place of its block and its own line give, are those of the comment lines of the file, each line searched for
itself and each directive on the line that it stands on. -/
theorem findings_extractBlocks_perm (filename : String) (content : List Char) (style : Style) :
    ((extractBlocks filename content style).flatMap Block.findings).Perm
      ((commentLines style content).flatMap fun (number, text) =>
        (parse text).map (·.atLine (number + 1))) := by
  -- Run by run the directives are the same; the runs put together are the lines of the file.
  have hruns : ((runs style content).flatMap fun run =>
        (commentBlock? filename (lines content) run).toList.flatMap Block.findings).Perm
      ((runs style content).flatMap fun run => run.flatMap Line.findings) := by
    refine List.Perm.flatMap_left _ fun run hrun => ?_
    have hpart : run <:+: linesOf style content := by
      have := List.infix_of_mem_flatten hrun
      rwa [runs, List.flatten_splitBy] at this
    have hchain := List.IsChain.infix (isChain_linesOf style content) hpart
    refine findings_run_perm (List.ne_nil_of_mem_splitBy hrun) hchain (List.isChain_of_mem_splitBy hrun)
      fun line hline text htext => ?_
    exact not_mem_of_comment? (hpart.subset hline) htext
  rw [extractBlocks_eq, List.filterMap_eq_flatMap_toList, List.flatMap_assoc]
  refine hruns.trans (List.Perm.of_eq ?_)
  rw [← findings_commentLines, ← List.flatten_splitBy continues (linesOf style content), ← runs]
  simp only [List.flatMap_def, List.map_flatten, List.flatten_flatten, List.map_map]
  rfl

end Comment
end ThreatModel
