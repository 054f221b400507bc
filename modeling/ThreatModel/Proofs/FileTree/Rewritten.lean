import Mathlib
import ThreatModel.Proofs.FileTree.Places

/-!
# `Proofs.FileTree.Rewritten` — what is written is read

A file can be written where a path leads, whether a file was there or not. The path still leads there afterwards,
since all directories on its way are still there, so what is found at the path is what was written.

## Contents

* `follow_extends` — pieces that end in a name lead to the same place where more directories are.
* `getLast?_pieces_ne` — a path that does not end in a slash ends in a name.
* `find?_of_write` — a file that has been written is found.
-/

namespace ThreatModel
namespace FileTree

/-- Pieces of which the last is not empty lead to the same place in a tree with at least the same directories. -/
theorem follow_extends {tree other : FileTree} (hextends : tree.Extends other) {here place : Place}
    {pieces : List String} (hlast : pieces.getLast? ≠ some "") (h : tree.follow here pieces = .ok place) :
    other.follow here pieces = .ok place := by
  induction pieces generalizing here with
  | nil => exact h
  | cons piece rest ih =>
    by_cases hnil : rest = []
    · -- Of a last piece only whether the directory is there counts.
      subst hnil
      rw [follow] at h ⊢
      split at h
      · next hplain =>
        rw [if_pos hplain]
        split at h
        · next hhere => rwa [if_pos (hextends _ hhere)]
        · cases h
      · next hplain =>
        rw [if_neg hplain]
        exact h
    · have hlast' : rest.getLast? ≠ some "" := by
        obtain ⟨next, more, rfl⟩ := List.exists_cons_of_ne_nil hnil
        rwa [List.getLast?_cons_cons] at hlast
      have hrest : (rest.all fun piece => piece = "") = false := by
        rw [List.all_eq_false]
        refine ⟨rest.getLast hnil, List.getLast_mem hnil, fun heq => hlast' ?_⟩
        rw [List.getLast?_eq_some_getLast hnil, of_decide_eq_true heq]
      rcases follow_cons_ok hrest h with ⟨hplain, hhere, h⟩ | ⟨rfl, hhere, h⟩ | ⟨hpiece, hthere, h⟩
      · rw [follow, if_pos (by simpa using hplain), if_pos (hextends _ hhere), ih hlast' h]
      · rw [follow, if_neg (by decide), if_pos rfl, if_neg hhere, ih hlast' h]
      · rw [follow_down hpiece (hextends _ hthere) hnil, ih hlast' h]

/-- A path that does not end in a slash ends in a piece that is not empty. -/
theorem getLast?_pieces_ne {path : String} (hne : path ≠ "") (hslash : endsInSlash path = false) :
    (Path.pieces path).getLast? ≠ some "" := by
  intro hlast
  have hparts : ∃ front, Text.splitOn '/' path.toList = front ++ [[]] := by
    rw [Path.pieces, List.getLast?_map] at hlast
    obtain ⟨last, hlast, hempty⟩ := Option.map_eq_some_iff.mp hlast
    obtain rfl : last = [] := by simpa using hempty
    exact List.getLast?_eq_some_iff.mp hlast
  obtain ⟨front, hparts⟩ := hparts
  have hback : ['/'].intercalate (Text.splitOn '/' path.toList) = path.toList := by
    rw [Text.splitOn_eq]
    exact List.intercalate_splitOn '/'
  cases front with
  | nil =>
    rw [hparts] at hback
    exact hne (String.toList_eq_nil_iff.mp hback.symm)
  | cons first more =>
    -- The pieces are those of the path up to the slash, and an empty one.
    have hpieces : ∀ part ∈ first :: more, '/' ∉ part := fun part hpart =>
      (Text.sublist_of_mem_splitOn (hparts ▸ List.mem_append_left _ hpart)).2
    have hsame : Text.splitOn '/' (['/'].intercalate (first :: more) ++ ['/']) = Text.splitOn '/' path.toList := by
      rw [Text.splitOn_concat_self, Text.splitOn_intercalate (List.cons_ne_nil _ _) hpieces, hparts]
    have hpath : ['/'].intercalate (first :: more) ++ ['/'] = path.toList := by
      rw [← hback, ← hsame, Text.splitOn_eq]
      exact (List.intercalate_splitOn '/').symm
    rw [endsInSlash, ← hpath, List.getLast?_concat] at hslash
    exact absurd rfl (of_decide_eq_false hslash)

/-- **What is written to a path is found there**, whether something was there before or not. -/
theorem find?_of_write {tree after : FileTree} {path : String} {content : ByteArray}
    (h : tree.write path content = .ok after) : after.find? path = some (.file content) := by
  obtain ⟨place, hlocate, hwrite⟩ := bind_ok.mp h
  have hset : after = tree.set place (.file content) ∧ tree.get? place ≠ some .directory ∧
      after.locate path = .ok place := by
    split at hwrite
    · cases hwrite
    · next hfile =>
      have hfree : tree.get? place ≠ some .directory := by simp [hfile]
      obtain rfl := Except.ok.inj hwrite
      exact ⟨rfl, hfree, locate_mono (extends_set hfree) hlocate (by rw [hfile]; rfl)⟩
    · next hnone =>
      have hfree : tree.get? place ≠ some .directory := by simp [hnone]
      split at hwrite
      · cases hwrite
      · next hslash =>
        obtain rfl := Except.ok.inj hwrite
        refine ⟨rfl, hfree, ?_⟩
        unfold locate at hlocate ⊢
        split at hlocate
        · cases hlocate
        · next hzero =>
          rw [if_neg hzero]
          split at hlocate
          · cases hlocate
          · next hrelative =>
            rw [if_neg hrelative]
            have hne : path ≠ "" := fun heq => hrelative (by simp [heq])
            exact follow_extends (extends_set hfree) (getLast?_pieces_ne hne (by simpa using hslash)) hlocate
  obtain ⟨rfl, hfree, hlocate⟩ := hset
  have hplace : place ≠ [] := fun heq => hfree (heq ▸ get?_nil tree)
  rw [find?, hlocate]
  simp only [get?_set tree hplace, if_true]

end FileTree
end ThreatModel
