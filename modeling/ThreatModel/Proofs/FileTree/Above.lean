import Mathlib
import ThreatModel.Proofs.Scan.Once

/-!
# `Proofs.FileTree.Above` — the directory above a file

Before a file is written the directory above it is created, by a path that is put together from the parts of the path
of the file. That path leads where the path of the directory leads, so nothing is created if the directory is there,
and in any case nothing but directories under names of its path.

## Contents

* `Path.parts_join_file`, `Path.parent?_join` — the path above a file.
* `locate_ofParts`, `createDirectories_above` — a directory that is there is not created again.
* `createDirectories_above_keeps` — what the creation of the directory above a file keeps.
-/

namespace ThreatModel

open FileTree

/-! ## The path above a file -/

namespace Text

/-- The characters of a text are in its parts, except the separator. -/
theorem exists_mem_splitOn {separator c : Char} (hc : c ≠ separator) {text : List Char} (h : c ∈ text) :
    ∃ part ∈ splitOn separator text, c ∈ part := by
  induction text with
  | nil => cases h
  | cons first rest ih =>
    rw [splitOn_cons]
    by_cases hfirst : first = separator
    · rw [if_pos hfirst]
      rcases List.mem_cons.mp h with rfl | h
      · exact absurd hfirst hc
      · obtain ⟨part, hpart, hmem⟩ := ih h
        exact ⟨part, List.mem_cons_of_mem _ hpart, hmem⟩
    · rw [if_neg hfirst]
      obtain ⟨head, tail, hparts⟩ := List.exists_cons_of_ne_nil (splitOn_ne_nil separator rest)
      rw [hparts] at ih
      rw [hparts, List.modifyHead_cons]
      rcases List.mem_cons.mp h with rfl | h
      · exact ⟨_, List.mem_cons_self, List.mem_cons_self⟩
      · obtain ⟨part, hpart, hmem⟩ := ih h
        rcases List.mem_cons.mp hpart with rfl | hpart
        · exact ⟨_, List.mem_cons_self, List.mem_cons_of_mem _ hmem⟩
        · exact ⟨part, List.mem_cons_of_mem _ hpart, hmem⟩

end Text

namespace Path

/-- A file in a directory is one more part. -/
theorem parts_join_file {name : String} (hname : IsFileName name) (directory : String) :
    parts (join directory name) = parts directory ++ [.name name] := by
  by_cases hempty : directory = ""
  · subst hempty
    have hjoin : join "" name = name := by simp [join]
    have hpieces : pieces name = [name] := by
      rw [pieces, Text.splitOn_of_not_mem hname.no_slash, List.map_singleton, String.ofList_toList]
    have hpart : partOf name = some (.name name) := by
      simp [partOf, hname.not_empty, hname.not_here, hname.not_up]
    have hhead : name.toList.head? ≠ some '/' := fun heq => hname.no_slash (List.mem_of_mem_head? heq)
    have hstart : start name = [] := by
      rw [start, if_neg hhead, hpieces, List.head?_cons, if_neg (by simpa using hname.not_here)]
    rw [hjoin, parts_eq, hstart, hpieces, List.filterMap_cons_some hpart]
    rfl
  · exact parts_join_name hempty hname

/-- The directory above a file in a directory has the parts of that directory. -/
theorem parent?_join {name : String} (hname : IsFileName name) (directory : String) :
    parent? (join directory name) = some (ofParts (parts directory)) := by
  rw [parent?, parts_join_file hname]
  split
  · next hnil => exact absurd hnil (List.append_ne_nil_of_right_ne_nil _ (List.cons_ne_nil _ _))
  · next hroot =>
    rcases List.append_eq_singleton_iff.mp hroot with ⟨-, h⟩ | ⟨-, h⟩
    · cases h
    · cases h
  · rw [List.dropLast_concat]

/-- Every part but the one of the root has a text. -/
theorem text_ne_empty {path : String} (h : isAbsolute path = false) {part : Part} (hpart : part ∈ parts path) :
    part.text ≠ "" := by
  rw [parts_eq, List.mem_append] at hpart
  rcases hpart with hpart | hpart
  · have hhead : path.toList.head? ≠ some '/' := by simpa [isAbsolute] using h
    rw [start, if_neg hhead] at hpart
    split at hpart
    · obtain rfl := List.mem_singleton.mp hpart
      show "." ≠ ""
      decide
    · cases hpart
  · obtain ⟨piece, -, hpiece⟩ := List.mem_filterMap.mp hpart
    unfold partOf at hpiece
    split at hpiece
    · cases hpiece
    · next hplain =>
      split at hpiece
      · obtain rfl := Option.some.inj hpiece
        show ".." ≠ ""
        decide
      · obtain rfl := Option.some.inj hpiece
        show piece ≠ ""
        simp_all

end Path

namespace FileTree

variable {tree : FileTree} {directory name : String} {home : Place}

/-! ## A directory that is there -/

/-- Pieces without a part lead nowhere else. -/
theorem Leads.parts {here there : Place} {pieces : List String} (h : tree.Leads here pieces there) :
    tree.Leads here ((pieces.filterMap Path.partOf).map Path.Part.text) there := by
  induction h with
  | here place => exact .here place
  | stay hplain _ _ ih =>
    rw [List.filterMap_cons_none (by rcases hplain with rfl | rfl <;> rfl)]
    exact ih
  | up hhere _ ih => exact .up hhere ih
  | @down here there piece rest hname hthere _ ih =>
    have hpart : Path.partOf piece = some (.name piece) := by
      simp [Path.partOf, hname.not_empty, hname.not_here, hname.not_up]
    rw [List.filterMap_cons_some hpart]
    exact .down hname hthere ih

/-- The pieces of a directory have the parts that its path spells. -/
theorem filterMap_directoryPieces (directory : String) :
    (directoryPieces directory).filterMap Path.partOf = (Path.pieces directory).filterMap Path.partOf := by
  rw [directoryPieces]
  split
  · next hempty =>
    subst hempty
    rfl
  · split
    · next hslash =>
      -- The slash at the end adds an empty piece.
      obtain ⟨front, hfront⟩ := List.getLast?_eq_some_iff.mp hslash
      rw [Path.pieces, hfront, Text.splitOn_concat_self, List.map_append, List.map_singleton, List.dropLast_concat,
        List.filterMap_append]
      exact (List.append_nil _).symm
    · rfl

/-- The parts of a directory lead to its place. -/
theorem Within.leads_parts (h : tree.Within directory home) :
    tree.Leads [] ((Path.parts directory).map Path.Part.text) home := by
  have hhead : directory.toList.head? ≠ some '/' := by simpa [Path.isAbsolute] using h.relative
  have hnamed := h.leads.parts
  rw [filterMap_directoryPieces] at hnamed
  rw [Path.parts_eq, Path.start, if_neg hhead]
  split
  · exact .stay (Or.inr rfl) (get?_nil tree) hnamed
  · exact hnamed

/-- **The path that is put together from the parts of a directory** leads to its place. -/
theorem locate_ofParts (h : tree.Within directory home) (hne : Path.ofParts (Path.parts directory) ≠ "") :
    tree.locate (Path.ofParts (Path.parts directory)) = .ok home := by
  have hnil : Path.parts directory ≠ [] := fun heq => hne (by rw [heq]; rfl)
  have htext : ∀ part ∈ Path.parts directory, part.text ≠ "" := fun part => Path.text_ne_empty h.relative
  have hroot : Path.parts directory ≠ [.root] := by
    intro heq
    exact htext .root (by rw [heq]; exact List.mem_cons_self) rfl
  have hpieces : Path.pieces (Path.ofParts (Path.parts directory)) = (Path.parts directory).map Path.Part.text :=
    Path.pieces_ofParts hnil hroot fun part hpart => Path.slash_not_mem_of_mem_pieces (Path.text_mem_pieces hpart)
  have hzero : ¬(Path.ofParts (Path.parts directory)).toList.contains '\x00' = true := by
    rw [List.contains_iff_mem]
    intro hmem
    obtain ⟨chars, hchars, hmem⟩ := Text.exists_mem_splitOn (show '\x00' ≠ '/' by decide) hmem
    have hpiece : String.ofList chars ∈ Path.pieces directory :=
      Path.mem_pieces_ofParts (fun _ hpart => hpart) hne (List.mem_map_of_mem hchars)
    obtain ⟨part, hpart, heq⟩ := List.mem_map.mp hpiece
    obtain rfl := String.ofList_injective heq
    exact h.no_zero ((Text.sublist_of_mem_splitOn hpart).1.subset hmem)
  have hrelative : Path.isAbsolute (Path.ofParts (Path.parts directory)) = false := by
    rw [Bool.eq_false_iff]
    intro habsolute
    -- A path from the root has an empty piece first, and no part has an empty text.
    obtain ⟨rest, hrest⟩ := List.head?_eq_some_iff.mp (of_decide_eq_true habsolute)
    have hmem : "" ∈ Path.pieces (Path.ofParts (Path.parts directory)) := by
      rw [Path.pieces, hrest, Text.splitOn_cons_self]
      exact List.mem_cons_self
    rw [hpieces] at hmem
    obtain ⟨part, hpart, hempty⟩ := List.mem_map.mp hmem
    exact htext part hpart hempty
  rw [locate, if_neg hzero, hrelative, hpieces, if_neg (by simpa using hne)]
  exact h.leads_parts.follow

/-- **The directory above a file is not created again** if it is there. -/
theorem createDirectories_above (system : System) (h : tree.Within directory home) :
    tree.createDirectories (Path.ofParts (Path.parts directory)) system = (tree, none) := by
  by_cases hempty : Path.ofParts (Path.parts directory) = ""
  · rw [hempty, createDirectories_empty]
  · exact createDirectories_of_within (within_of_locate (locate_ofParts h hempty) h.isDirectory)

/-- **Creating the directory above a file** changes nothing else, and creates directories only under names that stand
in the path of the directory. -/
theorem createDirectories_above_keeps (system : System) (tree : FileTree) (directory : String) (place : Place) :
    tree.Keeps (Path.pieces directory) (tree.createDirectories (Path.ofParts (Path.parts directory)) system).1 place := by
  by_cases hempty : Path.ofParts (Path.parts directory) = ""
  · rw [hempty, createDirectories_empty]
    exact Or.inl rfl
  · exact (createDirectories_keeps system tree _ place).mono fun piece =>
      Path.mem_pieces_ofParts (fun _ hpart => hpart) hempty

end FileTree
end ThreatModel
