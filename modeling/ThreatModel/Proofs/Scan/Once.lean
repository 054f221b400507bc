import Mathlib
import ThreatModel.Proofs.Scan.Rearranged

/-!
# `Proofs.Scan.Once` — files that are scanned once

Files are told apart by the parts of their paths. Every path of a scan starts with the directory of the project, followed
by the path of its scan root and the names that lead from there to the file. Where no scan root goes to a directory
above, these are all names, so two paths to one file have the same parts, and the file is scanned once. A scan root that
goes up and down again spells its files in another way, and they are scanned again.

## Contents

* `Path.start`, `Path.parts_eq`, `Path.parts_join` — the parts of paths that are put together.
* `exists_names_of_mem_filesBelow`, `exists_names_of_mem_files` — the parts of the paths of a scan.
* `exists_up_of_target_eq`, `nodup_target_of_files` — when two paths of a scan lead to one file.
* `scanned_twice` — a file that is scanned twice.
-/

namespace ThreatModel

open FileTree Walk

/-! ## Paths that are put together -/

namespace Path

/-- What a path starts with before its first name. -/
def start (path : String) : List Part :=
  if path.toList.head? = some '/' then [.root] else if (pieces path).head? = some "." then [.here] else []

theorem parts_eq (path : String) : parts path = start path ++ (pieces path).filterMap partOf := by
  unfold parts start
  simp only
  split
  · rfl
  · split <;> rfl

/-- The pieces of two texts with a slash between them. -/
theorem map_splitOn_slash (front : List Char) (path : String) :
    (Text.splitOn '/' (front ++ '/' :: path.toList)).map String.ofList
      = (Text.splitOn '/' front).map String.ofList ++ pieces path := by
  rw [Text.splitOn_append_cons, List.map_append, pieces]

/-- **The parts of a relative path in a directory** are those of the directory and those that the path spells. -/
theorem parts_join {directory path : String} (hdirectory : directory ≠ "") (hpath : isAbsolute path = false) :
    parts (join directory path) = parts directory ++ (pieces path).filterMap partOf := by
  have hchars : directory.toList ≠ [] := by simpa using hdirectory
  have hfront : ∀ front : List Char, (Text.splitOn '/' front).map String.ofList ≠ [] := fun front hnil =>
    Text.splitOn_ne_nil _ _ (List.map_eq_nil_iff.mp hnil)
  by_cases hslash : directory.toList.getLast? = some '/'
  · -- The slash at the end of the directory is the one between the two.
    obtain ⟨front, hends⟩ := List.getLast?_eq_some_iff.mp hslash
    have hjoin : (join directory path).toList = front ++ '/' :: path.toList := by
      simp [join, hpath, hdirectory, hends]
    have hpieces : pieces (join directory path) = (Text.splitOn '/' front).map String.ofList ++ pieces path := by
      rw [pieces, hjoin, map_splitOn_slash]
    have hpieces' : pieces directory = (Text.splitOn '/' front).map String.ofList ++ [""] := by
      rw [pieces, hends, Text.splitOn_concat_self, List.map_append]
      rfl
    have hhead : (front ++ '/' :: path.toList).head? = (front ++ ['/']).head? := by cases front <;> rfl
    rw [parts_eq, parts_eq, start, start, hjoin, hpieces, hpieces', hends, hhead,
      List.head?_append_of_ne_nil _ (hfront _), List.head?_append_of_ne_nil _ (hfront _), List.filterMap_append,
      List.filterMap_append, List.append_assoc, List.append_assoc]
    rfl
  · have hjoin : (join directory path).toList = directory.toList ++ '/' :: path.toList := by
      simp [join, hpath, hdirectory, hslash]
    have hpieces : pieces (join directory path) = pieces directory ++ pieces path := by
      rw [pieces, hjoin, map_splitOn_slash, pieces, pieces]
    have hne : pieces directory ≠ [] := hfront directory.toList
    rw [parts_eq, parts_eq, start, start, hjoin, hpieces, List.head?_append_of_ne_nil _ hchars,
      List.head?_append_of_ne_nil _ hne, List.filterMap_append, List.append_assoc]

/-- A name in a directory is one more part. -/
theorem parts_join_name {directory name : String} (hdirectory : directory ≠ "") (hname : IsFileName name) :
    parts (join directory name) = parts directory ++ [.name name] := by
  have hpieces : pieces name = [name] := by
    rw [pieces, Text.splitOn_of_not_mem hname.no_slash, List.map_singleton, String.ofList_toList]
  have hpart : partOf name = some (.name name) := by
    simp [partOf, hname.not_empty, hname.not_here, hname.not_up]
  rw [parts_join hdirectory (isAbsolute_of_no_slash hname.no_slash), hpieces,
    List.filterMap_cons_some hpart, List.filterMap_nil]

theorem join_name_ne_empty {directory name : String} (hdirectory : directory ≠ "") (hname : IsFileName name) :
    join directory name ≠ "" := by
  intro hempty
  have hparts := parts_join_name hdirectory hname
  rw [hempty] at hparts
  exact List.append_ne_nil_of_right_ne_nil _ (List.cons_ne_nil _ _) hparts.symm

/-- The place that a path with names at its end leads to. -/
theorem foldl_onward_names (parts : List Part) (names : List String) :
    (parts ++ names.map Part.name).foldl Part.onward [] = parts.foldl Part.onward [] ++ names := by
  rw [List.foldl_append]
  generalize parts.foldl Part.onward [] = place
  induction names generalizing place with
  | nil => exact (List.append_nil place).symm
  | cons name names ih =>
    rw [List.map_cons, List.foldl_cons, ih, Part.onward, List.append_assoc, List.singleton_append]

/-- What a path spells are names, if it never goes up. -/
theorem exists_names_of_not_up {path : String} (h : Part.up ∉ parts path) :
    ∃ names : List String, (pieces path).filterMap partOf = names.map Part.name := by
  have hall : ∀ part ∈ (pieces path).filterMap partOf, ∃ name, part = .name name := by
    intro part hpart
    obtain ⟨piece, -, hpiece⟩ := List.mem_filterMap.mp hpart
    unfold partOf at hpiece
    split at hpiece
    · cases hpiece
    · split at hpiece
      · obtain rfl := Option.some.inj hpiece
        refine absurd ?_ h
        rw [parts_eq]
        exact List.mem_append_right _ hpart
      · exact ⟨piece, (Option.some.inj hpiece).symm⟩
  generalize (pieces path).filterMap partOf = spelled at hall
  induction spelled with
  | nil => exact ⟨[], rfl⟩
  | cons part rest ih =>
    obtain ⟨⟨name, rfl⟩, hrest⟩ := List.forall_mem_cons.mp hall
    obtain ⟨names, rfl⟩ := ih hrest
    exact ⟨name :: names, rfl⟩

end Path

/-! ## The paths that a walk finds -/

/-- Paths from the root lead out of a tree. -/
theorem FileTree.isAbsolute_of_locate {tree : FileTree} {path : String} {place : Place}
    (h : tree.locate path = .ok place) : Path.isAbsolute path = false := by
  unfold locate at h
  split at h
  · cases h
  · split at h
    · cases h
    · next hrelative => exact (by simpa using hrelative : path ≠ "" ∧ Path.isAbsolute path = false).2

namespace Walk

variable {tree : FileTree}

/-- The path of a file that is found has the names that lead to it at its end. -/
theorem exists_names_of_mem_visit (hproper : tree.Proper) {depth : Nat} :
    ∀ {levels : List Level} {path : String} {names : List String} {place : Place} {found : Found}, path ≠ "" →
      found ∈ visit tree depth levels path names place →
      ∃ more : List String, Path.parts found.path = Path.parts path ++ more.map Path.Part.name := by
  induction depth with
  | zero =>
    intro _ _ _ _ _ _ h
    cases h
  | succ depth ih =>
    intro levels path names place found hpath h
    rw [visit_succ] at h
    obtain ⟨⟨name, entry⟩, hmem, h⟩ := List.mem_flatMap.mp h
    have hname := isFileName_of_mem_children hproper hmem
    have hparts := Path.parts_join_name hpath hname
    rcases mem_foundAt h with ⟨-, rfl⟩ | ⟨-, hbelow⟩
    · exact ⟨[name], hparts⟩
    · obtain ⟨more, hmore⟩ := ih (Path.join_name_ne_empty hpath hname) hbelow
      exact ⟨name :: more, by rw [hmore, hparts, List.append_assoc]; rfl⟩

theorem exists_names_of_mem_filesBelow (hproper : tree.Proper) {start : String} {found : Found}
    (h : found ∈ filesBelow tree start) :
    ∃ more : List String, Path.parts found.path = Path.parts start ++ more.map Path.Part.name := by
  have hstart : start ≠ "" := by
    rintro rfl
    cases h
  unfold filesBelow at h
  split at h
  · cases h
  · split at h
    · cases h
    · obtain rfl := List.mem_singleton.mp h
      exact ⟨[], (List.append_nil _).symm⟩
    · exact exists_names_of_mem_visit hproper hstart h

end Walk

namespace Scan

variable {tree : FileTree} {directory : String} {p : Project} {paths : List String}

/-! ## The paths of a scan -/

/-- The paths of a scan start with those of its scan roots, and go on with names. -/
theorem exists_names_of_mem_files (hproper : tree.Proper) (h : files directory p tree = .ok paths) {path : String}
    (hpath : path ∈ paths) :
    ∃ root ∈ p.scanRoots, Path.isAbsolute (Path.join directory root.path) = false ∧ ∃ more : List String,
      Path.parts path = Path.parts (Path.join directory root.path) ++ more.map Path.Part.name := by
  obtain ⟨found, hfound, rfl⟩ := files_ok h
  have hmem := (mem_of_mem_foldl_insertPath hpath).resolve_left List.not_mem_nil
  obtain ⟨paths, hpaths, hpath⟩ := List.mem_flatten.mp hmem
  obtain ⟨root, hroot, hfiles⟩ := exists_of_mem_mapM_ok hfound hpaths
  rcases filesOf_ok hfiles with ⟨-, rfl⟩ | ⟨hthere, globs, -, rfl⟩
  · cases hpath
  · obtain ⟨file, hfile, rfl⟩ := List.mem_map.mp hpath
    obtain ⟨entry, hentry⟩ := Option.isSome_iff_exists.mp hthere
    exact ⟨root, hroot, isAbsolute_of_locate (find?_eq_some_iff.mp hentry).1,
      exists_names_of_mem_filesBelow hproper (List.mem_filter.mp hfile).1⟩

/-- A path of a scan in a directory goes on with names after the directory, or is found from a scan root that goes up. -/
theorem direct_or_up (hproper : tree.Proper) (hdirectory : directory ≠ "") (h : files directory p tree = .ok paths)
    {path : String} (hpath : path ∈ paths) :
    (∃ names : List String, Path.parts path = Path.parts directory ++ names.map Path.Part.name) ∨
      ∃ root ∈ p.scanRoots, .up ∈ Path.parts root.path ∧
        Path.parts (Path.join directory root.path) <+: Path.parts path := by
  obtain ⟨root, hroot, hrelative, more, hparts⟩ := exists_names_of_mem_files hproper h hpath
  by_cases hup : .up ∈ Path.parts root.path
  · exact Or.inr ⟨root, hroot, hup, hparts ▸ List.prefix_append _ _⟩
  · have hrelative' : Path.isAbsolute root.path = false := by
      by_contra habsolute
      rw [Path.join, if_pos (by simp [habsolute])] at hrelative
      exact habsolute hrelative
    obtain ⟨names, hnames⟩ := Path.exists_names_of_not_up hup
    refine Or.inl ⟨names ++ more, ?_⟩
    rw [hparts, Path.parts_join hdirectory hrelative', hnames, List.map_append, List.append_assoc]

/-- **A file is listed twice only through a scan root that goes up.** -/
theorem exists_up_of_target_eq (hproper : tree.Proper) (hdirectory : directory ≠ "")
    (h : files directory p tree = .ok paths) {a b : String} (ha : a ∈ paths) (hb : b ∈ paths) (hne : a ≠ b)
    (htarget : Path.target a = Path.target b) :
    ∃ root ∈ p.scanRoots, .up ∈ Path.parts root.path ∧
      (Path.parts (Path.join directory root.path) <+: Path.parts a ∨
        Path.parts (Path.join directory root.path) <+: Path.parts b) := by
  rcases direct_or_up hproper hdirectory h ha with ⟨names, hparts⟩ | ⟨root, hroot, hup, hfront⟩
  · rcases direct_or_up hproper hdirectory h hb with ⟨names', hparts'⟩ | ⟨root, hroot, hup, hfront⟩
    · -- Both paths go on with names, and these have to be the same.
      rw [Path.target, Path.target, hparts, hparts', Path.foldl_onward_names, Path.foldl_onward_names] at htarget
      have hnames := List.append_cancel_left htarget
      have heq : Path.parts a = Path.parts b := by rw [hparts, hparts', hnames]
      exact absurd (List.inj_on_of_nodup_map (sorted_files h).nodup_parts ha hb heq) hne
    · exact ⟨root, hroot, hup, Or.inr hfront⟩
  · exact ⟨root, hroot, hup, Or.inl hfront⟩

/-- **Every file is scanned once, unless a scan root goes up.** The paths of a scan have different parts, come in their
order and lead to files. In the directory of a project, two of them lead to one file only if one of them is found from a
scan root that goes to a directory above; so without such scan roots all lead to different files. -/
theorem nodup_target_of_files (hproper : tree.Proper) (h : files directory p tree = .ok paths) :
    blocks directory p tree = .ok (paths.flatMap (blocksOf directory tree)) ∧ Sorted paths ∧
      (∀ path ∈ paths, ∃ content, tree.find? path = some (.file content)) ∧
      (directory ≠ "" → ∀ a ∈ paths, ∀ b ∈ paths, a ≠ b → Path.target a = Path.target b →
        ∃ root ∈ p.scanRoots, .up ∈ Path.parts root.path ∧
          (Path.parts (Path.join directory root.path) <+: Path.parts a ∨
            Path.parts (Path.join directory root.path) <+: Path.parts b)) ∧
      (directory ≠ "" → (∀ root ∈ p.scanRoots, .up ∉ Path.parts root.path) → (paths.map Path.target).Nodup) := by
  have hsorted := sorted_files h
  refine ⟨bind_ok.mpr ⟨paths, h, rfl⟩, hsorted, fun path => exists_file_of_mem_files hproper h, ?_, ?_⟩
  · intro hdirectory a ha b hb hne htarget
    exact exists_up_of_target_eq hproper hdirectory h ha hb hne htarget
  · intro hdirectory hdirect
    refine hsorted.nodup_parts.of_map.map_on fun a ha b hb htarget => ?_
    by_contra hne
    obtain ⟨root, hroot, hup, -⟩ := exists_up_of_target_eq hproper hdirectory h ha hb hne htarget
    exact hdirect root hroot hup

/-- A file below two scan roots, one inside the other, is scanned once. -/
theorem nodup_target_oneReview :
    files "." twoRoots oneReview = .ok ["./src/a.rs"] ∧
      blocks "." twoRoots oneReview = .ok (["./src/a.rs"].flatMap (blocksOf "." oneReview)) ∧
      (["./src/a.rs"].map Path.target).Nodup := by
  have hproper : oneReview.Proper := by decide +kernel
  have hfiles : files "." twoRoots oneReview = .ok ["./src/a.rs"] := by decide +kernel
  obtain ⟨hblocks, -, -, -, hnodup⟩ := nodup_target_of_files hproper hfiles
  exact ⟨hfiles, hblocks, hnodup (by decide) (by decide +kernel)⟩

/-- Two scan roots that spell one directory in two ways. -/
def upAndDown : Project := { twoRoots with scanRoots := [.plain "src", .plain "src/../src"] }

/-- **A file that is scanned twice**: its two paths lead to one place, and its directive is found under both. -/
theorem scanned_twice :
    oneReview.Proper ∧ files "." upAndDown oneReview = .ok ["./src/../src/a.rs", "./src/a.rs"] ∧
      oneReview.locate "./src/../src/a.rs" = .ok ["src", "a.rs"] ∧
      oneReview.locate "./src/a.rs" = .ok ["src", "a.rs"] ∧
      ¬(["./src/../src/a.rs", "./src/a.rs"].map Path.target).Nodup ∧
      (blocks "." upAndDown oneReview).map (·.map fun found =>
          (found.block.location.map (·.filename), found.occurrences.length))
        = .ok [(some "src/src/a.rs", 1), (some "src/a.rs", 1)] := by
  decide +kernel

end Scan
end ThreatModel
