import Mathlib
import ThreatModel.Proofs.Walk
import ThreatModel.Scan

/-!
# `Proofs.Scan` — what a scan reads

A scan reads the files that it finds below its roots, and nothing else. So it finds the same blocks in two trees that
differ inside a directory only, as long as none of the files it reads is in there, and the same scan roots lead to
something outside.

## Contents

* `mapM_ok_iff` — results for a list.
* `mem_of_mem_foldl_insertPath`, `exists_of_mem_foldl_insertPath` — the paths that are put in order.
* `exists_file_of_mem_filesOf`, `exists_file_of_mem_files` — the files of a scan are there.
* `eq_scan_of_mem_blocks` — blocks are listed with their own directives.
* `Reaches`, `filesOf_eq`, `files_eq`, `blocks_eq` — two trees that agree outside a directory.
-/

namespace ThreatModel

open FileTree (bind_ok)

/-- Results for a list are those for its elements. -/
theorem mapM_ok_iff {α β ε : Type} {f : α → Except ε β} {xs : List α} {ys : List β} :
    xs.mapM f = .ok ys ↔ xs.Forall₂ (fun x y => f x = .ok y) ys := by
  induction xs generalizing ys with
  | nil =>
    rw [List.mapM_nil, List.forall₂_nil_left_iff]
    exact ⟨fun h => (Except.ok.inj h).symm, fun h => congrArg Except.ok h.symm⟩
  | cons x xs ih =>
    rw [List.mapM_cons, List.forall₂_cons_left_iff]
    simp only [bind_ok, ih]
    constructor
    · rintro ⟨y, hy, more, hmore, h⟩
      exact ⟨y, more, hy, hmore, (Except.ok.inj h).symm⟩
    · rintro ⟨y, more, hy, hmore, rfl⟩
      exact ⟨y, hy, more, hmore, rfl⟩

theorem exists_of_mem_mapM_ok {α β ε : Type} {f : α → Except ε β} {xs : List α} {ys : List β} (h : xs.mapM f = .ok ys)
    {y : β} (hy : y ∈ ys) : ∃ x ∈ xs, f x = .ok y := by
  rw [mapM_ok_iff] at h
  induction h with
  | nil => cases hy
  | cons hx _ ih =>
    rcases List.mem_cons.mp hy with rfl | hy
    · exact ⟨_, List.mem_cons_self, hx⟩
    · obtain ⟨x, hmem, hx⟩ := ih hy
      exact ⟨x, List.mem_cons_of_mem _ hmem, hx⟩

/-- Two functions with the same results for the elements of a list have the same results for the list. -/
theorem eq_of_mapM_ok {α β ε : Type} {f g : α → Except ε β} {xs : List α} {ys zs : List β}
    (hf : xs.mapM f = .ok ys) (hg : xs.mapM g = .ok zs)
    (h : ∀ x ∈ xs, ∀ y ∈ ys, ∀ z ∈ zs, f x = .ok y → g x = .ok z → z = y) : zs = ys := by
  rw [mapM_ok_iff] at hf hg
  induction hf generalizing zs with
  | nil =>
    cases hg
    rfl
  | cons hx _ ih =>
    obtain ⟨z, more, hz, hmore, rfl⟩ := List.forall₂_cons_left_iff.mp hg
    rw [h _ List.mem_cons_self _ List.mem_cons_self _ List.mem_cons_self hx hz, ih hmore]
    intro x hmem y hy z' hz'
    exact h x (List.mem_cons_of_mem _ hmem) y (List.mem_cons_of_mem _ hy) z' (List.mem_cons_of_mem _ hz')

/-- A function that gives the same results for the elements of a list gives the same results for the list. -/
theorem mapM_ok_of_forall {α β ε : Type} {f g : α → Except ε β} {xs : List α} {ys : List β} (hf : xs.mapM f = .ok ys)
    (h : ∀ x ∈ xs, ∀ y, f x = .ok y → g x = .ok y) : xs.mapM g = .ok ys := by
  rw [mapM_ok_iff] at hf ⊢
  induction hf with
  | nil => exact .nil
  | cons hx _ ih =>
    obtain ⟨hfirst, hrest⟩ := List.forall_mem_cons.mp h
    exact .cons (hfirst _ hx) (ih hrest)

namespace Scan

open FileTree Walk

variable {tree other : FileTree} {directory : String} {extensions : List String} {root : ScanRoot}

/-! ## Paths in order -/

theorem mem_of_mem_insertPath {path other : String} {paths : List String} (h : other ∈ insertPath path paths) :
    other = path ∨ other ∈ paths := by
  induction paths with
  | nil => exact Or.inl (List.mem_singleton.mp h)
  | cons first rest ih =>
    unfold insertPath at h
    split at h
    · exact Or.inr h
    · split at h
      · exact List.mem_cons.mp h
      · rcases List.mem_cons.mp h with rfl | h
        · exact Or.inr List.mem_cons_self
        · exact (ih h).imp_right (List.mem_cons_of_mem _)

/-- A path is in the order, with the spelling of the first path with its parts. -/
theorem exists_of_mem_insertPath {path other : String} {paths : List String} (h : other = path ∨ other ∈ paths) :
    ∃ same ∈ insertPath path paths, Path.parts same = Path.parts other := by
  induction paths with
  | nil =>
    rcases h with rfl | h
    · exact ⟨_, List.mem_cons_self, rfl⟩
    · cases h
  | cons first rest ih =>
    unfold insertPath
    split
    · next heq =>
      rcases h with rfl | h
      · exact ⟨first, List.mem_cons_self, heq.symm⟩
      · exact ⟨other, h, rfl⟩
    · split
      · exact ⟨other, List.mem_cons.mpr h, rfl⟩
      · rcases h with h | h
        · obtain ⟨same, hsame, heq⟩ := ih (Or.inl h)
          exact ⟨same, List.mem_cons_of_mem _ hsame, heq⟩
        · rcases List.mem_cons.mp h with rfl | h
          · exact ⟨_, List.mem_cons_self, rfl⟩
          · obtain ⟨same, hsame, heq⟩ := ih (Or.inr h)
            exact ⟨same, List.mem_cons_of_mem _ hsame, heq⟩

theorem mem_of_mem_foldl_insertPath {path : String} {found paths : List String}
    (h : path ∈ found.foldl (fun files path => insertPath path files) paths) : path ∈ paths ∨ path ∈ found := by
  induction found generalizing paths with
  | nil => exact Or.inl h
  | cons first rest ih =>
    rcases ih h with h | h
    · rcases mem_of_mem_insertPath h with rfl | h
      · exact Or.inr List.mem_cons_self
      · exact Or.inl h
    · exact Or.inr (List.mem_cons_of_mem _ h)

theorem exists_of_mem_foldl_insertPath {path : String} {found paths : List String} (h : path ∈ paths ∨ path ∈ found) :
    ∃ same ∈ found.foldl (fun files path => insertPath path files) paths, Path.parts same = Path.parts path := by
  induction found generalizing path paths with
  | nil => exact ⟨path, h.resolve_right List.not_mem_nil, rfl⟩
  | cons first rest ih =>
    rw [List.mem_cons, ← or_assoc, or_comm (a := path ∈ paths)] at h
    rcases h with h | h
    · obtain ⟨same, hsame, heq⟩ := exists_of_mem_insertPath h
      obtain ⟨last, hlast, heq'⟩ := ih (Or.inl hsame)
      exact ⟨last, hlast, heq'.trans heq⟩
    · exact ih (Or.inr h)

/-! ## Files -/

/-- The files of a scan root are those that a walk finds, or none. -/
theorem filesOf_ok {paths : List String} (h : filesOf directory extensions tree root = .ok paths) :
    (tree.contains (Path.join directory root.path) = false ∧ paths = []) ∨
      tree.contains (Path.join directory root.path) = true ∧ ∃ globs, patterns root = .ok globs ∧
        paths = ((filesBelow tree (Path.join directory root.path)).filter fun file =>
          hasExtension extensions file.path && !isIgnored globs file.names).map Found.path := by
  unfold filesOf at h
  simp only at h
  by_cases hthere : tree.contains (Path.join directory root.path) = true
  · rw [if_pos hthere] at h
    obtain ⟨globs, hglobs, h⟩ := bind_ok.mp h
    exact Or.inr ⟨hthere, globs, hglobs, (Except.ok.inj h).symm⟩
  · rw [if_neg hthere] at h
    exact Or.inl ⟨eq_false_of_ne_true hthere, (Except.ok.inj h).symm⟩

/-- The files of a scan root are there, below it. -/
theorem exists_file_of_mem_filesOf (hproper : tree.Proper) {paths : List String} {path : String}
    (h : filesOf directory extensions tree root = .ok paths) (hpath : path ∈ paths) :
    (∃ content, tree.find? path = some (.file content)) ∧
      Path.target (Path.join directory root.path) <+: Path.target path := by
  rcases filesOf_ok h with ⟨-, rfl⟩ | ⟨-, globs, -, rfl⟩
  · cases hpath
  · obtain ⟨found, hfound, rfl⟩ := List.mem_map.mp hpath
    obtain ⟨hcontent, htarget⟩ := exists_file_of_mem_filesBelow hproper (List.mem_filter.mp hfound).1
    exact ⟨hcontent, htarget ▸ List.prefix_append _ _⟩

/-- The files of a scan are those of its scan roots, in order. -/
theorem files_ok {p : Project} {paths : List String} (h : files directory p tree = .ok paths) :
    ∃ found, p.scanRoots.mapM (filesOf directory p.extensions tree) = .ok found ∧
      paths = found.flatten.foldl (fun files path => insertPath path files) [] := by
  obtain ⟨found, hfound, h⟩ := bind_ok.mp h
  exact ⟨found, hfound, (Except.ok.inj h).symm⟩

/-- The files of a scan root are among the files of the scan, in some spelling. -/
theorem exists_of_mem_filesOf {found : List (List String)} {paths : List String} (hpaths : paths ∈ found)
    {path : String} (hpath : path ∈ paths) :
    ∃ same ∈ found.flatten.foldl (fun files path => insertPath path files) [], Path.parts same = Path.parts path :=
  exists_of_mem_foldl_insertPath (Or.inr (List.mem_flatten.mpr ⟨paths, hpaths, hpath⟩))

/-- **The files of a scan are there.** -/
theorem exists_file_of_mem_files (hproper : tree.Proper) {p : Project} {paths : List String} {path : String}
    (h : files directory p tree = .ok paths) (hpath : path ∈ paths) : ∃ content, tree.find? path = some (.file content) := by
  obtain ⟨found, hfound, rfl⟩ := files_ok h
  have hmem := (mem_of_mem_foldl_insertPath hpath).resolve_left List.not_mem_nil
  obtain ⟨paths, hpaths, hpath⟩ := List.mem_flatten.mp hmem
  obtain ⟨root, -, hroot⟩ := exists_of_mem_mapM_ok hfound hpaths
  exact (exists_file_of_mem_filesOf hproper hroot hpath).1

/-! ## Blocks -/

/-- What is read of a file depends on nothing else. -/
theorem blocksOf_eq {path : String} {content : ByteArray} (h : tree.find? path = some (.file content))
    (hother : other.find? path = some (.file content)) : blocksOf directory other path = blocksOf directory tree path := by
  unfold blocksOf
  rw [read_eq_of_file h hother]

/-- The blocks of a scan are those in its files. -/
theorem blocks_ok {p : Project} {found : List ScannedBlock} (h : blocks directory p tree = .ok found) :
    ∃ paths, files directory p tree = .ok paths ∧ found = paths.flatMap (blocksOf directory tree) := by
  obtain ⟨paths, hpaths, h⟩ := bind_ok.mp h
  exact ⟨paths, hpaths, (Except.ok.inj h).symm⟩

/-- **Blocks are listed with their own directives.** -/
theorem eq_scan_of_mem_blocks {p : Project} {found : List ScannedBlock} {block : ScannedBlock}
    (h : blocks directory p tree = .ok found) (hblock : block ∈ found) : block = block.block.scan := by
  obtain ⟨paths, -, rfl⟩ := blocks_ok h
  obtain ⟨path, -, hblock⟩ := List.mem_flatMap.mp hblock
  unfold blocksOf at hblock
  split at hblock
  · cases hblock
  · obtain ⟨inner, -, rfl⟩ := List.mem_map.mp (List.mem_filter.mp hblock).1
    rfl

/-! ## Trees that agree outside a directory -/

/-- A scan root leads to something outside a directory. -/
def Reaches (directory : String) (inside : Place) (tree : FileTree) (root : ScanRoot) : Prop :=
  tree.contains (Path.join directory root.path) = true ∧ ¬tree.LiesIn inside (Path.join directory root.path)

instance (directory : String) (inside : Place) (tree : FileTree) (root : ScanRoot) :
    Decidable (Reaches directory inside tree root) :=
  inferInstanceAs (Decidable (_ ∧ _))

section Agree

variable {home : Place} {name : String} (hname : name ∉ ignoreNames) (hproper : tree.Proper) (hother : other.Proper)
  (hagree : AgreeOutside (home ++ [name]) tree other)

/-- A scan root that leads to nothing outside a directory has no files outside it. -/
theorem filesOf_eq_nil (hproper : tree.Proper) {inside : Place} {paths : List String}
    (hreaches : ¬Reaches directory inside tree root) (h : filesOf directory extensions tree root = .ok paths)
    (houtside : ∀ path ∈ paths, ¬tree.LiesIn inside path) : paths = [] := by
  refine List.eq_nil_iff_forall_not_mem.mpr fun path hpath => houtside path hpath ?_
  obtain ⟨⟨content, hcontent⟩, htarget⟩ := exists_file_of_mem_filesOf hproper h hpath
  rcases filesOf_ok h with ⟨-, rfl⟩ | ⟨hthere, -⟩
  · cases hpath
  · -- Something is there, so it is inside the directory, and so is all that is below it.
    have hstart : tree.LiesIn inside (Path.join directory root.path) := by
      by_contra hnot
      exact hreaches ⟨hthere, hnot⟩
    exact liesIn_iff.mpr ⟨(find?_eq_some_iff.mp hcontent).1, (liesIn_iff.mp hstart).2.trans htarget⟩

include hname hproper hother hagree

/-- The files of a scan root outside a directory are the same. -/
theorem filesOf_eq {paths paths' : List String}
    (hreaches : Reaches directory (home ++ [name]) tree root ↔ Reaches directory (home ++ [name]) other root)
    (h : filesOf directory extensions tree root = .ok paths) (h' : filesOf directory extensions other root = .ok paths')
    (houtside : ∀ path ∈ paths, ¬tree.LiesIn (home ++ [name]) path)
    (houtside' : ∀ path ∈ paths', ¬other.LiesIn (home ++ [name]) path) : paths' = paths := by
  by_cases hroot : Reaches directory (home ++ [name]) tree root
  · obtain ⟨hthere, hstart⟩ := hroot
    obtain ⟨hthere', -⟩ := hreaches.mp ⟨hthere, hstart⟩
    have hlocate : ∀ {seen : FileTree}, seen.contains (Path.join directory root.path) = true →
        seen.locate (Path.join directory root.path) = .ok (Path.target (Path.join directory root.path)) := by
      intro seen hseen
      obtain ⟨entry, hentry⟩ := Option.isSome_iff_exists.mp hseen
      exact (find?_eq_some_iff.mp hentry).1
    have hfront : ¬home ++ [name] <+: Path.target (Path.join directory root.path) := fun hfront =>
      hstart (liesIn_iff.mpr ⟨hlocate hthere, hfront⟩)
    rcases filesOf_ok h with ⟨hnot, -⟩ | ⟨-, globs, hglobs, rfl⟩
    · exact absurd (hthere.symm.trans hnot) nofun
    · rcases filesOf_ok h' with ⟨hnot, -⟩ | ⟨-, globs', hglobs', rfl⟩
      · exact absurd (hthere'.symm.trans hnot) nofun
      · obtain rfl := Except.ok.inj (hglobs.symm.trans hglobs')
        -- The files that are taken are outside, where both walks find the same.
        have hfilter : ∀ {seen : FileTree}, seen.Proper →
            (∀ path ∈ ((filesBelow seen (Path.join directory root.path)).filter fun file =>
              hasExtension extensions file.path && !isIgnored globs file.names).map Found.path,
              ¬seen.LiesIn (home ++ [name]) path) →
            ((filesBelow seen (Path.join directory root.path)).filter fun file =>
                hasExtension extensions file.path && !isIgnored globs file.names)
              = ((filesBelow seen (Path.join directory root.path)).filter
                  (·.isOutside (home ++ [name]) (Path.target (Path.join directory root.path)))).filter fun file =>
                    hasExtension extensions file.path && !isIgnored globs file.names := by
          intro seen hseen hout
          rw [List.filter_filter]
          refine List.filter_congr fun found hfound => ?_
          obtain ⟨⟨content, hcontent⟩, htarget⟩ := exists_file_of_mem_filesBelow hseen hfound
          cases htaken : hasExtension extensions found.path && !isIgnored globs found.names with
          | false => rfl
          | true =>
            have hnot := hout found.path (List.mem_map_of_mem (List.mem_filter.mpr ⟨hfound, htaken⟩))
            rw [liesIn_iff, not_and, htarget] at hnot
            have hlocated := (find?_eq_some_iff.mp hcontent).1
            rw [htarget] at hlocated
            simpa [Found.isOutside] using hnot hlocated
        rw [hfilter hproper houtside, hfilter hother houtside',
          filter_filesBelow_eq hname hproper hother hagree (hlocate hthere) (hlocate hthere') hfront]
  · rw [filesOf_eq_nil hproper hroot h houtside, filesOf_eq_nil hother (hreaches.not.mp hroot) h' houtside']

variable {p : Project} (hreaches : ∀ root ∈ p.scanRoots,
  Reaches directory (home ++ [name]) tree root ↔ Reaches directory (home ++ [name]) other root)

include hreaches

/-- **The files of a scan** outside a directory are the same. -/
theorem files_eq {paths paths' : List String} (h : files directory p tree = .ok paths)
    (h' : files directory p other = .ok paths') (houtside : ∀ path ∈ paths, ¬tree.LiesIn (home ++ [name]) path)
    (houtside' : ∀ path ∈ paths', ¬other.LiesIn (home ++ [name]) path) : paths' = paths := by
  obtain ⟨found, hfound, rfl⟩ := files_ok h
  obtain ⟨found', hfound', rfl⟩ := files_ok h'
  -- A file that is left out for its parts leads where the one that stays leads.
  have hall : ∀ {seen : FileTree} {found : List (List String)}, seen.Proper →
      p.scanRoots.mapM (filesOf directory p.extensions seen) = .ok found →
      (∀ path ∈ found.flatten.foldl (fun files path => insertPath path files) [],
        ¬seen.LiesIn (home ++ [name]) path) →
      ∀ paths ∈ found, ∀ path ∈ paths, ¬seen.LiesIn (home ++ [name]) path := by
    intro seen found hseen hfound hout paths hpaths path hpath hlies
    obtain ⟨same, hsame, hparts⟩ := exists_of_mem_filesOf hpaths hpath
    obtain ⟨content, hcontent⟩ := exists_file_of_mem_files hseen (p := p) (by
      unfold files
      rw [hfound]
      rfl) hsame
    refine hout same hsame (liesIn_iff.mpr ⟨(find?_eq_some_iff.mp hcontent).1, ?_⟩)
    have htarget : Path.target same = Path.target path := by
      unfold Path.target
      rw [hparts]
    rw [htarget]
    exact (liesIn_iff.mp hlies).2
  have heq : found' = found := eq_of_mapM_ok hfound hfound' fun root hroot paths hpaths paths' hpaths' hf hg =>
    filesOf_eq hname hproper hother hagree (hreaches root hroot) hf hg (hall hproper hfound houtside paths hpaths)
      (hall hother hfound' houtside' paths' hpaths')
  rw [heq]

/-- **The blocks of a scan** that reads nothing inside a directory are the same. -/
theorem blocks_eq {found found' : List ScannedBlock} (h : blocks directory p tree = .ok found)
    (h' : blocks directory p other = .ok found')
    (houtside : ∀ paths, files directory p tree = .ok paths → ∀ path ∈ paths, ¬tree.LiesIn (home ++ [name]) path)
    (houtside' : ∀ paths, files directory p other = .ok paths → ∀ path ∈ paths, ¬other.LiesIn (home ++ [name]) path) :
    found' = found := by
  obtain ⟨paths, hpaths, rfl⟩ := blocks_ok h
  obtain ⟨paths', hpaths', rfl⟩ := blocks_ok h'
  obtain rfl := files_eq hname hproper hother hagree hreaches hpaths hpaths' (houtside _ hpaths)
    (houtside' _ hpaths')
  refine List.flatMap_congr fun path hpath => ?_
  obtain ⟨content, hcontent⟩ := exists_file_of_mem_files hproper hpaths hpath
  obtain ⟨content', hcontent'⟩ := exists_file_of_mem_files hother hpaths' hpath
  have hsame := hagree.find?_eq hcontent hcontent' (houtside _ hpaths path hpath)
  exact blocksOf_eq hcontent (hsame.trans hcontent)

end Agree

end Scan
end ThreatModel
