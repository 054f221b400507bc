import Mathlib
import ThreatModel.Proofs.Run.Failure
import ThreatModel.Proofs.Scan.Order

/-!
# `Proofs.Scan.Rearranged` — configurations that are written in another way

What a scan finds is decided by which scan roots and which extensions are configured, not by their order, by how often
they are listed, or by points in front of the extensions. More of them never lose a file, and more patterns never win
one.

## Contents

* `ScanRoot.Valid`, `exists_files` — configurations whose patterns are all patterns.
* `mem_patterns_iff`, `isIgnored_mono`, `hasExtension_mono` — what is left out and what is taken.
* `Covers`, `subset_filesOf`, `subset_files` — a configuration that takes all files of another one.
* `blocks_congr` — two configurations that cover each other.
* `FindsAll`, `blocks_rearranged` — changes of a configuration.
-/

namespace ThreatModel

open FileTree (bind_ok)

section Results

variable {α β ε : Type} {f : α → Except ε β} {xs : List α}

theorem exists_mem_of_mapM_ok {ys : List β} (h : xs.mapM f = .ok ys) {x : α} (hx : x ∈ xs) :
    ∃ y ∈ ys, f x = .ok y := by
  rw [mapM_ok_iff] at h
  induction h with
  | nil => cases hx
  | cons hfirst _ ih =>
    rcases List.mem_cons.mp hx with rfl | hx
    · exact ⟨_, List.mem_cons_self, hfirst⟩
    · obtain ⟨y, hmem, hy⟩ := ih hx
      exact ⟨y, List.mem_cons_of_mem _ hmem, hy⟩

theorem exists_mapM_ok (h : ∀ x ∈ xs, ∃ y, f x = .ok y) : ∃ ys, xs.mapM f = .ok ys := by
  induction xs with
  | nil => exact ⟨[], rfl⟩
  | cons x xs ih =>
    obtain ⟨⟨y, hy⟩, hrest⟩ := List.forall_mem_cons.mp h
    obtain ⟨ys, hys⟩ := ih hrest
    exact ⟨y :: ys, mapM_ok_iff.mpr (.cons hy (mapM_ok_iff.mp hys))⟩

end Results

section Inserted

variable {α : Type}

theorem subset_insert (before : List α) (x : α) (after : List α) : before ++ after ⊆ before ++ x :: after :=
  ((List.sublist_cons_self x after).append_left before).subset

theorem forall_mem_insert {P : α → Prop} {before after : List α} {x : α} :
    (∀ a ∈ before ++ x :: after, P a) ↔ P x ∧ ∀ a ∈ before ++ after, P a := by
  simp only [List.forall_mem_append, List.forall_mem_cons]
  exact ⟨fun ⟨hbefore, hx, hafter⟩ => ⟨hx, hbefore, hafter⟩, fun ⟨hx, hbefore, hafter⟩ => ⟨hbefore, hx, hafter⟩⟩

end Inserted

/-- A scan root all of whose patterns are patterns. -/
def ScanRoot.Valid (root : ScanRoot) : Prop := ∀ pattern ∈ root.ignore, ∃ glob, Glob.ofText pattern = .ok glob

instance (pattern : String) : Decidable (∃ glob, Glob.ofText pattern = .ok glob) :=
  decidable_of_iff ((Glob.ofText pattern).isOk = true) (by
    cases Glob.ofText pattern <;> simp [Except.isOk, Except.toBool])

instance (root : ScanRoot) : Decidable root.Valid :=
  inferInstanceAs (Decidable (∀ pattern ∈ root.ignore, _))

namespace Scan

open FileTree Walk

variable {directory : String} {tree : FileTree} {p p' : Project} {root root' : ScanRoot}
  {extensions extensions' : List String}

/-! ## What is left out and what is taken -/

theorem mem_patterns_iff {globs : List Glob} (h : patterns root = .ok globs) {glob : Glob} :
    glob ∈ globs ↔ ∃ pattern ∈ root.ignore, Glob.ofText pattern = .ok glob := by
  constructor
  · intro hglob
    obtain ⟨pattern, hpattern, hok⟩ := exists_of_mem_mapM_ok h hglob
    exact ⟨pattern, hpattern, mapError_ok_iff.mp hok⟩
  · rintro ⟨pattern, hpattern, hok⟩
    obtain ⟨other, hother, hok'⟩ := exists_mem_of_mapM_ok h hpattern
    obtain rfl := Except.ok.inj (hok.symm.trans (mapError_ok_iff.mp hok'))
    exact hother

/-- More patterns leave out more. -/
theorem isIgnored_mono {globs globs' : List Glob} (h : globs ⊆ globs') {names : List String}
    (hignored : isIgnored globs names = true) : isIgnored globs' names = true := by
  obtain ⟨glob, hglob, haccepts⟩ := List.any_eq_true.mp hignored
  exact List.any_eq_true.mpr ⟨glob, h hglob, haccepts⟩

/-- More extensions take more. -/
theorem hasExtension_mono (h : extensions.map bareExtension ⊆ extensions'.map bareExtension) {path : String}
    (htaken : hasExtension extensions path = true) : hasExtension extensions' path = true := by
  unfold hasExtension at htaken ⊢
  split at htaken
  · next extension _ =>
    obtain ⟨e, he, heq⟩ := List.any_eq_true.mp htaken
    obtain ⟨e', he', heq'⟩ := List.mem_map.mp (h (List.mem_map_of_mem he))
    exact List.any_eq_true.mpr ⟨e', he', by rwa [heq']⟩
  · cases htaken

/-- A point in front of an extension does not count. -/
theorem bareExtension_point (extension : String) : bareExtension ("." ++ extension) = bareExtension extension := by
  unfold bareExtension
  rw [String.toList_append]
  rfl

/-! ## Files -/

/-- A configuration that takes all files of another one: it has all its scan roots, with no other patterns, and all its
extensions. -/
structure Covers (p' p : Project) : Prop where
  roots : ∀ root ∈ p.scanRoots, ∃ root' ∈ p'.scanRoots, root'.path = root.path ∧ root'.ignore ⊆ root.ignore
  extensions : p.extensions.map bareExtension ⊆ p'.extensions.map bareExtension

/-- A scan root with fewer patterns has all files, and more extensions have as well. -/
theorem subset_filesOf {paths paths' : List String} (hpath : root'.path = root.path) (hignore : root'.ignore ⊆ root.ignore)
    (hextensions : extensions.map bareExtension ⊆ extensions'.map bareExtension)
    (h : filesOf directory extensions tree root = .ok paths)
    (h' : filesOf directory extensions' tree root' = .ok paths') : paths ⊆ paths' := by
  intro path hmem
  rcases filesOf_ok h with ⟨-, rfl⟩ | ⟨hthere, globs, hglobs, rfl⟩
  · cases hmem
  · rcases filesOf_ok h' with ⟨hnot, -⟩ | ⟨-, globs', hglobs', rfl⟩
    · rw [hpath, hthere] at hnot
      cases hnot
    · obtain ⟨file, hfile, rfl⟩ := List.mem_map.mp hmem
      obtain ⟨hfound, htaken⟩ := List.mem_filter.mp hfile
      obtain ⟨hextension, hignored⟩ := Bool.and_eq_true_iff.mp htaken
      have hsub : globs' ⊆ globs := by
        intro glob hglob
        obtain ⟨pattern, hpattern, hok⟩ := (mem_patterns_iff hglobs').mp hglob
        exact (mem_patterns_iff hglobs).mpr ⟨pattern, hignore hpattern, hok⟩
      have hkept : isIgnored globs' file.names = false := by
        by_contra hnot
        rw [isIgnored_mono hsub (Bool.of_not_eq_false hnot)] at hignored
        cases hignored
      rw [hpath]
      refine List.mem_map_of_mem (List.mem_filter.mpr ⟨hfound, ?_⟩)
      rw [hasExtension_mono hextensions hextension, hkept]
      rfl

/-- **A configuration that covers another one** takes all its files. -/
theorem subset_files (hcovers : Covers p' p) {paths paths' : List String} (h : files directory p tree = .ok paths)
    (h' : files directory p' tree = .ok paths') : paths.map Path.parts ⊆ paths'.map Path.parts := by
  obtain ⟨found, hfound, rfl⟩ := files_ok h
  obtain ⟨found', hfound', rfl⟩ := files_ok h'
  intro parts hparts
  obtain ⟨path, hpath, rfl⟩ := List.mem_map.mp (mem_map_parts_foldl_iff.mp hparts)
  obtain ⟨some, hsome, hmem⟩ := List.mem_flatten.mp hpath
  obtain ⟨root, hroot, hfiles⟩ := exists_of_mem_mapM_ok hfound hsome
  obtain ⟨root', hroot', hsame, hignore⟩ := hcovers.roots root hroot
  obtain ⟨others, hothers, hfiles'⟩ := exists_mem_of_mapM_ok hfound' hroot'
  have hother := subset_filesOf hsame hignore hcovers.extensions hfiles hfiles' hmem
  exact mem_map_parts_foldl_iff.mpr (List.mem_map_of_mem (List.mem_flatten.mpr ⟨others, hothers, hother⟩))

/-- Where all patterns are patterns, files can be found. -/
theorem exists_files (hvalid : ∀ root ∈ p.scanRoots, root.Valid) : ∃ paths, files directory p tree = .ok paths := by
  have hroots : ∀ root ∈ p.scanRoots, ∃ paths, filesOf directory p.extensions tree root = .ok paths :=
    fun root hroot => exists_filesOf_iff.mpr fun _ => hvalid root hroot
  obtain ⟨found, hfound⟩ := exists_mapM_ok hroots
  exact ⟨_, bind_ok.mpr ⟨found, hfound, rfl⟩⟩

section Both

variable {paths paths' : List String} (hcovers : Covers p' p) (hcovers' : Covers p p')
  (h : files directory p tree = .ok paths) (h' : files directory p' tree = .ok paths')

include hcovers hcovers' h h'

/-- **Two configurations that cover each other** find the same files, in the same order. -/
theorem map_parts_files_eq : paths.map Path.parts = paths'.map Path.parts := by
  have hsub := subset_files hcovers h h'
  have hsub' := subset_files hcovers' h' h
  obtain ⟨found, -, rfl⟩ := files_ok h
  obtain ⟨found', -, rfl⟩ := files_ok h'
  refine map_parts_foldl_eq fun parts => ⟨fun hmem => ?_, fun hmem => ?_⟩
  · exact mem_map_parts_foldl_iff.mp (hsub (mem_map_parts_foldl_iff.mpr hmem))
  · exact mem_map_parts_foldl_iff.mp (hsub' (mem_map_parts_foldl_iff.mpr hmem))

/-- They find the same blocks. -/
theorem blocks_congr (hproper : tree.Proper) : blocks directory p tree = blocks directory p' tree := by
  have hread := flatMap_blocksOf_congr directory (map_parts_files_eq hcovers hcovers' h h')
    (fun path hpath => exists_file_of_mem_files hproper h hpath)
    fun path hpath => exists_file_of_mem_files hproper h' hpath
  unfold blocks
  rw [h, h']
  exact congrArg Except.ok hread

end Both

/-! ## Changes of a configuration -/

/-- A configuration finds all files of another one. -/
def FindsAll (directory : String) (tree : FileTree) (p' p : Project) : Prop :=
  ∃ paths paths', files directory p tree = .ok paths ∧ files directory p' tree = .ok paths' ∧
    paths.map Path.parts ⊆ paths'.map Path.parts

theorem findsAll_of_covers (hvalid : ∀ root ∈ p.scanRoots, root.Valid) (hvalid' : ∀ root ∈ p'.scanRoots, root.Valid)
    (hcovers : Covers p' p) : FindsAll directory tree p' p := by
  obtain ⟨paths, h⟩ := exists_files hvalid
  obtain ⟨paths', h'⟩ := exists_files hvalid'
  exact ⟨paths, paths', h, h', subset_files hcovers h h'⟩

/-- **What is scanned does not depend on how the configuration is written.** The blocks stay the same when scan roots or
extensions change their places, are repeated, or get points in front of them. One more scan root or extension loses no
file, and one more pattern wins none. -/
theorem blocks_rearranged (directory : String) (hproper : tree.Proper) (hvalid : ∀ root ∈ p.scanRoots, root.Valid) :
    (∀ p' : Project, (∀ root, root ∈ p'.scanRoots ↔ root ∈ p.scanRoots) →
      (∀ e, e ∈ p'.extensions.map bareExtension ↔ e ∈ p.extensions.map bareExtension) →
      (∃ paths paths', files directory p tree = .ok paths ∧ files directory p' tree = .ok paths' ∧
        paths.map Path.parts = paths'.map Path.parts) ∧
      ∃ found, blocks directory p tree = .ok found ∧ blocks directory p' tree = .ok found) ∧
    (∀ before root after, p.scanRoots = before ++ after → root.Valid →
      FindsAll directory tree { p with scanRoots := before ++ root :: after } p) ∧
    (∀ before extension after, p.extensions = before ++ after →
      FindsAll directory tree { p with extensions := before ++ extension :: after } p) ∧
    (∀ before root after front pattern back, p.scanRoots = before ++ root :: after → root.ignore = front ++ back →
      (∃ glob, Glob.ofText pattern = .ok glob) →
      FindsAll directory tree p
        { p with scanRoots := before ++ .filtered root.path (front ++ pattern :: back) :: after }) := by
  refine ⟨fun p' hroots hextensions => ?_, fun before root after hroots hroot => ?_,
    fun before extension after hextensions => ?_, fun before root after front pattern back hroots hignore hpattern => ?_⟩
  · -- Both configurations cover each other.
    have hvalid' : ∀ root ∈ p'.scanRoots, root.Valid := fun root hroot => hvalid root ((hroots root).mp hroot)
    have hcovers : Covers p' p :=
      ⟨fun root hroot => ⟨root, (hroots root).mpr hroot, rfl, List.Subset.refl _⟩, fun e he => (hextensions e).mpr he⟩
    have hcovers' : Covers p p' :=
      ⟨fun root hroot => ⟨root, (hroots root).mp hroot, rfl, List.Subset.refl _⟩, fun e he => (hextensions e).mp he⟩
    obtain ⟨paths, h⟩ := exists_files hvalid
    obtain ⟨paths', h'⟩ := exists_files hvalid'
    have hfound : blocks directory p tree = .ok (paths.flatMap (blocksOf directory tree)) := bind_ok.mpr ⟨paths, h, rfl⟩
    exact ⟨⟨paths, paths', h, h', map_parts_files_eq hcovers hcovers' h h'⟩, _, hfound,
      (blocks_congr hcovers hcovers' h h' hproper).symm.trans hfound⟩
  · refine findsAll_of_covers hvalid (forall_mem_insert.mpr ⟨hroot, hroots ▸ hvalid⟩) ⟨fun other hother => ?_, fun _ h => h⟩
    rw [hroots] at hother
    exact ⟨other, subset_insert _ _ _ hother, rfl, List.Subset.refl _⟩
  · refine findsAll_of_covers hvalid hvalid ⟨fun other hother => ⟨other, hother, rfl, List.Subset.refl _⟩, ?_⟩
    rw [hextensions]
    exact List.map_subset _ (subset_insert _ _ _)
  · rw [hroots] at hvalid
    obtain ⟨hroot, hothers⟩ := forall_mem_insert.mp hvalid
    have hroot' : (ScanRoot.filtered root.path (front ++ pattern :: back)).Valid :=
      forall_mem_insert.mpr ⟨hpattern, hignore ▸ hroot⟩
    refine findsAll_of_covers (forall_mem_insert.mpr ⟨hroot', hothers⟩) (hroots ▸ hvalid) ⟨?_, List.Subset.refl _⟩
    rw [hroots]
    refine forall_mem_insert.mpr ⟨⟨root, List.mem_append_right _ List.mem_cons_self, rfl, ?_⟩, fun other hother =>
      ⟨other, subset_insert _ _ _ hother, rfl, List.Subset.refl _⟩⟩
    rw [hignore]
    exact subset_insert _ _ _

/-- A project with one file that asks for a review. -/
def oneReview : FileTree := ⟨[(["src"], .directory), (["src", "a.rs"], .file "// @review Api soon\n".toUTF8)]⟩

/-- Two scan roots below which the file is found, and one extension. -/
def twoRoots : Project :=
  { name := "p", description := "", repositoryUrl := none, imports := [],
    scanRoots := [.plain "src", .filtered "." ["*.md"]], extensions := ["rs"] }

/-- The file is read once, under one name, however its scan roots are listed, and a pattern can leave it out. -/
theorem blocks_rearranged_oneReview :
    (∃ found, blocks "." twoRoots oneReview = .ok found ∧ blocks "." { twoRoots with
        scanRoots := [.filtered "." ["*.md"], .plain "src", .plain "src"], extensions := [".rs", "rs"] } oneReview
          = .ok found) ∧
      (blocks "." twoRoots oneReview).map (·.map fun found => found.block.location.map (·.filename))
        = .ok [some "src/a.rs"] ∧
      FindsAll "." oneReview { twoRoots with scanRoots := [.plain "docs", .plain "src", .filtered "." ["*.md"]] } twoRoots ∧
      FindsAll "." oneReview { twoRoots with extensions := ["rs", "py"] } twoRoots ∧
      FindsAll "." oneReview twoRoots { twoRoots with scanRoots := [.filtered "src" ["*.rs"], .filtered "." ["*.md"]] } := by
  have hproper : oneReview.Proper := by decide +kernel
  have hvalid : ∀ root ∈ twoRoots.scanRoots, root.Valid := by decide +kernel
  obtain ⟨hsame, hroot, hextension, hpattern⟩ := blocks_rearranged "." hproper hvalid
  refine ⟨?_, by decide +kernel, hroot [] (.plain "docs") _ rfl (by decide +kernel), hextension ["rs"] "py" [] rfl,
    hpattern [] (.plain "src") _ [] "*.rs" [] rfl rfl (by decide +kernel)⟩
  have hpoint : bareExtension ".rs" = bareExtension "rs" := bareExtension_point "rs"
  refine (hsame _ (fun root => ?_) fun e => ?_).2
  · simp [twoRoots, or_comm]
  · simp [twoRoots, hpoint]

end Scan
end ThreatModel
