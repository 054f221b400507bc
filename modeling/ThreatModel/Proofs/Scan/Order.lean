import Mathlib
import ThreatModel.Proofs.Scan

/-!
# `Proofs.Scan.Order` — the order of the files of a scan

The files of a scan are put in the order of the parts of their paths, one after the other, and a path whose parts are
there already is dropped. So the list that comes out is decided by which parts are found, whatever roots they were found
from and how often; only the spelling of a path can differ, and what is read of a file does not depend on that.

## Contents

* `Path.partsBefore_trans`, `Path.partsBefore_total` — parts are ordered.
* `Sorted`, `Sorted.nodup_parts`, `sorted_insertPath`, `sorted_files` — paths stay in order.
* `map_parts_foldl_eq` — the same parts are found in the same order.
* `blocksOf_congr`, `flatMap_blocksOf_congr` — what is read of files depends on the parts of their paths.
-/

namespace ThreatModel

/-! ## The order of parts -/

namespace Path

theorem Part.before_iff {a b : Part} :
    a.before b = true ↔ a.rank < b.rank ∨ ∃ s t, a = .name s ∧ b = .name t ∧ s < t := by
  cases a <;> cases b <;> simp [Part.before, Part.rank]

theorem Part.rank_le (a : Part) : a.rank ≤ 3 := by
  cases a <;> simp [Part.rank]

theorem Part.before_irrefl (a : Part) : a.before a = false := by
  cases a <;> simp [Part.before]

theorem Part.before_trans {a b c : Part} (hab : a.before b = true) (hbc : b.before c = true) : a.before c = true := by
  rw [before_iff] at *
  rcases hab with hab | ⟨s, t, rfl, rfl, hst⟩
  · rcases hbc with hbc | ⟨t, u, rfl, rfl, -⟩
    · exact Or.inl (hab.trans hbc)
    · exact Or.inl hab
  · rcases hbc with hbc | ⟨t', u, ht, rfl, htu⟩
    · exact absurd hbc (Nat.not_lt.mpr c.rank_le)
    · obtain rfl := Part.name.inj ht
      exact Or.inr ⟨s, u, rfl, rfl, String.lt_trans hst htu⟩

theorem Part.before_total {a b : Part} (hne : a ≠ b) : a.before b = true ∨ b.before a = true := by
  rw [before_iff, before_iff]
  rcases Nat.lt_trichotomy a.rank b.rank with hlt | heq | hlt
  · exact Or.inl (Or.inl hlt)
  · -- Two different parts of one sort are names.
    cases a <;> cases b <;> simp [Part.rank] at heq hne
    next s t =>
      by_cases hst : s < t
      · exact Or.inl (Or.inr ⟨s, t, rfl, rfl, hst⟩)
      · refine Or.inr (Or.inr ⟨t, s, rfl, rfl, ?_⟩)
        by_contra hts
        exact hne (String.le_antisymm hts hst)
  · exact Or.inr (Or.inl hlt)

theorem partsBefore_irrefl (as : List Part) : partsBefore as as = false := by
  induction as with
  | nil => rfl
  | cons a as ih => rw [partsBefore, if_pos rfl, ih]

theorem partsBefore_cons {a b : Part} {as bs : List Part} :
    partsBefore (a :: as) (b :: bs) = true ↔ a.before b = true ∨ a = b ∧ partsBefore as bs = true := by
  rw [partsBefore]
  by_cases heq : a = b
  · subst heq
    simp [Part.before_irrefl]
  · simp [heq]

theorem partsBefore_trans {as bs cs : List Part} (hab : partsBefore as bs = true) (hbc : partsBefore bs cs = true) :
    partsBefore as cs = true := by
  induction as generalizing bs cs with
  | nil =>
    cases cs with
    | nil => cases bs <;> cases hbc
    | cons c cs => rfl
  | cons a as ih =>
    cases bs with
    | nil => cases hab
    | cons b bs =>
      cases cs with
      | nil => cases hbc
      | cons c cs =>
        rw [partsBefore_cons] at hab hbc ⊢
        rcases hab with hab | ⟨rfl, hab⟩
        · rcases hbc with hbc | ⟨rfl, -⟩
          · exact Or.inl (Part.before_trans hab hbc)
          · exact Or.inl hab
        · exact hbc.imp_right fun ⟨heq, hbc⟩ => ⟨heq, ih hab hbc⟩

theorem partsBefore_total {as bs : List Part} (hne : as ≠ bs) :
    partsBefore as bs = true ∨ partsBefore bs as = true := by
  induction as generalizing bs with
  | nil =>
    cases bs with
    | nil => exact absurd rfl hne
    | cons b bs => exact Or.inl rfl
  | cons a as ih =>
    cases bs with
    | nil => exact Or.inr rfl
    | cons b bs =>
      rw [partsBefore_cons, partsBefore_cons]
      by_cases heq : a = b
      · subst heq
        exact (ih fun h => hne (h ▸ rfl)).imp (fun h => Or.inr ⟨rfl, h⟩) fun h => Or.inr ⟨rfl, h⟩
      · exact (Part.before_total heq).imp Or.inl Or.inl

end Path

namespace Scan

variable {found found' paths : List String}

/-! ## Paths in order -/

/-- Paths in the order of their parts, each place once. -/
def Sorted (paths : List String) : Prop :=
  paths.Pairwise fun a b => Path.partsBefore (Path.parts a) (Path.parts b) = true

/-- Paths in order have different parts. -/
theorem Sorted.nodup_parts (h : Sorted paths) : (paths.map Path.parts).Nodup := by
  refine List.pairwise_map.mpr (List.Pairwise.imp (fun hbefore heq => ?_) h)
  rw [heq, Path.partsBefore_irrefl] at hbefore
  cases hbefore

theorem sorted_insertPath (path : String) (h : Sorted paths) : Sorted (insertPath path paths) := by
  induction paths with
  | nil => exact List.pairwise_singleton _ _
  | cons first rest ih =>
    obtain ⟨hfirst, hrest⟩ := List.pairwise_cons.mp h
    unfold insertPath
    split
    · exact h
    · next hne =>
      split
      · next hbefore =>
        refine List.pairwise_cons.mpr ⟨fun other hother => ?_, h⟩
        rcases List.mem_cons.mp hother with rfl | hother
        · exact hbefore
        · exact Path.partsBefore_trans hbefore (hfirst other hother)
      · next hnot =>
        refine List.pairwise_cons.mpr ⟨fun other hother => ?_, ih hrest⟩
        rcases mem_of_mem_insertPath hother with rfl | hother
        · exact (Path.partsBefore_total hne).resolve_left hnot
        · exact hfirst other hother

theorem sorted_foldl_insertPath (h : Sorted paths) :
    Sorted (found.foldl (fun files path => insertPath path files) paths) := by
  induction found generalizing paths with
  | nil => exact h
  | cons path rest ih => exact ih (sorted_insertPath path h)

/-- **The files of a scan** are in order. -/
theorem sorted_files {directory : String} {p : Project} {tree : FileTree} (h : files directory p tree = .ok paths) :
    Sorted paths := by
  obtain ⟨found, -, rfl⟩ := files_ok h
  exact sorted_foldl_insertPath List.Pairwise.nil

/-- The parts that are found are those of the paths in order. -/
theorem mem_map_parts_foldl_iff {parts : List Path.Part} :
    parts ∈ (found.foldl (fun files path => insertPath path files) []).map Path.parts ↔
      parts ∈ found.map Path.parts := by
  simp only [List.mem_map]
  constructor
  · rintro ⟨path, hpath, rfl⟩
    exact ⟨path, (mem_of_mem_foldl_insertPath hpath).resolve_left List.not_mem_nil, rfl⟩
  · rintro ⟨path, hpath, rfl⟩
    exact exists_of_mem_foldl_insertPath (Or.inr hpath)

/-- **The order of the files** is decided by the parts that are found. -/
theorem map_parts_foldl_eq (h : ∀ parts, parts ∈ found.map Path.parts ↔ parts ∈ found'.map Path.parts) :
    (found.foldl (fun files path => insertPath path files) []).map Path.parts
      = (found'.foldl (fun files path => insertPath path files) []).map Path.parts := by
  have hsorted : ∀ found : List String,
      ((found.foldl (fun files path => insertPath path files) []).map Path.parts).Pairwise
        fun as bs => Path.partsBefore as bs = true :=
    fun found => List.pairwise_map.mpr (sorted_foldl_insertPath List.Pairwise.nil)
  have hirrefl : Std.Irrefl fun as bs : List Path.Part => Path.partsBefore as bs = true :=
    ⟨fun as h => by simp [Path.partsBefore_irrefl] at h⟩
  have hantisymm : Std.Antisymm fun as bs : List Path.Part => Path.partsBefore as bs = true :=
    ⟨fun as bs hab hba => by simpa [Path.partsBefore_irrefl] using Path.partsBefore_trans hab hba⟩
  refine (hsorted found).eq_of_mem_iff (hsorted found') fun parts => ?_
  rw [mem_map_parts_foldl_iff, mem_map_parts_foldl_iff, h]

/-! ## What is read -/

section Read

variable {tree : FileTree} {directory : String}

/-- **What is read of a file** does not depend on how its path is spelled. -/
theorem blocksOf_congr {path other : String} (hparts : Path.parts path = Path.parts other) {content content' : ByteArray}
    (h : tree.find? path = some (.file content)) (hother : tree.find? other = some (.file content')) :
    blocksOf directory tree path = blocksOf directory tree other := by
  have htarget : Path.target path = Path.target other := by
    unfold Path.target
    rw [hparts]
  have hcontent : content = content' := by
    have hentry := (FileTree.find?_eq_some_iff.mp h).2
    have hentry' := (FileTree.find?_eq_some_iff.mp hother).2
    rw [htarget, hentry'] at hentry
    exact (Entry.file.inj (Option.some.inj hentry)).symm
  have hread : tree.read path = tree.read other := by
    rw [FileTree.read, FileTree.read, FileTree.readBytes_of_file h, FileTree.readBytes_of_file hother, hcontent]
  have hextension : Path.extension? path = Path.extension? other := by
    unfold Path.extension? Path.fileName?
    rw [hparts]
  have hname : displayName directory path = displayName directory other := by
    unfold displayName Path.stripBase?
    rw [hparts]
  unfold blocksOf
  rw [hread, hextension, hname]

/-- What is read of files in one order is the same for all spellings of their paths. -/
theorem flatMap_blocksOf_congr (directory : String) {paths others : List String}
    (hparts : paths.map Path.parts = others.map Path.parts)
    (hpaths : ∀ path ∈ paths, ∃ content, tree.find? path = some (.file content))
    (hothers : ∀ path ∈ others, ∃ content, tree.find? path = some (.file content)) :
    paths.flatMap (blocksOf directory tree) = others.flatMap (blocksOf directory tree) := by
  induction paths generalizing others with
  | nil =>
    cases others with
    | nil => rfl
    | cons other rest => cases hparts
  | cons path rest ih =>
    cases others with
    | nil => cases hparts
    | cons other rest' =>
      obtain ⟨hfirst, hrest⟩ := List.cons.inj hparts
      obtain ⟨⟨content, hcontent⟩, hpaths⟩ := List.forall_mem_cons.mp hpaths
      obtain ⟨⟨content', hcontent'⟩, hothers⟩ := List.forall_mem_cons.mp hothers
      rw [List.flatMap_cons, List.flatMap_cons, ih hrest hpaths hothers, blocksOf_congr hfirst hcontent hcontent']

end Read

end Scan
end ThreatModel
