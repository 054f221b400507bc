import Mathlib
import ThreatModel.Proofs.Run.Sources

/-!
# `Proofs.Run.Apart` — sources that are not in the store

A run reads the same in two trees that differ in its own store only, if nothing that it reads is in there and the same
scan roots lead to something outside. A save changes nothing but the store, so what the next run reads is decided
before it.

## Contents

* `Store.placeIn` — the place of the store of a project.
* `Run.Apart` — nothing that a run reads is in its own store.
* `load_eq`, `loadLibrary_eq`, `Reads.eq_of_agree` — what is read in two trees.
* `Reads.exists_of_extends` — what is read is still there.
* `agree_of_save` — what a save changes.
-/

namespace ThreatModel

open FileTree (bind_ok AgreeOutside)

/-- The place of the store of a project whose directory is at a place. -/
def Store.placeIn (home : Place) : Place := home ++ [Store.directoryName]

theorem Store.directoryName_not_mem : Store.directoryName ∉ Walk.ignoreNames := by decide

theorem Store.isFileName_directoryName : FileTree.IsFileName Store.directoryName :=
  ⟨⟨by decide, by decide, by decide, by decide⟩, by decide, by decide⟩

theorem Project.isFileName_fileName : FileTree.IsFileName Project.fileName :=
  ⟨⟨by decide, by decide, by decide, by decide⟩, by decide, by decide⟩

/-- Nothing that a run reads besides the stored model is in the store of its project: neither a file that it scans nor
a document of a library that it imports. -/
structure Run.Apart (r : Run) (project : Project) (home : Place) (tree : FileTree) : Prop where
  scanned : ∀ paths, Scan.files r.directory project tree = .ok paths →
    ∀ path ∈ paths, ¬tree.LiesIn (Store.placeIn home) path
  imported : ∀ library ∈ project.imports, ∀ document ∈ Document.library,
    ¬tree.LiesIn (Store.placeIn home) ((Run.libraryStore r.directory library).path document)

/-! ## What is read in two trees -/

namespace Project

variable {path : String} {environment : List (String × String)} {tree other : FileTree}

/-- A configuration that can be loaded is a file. -/
theorem exists_file_of_load {project : Project} (h : load path environment tree = .ok project) :
    ∃ content, tree.find? path = some (.file content) := by
  unfold load at h
  split at h
  · cases h
  · next hfile => exact Store.isFile_iff.mp (by simpa using hfile)

/-- What is loaded depends on the file alone. -/
theorem load_congr {content : ByteArray} (h : tree.find? path = some (.file content))
    (hother : other.find? path = some (.file content)) : load path environment other = load path environment tree := by
  have hfile : ∀ {seen : FileTree}, seen.find? path = some (.file content) → seen.isFile path = true :=
    fun hseen => Store.isFile_iff.mpr ⟨content, hseen⟩
  unfold load
  rw [hfile h, hfile hother, FileTree.read_eq_of_file h hother]

end Project

namespace Run

variable {r r' : Run} {tree other : FileTree} {home : Place} {project : Project}

/-- The configuration stands in the directory of the project, beside the store. -/
theorem not_liesIn_projectFile (h : tree.Within r.directory home) :
    ¬tree.LiesIn (Store.placeIn home) (projectFile r.directory) := by
  rintro ⟨place, hlocate, hfront⟩
  obtain ⟨there, hthere, rfl⟩ := (FileTree.locate_join_iff Project.isFileName_fileName).mp hlocate
  obtain rfl := h.unique hthere
  have hlast := (List.prefix_append_right_inj home).mp hfront
  rw [List.cons_prefix_cons] at hlast
  exact absurd hlast.1 (by decide)

/-- The configuration is the same. -/
theorem load_eq (hagree : AgreeOutside (Store.placeIn home) tree other) (hhome : tree.Within r.directory home)
    {project' : Project} (h : Project.load (projectFile r.directory) r.environment tree = .ok project)
    (h' : Project.load (projectFile r.directory) r.environment other = .ok project') : project' = project := by
  obtain ⟨content, hcontent⟩ := Project.exists_file_of_load h
  obtain ⟨content', hcontent'⟩ := Project.exists_file_of_load h'
  have hsame := hagree.find?_eq hcontent hcontent' (not_liesIn_projectFile hhome)
  rw [Project.load_congr hcontent (hsame.trans hcontent)] at h'
  exact Except.ok.inj (h'.symm.trans h)

/-- The documents of a library that can be loaded are files. -/
theorem exists_file_of_loadLibrary {s : Store} {registry : Registry} (h : s.loadLibrary tree = .ok registry) :
    ∀ d ∈ Document.library, ∃ content, tree.find? (s.path d) = some (.file content) := by
  intro d hd
  obtain ⟨⟨⟩, hpresent, -⟩ := bind_ok.mp h
  exact Store.isFile_iff.mp (Store.requirePresent_ok_iff.mp hpresent d hd)

/-- The entities of a library are the same. -/
theorem loadLibrary_eq (hagree : AgreeOutside (Store.placeIn home) tree other) {s : Store}
    (houtside : ∀ document ∈ Document.library, ¬tree.LiesIn (Store.placeIn home) (s.path document))
    {registry registry' : Registry} (h : s.loadLibrary tree = .ok registry) (h' : s.loadLibrary other = .ok registry') :
    registry' = registry := by
  rw [Store.loadLibrary_congr fun d hd => ?_] at h'
  · exact Except.ok.inj (h'.symm.trans h)
  · obtain ⟨content, hcontent⟩ := exists_file_of_loadLibrary h d hd
    obtain ⟨content', hcontent'⟩ := exists_file_of_loadLibrary h' d hd
    exact hagree.find?_eq hcontent hcontent' (houtside d hd)

/-- **What a run reads is the same** in two trees that differ in its own store only. -/
theorem Reads.eq_of_agree {s s' : Sources} (h : r.Reads tree s) (h' : r'.Reads other s')
    (hdirectory : r'.directory = r.directory) (henvironment : r'.environment = r.environment)
    (hproper : tree.Proper) (hother : other.Proper) (hhome : tree.Within r.directory home)
    (hagree : AgreeOutside (Store.placeIn home) tree other)
    (hapart : r.Apart s.project home tree) (hapart' : r'.Apart s.project home other)
    (hreaches : ∀ root ∈ s.project.scanRoots, Scan.Reaches r.directory (Store.placeIn home) tree root ↔
      Scan.Reaches r.directory (Store.placeIn home) other root) : s' = s := by
  obtain ⟨hproject', hlibraries', hblocks'⟩ := h'
  rw [hdirectory, henvironment] at hproject'
  rw [hdirectory] at hlibraries' hblocks'
  have hproject : s'.project = s.project := load_eq hagree hhome h.project hproject'
  rw [hproject] at hlibraries' hblocks'
  have hlibraries : s'.libraries = s.libraries := eq_of_mapM_ok h.libraries hlibraries'
    fun library hlibrary registry _ registry' _ hload hload' =>
      loadLibrary_eq hagree (hapart.imported library hlibrary) hload hload'
  have houtside' := hapart'.scanned
  rw [hdirectory] at houtside'
  have hblocks := Scan.blocks_eq Store.directoryName_not_mem hproper hother hagree hreaches h.blocks hblocks'
    hapart.scanned houtside'
  -- The blocks themselves are the texts that were searched.
  have hscanned := congrArg (List.map ScannedBlock.block) hblocks
  rw [List.map_map, List.map_map] at hscanned
  have hid : ScannedBlock.block ∘ Block.scan = id := rfl
  rw [hid, List.map_id, List.map_id] at hscanned
  cases s
  cases s'
  simp only at hproject hlibraries hscanned
  rw [hproject, hlibraries, hscanned]

/-- What is read is still there in a tree with at least the same directories, if its files can be scanned. -/
theorem Reads.exists_of_extends {s : Sources} (h : r.Reads tree s) (hdirectory : r'.directory = r.directory)
    (henvironment : r'.environment = r.environment) (hhome : tree.Within r.directory home)
    (hagree : AgreeOutside (Store.placeIn home) tree other) (hextends : tree.Extends other)
    (hapart : r.Apart s.project home tree) (hscan : ∃ paths, Scan.files r.directory s.project other = .ok paths) :
    ∃ s', r'.Reads other s' := by
  obtain ⟨content, hcontent⟩ := Project.exists_file_of_load h.project
  have hproject : Project.load (projectFile r.directory) r.environment other = .ok s.project := by
    rw [Project.load_congr hcontent (hagree.find?_of_extends hextends hcontent (not_liesIn_projectFile hhome))]
    exact h.project
  have hlibraries : s.project.imports.mapM (fun library => (libraryStore r.directory library).loadLibrary other)
      = .ok s.libraries := by
    refine mapM_ok_of_forall h.libraries fun library hlibrary registry hload => ?_
    rw [Store.loadLibrary_congr fun d hd => ?_]
    · exact hload
    · obtain ⟨document, hdocument⟩ := exists_file_of_loadLibrary hload d hd
      rw [hdocument]
      exact hagree.find?_of_extends hextends hdocument (hapart.imported library hlibrary d hd)
  obtain ⟨paths, hpaths⟩ := hscan
  have hblocks : Scan.blocks r.directory s.project other = .ok (paths.flatMap (Scan.blocksOf r.directory other)) :=
    bind_ok.mpr ⟨paths, hpaths, rfl⟩
  obtain ⟨blocks, heq⟩ := exists_blocks hblocks
  rw [heq] at hblocks
  rw [← hdirectory] at hproject hlibraries hblocks
  rw [← henvironment] at hproject
  exact ⟨⟨s.project, s.libraries, blocks⟩, hproject, hlibraries, hblocks⟩

end Run

/-! ## What a save changes -/

/-- **A save changes the store only**, and leaves its directory where it is. -/
theorem Store.agree_of_save {directory : String} {home : Place} {g : Graph} {tree after : FileTree}
    (hhome : tree.Within directory home)
    (h : FileAction.outcome ((Run.storeIn directory).save g) tree = (.ok (), after)) :
    AgreeOutside (Store.placeIn home) tree after ∧ tree.Extends after ∧
      after.Within (Run.storeIn directory).directory (Store.placeIn home) := by
  obtain ⟨⟨⟩, between, hcreate, hwrite⟩ := FileAction.outcome_bind_ok.mp h
  have hcreated := FileTree.get?_createDirectories_join hhome Store.isFileName_directoryName
    (FileAction.outcome_createDirectories_ok.mp hcreate)
  have hextends : tree.Extends between := by
    intro place hplace
    rw [hcreated]
    split
    · rfl
    · exact hplace
  have hwithin : between.Within (Run.storeIn directory).directory (Store.placeIn home) :=
    (hhome.mono hextends).down Store.isFileName_directoryName (by rw [hcreated, if_pos rfl])
  have hwritten := Store.written_of_forM (by decide) hwithin hwrite
  refine ⟨fun place hplace => ?_, hextends.trans hwritten.extends, hwithin.mono hwritten.extends⟩
  rw [hwritten.frame place, hcreated, if_neg]
  · rintro rfl
    exact hplace (List.prefix_refl _)
  · rintro d -
    constructor
    · rintro rfl
      exact hplace (List.prefix_append _ _)
    · rintro rfl
      exact hplace (List.prefix_append _ _)

end ThreatModel
