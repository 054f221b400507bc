import Mathlib
import ThreatModel.Proofs.Document.Model
import ThreatModel.Proofs.Run.Apart

/-!
# `Proofs.Run.Fresh` — a run that builds on nothing stored

A run that does not merge makes its model of its sources alone. What the store held before, and whether it was there,
makes no difference: two such runs over the same sources store the same model, each in its own name.

## Contents

* `Sources.Gives`, `gives_after_steps` — the model that sources give.
* `Graph.SameUpToRun`, `Gives.sameUpToRun`, `Gives.summary_eq` — what sources give in two runs.
* `Run.model_fresh_iff` — a run that does not merge.
* `Run.Repeats`, `Run.Unchanged` — another run over the same sources.
* `perform_of_unchanged` — both store the same model.
-/

namespace ThreatModel

open FileTree (bind_ok AgreeOutside)
open Directive

/-! ## Models made of sources -/

/-- The directives of a family in sources, in the order of the blocks and of the text in them. -/
def Sources.directives (s : Sources) (family : Family) : List (Block × Occurrence) :=
  s.blocks.flatMap fun block => ((inTextOrder block.text.toList).filter (·.family = family)).map (Prod.mk block)

/-- The model that sources give in a run: a record for each directive that states a relation, and under every name the
record that the sources offer, if they offer any. -/
structure Sources.Gives (s : Sources) (runId : String) (g : Graph) : Prop where
  run : g.runId = runId
  relations : ∀ family ∈ Family.relations, (g.relations.sequence family).Forall₂ Recorded (s.directives family)
  records : ∀ kind name, g.registry.record? kind name = s.record? runId kind name

theorem Registry.record?_empty (runId : String) (kind : EntityKind) (name : String) :
    (Registry.empty runId).record? kind name = none := by
  cases kind <;> rfl

/-- **What sources give**, from an empty model on. -/
theorem Sources.gives_after_steps (s : Sources) (runId : String) : s.Gives runId ((Graph.empty runId).after s.steps) where
  run := (Graph.runId_after s.run?_eq_none rfl).1
  relations := by
    intro family hfamily
    obtain ⟨added, heq, hadded⟩ := Grows.after hfamily (Graph.empty runId) s.steps
    rw [s.filterMap_block?] at hadded
    have hnone : (Graph.empty runId).relations.sequence family = [] := by cases family <;> rfl
    rw [heq, hnone, List.nil_append]
    exact hadded
  records := by
    intro kind name
    rw [Graph.record?_after_steps s rfl]
    show ((Registry.empty runId).record? kind name).or (s.record? runId kind name) = _
    rw [Registry.record?_empty, Option.none_or]

/-- Two models differ only in their runs, and in the records that their own runs have made. -/
structure Graph.SameUpToRun (g g' : Graph) : Prop where
  relations : g'.relations = g.relations
  records : ∀ kind name, g'.registry.record? kind name = g.registry.record? kind name ∨
    ∃ record, g.registry.record? kind name = some record ∧ record.runId = g.runId ∧
      g'.registry.record? kind name = some { record with runId := g'.runId }

/-- In two runs sources offer the same record under a name, or one that differs only in the run that made it. -/
theorem Sources.record?_upToRun (s : Sources) (runId other : String) (kind : EntityKind) (name : String) :
    s.record? other kind name = s.record? runId kind name ∨
      ∃ record, s.record? runId kind name = some record ∧ record.runId = runId ∧
        s.record? other kind name = some { record with runId := other } := by
  unfold record?
  cases s.libraries.findSome? (·.record? kind name) with
  | some record => exact Or.inl rfl
  | none =>
    cases s.blocks.findSome? (·.describes? kind name) with
    | none => exact Or.inl rfl
    | some description => exact Or.inr ⟨_, rfl, rfl, rfl⟩

/-- Sources offer records under the same names in every run. -/
theorem Sources.isSome_record? (s : Sources) (runId other : String) (kind : EntityKind) (name : String) :
    (s.record? runId kind name).isSome = (s.record? other kind name).isSome := by
  simp only [record?, Option.isSome_or, Option.isSome_map]

/-- Registries with records under the same names have as many entities of every kind. -/
theorem Registry.size_eq {r other : Registry}
    (h : ∀ kind name, (r.record? kind name).isSome = (other.record? kind name).isSome) :
    r.components.size = other.components.size ∧ r.controls.size = other.controls.size ∧
      r.threats.size = other.threats.size := by
  refine ⟨NameMap.size_eq (h .component), NameMap.size_eq fun name => ?_, NameMap.size_eq fun name => ?_⟩
  · have hname := h .control name
    rwa [record?, record?, Option.isSome_map, Option.isSome_map] at hname
  · have hname := h .threat name
    rwa [record?, record?, Option.isSome_map, Option.isSome_map] at hname

/-- The counts are the same in every run. -/
theorem Sources.Gives.summary_eq {s : Sources} {runId other : String} {g g' : Graph} (h : s.Gives runId g)
    (h' : s.Gives other g') (hrelations : g'.relations = g.relations) :
    Run.Summary.ofSources g' s = Run.Summary.ofSources g s := by
  have hnames : ∀ kind name, (g'.registry.record? kind name).isSome = (g.registry.record? kind name).isSome := by
    intro kind name
    rw [h.records, h'.records, s.isSome_record? other runId]
  obtain ⟨hcomponents, hcontrols, hthreats⟩ := Registry.size_eq hnames
  unfold Run.Summary.ofSources Run.Summary.ofModel
  rw [hcomponents, hcontrols, hthreats, hrelations]

theorem Sources.Gives.sameUpToRun {s : Sources} {runId other : String} {g g' : Graph} (h : s.Gives runId g)
    (h' : s.Gives other g') (hrelations : g'.relations = g.relations) : g.SameUpToRun g' where
  relations := hrelations
  records := by
    intro kind name
    rw [h.records, h'.records, h.run, h'.run]
    exact s.record?_upToRun runId other kind name

namespace Run

variable {r r' : Run} {project : Project} {home : Place} {tree other after : FileTree} {g : Graph} {summary : Summary}

/-! ## Runs that do not merge -/

/-- **A run that does not merge** makes its model of its sources alone. -/
theorem model_fresh_iff (hmerge : r.merge = false) :
    r.model tree = .ok (g, summary) ↔
      ∃ s, r.Reads tree s ∧ g = (Graph.empty r.runId).after s.steps ∧ summary = .ofSources g s := by
  have hprior : r.priorModel tree = .ok (.empty r.runId) := by
    unfold priorModel
    simp only [hmerge, Bool.false_and, Bool.false_eq_true, if_false]
  rw [model_ok_iff]
  constructor
  · rintro ⟨s, prior, hreads, hstart, rfl, hsummary⟩
    obtain rfl := Except.ok.inj (hprior.symm.trans hstart)
    exact ⟨s, hreads, rfl, hsummary⟩
  · rintro ⟨s, hreads, rfl, hsummary⟩
    exact ⟨s, _, hreads, hprior, rfl, hsummary⟩

/-- What is in the documents of the store is a model. -/
def Holds (directory : String) (tree : FileTree) (g : Graph) : Prop :=
  ∀ document, tree.readBytes ((storeIn directory).path document) = .ok (document.render g).toUTF8

/-- A run that repeats another one: over the same project and in the same environment. Nothing that it reads besides the
stored model is in the store, and the same scan roots lead to something outside it. -/
structure Repeats (r : Run) (project : Project) (home : Place) (tree : FileTree) (r' : Run) (other : FileTree) :
    Prop where
  directory : r'.directory = r.directory
  environment : r'.environment = r.environment
  apart : r'.Apart project home other
  reaches : ∀ root ∈ project.scanRoots, Scan.Reaches r.directory (Store.placeIn home) tree root ↔
    Scan.Reaches r.directory (Store.placeIn home) other root

/-- A run that repeats another one over the same sources: in a tree that differs in the store of the project only. -/
structure Unchanged (r : Run) (project : Project) (home : Place) (tree : FileTree) (r' : Run) (other : FileTree) : Prop
    extends Repeats r project home tree r' other where
  proper : other.Proper
  agree : AgreeOutside (Store.placeIn home) tree other

/-- What is read is what was read before. -/
theorem Unchanged.sources_eq (h : r.Unchanged project home tree r' other) (hproper : tree.Proper)
    (hhome : tree.Within r.directory home) (hapart : r.Apart project home tree) {s s' : Sources}
    (hproject : s.project = project) (hreads : r.Reads tree s) (hreads' : r'.Reads other s') : s' = s := by
  subst hproject
  exact hreads.eq_of_agree hreads' h.directory h.environment hproper h.proper hhome h.agree hapart h.apart h.reaches

/-- A run changes the store only. -/
theorem agree_of_perform (hhome : tree.Within r.directory home) (hproper : tree.Proper)
    (hrun : FileAction.outcome r.perform tree = (.ok (g, summary), after)) :
    AgreeOutside (Store.placeIn home) tree after ∧ tree.Extends after ∧ after.Proper := by
  obtain ⟨-, hsave⟩ := perform_ok_iff.mp hrun
  obtain ⟨hagree, hextends, -⟩ := Store.agree_of_save hhome hsave
  have hpreserved := Store.preserves_save (storeIn r.directory) g .willing tree hproper
  rw [hsave] at hpreserved
  exact ⟨hagree, hextends, hpreserved⟩

/-! ## Another run -/

/-- **A run that does not merge depends on its sources only.** Its model is what the sources give, in its own name, and
the store holds this model. Another such run over the same sources that succeeds, whatever the store held before, ends
with the same counts, and its model differs only in the name of the run, in the records that the run has made. A run
right after the first one succeeds, and stores the same model again. -/
theorem perform_of_unchanged (hmerge : r.merge = false) (hproper : tree.Proper) (hhome : tree.Within r.directory home)
    (hproject : Project.load (projectFile r.directory) r.environment tree = .ok project)
    (hapart : r.Apart project home tree) (hrun : FileAction.outcome r.perform tree = (.ok (g, summary), after)) :
    ∃ s : Sources, r.Reads tree s ∧ s.Gives r.runId g ∧ Holds r.directory after g ∧
      (∀ (r' : Run) (other after' : FileTree) (g' : Graph) (summary' : Summary), r'.merge = false →
        r.Unchanged project home tree r' other →
        FileAction.outcome r'.perform other = (.ok (g', summary'), after') →
        summary' = summary ∧ g.SameUpToRun g' ∧ s.Gives r'.runId g' ∧ Holds r.directory after' g') ∧
      ∀ r' : Run, r'.merge = false → r.Repeats project home tree r' after →
        (∃ paths, Scan.files r.directory project after = .ok paths) →
        ∃ g' again, FileAction.outcome r'.perform after = (.ok (g', summary), again) ∧
          g.SameUpToRun g' ∧ s.Gives r'.runId g' ∧ Holds r.directory again g' := by
  obtain ⟨hmodel, hsave⟩ := perform_ok_iff.mp hrun
  obtain ⟨s, hreads, rfl, rfl⟩ := (model_fresh_iff hmerge).mp hmodel
  obtain rfl : s.project = project := Except.ok.inj (hreads.project.symm.trans hproject)
  have hgives := s.gives_after_steps r.runId
  have hsame : ∀ (r' : Run) (other after' : FileTree) (g' : Graph) (summary' : Summary), r'.merge = false →
      r.Unchanged s.project home tree r' other →
      FileAction.outcome r'.perform other = (.ok (g', summary'), after') →
      summary' = .ofSources ((Graph.empty r.runId).after s.steps) s ∧
        ((Graph.empty r.runId).after s.steps).SameUpToRun g' ∧ s.Gives r'.runId g' ∧ Holds r.directory after' g' := by
    intro r' other after' g' summary' hmerge' hunchanged hrun'
    obtain ⟨hmodel', hsave'⟩ := perform_ok_iff.mp hrun'
    obtain ⟨s', hreads', rfl, rfl⟩ := (model_fresh_iff hmerge').mp hmodel'
    obtain rfl := hunchanged.sources_eq hproper hhome hapart rfl hreads hreads'
    have hrelations : ((Graph.empty r'.runId).after s'.steps).relations
        = ((Graph.empty r.runId).after s'.steps).relations := by
      rw [Graph.relations_after_steps, Graph.relations_after_steps]
      rfl
    have hgives' := s'.gives_after_steps r'.runId
    refine ⟨hgives.summary_eq hgives' hrelations, hgives.sameUpToRun hgives' hrelations, hgives', ?_⟩
    rw [hunchanged.directory] at hsave'
    exact Store.readBytes_of_save hsave'
  refine ⟨s, hreads, hgives, Store.readBytes_of_save hsave, hsame, ?_⟩
  intro r' hmerge' hrepeats hscan
  obtain ⟨hagree, hextends, hproper'⟩ := agree_of_perform hhome hproper hrun
  obtain ⟨s', hreads'⟩ :=
    hreads.exists_of_extends hrepeats.directory hrepeats.environment hhome hagree hextends hapart hscan
  obtain ⟨again, hagain⟩ := Store.exists_save_of_save hsave ((Graph.empty r'.runId).after s'.steps)
  rw [← hrepeats.directory] at hagain
  have hrun' := perform_ok_iff.mpr ⟨(model_fresh_iff hmerge').mpr ⟨s', hreads', rfl, rfl⟩, hagain⟩
  obtain ⟨hsummary, hupToRun, hgives', hholds⟩ :=
    hsame r' after again _ _ hmerge' ⟨hrepeats, hproper', hagree⟩ hrun'
  rw [hsummary] at hrun'
  exact ⟨_, again, hrun', hupToRun, hgives', hholds⟩

/-! ## A project with one file -/

/-- A run over the project in the directory of the tree, which merges or not. -/
def here (merge : Bool) (runId : String) : Run := ⟨"", merge, [], runId⟩

/-- A project that scans one path, with one file that asks for a review. -/
def reviewed (scanned : String) : FileTree :=
  ⟨[(["threatline.yaml"], .file ("project:\n  name: p\npaths:\n- " ++ scanned ++ "\n").toUTF8),
    (["src"], .directory), (["src", "a.rs"], .file "// @review Api soon\n".toUTF8)]⟩

/-- The configuration of the project. -/
def reviewedProject (scanned : String) : Project :=
  { name := "p", description := "", repositoryUrl := none, imports := [], scanRoots := [.plain scanned],
    extensions := Project.defaultExtensions }

/-- The project after a run that does not merge. -/
def reviewedOnce (scanned : String) : FileTree := (FileAction.outcome (here false "first").perform (reviewed scanned)).2

theorem reviewedOnce_eq (scanned : String) :
    (FileAction.outcome (here false "first").perform (reviewed scanned)).2 = reviewedOnce scanned := rfl

theorem within_here (tree : FileTree) : tree.Within "" [] where
  no_zero := by decide
  relative := rfl
  leads := by
    rw [FileTree.directoryPieces, if_pos rfl]
    exact .here []

/-- A run of whose result something is known has succeeded. -/
theorem exists_of_result {α : Type} {r : Run} {tree last : FileTree} {view : Graph × Summary → α} {seen : α}
    (hlast : (FileAction.outcome r.perform tree).2 = last)
    (h : (FileAction.outcome r.perform tree).1.map view = .ok seen) : ∃ g summary,
      FileAction.outcome r.perform tree = (.ok (g, summary), last) ∧ view (g, summary) = seen := by
  generalize FileAction.outcome r.perform tree = ended at hlast h
  obtain ⟨result, reached⟩ := ended
  obtain rfl := hlast
  cases result with
  | error e => cases h
  | ok built =>
    obtain ⟨g, summary⟩ := built
    exact ⟨g, summary, rfl, Except.ok.inj h⟩

/-- A project without imports is apart from its store if the files that are scanned are. -/
theorem apart_of_files (himports : project.imports = []) {paths : List String}
    (hfiles : Scan.files r.directory project tree = .ok paths)
    (houtside : ∀ path ∈ paths, ¬tree.LiesIn (Store.placeIn home) path) : r.Apart project home tree where
  scanned := by
    intro others hothers
    obtain rfl := Except.ok.inj (hfiles.symm.trans hothers)
    exact houtside
  imported := by
    rw [himports]
    exact List.forall_mem_nil _

/-- What evaluation shows of the project with one file, before and after a run. -/
theorem seen_reviewed :
    (reviewed "src").Proper ∧
      Project.load (projectFile "") [] (reviewed "src") = .ok (reviewedProject "src") ∧
      Scan.files "" (reviewedProject "src") (reviewed "src") = .ok ["src/a.rs"] ∧
      Scan.files "" (reviewedProject "src") (reviewedOnce "src") = .ok ["src/a.rs"] ∧
      (∀ path ∈ ["src/a.rs"], ¬(reviewed "src").LiesIn (Store.placeIn []) path) ∧
      (∀ path ∈ ["src/a.rs"], ¬(reviewedOnce "src").LiesIn (Store.placeIn []) path) ∧
      (∀ root ∈ (reviewedProject "src").scanRoots, Scan.Reaches "" (Store.placeIn []) (reviewed "src") root ↔
        Scan.Reaches "" (Store.placeIn []) (reviewedOnce "src") root) ∧
      (FileAction.outcome (here false "first").perform (reviewed "src")).1.map
        (fun built => (built.2, built.1.relations.annexes.map (·.source.line))) = .ok (⟨1, 1, 1, 0, 0, 1⟩, [1]) := by
  decide +kernel

theorem apart_reviewed (merge : Bool) (runId : String) :
    (here merge runId).Apart (reviewedProject "src") [] (reviewed "src") := by
  obtain ⟨-, -, hfiles, -, houtside, -⟩ := seen_reviewed
  exact apart_of_files rfl hfiles houtside

/-- The scanned path leads to the same place before and after a run. -/
theorem repeats_reviewed (merge : Bool) (runId : String) :
    (here false "first").Repeats (reviewedProject "src") [] (reviewed "src") (here merge runId) (reviewedOnce "src") := by
  obtain ⟨-, -, -, hfiles, -, houtside, hreaches, -⟩ := seen_reviewed
  exact ⟨rfl, rfl, apart_of_files rfl hfiles houtside, hreaches⟩

/-- The first run finds the review in the first line of the file. -/
theorem exists_reviewedOnce : ∃ g, FileAction.outcome (here false "first").perform (reviewed "src")
    = (.ok (g, ⟨1, 1, 1, 0, 0, 1⟩), reviewedOnce "src") ∧ g.relations.annexes.map (·.source.line) = [1] := by
  obtain ⟨-, -, -, -, -, -, -, hresult⟩ := seen_reviewed
  obtain ⟨g, summary, hrun, hview⟩ := exists_of_result (reviewedOnce_eq _) hresult
  obtain ⟨hsummary, hlines⟩ := Prod.mk.inj hview
  obtain rfl : summary = ⟨1, 1, 1, 0, 0, 1⟩ := hsummary
  exact ⟨g, hrun, hlines⟩

/-- Two runs after each other over one file store its review twice, each time once. -/
theorem perform_of_unchanged_reviewed :
    ∃ g, FileAction.outcome (here false "first").perform (reviewed "src")
        = (.ok (g, ⟨1, 1, 1, 0, 0, 1⟩), reviewedOnce "src") ∧
      ∃ g' again, FileAction.outcome (here false "second").perform (reviewedOnce "src")
          = (.ok (g', ⟨1, 1, 1, 0, 0, 1⟩), again) ∧ g.SameUpToRun g' ∧ Holds "" again g' := by
  obtain ⟨hproper, hload, -, hfiles, -⟩ := seen_reviewed
  obtain ⟨g, hrun, -⟩ := exists_reviewedOnce
  obtain ⟨s, -, -, -, -, hnext⟩ :=
    perform_of_unchanged rfl hproper (within_here _) hload (apart_reviewed _ _) hrun
  obtain ⟨g', again, hrun', hupToRun, -, hholds⟩ :=
    hnext (here false "second") rfl (repeats_reviewed _ _) ⟨_, hfiles⟩
  exact ⟨g, hrun, g', again, hrun', hupToRun, hholds⟩

/-! ### A path through the store -/

/-- What evaluation shows of the project that scans a path through its store, before and after a run: nothing is
scanned before, and the first run stores nothing. -/
theorem seen_throughStore :
    (reviewed "threatmodel/../src").Proper ∧
      Project.load (projectFile "") [] (reviewed "threatmodel/../src")
        = .ok (reviewedProject "threatmodel/../src") ∧
      Scan.files "" (reviewedProject "threatmodel/../src") (reviewed "threatmodel/../src") = .ok [] ∧
      Scan.files "" (reviewedProject "threatmodel/../src") (reviewedOnce "threatmodel/../src")
        = .ok ["threatmodel/../src/a.rs"] ∧
      (∀ path ∈ ["threatmodel/../src/a.rs"],
        ¬(reviewedOnce "threatmodel/../src").LiesIn (Store.placeIn []) path) ∧
      (FileAction.outcome (here false "first").perform (reviewed "threatmodel/../src")).1.map
        (fun built => (built.2, built.1.relations.reviews.length)) = .ok (⟨0, 0, 0, 0, 0, 0⟩, 0) := by
  decide +kernel

/-- Neither before nor after a run anything is scanned that is in the store. -/
theorem apart_throughStore (merge : Bool) (runId : String) :
    (here merge runId).Apart (reviewedProject "threatmodel/../src") [] (reviewed "threatmodel/../src") ∧
      (here merge runId).Apart (reviewedProject "threatmodel/../src") [] (reviewedOnce "threatmodel/../src") := by
  obtain ⟨-, -, hnone, hfiles, houtside, -⟩ := seen_throughStore
  exact ⟨apart_of_files rfl hnone (List.forall_mem_nil _), apart_of_files rfl hfiles houtside⟩

/-- The first run finds nothing. -/
theorem exists_throughStore : ∃ g, FileAction.outcome (here false "first").perform (reviewed "threatmodel/../src")
    = (.ok (g, ⟨0, 0, 0, 0, 0, 0⟩), reviewedOnce "threatmodel/../src") ∧ g.relations.reviews = [] := by
  obtain ⟨-, -, -, -, -, hresult⟩ := seen_throughStore
  obtain ⟨g, summary, hrun, hview⟩ := exists_of_result (reviewedOnce_eq _) hresult
  obtain ⟨hsummary, hlength⟩ := Prod.mk.inj hview
  obtain rfl : summary = ⟨0, 0, 0, 0, 0, 0⟩ := hsummary
  exact ⟨g, hrun, List.length_eq_zero_iff.mp hlength⟩

/-- **A path through the store** leads to the sources only once the store is there: the first run over a project that
scans such a path finds nothing, and the second one, on unchanged sources, finds the review. -/
theorem counts_ne_of_path_through_store :
    (reviewed "threatmodel/../src").Proper ∧
      Project.load (projectFile "") [] (reviewed "threatmodel/../src")
        = .ok (reviewedProject "threatmodel/../src") ∧
      (here false "first").Apart (reviewedProject "threatmodel/../src") [] (reviewed "threatmodel/../src") ∧
      (here false "second").Apart (reviewedProject "threatmodel/../src") [] (reviewedOnce "threatmodel/../src") ∧
      AgreeOutside (Store.placeIn []) (reviewed "threatmodel/../src") (reviewedOnce "threatmodel/../src") ∧
      (∃ g, FileAction.outcome (here false "first").perform (reviewed "threatmodel/../src")
        = (.ok (g, ⟨0, 0, 0, 0, 0, 0⟩), reviewedOnce "threatmodel/../src")) ∧
      ∃ g' again, FileAction.outcome (here false "second").perform (reviewedOnce "threatmodel/../src")
        = (.ok (g', ⟨1, 1, 1, 0, 0, 1⟩), again) := by
  obtain ⟨hproper, hload, -⟩ := seen_throughStore
  obtain ⟨hapart, -⟩ := apart_throughStore false "first"
  obtain ⟨-, hapart'⟩ := apart_throughStore false "second"
  obtain ⟨g, hrun, -⟩ := exists_throughStore
  have hcounts : (FileAction.outcome (here false "second").perform (reviewedOnce "threatmodel/../src")).1.map Prod.snd
      = .ok ⟨1, 1, 1, 0, 0, 1⟩ := by
    decide +kernel
  obtain ⟨g', -, hrun', rfl⟩ := exists_of_result rfl hcounts
  have hagree := (agree_of_perform (within_here _) hproper hrun).1
  exact ⟨hproper, hload, hapart, hapart', hagree, ⟨g, hrun⟩, g', _, hrun'⟩

end Run
end ThreatModel
