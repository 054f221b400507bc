import Mathlib
import ThreatModel.Proofs.Document.Slots
import ThreatModel.Proofs.Run.Fresh
import ThreatModel.Proofs.Store.RoundTrip

/-!
# `Proofs.Run.Merged` — runs that build on what is stored

A run that merges loads what the run before it has stored, and adds what the sources give. Over the same sources all
names have their records already, so the entities stay as the first run has made them, and every relation is added once
more. Nothing is lost or changed on the way through the documents, as long as the extension slots of the libraries
hold no floating point numbers.

## Contents

* `Graph.Repeated`, `Repeated.step` — a model to which its sources were added again.
* `Repeated.stays`, `Stays.eq_of_back` — such a model is loaded as it was stored.
* `Run.Merges` — runs that merge, one after the other.
* `Merges.repeated`, `relations_of_merges` — what is stored after them.
* `exists_merge_of_plain` — when the first of them succeeds.
-/

namespace ThreatModel

open FileTree (bind_ok AgreeOutside)
open Directive

/-! ## Models to which sources were added again -/

/-- The model of a first run, to which its sources were added again some number of times: it has the entities of the
first run and the name of the last one, and each sequence of relations that often once more. -/
structure Graph.Repeated (g : Graph) (n : Nat) (runId : String) (stored : Graph) : Prop where
  run : stored.runId = runId
  registryRun : stored.registry.runId = runId
  components : stored.registry.components = g.registry.components
  controls : stored.registry.controls = g.registry.controls
  threats : stored.registry.threats = g.registry.threats
  relations : ∀ family,
    stored.relations.sequence family = (List.replicate (n + 1) (g.relations.sequence family)).flatten

/-- Registries with the same records have the same maps. -/
theorem Registry.maps_eq {r other : Registry} (h : ∀ kind name, r.record? kind name = other.record? kind name) :
    r.components = other.components ∧ r.controls = other.controls ∧ r.threats = other.threats := by
  have hinjective : Function.Injective (Option.map Entity.unplaced) :=
    Option.map_injective fun e e' he => congrArg Component.toEntity he
  exact ⟨NameMap.ext_get? (h .component), NameMap.ext_get? fun name => hinjective (h .control name),
    NameMap.ext_get? fun name => hinjective (h .threat name)⟩

namespace Graph.Repeated

variable {s : Sources} {first runId : String} {n : Nat} {g stored : Graph}

theorem zero (h : g.registry.runId = g.runId) : g.Repeated 0 g.runId g where
  run := rfl
  registryRun := h
  components := rfl
  controls := rfl
  threats := rfl
  relations := fun family => by rw [List.replicate_one, List.flatten_singleton]

theorem record?_eq (h : g.Repeated n runId stored) (kind : EntityKind) (name : String) :
    stored.registry.record? kind name = g.registry.record? kind name := by
  cases kind with
  | component => rw [Registry.record?, Registry.record?, h.components]
  | control => rw [Registry.record?, Registry.record?, h.controls]
  | threat => rw [Registry.record?, Registry.record?, h.threats]

/-- **One more run** adds the relations of the sources, and no record: sources offer none under a new name. -/
theorem step (h : ((Graph.empty first).after s.steps).Repeated n runId stored) (other : String) :
    ((Graph.empty first).after s.steps).Repeated (n + 1) other ((stored.startRun other).after s.steps) := by
  have hrecords : ∀ kind name, ((stored.startRun other).after s.steps).registry.record? kind name
      = ((Graph.empty first).after s.steps).registry.record? kind name := by
    intro kind name
    have hstart : (stored.startRun other).registry.record? kind name = s.record? first kind name :=
      calc (stored.startRun other).registry.record? kind name
          = stored.registry.record? kind name := by cases kind <;> rfl
        _ = s.record? first kind name := by rw [h.record?_eq, (s.gives_after_steps first).records]
    have hrun : (stored.startRun other).runId = other := rfl
    rw [Graph.record?_after_steps s rfl, hstart, hrun, (s.gives_after_steps first).records]
    cases hname : s.record? first kind name with
    | some record => rfl
    | none =>
      have hnone := s.isSome_record? other first kind name
      rw [hname, Option.isSome_none, Option.isSome_eq_false_iff, Option.isNone_iff_eq_none] at hnone
      rw [hnone]
      rfl
  obtain ⟨hcomponents, hcontrols, hthreats⟩ := Registry.maps_eq hrecords
  obtain ⟨hrun, hregistry⟩ := Graph.runId_after (g := stored.startRun other) s.run?_eq_none rfl
  refine ⟨hrun, hregistry, hcomponents, hcontrols, hthreats, fun family => ?_⟩
  have hadded : ((Graph.empty first).after s.steps).relations.sequence family
      = s.relations.filter (·.family = family) := by
    rw [Graph.relations_after_steps, Relations.sequence_foldl_push]
    cases family <;> rfl
  have hstart : (stored.startRun other).relations = stored.relations := rfl
  rw [Graph.relations_after_steps, Relations.sequence_foldl_push, hstart, h.relations, ← hadded,
    List.replicate_succ' (n := n + 1), List.flatten_append, List.flatten_singleton]

end Graph.Repeated

/-! ## Models that are loaded as they were stored -/

theorem Relations.exists_of_mem_annexes {rs : Relations} {a : Annex} (h : a ∈ rs.annexes) :
    ∃ family ∈ Family.relations, ∃ record ∈ rs.sequence family, record.annex = a := by
  simp only [annexes, List.mem_append, List.mem_map] at h
  rcases h with
    (((((⟨m, hm, rfl⟩ | ⟨e, he, rfl⟩) | ⟨t, ht, rfl⟩) | ⟨c, hc, rfl⟩) | ⟨c, hc, rfl⟩) | ⟨r, hr, rfl⟩) | ⟨t, ht, rfl⟩
  · exact ⟨.mitigate, by decide, .mitigation m, List.mem_map_of_mem hm, rfl⟩
  · exact ⟨.expose, by decide, .exposure e, List.mem_map_of_mem he, rfl⟩
  · exact ⟨.transfer, by decide, .transfer t, List.mem_map_of_mem ht, rfl⟩
  · exact ⟨.accept, by decide, .acceptance c, List.mem_map_of_mem hc, rfl⟩
  · exact ⟨.connect, by decide, .connection c, List.mem_map_of_mem hc, rfl⟩
  · exact ⟨.review, by decide, .review r, List.mem_map_of_mem hr, rfl⟩
  · exact ⟨.test, by decide, .test t, List.mem_map_of_mem ht, rfl⟩

/-- Records of directives have empty slots. -/
theorem custom_of_recorded {records : List Relation} {found : List (Block × Occurrence)}
    (h : records.Forall₂ Recorded found) : ∀ record ∈ records, record.annex.custom = {} := by
  induction h with
  | nil => exact List.forall_mem_nil _
  | cons hrecorded _ ih =>
    obtain ⟨r, -, -, rfl⟩ := hrecorded
    refine List.forall_mem_cons.mpr ⟨?_, ih⟩
    cases r <;> rfl

/-- The records that sources offer have their slots from libraries, or empty ones. -/
theorem Sources.stays_record? {s : Sources} (hlibraries : ∀ library ∈ s.libraries, library.InRange ∧ library.Floatless)
    {runId : String} {kind : EntityKind} {name : String} {record : Component}
    (h : s.record? runId kind name = some record) : ∀ n ∈ record.custom.numbers, n.Stays := by
  unfold record? at h
  cases hfound : s.libraries.findSome? (·.record? kind name) with
  | some other =>
    rw [hfound] at h
    obtain rfl := Option.some.inj h
    obtain ⟨library, hlibrary, hrecord⟩ := List.exists_of_findSome?_eq_some hfound
    exact (hlibraries library hlibrary).1.stays (hlibraries library hlibrary).2 hrecord
  | none =>
    rw [hfound, Option.none_or] at h
    obtain ⟨description, -, rfl⟩ := Option.map_eq_some_iff.mp h
    exact List.forall_mem_nil _

/-- **The model that is stored after a run stays**, if the libraries hold no floating point numbers. -/
theorem Graph.Repeated.stays {s : Sources} {first runId : String} {n : Nat} {g stored : Graph}
    (h : g.Repeated n runId stored) (hgives : s.Gives first g)
    (hlibraries : ∀ library ∈ s.libraries, library.InRange ∧ library.Floatless) : stored.Stays where
  records := by
    intro kind name record hrecord
    rw [h.record?_eq, hgives.records] at hrecord
    exact s.stays_record? hlibraries hrecord
  annexes := by
    intro a ha
    obtain ⟨family, hfamily, record, hrecord, rfl⟩ := Relations.exists_of_mem_annexes ha
    rw [h.relations] at hrecord
    obtain ⟨records, hrecords, hrecord⟩ := List.mem_flatten.mp hrecord
    obtain rfl := (List.mem_replicate.mp hrecords).2
    rw [custom_of_recorded (hgives.relations family hfamily) record hrecord]
    exact List.forall_mem_nil _

/-- A model that stays is loaded as it was stored. -/
theorem Graph.Stays.eq_of_back {g loaded : Graph} (h : g.Stays) (hrun : g.registry.runId = g.runId)
    (hback : g.back = some loaded) : loaded = g := by
  rw [Graph.eq_of_back h hback]
  exact Store.ofParts_self hrun

/-- Without libraries all slots are empty, so a model comes back if its line numbers fit. -/
theorem Sources.Gives.plain {s : Sources} {runId : String} {g : Graph} (h : s.Gives runId g)
    (hlibraries : s.libraries = []) (hlines : ∀ a ∈ g.relations.annexes, a.source.line < 2 ^ 64) : g.Plain := by
  have hempty : Custom.Plain 100 {} := trivial
  have hrecords : ∀ kind name record, g.registry.record? kind name = some record → record.custom.Plain 100 := by
    intro kind name record hrecord
    rw [h.records, record?, hlibraries, List.findSome?_nil, Option.none_or] at hrecord
    obtain ⟨description, -, rfl⟩ := Option.map_eq_some_iff.mp hrecord
    exact hempty
  refine ⟨fun entry hentry => ?_, fun entry hentry => ?_, fun entry hentry => ?_, fun a ha => ⟨?_, hlines a ha⟩⟩
  · exact hrecords .component entry.1 entry.2 (NameMap.get?_eq_some_iff.mpr hentry)
  · refine hrecords .control entry.1 entry.2.unplaced ?_
    rw [Registry.record?, NameMap.get?_eq_some_iff.mpr hentry, Option.map_some]
  · refine hrecords .threat entry.1 entry.2.unplaced ?_
    rw [Registry.record?, NameMap.get?_eq_some_iff.mpr hentry, Option.map_some]
  · obtain ⟨family, hfamily, record, hrecord, rfl⟩ := Relations.exists_of_mem_annexes ha
    rw [custom_of_recorded (h.relations family hfamily) record hrecord]
    exact hempty

/-! ## Runs that merge -/

namespace Run

variable {r : Run} {project : Project} {home : Place} {tree after last : FileTree} {g stored : Graph}
  {summary : Summary} {n : Nat} {runId : String}

/-- Runs that merge, one after the other, from the tree that the first run has left on; each repeats the first run, and
succeeds. They are described by their number, the name of the last one, and the tree that it leaves. -/
inductive Merges (r : Run) (project : Project) (home : Place) (tree first : FileTree) : Nat → String → FileTree → Prop
  | none : Merges r project home tree first 0 r.runId first
  | more {n : Nat} {runId : String} {before after : FileTree} {r' : Run} {g : Graph} {summary : Summary} :
      Merges r project home tree first n runId before → r'.merge = true → r.Repeats project home tree r' before →
      FileAction.outcome r'.perform before = (.ok (g, summary), after) →
      Merges r project home tree first (n + 1) r'.runId after

/-- A run that merges starts from the model in the store, if it can be loaded. -/
theorem priorModel_of_holds (hmerge : r.merge = true) (hholds : Holds r.directory tree stored) {prior : Graph} :
    r.priorModel tree = .ok prior ↔ stored.back = some prior := by
  have hany : (storeIn r.directory).holdsAny tree = true := holdsAny_iff.mpr ⟨.model, isFile_of_readBytes (hholds .model)⟩
  unfold priorModel
  simp only [hmerge, hany, Bool.and_self, if_true, mapError_ok_iff]
  exact Store.load_eq_ok_iff hholds

/-- The slots of the libraries that a run has read. -/
theorem Reads.libraries_inRange {s : Sources} (h : r.Reads tree s) (hfloatless : ∀ library ∈ s.project.imports,
      ∀ registry, (libraryStore r.directory library).loadLibrary tree = .ok registry → registry.Floatless) :
    ∀ registry ∈ s.libraries, registry.InRange ∧ registry.Floatless := by
  intro registry hregistry
  obtain ⟨library, hlibrary, hload⟩ := exists_of_mem_mapM_ok h.libraries hregistry
  exact ⟨Store.inRange_of_loadLibrary hload, hfloatless library hlibrary registry hload⟩

/-- **Every run that merges adds its sources once more** to what the first run has stored. -/
theorem Merges.repeated {s : Sources} (hreads : r.Reads tree s) (hproper : tree.Proper)
    (hhome : tree.Within r.directory home) (hapart : r.Apart s.project home tree)
    (hlibraries : ∀ registry ∈ s.libraries, registry.InRange ∧ registry.Floatless)
    (hrun : FileAction.outcome r.perform tree = (.ok ((Graph.empty r.runId).after s.steps, summary), after))
    (h : r.Merges s.project home tree after n runId last) :
    ∃ stored, ((Graph.empty r.runId).after s.steps).Repeated n runId stored ∧ Holds r.directory last stored ∧
      AgreeOutside (Store.placeIn home) tree last ∧ tree.Extends last ∧ last.Proper := by
  have hgives := s.gives_after_steps r.runId
  -- By induction on the runs: what one run stores is what the next one loads.
  induction h with
  | none =>
    obtain ⟨hagree, hextends, hproper'⟩ := agree_of_perform hhome hproper hrun
    have hregistry := Graph.runId_after (g := Graph.empty r.runId) s.run?_eq_none rfl
    have hzero := Graph.Repeated.zero (hregistry.2.trans hregistry.1.symm)
    rw [hregistry.1] at hzero
    exact ⟨_, hzero, Store.readBytes_of_save (perform_ok_iff.mp hrun).2, hagree, hextends, hproper'⟩
  | @more n runId before after r' g' summary' _ hmerge hrepeats hrun' ih =>
    obtain ⟨stored, hrepeated, hholds, hagree, hextends, hproper'⟩ := ih
    have hunchanged : r.Unchanged s.project home tree r' before := ⟨hrepeats, hproper', hagree⟩
    have hhome' : before.Within r'.directory home := hrepeats.directory ▸ hhome.mono hextends
    obtain ⟨hmodel, hsave⟩ := perform_ok_iff.mp hrun'
    obtain ⟨s', prior, hreads', hprior, rfl, -⟩ := model_ok_iff.mp hmodel
    obtain rfl := hunchanged.sources_eq hproper hhome hapart rfl hreads hreads'
    have hback := (priorModel_of_holds hmerge (hrepeats.directory ▸ hholds)).mp hprior
    obtain rfl := (hrepeated.stays hgives hlibraries).eq_of_back (hrepeated.registryRun.trans hrepeated.run.symm) hback
    obtain ⟨hagree', hextends', hlast⟩ := agree_of_perform hhome' hproper' hrun'
    refine ⟨_, hrepeated.step r'.runId, ?_, hagree.trans hagree', hextends.trans hextends', hlast⟩
    rw [hrepeats.directory] at hsave
    exact Store.readBytes_of_save hsave

/-- **What is stored after runs that merge.** After a run that does not merge and any number of runs over the same
sources that do, the store holds a model, and this is the only one that can be loaded from it: it has the name of the
last run, the entities of the first run, and each sequence of relations of the first run once for every run. -/
theorem relations_of_merges (hmerge : r.merge = false) (hproper : tree.Proper) (hhome : tree.Within r.directory home)
    (hproject : Project.load (projectFile r.directory) r.environment tree = .ok project)
    (hapart : r.Apart project home tree)
    (hfloatless : ∀ library ∈ project.imports, ∀ registry,
      (libraryStore r.directory library).loadLibrary tree = .ok registry → registry.Floatless)
    (hrun : FileAction.outcome r.perform tree = (.ok (g, summary), after))
    (hmerges : r.Merges project home tree after n runId last) :
    ∃ stored, Holds r.directory last stored ∧
      (∀ loaded, (storeIn r.directory).load last = .ok loaded → loaded = stored) ∧
      stored.runId = runId ∧ stored.registry.components = g.registry.components ∧
      stored.registry.controls = g.registry.controls ∧ stored.registry.threats = g.registry.threats ∧
      ∀ family, stored.relations.sequence family
        = (List.replicate (n + 1) (g.relations.sequence family)).flatten := by
  obtain ⟨s, hreads, rfl, -⟩ := (model_fresh_iff hmerge).mp (perform_ok_iff.mp hrun).1
  obtain rfl : s.project = project := Except.ok.inj (hreads.project.symm.trans hproject)
  have hlibraries := hreads.libraries_inRange hfloatless
  obtain ⟨stored, hrepeated, hholds, -⟩ := hmerges.repeated hreads hproper hhome hapart hlibraries hrun
  refine ⟨stored, hholds, fun loaded hload => ?_, hrepeated.run, hrepeated.components, hrepeated.controls,
    hrepeated.threats, hrepeated.relations⟩
  have hstays := hrepeated.stays (s.gives_after_steps r.runId) hlibraries
  exact hstays.eq_of_back (hrepeated.registryRun.trans hrepeated.run.symm) ((Store.load_eq_ok_iff hholds).mp hload)

/-- A run that merges succeeds right after one that does not, if the model of that one is plain. -/
theorem exists_merge_of_plain (hmerge : r.merge = false) (hproper : tree.Proper) (hhome : tree.Within r.directory home)
    (hproject : Project.load (projectFile r.directory) r.environment tree = .ok project)
    (hapart : r.Apart project home tree)
    (hrun : FileAction.outcome r.perform tree = (.ok (g, summary), after)) (hplain : g.Plain) {r' : Run}
    (hmerge' : r'.merge = true) (hrepeats : r.Repeats project home tree r' after)
    (hscan : ∃ paths, Scan.files r.directory project after = .ok paths) :
    ∃ merged counts last, FileAction.outcome r'.perform after = (.ok (merged, counts), last) := by
  obtain ⟨hmodel, hsave⟩ := perform_ok_iff.mp hrun
  obtain ⟨s, hreads, -, -⟩ := (model_fresh_iff hmerge).mp hmodel
  obtain rfl : s.project = project := Except.ok.inj (hreads.project.symm.trans hproject)
  obtain ⟨hagree, hextends, -⟩ := agree_of_perform hhome hproper hrun
  obtain ⟨s', hreads'⟩ :=
    hreads.exists_of_extends hrepeats.directory hrepeats.environment hhome hagree hextends hapart hscan
  have hholds : Holds r'.directory after g := hrepeats.directory ▸ Store.readBytes_of_save hsave
  have hprior := (priorModel_of_holds hmerge' hholds).mpr (Graph.back_plain hplain)
  obtain ⟨again, hagain⟩ := Store.exists_save_of_save hsave
    (((Graph.ofParts g.runId g.registry g.relations).startRun r'.runId).after s'.steps)
  rw [← hrepeats.directory] at hagain
  exact ⟨_, _, again, perform_ok_iff.mpr ⟨model_ok_iff.mpr ⟨s', _, hreads', hprior, rfl, rfl⟩, hagain⟩⟩

/-! ### The project with one file -/

/-- The model of a run over the project with one file is plain, because its only line number is small. -/
theorem plain_of_lines (hrun : FileAction.outcome (here false "first").perform (reviewed "src")
      = (.ok (g, summary), after)) (hlines : g.relations.annexes.map (·.source.line) = [1]) : g.Plain := by
  obtain ⟨s, hreads, rfl, -⟩ := (model_fresh_iff rfl).mp (perform_ok_iff.mp hrun).1
  have hproject : s.project = reviewedProject "src" := Except.ok.inj (hreads.project.symm.trans seen_reviewed.2.1)
  have hlibraries := hreads.libraries
  rw [hproject] at hlibraries
  refine (s.gives_after_steps _).plain (Except.ok.inj hlibraries).symm fun a ha => ?_
  have hline := List.mem_map_of_mem (f := fun a : Annex => a.source.line) ha
  rw [hlines, List.mem_singleton] at hline
  rw [hline]
  decide

/-- A run, and one that merges, over the same file: the review is stored twice, and its component once. -/
theorem relations_of_merges_reviewed :
    ∃ g, FileAction.outcome (here false "first").perform (reviewed "src")
        = (.ok (g, ⟨1, 1, 1, 0, 0, 1⟩), reviewedOnce "src") ∧
      ∃ g' counts last stored, FileAction.outcome (here true "second").perform (reviewedOnce "src")
          = (.ok (g', counts), last) ∧
        Holds "" last stored ∧ stored.runId = "second" ∧ stored.registry.components = g.registry.components ∧
        stored.relations.sequence .review = g.relations.sequence .review ++ g.relations.sequence .review := by
  obtain ⟨hproper, hload, -, hfiles, -⟩ := seen_reviewed
  obtain ⟨g, hrun, hlines⟩ := exists_reviewedOnce
  have hrepeats := repeats_reviewed true "second"
  obtain ⟨g', counts, last, hrun'⟩ := exists_merge_of_plain rfl hproper (within_here _) hload (apart_reviewed _ _) hrun
    (plain_of_lines hrun hlines) rfl hrepeats ⟨_, hfiles⟩
  have hmerges : (here false "first").Merges (reviewedProject "src") [] (reviewed "src") (reviewedOnce "src") 1 "second"
      last := .more .none rfl hrepeats hrun'
  obtain ⟨stored, hholds, -, hstored, hcomponents, -, -, hrelations⟩ :=
    relations_of_merges rfl hproper (within_here _) hload (apart_reviewed _ _) (List.forall_mem_nil _) hrun hmerges
  refine ⟨g, hrun, g', counts, last, stored, hrun', hholds, hstored, hcomponents, ?_⟩
  rw [hrelations, List.replicate_succ, List.replicate_one, List.flatten_cons, List.flatten_singleton]

/-- **A path through the store** leads to the sources only once the store is there: the first run over a project that
scans such a path stores nothing, and one that merges afterwards, on unchanged sources, stores a review. -/
theorem relations_ne_of_path_through_store :
    (reviewed "threatmodel/../src").Proper ∧
      Project.load (projectFile "") [] (reviewed "threatmodel/../src")
        = .ok (reviewedProject "threatmodel/../src") ∧
      (here false "first").Apart (reviewedProject "threatmodel/../src") [] (reviewed "threatmodel/../src") ∧
      (here true "second").Apart (reviewedProject "threatmodel/../src") [] (reviewedOnce "threatmodel/../src") ∧
      AgreeOutside (Store.placeIn []) (reviewed "threatmodel/../src") (reviewedOnce "threatmodel/../src") ∧
      ∃ g summary, FileAction.outcome (here false "first").perform (reviewed "threatmodel/../src")
          = (.ok (g, summary), reviewedOnce "threatmodel/../src") ∧
        ∃ stored summary' last, FileAction.outcome (here true "second").perform (reviewedOnce "threatmodel/../src")
            = (.ok (stored, summary'), last) ∧ Holds "" last stored ∧
          stored.relations.sequence .review ≠ (List.replicate 2 (g.relations.sequence .review)).flatten := by
  obtain ⟨hproper, hload, -⟩ := seen_throughStore
  obtain ⟨hapart, -⟩ := apart_throughStore false "first"
  obtain ⟨-, hapart'⟩ := apart_throughStore true "second"
  obtain ⟨g, hrun, hnone⟩ := exists_throughStore
  have hlength : (FileAction.outcome (here true "second").perform (reviewedOnce "threatmodel/../src")).1.map
      (fun built => (built.1.relations.sequence .review).length) = .ok 1 := by
    decide +kernel
  obtain ⟨stored, summary', hrun', hone⟩ := exists_of_result rfl hlength
  have hagree := (agree_of_perform (within_here _) hproper hrun).1
  have hfirst : g.relations.sequence .review = [] := by rw [Relations.sequence, hnone, List.map_nil]
  have hne : stored.relations.sequence .review ≠ (List.replicate 2 (g.relations.sequence .review)).flatten := by
    intro heq
    rw [heq, hfirst] at hone
    exact absurd hone (by decide)
  exact ⟨hproper, hload, hapart, hapart', hagree, g, _, hrun, stored, summary', _, hrun',
    Store.readBytes_of_save (perform_ok_iff.mp hrun').2, hne⟩

end Run
end ThreatModel
