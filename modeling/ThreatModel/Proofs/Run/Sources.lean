import Mathlib
import ThreatModel.Proofs.FirstWrite
import ThreatModel.Proofs.Run.Failure
import ThreatModel.Proofs.Scan

/-!
# `Proofs.Run.Sources` — what a run reads, and what it makes of it

Besides the stored model a run reads its configuration, the entities of the imported libraries, and the blocks in the
sources. It adds all of them to the model that it starts from: libraries and blocks offer records, of which the first
one under a name counts, and the directives in the blocks add their relations at the end.

What a run reads is the same in two trees that differ in its own store only, as long as nothing that it reads is in
there.

## Contents

* `Sources`, `Sources.steps` — what is read, and the history it makes.
* `Sources.record?`, `record?_after_steps` — the records that sources offer.
* `Sources.relations`, `relations_after_steps`, `sequence_foldl_push` — the relations that they add.
* `Run.Reads`, `Run.model_ok_iff`, `Run.perform_ok_iff` — a run adds to a model what it reads.
* `Run.granted_perform` — a run that succeeds does the same under every system.
* `Run.Apart`, `Run.Reads.eq_of_agree` — sources that are not in the store.
-/

namespace ThreatModel

open FileTree (bind_ok)
open Directive

/-! ## Sources -/

/-- What a run reads besides the stored model: the configuration, the entities of the imported libraries, and the
blocks with directives in the sources. -/
structure Sources where
  project : Project
  libraries : List Registry
  blocks : List Block

/-- The history that sources make: libraries are imported, and then blocks are merged. -/
def Sources.steps (s : Sources) : List Graph.Event := s.libraries.map .importLibrary ++ s.blocks.map .merge

theorem Sources.filterMap_block? (s : Sources) : s.steps.filterMap Graph.Event.block? = s.blocks := by
  have hlibraries : (s.libraries.map Graph.Event.importLibrary).filterMap Graph.Event.block? = [] := by
    rw [List.filterMap_map, List.filterMap_eq_nil_iff]
    exact fun _ _ => rfl
  have hblocks : (s.blocks.map Graph.Event.merge).filterMap Graph.Event.block? = s.blocks := by
    rw [List.filterMap_map]
    exact List.filterMap_some
  rw [steps, List.filterMap_append, hlibraries, hblocks, List.nil_append]

namespace Graph

theorem after_append (g : Graph) (events more : List Event) : g.after (events ++ more) = (g.after events).after more :=
  List.foldl_append

/-! ### Runs -/

/-- The run stays as it is where no run is started. -/
theorem runId_after {g : Graph} {events : List Event} (hruns : ∀ event ∈ events, event.run? = none)
    (h : g.registry.runId = g.runId) : (g.after events).runId = g.runId ∧ (g.after events).registry.runId = g.runId := by
  induction events generalizing g with
  | nil => exact ⟨rfl, h⟩
  | cons event events ih =>
    obtain ⟨hevent, hruns⟩ := List.forall_mem_cons.mp hruns
    obtain ⟨hrun, hregistry⟩ := runId_step h event
    rw [hevent, Option.getD_none] at hrun
    rw [after_cons, ← hrun]
    exact ih hruns hregistry

/-- Where no run is started, the first step that offers a record under a name counts. -/
theorem record?_after_of_runs {g : Graph} {events : List Event} (hruns : ∀ event ∈ events, event.run? = none)
    (h : g.registry.runId = g.runId) (kind : EntityKind) (name : String) :
    (g.after events).registry.record? kind name
      = (g.registry.record? kind name).or (events.findSome? (·.offer? g.runId kind name)) := by
  induction events generalizing g with
  | nil => rw [after_nil, List.findSome?_nil, Option.or_none]
  | cons event events ih =>
    obtain ⟨hevent, hruns⟩ := List.forall_mem_cons.mp hruns
    obtain ⟨hrun, hregistry⟩ := runId_step h event
    rw [hevent, Option.getD_none] at hrun
    rw [after_cons, ih hruns hregistry, record?_step, Option.or_assoc, findSome?_cons_or, h, hrun]

end Graph

theorem Sources.run?_eq_none (s : Sources) : ∀ event ∈ s.steps, event.run? = none := by
  intro event hevent
  rcases List.mem_append.mp hevent with hevent | hevent
  · obtain ⟨library, -, rfl⟩ := List.mem_map.mp hevent
    rfl
  · obtain ⟨block, -, rfl⟩ := List.mem_map.mp hevent
    rfl

/-! ### Records -/

/-- The description under which a block mentions a name: that of its first declaration, or none if only its relations
use the name. -/
def Block.describes? (block : Block) (kind : EntityKind) (name : String) : Option String :=
  let directives := inTextOrder block.text.toList
  (directives.findSome? (·.declares? kind name)).or (if directives.any (·.refersTo kind name) then some "" else none)

theorem Block.offer?_eq (block : Block) (runId : String) (kind : EntityKind) (name : String) :
    block.offer? runId kind name = (block.describes? kind name).map (kind.first runId name) := by
  unfold offer? describes?
  simp only
  cases (inTextOrder block.text.toList).findSome? (·.declares? kind name) with
  | some description => rfl
  | none => simp only [Option.none_or, Option.map_if]

/-- The record that sources offer under a name in a run: that of the first library that has the name, and else one in
the name of the run, with the description of the first block that mentions the name. -/
def Sources.record? (s : Sources) (runId : String) (kind : EntityKind) (name : String) : Option Component :=
  (s.libraries.findSome? (·.record? kind name)).or
    ((s.blocks.findSome? (·.describes? kind name)).map (kind.first runId name))

theorem Sources.findSome?_steps (s : Sources) (runId : String) (kind : EntityKind) (name : String) :
    s.steps.findSome? (·.offer? runId kind name) = s.record? runId kind name := by
  have hblock : ((·.offer? runId kind name) ∘ Graph.Event.merge : Block → Option Component)
      = Option.map (kind.first runId name) ∘ (·.describes? kind name) := by
    funext block
    rw [Function.comp_apply, Function.comp_apply, ← block.offer?_eq, Graph.Event.offer?]
  rw [steps, List.findSome?_append, List.findSome?_map, List.findSome?_map, hblock, ← List.map_findSome?]
  rfl

/-- **What sources make of the records**: those that are there stay, and the others come from the sources. -/
theorem Graph.record?_after_steps {g : Graph} (s : Sources) (h : g.registry.runId = g.runId) (kind : EntityKind)
    (name : String) :
    (g.after s.steps).registry.record? kind name
      = (g.registry.record? kind name).or (s.record? g.runId kind name) := by
  rw [record?_after_of_runs s.run?_eq_none h, s.findSome?_steps]

/-! ### Relations -/

/-- The relations that a block states, in the order of its listing. -/
def Block.relations (block : Block) : List Relation :=
  (Directive.parse block.text.toList).filterMap fun o =>
    match o.statement with
    | .declaration _ _ _ => none
    | .relation r => some (r.withSource (block.provenance o))

/-- The relations that sources state. -/
def Sources.relations (s : Sources) : List Relation := s.blocks.flatMap Block.relations

theorem Graph.relations_step (g : Graph) (event : Event) :
    (g.step event).relations = (event.block?.toList.flatMap Block.relations).foldl Relations.push g.relations := by
  have hfoldl : ∀ (block : Block) (occurrences : List Occurrence) (g : Graph),
      (occurrences.foldl (fun g o => g.apply block.location o) g).relations
        = (occurrences.filterMap fun o =>
            match o.statement with
            | .declaration _ _ _ => none
            | .relation r => some (r.withSource (block.provenance o))).foldl Relations.push g.relations := by
    intro block occurrences
    induction occurrences with
    | nil => intro g; rfl
    | cons o rest ih =>
      intro g
      rw [List.foldl_cons, ih, List.filterMap_cons, apply]
      cases o.statement with
      | declaration kind name description => rfl
      | relation r =>
        rw [sourceOf_eq]
        rfl
  cases hblock : event.block? with
  | some block =>
    rw [(step_block hblock g).1, hfoldl, Option.toList_some, List.flatMap_singleton]
    rfl
  | none =>
    cases event with
    | parse block => cases hblock
    | merge block => cases hblock
    | startRun runId => rfl
    | importLibrary library => rfl

/-- **What sources make of the relations**: theirs are added at the end. -/
theorem Graph.relations_after_steps (g : Graph) (s : Sources) :
    (g.after s.steps).relations = s.relations.foldl Relations.push g.relations := by
  have hafter : ∀ (events : List Event) (g : Graph), (g.after events).relations
      = ((events.filterMap Event.block?).flatMap Block.relations).foldl Relations.push g.relations := by
    intro events
    induction events with
    | nil => intro g; rfl
    | cons event events ih =>
      intro g
      rw [after_cons, ih, relations_step, ← List.foldl_append, ← List.flatMap_append]
      cases hblock : event.block? with
      | none => rw [List.filterMap_cons_none hblock]; rfl
      | some block => rw [List.filterMap_cons_some hblock]; rfl
  rw [hafter, s.filterMap_block?]
  rfl

/-- Relations that are added one after the other are added to the relations of their sorts. -/
theorem Relations.sequence_foldl_push (relations : List Relation) (rs : Relations) (family : Family) :
    (relations.foldl push rs).sequence family = rs.sequence family ++ relations.filter (·.family = family) := by
  induction relations generalizing rs with
  | nil => rw [List.foldl_nil, List.filter_nil, List.append_nil]
  | cons r rest ih =>
    rw [List.foldl_cons, ih, sequence_push, List.append_assoc, List.filter_cons]
    by_cases h : r.family = family
    · rw [if_pos h, if_pos (decide_eq_true h)]
      rfl
    · rw [if_neg h, if_neg (by simpa using h)]
      rfl

/-! ## Runs -/

namespace Run

variable {r : Run} {tree other : FileTree}

/-- What a run reads of a tree besides the stored model. -/
structure Reads (r : Run) (tree : FileTree) (s : Sources) : Prop where
  project : Project.load (projectFile r.directory) r.environment tree = .ok s.project
  libraries : s.project.imports.mapM (fun library => (libraryStore r.directory library).loadLibrary tree) = .ok s.libraries
  blocks : Scan.blocks r.directory s.project tree = .ok (s.blocks.map Block.scan)

theorem importLibrary_ok_iff {g next : Graph} {library : String} :
    r.importLibrary tree g library = .ok next ↔
      ∃ registry, (libraryStore r.directory library).loadLibrary tree = .ok registry ∧ next = g.importLibrary registry := by
  unfold importLibrary
  cases (libraryStore r.directory library).loadLibrary tree with
  | error e => simp
  | ok registry => simp [eq_comm]

/-- Libraries are imported one after the other. -/
theorem foldlM_importLibrary_ok_iff {g imported : Graph} {imports : List String} :
    imports.foldlM (r.importLibrary tree) g = .ok imported ↔
      ∃ libraries, imports.mapM (fun library => (libraryStore r.directory library).loadLibrary tree) = .ok libraries ∧
        imported = g.after (libraries.map .importLibrary) := by
  induction imports generalizing g with
  | nil =>
    rw [List.foldlM_nil, List.mapM_nil]
    constructor
    · intro h
      exact ⟨[], rfl, (Except.ok.inj h).symm⟩
    · rintro ⟨libraries, h, rfl⟩
      obtain rfl := Except.ok.inj h
      rfl
  | cons library rest ih =>
    rw [List.foldlM_cons, List.mapM_cons]
    simp only [bind_ok, importLibrary_ok_iff, ih]
    constructor
    · rintro ⟨next, ⟨registry, hregistry, rfl⟩, libraries, hlibraries, rfl⟩
      exact ⟨registry :: libraries, ⟨registry, hregistry, libraries, hlibraries, rfl⟩, rfl⟩
    · rintro ⟨all, ⟨registry, hregistry, libraries, hlibraries, h⟩, rfl⟩
      obtain rfl := Except.ok.inj h
      exact ⟨_, ⟨registry, hregistry, rfl⟩, libraries, hlibraries, rfl⟩

/-- Blocks are merged one after the other, and their directives counted. -/
theorem mergeBlocks_eq (g : Graph) (blocks : List Block) :
    mergeBlocks g (blocks.map Block.scan)
      = (g.after (blocks.map .merge), (blocks.map fun block => (Directive.parse block.text.toList).length).sum) := by
  have hfold : ∀ (blocks : List Block) (g : Graph) (n : Nat),
      (blocks.map Block.scan).foldl (fun (state : Graph × Nat) found =>
          ((state.1.merge found).1, state.2 + (state.1.merge found).2)) (g, n)
        = (g.after (blocks.map .merge), n + (blocks.map fun block => (Directive.parse block.text.toList).length).sum) := by
    intro blocks
    induction blocks with
    | nil => intro g n; rfl
    | cons block rest ih =>
      intro g n
      have hcount : (g.merge block.scan).2 = (Directive.parse block.text.toList).length := by
        rw [Graph.merge_eq]
        rfl
      rw [List.map_cons, List.foldl_cons, ih, List.map_cons, List.map_cons, List.sum_cons, Graph.after_cons, hcount,
        Nat.add_assoc]
      rfl
  have hmerge := hfold blocks g 0
  rwa [Nat.zero_add] at hmerge

/-- The blocks of a scan are found in the texts of blocks. -/
theorem exists_blocks {p : Project} {found : List ScannedBlock} (h : Scan.blocks r.directory p tree = .ok found) :
    ∃ blocks : List Block, found = blocks.map Block.scan := by
  refine ⟨found.map ScannedBlock.block, ?_⟩
  rw [List.map_map]
  refine (List.map_id found).symm.trans (List.map_congr_left fun block hblock => ?_)
  exact Scan.eq_scan_of_mem_blocks h hblock

/-- The counts that a run ends with. -/
def Summary.ofSources (g : Graph) (s : Sources) : Summary :=
  .ofModel g s.blocks.length (s.blocks.map fun block => (Directive.parse block.text.toList).length).sum

/-- **A run adds what it reads** to the model that it starts from. -/
theorem model_ok_iff {g : Graph} {summary : Summary} :
    r.model tree = .ok (g, summary) ↔ ∃ s prior, r.Reads tree s ∧ r.priorModel tree = .ok prior ∧
      g = (prior.startRun r.runId).after s.steps ∧ summary = .ofSources g s := by
  unfold model
  simp only [bind_ok, mapError_ok_iff, foldlM_importLibrary_ok_iff]
  constructor
  · rintro ⟨project, hproject, prior, hprior, imported, ⟨libraries, hlibraries, rfl⟩, found, hfound, h⟩
    obtain ⟨blocks, rfl⟩ := exists_blocks hfound
    rw [mergeBlocks_eq, ← Graph.after_append] at h
    obtain ⟨rfl, rfl⟩ := Prod.mk.inj (Except.ok.inj h)
    refine ⟨⟨project, libraries, blocks⟩, prior, ⟨hproject, hlibraries, hfound⟩, hprior, rfl, ?_⟩
    rw [List.length_map]
    rfl
  · rintro ⟨s, prior, ⟨hproject, hlibraries, hblocks⟩, hprior, rfl, rfl⟩
    refine ⟨s.project, hproject, prior, hprior, _, ⟨s.libraries, hlibraries, rfl⟩, _, hblocks, ?_⟩
    rw [mergeBlocks_eq, ← Graph.after_append, List.length_map]
    rfl

open FileAction

/-- A run that succeeds has built its model and stored it. -/
theorem perform_ok_iff {system : System} {g : Graph} {summary : Summary} {after : FileTree} :
    outcome (r.perform system) tree = (.ok (g, summary), after) ↔
      r.model tree = .ok (g, summary) ∧ outcome ((storeIn r.directory).save g system) tree = (.ok (), after) := by
  unfold perform
  rw [outcome_bind, outcome_get]
  simp only
  rw [outcome_bind, outcome_ofExcept]
  cases r.model tree with
  | error e => simp
  | ok built =>
    obtain ⟨built, counts⟩ := built
    simp only [outcome_bind_ok, outcome_adapt_ok]
    constructor
    · rintro ⟨⟨⟩, last, hsave, hreturn⟩
      obtain ⟨hresult, rfl⟩ := Prod.mk.inj hreturn
      obtain ⟨rfl, rfl⟩ := Prod.mk.inj (Except.ok.inj hresult)
      exact ⟨rfl, hsave⟩
    · rintro ⟨hbuilt, hsave⟩
      obtain ⟨rfl, rfl⟩ := Prod.mk.inj (Except.ok.inj hbuilt)
      exact ⟨(), after, hsave, rfl⟩

/-- **A run that succeeds** under some system does what it does under the willing one. -/
theorem granted_perform (r : Run) : Granted fun system => r.perform system := by
  intro system tree after ⟨g, summary⟩ h
  obtain ⟨hmodel, hsave⟩ := perform_ok_iff.mp h
  exact perform_ok_iff.mpr ⟨hmodel, Store.granted_save _ g system tree after () hsave⟩

end Run
end ThreatModel
