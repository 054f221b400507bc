import Mathlib
import ThreatModel.Proofs.Graph
import ThreatModel.Proofs.Store.RoundTrip

/-!
# `Proofs.Session` — models that are built, saved and loaded again

A session starts from an empty model and works on it step by step. Besides the operations on models it can save
the model, and later load what a save wrote. Coming back from its documents changes the extension slots of a model
at most, so in every state a session reaches the model hangs together.

## Contents

* `Graph.Consistent.back` — a model that comes back from its documents still hangs together.
* `Session`, `Session.Step`, `Session.Reachable` — sessions and the states they reach.
* `Session.Invariant` — what every step keeps, for the model and for everything saved so far.
* `consistent_of_reachable` — the model hangs together in every state.
-/

namespace ThreatModel

open Json FileTree FileAction

/-! ## Records that come back -/

/-- A record that comes back is one of the records that were written, with another part at its end. -/
theorem exists_of_mem_mapM_annex {σ : Type} {get : σ → Annex} {put : σ → Annex → σ} {levels : Nat}
    {records back : List σ} (h : records.mapM (fun r => ((get r).back levels).map (put r)) = some back)
    {r : σ} (hr : r ∈ back) : ∃ old ∈ records, ∃ annex, r = put old annex := by
  induction records generalizing back with
  | nil =>
    obtain rfl := Option.some.inj h
    cases hr
  | cons first more ih =>
    rw [List.mapM_cons] at h
    obtain ⟨head, hhead, h⟩ := Option.bind_eq_some_iff.mp h
    obtain ⟨tail, htail, h⟩ := Option.bind_eq_some_iff.mp h
    obtain rfl := Option.some.inj h
    rcases List.mem_cons.mp hr with rfl | hr
    · obtain ⟨annex, -, rfl⟩ := Option.map_eq_some_iff.mp hhead
      exact ⟨first, List.mem_cons_self, annex, rfl⟩
    · obtain ⟨old, hold, hannex⟩ := ih htail hr
      exact ⟨old, List.mem_cons_of_mem _ hold, hannex⟩

/-- A relation that comes back uses the names of a relation that was written. -/
theorem Relations.bound_back {rs back : Relations} {levels : Nat} (h : rs.back levels = some back)
    {relation : Relation} (hrelation : relation ∈ back.records) :
    ∃ old ∈ rs.records, ∀ r, old.Bound r → relation.Bound r := by
  simp only [Relations.back, bind, Option.bind_eq_some_iff, Option.some.injEq] at h
  obtain ⟨mitigations, hmitigations, exposures, hexposures, transfers, htransfers, acceptances, hacceptances,
    connections, hconnections, reviews, hreviews, tests, htests, rfl⟩ := h
  simp only [records, List.mem_append, List.mem_map] at hrelation ⊢
  rcases hrelation with (((((⟨r, hr, rfl⟩ | ⟨r, hr, rfl⟩) | ⟨r, hr, rfl⟩) | ⟨r, hr, rfl⟩) | ⟨r, hr, rfl⟩)
    | ⟨r, hr, rfl⟩) | ⟨r, hr, rfl⟩
  · obtain ⟨old, hold, annex, rfl⟩ := exists_of_mem_mapM_annex hmitigations hr
    exact ⟨.mitigation old, by simp [hold], fun _ hbound => hbound⟩
  · obtain ⟨old, hold, annex, rfl⟩ := exists_of_mem_mapM_annex hexposures hr
    exact ⟨.exposure old, by simp [hold], fun _ hbound => hbound⟩
  · obtain ⟨old, hold, annex, rfl⟩ := exists_of_mem_mapM_annex htransfers hr
    exact ⟨.transfer old, by simp [hold], fun _ hbound => hbound⟩
  · obtain ⟨old, hold, annex, rfl⟩ := exists_of_mem_mapM_annex hacceptances hr
    exact ⟨.acceptance old, by simp [hold], fun _ hbound => hbound⟩
  · obtain ⟨old, hold, annex, rfl⟩ := exists_of_mem_mapM_annex hconnections hr
    exact ⟨.connection old, by simp [hold], fun _ hbound => hbound⟩
  · obtain ⟨old, hold, annex, rfl⟩ := exists_of_mem_mapM_annex hreviews hr
    exact ⟨.review old, by simp [hold], fun _ hbound => hbound⟩
  · obtain ⟨old, hold, annex, rfl⟩ := exists_of_mem_mapM_annex htests hr
    exact ⟨.test old, by simp [hold], fun _ hbound => hbound⟩

/-! ## Models that come back -/

namespace Graph

variable {g loaded : Graph}

/-- The parts of a model that comes back, map by map. -/
theorem back_eq_some (h : g.back = some loaded) :
    g.registry.controls.traverse ((Entity.shape "Control").codec.back 126) = some loaded.registry.controls ∧
      g.registry.threats.traverse ((Entity.shape "Threat").codec.back 126) = some loaded.registry.threats ∧
      g.registry.components.traverse (Component.shape.codec.back 126) = some loaded.registry.components ∧
      g.relations.back 124 = some loaded.relations ∧ loaded.registry.runId = loaded.runId := by
  simp only [Graph.back, bind, Option.bind_eq_some_iff, Option.some.injEq] at h
  obtain ⟨controls, hcontrols, threats, hthreats, components, hcomponents, relations, hrelations, rfl⟩ := h
  exact ⟨hcontrols, hthreats, hcomponents, hrelations, rfl⟩

/-- A component comes back with what becomes of its extension slot. -/
theorem component_back (h : g.back = some loaded) (name : String) :
    loaded.registry.components.get? name = (g.registry.components.get? name).bind fun c =>
      (Codec.custom.back 125 c.custom).map fun custom => { c with custom } := by
  obtain ⟨-, -, hcomponents, -, -⟩ := back_eq_some h
  rw [(NameMap.traverse_eq_some hcomponents).2]
  exact congrArg _ (funext (back_component 123))

/-- An entity of any kind comes back with what becomes of its extension slot. -/
theorem entity?_back (h : g.back = some loaded) (kind : EntityKind) (name : String) :
    loaded.registry.entity? kind name = (g.registry.entity? kind name).bind fun e =>
      (Codec.custom.back 125 e.custom).map fun custom => { e with custom } := by
  obtain ⟨hcontrols, hthreats, -, -, -⟩ := back_eq_some h
  cases kind with
  | component =>
    rw [Registry.entity?, Registry.entity?, component_back h]
    cases g.registry.components.get? name with
    | none => rfl
    | some c =>
      simp only [Option.bind_some, Option.map_some]
      cases Codec.custom.back 125 c.custom <;> rfl
  | control =>
    rw [Registry.entity?, Registry.entity?, (NameMap.traverse_eq_some hcontrols).2]
    exact congrArg _ (funext (back_entity "Control" 125))
  | threat =>
    rw [Registry.entity?, Registry.entity?, (NameMap.traverse_eq_some hthreats).2]
    exact congrArg _ (funext (back_entity "Threat" 125))

/-- The names that come back are the names that were written. -/
theorem contains_back (h : g.back = some loaded) (kind : EntityKind) (name : String) :
    loaded.registry.contains kind name = g.registry.contains kind name := by
  obtain ⟨hcontrols, hthreats, hcomponents, -, -⟩ := back_eq_some h
  cases kind with
  | component =>
    rw [Registry.contains, Registry.contains, Registry.entity?, Registry.entity?, Option.isSome_map,
      Option.isSome_map, NameMap.isSome_get?, NameMap.isSome_get?, (NameMap.traverse_eq_some hcomponents).1]
  | control =>
    rw [Registry.contains, Registry.contains, Registry.entity?, Registry.entity?, NameMap.isSome_get?,
      NameMap.isSome_get?, (NameMap.traverse_eq_some hcontrols).1]
  | threat =>
    rw [Registry.contains, Registry.contains, Registry.entity?, Registry.entity?, NameMap.isSome_get?,
      NameMap.isSome_get?, (NameMap.traverse_eq_some hthreats).1]

/-- **A model that comes back** from its documents still hangs together. -/
theorem Consistent.back {imported : List String} (hg : g.Consistent imported) (h : g.back = some loaded) :
    loaded.Consistent imported where
  bound := by
    intro relation hrelation
    obtain ⟨-, -, -, hrelations, -⟩ := back_eq_some h
    obtain ⟨old, hold, hbound⟩ := Relations.bound_back hrelations hrelation
    refine hbound _ ((hg.bound old hold).mono fun kind name hname => ?_)
    rw [contains_back h, hname]
  named := by
    intro kind name entity hentity
    rw [entity?_back h, Option.bind_eq_some_iff] at hentity
    obtain ⟨old, hold, hentity⟩ := hentity
    obtain ⟨custom, -, rfl⟩ := Option.map_eq_some_iff.mp hentity
    exact hg.named kind name old hold
  run := by
    obtain ⟨-, -, -, -, hrun⟩ := back_eq_some h
    exact hrun
  placed := by
    intro name component hcomponent hname
    rw [component_back h, Option.bind_eq_some_iff] at hcomponent
    obtain ⟨old, hold, hcomponent⟩ := hcomponent
    obtain ⟨custom, -, rfl⟩ := Option.map_eq_some_iff.mp hcomponent
    have hplaced := hg.placed name old hold hname
    exact ⟨hplaced.top, hplaced.below⟩

end Graph

/-! ## Sessions -/

/-- What a save wrote: the content of every document. Beside it stand the names of the components that the saved
model has from libraries. -/
structure Saved where
  content : Document → ByteArray
  imported : List String

/-- The model a session works on and everything saved so far. Beside the model stand the names of the components
that it has from libraries. -/
structure Session where
  graph : Graph
  imported : List String
  saves : List Saved

namespace Session

/-- The session at its start: an empty model, and nothing saved. -/
def start (runId : String) : Session := ⟨.empty runId, [], []⟩

/-- The session with another model that has the same components from libraries. -/
def withGraph (s : Session) (graph : Graph) : Session := { s with graph }

/-- The session after loading: the model that was loaded takes the place of the one before, which stays if loading
fails. -/
def reload (s : Session) (saved : Saved) : Except StoreError Graph → Session
  | .ok graph => { s with graph, imported := saved.imported }
  | .error _ => s

/-- One step of a session. -/
inductive Step (s : Session) : Session → Prop where
  /-- A block is searched and its directives are applied. -/
  | parse (block : Block) : Step s (s.withGraph (s.graph.parse block).1)
  /-- The directives of a block that was searched before are applied. -/
  | merge (block : Block) : Step s (s.withGraph (s.graph.merge block.scan).1)
  | startRun (runId : String) : Step s (s.withGraph (s.graph.startRun runId))
  /-- The library may hold any records under their own names. -/
  | importLibrary {library : Registry} (hlibrary : library.Named) :
    Step s { s with
      graph := s.graph.importLibrary library
      imported := s.imported ++
        library.components.names.filter fun name => !s.graph.registry.contains .component name }
  /-- The model is saved in some store. -/
  | save {store : Store} {tree after : FileTree} {content : Document → ByteArray}
      (hsave : outcome (store.save s.graph) tree = (.ok (), after))
      (hcontent : ∀ document, after.readBytes (store.path document) = .ok (content document)) :
    Step s { s with saves := ⟨content, s.imported⟩ :: s.saves }
  /-- A store is loaded that holds the documents of a save. -/
  | load {store : Store} {tree : FileTree} {saved : Saved} (hsaved : saved ∈ s.saves)
      (hcontent : ∀ document, tree.readBytes (store.path document) = .ok (saved.content document)) :
    Step s (s.reload saved (store.load tree))

/-- The states that sessions reach. -/
inductive Reachable : Session → Prop where
  | start (runId : String) : Reachable (start runId)
  | step {s t : Session} : Reachable s → Step s t → Reachable t

/-- What every step keeps: the model hangs together, and so did every model that was saved. -/
structure Invariant (s : Session) : Prop where
  graph : s.graph.Consistent s.imported
  saves : ∀ saved ∈ s.saves, ∃ g : Graph, g.Consistent saved.imported ∧
    ∀ document, saved.content document = (document.render g).toUTF8

variable {s t : Session}

/-- What is loaded from the documents of a save is what comes back of the saved model. -/
theorem Invariant.reload (h : s.Invariant) {store : Store} {tree : FileTree} {saved : Saved} (hsaved : saved ∈ s.saves)
    (hcontent : ∀ document, tree.readBytes (store.path document) = .ok (saved.content document)) :
    (s.reload saved (store.load tree)).Invariant := by
  obtain ⟨g, hg, hrender⟩ := h.saves saved hsaved
  have hload : (store.load tree).toOption = g.back :=
    Store.toOption_load fun document => by rw [hcontent, hrender]
  cases hresult : store.load tree with
  | error e =>
    -- The model before stays.
    exact h
  | ok loaded =>
    rw [hresult] at hload
    exact ⟨hg.back hload.symm, h.saves⟩

theorem Invariant.withGraph (h : s.Invariant) {g : Graph} (hg : g.Consistent s.imported) :
    (s.withGraph g).Invariant := ⟨hg, h.saves⟩

/-- **One step** keeps the invariant. -/
theorem Invariant.step (h : s.Invariant) (hstep : Step s t) : t.Invariant := by
  cases hstep with
  | parse block => exact h.withGraph (h.graph.parse block)
  | merge block => exact h.withGraph (h.graph.merge block.scan)
  | startRun runId => exact h.withGraph (h.graph.startRun runId)
  | importLibrary hlibrary => exact ⟨h.graph.importLibrary hlibrary, h.saves⟩
  | save hsave hcontent =>
    refine ⟨h.graph, fun saved hsaved => ?_⟩
    rcases List.mem_cons.mp hsaved with rfl | hsaved
    · -- What the save wrote are the texts of the model as it is now.
      refine ⟨s.graph, h.graph, fun document => ?_⟩
      have hbytes := Store.readBytes_of_save hsave document
      rw [hcontent document] at hbytes
      exact Except.ok.inj hbytes
    · exact h.saves saved hsaved
  | load hsaved hcontent => exact h.reload hsaved hcontent

/-- **Every run** keeps the invariant. -/
theorem invariant_of_reachable (h : s.Reachable) : s.Invariant := by
  induction h with
  | start runId => exact ⟨Graph.consistent_empty runId, List.forall_mem_nil _⟩
  | step _ hstep ih => exact ih.step hstep

/-- **In every state that a session reaches the model hangs together**: every name of a relation is registered in
its kind, every record is found under its own name, the registry is of the run of the model, and every component
that is not from a library stands where its name puts it. -/
theorem consistent_of_reachable (h : s.Reachable) : s.graph.Consistent s.imported := (invariant_of_reachable h).graph

/-- A block with a directive about a component below another one. -/
def reviewed : Block := ⟨"@review Web:Api Check the limits", none⟩

/-- A library with a component that does not stand where its name would put it. -/
def shared : Registry :=
  { Registry.empty "run 0" with
    components := NameMap.empty.insert "Web:Db"
      { id := "Web:Db", runId := "run 0", name := "Web:Db", description := "", custom := {}, paths := [] } }

theorem shared_named : shared.Named := by
  intro kind name entity h
  cases kind with
  | component =>
    obtain ⟨c, hc, rfl⟩ := Option.map_eq_some_iff.mp h
    obtain ⟨rfl, rfl⟩ := Prod.mk.inj (List.mem_singleton.mp (NameMap.get?_eq_some_iff.mp hc))
    exact ⟨rfl, rfl⟩
  | control => cases h
  | threat => cases h

/-- The model that the block and the library make. -/
def combined : Graph where
  runId := "run 1"
  registry :=
    { Registry.empty "run 1" with
      components := shared.components.insert "Web:Api"
        { id := "Web:Api", runId := "run 1", name := "Web:Api", description := "", custom := {},
          paths := [["Web"]] } }
  relations :=
    { reviews := [{ component := "Web:Api", details := "Check the limits",
                    source := { directive := "@review Web:Api Check the limits", code := "", filename := "",
                                line := 0 } }] }

theorem combined_plain : combined.Plain where
  components := by
    intro entry hentry
    rcases List.mem_cons.mp hentry with rfl | hentry
    · exact trivial
    · obtain rfl := List.mem_singleton.mp hentry
      exact trivial
  controls := List.forall_mem_nil _
  threats := List.forall_mem_nil _
  annexes := by
    intro a ha
    obtain rfl := List.mem_singleton.mp ha
    exact ⟨trivial, by decide⟩

/-- A block is parsed, a library imported and the model saved; in another run the model is loaded again. -/
theorem consistent_of_reachable_combined :
    ∃ s : Session, s.Reachable ∧ s.graph = combined ∧ s.imported = ["Web:Db"] ∧
      s.graph.Consistent s.imported := by
  have hname : IsName "threatmodel" := ⟨by decide, by decide, by decide, by decide⟩
  have hwithin : (⟨[(["threatmodel"], .directory)]⟩ : FileTree).Within "threatmodel" ["threatmodel"] :=
    ⟨by decide, by decide, .down hname rfl (.here _)⟩
  obtain ⟨after, hsave⟩ := Store.exists_save (s := ⟨"threatmodel"⟩) combined hwithin fun d => by
    cases d <;> decide
  have hbytes := Store.readBytes_of_save hsave
  have hload := Store.toOption_load hbytes
  rw [Graph.back_plain combined_plain] at hload
  -- The model is built and saved; the run that is started after that is undone by the load.
  let saved : Saved := ⟨fun document => (document.render combined).toUTF8, ["Web:Db"]⟩
  have hparsed := (Reachable.start "run 1").step (.parse reviewed)
  have hbuilt : Reachable ⟨combined, ["Web:Db"], []⟩ := hparsed.step (.importLibrary shared_named)
  have hsaved : Reachable ⟨combined, ["Web:Db"], [saved]⟩ := hbuilt.step (.save hsave hbytes)
  have hloaded := (hsaved.step (.startRun "run 2")).step (.load List.mem_cons_self hbytes)
  cases hresult : (⟨"threatmodel"⟩ : Store).load after with
  | error e =>
    rw [hresult] at hload
    cases hload
  | ok loaded =>
    rw [hresult] at hload hloaded
    obtain rfl := Option.some.inj hload
    exact ⟨_, hloaded, rfl, rfl, consistent_of_reachable hloaded⟩

end Session
end ThreatModel
