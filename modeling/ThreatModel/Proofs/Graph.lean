import Mathlib
import ThreatModel.Graph
import ThreatModel.Proofs.Registry

/-!
# `Proofs.Graph` — what every model satisfies

A model hangs together: the names that its relations use are registered, its records are found under their own
names, its components stand where their names put them, and its registry stamps new records with its own run.
Every operation on models keeps this.

## Contents

* `Relation.Bound` — a relation whose names are registered, and `bound_of_references`.
* `Relations.records` — the records of all sorts, and `mem_records_push`.
* `Graph.Consistent` — what every model satisfies.
* `Consistent.parse`, `Consistent.merge`, `Consistent.startRun`, `Consistent.importLibrary` — the operations.
-/

namespace ThreatModel

/-! ## Relations whose names are registered -/

/-- The names that a relation uses are registered, each in its kind. -/
def Relation.Bound (r : Registry) : Relation → Prop
  | .mitigation m =>
    r.contains .component m.component ∧ r.contains .threat m.threat ∧ r.contains .control m.control
  | .acceptance a => r.contains .component a.component ∧ r.contains .threat a.threat
  | .exposure e => r.contains .component e.component ∧ r.contains .threat e.threat
  | .transfer t =>
    r.contains .threat t.threat ∧ r.contains .component t.sourceComponent ∧
      r.contains .component t.destinationComponent
  | .connection c =>
    r.contains .component c.sourceComponent ∧ r.contains .component c.destinationComponent
  | .review v => r.contains .component v.component
  | .test t => r.contains .component t.component ∧ r.contains .control t.control

namespace Relation

variable {r : Registry} {relation : Relation}

/-- The references of a relation cover all names it uses. -/
theorem bound_of_references (h : ∀ reference ∈ relation.references, r.contains reference.1 reference.2 = true) :
    relation.Bound r := by
  cases relation with
  | mitigation m =>
    simp only [references, List.forall_mem_cons, List.not_mem_nil] at h
    exact ⟨h.2.2.1, h.2.1, h.1⟩
  | acceptance a =>
    simp only [references, List.forall_mem_cons, List.not_mem_nil] at h
    exact ⟨h.2.1, h.1⟩
  | exposure e =>
    simp only [references, List.forall_mem_cons, List.not_mem_nil] at h
    exact ⟨h.2.1, h.1⟩
  | transfer t =>
    simp only [references, List.forall_mem_cons, List.not_mem_nil] at h
    exact ⟨h.1, h.2.1, h.2.2.1⟩
  | connection c =>
    simp only [references, List.forall_mem_cons, List.not_mem_nil] at h
    exact ⟨h.1, h.2.1⟩
  | review v =>
    simp only [references, List.forall_mem_cons, List.not_mem_nil] at h
    exact h.1
  | test t =>
    simp only [references, List.forall_mem_cons, List.not_mem_nil] at h
    exact ⟨h.1, h.2.1⟩

/-- A relation stays bound when no name is lost. -/
theorem Bound.mono {more : Registry}
    (hmore : ∀ kind name, r.contains kind name = true → more.contains kind name = true) (h : relation.Bound r) :
    relation.Bound more := by
  cases relation with
  | mitigation m => exact ⟨hmore _ _ h.1, hmore _ _ h.2.1, hmore _ _ h.2.2⟩
  | acceptance a => exact ⟨hmore _ _ h.1, hmore _ _ h.2⟩
  | exposure e => exact ⟨hmore _ _ h.1, hmore _ _ h.2⟩
  | transfer t => exact ⟨hmore _ _ h.1, hmore _ _ h.2.1, hmore _ _ h.2.2⟩
  | connection c => exact ⟨hmore _ _ h.1, hmore _ _ h.2⟩
  | review v => exact hmore _ _ h
  | test t => exact ⟨hmore _ _ h.1, hmore _ _ h.2⟩

end Relation

namespace Relations

/-- The records of all sorts. -/
def records (rs : Relations) : List Relation :=
  rs.mitigations.map .mitigation ++ rs.exposures.map .exposure ++ rs.transfers.map .transfer
    ++ rs.acceptances.map .acceptance ++ rs.connections.map .connection ++ rs.reviews.map .review
    ++ rs.tests.map .test

/-- The records after one more is added. -/
theorem mem_records_push {rs : Relations} {relation other : Relation} (h : other ∈ (rs.push relation).records) :
    other ∈ rs.records ∨ other = relation := by
  cases relation <;>
    simp only [records, push, List.map_append, List.map_cons, List.map_nil, List.mem_append, List.mem_singleton] at h ⊢
      <;> tauto

end Relations

/-! ## Models -/

/-- What every model satisfies. The components taken from libraries stand where the library had them; their names
are the ones given. -/
structure Graph.Consistent (imported : List String) (g : Graph) : Prop where
  /-- Every name a relation uses is registered in its kind. -/
  bound : ∀ relation ∈ g.relations.records, relation.Bound g.registry
  /-- Every record is found under its own name. -/
  named : g.registry.Named
  /-- New records belong to the run of the model. -/
  run : g.registry.runId = g.runId
  /-- Every other component stands where its name puts it. -/
  placed : g.registry.Placed imported

namespace Graph

variable {g : Graph} {imported : List String}

/-- An empty model hangs together. -/
theorem consistent_empty (runId : String) : (empty runId).Consistent [] where
  bound := List.forall_mem_nil _
  named := Registry.named_empty runId
  run := rfl
  placed := Registry.placed_empty runId

/-- A relation is bound by the mentions that come with it. -/
theorem Consistent.append (h : g.Consistent imported) (relation : Relation) :
    (g.append relation).Consistent imported where
  bound := by
    -- Mentions lose no name, so the relations before stay bound.
    have hmore : ∀ kind name, g.registry.contains kind name = true →
        (g.registry.mentionAll relation.references).contains kind name = true := fun kind name hold =>
      (Registry.contains_mentionAll _ _ kind name).mpr (Or.inr hold)
    intro other hother
    rcases Relations.mem_records_push hother with hold | rfl
    · exact (h.bound other hold).mono hmore
    · exact Relation.bound_of_references fun reference hreference =>
        (Registry.contains_mentionAll _ _ _ _).mpr (Or.inl hreference)
  named := Registry.mentionAll_induction (P := Registry.Named) (fun _ kind name hr => hr.declare kind name none) _ h.named
  run := (Registry.runId_mentionAll _ _).trans h.run
  placed := Registry.mentionAll_induction (P := Registry.Placed imported)
    (fun _ kind name hr => hr.declare kind name none) _ h.placed

/-- A directive keeps the model together: a declaration loses no name, and a relation is bound. -/
theorem Consistent.apply (h : g.Consistent imported) (location : Option Location)
    (occurrence : Directive.Occurrence) : (g.apply location occurrence).Consistent imported := by
  unfold Graph.apply
  cases occurrence.statement with
  | declaration kind name description =>
    refine ⟨fun relation hrelation => ?_, h.named.declare kind name description, ?_,
      h.placed.declare kind name description⟩
    · exact (h.bound relation hrelation).mono fun other key hold =>
        (Registry.contains_declare _ _ _ _ other key).mpr (Or.inr hold)
    · exact (Registry.runId_declare _ _ _ _).trans h.run
  | relation relation => exact h.append _

/-- The directives of a block are applied one after the other. -/
theorem Consistent.merge (h : g.Consistent imported) (found : ScannedBlock) :
    (g.merge found).1.Consistent imported := by
  refine List.foldlRecOn found.occurrences _ (motive := fun state : Graph × Nat => state.1.Consistent imported) h ?_
  intro state hstate occurrence _
  exact hstate.apply found.block.location occurrence

theorem Consistent.parse (h : g.Consistent imported) (block : Block) : (g.parse block).1.Consistent imported :=
  h.merge block.scan

theorem Consistent.startRun (h : g.Consistent imported) (runId : String) :
    (g.startRun runId).Consistent imported where
  bound := h.bound
  named := h.named
  run := rfl
  placed := h.placed

/-- The components that come with a library are exempt from the places that names give. -/
theorem Consistent.importLibrary (h : g.Consistent imported) {library : Registry} (hlibrary : library.Named) :
    (g.importLibrary library).Consistent
      (imported ++ library.components.names.filter fun name => !g.registry.contains .component name) where
  bound := fun relation hrelation =>
    (h.bound relation hrelation).mono fun _ _ hold => Registry.contains_absorb_of_contains hold
  named := h.named.absorb hlibrary
  run := h.run
  placed := h.placed.absorb

end Graph
end ThreatModel
