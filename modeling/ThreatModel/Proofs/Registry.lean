import Mathlib
import ThreatModel.Relations
import ThreatModel.Proofs.NameMap
import ThreatModel.Proofs.Text

/-!
# `Proofs.Registry` — what a registry holds after an update

Every record is found under its own name, and a component stands in the hierarchy where its name puts it. An
update keeps both, and loses no name.

## Contents

* `Component.Placed` — a component whose place is the one its name gives, and `placed_fresh`.
* `entity?_declare`, `entity?_absorb` — what is found after an update.
* `Registry.Named`, `Registry.Placed` — the two properties, and the updates that keep them.
* `contains_mentionAll` — what is mentioned is registered.
-/

namespace ThreatModel

/-! ## Places in the hierarchy -/

/-- A component stands where its name puts it: nowhere if the name has no colon, and otherwise below the segments
of its name that come before the last one. -/
structure Component.Placed (c : Component) : Prop where
  top : ':' ∉ c.name.toList → c.paths = []
  below : ':' ∈ c.name.toList → ∃ path last, c.paths = [path] ∧
    (∀ segment ∈ path ++ [last], ':' ∉ segment.toList) ∧ ":".intercalate (path ++ [last]) = c.name

namespace Component

/-- The segments of a name hold no colon, and joined with colons they are the name. -/
theorem intercalate_segments (name : String) : ":".intercalate (segments name) = name := by
  rw [← String.toList_inj, String.toList_intercalate, segments, List.map_map]
  have hparts : (Text.splitOn ':' name.toList).map (String.toList ∘ String.ofList)
      = Text.splitOn ':' name.toList := by
    conv_rhs => rw [← List.map_id (Text.splitOn ':' name.toList)]
    exact List.map_congr_left fun part _ => String.toList_ofList
  rw [hparts, Text.splitOn_eq]
  exact List.intercalate_splitOn ':'

theorem not_mem_of_mem_segments {name segment : String} (h : segment ∈ segments name) :
    ':' ∉ segment.toList := by
  obtain ⟨part, hpart, rfl⟩ := List.mem_map.mp h
  rw [String.toList_ofList]
  exact (Text.sublist_of_mem_splitOn hpart).2

theorem segments_ne_nil (name : String) : segments name ≠ [] := by
  rw [segments, Ne, List.map_eq_nil_iff]
  exact Text.splitOn_ne_nil _ _

/-- A name has segments above its last one if it holds a colon. -/
theorem parents_eq_nil_iff (name : String) : parents name = [] ↔ ':' ∉ name.toList := by
  constructor
  · intro h hcolon
    obtain ⟨front, back, hname⟩ := List.append_of_mem hcolon
    have hback : (Text.splitOn ':' back).map String.ofList ≠ [] := by
      rw [Ne, List.map_eq_nil_iff]
      exact Text.splitOn_ne_nil _ _
    rw [parents, segments, hname, Text.splitOn_append_cons, List.map_append, List.dropLast_append_of_ne_nil hback,
      List.append_eq_nil_iff, List.map_eq_nil_iff] at h
    exact Text.splitOn_ne_nil _ _ h.1
  · intro h
    rw [parents, segments, Text.splitOn_of_not_mem h]
    rfl

/-- A first mention puts a component where its name says. -/
theorem placed_fresh (runId name : String) (description : Option String) :
    (fresh runId name description).Placed where
  top := by
    intro h
    exact if_pos ((parents_eq_nil_iff name).mpr h)
  below := by
    intro h
    have hparents : parents name ≠ [] := fun hnil => (parents_eq_nil_iff name).mp hnil h
    have hsegments : parents name ++ [(segments name).getLast (segments_ne_nil name)] = segments name :=
      List.dropLast_append_getLast _
    refine ⟨parents name, (segments name).getLast (segments_ne_nil name), if_neg hparents, ?_, ?_⟩
    · rw [hsegments]
      exact fun segment hsegment => not_mem_of_mem_segments hsegment
    · rw [hsegments]
      exact intercalate_segments name

end Component

/-! ## What is found after an update -/

namespace Registry

variable {r library : Registry}

/-- A declaration adds a record under its name if there is none, and changes nothing else. -/
theorem entity?_declare (r : Registry) (kind : EntityKind) (name : String) (description : Option String)
    (other : EntityKind) (key : String) :
    (r.declare kind name description).entity? other key
      = if other = kind ∧ key = name then
          some ((r.entity? kind name).getD (Entity.fresh r.runId name description))
        else r.entity? other key := by
  cases kind with
  | component =>
    cases other with
    | component =>
      simp only [declare, entity?, NameMap.get?_insertNew, true_and]
      by_cases hkey : key = name
      · rw [if_pos hkey, if_pos hkey, Option.map_some]
        cases r.components.get? name <;> rfl
      · rw [if_neg hkey, if_neg hkey]
    | control => simp [declare, entity?]
    | threat => simp [declare, entity?]
  | control => cases other <;> simp [declare, entity?, NameMap.get?_insertNew]
  | threat => cases other <;> simp [declare, entity?, NameMap.get?_insertNew]

/-- A library adds its records under the names that are not registered. -/
theorem entity?_absorb (r library : Registry) (kind : EntityKind) (name : String) :
    (r.absorb library).entity? kind name = (r.entity? kind name).or (library.entity? kind name) := by
  cases kind with
  | component =>
    simp only [absorb, entity?, NameMap.get?_mergeMissing]
    cases r.components.get? name <;> rfl
  | control => exact NameMap.get?_mergeMissing _ _ _
  | threat => exact NameMap.get?_mergeMissing _ _ _

/-- A declared name is registered, and all names before it still are. -/
theorem contains_declare (r : Registry) (kind : EntityKind) (name : String) (description : Option String)
    (other : EntityKind) (key : String) :
    (r.declare kind name description).contains other key = true
      ↔ (other = kind ∧ key = name) ∨ r.contains other key = true := by
  rw [contains, entity?_declare, contains]
  by_cases h : other = kind ∧ key = name
  · simp [h]
  · simp [h]

theorem contains_absorb_of_contains {kind : EntityKind} {name : String} (h : r.contains kind name = true) :
    (r.absorb library).contains kind name = true := by
  rw [contains, entity?_absorb, Option.isSome_or]
  rw [contains] at h
  rw [h, Bool.true_or]

/-! ## What every registry satisfies -/

/-- Every record is found under its own name. -/
def Named (r : Registry) : Prop :=
  ∀ kind name entity, r.entity? kind name = some entity → entity.id = name ∧ entity.name = name

/-- Every component stands where its name puts it, except for those under the given names. -/
def Placed (except : List String) (r : Registry) : Prop :=
  ∀ name component, r.components.get? name = some component → name ∉ except → component.Placed

theorem named_empty (runId : String) : (empty runId).Named := by
  intro kind name entity h
  cases kind <;> cases h

theorem placed_empty (runId : String) : (empty runId).Placed [] := by
  intro name component h
  cases h

theorem Named.declare (h : r.Named) (kind : EntityKind) (name : String) (description : Option String) :
    (r.declare kind name description).Named := by
  intro other key entity hentity
  rw [entity?_declare] at hentity
  by_cases heq : other = kind ∧ key = name
  · -- Under the declared name stands the record from before, or a fresh one.
    obtain ⟨rfl, rfl⟩ := heq
    simp only [and_self, if_true, Option.some.injEq] at hentity
    cases hold : r.entity? other key with
    | none =>
      rw [hold] at hentity
      subst hentity
      exact ⟨rfl, rfl⟩
    | some old =>
      rw [hold] at hentity
      subst hentity
      exact h other key old hold
  · rw [if_neg heq] at hentity
    exact h other key entity hentity

theorem Placed.declare {except : List String} (h : r.Placed except) (kind : EntityKind) (name : String)
    (description : Option String) : (r.declare kind name description).Placed except := by
  intro key component hcomponent hkey
  cases kind with
  | component =>
    simp only [Registry.declare, NameMap.get?_insertNew] at hcomponent
    by_cases heq : key = name
    · subst heq
      rw [if_pos rfl, Option.some.injEq] at hcomponent
      cases hold : r.components.get? key with
      | none =>
        rw [hold] at hcomponent
        subst hcomponent
        exact Component.placed_fresh r.runId key description
      | some old =>
        rw [hold] at hcomponent
        subst hcomponent
        exact h key old hold hkey
    · rw [if_neg heq] at hcomponent
      exact h key component hcomponent hkey
  | control => exact h key component hcomponent hkey
  | threat => exact h key component hcomponent hkey

theorem Named.absorb (h : r.Named) (hlibrary : library.Named) : (r.absorb library).Named := by
  intro kind name entity hentity
  rw [entity?_absorb, Option.or_eq_some_iff] at hentity
  rcases hentity with hentity | ⟨-, hentity⟩
  · exact h kind name entity hentity
  · exact hlibrary kind name entity hentity

/-- The components that a library adds are the ones under names that were not registered. -/
theorem Placed.absorb {except : List String} (h : r.Placed except) :
    (r.absorb library).Placed
      (except ++ library.components.names.filter fun name => !r.contains .component name) := by
  intro name component hcomponent hname
  rw [List.mem_append, not_or] at hname
  simp only [Registry.absorb, NameMap.get?_mergeMissing, Option.or_eq_some_iff] at hcomponent
  rcases hcomponent with hcomponent | ⟨hnone, hcomponent⟩
  · exact h name component hcomponent hname.1
  · -- A component of the library is there only if its name was not registered, and such names are excepted.
    refine absurd (List.mem_filter.mpr ⟨?_, ?_⟩) hname.2
    · exact List.mem_map_of_mem (NameMap.get?_eq_some_iff.mp hcomponent)
    · rw [contains, entity?, hnone]
      rfl

/-! ## Mentions -/

theorem mentionAll_cons (r : Registry) (reference : EntityKind × String) (more : List (EntityKind × String)) :
    r.mentionAll (reference :: more) = (r.mention reference.1 reference.2).mentionAll more := rfl

/-- What every mention keeps, a list of mentions keeps. -/
theorem mentionAll_induction {P : Registry → Prop} (hmention : ∀ r kind name, P r → P (r.mention kind name))
    (references : List (EntityKind × String)) (h : P r) : P (r.mentionAll references) := by
  induction references generalizing r with
  | nil => exact h
  | cons reference more ih =>
    rw [mentionAll_cons]
    exact ih (hmention r reference.1 reference.2 h)

/-- **What is mentioned is registered**, and all names before it still are. -/
theorem contains_mentionAll (r : Registry) (references : List (EntityKind × String)) (kind : EntityKind)
    (name : String) :
    (r.mentionAll references).contains kind name = true
      ↔ (kind, name) ∈ references ∨ r.contains kind name = true := by
  induction references generalizing r with
  | nil => simp [mentionAll]
  | cons reference more ih =>
    have hfirst := contains_declare r reference.1 reference.2 none kind name
    rw [mentionAll_cons, ih, mention, hfirst, List.mem_cons, Prod.ext_iff, or_left_comm, or_assoc]

theorem runId_declare (r : Registry) (kind : EntityKind) (name : String) (description : Option String) :
    (r.declare kind name description).runId = r.runId := by
  cases kind <;> rfl

theorem runId_mentionAll (r : Registry) (references : List (EntityKind × String)) :
    (r.mentionAll references).runId = r.runId :=
  mentionAll_induction (P := fun registry => registry.runId = r.runId)
    (fun registry kind name h => (runId_declare registry kind name none).trans h) references rfl

end Registry
end ThreatModel
