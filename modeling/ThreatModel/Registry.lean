import ThreatModel.Entity

/-!
# `Registry` — the entities of a model

The registry holds one record per name and kind. The first record under a name stays: later mentions,
descriptions and libraries never replace it.

## Contents

* `Registry` — the three maps, and the run that new records are stamped with.
* `declare`, `mention`, `absorb` — the operations that add records.
* `contains`, `size` — what is registered.
-/

namespace ThreatModel

/-- The entities of a model by kind and name. -/
structure Registry where
  components : NameMap Component
  controls : NameMap Entity
  threats : NameMap Entity
  /-- The run that first mentions are attributed to. -/
  runId : String

namespace Registry

/-- The registry without entities. -/
def empty (runId : String) : Registry := ⟨{}, {}, {}, runId⟩

instance : Inhabited Registry := ⟨empty ""⟩

/-- Registers a name, with a description if it is new. -/
def declare (r : Registry) (kind : EntityKind) (name : String) (description : Option String) : Registry :=
  match kind with
  | .component =>
    { r with components := r.components.insertNew name (Component.fresh r.runId name description) }
  | .control => { r with controls := r.controls.insertNew name (Entity.fresh r.runId name description) }
  | .threat => { r with threats := r.threats.insertNew name (Entity.fresh r.runId name description) }

/-- Registers a name without a description. -/
def mention (r : Registry) (kind : EntityKind) (name : String) : Registry := r.declare kind name none

/-- Adds the entities of a library whose names are not registered yet. -/
def absorb (r library : Registry) : Registry :=
  { r with
    components := r.components.mergeMissing library.components
    controls := r.controls.mergeMissing library.controls
    threats := r.threats.mergeMissing library.threats }

/-- The record under a name, without the places of a component. -/
def entity? (r : Registry) (kind : EntityKind) (name : String) : Option Entity :=
  match kind with
  | .component => (r.components.get? name).map (·.toEntity)
  | .control => r.controls.get? name
  | .threat => r.threats.get? name

/-- Whether a name is registered. -/
def contains (r : Registry) (kind : EntityKind) (name : String) : Bool := (r.entity? kind name).isSome

/-- The number of entities of all kinds. -/
def size (r : Registry) : Nat := r.components.size + r.controls.size + r.threats.size

/-- Whether nothing is registered. -/
def isEmpty (r : Registry) : Bool := r.size = 0

end Registry
end ThreatModel
