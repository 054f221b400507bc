import ThreatModel.Json
import ThreatModel.Text

/-!
# `Entity` — components, controls and threats

An entity is known by its name within its kind. Its record says which run first registered it, and carries a
description and an extension slot; a component also has its places in the component hierarchy, read off a name
such as `Cloud:Region:Bucket`.

## Contents

* `EntityKind` — the three kinds.
* `Entity`, `Component` — the records.
* `Component.parents` — the segments above a component; `Entity.fresh` and `Component.fresh`, the records a
  first mention makes.
-/

namespace ThreatModel

/-- The kinds of entity. A name is unique within its kind only. -/
inductive EntityKind where
  | component
  | control
  | threat
deriving DecidableEq, Repr, Inhabited

/-- The word for a kind. -/
def EntityKind.word : EntityKind → String
  | .component => "component"
  | .control => "control"
  | .threat => "threat"

/-- What is recorded of a control or a threat: its identity, the run that registered it, its name, a
description and an extension slot. -/
structure Entity where
  id : String
  runId : String
  name : String
  description : String
  custom : Custom

/-- A component also has places in the hierarchy, each the list of the segments above it. -/
structure Component extends Entity where
  paths : List (List String)

namespace Entity

instance : Inhabited Entity := ⟨⟨"", "", "", "", {}⟩⟩

/-- The record made by the first mention of `name` during the run `runId`. -/
def fresh (runId name : String) (description : Option String) : Entity :=
  { id := name, runId, name, description := description.getD "", custom := {} }

end Entity

namespace Component

instance : Inhabited Component := ⟨{ (default : Entity) with paths := [] }⟩

/-- The segments of a name, which colons separate. -/
def segments (name : String) : List String := (Text.splitOn ':' name.toList).map String.ofList

/-- The segments above the last one. -/
def parents (name : String) : List String := (segments name).dropLast

/-- The record made by the first mention of `name`; a name with segments above its last one is placed there. -/
def fresh (runId name : String) (description : Option String) : Component :=
  { Entity.fresh runId name description with
    paths := if parents name = [] then [] else [parents name] }

end Component
end ThreatModel
