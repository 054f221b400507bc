import ThreatModel.Registry
import ThreatModel.Relation

/-!
# `Relations` — the relation records of a model

Relations are kept sort by sort, each sort in the order in which its records were added. A record is added as
often as it is stated.

## Contents

* `Relations` — the seven sequences.
* `Relations.push`, `Relations.size` — adding a record, and counting them.
* `Registry.mentionAll` — registering the entities that a record mentions.
-/

namespace ThreatModel

/-- The relation records of a model, sort by sort. -/
structure Relations where
  mitigations : List Mitigation := []
  exposures : List Exposure := []
  transfers : List Transfer := []
  acceptances : List Acceptance := []
  connections : List Connection := []
  reviews : List Review := []
  tests : List Test := []

namespace Relations

instance : Inhabited Relations := ⟨{}⟩

/-- Adds a record at the end of its sequence. -/
def push (rs : Relations) : Relation → Relations
  | .mitigation m => { rs with mitigations := rs.mitigations ++ [m] }
  | .acceptance a => { rs with acceptances := rs.acceptances ++ [a] }
  | .exposure e => { rs with exposures := rs.exposures ++ [e] }
  | .transfer t => { rs with transfers := rs.transfers ++ [t] }
  | .connection c => { rs with connections := rs.connections ++ [c] }
  | .review r => { rs with reviews := rs.reviews ++ [r] }
  | .test t => { rs with tests := rs.tests ++ [t] }

/-- The number of records of all sorts. -/
def size (rs : Relations) : Nat :=
  rs.mitigations.length + rs.exposures.length + rs.transfers.length + rs.acceptances.length
    + rs.connections.length + rs.reviews.length + rs.tests.length

/-- Whether no record was added. -/
def isEmpty (rs : Relations) : Bool := rs.size = 0

theorem size_push (rs : Relations) (r : Relation) : (rs.push r).size = rs.size + 1 := by
  cases r <;> simp [push, size] <;> omega

end Relations

/-- Registers the entities that a relation mentions, in their order. -/
def Registry.mentionAll (registry : Registry) (references : List (EntityKind × String)) : Registry :=
  references.foldl (fun r reference => r.mention reference.1 reference.2) registry

end ThreatModel
