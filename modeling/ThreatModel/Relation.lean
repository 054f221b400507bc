import ThreatModel.Entity

/-!
# `Relation` — what directives say about entities

A relation binds entities by name. There are seven sorts, each a record of its own; all of them end in the same
annex: a description, an extension slot and the provenance of the directive.

## Contents

* `Source`, `Annex` — provenance, and what every record ends with.
* `Mitigation` … `Test` — the records, and `Direction` of a connection.
* `Relation` — any of them, with `word`, `references` and `withSource`.
-/

namespace ThreatModel

/-- Where a directive was found: its text, the code that follows it, the file, and the line counted from one, or
zero where it is not known. -/
structure Source where
  directive : String
  code : String
  filename : String
  line : Nat
deriving DecidableEq, Repr

instance : Inhabited Source := ⟨⟨"", "", "", 0⟩⟩

/-- What every relation record ends with. -/
structure Annex where
  description : String := ""
  custom : Custom := {}
  source : Source := default

instance : Inhabited Annex := ⟨{}⟩

/-- `component` mitigates `threat` with `control`. -/
structure Mitigation extends Annex where
  control : String
  threat : String
  component : String

/-- `threat` is accepted as a risk of `component`. -/
structure Acceptance extends Annex where
  threat : String
  component : String
  details : String

/-- `component` is exposed to `threat`. -/
structure Exposure extends Annex where
  threat : String
  component : String
  details : String

/-- The responsibility for `threat` moves from `sourceComponent` to `destinationComponent`. -/
structure Transfer extends Annex where
  threat : String
  sourceComponent : String
  destinationComponent : String
  details : String

/-- Which way data flows over a connection: both ways, or to the destination only. -/
inductive Direction where
  | both
  | toward
deriving DecidableEq, Repr, Inhabited

/-- The word for a direction. -/
def Direction.word : Direction → String
  | .both => "with"
  | .toward => "to"

/-- The direction a word stands for. -/
def Direction.ofWord? (word : String) : Option Direction :=
  if word = "with" then some .both
  else if word = "to" then some .toward
  else none

theorem Direction.ofWord?_word (d : Direction) : Direction.ofWord? d.word = some d := by
  cases d <;> decide

/-- `sourceComponent` talks to `destinationComponent`. -/
structure Connection extends Annex where
  sourceComponent : String
  destinationComponent : String
  direction : Direction
  details : String

/-- `component` needs a review. -/
structure Review extends Annex where
  component : String
  details : String

/-- `control` is tested for `component`. -/
structure Test extends Annex where
  component : String
  control : String

/-- A relation of any sort. -/
inductive Relation where
  | mitigation (record : Mitigation)
  | acceptance (record : Acceptance)
  | exposure (record : Exposure)
  | transfer (record : Transfer)
  | connection (record : Connection)
  | review (record : Review)
  | test (record : Test)

namespace Relation

/-- The word for the sort of a relation. -/
def word : Relation → String
  | .mitigation _ => "mitigation"
  | .acceptance _ => "acceptance"
  | .exposure _ => "exposure"
  | .transfer _ => "transfer"
  | .connection _ => "connection"
  | .review _ => "review"
  | .test _ => "test"

/-- The entities a relation binds, in the order in which they are registered. -/
def references : Relation → List (EntityKind × String)
  | .mitigation m => [(.control, m.control), (.threat, m.threat), (.component, m.component)]
  | .acceptance a => [(.threat, a.threat), (.component, a.component)]
  | .exposure e => [(.threat, e.threat), (.component, e.component)]
  | .transfer t =>
    [(.threat, t.threat), (.component, t.sourceComponent), (.component, t.destinationComponent)]
  | .connection c => [(.component, c.sourceComponent), (.component, c.destinationComponent)]
  | .review r => [(.component, r.component)]
  | .test t => [(.component, t.component), (.control, t.control)]

/-- What the record ends with. -/
def annex : Relation → Annex
  | .mitigation m => m.toAnnex
  | .acceptance a => a.toAnnex
  | .exposure e => e.toAnnex
  | .transfer t => t.toAnnex
  | .connection c => c.toAnnex
  | .review r => r.toAnnex
  | .test t => t.toAnnex

/-- The relation with another provenance. -/
def withSource (source : Source) : Relation → Relation
  | .mitigation m => .mitigation { m with source }
  | .acceptance a => .acceptance { a with source }
  | .exposure e => .exposure { e with source }
  | .transfer t => .transfer { t with source }
  | .connection c => .connection { c with source }
  | .review r => .review { r with source }
  | .test t => .test { t with source }

/-- A new provenance changes no binding. -/
@[simp] theorem references_withSource (source : Source) (r : Relation) :
    (r.withSource source).references = r.references := by
  cases r <;> rfl

end Relation
end ThreatModel
