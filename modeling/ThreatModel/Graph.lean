import ThreatModel.Block
import ThreatModel.Relations

/-!
# `Graph` — a threat model

A graph is what a run produces: the registered entities, the relations between them, and the identifier of the
run. Blocks are merged into it one after the other, and within a block the declarations come before the
relations.

## Contents

* `Graph` — the type, with `empty` and `ofParts`.
* `Graph.apply`, `Graph.merge`, `Graph.parse` — merging directives.
* `Graph.startRun`, `Graph.importLibrary`.
-/

namespace ThreatModel

/-- A threat model: its run, its entities and its relations. -/
structure Graph where
  runId : String
  registry : Registry
  relations : Relations

namespace Graph

/-- The graph of a run that has found nothing yet. -/
def empty (runId : String) : Graph := ⟨runId, .empty runId, {}⟩

instance : Inhabited Graph := ⟨empty ""⟩

/-- The graph of the given parts. From now on new entities belong to its run. -/
def ofParts (runId : String) (registry : Registry) (relations : Relations) : Graph :=
  ⟨runId, { registry with runId }, relations⟩

/-- The same model at the start of another run. -/
def startRun (g : Graph) (runId : String) : Graph := ofParts runId g.registry g.relations

/-- The model with the entities of a library that it lacks. -/
def importLibrary (g : Graph) (library : Registry) : Graph :=
  { g with registry := g.registry.absorb library }

/-- Adds a relation after registering the entities it mentions. -/
def append (g : Graph) (relation : Relation) : Graph :=
  { g with
    registry := g.registry.mentionAll relation.references
    relations := g.relations.push relation }

/-- The provenance of a directive found in a block. -/
def sourceOf (location : Option Location) (occurrence : Directive.Occurrence) : Source :=
  match location with
  | none => { directive := occurrence.text, code := "", filename := "", line := 0 }
  | some l =>
    { directive := occurrence.text, code := l.code, filename := l.filename,
      line := l.lineBelow occurrence.line }

/-- Applies one directive found in a block. -/
def apply (g : Graph) (location : Option Location) (occurrence : Directive.Occurrence) : Graph :=
  match occurrence.statement with
  | .declaration kind name description =>
    { g with registry := g.registry.declare kind name description }
  | .relation relation => g.append (relation.withSource (sourceOf location occurrence))

/-- Applies the directives of a block in their order, and counts them. -/
def merge (g : Graph) (found : ScannedBlock) : Graph × Nat :=
  found.occurrences.foldl
    (fun (g, applied) occurrence => (g.apply found.block.location occurrence, applied + 1)) (g, 0)

/-- Finds the directives of a block and applies them. -/
def parse (g : Graph) (block : Block) : Graph × Nat := g.merge block.scan

end Graph
end ThreatModel
