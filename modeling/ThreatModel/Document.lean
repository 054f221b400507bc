import ThreatModel.Graph
import ThreatModel.Json.Shape

/-!
# `Document` — the documents of a stored model

A model is stored as four JSON documents: a map of records for each kind of entity, and one document with the
seven relation sequences and the identifier of the run.

## Contents

* `Entity.shape`, `Component.shape` — the records of entities.
* `Source.shape`, `Mitigation.shape` … `Test.shape` — the records of relations.
* `Relations.shape` — the relation sequences.
* `Document` — the four documents, with their texts.
-/

namespace ThreatModel

open Json (Codec Shape)

/-! ## Entities -/

/-- The fields of an entity up to its description. -/
def Entity.headFields {σ : Type} (get : σ → Entity) (put : (Entity → Entity) → σ → σ) : List (Json.Field σ) :=
  [Codec.text.field "id" true (fun r => (get r).id) fun v => put fun e => { e with id := v },
    Codec.text.field "run_id" false (fun r => (get r).runId) fun v => put fun e => { e with runId := v },
    Codec.text.field "name" true (fun r => (get r).name) fun v => put fun e => { e with name := v },
    Codec.text.field "description" false (fun r => (get r).description) fun v =>
      put fun e => { e with description := v }]

/-- The extension slot of an entity. -/
def Entity.customField {σ : Type} (get : σ → Entity) (put : (Entity → Entity) → σ → σ) : Json.Field σ :=
  Codec.custom.field "custom" false (fun r => (get r).custom) fun v => put fun e => { e with custom := v }

/-- The record of a control or a threat. -/
def Entity.shape (title : String) : Shape Entity where
  title := title
  blank := default
  fields :=
    let whole (e : Entity) : Entity := e
    let put (change : Entity → Entity) : Entity → Entity := change
    headFields whole put ++ [customField whole put]

/-- The record of a component. -/
def Component.shape : Shape Component where
  title := "Component"
  blank := default
  fields :=
    let put (change : Entity → Entity) (c : Component) : Component :=
      { c with toEntity := change c.toEntity }
    Entity.headFields Component.toEntity put
      ++ [(Codec.list (Codec.list Codec.text)).field "paths" false Component.paths fun v c =>
            { c with paths := v },
          Entity.customField Component.toEntity put]

/-! ## Relations -/

/-- The record of a provenance. -/
def Source.shape : Shape Source where
  title := "Source"
  blank := default
  fields :=
    [Codec.text.field "annotation" false Source.directive fun v s => { s with directive := v },
      Codec.text.field "code" false Source.code fun v s => { s with code := v },
      Codec.text.field "filename" false Source.filename fun v s => { s with filename := v },
      Codec.count.field "line" false Source.line fun v s => { s with line := v }]

/-- The fields that every relation record ends with. -/
def Annex.fields {σ : Type} (get : σ → Annex) (put : (Annex → Annex) → σ → σ) : List (Json.Field σ) :=
  [Codec.text.field "description" false (fun r => (get r).description) fun v =>
      put fun a => { a with description := v },
    Codec.custom.field "custom" false (fun r => (get r).custom) fun v => put fun a => { a with custom := v },
    Source.shape.codec.field "source" false (fun r => (get r).source) fun v =>
      put fun a => { a with source := v }]

/-- The record of a mitigation. -/
def Mitigation.shape : Shape Mitigation where
  title := "Mitigation"
  blank := { control := "", threat := "", component := "" }
  fields :=
    [Codec.text.field "control" true Mitigation.control fun v r => { r with control := v },
      Codec.text.field "threat" true Mitigation.threat fun v r => { r with threat := v },
      Codec.text.field "component" true Mitigation.component fun v r => { r with component := v }]
      ++ Annex.fields Mitigation.toAnnex fun change r => { r with toAnnex := change r.toAnnex }

/-- The record of an acceptance. -/
def Acceptance.shape : Shape Acceptance where
  title := "Acceptance"
  blank := { threat := "", component := "", details := "" }
  fields :=
    [Codec.text.field "threat" true Acceptance.threat fun v r => { r with threat := v },
      Codec.text.field "component" true Acceptance.component fun v r => { r with component := v },
      Codec.text.field "details" false Acceptance.details fun v r => { r with details := v }]
      ++ Annex.fields Acceptance.toAnnex fun change r => { r with toAnnex := change r.toAnnex }

/-- The record of an exposure. -/
def Exposure.shape : Shape Exposure where
  title := "Exposure"
  blank := { threat := "", component := "", details := "" }
  fields :=
    [Codec.text.field "threat" true Exposure.threat fun v r => { r with threat := v },
      Codec.text.field "component" true Exposure.component fun v r => { r with component := v },
      Codec.text.field "details" false Exposure.details fun v r => { r with details := v }]
      ++ Annex.fields Exposure.toAnnex fun change r => { r with toAnnex := change r.toAnnex }

/-- The record of a transfer. -/
def Transfer.shape : Shape Transfer where
  title := "Transfer"
  blank := { threat := "", sourceComponent := "", destinationComponent := "", details := "" }
  fields :=
    [Codec.text.field "threat" true Transfer.threat fun v r => { r with threat := v },
      Codec.text.field "source_component" true Transfer.sourceComponent fun v r =>
        { r with sourceComponent := v },
      Codec.text.field "destination_component" true Transfer.destinationComponent fun v r =>
        { r with destinationComponent := v },
      Codec.text.field "details" false Transfer.details fun v r => { r with details := v }]
      ++ Annex.fields Transfer.toAnnex fun change r => { r with toAnnex := change r.toAnnex }

/-- A direction as its word. -/
def Direction.codec : Codec Direction := Codec.choice [.both, .toward] Direction.word

/-- The record of a connection. -/
def Connection.shape : Shape Connection where
  title := "Connection"
  blank := { sourceComponent := "", destinationComponent := "", direction := .both, details := "" }
  fields :=
    [Codec.text.field "source_component" true Connection.sourceComponent fun v r =>
        { r with sourceComponent := v },
      Codec.text.field "destination_component" true Connection.destinationComponent fun v r =>
        { r with destinationComponent := v },
      Direction.codec.field "direction" true Connection.direction fun v r => { r with direction := v },
      Codec.text.field "details" false Connection.details fun v r => { r with details := v }]
      ++ Annex.fields Connection.toAnnex fun change r => { r with toAnnex := change r.toAnnex }

/-- The record of a review. -/
def Review.shape : Shape Review where
  title := "Review"
  blank := { component := "", details := "" }
  fields :=
    [Codec.text.field "component" true Review.component fun v r => { r with component := v },
      Codec.text.field "details" false Review.details fun v r => { r with details := v }]
      ++ Annex.fields Review.toAnnex fun change r => { r with toAnnex := change r.toAnnex }

/-- The record of a test. -/
def Test.shape : Shape Test where
  title := "Test"
  blank := { component := "", control := "" }
  fields :=
    [Codec.text.field "component" true Test.component fun v r => { r with component := v },
      Codec.text.field "control" true Test.control fun v r => { r with control := v }]
      ++ Annex.fields Test.toAnnex fun change r => { r with toAnnex := change r.toAnnex }

/-- A relation as its record. -/
def Relation.encode : Relation → Json
  | .mitigation r => Mitigation.shape.encode r
  | .acceptance r => Acceptance.shape.encode r
  | .exposure r => Exposure.shape.encode r
  | .transfer r => Transfer.shape.encode r
  | .connection r => Connection.shape.encode r
  | .review r => Review.shape.encode r
  | .test r => Test.shape.encode r

/-- The relation sequences as members of one record, each of which has to be there. -/
def Relations.shape : Shape Relations where
  title := "Relations"
  blank := {}
  fields :=
    [(Codec.list Mitigation.shape.codec).field "mitigations" true Relations.mitigations fun v rs =>
        { rs with mitigations := v },
      (Codec.list Exposure.shape.codec).field "exposures" true Relations.exposures fun v rs =>
        { rs with exposures := v },
      (Codec.list Transfer.shape.codec).field "transfers" true Relations.transfers fun v rs =>
        { rs with transfers := v },
      (Codec.list Acceptance.shape.codec).field "acceptances" true Relations.acceptances fun v rs =>
        { rs with acceptances := v },
      (Codec.list Connection.shape.codec).field "connections" true Relations.connections fun v rs =>
        { rs with connections := v },
      (Codec.list Review.shape.codec).field "reviews" true Relations.reviews fun v rs =>
        { rs with reviews := v },
      (Codec.list Test.shape.codec).field "tests" true Relations.tests fun v rs => { rs with tests := v }]

/-! ## Documents -/

/-- The documents of a stored model, in the order in which they are read and written. -/
inductive Document where
  | controls
  | threats
  | components
  | model
deriving DecidableEq, Repr

namespace Document

/-- The name of the file of a document. -/
def fileName : Document → String
  | .controls => "controls.json"
  | .threats => "threats.json"
  | .components => "components.json"
  | .model => "threatModel.json"

/-- The documents that hold entities. -/
def library : List Document := [.controls, .threats, .components]

/-- All documents. -/
def all : List Document := library ++ [.model]

/-- A map of records as an object. -/
def encodeMap {σ : Type} (shape : Shape σ) (records : NameMap σ) : Json :=
  .object (records.entries.map fun (name, record) => (name, shape.encode record))

/-- What a document of a model holds. -/
def encode (g : Graph) : Document → Json
  | .controls => encodeMap (Entity.shape "Control") g.registry.controls
  | .threats => encodeMap (Entity.shape "Threat") g.registry.threats
  | .components => encodeMap Component.shape g.registry.components
  | .model =>
    .object (Relations.shape.fields.map (fun field => (field.name, field.encode g.relations))
      ++ [("run_id", .string g.runId)])

/-- The text of a document of a model. -/
def render (g : Graph) (document : Document) : String := (document.encode g).render

/-- A map of records read from the text of a document. -/
def readMap {σ : Type} (shape : Shape σ) (text : List Char) : Except Json.Fault (NameMap σ) :=
  Json.Reader.document (Json.Reader.mapOf (Json.Reader.record shape) Json.Reader.maxLevels) text

/-- What has been read of the members of the last document: the identifier of the run, and all other
members. -/
structure ModelMembers where
  runId : Option String
  others : List (String × Json)

/-- A member of the last document, read from the end of its name. -/
def modelMember (levels : Nat) (before : ModelMembers) (name : String) : Json.Reader ModelMembers := fun c =>
  if name = "run_id" then
    if before.runId.isSome then
      let c := c.skipSpace
      let c := if c.rest.head? = some '\x7d' then c.next else c
      .error (c.fault (.mismatch (.repeated name)))
    else do
      let (value, c) ← Json.Reader.guided .text levels (← Json.Reader.colon c)
      match value with
      | .string runId => .ok ({ before with runId := some runId }, c)
      | other => .error (c.fault (.mismatch (.wrongType (.ofJson other) .text)))
  else do
    let (others, c) ← Json.Reader.keep (Json.Reader.value levels) before.others name c
    .ok ({ before with others }, c)

/-- The run and the relations that members of the last document stand for. -/
def ofMembers (members : ModelMembers) : Except Json.Mismatch (String × Relations) :=
  match members.runId with
  | none => .error (.missing "run_id")
  | some runId => do
    let relations ← Relations.shape.decode .stored (.object members.others.reverse)
    .ok (runId, relations)

/-- The last document. All its members are read before the relations in them are. -/
def modelReader (levels : Nat) : Json.Reader (String × Relations) := fun c =>
  let c := c.skipSpace
  match c.rest, levels with
  | [], _ => .error (c.faultAhead .endInValue)
  | '\x7b' :: _, 0 => .error (c.faultAhead .tooDeep)
  | '\x7b' :: rest, levels + 1 => do
    let (members, c) ← Json.Reader.entries (modelMember levels) (rest.length + 1) true ⟨none, []⟩ c.next
    match ofMembers members with
    | .ok content => .ok (content, c.next)
    | .error m => .error (c.next.fault (.mismatch m))
  | _, _ => .error (Json.Reader.mistyped (.record "ThreatModelIn") c)

/-- The run and the relations read from the text of the last document. -/
def readModel (text : List Char) : Except Json.Fault (String × Relations) :=
  Json.Reader.document (modelReader Json.Reader.maxLevels) text

end Document
end ThreatModel
