import Mathlib
import ThreatModel.Proofs.Directive.Statement
import ThreatModel.Proofs.Document.Model
import ThreatModel.Proofs.History
import ThreatModel.Proofs.Json.Edited

/-!
# `Proofs.Document.Partial` — stored records that lack a member

The records of the model agree on what has to be there. An entity has to have its identity and its name, a relation the
entities that it binds, and a connection its direction. Everything else may be left out, down to the members of a
provenance, and then has its empty default.

All these records are rows, so that what is read of them follows from their columns.

## Contents

* `Entity.required`, `Entity.optional` … — the members of entities.
* `Column.Known` — the columns that the rows of relations have.
* `Relation.required`, `Relation.optional` … — the members of relations.
* `Relation.StoredAs` — what the shapes of all sorts of relations have in common.
* `relation?_without_required`, `relation?_without_optional`, `relation?_without_source`, `relation?_loosened` — what is
  read of the edited record of a relation.
-/

namespace ThreatModel

open Json
open Directive (Family)

/-! ## Entities -/

/-- The members that the record of an entity has to have. -/
def Entity.required : List String := ["id", "name"]

/-- The members that the record of a control or a threat may lack, each with the record that has its default. -/
def Entity.optional (e : Entity) : List (String × Entity) :=
  [("run_id", { e with runId := "" }), ("description", { e with description := "" }), ("custom", { e with custom := {} })]

/-- The members that the record of a component may lack. -/
def Component.optional (c : Component) : List (String × Component) :=
  [("run_id", { c with runId := "" }), ("description", { c with description := "" }), ("paths", { c with paths := [] }),
    ("custom", { c with custom := {} })]

/-- The record of an entity has no other members. -/
theorem Entity.required_or_optional (title : String) (e : Entity) :
    ∀ member ∈ (Entity.shape title).members e, member.1 ∈ required ∨ member.1 ∈ e.optional.map Prod.fst :=
  (Entity.rows title).required_or_optional e

theorem Component.required_or_optional (c : Component) :
    ∀ member ∈ Component.shape.members c, member.1 ∈ Entity.required ∨ member.1 ∈ c.optional.map Prod.fst :=
  Component.rows.required_or_optional c

/-- The members of an entity are plain if its extension slot is. -/
theorem plain_entity (title : String) {e : Entity} (h : e.custom.Plain 100) :
    ∀ field ∈ (Entity.shape title).fields, Plain 125 (field.encode e) := by
  simp only [Entity.shape, Entity.headFields, Entity.customField, List.cons_append, List.nil_append,
    List.forall_mem_cons, List.not_mem_nil, Codec.field, Codec.text, Codec.custom, Plain, true_and]
  exact ⟨PlainMembers.mono (by decide) h, fun _ hnil => hnil.elim⟩

theorem plain_component {c : Component} (h : c.custom.Plain 100) :
    ∀ field ∈ Component.shape.fields, Plain 125 (field.encode c) := by
  simp only [Component.shape, Entity.headFields, Entity.customField, List.cons_append, List.nil_append,
    List.forall_mem_cons, List.not_mem_nil, Codec.field, Codec.text, Codec.custom, Codec.list, Plain, true_and,
    plainItems_iff, List.forall_mem_map, implies_true]
  exact ⟨PlainMembers.mono (by decide) h, fun _ hnil => hnil.elim⟩

/-! ## Provenances -/

/-- The members that a provenance may lack. -/
def Source.optional (s : Source) : List (String × Source) :=
  [("annotation", { s with directive := "" }), ("code", { s with code := "" }), ("filename", { s with filename := "" }),
    ("line", { s with line := 0 })]

theorem Source.optional_of_mem (s : Source) :
    ∀ member ∈ Source.shape.members s, member.1 ∈ s.optional.map Prod.fst := by
  intro member hmember
  rcases Source.rows.required_or_optional s member hmember with hrequired | hoptional
  · cases hrequired
  · exact hoptional

/-- What is read of a provenance without one of its members. -/
theorem decode_source_without (s : Source) : ∀ p ∈ s.optional,
    (Source.shape.decode .stored (.object (Source.shape.membersBut p.1 s))).toOption = some p.2 := by
  intro p hp
  rw [Shape.decode_without_default Source.rows.independent (Source.rows.defaults s p hp)]
  exact congrArg Except.toOption (Source.rows.returns p.2)

/-- A provenance is plain if its line fits. -/
theorem plain_source {s : Source} (h : s.line < 2 ^ 64) (levels : Nat) : Plain (levels + 1) (Source.shape.encode s) := by
  have hlimit : (2 : Nat) ^ 64 = Reader.maxWhole + 1 := by decide
  simp only [Source.shape, Shape.encode, Codec.field, Codec.text, Codec.count, List.map_cons, List.map_nil, Plain,
    PlainMembers, true_and, and_true]
  omega

/-! ## The part that all relations end with -/

/-- The members that any relation may lack. -/
def Annex.optional (a : Annex) : List (String × Annex) :=
  [("description", { a with description := "" }), ("custom", { a with custom := {} }), ("source", { a with source := default })]

/-- A column of simple values, or one of the two others that the rows of relations have. -/
def Json.Column.Known (column : Column) : Prop := column.Simple ∨ column.name = "custom" ∨ column.name = "source"

theorem known_text (name : String) (required : Bool) : (Column.text name required).Known := Or.inl fun _ => trivial

theorem known_direction : Column.direction.Known := Or.inl fun _ => trivial

theorem known_annex : ∀ column ∈ Annex.columns, column.Known := by
  simp only [Annex.columns, List.forall_mem_cons, List.not_mem_nil]
  exact ⟨known_text _ _, Or.inr (Or.inl rfl), Or.inr (Or.inr rfl), fun _ hnil => hnil.elim⟩

/-! ## Relations -/

namespace Relation

/-- The members that the record of a relation has to have. -/
def required : Relation → List String
  | .mitigation _ => ["control", "threat", "component"]
  | .acceptance _ | .exposure _ => ["threat", "component"]
  | .transfer _ => ["threat", "source_component", "destination_component"]
  | .connection _ => ["source_component", "destination_component", "direction"]
  | .review _ => ["component"]
  | .test _ => ["component", "control"]

/-- The members of its own that the record of a relation may lack. -/
def ownOptional : Relation → List (String × Relation)
  | .mitigation _ | .test _ => []
  | .acceptance r => [("details", .acceptance { r with details := "" })]
  | .exposure r => [("details", .exposure { r with details := "" })]
  | .transfer r => [("details", .transfer { r with details := "" })]
  | .connection r => [("details", .connection { r with details := "" })]
  | .review r => [("details", .review { r with details := "" })]

/-- The members that the record of a relation may lack, each with the relation that has its default. -/
def optional (r : Relation) : List (String × Relation) :=
  r.ownOptional ++ r.annex.optional.map fun p => (p.1, r.withAnnex p.2)

/-- The members that the provenance of a relation may lack. -/
def sourceOptional (r : Relation) : List (String × Relation) :=
  r.annex.source.optional.map fun p => (p.1, r.withSource p.2)

end Relation

/-- The relation of a family that a value stands for. -/
def Directive.Family.relation? : Family → Json → Option Relation
  | .mitigate, v => (Mitigation.shape.decode .stored v).toOption.map .mitigation
  | .accept, v => (Acceptance.shape.decode .stored v).toOption.map .acceptance
  | .expose, v => (Exposure.shape.decode .stored v).toOption.map .exposure
  | .transfer, v => (Transfer.shape.decode .stored v).toOption.map .transfer
  | .connect, v => (Connection.shape.decode .stored v).toOption.map .connection
  | .review, v => (Review.shape.decode .stored v).toOption.map .review
  | .test, v => (Test.shape.decode .stored v).toOption.map .test
  | .component, _ | .control, _ | .threat, _ => none

/-! ### How relations are stored -/

namespace Relation

/-- How a relation is stored: as a record that is a row, with an extension slot and a provenance in it. -/
structure StoredAs (r : Relation) {σ : Type} {shape : Shape σ} (rows : shape.Rows) (make : σ → Relation) (record : σ) :
    Prop where
  known : ∀ column ∈ rows.columns, column.Known
  make_eq : make record = r := by rfl
  encode_eq : r.encode = shape.encode record := by rfl
  relation?_eq : ∀ v, r.family.relation? v = (shape.decode .stored v).toOption.map make := by exact fun _ => rfl
  required : r.required = rows.required := by rfl
  optional : r.optional = (rows.optional record).map fun p => (p.1, make p.2) := by rfl
  custom : ∃ put, shape.field? "custom"
    = some (Codec.custom.field "custom" false (fun record => (make record).annex.custom) put) := by exact ⟨_, rfl⟩
  source : ∃ put, shape.field? "source"
      = some (Source.shape.codec.field "source" false (fun record => (make record).annex.source) put) ∧
    ∀ s record, make (put s record) = (make record).withSource s := by exact ⟨_, rfl, fun _ _ => rfl⟩

theorem storedAs_mitigation (r : Mitigation) : (mitigation r).StoredAs Mitigation.rows .mitigation r where
  known := by
    simp only [Mitigation.rows, List.forall_mem_cons]
    exact ⟨known_text _ _, known_text _ _, known_text _ _, known_annex⟩

theorem storedAs_acceptance (r : Acceptance) : (acceptance r).StoredAs Acceptance.rows .acceptance r where
  known := by
    simp only [Acceptance.rows, List.forall_mem_cons]
    exact ⟨known_text _ _, known_text _ _, known_text _ _, known_annex⟩

theorem storedAs_exposure (r : Exposure) : (exposure r).StoredAs Exposure.rows .exposure r where
  known := by
    simp only [Exposure.rows, List.forall_mem_cons]
    exact ⟨known_text _ _, known_text _ _, known_text _ _, known_annex⟩

theorem storedAs_transfer (r : Transfer) : (transfer r).StoredAs Transfer.rows .transfer r where
  known := by
    simp only [Transfer.rows, List.forall_mem_cons]
    exact ⟨known_text _ _, known_text _ _, known_text _ _, known_text _ _, known_annex⟩

theorem storedAs_connection (r : Connection) : (connection r).StoredAs Connection.rows .connection r where
  known := by
    simp only [Connection.rows, List.forall_mem_cons]
    exact ⟨known_text _ _, known_text _ _, known_direction, known_text _ _, known_annex⟩

theorem storedAs_review (r : Review) : (review r).StoredAs Review.rows .review r where
  known := by
    simp only [Review.rows, List.forall_mem_cons]
    exact ⟨known_text _ _, known_text _ _, known_annex⟩

theorem storedAs_test (r : Test) : (test r).StoredAs Test.rows .test r where
  known := by
    simp only [Test.rows, List.forall_mem_cons]
    exact ⟨known_text _ _, known_text _ _, known_annex⟩

theorem exists_storedAs (r : Relation) :
    ∃ (σ : Type) (shape : Shape σ) (rows : shape.Rows) (make : σ → Relation) (record : σ), r.StoredAs rows make record := by
  cases r with
  | mitigation r => exact ⟨_, _, _, _, _, storedAs_mitigation r⟩
  | acceptance r => exact ⟨_, _, _, _, _, storedAs_acceptance r⟩
  | exposure r => exact ⟨_, _, _, _, _, storedAs_exposure r⟩
  | transfer r => exact ⟨_, _, _, _, _, storedAs_transfer r⟩
  | connection r => exact ⟨_, _, _, _, _, storedAs_connection r⟩
  | review r => exact ⟨_, _, _, _, _, storedAs_review r⟩
  | test r => exact ⟨_, _, _, _, _, storedAs_test r⟩

/-! ### What is read of edited records -/

variable {r : Relation}

/-- The record of a relation has no other members. -/
theorem required_or_optional {members : List (String × Json)} (h : r.encode = .object members) :
    ∀ member ∈ members, member.1 ∈ r.required ∨ member.1 ∈ r.optional.map Prod.fst := by
  obtain ⟨σ, shape, rows, make, record, hstored⟩ := r.exists_storedAs
  rw [hstored.encode_eq] at h
  obtain rfl : shape.members record = members := Json.object.inj h
  rw [hstored.required, hstored.optional, List.map_map]
  exact rows.required_or_optional record

/-- A relation is read as it was written. -/
theorem relation?_encode (r : Relation) : r.family.relation? r.encode = some r := by
  obtain ⟨σ, shape, rows, make, record, h⟩ := r.exists_storedAs
  have hdecode : shape.decode .stored (shape.encode record) = .ok record := rows.returns record
  rw [h.relation?_eq, h.encode_eq, hdecode, ← h.make_eq]
  rfl

/-- **A relation without a member that it has to have is not read.** -/
theorem relation?_without_required {name : String} (hname : name ∈ r.required) :
    r.family.relation? (deleteMember name [] r.encode) = none := by
  obtain ⟨σ, shape, rows, make, record, h⟩ := r.exists_storedAs
  rw [h.required] at hname
  obtain ⟨field, hfound, hrequired⟩ := rows.exists_required name hname
  obtain ⟨hfield, rfl⟩ := Shape.field?_eq_some hfound
  have hdecode := Shape.decode_without_required rows.sound hfield hrequired record
  rw [h.relation?_eq, h.encode_eq]
  exact congrArg (Option.map make) hdecode

/-- **A relation without a member that it may lack** is read with the default of that member. -/
theorem relation?_without_optional {p : String × Relation} (hp : p ∈ r.optional) :
    r.family.relation? (deleteMember p.1 [] r.encode) = some p.2 := by
  obtain ⟨σ, shape, rows, make, record, h⟩ := r.exists_storedAs
  rw [h.optional] at hp
  obtain ⟨⟨name, record'⟩, hrecord', rfl⟩ := List.mem_map.mp hp
  have hdecode := Shape.decode_without_default rows.independent (rows.defaults record _ hrecord')
  rw [show shape.decode .stored (shape.encode record') = .ok record' from rows.returns record'] at hdecode
  rw [h.relation?_eq, h.encode_eq]
  exact congrArg (Option.map make) hdecode

/-- **A relation whose provenance lacks a member** is read with the default of that member. -/
theorem relation?_without_source {p : String × Relation} (hp : p ∈ r.sourceOptional) :
    r.family.relation? (deleteMember p.1 [.member "source"] r.encode) = some p.2 := by
  obtain ⟨⟨name, s⟩, hs, rfl⟩ := List.mem_map.mp hp
  obtain ⟨σ, shape, rows, make, record, h⟩ := r.exists_storedAs
  obtain ⟨put, hsource, hput⟩ := h.source
  obtain ⟨hfield, -⟩ := Shape.field?_eq_some hsource
  have hedited : Source.shape.decode .stored (deleteMember name [] (Source.shape.encode (make record).annex.source))
      = .ok s := by
    rw [h.make_eq]
    exact toOption_eq_some_iff.mp (decode_source_without _ _ hs)
  have hread := rows.decode_edited hfield (deleteMember name []) record (congrArg (Except.map put) hedited)
  rw [h.relation?_eq, h.encode_eq]
  refine (congrArg (Option.map make) hread).trans ?_
  rw [Option.map_some, hput, h.make_eq]

/-- **A relation whose members are rearranged** is read as it was written. -/
theorem relation?_loosened {v : Json} (hv : LooseRecord r.encode v) : r.family.relation? v = some r := by
  obtain ⟨σ, shape, rows, make, record, h⟩ := r.exists_storedAs
  obtain ⟨put, hsource, -⟩ := h.source
  have hread := relation?_encode r
  rw [h.relation?_eq, h.encode_eq] at hread
  rw [h.encode_eq] at hv
  rw [h.relation?_eq, decode_loosened rows.independent hv, hread]
  rintro field hfield w (rfl | ⟨hname, hw⟩)
  · rfl
  · have hfound := rows.sound.field?_name hfield
    rw [hname, hsource] at hfound
    obtain rfl := Option.some.inj hfound
    have hsame := decode_loosened Source.rows.independent hw fun other _ w hother => by rw [hother]
    simp only [Codec.field, Shape.codec, toOption_map]
    exact congrArg (Option.map put) hsame.symm

/-- The record of a relation is plain if its extension slot is, and its line fits. -/
theorem plain_encode {levels : Nat} (hcustom : r.annex.custom.Plain levels) (hline : r.annex.source.line < 2 ^ 64) :
    Plain (levels + 2) r.encode := by
  obtain ⟨σ, shape, rows, make, record, h⟩ := r.exists_storedAs
  rw [← h.make_eq] at hcustom hline
  rw [h.encode_eq]
  simp only [Shape.encode, Plain, plainMembers_iff, List.forall_mem_map]
  intro field hfield
  have hfound := rows.sound.field?_name hfield
  obtain ⟨column, hcolumn, hname, -, -, hencode⟩ := exists_column (rows.fields ▸ hfield)
  rcases h.known column hcolumn with hsimple | hslot | hprovenance
  · obtain ⟨v, hv⟩ := hencode record
    rw [hv]
    exact (hsimple v).plain _
  · obtain ⟨put, hput⟩ := h.custom
    rw [← hname, hslot, hput] at hfound
    obtain rfl := Option.some.inj hfound
    exact hcustom
  · obtain ⟨put, hput, -⟩ := h.source
    rw [← hname, hprovenance, hput] at hfound
    obtain rfl := Option.some.inj hfound
    exact plain_source hline levels

/-- So is a record whose members are rearranged. -/
theorem plain_of_loosened {levels : Nat} {v v' : Json} (h : LooseRecord v v') (hv : Plain (levels + 2) v) :
    Plain (levels + 2) v' := by
  refine Loosened.plain h hv ?_
  rintro name w w' (rfl | ⟨-, hw⟩) hplain
  · exact hplain
  · refine Loosened.plain hw hplain ?_
    rintro - w w' rfl hw
    exact hw

end Relation
end ThreatModel
