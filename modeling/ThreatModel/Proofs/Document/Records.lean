import Mathlib
import ThreatModel.Document
import ThreatModel.Proofs.Json.Rows

/-!
# `Proofs.Document.Records` — stored records come back

Every record of a model comes back from its document as it was written, up to its extension slot and the line of
its provenance, which hold numbers. These come back as they were, too, if the slot is plain and the line fits.

## Contents

* `canonical_eq_self`, `Custom.ofMembers_members` — canonical values stay.
* `Entity.rows`, `Component.rows`, `Source.rows`, `Mitigation.rows` … — the records of the model as rows.
* `back_text`, `back_list`, `back_custom` … — what becomes of the values of fields.
* `back_entity`, `back_component`, `back_mitigation` … — what becomes of the records of the model.
* `Relations.back`, `back_relations` — what becomes of the relation sequences.
-/

namespace ThreatModel

/-! ## Canonical values -/

namespace Json

mutual

/-- A canonical value is its own canonical form. -/
theorem canonical_eq_self : ∀ {v : Json}, Canonical v → canonical v = v
  | .null, _ | .bool _, _ | .number _, _ | .string _, _ => by simp only [canonical]
  | .array items, h => by
    simp only [Canonical] at h
    rw [canonical, canonicalItems_eq_self h]
  | .object members, h => by
    simp only [Canonical] at h
    rw [canonical, canonicalMembers_eq_self h]

theorem canonicalItems_eq_self : ∀ {items : List Json}, CanonicalItems items → canonicalItems items = items
  | [], _ => by simp only [canonicalItems]
  | item :: rest, h => by
    simp only [CanonicalItems] at h
    rw [canonicalItems, canonical_eq_self h.1, canonicalItems_eq_self h.2]

theorem canonicalMembers_eq_self : ∀ {members : List (String × Json)}, CanonicalMembers members →
    canonicalMembers members = members
  | [], _ => by simp only [canonicalMembers]
  | (name, value) :: rest, h => by
    simp only [CanonicalMembers] at h
    obtain ⟨hfirst, hvalue, hrest⟩ := h
    rw [canonicalMembers, canonicalMembers_eq_self hrest, alterEntries_of_lt hfirst, canonical_eq_self hvalue]
    rfl

end

end Json

theorem Custom.ofMembers_members (slot : Custom) : Custom.ofMembers slot.members = slot :=
  Custom.ext (Json.canonicalMembers_eq_self slot.canonical)

open Json

/-! ## Records as rows -/

theorem returns_custom : Codec.custom.Returns := fun slot => congrArg Except.ok slot.ofMembers_members

theorem fits_direction : Direction.codec.Fits := fun _ => trivial

theorem returns_direction : Direction.codec.Returns := by
  intro d
  cases d <;> rfl

/-- The column of extension slots. -/
def Json.Column.custom : Column := ⟨Custom, Codec.custom, "custom", false, fits_custom, returns_custom⟩

/-- The column of paths. -/
def Json.Column.paths : Column :=
  ⟨List (List String), Codec.list (Codec.list Codec.text), "paths", false, fits_list (fits_list fits_text),
    returns_list (returns_list returns_text)⟩

/-- The column of directions. -/
def Json.Column.direction : Column := ⟨Direction, Direction.codec, "direction", true, fits_direction, returns_direction⟩

/-- The records of controls and threats as rows. -/
def Entity.rows (title : String) : (Entity.shape title).Rows where
  columns := [.text "id" true, .text "run_id" false, .text "name" true, .text "description" false, .custom]
  row e := (e.id, e.runId, e.name, e.description, e.custom, ())
  ofRow
    | (id, runId, name, description, custom, ()) => { id, runId, name, description, custom }
  names := by decide

/-- The records of components as rows. -/
def Component.rows : Component.shape.Rows where
  columns := [.text "id" true, .text "run_id" false, .text "name" true, .text "description" false,
    .paths, .custom]
  row c := (c.id, c.runId, c.name, c.description, c.paths, c.custom, ())
  ofRow
    | (id, runId, name, description, paths, custom, ()) => { id, runId, name, description, paths, custom }
  names := by decide

/-- Provenances as rows. -/
def Source.rows : Source.shape.Rows where
  columns := [.text "annotation" false, .text "code" false, .text "filename" false,
    ⟨Nat, Codec.count, "line", false, fits_count, returns_count⟩]
  row s := (s.directive, s.code, s.filename, s.line, ())
  ofRow
    | (directive, code, filename, line, ()) => { directive, code, filename, line }
  names := by decide

/-- The column of provenances. -/
def Json.Column.source : Column := ⟨Source, Source.shape.codec, "source", false, fits_shape _, Source.rows.returns⟩

/-- The columns that the rows of all relations end with. -/
def Annex.columns : List Column := [.text "description" false, .custom, .source]

def Annex.row (a : Annex) : Row Annex.columns := (a.description, a.custom, a.source, ())

def Annex.ofRow : Row Annex.columns → Annex
  | (description, custom, source, ()) => { description, custom, source }

def Mitigation.rows : Mitigation.shape.Rows where
  columns := .text "control" true :: .text "threat" true :: .text "component" true :: Annex.columns
  row r := (r.control, r.threat, r.component, r.toAnnex.row)
  ofRow
    | (control, threat, component, annex) => { control, threat, component, toAnnex := .ofRow annex }
  names := by decide

def Acceptance.rows : Acceptance.shape.Rows where
  columns := .text "threat" true :: .text "component" true :: .text "details" false :: Annex.columns
  row r := (r.threat, r.component, r.details, r.toAnnex.row)
  ofRow
    | (threat, component, details, annex) => { threat, component, details, toAnnex := .ofRow annex }
  names := by decide

def Exposure.rows : Exposure.shape.Rows where
  columns := .text "threat" true :: .text "component" true :: .text "details" false :: Annex.columns
  row r := (r.threat, r.component, r.details, r.toAnnex.row)
  ofRow
    | (threat, component, details, annex) => { threat, component, details, toAnnex := .ofRow annex }
  names := by decide

def Transfer.rows : Transfer.shape.Rows where
  columns := .text "threat" true :: .text "source_component" true :: .text "destination_component" true ::
    .text "details" false :: Annex.columns
  row r := (r.threat, r.sourceComponent, r.destinationComponent, r.details, r.toAnnex.row)
  ofRow
    | (threat, sourceComponent, destinationComponent, details, annex) =>
      { threat, sourceComponent, destinationComponent, details, toAnnex := .ofRow annex }
  names := by decide

def Connection.rows : Connection.shape.Rows where
  columns := .text "source_component" true :: .text "destination_component" true :: .direction ::
    .text "details" false :: Annex.columns
  row r := (r.sourceComponent, r.destinationComponent, r.direction, r.details, r.toAnnex.row)
  ofRow
    | (sourceComponent, destinationComponent, direction, details, annex) =>
      { sourceComponent, destinationComponent, direction, details, toAnnex := .ofRow annex }
  names := by decide

def Review.rows : Review.shape.Rows where
  columns := .text "component" true :: .text "details" false :: Annex.columns
  row r := (r.component, r.details, r.toAnnex.row)
  ofRow
    | (component, details, annex) => { component, details, toAnnex := .ofRow annex }
  names := by decide

def Test.rows : Test.shape.Rows where
  columns := .text "component" true :: .text "control" true :: Annex.columns
  row r := (r.component, r.control, r.toAnnex.row)
  ofRow
    | (component, control, annex) => { component, control, toAnnex := .ofRow annex }
  names := by decide

/-- The column of the sequence of a family. -/
def Json.Column.sequence {σ : Type} {shape : Shape σ} (rows : shape.Rows) (name : String) : Column :=
  ⟨List σ, Codec.list shape.codec, name, true, fits_list (fits_shape _), returns_list rows.returns⟩

/-- The relation sequences of a model as a row. -/
def Relations.rows : Relations.shape.Rows where
  columns := [.sequence Mitigation.rows "mitigations", .sequence Exposure.rows "exposures",
    .sequence Transfer.rows "transfers", .sequence Acceptance.rows "acceptances",
    .sequence Connection.rows "connections", .sequence Review.rows "reviews", .sequence Test.rows "tests"]
  row rs := (rs.mitigations, rs.exposures, rs.transfers, rs.acceptances, rs.connections, rs.reviews, rs.tests, ())
  ofRow
    | (mitigations, exposures, transfers, acceptances, connections, reviews, tests, ()) =>
      { mitigations, exposures, transfers, acceptances, connections, reviews, tests }
  names := by decide

/-! ## Values of fields -/

section Values

variable {α σ : Type} (levels : Nat)

@[simp] theorem back_text (s : String) : Codec.text.back levels s = some s := rfl

@[simp] theorem back_direction (d : Direction) : Direction.codec.back levels d = some d := by
  cases d <;> rfl

/-- A list comes back item by item. -/
theorem back_list (item : Codec α) (as : List α) :
    (Codec.list item).back (levels + 1) as = as.mapM (item.back levels) := by
  have hitems : ∀ as : List α, (rereadItems levels (as.map item.encode)).bind (fun vs =>
      (vs.mapM (item.decode .stored)).toOption) = as.mapM (item.back levels) := by
    intro as
    induction as with
    | nil => rfl
    | cons a more ih =>
      have hdecode : ∀ v vs, ((v :: vs).mapM (item.decode .stored)).toOption
          = (item.decode .stored v).toOption.bind fun b =>
              (vs.mapM (item.decode .stored)).toOption.map fun bs => b :: bs := by
        intro v vs
        rw [List.mapM_cons, toOption_bind]
        refine congrArg _ (funext fun b => ?_)
        rw [toOption_bind, Option.map_eq_bind]
        rfl
      rw [List.map_cons, rereadItems, List.mapM_cons, ← ih, Codec.back]
      cases reread levels (item.encode a) with
      | none => rfl
      | some v =>
        simp only [bind, Option.bind_some, pure]
        cases hvalue : (item.decode .stored v).toOption with
        | none =>
          cases rereadItems levels (more.map item.encode) with
          | none => rfl
          | some vs => simp only [Option.bind_some, hdecode, hvalue, Option.bind_none]
        | some b =>
          cases rereadItems levels (more.map item.encode) with
          | none => rfl
          | some vs => simp only [Option.bind_some, hdecode, hvalue, Option.map_eq_bind, Function.comp_def]
  unfold Codec.back Codec.list
  simp only [reread, Option.bind_map]
  exact hitems as

/-- A list of texts, or of lists of texts, comes back if it may nest deep enough. -/
theorem back_texts (texts : List String) : (Codec.list Codec.text).back (levels + 1) texts = some texts := by
  rw [back_list]
  induction texts with
  | nil => rfl
  | cons s more ih =>
    rw [List.mapM_cons, ih]
    rfl

theorem back_count {n : Nat} (h : n ≤ Reader.maxWhole) : Codec.count.back levels n = some n := by
  unfold Codec.back Codec.count
  have hread : (Number.whole n).reread = some (.whole n) := reread_whole (by omega) (by omega)
  have hnegative : ¬(n : Int) < 0 := by omega
  simp only [reread, hread, Option.map_some, Option.bind_some, hnegative, if_false, Int.toNat_natCast]
  rfl

/-- A plain extension slot comes back. -/
theorem back_custom {slot : Custom} (h : PlainMembers levels slot.members) :
    Codec.custom.back (levels + 1) slot = some slot := by
  unfold Codec.back Codec.custom
  simp only [reread, rereadMembers_plain h, Option.map_some, Option.bind_some]
  rw [Custom.ofMembers_members]
  rfl

end Values

/-! ## Entities -/

/-- A control or a threat comes back with what becomes of its extension slot. -/
theorem back_entity (title : String) (levels : Nat) (e : Entity) :
    (Entity.shape title).codec.back (levels + 1) e
      = (Codec.custom.back levels e.custom).map fun custom => { e with custom } := by
  rw [back_shape (Entity.rows title).sound]
  simp only [Entity.shape, Entity.headFields, Entity.customField, List.cons_append, List.nil_append, refill,
    back_field, back_text, Option.map_some, Option.bind_some]
  cases Codec.custom.back levels e.custom <;> rfl

/-- A list of lists of texts comes back. -/
theorem back_paths (levels : Nat) (paths : List (List String)) :
    (Codec.list (Codec.list Codec.text)).back (levels + 2) paths = some paths := by
  rw [back_list]
  induction paths with
  | nil => rfl
  | cons path more ih =>
    rw [List.mapM_cons, ih, back_texts]
    rfl

/-- A component comes back with what becomes of its extension slot. -/
theorem back_component (levels : Nat) (c : Component) :
    Component.shape.codec.back (levels + 3) c
      = (Codec.custom.back (levels + 2) c.custom).map fun custom => { c with custom } := by
  rw [back_shape Component.rows.sound]
  simp only [Component.shape, Entity.headFields, Entity.customField, List.cons_append, List.nil_append, refill,
    back_field, back_text, back_paths, Option.map_some, Option.bind_some]
  cases Codec.custom.back (levels + 2) c.custom <;> rfl

/-! ## Relations -/

/-- A provenance comes back with what becomes of its line. -/
theorem back_source (levels : Nat) (s : Source) :
    Source.shape.codec.back (levels + 1) s = (Codec.count.back levels s.line).map fun line => { s with line } := by
  rw [back_shape Source.rows.sound]
  simp only [Source.shape, refill, back_field, back_text, Option.map_some, Option.bind_some]
  cases Codec.count.back levels s.line <;> rfl

/-- What becomes of the part that every relation record ends with. -/
def Annex.back (levels : Nat) (a : Annex) : Option Annex := do
  let custom ← Codec.custom.back levels a.custom
  let source ← Source.shape.codec.back levels a.source
  some { a with custom, source }

/-- The fields that every relation record ends with put what becomes of that part. -/
theorem refill_annex {σ : Type} {get : σ → Annex} {put : (Annex → Annex) → σ → σ}
    (hput : ∀ f g record, put f (put g record) = put (fun a => f (g a)) record) (levels : Nat) (record target : σ) :
    refill levels record (Annex.fields get put) target
      = ((get record).back levels).map fun annex => put (fun _ => annex) target := by
  simp only [Annex.fields, refill, back_field, back_text, Option.map_some, Option.bind_some, Annex.back]
  cases Codec.custom.back levels (get record).custom with
  | none => rfl
  | some custom =>
    cases Source.shape.codec.back levels (get record).source with
    | none => rfl
    | some source => simp only [Option.map_some, Option.bind_some, hput, bind]

theorem back_mitigation (levels : Nat) (r : Mitigation) :
    Mitigation.shape.codec.back (levels + 1) r
      = (r.toAnnex.back levels).map fun annex => { r with toAnnex := annex } := by
  rw [back_shape Mitigation.rows.sound]
  simp only [Mitigation.shape, List.cons_append, List.nil_append, refill, back_field, back_text, Option.map_some,
    Option.bind_some]
  exact refill_annex (fun _ _ _ => rfl) levels r _

theorem back_acceptance (levels : Nat) (r : Acceptance) :
    Acceptance.shape.codec.back (levels + 1) r
      = (r.toAnnex.back levels).map fun annex => { r with toAnnex := annex } := by
  rw [back_shape Acceptance.rows.sound]
  simp only [Acceptance.shape, List.cons_append, List.nil_append, refill, back_field, back_text, Option.map_some,
    Option.bind_some]
  exact refill_annex (fun _ _ _ => rfl) levels r _

theorem back_exposure (levels : Nat) (r : Exposure) :
    Exposure.shape.codec.back (levels + 1) r
      = (r.toAnnex.back levels).map fun annex => { r with toAnnex := annex } := by
  rw [back_shape Exposure.rows.sound]
  simp only [Exposure.shape, List.cons_append, List.nil_append, refill, back_field, back_text, Option.map_some,
    Option.bind_some]
  exact refill_annex (fun _ _ _ => rfl) levels r _

theorem back_transfer (levels : Nat) (r : Transfer) :
    Transfer.shape.codec.back (levels + 1) r
      = (r.toAnnex.back levels).map fun annex => { r with toAnnex := annex } := by
  rw [back_shape Transfer.rows.sound]
  simp only [Transfer.shape, List.cons_append, List.nil_append, refill, back_field, back_text, Option.map_some,
    Option.bind_some]
  exact refill_annex (fun _ _ _ => rfl) levels r _

theorem back_connection (levels : Nat) (r : Connection) :
    Connection.shape.codec.back (levels + 1) r
      = (r.toAnnex.back levels).map fun annex => { r with toAnnex := annex } := by
  rw [back_shape Connection.rows.sound]
  simp only [Connection.shape, List.cons_append, List.nil_append, refill, back_field, back_text, back_direction,
    Option.map_some, Option.bind_some]
  exact refill_annex (fun _ _ _ => rfl) levels r _

theorem back_review (levels : Nat) (r : Review) :
    Review.shape.codec.back (levels + 1) r
      = (r.toAnnex.back levels).map fun annex => { r with toAnnex := annex } := by
  rw [back_shape Review.rows.sound]
  simp only [Review.shape, List.cons_append, List.nil_append, refill, back_field, back_text, Option.map_some,
    Option.bind_some]
  exact refill_annex (fun _ _ _ => rfl) levels r _

theorem back_test (levels : Nat) (r : Test) :
    Test.shape.codec.back (levels + 1) r
      = (r.toAnnex.back levels).map fun annex => { r with toAnnex := annex } := by
  rw [back_shape Test.rows.sound]
  simp only [Test.shape, List.cons_append, List.nil_append, refill, back_field, back_text, Option.map_some,
    Option.bind_some]
  exact refill_annex (fun _ _ _ => rfl) levels r _

/-- What becomes of the relation sequences. -/
def Relations.back (levels : Nat) (rs : Relations) : Option Relations := do
  let mitigations ← rs.mitigations.mapM fun r => (r.toAnnex.back levels).map fun annex => { r with toAnnex := annex }
  let exposures ← rs.exposures.mapM fun r => (r.toAnnex.back levels).map fun annex => { r with toAnnex := annex }
  let transfers ← rs.transfers.mapM fun r => (r.toAnnex.back levels).map fun annex => { r with toAnnex := annex }
  let acceptances ← rs.acceptances.mapM fun r => (r.toAnnex.back levels).map fun annex => { r with toAnnex := annex }
  let connections ← rs.connections.mapM fun r => (r.toAnnex.back levels).map fun annex => { r with toAnnex := annex }
  let reviews ← rs.reviews.mapM fun r => (r.toAnnex.back levels).map fun annex => { r with toAnnex := annex }
  let tests ← rs.tests.mapM fun r => (r.toAnnex.back levels).map fun annex => { r with toAnnex := annex }
  some { mitigations, exposures, transfers, acceptances, connections, reviews, tests }

/-- The relation sequences come back record by record. -/
theorem back_relations (levels : Nat) (rs : Relations) :
    Relations.shape.codec.back (levels + 3) rs = rs.back levels := by
  rw [back_shape Relations.rows.sound]
  simp only [Relations.shape, refill, back_field, back_list, funext (back_mitigation levels),
    funext (back_exposure levels), funext (back_transfer levels), funext (back_acceptance levels),
    funext (back_connection levels), funext (back_review levels), funext (back_test levels), Option.bind_map]
  rfl

end ThreatModel
