import Mathlib
import ThreatModel.Proofs.Document.Records

/-!
# `Proofs.Document.Model` — stored models come back

The documents of a model are read back one by one: three maps of records, and the document with the relations
and the run. What comes of a model that is written and read back is the same model, if its extension slots are
plain and its lines fit.

## Contents

* `reads_modelReader` — the last document is read back.
* `toOption_readMap`, `toOption_readModel` — what is read of the texts of the documents.
* `Graph.back` — what becomes of a model that is written and read back.
* `Graph.Plain`, `back_plain` — models that come back as they were.
-/

namespace ThreatModel

open Json

/-! ## The last document -/

namespace Document

/-- The members of the last document, before they are taken apart. -/
theorem reads_modelMember_other {name : String} (hname : name ≠ "run_id") (levels level : Nat) (v : Json)
    (before : ModelMembers) :
    Reads (modelMember levels before name) (':' :: ' ' :: pretty level v)
      ((reread levels v).map fun v => { before with others := (name, v) :: before.others }) := by
  have hkeep := reads_keep (Json.skipsSpace_value levels) (reads_value v levels level) before.others name
  intro rest offset hrest
  have hmap := (hkeep rest offset hrest).map fun others => { before with others }
  rw [Option.map_map] at hmap
  unfold modelMember
  rw [if_neg hname]
  exact hmap

/-- The run is read once. -/
theorem reads_modelMember_run (levels level : Nat) (runId : String) (before : ModelMembers) :
    Reads (modelMember levels before "run_id") (':' :: ' ' :: pretty level (.string runId))
      (if before.runId.isSome then none else some { before with runId := some runId }) := by
  intro rest offset hrest
  have hfits : Guide.Fits .text (.string runId) := ⟨runId, rfl⟩
  have hguided := reads_guided hfits levels level rest (offset + 2) hrest
  have hskips := skipsSpace_guided .text levels ⟨' ' :: (pretty level (.string runId) ++ rest), offset + 1⟩
  rw [skipSpace_gap] at hskips
  obtain ⟨after, heq⟩ := hguided
  unfold modelMember
  rw [List.cons_append, List.cons_append, colon_pretty, if_pos rfl]
  by_cases hsome : before.runId.isSome = true
  · -- A second run is a fault.
    rw [if_pos hsome, if_pos hsome]
    exact Yields.error _ rest
  · rw [if_neg hsome, if_neg hsome]
    simp only [bind, Except.bind, hskips, heq]
    exact Yields.ok _ rest after

/-- What becomes of what has been read of the last document with one more of its members. -/
def modelStep (levels : Nat) (runId : String) (before : ModelMembers) (entry : String × Json) : Option ModelMembers :=
  if entry.1 = "run_id" then
    if before.runId.isSome then none else some { before with runId := some runId }
  else (reread levels entry.2).map fun v => { before with others := (entry.1, v) :: before.others }

/-- Members with other names are kept beside the run. -/
theorem foldlM_others (levels : Nat) (runId : String) {members : List (String × Json)}
    (hnames : "run_id" ∉ members.map Prod.fst) :
    ∀ others, members.foldlM (modelStep levels runId) ⟨none, others⟩
      = (members.foldlM (fun before entry => (reread levels entry.2).map fun v => (entry.1, v) :: before) others).map
          fun others => ⟨none, others⟩ := by
  induction members with
  | nil => intro others; rfl
  | cons entry more ih =>
    intro others
    rw [List.map_cons, List.mem_cons, not_or] at hnames
    have hname : entry.1 ≠ "run_id" := fun h => hnames.1 h.symm
    rw [List.foldlM_cons, List.foldlM_cons, modelStep, if_neg hname]
    cases reread levels entry.2 with
    | none => rfl
    | some v => exact ih hnames.2 ((entry.1, v) :: others)

/-- What is read of the whole last document: the run, and the other members turned around. -/
theorem foldlM_modelStep (levels : Nat) (runId : String) {members : List (String × Json)}
    (hnames : "run_id" ∉ members.map Prod.fst) :
    (members ++ [("run_id", Json.string runId)]).foldlM (modelStep levels runId) ⟨none, []⟩
      = (rereadMembers levels members).map fun kept => ⟨some runId, kept.reverse⟩ := by
  rw [List.foldlM_append, foldlM_others levels runId hnames, foldlM_keep (reread levels),
    ← rereadMembers_eq_mapM]
  cases rereadMembers levels members with
  | none => rfl
  | some kept =>
    rw [Option.map_some, Option.map_some, List.append_nil]
    rfl

/-- What the members of the last document stand for once all are read. -/
theorem toOption_ofMembers (runId : String) (kept : List (String × Json)) :
    (ofMembers ⟨some runId, kept.reverse⟩).toOption
      = (Relations.shape.decode .stored (.object kept)).toOption.map fun relations => (runId, relations) := by
  unfold ofMembers
  rw [List.reverse_reverse]
  cases Relations.shape.decode .stored (.object kept) <;> rfl

/-- The run has a name that no sequence of relations has. -/
theorem run_id_not_mem_members (rs : Relations) : "run_id" ∉ (Relations.shape.members rs).map Prod.fst := by
  have hfields : (Relations.shape.members rs).map Prod.fst = Relations.shape.fields.map Field.name := by
    rw [Shape.members, List.map_map]
    rfl
  rw [hfields]
  decide

/-- A member of the last document is read in its place. -/
theorem reads_modelMember (levels level : Nat) (runId : String) {members : List (String × Json)}
    (hnames : "run_id" ∉ members.map Prod.fst) {entry : String × Json}
    (hentry : entry ∈ members ++ [("run_id", Json.string runId)]) (before : ModelMembers) :
    Reads (modelMember levels before entry.1) (':' :: ' ' :: pretty level entry.2)
      (modelStep levels runId before entry) := by
  unfold modelStep
  rcases List.mem_append.mp hentry with hentry | hentry
  · have hname : entry.1 ≠ "run_id" := fun h => hnames (h ▸ List.mem_map_of_mem hentry)
    rw [if_neg hname]
    exact reads_modelMember_other hname levels level entry.2 before
  · obtain rfl := List.mem_singleton.mp hentry
    rw [if_pos rfl]
    exact reads_modelMember_run levels level runId before

/-- What becomes of the run and the relations is what the members stand for that have been read. -/
theorem back_modelMembers (levels : Nat) (g : Graph) :
    (Relations.shape.codec.back (levels + 1) g.relations).map (fun relations => (g.runId, relations))
      = ((Relations.shape.members g.relations ++ [("run_id", Json.string g.runId)]).foldlM
          (modelStep levels g.runId) ⟨none, []⟩).bind fun members => (ofMembers members).toOption := by
  rw [foldlM_modelStep levels g.runId (run_id_not_mem_members g.relations), Option.bind_map]
  unfold Codec.back Shape.codec
  simp only [Shape.encode, reread, Option.bind_map, Option.map_bind]
  exact congrArg _ (funext fun kept => (toOption_ofMembers g.runId kept).symm)

/-- **The last document is read back.** -/
theorem reads_modelReader (levels level : Nat) (g : Graph) :
    Reads (modelReader (levels + 1)) (pretty level (Document.model.encode g))
      ((Relations.shape.codec.back (levels + 1) g.relations).map fun relations => (g.runId, relations)) := by
  have hencode : Document.model.encode g
      = .object (Relations.shape.members g.relations ++ [("run_id", .string g.runId)]) := rfl
  intro rest offset hrest
  have hhead := pretty_head_not_isLayout level (Document.model.encode g) rest
  rw [hencode, pretty_object, List.cons_append, List.append_assoc, List.singleton_append] at hhead ⊢
  have hfuel := Nat.lt_succ_of_le (length_le_membersText level
    (Relations.shape.members g.relations ++ [("run_id", .string g.runId)]) ('\x7d' :: rest))
  have hread := yields_members level
    (fun entry hentry before => reads_modelMember levels (level + 1) g.runId (run_id_not_mem_members g.relations)
      hentry before) rest ⟨none, []⟩ (offset + 1) hfuel
  unfold modelReader
  rw [skipSpace_eq_self hhead, back_modelMembers]
  refine hread.bind _ _ fun members offset _ => ?_
  dsimp only
  cases ofMembers members with
  | ok content => exact Yields.ok content rest (offset + 1)
  | error m => exact Yields.error _ rest

/-- **The text of a map of records is read back.** -/
theorem toOption_readMap {σ : Type} {shape : Shape σ} (hsound : shape.Sound) (records : NameMap σ) :
    (readMap shape (pretty 0 (encodeMap shape records))).toOption
      = backMap shape Reader.maxLevels records :=
  toOption_document (reads_mapOf hsound Reader.maxLevels 0 records)

/-- **The text of the last document is read back.** -/
theorem toOption_readModel (g : Graph) :
    (readModel (pretty 0 (Document.model.encode g))).toOption
      = (g.relations.back 124).map fun relations => (g.runId, relations) := by
  have hread := toOption_document (reads_modelReader 126 0 g)
  rw [back_relations 124] at hread
  exact hread

end Document

/-! ## Models -/

/-- What becomes of a model that is written to its documents and read back. -/
def Graph.back (g : Graph) : Option Graph := do
  let controls ← backMap (Entity.shape "Control") Reader.maxLevels g.registry.controls
  let threats ← backMap (Entity.shape "Threat") Reader.maxLevels g.registry.threats
  let components ← backMap Component.shape Reader.maxLevels g.registry.components
  let relations ← g.relations.back 124
  some (Graph.ofParts g.runId { components, controls, threats, runId := "" } relations)

/-- An extension slot without floating point numbers whose values nest at most as many levels deep as given. -/
def Custom.Plain (levels : Nat) (slot : Custom) : Prop := PlainMembers levels slot.members

/-- What all relation records end with. -/
def Relations.annexes (rs : Relations) : List Annex :=
  rs.mitigations.map (·.toAnnex) ++ rs.exposures.map (·.toAnnex) ++ rs.transfers.map (·.toAnnex)
    ++ rs.acceptances.map (·.toAnnex) ++ rs.connections.map (·.toAnnex) ++ rs.reviews.map (·.toAnnex)
    ++ rs.tests.map (·.toAnnex)

/-- A model whose extension slots hold no floating point numbers and nest at most 100 levels deep, and whose line
numbers have 64 bits. -/
structure Graph.Plain (g : Graph) : Prop where
  components : ∀ entry ∈ g.registry.components.entries, entry.2.custom.Plain 100
  controls : ∀ entry ∈ g.registry.controls.entries, entry.2.custom.Plain 100
  threats : ∀ entry ∈ g.registry.threats.entries, entry.2.custom.Plain 100
  annexes : ∀ a ∈ g.relations.annexes, a.custom.Plain 100 ∧ a.source.line < 2 ^ 64

/-- A plain slot comes back from anywhere in a document. -/
theorem Custom.Plain.back {slot : Custom} (h : slot.Plain 100) {levels : Nat} (hlevels : 100 ≤ levels) :
    Codec.custom.back (levels + 1) slot = some slot :=
  back_custom levels (PlainMembers.mono hlevels h)

theorem Annex.back_plain {a : Annex} (h : a.custom.Plain 100 ∧ a.source.line < 2 ^ 64) :
    a.back 124 = some a := by
  obtain ⟨hcustom, hline⟩ := h
  have hlimit : 2 ^ 64 = Reader.maxWhole + 1 := by decide
  -- The line number stands one level deeper than the slot.
  have hcount : Codec.count.back 123 a.source.line = some a.source.line := back_count 123 (by omega)
  rw [Annex.back, hcustom.back (by decide : 100 ≤ 123), back_source 123, hcount]
  rfl

/-- Records whose last parts come back come back. -/
theorem mapM_annex {σ : Type} {get : σ → Annex} {put : σ → Annex → σ} (hput : ∀ r, put r (get r) = r)
    {records : List σ} (h : ∀ r ∈ records, (get r).back 124 = some (get r)) :
    records.mapM (fun r => ((get r).back 124).map (put r)) = some records := by
  induction records with
  | nil => rfl
  | cons r more ih =>
    rw [List.mapM_cons, h r List.mem_cons_self, ih fun other hother => h other (List.mem_cons_of_mem _ hother),
      Option.map_some, hput]
    rfl

theorem Relations.back_plain {rs : Relations} (h : ∀ a ∈ rs.annexes, a.custom.Plain 100 ∧ a.source.line < 2 ^ 64) :
    rs.back 124 = some rs := by
  have hall : ∀ a ∈ rs.annexes, a.back 124 = some a := fun a ha => Annex.back_plain (h a ha)
  simp only [Relations.annexes, List.forall_mem_append, List.forall_mem_map] at hall
  obtain ⟨⟨⟨⟨⟨⟨hmitigations, hexposures⟩, htransfers⟩, hacceptances⟩, hconnections⟩, hreviews⟩, htests⟩ := hall
  rw [Relations.back, mapM_annex (fun _ => rfl) hmitigations, mapM_annex (fun _ => rfl) hexposures,
    mapM_annex (fun _ => rfl) htransfers, mapM_annex (fun _ => rfl) hacceptances,
    mapM_annex (fun _ => rfl) hconnections, mapM_annex (fun _ => rfl) hreviews, mapM_annex (fun _ => rfl) htests]
  rfl

/-- **A plain model comes back** as it was. Its registry then stamps new records with the run of the model. -/
theorem Graph.back_plain {g : Graph} (h : g.Plain) : g.back = some (Graph.ofParts g.runId g.registry g.relations) := by
  have hentity : ∀ title (e : Entity), e.custom.Plain 100 → (Entity.shape title).codec.back 126 e = some e := by
    intro title e he
    rw [back_entity title 125, he.back (by decide : 100 ≤ 124)]
    rfl
  have hcomponent : ∀ c : Component, c.custom.Plain 100 → Component.shape.codec.back 126 c = some c := by
    intro c hc
    rw [back_component 123, hc.back (by decide : 100 ≤ 124)]
    rfl
  have hcontrols : backMap (Entity.shape "Control") Reader.maxLevels g.registry.controls = some g.registry.controls :=
    NameMap.traverse_eq_self fun entry hentry => hentity _ entry.2 (h.controls entry hentry)
  have hthreats : backMap (Entity.shape "Threat") Reader.maxLevels g.registry.threats = some g.registry.threats :=
    NameMap.traverse_eq_self fun entry hentry => hentity _ entry.2 (h.threats entry hentry)
  have hcomponents : backMap Component.shape Reader.maxLevels g.registry.components = some g.registry.components :=
    NameMap.traverse_eq_self fun entry hentry => hcomponent entry.2 (h.components entry hentry)
  rw [Graph.back, hcontrols, hthreats, hcomponents, Relations.back_plain h.annexes]
  rfl

end ThreatModel
