import Mathlib
import ThreatModel.Proofs.Document.Partial

/-!
# `Proofs.Document.Loosened` — the last document, with its members in any order

The last document holds an array of records for each family of relations, and the run. All its members are read before
the records in them are, so neither their order nor further members make a difference to what is read.

## Contents

* `Family.stored`, `sequenceMembers` — the relation sequences as members.
* `Relations.FieldOf`, `refused_relations`, `decode_relations` — the sequences are read one by one, or refused.
* `toOption_readModel_between`, `toOption_readModel_runless` — the run stands between them, or is missing.
* `readModel_loosened` — a last document whose members are rearranged is read as it was written.
-/

namespace ThreatModel

open Json
open Directive (Family)

/-! ## The relation sequences -/

/-- The families whose relations are stored, in the order of the last document. -/
def Directive.Family.stored : List Family := [.mitigate, .expose, .transfer, .accept, .connect, .review, .test]

/-- The member of the last document that holds the relations of a family. -/
def Directive.Family.member : Family → String
  | .mitigate => "mitigations"
  | .expose => "exposures"
  | .transfer => "transfers"
  | .accept => "acceptances"
  | .connect => "connections"
  | .review => "reviews"
  | .test => "tests"
  | .component | .control | .threat => ""

/-- The members of the last document that hold the given arrays. -/
def sequenceMembers (arrays : Family → List Json) : List (String × Json) :=
  Family.stored.map fun family => (family.member, .array (arrays family))

theorem encode_model (g : Graph) :
    Document.model.encode g
      = .object (sequenceMembers (fun family => (g.relations.sequence family).map Relation.encode)
          ++ [("run_id", .string g.runId)]) := by
  simp only [Document.encode, Relations.shape, sequenceMembers, Family.stored, Relations.sequence, List.map_cons, List.map_nil,
    Codec.field, Codec.list, Family.member, List.map_map]
  rfl

/-- Values are read as relations one by one. -/
theorem mapM_map_make {σ : Type} (shape : Shape σ) (make : σ → Relation) (items : List Json) :
    items.mapM (fun v => (shape.decode .stored v).toOption.map make)
      = (items.mapM (shape.decode .stored)).toOption.map (List.map make) := by
  induction items with
  | nil => rfl
  | cons v rest ih =>
    rw [List.mapM_cons, List.mapM_cons, ih]
    cases shape.decode .stored v with
    | error m => rfl
    | ok r => cases rest.mapM (shape.decode .stored) <;> rfl

/-- The field of the relations of a family. -/
structure Relations.FieldOf (family : Family) (field : Json.Field Relations) : Prop where
  found : Relations.shape.field? family.member = some field
  required : field.required = true
  refuses : ∀ items, items.mapM family.relation? = none → (field.decode .stored (.array items)).toOption = none
  reads : ∀ items (rs : Relations), items.mapM family.relation? = some (rs.sequence family) →
    (field.decode .stored (.array items)).toOption = (field.decode .stored (field.encode rs)).toOption

theorem Relations.fieldOf {σ : Type} {shape : Shape σ} {make : σ → Relation} {family : Family}
    {get : Relations → List σ} {put : List σ → Relations → Relations} (hreturns : shape.codec.Returns)
    (hmake : Function.Injective make)
    (hread : family.relation? = fun v => (shape.decode .stored v).toOption.map make)
    (hsequence : ∀ rs : Relations, rs.sequence family = (get rs).map make)
    (hfound : Relations.shape.field? family.member
      = some ((Codec.list shape.codec).field family.member true get put)) :
    Relations.FieldOf family ((Codec.list shape.codec).field family.member true get put) where
  found := hfound
  required := rfl
  refuses items h := by
    rw [hread, mapM_map_make, Option.map_eq_none_iff] at h
    exact (toOption_map put _).trans (congrArg (Option.map put) h)
  reads items rs h := by
    rw [hread, mapM_map_make, hsequence] at h
    obtain ⟨records, hrecords, hsame⟩ := Option.map_eq_some_iff.mp h
    obtain rfl := hmake.list_map hsame
    rw [returns_field (returns_list hreturns)]
    exact (toOption_map put _).trans (congrArg (Option.map put) hrecords)

/-- Every family whose relations are stored has its field. -/
theorem Relations.exists_fieldOf {family : Family} (h : family ∈ Family.stored) :
    ∃ field, Relations.FieldOf family field := by
  simp only [Family.stored, List.mem_cons, List.not_mem_nil, or_false] at h
  rcases h with rfl | rfl | rfl | rfl | rfl | rfl | rfl
  · exact ⟨_, fieldOf Mitigation.rows.returns (fun _ _ h => Relation.mitigation.inj h) rfl
      (fun _ => rfl) rfl⟩
  · exact ⟨_, fieldOf Exposure.rows.returns (fun _ _ h => Relation.exposure.inj h) rfl
      (fun _ => rfl) rfl⟩
  · exact ⟨_, fieldOf Transfer.rows.returns (fun _ _ h => Relation.transfer.inj h) rfl
      (fun _ => rfl) rfl⟩
  · exact ⟨_, fieldOf Acceptance.rows.returns (fun _ _ h => Relation.acceptance.inj h) rfl
      (fun _ => rfl) rfl⟩
  · exact ⟨_, fieldOf Connection.rows.returns (fun _ _ h => Relation.connection.inj h) rfl
      (fun _ => rfl) rfl⟩
  · exact ⟨_, fieldOf Review.rows.returns (fun _ _ h => Relation.review.inj h) rfl
      (fun _ => rfl) rfl⟩
  · exact ⟨_, fieldOf Test.rows.returns (fun _ _ h => Relation.test.inj h) rfl
      (fun _ => rfl) rfl⟩

variable {arrays : Family → List Json}

theorem names_sequenceMembers (arrays : Family → List Json) :
    (sequenceMembers arrays).map Prod.fst = Family.stored.map Family.member := by
  rw [sequenceMembers, List.map_map]
  rfl

theorem nodup_sequenceMembers (arrays : Family → List Json) : ((sequenceMembers arrays).map Prod.fst).Nodup := by
  rw [names_sequenceMembers]
  decide

/-- **The relation sequences are refused** if one of them is not read. -/
theorem refused_relations {family : Family} (hfamily : family ∈ Family.stored)
    (h : (arrays family).mapM family.relation? = none) :
    (Relations.shape.decode .stored (.object (sequenceMembers arrays))).toOption = none := by
  obtain ⟨field, hfield⟩ := Relations.exists_fieldOf hfamily
  have hmember : (family.member, Json.array (arrays family)) ∈ sequenceMembers arrays :=
    List.mem_map_of_mem (f := fun family => (family.member, Json.array (arrays family))) hfamily
  exact Shape.decode_of_refused hmember hfield.found (hfield.refuses _ h)
    (Shape.distinct_of_nodup (nodup_sequenceMembers arrays))

theorem Relations.family_of_mem {rs : Relations} {family : Family} {r : Relation} (h : r ∈ rs.sequence family) :
    r.family = family := by
  cases family <;> simp only [sequence, List.mem_map, List.not_mem_nil] at h <;>
    first
    | exact h.elim
    | obtain ⟨record, -, rfl⟩ := h
      rfl

theorem Relations.annex_mem_annexes {rs : Relations} {family : Family} {r : Relation} (h : r ∈ rs.sequence family) :
    r.annex ∈ rs.annexes := by
  cases family <;> simp only [sequence, List.mem_map, List.not_mem_nil] at h <;>
    first
    | exact h.elim
    | obtain ⟨record, hrecord, rfl⟩ := h
      have hannex := List.mem_map_of_mem (f := fun r => r.toAnnex) hrecord
      simp only [annexes, List.mem_append]
      tauto

theorem exists_append_of_forall₂ {α β : Type} {R : α → β → Prop} {l₁ l₂ : List α} {l : List β}
    (h : List.Forall₂ R (l₁ ++ l₂) l) :
    ∃ l₁' l₂', l = l₁' ++ l₂' ∧ List.Forall₂ R l₁ l₁' ∧ List.Forall₂ R l₂ l₂' :=
  ⟨_, _, (List.take_append_drop l₁.length l).symm, (List.forall₂_take_append _ _ _ h.flip).flip,
    (List.forall₂_drop_append _ _ _ h.flip).flip⟩

theorem mapM_eq_some_iff {α β : Type} {f : α → Option β} {as : List α} {bs : List β} :
    as.mapM f = some bs ↔ List.Forall₂ (fun a b => f a = some b) as bs := by
  induction as generalizing bs with
  | nil =>
    rw [List.forall₂_nil_left_iff]
    exact ⟨fun h => (Option.some.inj h).symm, fun h => congrArg some h.symm⟩
  | cons a rest ih =>
    rw [List.mapM_cons, List.forall₂_cons_left_iff]
    constructor
    · intro h
      obtain ⟨b, hb, h⟩ := Option.bind_eq_some_iff.mp h
      obtain ⟨more, hmore, h⟩ := Option.bind_eq_some_iff.mp h
      exact ⟨b, more, hb, ih.mp hmore, (Option.some.inj h).symm⟩
    · rintro ⟨b, more, hb, hmore, rfl⟩
      rw [hb, ih.mpr hmore]
      rfl

theorem mapM_eq_none {α β : Type} {f : α → Option β} {as : List α} {a : α} (ha : a ∈ as) (hnone : f a = none) :
    as.mapM f = none := by
  cases h : as.mapM f with
  | none => rfl
  | some bs =>
    obtain ⟨b, -, hb⟩ := exists_changed (mapM_eq_some_iff.mp h).flip ha
    exact absurd (hnone.symm.trans hb) nofun

/-- The relations of a family are read as they were written. -/
theorem mapM_encode (rs : Relations) (family : Family) :
    ((rs.sequence family).map Relation.encode).mapM family.relation? = some (rs.sequence family) := by
  rw [mapM_eq_some_iff, List.forall₂_map_left_iff, List.forall₂_same]
  intro r hr
  rw [← Relations.family_of_mem hr]
  exact Relation.relation?_encode r

/-- A member of the last document that holds the relations of a family. -/
def Relations.Holds (rs : Relations) (family : Family) (member : String × Json) : Prop :=
  member.1 = family.member ∧
    ∃ items, member.2 = .array items ∧ items.mapM family.relation? = some (rs.sequence family)

/-- **The relation sequences are read** one by one. -/
theorem decode_relations {rs : Relations} {members : List (String × Json)}
    (h : List.Forall₂ rs.Holds Family.stored members) :
    (Relations.shape.decode .stored (.object members)).toOption = some rs := by
  have hmembers : Relations.shape.members rs = sequenceMembers fun family => (rs.sequence family).map Relation.encode := by
    have hencode := encode_model (Graph.ofParts "" default rs)
    exact List.append_cancel_right (Json.object.inj hencode)
  have halike : List.Forall₂ Relations.shape.Alike (Relations.shape.members rs) members := by
    rw [hmembers, sequenceMembers, List.forall₂_map_left_iff]
    refine ((List.forall₂_and_left _ _).mpr ⟨fun _ hfamily => hfamily, h⟩).imp ?_
    rintro family ⟨name, v⟩ ⟨hfamily, hname, items, hvalue, hitems⟩
    obtain rfl : name = family.member := hname
    obtain rfl : v = .array items := hvalue
    obtain ⟨field, hfield⟩ := Relations.exists_fieldOf hfamily
    refine ⟨rfl, fun other hother => ?_⟩
    obtain rfl := Option.some.inj (hfield.found.symm.trans hother)
    exact (hfield.reads _ rs (mapM_encode rs family)).trans (hfield.reads _ rs hitems).symm
  rw [← Shape.decode_congr Relations.rows.sound (Relations.rows.sound.members_nodup rs) halike]
  exact congrArg Except.toOption (Relations.rows.returns rs)

theorem holds_sequenceMembers {rs : Relations}
    (h : ∀ family ∈ Family.stored, (arrays family).mapM family.relation? = some (rs.sequence family)) :
    List.Forall₂ rs.Holds Family.stored (sequenceMembers arrays) := by
  rw [sequenceMembers, List.forall₂_map_right_iff, List.forall₂_same]
  exact fun family hfamily => ⟨rfl, _, rfl, h family hfamily⟩

theorem names_of_holds {rs : Relations} {members : List (String × Json)} (h : List.Forall₂ rs.Holds Family.stored members) :
    members.map Prod.fst = Family.stored.map Family.member := by
  generalize Family.stored = families at h
  induction h with
  | nil => rfl
  | cons hmember _ ih => rw [List.map_cons, List.map_cons, hmember.1, ih]

/-- Arrays of records whose members are rearranged hold the same relations. -/
theorem holds_of_loosened {rs : Relations} {members : List (String × Json)}
    (h : List.Forall₂ (fun (family : Family) member => family.member = member.1 ∧
      (member.2 = .array ((rs.sequence family).map Relation.encode) ∨
        LooseItems (.array ((rs.sequence family).map Relation.encode)) member.2)) Family.stored members) :
    List.Forall₂ rs.Holds Family.stored members := by
  refine h.imp ?_
  rintro family member ⟨hname, hvalue | hvalue⟩
  · exact ⟨hname.symm, _, hvalue, mapM_encode rs family⟩
  · generalize hitems : member.2 = v at hvalue
    obtain ⟨hrecords⟩ := hvalue
    refine ⟨hname.symm, _, hitems, mapM_eq_some_iff.mpr ?_⟩
    rw [List.forall₂_map_left_iff] at hrecords
    refine (((List.forall₂_and_left _ _).mpr ⟨fun r hr => Relations.family_of_mem hr, hrecords⟩).imp ?_).flip
    rintro r w ⟨rfl, hw⟩
    exact Relation.relation?_loosened hw

/-! ## The last document -/

namespace Document

/-- Plain members are kept beside what has been read of the run. -/
theorem foldlM_modelStep_plain {levels : Nat} {runId : String} {members : List (String × Json)}
    (hplain : PlainMembers levels members) (hnames : "run_id" ∉ members.map Prod.fst) (before : ModelMembers) :
    members.foldlM (modelStep levels runId) before
      = some { before with others := members.reverse ++ before.others } := by
  induction members generalizing before with
  | nil => rfl
  | cons member rest ih =>
    obtain ⟨name, v⟩ := member
    rw [List.map_cons, List.mem_cons, not_or] at hnames
    simp only [PlainMembers] at hplain
    have hstep : modelStep levels runId before (name, v) = some { before with others := (name, v) :: before.others } := by
      rw [modelStep, if_neg fun h => hnames.1 h.symm, reread_plain hplain.1]
      rfl
    rw [List.foldlM_cons, hstep]
    refine (ih hplain.2 hnames.2 _).trans ?_
    rw [List.reverse_cons, List.append_assoc, List.singleton_append]

/-- **The text of the last document is read** as what its members stand for once all are read. -/
theorem toOption_readModel_members (runId : String) {members : List (String × Json)} (others : List (String × Json))
    (hnames : "run_id" ∉ others.map Prod.fst) (hmembers : ∀ member ∈ members, member ∈ others ++ [("run_id", .string runId)]) :
    (readModel (pretty 0 (.object members))).toOption
      = (members.foldlM (modelStep 126 runId) ⟨none, []⟩).bind fun read => (ofMembers read).toOption := by
  refine toOption_document fun rest offset hrest => ?_
  have hhead := pretty_head_not_isLayout 0 (.object members) rest
  rw [pretty_object, List.cons_append, List.append_assoc, List.singleton_append] at hhead ⊢
  have hfuel := Nat.lt_succ_of_le (length_le_membersText 0 members ('\x7d' :: rest))
  have hread := yields_members 0 (fun entry hentry before =>
    reads_modelMember 126 1 runId hnames (hmembers entry hentry) before) rest ⟨none, []⟩ (offset + 1) hfuel
  unfold modelReader
  rw [skipSpace_eq_self hhead]
  refine hread.bind _ _ fun read offset _ => ?_
  dsimp only
  cases ofMembers read with
  | ok content => exact Yields.ok content rest (offset + 1)
  | error m => exact Yields.error _ rest

/-- A last document without a run is refused. -/
theorem toOption_readModel_runless {members : List (String × Json)} (hplain : PlainMembers 126 members)
    (hnames : "run_id" ∉ members.map Prod.fst) : (readModel (pretty 0 (.object members))).toOption = none := by
  rw [toOption_readModel_members "" members hnames fun member hmember => List.mem_append_left _ hmember,
    foldlM_modelStep_plain hplain hnames]
  rfl

/-- The run may stand anywhere among the relation sequences. -/
theorem toOption_readModel_between {runId : String} (front behind : List (String × Json))
    (hplain : PlainMembers 126 (front ++ behind)) (hnames : "run_id" ∉ (front ++ behind).map Prod.fst) :
    (readModel (pretty 0 (.object (front ++ ("run_id", .string runId) :: behind)))).toOption
      = (Relations.shape.decode .stored (.object (front ++ behind))).toOption.map fun rs => (runId, rs) := by
  have hplain' := plainMembers_iff.mp hplain
  rw [List.forall_mem_append] at hplain'
  have hnames' := hnames
  rw [List.map_append, List.mem_append, not_or] at hnames'
  rw [toOption_readModel_members runId (front ++ behind) hnames (by
      intro member hmember
      simp only [List.mem_append, List.mem_cons, List.not_mem_nil, or_false] at hmember ⊢
      tauto),
    List.foldlM_append, foldlM_modelStep_plain (plainMembers_iff.mpr hplain'.1) hnames'.1]
  simp only [bind, Option.bind_some, List.foldlM_cons, modelStep, if_true, Option.isSome_none, Bool.false_eq_true,
    if_false]
  rw [foldlM_modelStep_plain (plainMembers_iff.mpr hplain'.2) hnames'.2, Option.bind_some, List.append_nil,
    ← List.reverse_append]
  exact toOption_ofMembers runId (front ++ behind)

/-- The record of the last document is plain in a plain model. -/
theorem plain_encode_model {g : Graph} (h : g.Plain) : Plain 127 (Document.model.encode g) := by
  rw [encode_model]
  simp only [Plain, plainMembers_iff, List.forall_mem_append, List.forall_mem_singleton, and_true]
  intro member hmember
  obtain ⟨family, -, rfl⟩ := List.mem_map.mp hmember
  simp only [Plain, plainItems_iff, List.forall_mem_map]
  intro r hr
  obtain ⟨hcustom, hline⟩ := h.annexes r.annex (Relations.annex_mem_annexes hr)
  exact Plain.mono (by decide : 102 ≤ 125) (Relation.plain_encode hcustom hline)

/-- The relation sequences of a last document are read, wherever its members stand. -/
theorem readModel_rearranged {runId : String} {sequences members : List (String × Json)}
    (hnames : sequences.map Prod.fst = Family.stored.map Family.member) (hplain : PlainMembers 126 members)
    (h : Rearranged (sequences ++ [("run_id", .string runId)]) members) :
    (readModel (pretty 0 (.object members))).toOption
      = (Relations.shape.decode .stored (.object sequences)).toOption.map fun rs => (runId, rs) := by
  obtain ⟨extra, hperm, hextra⟩ := h
  rw [List.map_append, hnames] at hextra
  have hrun : ("run_id", .string runId) ∈ members := hperm.mem_iff.mpr (by simp)
  obtain ⟨front, behind, rfl⟩ := List.append_of_mem hrun
  have hothers : (front ++ behind).Perm (sequences ++ extra) := by
    rw [List.append_assoc, List.singleton_append] at hperm
    exact (List.perm_middle.symm.trans (hperm.trans List.perm_middle)).cons_inv
  have hotherNames : "run_id" ∉ (front ++ behind).map Prod.fst := by
    rw [(hothers.map _).mem_iff, List.map_append, hnames, List.mem_append, not_or]
    refine ⟨by decide, fun hin => ?_⟩
    obtain ⟨member, hmember, hname⟩ := List.mem_map.mp hin
    exact (hextra member hmember).1 (List.mem_append_right _ (List.mem_singleton.mpr hname))
  have hunknown : ∀ member ∈ extra, Relations.shape.field? member.1 = none := by
    intro member hmember
    cases hfield : Relations.shape.field? member.1 with
    | none => rfl
    | some field =>
      obtain ⟨hfield, hname⟩ := Shape.field?_eq_some hfield
      refine absurd (List.mem_append_left _ ?_) (hextra member hmember).1
      rw [← hname]
      exact List.mem_map_of_mem (f := Json.Field.name) hfield
  rw [plainMembers_iff] at hplain
  rw [toOption_readModel_between front behind (plainMembers_iff.mpr fun member hmember => hplain member (by
      simp only [List.mem_append, List.mem_cons] at hmember ⊢
      tauto)) hotherNames,
    Shape.decode_perm Relations.rows.independent hothers (Shape.distinct_of_nodup (hnames ▸ by decide)) hunknown]

/-- **A last document whose members are rearranged** is read as it was written, and so are the records in it. -/
theorem readModel_loosened {g : Graph} (hplain : g.Plain) {v : Json} (h : LooseArrays (Document.model.encode g) v) :
    (readModel (pretty 0 v)).toOption = some (g.runId, g.relations) := by
  have hv : Plain 127 v := by
    refine Loosened.plain h (plain_encode_model hplain) ?_
    rintro - w w' (rfl | hitems) hw
    · exact hw
    · obtain ⟨hitems⟩ := hitems
      simp only [Plain, plainItems_iff] at hw ⊢
      intro item hitem
      obtain ⟨before, hbefore, hloose⟩ := exists_changed hitems hitem
      exact Relation.plain_of_loosened hloose (hw before hbefore)
  rw [encode_model] at h
  obtain ⟨hchanged, hrearranged⟩ := h
  obtain ⟨sequences, run, rfl, hsequences, hrun⟩ := exists_append_of_forall₂ hchanged
  have hholds := holds_of_loosened (by rwa [sequenceMembers, List.forall₂_map_left_iff] at hsequences)
  obtain rfl : run = [("run_id", .string g.runId)] := by
    rw [List.forall₂_cons_left_iff] at hrun
    obtain ⟨⟨name, v⟩, rest, ⟨hname, hvalue⟩, hnil, rfl⟩ := hrun
    rw [List.forall₂_nil_left_iff] at hnil
    obtain rfl : "run_id" = name := hname
    rcases hvalue with rfl | hitems
    · rw [hnil]
    · cases hitems
  simp only [Plain] at hv
  rw [readModel_rearranged (names_of_holds hholds) hv hrearranged, decode_relations hholds]
  rfl

end Document

end ThreatModel
