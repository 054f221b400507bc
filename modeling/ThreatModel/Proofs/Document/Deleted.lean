import Mathlib
import ThreatModel.Proofs.Document.Loosened

/-!
# `Proofs.Document.Deleted` — stored documents that lack a member

A document of which one member was deleted is read as far as the record allows in which the member stood: the other
records, and the other documents, are read as they were written.

## Contents

* `Relations.replace`, `sequence_replace` — another relation in the place of one.
* `readModel_record_refused`, `readModel_record_replaced` — a member was deleted inside a record of the last document.
* `readModel_member_refused` — the last document lacks one of its own members.
* `readMap_loosened` — a document of entities whose records are rearranged.
* `readMap_without_required`, `readMap_without_default` — a member was deleted from the record of an entity.
-/

namespace ThreatModel

open Json
open Directive (Family)

/-! ## The last document -/

/-- The relations with another one in place of the one at an index among those of its sort. -/
def Relations.replace (rs : Relations) (index : Nat) : Relation → Relations
  | .mitigation r => { rs with mitigations := rs.mitigations.set index r }
  | .acceptance r => { rs with acceptances := rs.acceptances.set index r }
  | .exposure r => { rs with exposures := rs.exposures.set index r }
  | .transfer r => { rs with transfers := rs.transfers.set index r }
  | .connection r => { rs with connections := rs.connections.set index r }
  | .review r => { rs with reviews := rs.reviews.set index r }
  | .test r => { rs with tests := rs.tests.set index r }

theorem Relations.sequence_replace (rs : Relations) (index : Nat) (r : Relation) (family : Family) :
    (rs.replace index r).sequence family
      = if family = r.family then (rs.sequence family).set index r else rs.sequence family := by
  cases r <;> cases family <;> simp [replace, sequence, Relation.family, List.map_set]

theorem Relation.family_mem_stored (r : Relation) : r.family ∈ Family.stored := by
  cases r <;> simp [Relation.family, Family.stored]

theorem Relation.family_of_optional {r : Relation} {p : String × Relation} (h : p ∈ r.optional) :
    p.2.family = r.family := by
  rcases List.mem_append.mp h with hown | hlast
  · cases r <;> simp only [ownOptional, List.mem_singleton, List.not_mem_nil] at hown <;>
      first
      | exact hown.elim
      | rw [hown]
        rfl
  · obtain ⟨q, -, rfl⟩ := List.mem_map.mp hlast
    exact Relation.family_withAnnex q.2 r

theorem Relation.family_of_sourceOptional {r : Relation} {p : String × Relation} (h : p ∈ r.sourceOptional) :
    p.2.family = r.family := by
  obtain ⟨q, -, rfl⟩ := List.mem_map.mp h
  rw [Relation.withSource_eq]
  exact Relation.family_withAnnex _ r

theorem Directive.Family.member_injective {family other : Family} (h : family ∈ Family.stored)
    (hother : other ∈ Family.stored) (heq : family.member = other.member) : family = other := by
  simp only [stored, List.mem_cons, List.not_mem_nil, or_false] at h hother
  rcases h with rfl | rfl | rfl | rfl | rfl | rfl | rfl <;>
    rcases hother with rfl | rfl | rfl | rfl | rfl | rfl | rfl <;>
    first
    | rfl
    | exact absurd heq (by decide)

/-- An edit inside the array of one family leaves the other members as they are. -/
theorem deleteMember_sequenceMembers {name : String} {steps : List Step} {arrays : Family → List Json} {run : String × Json}
    (hrun : run.1 = "run_id") {family : Family} (hfamily : family ∈ Family.stored) (index : Nat) :
    deleteMember name (.member family.member :: .item index :: steps) (.object (sequenceMembers arrays ++ [run]))
      = .object (sequenceMembers (Function.update arrays family
          ((arrays family).modify index (deleteMember name steps))) ++ [run]) := by
  have hne : run.1 ≠ family.member := by
    rw [hrun]
    revert family
    decide
  rw [deleteMember, List.map_append, List.map_singleton, if_neg hne, sequenceMembers, sequenceMembers, List.map_map]
  congr 2
  refine List.map_congr_left fun other hother => ?_
  by_cases heq : other = family
  · subst heq
    rw [Function.comp_apply, if_pos rfl, Function.update_self]
    rfl
  · rw [Function.comp_apply, if_neg fun h => heq (Family.member_injective hother hfamily h), Function.update_of_ne heq]

/-- One of the values is changed, and so is what it stands for. -/
theorem forall₂_modify {α β : Type} {R : α → β → Prop} {as : List α} {bs : List β} (h : List.Forall₂ R as bs)
    {index : Nat} {change : α → α} {b : β} (hchange : ∀ a, as[index]? = some a → R (change a) b) :
    List.Forall₂ R (as.modify index change) (bs.set index b) := by
  induction h generalizing index with
  | nil => simp
  | cons hab hrest ih =>
    cases index with
    | zero => exact .cons (hchange _ rfl) hrest
    | succ index => exact .cons hab (ih fun a ha => hchange a ha)

section Records

variable {g : Graph} {r : Relation} {index : Nat} {name : String} {steps : List Step}

/-- The text of the last document when a member was deleted inside one of its records. -/
theorem encode_deleteMember (g : Graph) (r : Relation) (index : Nat) (name : String) (steps : List Step) :
    deleteMember name (.member r.family.member :: .item index :: steps) (Document.model.encode g)
      = .object (sequenceMembers (Function.update (fun family => (g.relations.sequence family).map Relation.encode)
          r.family (((g.relations.sequence r.family).map Relation.encode).modify index (deleteMember name steps)))
          ++ [("run_id", .string g.runId)]) := by
  rw [encode_model, deleteMember_sequenceMembers rfl r.family_mem_stored]

theorem plainMembers_deleteMember (hplain : g.Plain) {members : List (String × Json)}
    (h : deleteMember name steps (Document.model.encode g) = .object members) : PlainMembers 126 members := by
  have hdeleted : Plain 127 (deleteMember name steps _) := plain_deleteMember (Document.plain_encode_model hplain)
  rw [h] at hdeleted
  simpa only [Plain] using hdeleted

/-- **The last document is refused** if one of its records is. -/
theorem readModel_record_refused (hplain : g.Plain) (hr : (g.relations.sequence r.family)[index]? = some r)
    (hrefused : r.family.relation? (deleteMember name steps r.encode) = none) :
    (Document.readModel (pretty 0 (deleteMember name (.member r.family.member :: .item index :: steps)
        (Document.model.encode g)))).toOption = none := by
  have hencode := encode_deleteMember g r index name steps
  have hsequence : (Function.update (fun family => (g.relations.sequence family).map Relation.encode) r.family
      (((g.relations.sequence r.family).map Relation.encode).modify index (deleteMember name steps)) r.family).mapM
        r.family.relation? = none := by
    rw [Function.update_self]
    refine mapM_eq_none (List.mem_of_getElem? (i := index) ?_) hrefused
    rw [List.getElem?_modify, List.getElem?_map, hr]
    simp
  rw [hencode, Document.readModel_rearranged (names_sequenceMembers _) (plainMembers_deleteMember hplain hencode)
    (Rearranged.refl _), refused_relations r.family_mem_stored hsequence]
  rfl

/-- **The last document is read with another record** if one of its records is read as that. -/
theorem readModel_record_replaced (hplain : g.Plain) (hr : (g.relations.sequence r.family)[index]? = some r)
    {r' : Relation} (hfamily : r'.family = r.family)
    (hread : r.family.relation? (deleteMember name steps r.encode) = some r') :
    (Document.readModel (pretty 0 (deleteMember name (.member r.family.member :: .item index :: steps)
        (Document.model.encode g)))).toOption = some (g.runId, g.relations.replace index r') := by
  have hencode := encode_deleteMember g r index name steps
  have hsequences : ∀ family ∈ Family.stored,
      (Function.update (fun family => (g.relations.sequence family).map Relation.encode) r.family
        (((g.relations.sequence r.family).map Relation.encode).modify index (deleteMember name steps)) family).mapM
          family.relation? = some ((g.relations.replace index r').sequence family) := by
    intro family _
    rw [Relations.sequence_replace, hfamily]
    by_cases heq : family = r.family
    · subst heq
      rw [Function.update_self, if_pos rfl, mapM_eq_some_iff]
      refine forall₂_modify (mapM_eq_some_iff.mp (mapM_encode g.relations r.family)) fun v hv => ?_
      rw [List.getElem?_map, hr] at hv
      rw [← Option.some.inj hv]
      exact hread
    · rw [Function.update_of_ne heq, if_neg heq]
      exact mapM_encode g.relations family
  rw [hencode, Document.readModel_rearranged (names_sequenceMembers _) (plainMembers_deleteMember hplain hencode)
    (Rearranged.refl _), decode_relations (holds_sequenceMembers hsequences)]
  rfl

/-- **A last document without one of its own members is refused**: a relation sequence or the run. -/
theorem readModel_member_refused (hplain : g.Plain) (hname : name ∈ "run_id" :: Family.stored.map Family.member) :
    (Document.readModel (pretty 0 (deleteMember name [] (Document.model.encode g)))).toOption = none := by
  have hencode : deleteMember name [] (Document.model.encode g)
      = .object ((sequenceMembers (fun family => (g.relations.sequence family).map Relation.encode)
          ++ [("run_id", Json.string g.runId)]).filter fun member => member.1 ≠ name) := by
    rw [encode_model, deleteMember]
  have hmembers := plainMembers_deleteMember hplain hencode
  rw [hencode]
  rw [List.filter_append] at hmembers ⊢
  rcases List.mem_cons.mp hname with rfl | hname
  · rw [List.filter_cons_of_neg (by simp), List.filter_nil, List.append_nil] at hmembers ⊢
    exact Document.toOption_readModel_runless hmembers (Shape.not_mem_filter _ _)
  · obtain ⟨family, hfamily, rfl⟩ := List.mem_map.mp hname
    obtain ⟨field, hfield⟩ := Relations.exists_fieldOf hfamily
    have hne : "run_id" ≠ family.member := (fun h : ∀ family ∈ Family.stored, "run_id" ≠ family.member => h family hfamily) (by decide)
    have hnodup : (((sequenceMembers fun family => (g.relations.sequence family).map Relation.encode).filter
        fun member => member.1 ≠ family.member).map Prod.fst).Nodup :=
      (nodup_sequenceMembers _).sublist (List.filter_sublist.map _)
    have hrun : "run_id" ∉ ((sequenceMembers fun family => (g.relations.sequence family).map Relation.encode).filter
        fun member => member.1 ≠ family.member).map Prod.fst := by
      intro hin
      have hin := (List.filter_sublist.map _).subset hin
      rw [names_sequenceMembers] at hin
      exact absurd hin (by decide)
    have hmissing := Shape.decode_of_missing (Shape.field?_eq_some hfield.found).1 hfield.required
      (Shape.distinct_of_nodup hnodup) (by
        rw [(Shape.field?_eq_some hfield.found).2]
        exact Shape.not_mem_filter _ _)
    rw [List.filter_cons_of_pos (by simpa using hne), List.filter_nil] at hmembers ⊢
    rw [plainMembers_iff, List.forall_mem_append] at hmembers
    rw [Document.toOption_readModel_between _ [] (by
        rw [List.append_nil]
        exact plainMembers_iff.mpr hmembers.1) (by
        rw [List.append_nil]
        exact hrun), List.append_nil, hmissing]
    rfl

end Records

/-! ## The documents of entities -/

/-- A name that is there gets its new value where it stands. -/
theorem alterEntries_of_mem {α : Type} {name : String} {change : Option α → α} {entries : List (String × α)}
    (h : Increasing entries) {a : α} (ha : (name, a) ∈ entries) :
    alterEntries name change entries
      = entries.map fun entry => if entry.1 = name then (entry.1, change (some entry.2)) else entry := by
  induction entries with
  | nil => cases ha
  | cons entry rest ih =>
    obtain ⟨key, value⟩ := entry
    obtain ⟨hfirst, hrest⟩ := List.pairwise_cons.mp h
    rw [alterEntries, List.map_cons]
    by_cases heq : name = key
    · subst heq
      have hothers : ∀ entry ∈ rest, entry.1 ≠ name := fun entry hentry hname => by
        have hlt : name < entry.1 := hfirst entry hentry
        exact name_lt_irrefl _ (hname ▸ hlt)
      rw [if_pos rfl, if_pos rfl]
      refine congrArg _ ((List.map_id rest).symm.trans (List.map_congr_left fun entry hentry => ?_))
      rw [if_neg (hothers entry hentry)]
      rfl
    · rcases List.mem_cons.mp ha with hhead | ha
      · exact absurd (congrArg Prod.fst hhead) heq
      · have hlt : ¬name < key := fun hlt => name_lt_irrefl name (String.lt_trans hlt (hfirst _ ha))
        rw [if_neg heq, if_neg hlt, if_neg fun h => heq h.symm, ih hrest ha]

section Entities

variable {σ : Type} {shape : Shape σ} {records : NameMap σ} {key name : String} {record : σ}

/-- **A document of entities is read** record by record. -/
theorem readMap_records {entries : List (String × Json)}
    (hreadable : ∀ entry ∈ entries, ∃ members, entry.2 = .object members ∧ shape.Readable 125 members ∧
      shape.Distinct members)
    (h : List.Forall₂ (fun entry (other : String × σ) => entry.1 = other.1 ∧
      (shape.decode .stored entry.2).toOption = some other.2) entries records.entries) :
    (Document.readMap shape (pretty 0 (.object entries))).toOption = some records := by
  have hrecords : entries.mapM (fun entry => (shape.decode .stored entry.2).toOption.map fun r => (entry.1, r))
      = some records.entries := by
    rw [mapM_eq_some_iff]
    refine h.imp ?_
    rintro ⟨name, v⟩ ⟨name', r⟩ ⟨hname, hread⟩
    obtain rfl : name = name' := hname
    exact congrArg (Option.map fun r => (name, r)) hread
  refine (toOption_mapOf 125 hreadable).trans ?_
  rw [hrecords, Option.map_some]
  exact congrArg some (NameMap.ext (NameMap.ofList_entries records.increasing))

/-- A document of entities is refused if one of its records is. -/
theorem readMap_refused {entries : List (String × Json)}
    (hreadable : ∀ entry ∈ entries, ∃ members, entry.2 = .object members ∧ shape.Readable 125 members ∧
      shape.Distinct members)
    {entry : String × Json} (hentry : entry ∈ entries) (hrefused : (shape.decode .stored entry.2).toOption = none) :
    (Document.readMap shape (pretty 0 (.object entries))).toOption = none := by
  refine (toOption_mapOf 125 hreadable).trans ?_
  rw [mapM_eq_none hentry (by rw [hrefused]; rfl)]
  rfl

/-- All records of a map are plain. -/
def PlainRecords (shape : Shape σ) (records : NameMap σ) : Prop :=
  ∀ entry ∈ records.entries, ∀ field ∈ shape.fields, Plain 125 (field.encode entry.2)

/-- **A document of entities whose records are rearranged** is read as it was written. -/
theorem readMap_loosened (h : shape.Independent) (hreturns : shape.codec.Returns) (hplain : PlainRecords shape records)
    {v : Json} (hv : LooseEntries (Document.encodeMap shape records) v) :
    (Document.readMap shape (pretty 0 v)).toOption = some records := by
  generalize hencode : Document.encodeMap shape records = encoded at hv
  obtain ⟨hentries⟩ := hv
  obtain rfl := Json.object.inj hencode
  rw [List.forall₂_map_left_iff] at hentries
  have hchanged := (List.forall₂_and_left _ _).mpr ⟨hplain, hentries⟩
  refine readMap_records (fun entry' hentry' => ?_) (hchanged.imp ?_).flip
  · obtain ⟨⟨name, r⟩, -, hrecord, hname, hloose⟩ := exists_changed hchanged hentry'
    obtain ⟨members, hvalue, hrearranged⟩ := LooseObject.exists_rearranged hloose
    exact ⟨members, hvalue, readable_of_rearranged h.toSound hrecord hrearranged⟩
  · rintro ⟨name, r⟩ entry' ⟨-, hname, hloose⟩
    refine ⟨hname.symm, (decode_loosened h hloose ?_).trans (congrArg Except.toOption (hreturns r))⟩
    rintro field - w rfl
    rfl

/-- The text of a document of entities when a member was deleted from one of its records. -/
theorem encodeMap_deleteMember (hget : records.get? key = some record) :
    deleteMember name [.member key] (Document.encodeMap shape records)
      = .object (records.entries.map fun entry => (entry.1,
          if entry.1 = key then .object (shape.membersBut name record) else shape.encode entry.2)) := by
  rw [Document.encodeMap, deleteMember, List.map_map]
  refine congrArg Json.object (List.map_congr_left fun entry hentry => ?_)
  obtain ⟨other, r⟩ := entry
  by_cases heq : other = key
  · subst heq
    obtain rfl : r = record := by
      rw [NameMap.get?_eq_some_iff.mpr hentry] at hget
      exact Option.some.inj hget
    rw [Function.comp_apply, if_pos rfl, if_pos rfl]
    rfl
  · rw [Function.comp_apply, if_neg heq, if_neg heq]

theorem readable_deleteMember (h : shape.Independent) (hplain : PlainRecords shape records)
    (hget : records.get? key = some record) :
    ∀ entry ∈ records.entries.map fun entry => (entry.1,
        if entry.1 = key then Json.object (shape.membersBut name record) else shape.encode entry.2),
      ∃ members, entry.2 = .object members ∧ shape.Readable 125 members ∧ shape.Distinct members := by
  rw [List.forall_mem_map]
  intro entry hentry
  by_cases heq : entry.1 = key
  · rw [if_pos heq]
    exact ⟨_, rfl, readable_membersBut h.toSound (hplain _ (NameMap.get?_eq_some_iff.mp hget)) name⟩
  · rw [if_neg heq]
    exact ⟨_, rfl, readable_of_rearranged h.toSound (hplain entry hentry) (Rearranged.refl _)⟩

/-- **A document of entities is refused** if one of its records lacks a member that it has to have. -/
theorem readMap_without_required (h : shape.Independent) (hplain : PlainRecords shape records)
    (hget : records.get? key = some record)
    (hrequired : ∃ field, shape.field? name = some field ∧ field.required = true) :
    (Document.readMap shape (pretty 0 (deleteMember name [.member key] (Document.encodeMap shape records)))).toOption
      = none := by
  obtain ⟨field, hfound, hrequired⟩ := hrequired
  obtain ⟨hfield, rfl⟩ := Shape.field?_eq_some hfound
  rw [encodeMap_deleteMember hget]
  refine readMap_refused (readable_deleteMember h hplain hget)
    (List.mem_map_of_mem (NameMap.get?_eq_some_iff.mp hget)) ?_
  rw [if_pos rfl]
  exact Shape.decode_without_required h.toSound hfield hrequired record

/-- **A document of entities is read with a default** if one of its records lacks a member that it may lack. -/
theorem readMap_without_default (h : shape.Independent) (hreturns : shape.codec.Returns)
    (hplain : PlainRecords shape records) (hget : records.get? key = some record) {record' : σ}
    (hdefaults : shape.Defaults name record record') :
    (Document.readMap shape (pretty 0 (deleteMember name [.member key] (Document.encodeMap shape records)))).toOption
      = some (records.insert key record') := by
  have hentries : (records.insert key record').entries
      = records.entries.map fun entry => if entry.1 = key then (entry.1, record') else entry :=
    alterEntries_of_mem records.increasing (NameMap.get?_eq_some_iff.mp hget)
  rw [encodeMap_deleteMember hget]
  refine readMap_records (readable_deleteMember h hplain hget) ?_
  rw [hentries, List.forall₂_map_left_iff, List.forall₂_map_right_iff, List.forall₂_same]
  intro entry hentry
  by_cases heq : entry.1 = key
  · simp only [if_pos heq, true_and]
    exact (Shape.decode_without_default h hdefaults).trans (congrArg Except.toOption (hreturns record'))
  · simp only [if_neg heq, true_and]
    exact congrArg Except.toOption (hreturns entry.2)

end Entities

end ThreatModel
