import Mathlib
import ThreatModel.Proofs.Document.Deleted
import ThreatModel.Proofs.Store.Torn

/-!
# `Proofs.Store.Tolerant` — stored models that were edited

The documents of a model may be edited between being saved and being loaded. What has to be there is the same in all
records: without it the document is corrupt. Everything else may be left out and then has its empty default, and neither
the order of the members nor further members under other names make a difference.

## Contents

* `Graph.Required`, `Graph.Optional` — the members of the documents that have to be there, and those that need not.
* `Document.Loose` — documents whose members are rearranged.
* `Document.ReadsAs`, `load_of_readsAs` — documents that are read as those of a model.
* `load_of_edited` — what is loaded from an edited store.
-/

namespace ThreatModel

open Json FileTree FileAction
open Directive (Family)

/-! ## Edits of a stored model -/

/-- The members that the documents of a model have to have: the document, the way to the record, and the name. -/
inductive Graph.Required (g : Graph) : Document → List Step → String → Prop
  | control {key name : String} {e : Entity} : g.registry.controls.get? key = some e → name ∈ Entity.required →
      g.Required .controls [.member key] name
  | threat {key name : String} {e : Entity} : g.registry.threats.get? key = some e → name ∈ Entity.required →
      g.Required .threats [.member key] name
  | component {key name : String} {c : Component} : g.registry.components.get? key = some c → name ∈ Entity.required →
      g.Required .components [.member key] name
  | relation {r : Relation} {index : Nat} {name : String} : (g.relations.sequence r.family)[index]? = some r →
      name ∈ r.required → g.Required .model [.member r.family.member, .item index] name
  | sequence {family : Family} : family ∈ Family.stored → g.Required .model [] family.member
  | run : g.Required .model [] "run_id"

/-- The members that the documents of a model may lack, each with the model that has the default in its place. -/
inductive Graph.Optional (g : Graph) : Document → List Step → String → Graph → Prop
  | control {key : String} {e : Entity} {p : String × Entity} : g.registry.controls.get? key = some e →
      p ∈ e.optional → g.Optional .controls [.member key] p.1
        { g with registry := { g.registry with controls := g.registry.controls.insert key p.2 } }
  | threat {key : String} {e : Entity} {p : String × Entity} : g.registry.threats.get? key = some e →
      p ∈ e.optional → g.Optional .threats [.member key] p.1
        { g with registry := { g.registry with threats := g.registry.threats.insert key p.2 } }
  | component {key : String} {c : Component} {p : String × Component} : g.registry.components.get? key = some c →
      p ∈ c.optional → g.Optional .components [.member key] p.1
        { g with registry := { g.registry with components := g.registry.components.insert key p.2 } }
  | relation {r : Relation} {index : Nat} {p : String × Relation} :
      (g.relations.sequence r.family)[index]? = some r → p ∈ r.optional →
      g.Optional .model [.member r.family.member, .item index] p.1
        { g with relations := g.relations.replace index p.2 }
  | source {r : Relation} {index : Nat} {p : String × Relation} :
      (g.relations.sequence r.family)[index]? = some r → p ∈ r.sourceOptional →
      g.Optional .model [.member r.family.member, .item index, .member "source"] p.1
        { g with relations := g.relations.replace index p.2 }

/-- A document in which the members of records, and the own members of the last document, are rearranged. -/
def Document.Loose : Document → Json → Json → Prop
  | .controls | .threats | .components => LooseEntries
  | .model => LooseArrays

namespace Document

/-! ## Documents that are read as those of a model -/

/-- The text of a document is read as its part of a model. -/
def ReadsAs (g : Graph) : Document → Json → Prop
  | .controls, v => (readMap (Entity.shape "Control") (pretty 0 v)).toOption = some g.registry.controls
  | .threats, v => (readMap (Entity.shape "Threat") (pretty 0 v)).toOption = some g.registry.threats
  | .components, v => (readMap Component.shape (pretty 0 v)).toOption = some g.registry.components
  | .model, v => (readModel (pretty 0 v)).toOption = some (g.runId, g.relations)

/-- The text of a document is refused. -/
def Refused : Document → Json → Prop
  | .controls, v => (readMap (Entity.shape "Control") (pretty 0 v)).toOption = none
  | .threats, v => (readMap (Entity.shape "Threat") (pretty 0 v)).toOption = none
  | .components, v => (readMap Component.shape (pretty 0 v)).toOption = none
  | .model, v => (readModel (pretty 0 v)).toOption = none

theorem faultOf_of_some {α : Type} {result : Except Json.Fault α} {a : α} (h : result.toOption = some a) :
    Json.faultOf result = none := by
  cases result with
  | ok b => rfl
  | error fault => cases h

theorem faultOf_of_none {α : Type} {result : Except Json.Fault α} (h : result.toOption = none) :
    ∃ fault, Json.faultOf result = some fault := by
  cases result with
  | ok b => cases h
  | error fault => exact ⟨fault, rfl⟩

theorem ReadsAs.fault? {g : Graph} {document : Document} {v : Json} (h : ReadsAs g document v) :
    document.fault? (pretty 0 v) = none := by
  cases document <;> exact faultOf_of_some h

theorem Refused.fault? {document : Document} {v : Json} (h : Refused document v) :
    ∃ fault, document.fault? (pretty 0 v) = some fault := by
  cases document <;> exact faultOf_of_none h

variable {g : Graph}

/-- The records of a plain model are plain. -/
theorem plainRecords_of_plain (h : g.Plain) :
    PlainRecords (Entity.shape "Control") g.registry.controls ∧ PlainRecords (Entity.shape "Threat") g.registry.threats ∧
      PlainRecords Component.shape g.registry.components :=
  ⟨fun entry hentry => plain_entity _ (h.controls entry hentry), fun entry hentry => plain_entity _ (h.threats entry hentry),
    fun entry hentry => plain_component (h.components entry hentry)⟩

/-- **A document whose members are rearranged** is read as it was written. -/
theorem readsAs_of_loose (hplain : g.Plain) {document : Document} {v : Json}
    (h : document.Loose (document.encode g) v) : ReadsAs g document v := by
  obtain ⟨hcontrols, hthreats, hcomponents⟩ := plainRecords_of_plain hplain
  cases document with
  | controls => exact readMap_loosened (Entity.rows _).independent (Entity.rows _).returns hcontrols h
  | threats => exact readMap_loosened (Entity.rows _).independent (Entity.rows _).returns hthreats h
  | components => exact readMap_loosened Component.rows.independent Component.rows.returns hcomponents h
  | model => exact readModel_loosened hplain h

theorem looseEntries_encodeMap {σ : Type} (shape : Shape σ) (records : NameMap σ) :
    LooseEntries (encodeMap shape records) (encodeMap shape records) := by
  refine .object (List.forall₂_same.mpr fun entry hentry => ⟨rfl, ?_⟩)
  obtain ⟨⟨name, r⟩, -, rfl⟩ := List.mem_map.mp hentry
  exact LooseObject.refl (shape.members r)

/-- A document that was not edited is loose, too. -/
theorem loose_encode (g : Graph) (document : Document) : document.Loose (document.encode g) (document.encode g) := by
  cases document with
  | controls | threats | components => exact looseEntries_encodeMap _ _
  | model => exact Loosened.refl (fun _ _ => Or.inl rfl) _

theorem readsAs_encode (hplain : g.Plain) (document : Document) : ReadsAs g document (document.encode g) :=
  readsAs_of_loose hplain (loose_encode g document)

/-- **A document that lacks a required member is refused.** -/
theorem refused_of_required (hplain : g.Plain) {document : Document} {steps : List Step} {name : String}
    (h : g.Required document steps name) : Refused document (deleteMember name steps (document.encode g)) := by
  obtain ⟨hcontrols, hthreats, hcomponents⟩ := plainRecords_of_plain hplain
  cases h with
  | control hget hname =>
    exact readMap_without_required (Entity.rows _).independent hcontrols hget ((Entity.rows _).exists_required name hname)
  | threat hget hname =>
    exact readMap_without_required (Entity.rows _).independent hthreats hget ((Entity.rows _).exists_required name hname)
  | component hget hname =>
    exact readMap_without_required Component.rows.independent hcomponents hget (Component.rows.exists_required name hname)
  | relation hr hname => exact readModel_record_refused hplain hr (Relation.relation?_without_required hname)
  | sequence hfamily => exact readModel_member_refused hplain (List.mem_cons_of_mem _ (List.mem_map_of_mem hfamily))
  | run => exact readModel_member_refused hplain List.mem_cons_self

/-- **A document that lacks an optional member is read with its default**, and the other documents as before. -/
theorem readsAs_of_optional (hplain : g.Plain) {document : Document} {steps : List Step} {name : String} {g' : Graph}
    (h : g.Optional document steps name g') :
    ReadsAs g' document (deleteMember name steps (document.encode g)) ∧
      ∀ other, other ≠ document → ∀ v, ReadsAs g other v → ReadsAs g' other v := by
  obtain ⟨hcontrols, hthreats, hcomponents⟩ := plainRecords_of_plain hplain
  have hother : ∀ other, other ≠ document → ∀ v, ReadsAs g other v → ReadsAs g' other v := by
    intro other hne v hread
    cases h <;> cases other <;> first | exact hread | exact absurd rfl hne
  refine ⟨?_, hother⟩
  cases h with
  | control hget hp =>
    exact readMap_without_default (Entity.rows _).independent (Entity.rows _).returns hcontrols hget ((Entity.rows _).defaults _ _ hp)
  | threat hget hp =>
    exact readMap_without_default (Entity.rows _).independent (Entity.rows _).returns hthreats hget ((Entity.rows _).defaults _ _ hp)
  | component hget hp =>
    exact readMap_without_default Component.rows.independent Component.rows.returns hcomponents hget (Component.rows.defaults _ _ hp)
  | relation hr hp =>
    exact readModel_record_replaced hplain hr (Relation.family_of_optional hp) (Relation.relation?_without_optional hp)
  | source hr hp =>
    exact readModel_record_replaced hplain hr (Relation.family_of_sourceOptional hp)
      (Relation.relation?_without_source hp)

end Document

namespace Store

variable {s : Store} {g : Graph} {tree after other : FileTree}

/-! ## Stores whose documents were edited -/

/-- In one of two states of the files a document has another value than in the other; the other documents are the
same. -/
structure Edited (s : Store) (after other : FileTree) (document : Document) (v : Json) : Prop where
  edited : other.find? (s.path document) = some (.file v.render.toUTF8)
  kept : ∀ d, d ≠ document → other.find? (s.path d) = after.find? (s.path d)

theorem toOption_readDocument_of_file {α : Type} {document : Document} {v : Json}
    (h : tree.find? (s.path document) = some (.file v.render.toUTF8)) (read : List Char → Except Json.Fault α) :
    (s.readDocument tree document read).toOption = (read (pretty 0 v)).toOption := by
  have htext : v.render.toList = pretty 0 v := by rw [Json.render, String.toList_ofList]
  rw [readDocument_of_file h, fromUTF8?_toUTF8]
  simp only [htext]
  cases read (pretty 0 v) <;> rfl

/-- **A store is loaded** if its documents are read as those of a model. -/
theorem load_of_readsAs
    (h : ∀ d, ∃ v : Json, tree.find? (s.path d) = some (.file v.render.toUTF8) ∧ Document.ReadsAs g d v) :
    s.load tree = .ok (Graph.ofParts g.runId g.registry g.relations) := by
  have hpresent : s.requirePresent tree Document.all = .ok () := by
    refine requirePresent_ok_iff.mpr fun d _ => ?_
    obtain ⟨v, hfile, -⟩ := h d
    exact isFile_iff.mpr ⟨_, hfile⟩
  obtain ⟨controls, hcontrols, hreadControls⟩ := h .controls
  obtain ⟨threats, hthreats, hreadThreats⟩ := h .threats
  obtain ⟨components, hcomponents, hreadComponents⟩ := h .components
  obtain ⟨model, hmodel, hreadModel⟩ := h .model
  have hload : (s.load tree).toOption = some (Graph.ofParts g.runId g.registry g.relations) := by
    unfold load readRegistry
    rw [hpresent]
    simp only [toOption_bind, toOption_ok, Option.bind_some,
      (toOption_readDocument_of_file hcontrols _).trans hreadControls,
      (toOption_readDocument_of_file hthreats _).trans hreadThreats,
      (toOption_readDocument_of_file hcomponents _).trans hreadComponents,
      (toOption_readDocument_of_file hmodel _).trans hreadModel]
    rfl
  cases hresult : s.load tree with
  | error e =>
    rw [hresult] at hload
    cases hload
  | ok loaded =>
    rw [hresult] at hload
    rw [Option.some.inj hload]

/-- Any document of a saved model may be edited. -/
theorem exists_edited (hsave : outcome (s.save g) tree = (.ok (), after)) (document : Document) (v : Json) :
    ∃ other, s.Edited after other document v := by
  obtain ⟨between, place, hwithin, hwritten⟩ := written_of_save hsave
  have hafter := hwithin.mono hwritten.extends
  have hother : (after.set (place ++ [document.fileName]) (.file v.render.toUTF8)).Within s.directory place := by
    refine hafter.mono (extends_set ?_)
    rw [hwritten.content document (Document.mem_all document)]
    exact nofun
  refine ⟨after.set (place ++ [document.fileName]) (.file v.render.toUTF8), ?_, fun d hd => ?_⟩
  · rw [find?_path hother, get?_set after (by simp), if_pos rfl]
  · rw [find?_path hother, find?_path hafter, get?_set after (by simp), if_neg]
    simpa only [List.append_cancel_left_eq, List.cons.injEq, and_true] using mt Document.fileName_injective hd

/-- The documents that a save wrote, as files. -/
theorem find?_of_save (hsave : outcome (s.save g) tree = (.ok (), after)) (d : Document) :
    after.find? (s.path d) = some (.file (d.encode g).render.toUTF8) := by
  obtain ⟨between, place, hwithin, hwritten⟩ := written_of_save hsave
  rw [find?_path (hwithin.mono hwritten.extends)]
  exact hwritten.content d (Document.mem_all d)

/-- **What is loaded from an edited store.** A plain model was saved, and its documents were edited. If one of them lacks
a member that it has to have, the document is corrupt. If it lacks a member that it may lack, the model is loaded with
the default of that member. If the members of records, or those of the last document, were put into another order and
further ones added, the same model is loaded. -/
theorem load_of_edited (hplain : g.Plain) (hsave : outcome (s.save g) tree = (.ok (), after)) (other : FileTree) :
    (∀ document steps name, g.Required document steps name →
      s.Edited after other document (deleteMember name steps (document.encode g)) →
        ∃ fault, s.load other = .error (.corrupt document fault)) ∧
    (∀ document steps name g', g.Optional document steps name g' →
      s.Edited after other document (deleteMember name steps (document.encode g)) →
        s.load other = .ok (Graph.ofParts g'.runId g'.registry g'.relations)) ∧
    ((∀ d, ∃ v, d.Loose (d.encode g) v ∧ other.find? (s.path d) = some (.file v.render.toUTF8)) →
      s.load other = .ok (Graph.ofParts g.runId g.registry g.relations)) := by
  have hkept : ∀ {document v}, s.Edited after other document v → ∀ d, d ≠ document →
      other.find? (s.path d) = some (.file (d.encode g).render.toUTF8) :=
    fun h d hd => (h.kept d hd).trans (find?_of_save hsave d)
  refine ⟨fun document steps name hrequired hedited => ?_, fun document steps name g' hoptional hedited => ?_,
    fun h => ?_⟩
  · obtain ⟨fault, hfault⟩ := (Document.refused_of_required hplain hrequired).fault?
    have htext : ∀ v : Json, v.render.toList = pretty 0 v := fun v => by rw [Json.render, String.toList_ofList]
    have hgood : ∀ d, d ≠ document → s.Readable other d := fun d hd =>
      ⟨_, _, hkept hedited d hd, fromUTF8?_toUTF8 _, by
        rw [htext]
        exact (Document.readsAs_encode hplain d).fault?⟩
    rw [← htext] at hfault
    exact ⟨_, load_error_iff.mpr (refuses_of_defect (Document.mem_all document) (fun d _ => hgood d)
      (.corrupt hedited.edited (fromUTF8?_toUTF8 _) hfault))⟩
  · obtain ⟨hread, hothers⟩ := Document.readsAs_of_optional hplain hoptional
    refine load_of_readsAs fun d => ?_
    by_cases hd : d = document
    · subst hd
      exact ⟨_, hedited.edited, hread⟩
    · exact ⟨_, hkept hedited d hd, hothers d hd _ (Document.readsAs_encode hplain d)⟩
  · refine load_of_readsAs fun d => ?_
    obtain ⟨v, hloose, hfile⟩ := h d
    exact ⟨v, hfile, Document.readsAs_of_loose hplain hloose⟩

/-- A threat loses its name, a review its details, and the members of the last document are turned around. -/
theorem load_of_edited_quoted : ∃ after, quoted.Plain ∧
    outcome ((⟨"threatmodel"⟩ : Store).save quoted) ⟨[(["threatmodel"], .directory)]⟩ = (.ok (), after) ∧
    (∃ other fault, (⟨"threatmodel"⟩ : Store).Edited after other .threats
        (deleteMember "name" [.member "\"Überlauf\"\n"] (Document.threats.encode quoted)) ∧
      (⟨"threatmodel"⟩ : Store).load other = .error (.corrupt .threats fault)) ∧
    (∃ other, (⟨"threatmodel"⟩ : Store).Edited after other .model
        (deleteMember "details" [.member "reviews", .item 0] (Document.model.encode quoted)) ∧
      (⟨"threatmodel"⟩ : Store).load other = .ok { quoted with
        relations.reviews := quoted.relations.reviews.map fun r => { r with details := "" } }) ∧
    ∃ other members, Document.model.encode quoted = .object members ∧
      (⟨"threatmodel"⟩ : Store).Edited after other .model (.object (("note", .null) :: members.reverse)) ∧
      (⟨"threatmodel"⟩ : Store).load other = .ok quoted := by
  have hname : IsName "threatmodel" := ⟨by decide, by decide, by decide, by decide⟩
  have hthere : (⟨[(["threatmodel"], .directory)]⟩ : FileTree).Within "threatmodel" ["threatmodel"] :=
    ⟨by decide, by decide, .down hname rfl (.here _)⟩
  obtain ⟨after, hsave⟩ := exists_save (s := ⟨"threatmodel"⟩) quoted hthere fun d => by
    cases d <;> decide
  refine ⟨after, quoted_plain, hsave, ?_, ?_, ?_⟩
  · obtain ⟨other, hedited⟩ := exists_edited hsave .threats
      (deleteMember "name" [.member "\"Überlauf\"\n"] (Document.threats.encode quoted))
    obtain ⟨fault, hload⟩ := (load_of_edited quoted_plain hsave other).1 _ _ _
      (.threat rfl (List.mem_cons_of_mem _ List.mem_cons_self)) hedited
    exact ⟨other, fault, hedited, hload⟩
  · obtain ⟨other, hedited⟩ := exists_edited hsave .model
      (deleteMember "details" [.member "reviews", .item 0] (Document.model.encode quoted))
    exact ⟨other, hedited, (load_of_edited quoted_plain hsave other).2.1 _ _ _ _
      (.relation (r := .review (quoted.relations.reviews.head (by decide))) rfl List.mem_cons_self) hedited⟩
  · obtain ⟨members, hmembers⟩ : ∃ members, Document.model.encode quoted = .object members := ⟨_, rfl⟩
    obtain ⟨other, hedited⟩ := exists_edited hsave .model (.object (("note", .null) :: members.reverse))
    have hnames : "note" ∉ members.map Prod.fst := by
      rw [← Json.object.inj hmembers]
      decide
    have hloose : Document.model.Loose (Document.model.encode quoted) (.object (("note", .null) :: members.reverse)) := by
      rw [hmembers]
      refine .object (List.forall₂_same.mpr fun _ _ => ⟨rfl, Or.inl rfl⟩) ⟨[("note", .null)], ?_, ?_⟩
      · exact (members.reverse_perm.cons _).trans (List.perm_append_singleton _ _).symm
      · exact List.forall_mem_singleton.mpr ⟨hnames, trivial⟩
    refine ⟨other, members, hmembers, hedited, (load_of_edited quoted_plain hsave other).2.2 fun d => ?_⟩
    by_cases hd : d = .model
    · subst hd
      exact ⟨_, hloose, hedited.edited⟩
    · exact ⟨_, Document.loose_encode quoted d, (hedited.kept d hd).trans (find?_of_save hsave d)⟩

end Store
end ThreatModel
