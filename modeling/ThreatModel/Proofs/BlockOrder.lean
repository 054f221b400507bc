import Mathlib
import ThreatModel.Proofs.FirstWrite
import ThreatModel.Proofs.Store.Save

/-!
# `Proofs.BlockOrder` — models do not depend on the order of their blocks

Blocks that are parsed one after the other compete for names, and the first one decides every field of a record. As
long as nobody gives a description, all of them offer the same record, so the order of the blocks can be seen only in
the order of the relations.

## Contents

* `record?_parsed` — the record under a name after a list of blocks.
* `Block.Undescribed`, `offer?_of_undescribed` — blocks that declare names without descriptions, which can be decided.
* `ext_record?` — registries in which the same records are found.
* `Recorded.unique` — a directive has one record.
* `Store.exists_save_of_same` — whether a save succeeds does not depend on the model.
* `after_perm` — the model after the same blocks in another order.
-/

namespace ThreatModel

open Directive

/-! ## Records after a list of blocks -/

namespace Graph

/-- A block leaves the run of the registry as it is. -/
theorem runId_step_parse (g : Graph) (block : Block) : (g.step (.parse block)).registry.runId = g.registry.runId := by
  rw [(step_block rfl g).1]
  exact (runId_foldl_apply block.location _ g).1

theorem runId_parsed (g : Graph) (blocks : List Block) :
    (g.after (blocks.map .parse)).registry.runId = g.registry.runId := by
  induction blocks generalizing g with
  | nil => rfl
  | cons block rest ih => rw [List.map_cons, after_cons, ih, runId_step_parse]

/-- Blocks offer their records one after the other, all of them in the run of the registry. -/
theorem record?_parsed (g : Graph) (blocks : List Block) (kind : EntityKind) (name : String) :
    (g.after (blocks.map .parse)).registry.record? kind name
      = (g.registry.record? kind name).or (blocks.findSome? (·.offer? g.registry.runId kind name)) := by
  induction blocks generalizing g with
  | nil => rw [List.map_nil, after_nil, List.findSome?_nil, Option.or_none]
  | cons block rest ih =>
    rw [List.map_cons, after_cons, ih, record?_step, runId_step_parse, Option.or_assoc, findSome?_cons_or]
    rfl

theorem filterMap_block?_parse (blocks : List Block) : (blocks.map Event.parse).filterMap Event.block? = blocks := by
  rw [List.filterMap_map]
  exact List.filterMap_some

end Graph

/-! ## Blocks without descriptions -/

/-- A block whose declarations give no description. -/
def Block.Undescribed (block : Block) : Prop :=
  ∀ o ∈ Directive.parse block.text.toList, ∀ kind name description,
    o.statement ≠ .declaration kind name (some description)

/-- Whether a statement declares a name with a description. -/
def Directive.Statement.isDescribed : Directive.Statement → Bool
  | .declaration _ _ (some _) => true
  | _ => false

theorem Directive.Statement.isDescribed_eq_false_iff {statement : Directive.Statement} :
    statement.isDescribed = false ↔
      ∀ kind name description, statement ≠ .declaration kind name (some description) := by
  constructor
  · rintro h kind name description rfl
    cases h
  · intro h
    unfold isDescribed
    split
    · exact absurd rfl (h _ _ _)
    · rfl

instance : DecidablePred Block.Undescribed := fun block =>
  decidable_of_iff (∀ o ∈ Directive.parse block.text.toList, o.statement.isDescribed = false)
    (forall₂_congr fun _ _ => Directive.Statement.isDescribed_eq_false_iff)

/-- Whether a directive of a block declares a name or states a relation that uses it. -/
def Block.mentions (block : Block) (kind : EntityKind) (name : String) : Bool :=
  (Directive.parse block.text.toList).any fun o => (o.declares? kind name).isSome || o.refersTo kind name

/-- A directive that gives no description offers the record without one. -/
theorem Directive.Occurrence.offer?_of_undescribed {o : Occurrence}
    (h : ∀ kind name description, o.statement ≠ .declaration kind name (some description)) (runId : String)
    (kind : EntityKind) (name : String) :
    o.offer? runId kind name
      = if (o.declares? kind name).isSome || o.refersTo kind name then some (kind.first runId name "") else none := by
  have hdeclares : ∀ description, o.declares? kind name = some description → description = "" := by
    intro description hsome
    unfold declares? at hsome
    split at hsome
    · next other key given heq =>
      cases given with
      | none =>
        split at hsome
        · exact (Option.some.inj hsome).symm
        · cases hsome
      | some given => exact absurd heq (h other key given)
    · cases hsome
  rw [offer?]
  cases hdeclared : o.declares? kind name with
  | none => simp
  | some description =>
    rw [hdeclares description hdeclared]
    simp

/-- **A block without descriptions** offers the same record as every other one that mentions the name. -/
theorem Block.offer?_of_undescribed {block : Block} (h : block.Undescribed) (runId : String) (kind : EntityKind)
    (name : String) :
    block.offer? runId kind name = if block.mentions kind name then some (kind.first runId name "") else none := by
  rw [← findSome?_parse, findSome?_congr fun o ho => Occurrence.offer?_of_undescribed (h o ho) runId kind name,
    findSome?_ite, mentions]

/-! ## Registries -/

namespace Registry

theorem contains_eq_isSome_record? (r : Registry) (kind : EntityKind) (name : String) :
    r.contains kind name = (r.record? kind name).isSome := by
  cases kind <;> simp [contains, entity?, record?]

theorem unplaced_injective : Function.Injective Entity.unplaced := fun _ _ h => congrArg Component.toEntity h

/-- A registry is known by its records and its run. -/
theorem ext_record? {r other : Registry} (hrun : r.runId = other.runId)
    (h : ∀ kind name, r.record? kind name = other.record? kind name) : r = other := by
  have hcomponents : r.components = other.components := NameMap.ext_get? (h .component)
  have hcontrols : r.controls = other.controls :=
    NameMap.ext_get? fun name => Option.map_injective unplaced_injective (h .control name)
  have hthreats : r.threats = other.threats :=
    NameMap.ext_get? fun name => Option.map_injective unplaced_injective (h .threat name)
  cases r
  cases other
  simp only at hrun hcomponents hcontrols hthreats
  rw [hrun, hcomponents, hcontrols, hthreats]

end Registry

/-! ## Relations -/

/-- A directive has one record. -/
theorem Recorded.unique {first second : Relation} {found : Block × Occurrence} (h : Recorded first found)
    (h' : Recorded second found) : first = second := by
  obtain ⟨r, hr, -, rfl⟩ := h
  obtain ⟨other, hother, -, rfl⟩ := h'
  obtain rfl := Statement.relation.inj (hr.symm.trans hother)
  rfl

/-- The records of the same directives in another order are the same records in another order. -/
theorem perm_of_recorded {records others : List Relation} {found found' : List (Block × Occurrence)}
    (hperm : found.Perm found') (h : records.Forall₂ Recorded found) (h' : others.Forall₂ Recorded found') :
    records.Perm others := by
  have hunique : Relator.RightUnique fun (found : Block × Occurrence) record => Recorded record found :=
    fun _ _ _ hfirst hsecond => hfirst.unique hsecond
  exact List.rel_perm_imp hunique (List.Forall₂.flip h) (List.Forall₂.flip h') hperm

/-! ## Saving -/

namespace Store

/-- **Whether a save succeeds** depends on the tree alone. -/
theorem exists_save_of_same {s : Store} {g : Graph} {tree after : FileTree}
    (h : FileAction.outcome (s.save g) tree = (.ok (), after)) (other : Graph) :
    ∃ after', FileAction.outcome (s.save other) tree = (.ok (), after') := by
  obtain ⟨⟨⟩, between, hdirectory, hwrite⟩ := FileAction.outcome_bind_ok.mp h
  obtain ⟨⟨⟩, first, hfirst, -⟩ := FileAction.outcome_bind_ok.mp (id hwrite)
  obtain ⟨place, hwithin, -⟩ := outcome_writeDocument_ok.mp hfirst
  have hnodup : Document.all.Nodup := by decide
  have hwritten := written_of_forM hnodup hwithin hwrite
  obtain ⟨after', hafter'⟩ := exists_forM (fun d => d.render other) hnodup hwithin hwritten.free
  exact ⟨after', FileAction.outcome_bind_ok.mpr ⟨(), between, hdirectory, hafter'⟩⟩

/-- The documents that hold entities are those of the registry. -/
theorem render_of_registry {g other : Graph} (h : g.registry = other.registry) {document : Document}
    (hlibrary : document ∈ Document.library) : document.render g = document.render other := by
  simp only [Document.library, List.mem_cons, List.not_mem_nil, or_false] at hlibrary
  rcases hlibrary with rfl | rfl | rfl <;> simp only [Document.render, Document.encode, h]

end Store

/-! ## Blocks in another order -/

namespace Graph

/-- **The order of blocks does not matter** for the names that are registered, nor for the relations of each sort as
long as their order does not count. If no declaration gives a description it does not matter for the records either,
and saving writes the same documents of entities. -/
theorem after_perm (g : Graph) {blocks others : List Block} (h : blocks.Perm others) :
    (∀ kind name, (g.after (blocks.map .parse)).registry.contains kind name
      = (g.after (others.map .parse)).registry.contains kind name) ∧
    (∀ family ∈ Family.relations, ((g.after (blocks.map .parse)).relations.sequence family).Perm
      ((g.after (others.map .parse)).relations.sequence family)) ∧
    ((∀ block ∈ blocks, block.Undescribed) →
      (g.after (blocks.map .parse)).registry = (g.after (others.map .parse)).registry ∧
      ∀ (s : Store) (tree after : FileTree),
        FileAction.outcome (s.save (g.after (blocks.map .parse))) tree = (.ok (), after) →
        ∃ after', FileAction.outcome (s.save (g.after (others.map .parse))) tree = (.ok (), after') ∧
          ∀ document ∈ Document.library, ∃ content, after.readBytes (s.path document) = .ok content ∧
            after'.readBytes (s.path document) = .ok content) := by
  refine ⟨fun kind name => ?_, fun family hfamily => ?_, fun hundescribed => ?_⟩
  · -- A name is registered if it was before or if any block offers a record under it.
    rw [Registry.contains_eq_isSome_record?, Registry.contains_eq_isSome_record?, record?_parsed, record?_parsed,
      Option.isSome_or, Option.isSome_or, List.isSome_findSome?, List.isSome_findSome?, h.any_eq]
  · obtain ⟨added, heq, hadded⟩ := Grows.after hfamily g (blocks.map .parse)
    obtain ⟨added', heq', hadded'⟩ := Grows.after hfamily g (others.map .parse)
    rw [filterMap_block?_parse] at hadded hadded'
    rw [heq, heq']
    exact (perm_of_recorded (h.flatMap_right _) hadded hadded').append_left _
  · have hoffered : ∀ (blocks : List Block), (∀ block ∈ blocks, block.Undescribed) → ∀ kind name,
        blocks.findSome? (·.offer? g.registry.runId kind name)
          = if blocks.any (·.mentions kind name) then some (kind.first g.registry.runId name "") else none := by
      intro blocks hblocks kind name
      rw [findSome?_congr fun block hblock => Block.offer?_of_undescribed (hblocks block hblock) _ kind name,
        findSome?_ite]
    have hregistry : (g.after (blocks.map .parse)).registry = (g.after (others.map .parse)).registry := by
      refine Registry.ext_record? ?_ fun kind name => ?_
      · rw [runId_parsed, runId_parsed]
      · rw [record?_parsed, record?_parsed, hoffered blocks hundescribed, hoffered others fun block hblock =>
          hundescribed block (h.mem_iff.mpr hblock), h.any_eq]
    refine ⟨hregistry, fun s tree after hsave => ?_⟩
    obtain ⟨after', hsave'⟩ := Store.exists_save_of_same hsave (g.after (others.map .parse))
    refine ⟨after', hsave', fun document hdocument => ⟨_, Store.readBytes_of_save hsave document, ?_⟩⟩
    rw [Store.readBytes_of_save hsave' document, Store.render_of_registry hregistry hdocument]

/-- Two blocks that register the same component, one by a declaration and one by a review. -/
theorem after_perm_declared_and_reviewed :
    let declaring : Block := ⟨"@component Api\n@mitigates Api against SQLi with WAF", some ⟨"a.rs", 3, ""⟩⟩
    let reviewing : Block := ⟨"@review Api soon", some ⟨"b.rs", 7, ""⟩⟩
    let first := (empty "run 1").after ([declaring, reviewing].map .parse)
    let second := (empty "run 1").after ([reviewing, declaring].map .parse)
    [declaring, reviewing].Perm [reviewing, declaring] ∧ (∀ block ∈ [declaring, reviewing], block.Undescribed) ∧
      first.registry.contains .component "Api" = true ∧ first.registry = second.registry ∧
      (∀ family ∈ Family.relations, (first.relations.sequence family).Perm (second.relations.sequence family)) ∧
      ∃ after after', FileAction.outcome ((⟨"threatmodel"⟩ : Store).save first) ⟨[(["threatmodel"], .directory)]⟩
          = (.ok (), after) ∧
        FileAction.outcome ((⟨"threatmodel"⟩ : Store).save second) ⟨[(["threatmodel"], .directory)]⟩
          = (.ok (), after') ∧
        ∀ document ∈ Document.library, ∃ content,
          after.readBytes ((⟨"threatmodel"⟩ : Store).path document) = .ok content ∧
            after'.readBytes ((⟨"threatmodel"⟩ : Store).path document) = .ok content := by
  intro declaring reviewing first second
  have hperm : [declaring, reviewing].Perm [reviewing, declaring] := List.Perm.swap _ _ _
  have hundescribed : ∀ block ∈ [declaring, reviewing], block.Undescribed := by decide +kernel
  obtain ⟨-, hrelations, hrecords⟩ := after_perm (empty "run 1") hperm
  obtain ⟨hregistry, hsave⟩ := hrecords hundescribed
  have hthere : (⟨[(["threatmodel"], .directory)]⟩ : FileTree).Within "threatmodel" ["threatmodel"] :=
    ⟨by decide, by decide, .down ⟨by decide, by decide, by decide, by decide⟩ rfl (.here _)⟩
  obtain ⟨after, hafter⟩ := Store.exists_save (s := ⟨"threatmodel"⟩) first hthere fun d => by cases d <;> decide
  obtain ⟨after', hafter', hsame⟩ := hsave _ _ _ hafter
  exact ⟨hperm, hundescribed, by decide +kernel, hregistry, hrelations, after, after', hafter, hafter', hsame⟩

end Graph
end ThreatModel
