import Mathlib
import ThreatModel.Proofs.Json.Passed

/-!
# `Proofs.Json.Edited` — values that were edited

A stored value may have been edited: a member was deleted from an object inside it, or the members of an object were put
into another order, with new ones among them. What a record makes of the edited value follows from what its fields make
of their values.

## Contents

* `Step`, `deleteMember` — a value without one of the members inside it.
* `Rearranged`, `Loosened` — a value with members in another order and with further ones.
* `decode_loosened` — the record that is read of such a value.
* `Loosened.plain`, `plain_deleteMember`, `readable_of_rearranged` — it is still read from its text.
-/

namespace ThreatModel
namespace Json

variable {σ : Type}

/-! ## Edits -/

/-- A step from a value to one of its parts. -/
inductive Step where
  | member (name : String)
  | item (index : Nat)
deriving DecidableEq, Repr

/-- The value without the member of the given name in the object that the steps lead to. -/
def deleteMember (name : String) : List Step → Json → Json
  | [], .object members => .object (members.filter fun member => member.1 ≠ name)
  | .member key :: steps, .object members =>
    .object (members.map fun member =>
      if member.1 = key then (member.1, deleteMember name steps member.2) else member)
  | .item index :: steps, .array items => .array (items.modify index fun item => deleteMember name steps item)
  | _, v => v

/-- Members in another order, with further ones of other names among them that hold texts, truth values or null. -/
def Rearranged (members members' : List (String × Json)) : Prop :=
  ∃ extra, members'.Perm (members ++ extra) ∧ ∀ member ∈ extra, member.1 ∉ members.map Prod.fst ∧ member.2.IsSimple

/-- An object whose members are rearranged, after their values were changed in the given way. -/
inductive Loosened (inner : String → Json → Json → Prop) : Json → Json → Prop
  | object {members between members' : List (String × Json)} :
      List.Forall₂ (fun member member' => member.1 = member'.1 ∧ inner member.1 member.2 member'.2) members between →
      Rearranged between members' → Loosened inner (.object members) (.object members')

/-- An object whose members are rearranged. -/
def LooseObject : Json → Json → Prop := Loosened fun _ v v' => v' = v

/-- A record whose members are rearranged, and those of its provenance, too. -/
def LooseRecord : Json → Json → Prop := Loosened fun name v v' => v' = v ∨ name = "source" ∧ LooseObject v v'

/-- An array of records whose members are rearranged. -/
inductive LooseItems : Json → Json → Prop
  | array {items items' : List Json} : List.Forall₂ LooseRecord items items' → LooseItems (.array items) (.array items')

/-- Records under their names whose members are rearranged. -/
inductive LooseEntries : Json → Json → Prop
  | object {entries entries' : List (String × Json)} :
      List.Forall₂ (fun entry entry' => entry.1 = entry'.1 ∧ LooseObject entry.2 entry'.2) entries entries' →
      LooseEntries (.object entries) (.object entries')

/-- Arrays of records whose members are rearranged, as rearranged members of an object. -/
def LooseArrays : Json → Json → Prop := Loosened fun _ v v' => v' = v ∨ LooseItems v v'

/-- Members that stay in their places are rearranged, too. -/
theorem Rearranged.refl (members : List (String × Json)) : Rearranged members members :=
  ⟨[], by rw [List.append_nil], List.forall_mem_nil _⟩

theorem Loosened.refl {inner : String → Json → Json → Prop} (hinner : ∀ name v, inner name v v)
    (members : List (String × Json)) : Loosened inner (.object members) (.object members) :=
  .object (List.forall₂_same.mpr fun _ _ => ⟨rfl, hinner _ _⟩) (Rearranged.refl members)

theorem LooseObject.refl (members : List (String × Json)) : LooseObject (.object members) (.object members) := by
  unfold LooseObject
  exact Loosened.refl (fun _ _ => by rfl) members

/-- A loose object has the members of the object, in some order, and further ones. -/
theorem LooseObject.exists_rearranged {members : List (String × Json)} {v : Json} (h : LooseObject (.object members) v) :
    ∃ members', v = .object members' ∧ Rearranged members members' := by
  obtain ⟨hchanged, hrearranged⟩ := h
  have hsame : List.Forall₂ Eq members _ := hchanged.imp fun _ _ ⟨hname, hvalue⟩ => Prod.ext hname hvalue.symm
  rw [List.forall₂_eq_eq_eq] at hsame
  exact ⟨_, rfl, hsame ▸ hrearranged⟩

/-! ## What is read of an edited value -/

section Read

variable {shape : Shape σ} {inner : String → Json → Json → Prop} {members between members' : List (String × Json)}
  {record : σ}

/-- A member that was changed has a member that it came from. -/
theorem exists_changed {α β : Type} {R : α → β → Prop} {l : List α} {l' : List β} (h : List.Forall₂ R l l') {b : β}
    (hb : b ∈ l') : ∃ a ∈ l, R a b := by
  induction h with
  | nil => cases hb
  | cons hab _ ih =>
    rcases List.mem_cons.mp hb with rfl | hb
    · exact ⟨_, List.mem_cons_self, hab⟩
    · obtain ⟨a, ha, hab⟩ := ih hb
      exact ⟨a, List.mem_cons_of_mem _ ha, hab⟩

theorem names_eq_of_changed
    (h : List.Forall₂ (fun member member' => member.1 = member'.1 ∧ inner member.1 member.2 member'.2) members between) :
    members.map Prod.fst = between.map Prod.fst := by
  induction h with
  | nil => rfl
  | cons hmember _ ih => rw [List.map_cons, List.map_cons, hmember.1, ih]

/-- A record knows just the names of its members. -/
theorem Shape.field?_eq_none (record : σ) {name : String} (hname : name ∉ (shape.members record).map Prod.fst) :
    shape.field? name = none := by
  cases hfield : shape.field? name with
  | none => rfl
  | some field =>
    obtain ⟨hmem, rfl⟩ := Shape.field?_eq_some hfield
    exact absurd (List.mem_map.mpr ⟨_, List.mem_map_of_mem hmem, rfl⟩) hname

/-- **The record of a loosened value** is the one of the value, if each field makes the same of its changed value. -/
theorem decode_loosened (h : shape.Independent) {v : Json} (hv : Loosened inner (shape.encode record) v)
    (hinner : ∀ field ∈ shape.fields, ∀ w, inner field.name (field.encode record) w →
      (field.decode .stored (field.encode record)).toOption = (field.decode .stored w).toOption) :
    (shape.decode .stored v).toOption = (shape.decode .stored (shape.encode record)).toOption := by
  generalize hencode : shape.encode record = encoded at hv
  obtain ⟨hchanged, extra, hperm, hextra⟩ := hv
  obtain rfl := Json.object.inj hencode
  have hnames := names_eq_of_changed hchanged
  have hunknown : ∀ member ∈ extra, shape.field? member.1 = none := by
    intro member hmember
    exact Shape.field?_eq_none record (hnames ▸ (hextra member hmember).1)
  have halike := ((List.forall₂_and_left (shape.members record) _).mpr ⟨fun _ hmember => hmember, hchanged⟩).imp
    fun member member' ⟨hmember, hname, hvalue⟩ => (⟨hname, fun field hfield => by
      obtain ⟨other, hother, rfl⟩ := List.mem_map.mp hmember
      obtain rfl := Option.some.inj ((h.field?_name hother).symm.trans hfield)
      exact hinner other hother _ hvalue⟩ : shape.Alike member member')
  rw [Shape.decode_perm h hperm (Shape.distinct_of_nodup (hnames ▸ h.members_nodup record)) hunknown]
  exact (Shape.decode_congr h.toSound (h.members_nodup record) halike).symm

/-! ## The texts of edited values -/

theorem plainMembers_iff {levels : Nat} : PlainMembers levels members ↔ ∀ member ∈ members, Plain levels member.2 := by
  induction members with
  | nil => simp [PlainMembers]
  | cons member rest ih =>
    obtain ⟨name, v⟩ := member
    rw [PlainMembers, ih, List.forall_mem_cons]

theorem plainItems_iff {levels : Nat} {items : List Json} : PlainItems levels items ↔ ∀ v ∈ items, Plain levels v := by
  induction items with
  | nil => simp [PlainItems]
  | cons v rest ih => rw [PlainItems, ih, List.forall_mem_cons]

/-- A loosened value is plain if the changed values in it are. -/
theorem Loosened.plain {levels : Nat} {v v' : Json} (h : Loosened inner v v') (hplain : Plain (levels + 1) v)
    (hinner : ∀ name w w', inner name w w' → Plain levels w → Plain levels w') : Plain (levels + 1) v' := by
  obtain ⟨hchanged, extra, hperm, hextra⟩ := h
  simp only [Plain, plainMembers_iff] at hplain ⊢
  intro member hmember
  rcases List.mem_append.mp (hperm.mem_iff.mp hmember) with hin | hin
  · obtain ⟨before, hbefore, -, hvalue⟩ := exists_changed hchanged hin
    exact hinner _ _ _ hvalue (hplain before hbefore)
  · exact (hextra member hin).2.plain levels

/-- A plain value is plain without one of the members inside it. -/
theorem plain_deleteMember {name : String} {steps : List Step} {v : Json} {levels : Nat} (h : Plain levels v) :
    Plain levels (deleteMember name steps v) := by
  fun_induction deleteMember name steps v generalizing levels with
  | case1 members =>
    cases levels with
    | zero => exact h
    | succ levels =>
      simp only [Plain, plainMembers_iff] at h ⊢
      exact fun member hmember => h member (List.mem_of_mem_filter hmember)
  | case2 key steps members ih =>
    cases levels with
    | zero => exact h
    | succ levels =>
      simp only [Plain, plainMembers_iff, List.forall_mem_map] at h ⊢
      intro member hmember
      split
      · exact ih member (h member hmember)
      · exact h member hmember
  | case3 index steps items ih =>
    cases levels with
    | zero => exact h
    | succ levels =>
      simp only [Plain, plainItems_iff] at h ⊢
      intro v hv
      obtain ⟨j, hj⟩ := List.mem_iff_getElem?.mp hv
      rw [List.getElem?_modify] at hj
      obtain ⟨item, hitem, rfl⟩ := Option.map_eq_some_iff.mp hj
      have hplain := h item (List.mem_of_getElem? hitem)
      split
      · exact ih item hplain
      · exact hplain
  | case4 => exact h

/-- A record whose members are rearranged can be read from its text. -/
theorem readable_of_rearranged (hsound : shape.Sound) {levels : Nat}
    (hplain : ∀ field ∈ shape.fields, Plain levels (field.encode record))
    (h : Rearranged (shape.members record) members') : shape.Readable levels members' ∧ shape.Distinct members' := by
  obtain ⟨extra, hperm, hextra⟩ := h
  have hunknown : ∀ member ∈ extra, shape.field? member.1 = none := fun member hmember =>
    Shape.field?_eq_none record (hextra member hmember).1
  constructor
  · intro member hmember
    rcases List.mem_append.mp (hperm.mem_iff.mp hmember) with hin | hin
    · obtain ⟨field, hfield, rfl⟩ := List.mem_map.mp hin
      have hfound := hsound.field?_name hfield
      refine ⟨fun other hother => ?_, fun hnone => ?_⟩
      · obtain rfl := Option.some.inj (hfound.symm.trans hother)
        exact ⟨hsound.fits field hfield record, hplain field hfield⟩
      · rw [hfound] at hnone
        cases hnone
    · refine ⟨fun field hfield => ?_, fun _ => (hextra member hin).2⟩
      rw [hunknown member hin] at hfield
      cases hfield
  · refine Shape.Distinct.perm ?_ hperm
    rw [Shape.Distinct, Shape.known_append_unknown hunknown]
    exact Shape.distinct_of_nodup (hsound.members_nodup record)

/-- So can a record without one of its members. -/
theorem readable_membersBut (hsound : shape.Sound) {levels : Nat}
    (hplain : ∀ field ∈ shape.fields, Plain levels (field.encode record)) (name : String) :
    shape.Readable levels (shape.membersBut name record) ∧ shape.Distinct (shape.membersBut name record) := by
  obtain ⟨hreadable, hdistinct⟩ := readable_of_rearranged hsound hplain (Rearranged.refl _)
  exact ⟨fun member hmember => hreadable member (List.mem_of_mem_filter hmember),
    Shape.distinct_of_nodup (Shape.nodup_membersBut hsound name record)⟩

end Read

end Json
end ThreatModel
