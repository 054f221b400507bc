import Mathlib
import ThreatModel.Proofs.Json.Record

/-!
# `Proofs.Json.AnyOrder` — records from members in any order

A record is made of the members that it knows. Their order plays no part as long as each field puts its value beside
those of the others; members that the record does not know play none at all. A field that may be left out is then as it
is in a blank record, and a record is refused if it lacks a field that it has to have.

## Contents

* `Field.Commutes`, `Shape.Independent` — fields that do not disturb each other.
* `Shape.fill`, `decode_of_complete`, `decode_of_missing` — a record is filled member by member.
* `decode_congr`, `decode_perm` — values that mean the same, and another order.
* `Shape.Defaults`, `decode_without_default`, `decode_without_required` — records that lack one member.
-/

namespace ThreatModel
namespace Json

variable {σ α β : Type}

/-! ## Fields that do not disturb each other -/

/-- Two fields that come to the same in either order. -/
def Field.Commutes (f g : Field σ) : Prop :=
  ∀ v w put put', f.decode .stored v = .ok put → g.decode .stored w = .ok put' → ∀ r, put (put' r) = put' (put r)

instance : Std.Symm (@Field.Commutes σ) where
  symm _ _ h v w put put' hv hw r := (h w v put' put hw hv r).symm

/-- What a field of a codec puts is a value of the codec. -/
theorem decode_field_ok {codec : Codec α} {name : String} {required : Bool} {get : σ → α} {put : α → σ → σ}
    {v : Json} {change : σ → σ} (h : (codec.field name required get put).decode .stored v = .ok change) :
    ∃ a, codec.decode .stored v = .ok a ∧ change = put a := by
  simp only [Codec.field] at h
  cases ha : codec.decode .stored v with
  | error m =>
    rw [ha] at h
    cases h
  | ok a =>
    rw [ha] at h
    exact ⟨a, rfl, (Except.ok.inj h).symm⟩

/-- A sound shape whose fields commute. -/
structure Shape.Independent (shape : Shape σ) : Prop extends shape.Sound where
  commutes : shape.fields.Pairwise Field.Commutes

namespace Shape

variable {shape : Shape σ} {members members' extra : List (String × Json)} {field : Field σ} {r : σ}

theorem field?_eq_some {name : String} (h : shape.field? name = some field) :
    field ∈ shape.fields ∧ field.name = name :=
  ⟨List.mem_of_find?_eq_some h, by simpa using List.find?_some h⟩

theorem Sound.field?_name (h : shape.Sound) (hfield : field ∈ shape.fields) :
    shape.field? field.name = some field :=
  find?_field h.names hfield

theorem Independent.commutes_of_ne (h : shape.Independent) {f g : Field σ} (hf : f ∈ shape.fields)
    (hg : g ∈ shape.fields) (hne : f.name ≠ g.name) : f.Commutes g :=
  h.commutes.forall hf hg fun heq => hne (congrArg Field.name heq)

/-! ## Filling a record -/

/-- The record, if there is one, with one more member. -/
def fill (shape : Shape σ) (target : Option σ) (member : String × Json) : Option σ :=
  match shape.field? member.1 with
  | none => target
  | some field => (field.decode .stored member.2).toOption.bind fun put => target.map put

/-- The members that a record knows. -/
def known (shape : Shape σ) (members : List (String × Json)) : List (String × Json) :=
  members.filter fun member => (shape.field? member.1).isSome

/-- No known member comes twice. -/
def Distinct (shape : Shape σ) (members : List (String × Json)) : Prop :=
  ((shape.known members).map Prod.fst).Nodup

theorem distinct_of_nodup (h : (members.map Prod.fst).Nodup) : shape.Distinct members :=
  h.sublist (List.filter_sublist.map _)

theorem Distinct.perm (h : shape.Distinct members) (hperm : members'.Perm members) : shape.Distinct members' :=
  ((hperm.filter _).map _).nodup_iff.mpr h

/-- Members that a record does not know add nothing to those that it knows. -/
theorem known_append_unknown (h : ∀ member ∈ extra, shape.field? member.1 = none) :
    shape.known (members ++ extra) = shape.known members := by
  have hnone : shape.known extra = [] := List.filter_eq_nil_iff.mpr fun member hmember => by simp [h member hmember]
  rw [known, List.filter_append]
  exact (congrArg _ hnone).trans (List.append_nil _)

theorem fill_unknown {member : String × Json} (h : shape.field? member.1 = none) (target : Option σ) :
    shape.fill target member = target := by
  unfold fill
  rw [h]

theorem fill_known {member : String × Json} (h : shape.field? member.1 = some field) (target : Option σ) :
    shape.fill target member = (field.decode .stored member.2).toOption.bind fun put => target.map put := by
  unfold fill
  rw [h]

theorem fill_none (member : String × Json) : shape.fill none member = none := by
  unfold fill
  split
  · rfl
  · cases (_ : Except Mismatch (σ → σ)).toOption <;> rfl

theorem foldl_fill_none (members : List (String × Json)) : members.foldl shape.fill none = none := by
  induction members with
  | nil => rfl
  | cons member rest ih => rw [List.foldl_cons, fill_none, ih]

/-- Unknown members are no part of a record. -/
theorem foldl_fill_unknown (h : ∀ member ∈ extra, shape.field? member.1 = none) (target : Option σ) :
    extra.foldl shape.fill target = target := by
  induction extra with
  | nil => rfl
  | cons member rest ih =>
    obtain ⟨hmember, hrest⟩ := List.forall_mem_cons.mp h
    rw [List.foldl_cons, fill_unknown hmember, ih hrest]

/-- Members are read by filling the record with them one after the other. -/
theorem toOption_decodeMembers (hdistinct : shape.Distinct members) (seen : List String) (target : σ)
    (hseen : ∀ member ∈ shape.known members, member.1 ∉ seen) :
    (shape.decodeMembers .stored seen target members).toOption
      = (members.foldl shape.fill (some target)).map fun r =>
          (r, ((shape.known members).map Prod.fst).reverse ++ seen) := by
  induction members generalizing seen target with
  | nil => rfl
  | cons member rest ih =>
    obtain ⟨name, v⟩ := member
    rw [List.foldl_cons]
    cases hfield : shape.field? name with
    | none =>
      have hknown : shape.known ((name, v) :: rest) = shape.known rest :=
        List.filter_cons_of_neg (by simp [hfield])
      rw [Distinct, hknown] at hdistinct
      rw [hknown] at hseen ⊢
      rw [fill_unknown hfield, ← ih hdistinct seen target hseen, decodeMembers]
      simp only [hfield]
    | some field =>
      have hknown : shape.known ((name, v) :: rest) = (name, v) :: shape.known rest :=
        List.filter_cons_of_pos (by simp [hfield])
      rw [Distinct, hknown, List.map_cons, List.nodup_cons] at hdistinct
      rw [hknown] at hseen ⊢
      obtain ⟨hnew, hrest⟩ := List.forall_mem_cons.mp hseen
      obtain ⟨-, rfl⟩ := field?_eq_some hfield
      rw [fill_known hfield, toOption_decodeMembers_cons hfield hnew]
      cases (field.decode .stored v).toOption with
      | none => rw [Option.bind_none, Option.bind_none, foldl_fill_none, Option.map_none]
      | some put =>
        -- The name of the member is seen when the rest is read, and is not among the names of the rest.
        have hlater : ∀ member ∈ shape.known rest, member.1 ∉ field.name :: seen := by
          intro member hmember hin
          rcases List.mem_cons.mp hin with heq | hin
          · exact hdistinct.1 (List.mem_map.mpr ⟨member, hmember, heq⟩)
          · exact hrest member hmember hin
        rw [Option.bind_some, Option.bind_some, Option.map_some, ih hdistinct.2 _ _ hlater]
        simp only [List.map_cons, List.reverse_cons, List.append_assoc, List.singleton_append]

theorem toOption_decode_object (members : List (String × Json)) :
    (shape.decode .stored (.object members)).toOption
      = (shape.decodeMembers .stored [] shape.blank members).toOption.bind fun result =>
          (shape.complete result.1 result.2).toOption := by
  rw [decode, toOption_bind]

/-- **A record is filled with its members**, if it has all that it has to have. -/
theorem decode_of_complete (hsound : shape.Sound) (hdistinct : shape.Distinct members)
    (hall : ∀ field ∈ shape.fields, field.required = true → field.name ∈ members.map Prod.fst) :
    (shape.decode .stored (.object members)).toOption = members.foldl shape.fill (some shape.blank) := by
  have hnone : (shape.fields.find? fun field =>
      field.required && !(((shape.known members).map Prod.fst).reverse ++ []).contains field.name) = none := by
    rw [List.find?_eq_none]
    intro field hfield
    simp only [List.append_nil, Bool.and_eq_true, Bool.not_eq_true', not_and, Bool.not_eq_false, List.contains_iff_mem,
      List.mem_reverse]
    intro hrequired
    obtain ⟨member, hmember, hname⟩ := List.mem_map.mp (hall field hfield hrequired)
    refine List.mem_map.mpr ⟨member, List.mem_filter.mpr ⟨hmember, ?_⟩, hname⟩
    rw [hname, hsound.field?_name hfield]
    rfl
  rw [toOption_decode_object, toOption_decodeMembers hdistinct [] _ fun _ _ => List.not_mem_nil, Option.bind_map]
  cases members.foldl shape.fill (some shape.blank) with
  | none => rfl
  | some r =>
    rw [Option.bind_some, Function.comp_apply, complete, hnone]
    rfl

/-- **A record is refused** without a member that it has to have. -/
theorem decode_of_missing (hfield : field ∈ shape.fields) (hrequired : field.required = true)
    (hdistinct : shape.Distinct members) (hmissing : field.name ∉ members.map Prod.fst) :
    (shape.decode .stored (.object members)).toOption = none := by
  have hfound : (shape.fields.find? fun field =>
      field.required && !(((shape.known members).map Prod.fst).reverse ++ []).contains field.name).isSome = true := by
    rw [List.find?_isSome]
    refine ⟨field, hfield, ?_⟩
    simp only [List.append_nil, hrequired, Bool.true_and, Bool.not_eq_true', ← Bool.not_eq_true, List.contains_iff_mem,
      List.mem_reverse]
    exact fun hin => hmissing ((List.filter_sublist.map _).subset hin)
  obtain ⟨missing, hmissing⟩ := Option.isSome_iff_exists.mp hfound
  rw [toOption_decode_object, toOption_decodeMembers hdistinct [] _ fun _ _ => List.not_mem_nil, Option.bind_map]
  cases members.foldl shape.fill (some shape.blank) with
  | none => rfl
  | some r =>
    rw [Option.bind_some, Function.comp_apply, complete, hmissing]
    rfl

/-- A record is refused if one of its members is. -/
theorem decode_of_refused {member : String × Json} (hmember : member ∈ members)
    (hfield : shape.field? member.1 = some field) (hrefused : (field.decode .stored member.2).toOption = none)
    (hdistinct : shape.Distinct members) : (shape.decode .stored (.object members)).toOption = none := by
  have hfill : members.foldl shape.fill (some shape.blank) = none := by
    obtain ⟨before, after, rfl⟩ := List.append_of_mem hmember
    rw [List.foldl_append, List.foldl_cons, fill_known hfield, hrefused, Option.bind_none, foldl_fill_none]
  rw [toOption_decode_object, toOption_decodeMembers hdistinct [] _ fun _ _ => List.not_mem_nil, hfill]
  rfl

/-- What the fields of a record put when they read what they have written. -/
def Returns (record : σ) (fields : List (Field σ)) (changes : List (σ → σ)) : Prop :=
  List.Forall₂ (fun field change => field.decode .stored (field.encode record) = .ok change) fields changes

theorem foldl_fill_returns (hsound : shape.Sound) {fields : List (Field σ)} {changes : List (σ → σ)}
    (h : Returns r fields changes) (hfields : ∀ field ∈ fields, field ∈ shape.fields) (target : σ) :
    (fields.map fun field => (field.name, field.encode r)).foldl shape.fill (some target)
      = some (changes.foldl (fun r change => change r) target) := by
  induction h generalizing target with
  | nil => rfl
  | cons hfield _ ih =>
    obtain ⟨hfirst, hrest⟩ := List.forall_mem_cons.mp hfields
    rw [List.map_cons, List.foldl_cons, fill_known (hsound.field?_name hfirst), hfield]
    exact ih hrest _

/-- **A record comes back from its members** if the fields put back what they hold. -/
theorem decode_encode (hsound : shape.Sound) {changes : List (σ → σ)} (h : Returns r shape.fields changes) :
    (shape.decode .stored (shape.encode r)).toOption = some (changes.foldl (fun r change => change r) shape.blank) := by
  have hall : ∀ field ∈ shape.fields, field.required = true → field.name ∈ (shape.members r).map Prod.fst :=
    fun field hfield _ => List.mem_map.mpr ⟨_, List.mem_map_of_mem hfield, rfl⟩
  rw [← foldl_fill_returns hsound h fun _ hfield => hfield]
  exact decode_of_complete hsound (distinct_of_nodup (hsound.members_nodup r)) hall

/-! ## Members that come to the same -/

/-- Two members of one name that the record reads alike. -/
def Alike (shape : Shape σ) (member member' : String × Json) : Prop :=
  member.1 = member'.1 ∧ ∀ field, shape.field? member.1 = some field →
    (field.decode .stored member.2).toOption = (field.decode .stored member'.2).toOption

theorem Alike.fill {member member' : String × Json} (h : shape.Alike member member') (target : Option σ) :
    shape.fill target member = shape.fill target member' := by
  obtain ⟨hname, hvalue⟩ := h
  cases hfield : shape.field? member.1 with
  | none => rw [fill_unknown hfield, fill_unknown (hname ▸ hfield)]
  | some field => rw [fill_known hfield, fill_known (hname ▸ hfield), hvalue field hfield]

theorem names_eq_of_alike (h : List.Forall₂ shape.Alike members members') :
    members.map Prod.fst = members'.map Prod.fst := by
  induction h with
  | nil => rfl
  | cons hmember _ ih => rw [List.map_cons, List.map_cons, hmember.1, ih]

/-- Whether all required members are there, or one is missing. -/
theorem complete_or_missing (shape : Shape σ) (members : List (String × Json)) :
    (∀ field ∈ shape.fields, field.required = true → field.name ∈ members.map Prod.fst) ∨
      ∃ field ∈ shape.fields, field.required = true ∧ field.name ∉ members.map Prod.fst := by
  by_cases h : ∃ field ∈ shape.fields, field.required = true ∧ field.name ∉ members.map Prod.fst
  · exact Or.inr h
  · exact Or.inl fun field hfield hrequired => by_contra fun hmissing => h ⟨field, hfield, hrequired, hmissing⟩

theorem foldl_fill_congr (h : List.Forall₂ shape.Alike members members') (target : Option σ) :
    members.foldl shape.fill target = members'.foldl shape.fill target := by
  induction h generalizing target with
  | nil => rfl
  | cons hmember _ ih => rw [List.foldl_cons, List.foldl_cons, hmember.fill, ih]

/-- **Members that are read alike** make the same record. -/
theorem decode_congr (hsound : shape.Sound) (hnames : (members.map Prod.fst).Nodup)
    (h : List.Forall₂ shape.Alike members members') :
    (shape.decode .stored (.object members)).toOption = (shape.decode .stored (.object members')).toOption := by
  have hsame := names_eq_of_alike h
  have hdistinct : shape.Distinct _ := distinct_of_nodup hnames
  have hdistinct' : shape.Distinct members' := distinct_of_nodup (hsame ▸ hnames)
  rcases shape.complete_or_missing members with hall | ⟨field, hfield, hrequired, hmissing⟩
  · rw [decode_of_complete hsound hdistinct hall, decode_of_complete hsound hdistinct' (hsame ▸ hall),
      foldl_fill_congr h]
  · rw [decode_of_missing hfield hrequired hdistinct hmissing,
      decode_of_missing hfield hrequired hdistinct' (hsame ▸ hmissing)]

/-! ## Another order -/

/-- Two members of different names may change places. -/
theorem fill_comm (h : shape.Independent) {member member' : String × Json}
    (hne : ∀ field, shape.field? member.1 = some field → shape.field? member'.1 = some field → member = member')
    (target : Option σ) :
    shape.fill (shape.fill target member) member' = shape.fill (shape.fill target member') member := by
  cases hf : shape.field? member.1 with
  | none => rw [fill_unknown hf, fill_unknown hf]
  | some f =>
    cases hg : shape.field? member'.1 with
    | none => rw [fill_unknown hg, fill_unknown hg]
    | some g =>
      by_cases hname : f.name = g.name
      · have hsame : f = g := by
          have hfound := h.field?_name (field?_eq_some hf).1
          rw [hname, h.field?_name (field?_eq_some hg).1] at hfound
          exact (Option.some.inj hfound).symm
        rw [hne f hf (hsame ▸ hg)]
      · rw [fill_known hf, fill_known hg, fill_known hf, fill_known hg]
        cases hput : f.decode .stored member.2 with
        | error m => cases (g.decode .stored member'.2).toOption <;> rfl
        | ok put =>
          cases hput' : g.decode .stored member'.2 with
          | error m => rfl
          | ok put' =>
            have hcommutes := h.commutes_of_ne (field?_eq_some hf).1 (field?_eq_some hg).1 hname _ _ _ _ hput hput'
            cases target with
            | none => rfl
            | some r => exact congrArg some (hcommutes r).symm

/-- **The order of the members plays no part**, and neither do members that the record does not know. -/
theorem decode_perm (h : shape.Independent) (hperm : members'.Perm (members ++ extra))
    (hdistinct : shape.Distinct members) (hextra : ∀ member ∈ extra, shape.field? member.1 = none) :
    (shape.decode .stored (.object members')).toOption = (shape.decode .stored (.object members)).toOption := by
  have hdistinct' : shape.Distinct members' := by
    refine Distinct.perm ?_ hperm
    rwa [Distinct, known_append_unknown hextra]
  -- A required name is known, so the members that were added have none.
  have hnames : ∀ field ∈ shape.fields, field.name ∈ members'.map Prod.fst ↔ field.name ∈ members.map Prod.fst := by
    intro field hfield
    rw [(hperm.map _).mem_iff, List.map_append, List.mem_append, or_iff_left]
    intro hin
    obtain ⟨member, hmember, hname⟩ := List.mem_map.mp hin
    have hfound := h.field?_name hfield
    rw [← hname, hextra member hmember] at hfound
    cases hfound
  rcases shape.complete_or_missing members with hall | ⟨field, hfield, hrequired, hmissing⟩
  · have hall' : ∀ field ∈ shape.fields, field.required = true → field.name ∈ members'.map Prod.fst :=
      fun field hfield hrequired => (hnames field hfield).mpr (hall field hfield hrequired)
    have hfold : members'.foldl shape.fill (some shape.blank) = (members ++ extra).foldl shape.fill (some shape.blank) := by
      refine hperm.foldl_eq' (fun member hmember member' hmember' target => fill_comm h ?_ target) _
      intro field hf hg
      have hone := List.inj_on_of_nodup_map hdistinct'
      exact hone (List.mem_filter.mpr ⟨hmember, by simp [hf]⟩) (List.mem_filter.mpr ⟨hmember', by simp [hg]⟩)
        ((field?_eq_some hf).2.symm.trans (field?_eq_some hg).2)
    rw [decode_of_complete h.toSound hdistinct hall, decode_of_complete h.toSound hdistinct' hall', hfold,
      List.foldl_append, foldl_fill_unknown hextra]
  · rw [decode_of_missing hfield hrequired hdistinct hmissing,
      decode_of_missing hfield hrequired hdistinct' fun hin => hmissing ((hnames field hfield).mp hin)]

/-! ## Members that are left out -/

/-- One of the members may as well stand in front of the others. -/
theorem perm_cons_filter {member : String × Json} (hmember : member ∈ members) (hnames : (members.map Prod.fst).Nodup) :
    members.Perm (member :: members.filter fun other => other.1 ≠ member.1) := by
  obtain ⟨before, after, rfl⟩ := List.append_of_mem hmember
  rw [List.map_append, List.map_cons, List.nodup_middle, List.nodup_cons, List.mem_append, not_or] at hnames
  obtain ⟨⟨hbefore, hafter⟩, -⟩ := hnames
  have hkept : ∀ others : List (String × Json), member.1 ∉ others.map Prod.fst →
      others.filter (fun other => other.1 ≠ member.1) = others := by
    intro others hothers
    refine List.filter_eq_self.mpr fun other hother => ?_
    exact decide_eq_true fun heq => hothers (List.mem_map.mpr ⟨other, hother, heq⟩)
  rw [List.filter_append, List.filter_cons_of_neg (by simp), hkept before hbefore, hkept after hafter]
  exact List.perm_middle

/-- The members of a record but for the one of a name. -/
def membersBut (shape : Shape σ) (name : String) (record : σ) : List (String × Json) :=
  (shape.members record).filter fun member => member.1 ≠ name

theorem nodup_membersBut (hsound : shape.Sound) (name : String) (record : σ) :
    ((shape.membersBut name record).map Prod.fst).Nodup :=
  (hsound.members_nodup record).sublist (List.filter_sublist.map _)

theorem not_mem_filter (name : String) (members : List (String × Json)) :
    name ∉ (members.filter fun member => member.1 ≠ name).map Prod.fst := by
  intro hin
  obtain ⟨member, hmember, hname⟩ := List.mem_map.mp hin
  simpa [hname] using (List.mem_filter.mp hmember).2

/-- **A record without a required member is refused.** -/
theorem decode_without_required (hsound : shape.Sound) (hfield : field ∈ shape.fields)
    (hrequired : field.required = true) (record : σ) :
    (shape.decode .stored (.object (shape.membersBut field.name record))).toOption = none :=
  decode_of_missing hfield hrequired (distinct_of_nodup (nodup_membersBut hsound _ _)) (not_mem_filter _ _)

/-- Two records that differ in one member that may be left out, which is as in a blank record in the second. -/
structure Defaults (shape : Shape σ) (name : String) (record record' : σ) : Prop where
  field : ∃ field, shape.field? name = some field ∧ field.required = false ∧
    field.encode record' = field.encode shape.blank ∧
    ∃ put, field.decode .stored (field.encode shape.blank) = .ok put ∧ put shape.blank = shape.blank
  others : ∀ other ∈ shape.fields, other.name ≠ name → other.encode record' = other.encode record

/-- A member that has the value of a blank record may as well be left out. -/
theorem decode_cons_default (hsound : shape.Sound) (hfield : field ∈ shape.fields) (hoptional : field.required = false)
    {v : Json} {put : σ → σ} (hdecode : field.decode .stored v = .ok put) (hput : put shape.blank = shape.blank)
    (hnames : (((field.name, v) :: members).map Prod.fst).Nodup) :
    (shape.decode .stored (.object ((field.name, v) :: members))).toOption
      = (shape.decode .stored (.object members)).toOption := by
  have hdistinct : shape.Distinct _ := distinct_of_nodup hnames
  have hdistinct' : shape.Distinct members := distinct_of_nodup (List.nodup_cons.mp hnames).2
  have hfill : shape.fill (some shape.blank) (field.name, v) = some shape.blank := by
    rw [fill_known (hsound.field?_name hfield), hdecode]
    exact congrArg some hput
  rcases shape.complete_or_missing ((field.name, v) :: members) with hall | ⟨other, hother, hrequired, hmissing⟩
  · have hall' : ∀ other ∈ shape.fields, other.required = true → other.name ∈ members.map Prod.fst := by
      intro other hother hrequired
      rcases List.mem_cons.mp (hall other hother hrequired) with hname | hin
      · -- The one member that is left out is not required.
        have hsame : field = other := by
          have hfound := hsound.field?_name hother
          rw [hname, hsound.field?_name hfield] at hfound
          exact Option.some.inj hfound
        rw [← hsame, hoptional] at hrequired
        cases hrequired
      · exact hin
    rw [decode_of_complete hsound hdistinct hall, decode_of_complete hsound hdistinct' hall', List.foldl_cons, hfill]
  · rw [decode_of_missing hother hrequired hdistinct hmissing,
      decode_of_missing hother hrequired hdistinct' fun hin => hmissing (List.mem_cons_of_mem _ hin)]

/-- **A record without a member that may be left out** is the record in which that member has its default. -/
theorem decode_without_default (h : shape.Independent) {name : String} {record record' : σ}
    (hdefaults : shape.Defaults name record record') :
    (shape.decode .stored (.object (shape.membersBut name record))).toOption
      = (shape.decode .stored (shape.encode record')).toOption := by
  obtain ⟨field, hfound, hoptional, hencode, put, hdecode, hput⟩ := hdefaults.field
  obtain ⟨hfield, rfl⟩ := field?_eq_some hfound
  -- The other members say nothing of the one that is left out.
  have hbut : shape.membersBut field.name record' = shape.membersBut field.name record := by
    simp only [membersBut, members, List.filter_map]
    refine List.map_congr_left fun other hother => ?_
    obtain ⟨hother, hname⟩ := List.mem_filter.mp hother
    rw [hdefaults.others other hother (by simpa using hname)]
  have hnames : (((field.name, field.encode shape.blank) :: shape.membersBut field.name record).map Prod.fst).Nodup :=
    List.nodup_cons.mpr ⟨not_mem_filter _ _, nodup_membersBut h.toSound _ _⟩
  have hmoved : (shape.members record').Perm ((field.name, field.encode record') :: shape.membersBut field.name record') :=
    perm_cons_filter (List.mem_map_of_mem (f := fun field => (field.name, field.encode record')) hfield)
      (h.members_nodup record')
  rw [hencode, hbut, ← List.append_nil (_ :: _)] at hmoved
  have hdecoded := decode_perm h hmoved (distinct_of_nodup hnames) (List.forall_mem_nil _)
  rw [decode_cons_default h.toSound hfield hoptional hdecode hput hnames] at hdecoded
  exact hdecoded.symm

end Shape
end Json
end ThreatModel
