import Mathlib
import ThreatModel.Json.Shape
import ThreatModel.Proofs.FileTree
import ThreatModel.Proofs.Json.Value
import ThreatModel.Proofs.NameMap

/-!
# `Proofs.Json.Numbers` — the numbers in a value

A value is printed and read back as it was, but for its numbers. A whole number that was read from a text has 64 bits,
with or without a sign, so it is read again as it is; one that does not fit would become a floating point number.

## Contents

* `numbers`, `numbers_canonical` — the numbers in a value.
* `Number.Stays`, `reread_eq` — what is read back is what was printed, if its numbers stay.
* `Reader.Delivers` — what a reader gives has a property.
* `Number.InRange`, `delivers_number`, `delivers_value` — the numbers that are read from a text.
* `Shape.Keeps`, `delivers_record`, `delivers_mapOf` — records that are read from a text.
-/

namespace ThreatModel
namespace Json

/-! ## The numbers in a value -/

mutual

/-- The numbers in a value. -/
def numbers : Json → List Number
  | .number n => [n]
  | .array items => itemNumbers items
  | .object members => memberNumbers members
  | .null | .bool _ | .string _ => []

/-- The numbers in the items of an array. -/
def itemNumbers : List Json → List Number
  | [] => []
  | item :: rest => numbers item ++ itemNumbers rest

/-- The numbers in the values of the members of an object. -/
def memberNumbers : List (String × Json) → List Number
  | [] => []
  | (_, value) :: rest => numbers value ++ memberNumbers rest

end

theorem mem_itemNumbers {n : Number} {items : List Json} :
    n ∈ itemNumbers items ↔ ∃ item ∈ items, n ∈ item.numbers := by
  induction items with
  | nil => simp [itemNumbers]
  | cons item rest ih => rw [itemNumbers, List.mem_append, ih, List.exists_mem_cons_iff]

theorem mem_memberNumbers {n : Number} {members : List (String × Json)} :
    n ∈ memberNumbers members ↔ ∃ member ∈ members, n ∈ member.2.numbers := by
  induction members with
  | nil => simp [memberNumbers]
  | cons member rest ih => rw [memberNumbers, List.mem_append, ih, List.exists_mem_cons_iff]

mutual

/-- The canonical form of a value has no other numbers. -/
theorem numbers_canonical : ∀ (v : Json), ∀ n ∈ (canonical v).numbers, n ∈ v.numbers
  | .null, _, h | .bool _, _, h | .number _, _, h | .string _, _, h => by simpa only [canonical] using h
  | .array items, n, h => by
    simp only [canonical, numbers] at h ⊢
    exact itemNumbers_canonical items n h
  | .object members, n, h => by
    simp only [canonical, numbers] at h ⊢
    exact memberNumbers_canonical members n h

theorem itemNumbers_canonical : ∀ (items : List Json), ∀ n ∈ itemNumbers (canonicalItems items), n ∈ itemNumbers items
  | [], _, h => by simpa only [canonicalItems] using h
  | item :: rest, n, h => by
    simp only [canonicalItems, itemNumbers, List.mem_append] at h ⊢
    exact h.imp (numbers_canonical item n) (itemNumbers_canonical rest n)

theorem memberNumbers_canonical : ∀ (members : List (String × Json)),
    ∀ n ∈ memberNumbers (canonicalMembers members), n ∈ memberNumbers members
  | [], _, h => by simpa only [canonicalMembers] using h
  | (name, value) :: rest, n, h => by
    -- Each member comes from one of the list: of those under one name the last one counts.
    have hvalues : ∀ member ∈ canonicalMembers ((name, value) :: rest),
        ∀ n ∈ member.2.numbers, n ∈ memberNumbers ((name, value) :: rest) := by
      rw [canonicalMembers, memberNumbers]
      refine forall_alterEntries (p := fun v : Json => ∀ n ∈ v.numbers, n ∈ value.numbers ++ memberNumbers rest)
        (fun n hn => ?_) (fun _ h => h) fun member hmember n hn => ?_
      · exact List.mem_append_left _ (numbers_canonical value n hn)
      · have hrest := memberNumbers_canonical rest n (mem_memberNumbers.mpr ⟨member, hmember, hn⟩)
        exact List.mem_append_right _ hrest
    obtain ⟨member, hmember, hn⟩ := mem_memberNumbers.mp h
    exact hvalues member hmember n hn

end

end Json

/-! ## Numbers that stay -/

/-- A number that is read back as it was printed, if it is read back at all. -/
def Number.Stays (n : Number) : Prop := ∀ m, n.reread = some m → m = n

/-- A whole number that is kept exactly when it is read: one of 64 bits, with or without a sign. Floating point numbers
have no such bounds. -/
def Number.InRange : Number → Prop
  | .whole value => -(signBit : Int) ≤ value ∧ value ≤ Json.Reader.maxWhole
  | .float _ => True

/-- Whole numbers in range stay. -/
theorem Number.InRange.stays {n : Number} (h : n.InRange) (hwhole : ∀ bits, n ≠ .float bits) : n.Stays := by
  intro m hm
  cases n with
  | whole value =>
    rw [Json.reread_whole h.1 h.2] at hm
    exact (Option.some.inj hm).symm
  | float bits => exact absurd rfl (hwhole bits)

namespace Json

open FileTree (bind_ok)

mutual

/-- **What is read back is what was printed**, if the numbers in it stay. -/
theorem reread_eq : ∀ {v w : Json} {levels : Nat}, (∀ n ∈ v.numbers, n.Stays) → reread levels v = some w → w = v
  | .null, _, _, _, h | .bool _, _, _, _, h | .string _, _, _, _, h => by
    simp only [reread] at h
    exact (Option.some.inj h).symm
  | .number n, _, _, hstays, h => by
    simp only [reread] at h
    obtain ⟨m, hm, rfl⟩ := Option.map_eq_some_iff.mp h
    rw [hstays n List.mem_cons_self m hm]
  | .array items, _, 0, _, h | .object members, _, 0, _, h => by
    simp only [reread] at h
    cases h
  | .array items, _, levels + 1, hstays, h => by
    simp only [reread] at h
    obtain ⟨others, hothers, rfl⟩ := Option.map_eq_some_iff.mp h
    rw [rereadItems_eq hstays hothers]
  | .object members, _, levels + 1, hstays, h => by
    simp only [reread] at h
    obtain ⟨others, hothers, rfl⟩ := Option.map_eq_some_iff.mp h
    rw [rereadMembers_eq hstays hothers]

theorem rereadItems_eq : ∀ {items others : List Json} {levels : Nat}, (∀ n ∈ itemNumbers items, n.Stays) →
    rereadItems levels items = some others → others = items
  | [], _, _, _, h => (Option.some.inj h).symm
  | item :: rest, _, levels, hstays, h => by
    rw [itemNumbers, List.forall_mem_append] at hstays
    rw [rereadItems] at h
    obtain ⟨first, hfirst, h⟩ := Option.bind_eq_some_iff.mp h
    obtain ⟨more, hmore, h⟩ := Option.bind_eq_some_iff.mp h
    rw [← Option.some.inj h, reread_eq hstays.1 hfirst, rereadItems_eq hstays.2 hmore]

theorem rereadMembers_eq : ∀ {members others : List (String × Json)} {levels : Nat},
    (∀ n ∈ memberNumbers members, n.Stays) → rereadMembers levels members = some others → others = members
  | [], _, _, _, h => (Option.some.inj h).symm
  | (name, value) :: rest, _, levels, hstays, h => by
    rw [memberNumbers, List.forall_mem_append] at hstays
    rw [rereadMembers] at h
    obtain ⟨first, hfirst, h⟩ := Option.bind_eq_some_iff.mp h
    obtain ⟨more, hmore, h⟩ := Option.bind_eq_some_iff.mp h
    rw [← Option.some.inj h, reread_eq hstays.1 hfirst, rereadMembers_eq hstays.2 hmore]

end

/-! ## What readers give -/

namespace Reader

variable {α σ : Type}

/-- What a reader gives has a property, wherever it reads. -/
def Delivers (p : α → Prop) (reader : Reader α) : Prop := ∀ c a last, reader c = .ok (a, last) → p a

theorem absorb_le {n : Nat} (h : n ≤ maxWhole) (digits : List Char) : (absorb n digits).1 ≤ maxWhole := by
  induction digits generalizing n with
  | nil => exact h
  | cons d rest ih =>
    simp only [absorb]
    split
    · exact h
    · next hmore => exact ih (Nat.le_of_not_lt hmore)

theorem delivers_floatOf (negative : Bool) (significand : Nat) (exponent : Int) :
    Delivers Number.InRange (floatOf negative significand exponent) := by
  intro c n last h
  obtain ⟨bits, rfl⟩ := exists_bits_of_floatOf h
  trivial

theorem delivers_exponentPart (negative : Bool) (significand : Nat) (start : Int) :
    Delivers Number.InRange (exponentPart negative significand start) := by
  intro c n last h
  unfold exponentPart at h
  simp only at h
  split at h
  · cases h
  · split at h
    · cases h
    · split at h
      · exact delivers_floatOf _ _ _ _ _ _ h
      · -- An exponent that is too large is a fault, or leaves a zero, whatever its sign.
        split at h
        all_goals
          split at h
          · cases h
          · exact delivers_floatOf _ _ _ _ _ _ h

theorem delivers_fractionPart (negative : Bool) (significand : Nat) (start : Int) :
    Delivers Number.InRange (fractionPart negative significand start) := by
  intro c n last h
  unfold fractionPart at h
  simp only at h
  split at h
  · cases h
  · split at h
    · exact delivers_exponentPart _ _ _ _ _ _ h
    · exact delivers_exponentPart _ _ _ _ _ _ h
    · exact delivers_floatOf _ _ _ _ _ _ h

theorem delivers_afterWhole (negative : Bool) {significand : Nat} (left : Nat) (hfits : significand ≤ maxWhole) :
    Delivers Number.InRange (afterWhole negative significand left) := by
  intro c n last h
  unfold afterWhole at h
  split at h
  · exact delivers_fractionPart _ _ _ _ _ _ h
  · exact delivers_exponentPart _ _ _ _ _ _ h
  · exact delivers_exponentPart _ _ _ _ _ _ h
  · split at h
    · exact delivers_floatOf _ _ _ _ _ _ h
    · split at h
      · rw [← (Prod.mk.inj (Except.ok.inj h)).1]
        constructor <;> omega
      · split at h
        · exact delivers_floatOf _ _ _ _ _ _ h
        · next hsmall =>
          rw [← (Prod.mk.inj (Except.ok.inj h)).1]
          simp only [Bool.or_eq_true, decide_eq_true_eq, not_or] at hsmall
          constructor <;> omega

/-- **The numbers that are read** are in range. -/
theorem delivers_number : Delivers Number.InRange number := by
  have hunsigned : ∀ negative, Delivers Number.InRange (unsignedNumber negative) := by
    intro negative c n last h
    unfold unsignedNumber at h
    simp only at h
    split at h
    · cases h
    · split at h
      · cases h
      · split at h
        · split at h
          · cases h
          · exact delivers_afterWhole _ _ (Nat.zero_le _) _ _ _ h
        · exact delivers_afterWhole _ _ (absorb_le (Nat.zero_le _) _) _ _ _ h
  intro c n last h
  unfold number at h
  split at h
  · exact hunsigned true _ _ _ h
  · exact hunsigned false _ _ _ h

/-! ### Arrays and objects -/

theorem delivers_sequence {p : α → Prop} {item : Reader α} (h : Delivers p item) : ∀ fuel first,
    Delivers (fun items => ∀ a ∈ items, p a) (sequence item fuel first) := by
  intro fuel
  induction fuel with
  | zero =>
    intro first c items last hitems
    cases hitems
  | succ fuel ih =>
    intro first c items last hitems
    rw [sequence] at hitems
    obtain ⟨⟨start, more⟩, -, hitems⟩ := bind_ok.mp hitems
    cases more with
    | false =>
      rw [← (Prod.mk.inj (Except.ok.inj hitems)).1]
      exact List.forall_mem_nil _
    | true =>
      obtain ⟨⟨head, between⟩, hhead, hitems⟩ := bind_ok.mp hitems
      obtain ⟨⟨tail, behind⟩, htail, hitems⟩ := bind_ok.mp hitems
      rw [← (Prod.mk.inj (Except.ok.inj hitems)).1]
      exact List.forall_mem_cons.mpr ⟨h _ _ _ hhead, ih false _ _ _ htail⟩

theorem delivers_entries {inv : σ → Prop} {member : σ → String → Reader σ}
    (h : ∀ state name, inv state → Delivers inv (member state name)) : ∀ fuel first state, inv state →
      Delivers inv (entries member fuel first state) := by
  intro fuel
  induction fuel with
  | zero =>
    intro first state _ c result last hresult
    cases hresult
  | succ fuel ih =>
    intro first state hstate c result last hresult
    rw [entries] at hresult
    obtain ⟨⟨start, more⟩, -, hresult⟩ := bind_ok.mp hresult
    cases more with
    | false =>
      rw [← (Prod.mk.inj (Except.ok.inj hresult)).1]
      exact hstate
    | true =>
      obtain ⟨⟨name, between⟩, -, hresult⟩ := bind_ok.mp hresult
      obtain ⟨⟨next, behind⟩, hnext, hresult⟩ := bind_ok.mp hresult
      exact ih false next (h state name hstate _ _ _ hnext) _ _ _ hresult

theorem delivers_keep {p : α → Prop} {item : Reader α} (h : Delivers p item) {before : List (String × α)}
    (hbefore : ∀ member ∈ before, p member.2) (name : String) :
    Delivers (fun members => ∀ member ∈ members, p member.2) (keep item before name) := by
  intro c members last hmembers
  obtain ⟨start, -, hmembers⟩ := bind_ok.mp hmembers
  obtain ⟨⟨value, behind⟩, hvalue, hmembers⟩ := bind_ok.mp hmembers
  rw [← (Prod.mk.inj (Except.ok.inj hmembers)).1]
  exact List.forall_mem_cons.mpr ⟨h _ _ _ hvalue, hbefore⟩

end Reader

/-! ### Values -/

/-- The whole numbers in a value are in range. -/
def InRange (v : Json) : Prop := ∀ n ∈ v.numbers, n.InRange

theorem inRange_array {items : List Json} : InRange (.array items) ↔ ∀ item ∈ items, item.InRange := by
  simp only [InRange, numbers, mem_itemNumbers]
  exact ⟨fun h item hitem n hn => h n ⟨item, hitem, hn⟩, fun h n ⟨item, hitem, hn⟩ => h item hitem n hn⟩

theorem inRange_object {members : List (String × Json)} :
    InRange (.object members) ↔ ∀ member ∈ members, member.2.InRange := by
  simp only [InRange, numbers, mem_memberNumbers]
  exact ⟨fun h member hmember n hn => h n ⟨member, hmember, hn⟩,
    fun h n ⟨member, hmember, hn⟩ => h member hmember n hn⟩

namespace Reader

/-- What is read between the brackets of an object. -/
theorem delivers_members {item : Reader Json} (h : Delivers InRange item) {fuel : Nat} {c last : Cursor}
    {members : List (String × Json)} (hmembers : entries (keep item) fuel true [] c = .ok (members, last)) :
    InRange (.object members.reverse) := by
  have hall := delivers_entries (fun before name hbefore => delivers_keep h hbefore name) fuel true []
    (List.forall_mem_nil _) c members last hmembers
  exact inRange_object.mpr fun member hmember => hall member (List.mem_reverse.mp hmember)

theorem delivers_value_of {levels : Nat} (hnested : ∀ lower, levels = lower + 1 → Delivers InRange (value lower)) :
    Delivers InRange (value levels) := by
  have hnone : ∀ {v : Json}, v.numbers = [] → v.InRange := fun hv n hn => absurd (hv ▸ hn) List.not_mem_nil
  intro c v last h
  unfold value at h
  simp only at h
  split at h
  · cases h
  · obtain ⟨after, -, h⟩ := bind_ok.mp h
    rw [← (Prod.mk.inj (Except.ok.inj h)).1]
    exact hnone rfl
  · obtain ⟨after, -, h⟩ := bind_ok.mp h
    rw [← (Prod.mk.inj (Except.ok.inj h)).1]
    exact hnone rfl
  · obtain ⟨after, -, h⟩ := bind_ok.mp h
    rw [← (Prod.mk.inj (Except.ok.inj h)).1]
    exact hnone rfl
  · obtain ⟨⟨s, after⟩, -, h⟩ := bind_ok.mp h
    rw [← (Prod.mk.inj (Except.ok.inj h)).1]
    exact hnone rfl
  · cases levels with
    | zero => cases h
    | succ lower =>
      obtain ⟨⟨items, after⟩, hitems, h⟩ := bind_ok.mp h
      rw [← (Prod.mk.inj (Except.ok.inj h)).1]
      exact inRange_array.mpr (delivers_sequence (hnested lower rfl) _ _ _ _ _ hitems)
  · cases levels with
    | zero => cases h
    | succ lower =>
      obtain ⟨⟨members, after⟩, hmembers, h⟩ := bind_ok.mp h
      rw [← (Prod.mk.inj (Except.ok.inj h)).1]
      exact delivers_members (hnested lower rfl) hmembers
  · split at h
    · obtain ⟨⟨n, after⟩, hn, h⟩ := bind_ok.mp h
      rw [← (Prod.mk.inj (Except.ok.inj h)).1]
      exact List.forall_mem_singleton.mpr (delivers_number _ _ _ hn)
    · cases h

/-- **The values that are read** hold numbers in range only. -/
theorem delivers_value (levels : Nat) : Delivers InRange (value levels) := by
  induction levels with
  | zero => exact delivers_value_of fun lower hlower => absurd hlower.symm (Nat.succ_ne_zero lower)
  | succ levels ih =>
    refine delivers_value_of fun lower hlower => ?_
    obtain rfl := Nat.succ.inj hlower
    exact ih

/-- Values that look as a guide says are values. -/
theorem delivers_guided (guide : Guide) (levels : Nat) : Delivers InRange (guided guide levels) := by
  induction guide generalizing levels with
  | any =>
    intro c v last h
    unfold guided at h
    simp only at h
    split at h
    · cases h
    · exact delivers_value levels _ _ _ h
  | text =>
    intro c v last h
    unfold guided at h
    simp only at h
    split at h
    · cases h
    · split at h
      · obtain ⟨⟨s, after⟩, -, h⟩ := bind_ok.mp h
        rw [← (Prod.mk.inj (Except.ok.inj h)).1]
        exact fun n hn => absurd hn List.not_mem_nil
      · cases h
  | list item ih =>
    intro c v last h
    unfold guided at h
    simp only at h
    split at h
    · cases h
    · split at h
      · cases levels with
        | zero => cases h
        | succ levels =>
          obtain ⟨⟨items, after⟩, hitems, h⟩ := bind_ok.mp h
          rw [← (Prod.mk.inj (Except.ok.inj h)).1]
          exact inRange_array.mpr (delivers_sequence (ih levels) _ _ _ _ _ hitems)
      · cases h
  | members =>
    intro c v last h
    unfold guided at h
    simp only at h
    split at h
    · cases h
    · split at h
      · cases levels with
        | zero => cases h
        | succ levels =>
          obtain ⟨⟨members, after⟩, hmembers, h⟩ := bind_ok.mp h
          rw [← (Prod.mk.inj (Except.ok.inj h)).1]
          exact delivers_members (delivers_value levels) hmembers
      · cases h

end Reader

/-! ### Records -/

section Record

variable {α σ : Type} {shape : Shape σ} {p : σ → Prop}

/-- A field takes a property from no record, as long as what it reads has its numbers in range. -/
def Field.Keeps (field : Field σ) (p : σ → Prop) : Prop :=
  ∀ v put, v.InRange → field.decode .stored v = .ok put → ∀ r, p r → p (put r)

/-- A property that a record has from the start and that no field takes from it. -/
structure Shape.Keeps (shape : Shape σ) (p : σ → Prop) : Prop where
  blank : p shape.blank
  fields : ∀ field ∈ shape.fields, field.Keeps p

/-- A field keeps what putting its value keeps. -/
theorem keeps_field {codec : Codec α} {name : String} {required : Bool} {get : σ → α} {put : α → σ → σ}
    (h : ∀ v a, v.InRange → codec.decode .stored v = .ok a → ∀ r, p r → p (put a r)) :
    (codec.field name required get put).Keeps p := by
  intro v change hv hchange r hr
  unfold Codec.field at hchange
  simp only at hchange
  cases hvalue : codec.decode .stored v with
  | error e =>
    rw [hvalue] at hchange
    cases hchange
  | ok a =>
    rw [hvalue] at hchange
    obtain rfl := Except.ok.inj hchange
    exact h v a hv hvalue r hr

theorem Shape.Keeps.decodeMembers (h : shape.Keeps p) : ∀ {members : List (String × Json)} {seen : List String}
    {target : σ} {result : σ × List String}, (∀ member ∈ members, member.2.InRange) → p target →
      shape.decodeMembers .stored seen target members = .ok result → p result.1 := by
  intro members
  induction members with
  | nil =>
    intro seen target result _ htarget hresult
    rw [← Except.ok.inj hresult]
    exact htarget
  | cons member rest ih =>
    intro seen target result hmembers htarget hresult
    obtain ⟨hmember, hrest⟩ := List.forall_mem_cons.mp hmembers
    rw [Shape.decodeMembers] at hresult
    split at hresult
    · exact ih hrest htarget hresult
    · next field hfield =>
      split at hresult
      · cases hresult
      · obtain ⟨put, hput, hresult⟩ := bind_ok.mp hresult
        exact ih hrest (h.fields field (List.mem_of_find?_eq_some hfield) _ _ hmember hput target htarget) hresult

theorem Shape.Keeps.decodeItems (h : shape.Keeps p) : ∀ {fields : List (Field σ)} {items : List Json} {taken : Nat}
    {target result : σ}, (∀ field ∈ fields, field ∈ shape.fields) → (∀ item ∈ items, item.InRange) → p target →
      shape.decodeItems .stored taken target fields items = .ok result → p result := by
  intro fields
  induction fields with
  | nil =>
    intro items taken target result _ _ htarget hresult
    cases items with
    | nil =>
      rw [← Except.ok.inj hresult]
      exact htarget
    | cons item rest => cases hresult
  | cons field fields ih =>
    intro items taken target result hfields hitems htarget hresult
    obtain ⟨hfield, hfields⟩ := List.forall_mem_cons.mp hfields
    cases items with
    | nil =>
      rw [Shape.decodeItems] at hresult
      split at hresult
      · cases hresult
      · exact ih hfields hitems htarget hresult
    | cons item rest =>
      obtain ⟨hitem, hrest⟩ := List.forall_mem_cons.mp hitems
      obtain ⟨put, hput, hresult⟩ := bind_ok.mp hresult
      exact ih hfields hrest (h.fields field hfield _ _ hitem hput target htarget) hresult

/-- What is made of a value with numbers in range. -/
theorem Shape.Keeps.decode (h : shape.Keeps p) {v : Json} (hv : v.InRange) {result : σ}
    (hresult : shape.decode .stored v = .ok result) : p result := by
  cases v with
  | object members =>
    obtain ⟨⟨target, seen⟩, hmembers, hresult⟩ := bind_ok.mp hresult
    have htarget := h.decodeMembers (inRange_object.mp hv) h.blank hmembers
    simp only [Shape.complete] at hresult
    split at hresult
    · cases hresult
    · rw [← Except.ok.inj hresult]
      exact htarget
  | array items => exact h.decodeItems (fun _ hfield => hfield) (inRange_array.mp hv) h.blank hresult
  | null | bool b | number n | string s => cases hresult

namespace Reader

theorem delivers_fieldItems (levels : Nat) : ∀ (fields : List (Field σ)) (first : Bool),
    Delivers (fun items => ∀ item ∈ items, item.InRange) (fieldItems levels fields first) := by
  intro fields
  induction fields with
  | nil =>
    intro first c items last hitems
    unfold fieldItems at hitems
    simp only at hitems
    split at hitems
    · cases hitems
    · rw [← (Prod.mk.inj (Except.ok.inj hitems)).1]
      exact List.forall_mem_nil _
    · cases hitems
    · cases hitems
  | cons field fields ih =>
    intro first c items last hitems
    rw [fieldItems] at hitems
    obtain ⟨⟨start, more⟩, -, hitems⟩ := bind_ok.mp hitems
    cases more with
    | false =>
      rw [← (Prod.mk.inj (Except.ok.inj hitems)).1]
      exact List.forall_mem_nil _
    | true =>
      obtain ⟨⟨head, between⟩, hhead, hitems⟩ := bind_ok.mp hitems
      obtain ⟨⟨tail, behind⟩, htail, hitems⟩ := bind_ok.mp hitems
      rw [← (Prod.mk.inj (Except.ok.inj hitems)).1]
      exact List.forall_mem_cons.mpr ⟨delivers_guided field.guide levels _ _ _ hhead, ih false _ _ _ htail⟩

theorem delivers_fieldMember (shape : Shape σ) (levels : Nat) {before : List (String × Json)}
    (hbefore : ∀ member ∈ before, member.2.InRange) (name : String) :
    Delivers (fun members => ∀ member ∈ members, member.2.InRange) (fieldMember shape levels before name) := by
  intro c members last hmembers
  unfold fieldMember at hmembers
  split at hmembers
  · obtain ⟨start, -, hmembers⟩ := bind_ok.mp hmembers
    obtain ⟨behind, -, hmembers⟩ := bind_ok.mp hmembers
    rw [← (Prod.mk.inj (Except.ok.inj hmembers)).1]
    exact hbefore
  · next field hfield =>
    split at hmembers
    · cases hmembers
    · exact delivers_keep (delivers_guided field.guide levels) hbefore name _ _ _ hmembers

/-- **The records that are read** have what their shape keeps. -/
theorem delivers_record (h : shape.Keeps p) (levels : Nat) : Delivers p (record shape levels) := by
  have hshaped : ∀ {v : Json}, v.InRange → Delivers p (shaped shape v) := by
    intro v hv c r last hr
    unfold shaped at hr
    split at hr
    · next found hfound =>
      rw [← (Prod.mk.inj (Except.ok.inj hr)).1]
      exact h.decode hv hfound
    · cases hr
  intro c r last hr
  unfold record at hr
  simp only at hr
  split at hr
  · cases hr
  · cases hr
  · cases hr
  · obtain ⟨⟨members, behind⟩, hmembers, hr⟩ := bind_ok.mp hr
    have hall := delivers_entries (fun before name hbefore => delivers_fieldMember shape _ hbefore name) _ true []
      (List.forall_mem_nil _) _ _ _ hmembers
    exact hshaped (inRange_object.mpr fun member hmember => hall member (List.mem_reverse.mp hmember)) _ _ _ hr
  · obtain ⟨⟨items, behind⟩, hitems, hr⟩ := bind_ok.mp hr
    exact hshaped (inRange_array.mpr (delivers_fieldItems _ _ true _ _ _ hitems)) _ _ _ hr
  · cases hr

/-- **The maps of records that are read** have records like these. -/
theorem delivers_mapOf {item : Nat → Reader σ} (h : ∀ levels, Delivers p (item levels)) (levels : Nat) :
    Delivers (fun m => ∀ entry ∈ m.entries, p entry.2) (mapOf item levels) := by
  intro c m last hm
  unfold mapOf at hm
  simp only at hm
  split at hm
  · cases hm
  · cases hm
  · obtain ⟨⟨members, behind⟩, hmembers, hm⟩ := bind_ok.mp hm
    have hall := delivers_entries (fun before name hbefore => delivers_keep (h _) hbefore name) _ true []
      (List.forall_mem_nil _) _ _ _ hmembers
    rw [← (Prod.mk.inj (Except.ok.inj hm)).1]
    exact NameMap.forall_mem_ofList fun member hmember => hall member (List.mem_reverse.mp hmember)
  · cases hm

/-- What is read of a whole text. -/
theorem delivers_document {reader : Reader σ} (h : Delivers p reader) {text : List Char} {a : σ}
    (ha : document reader text = .ok a) : p a := by
  obtain ⟨⟨value, last⟩, hvalue, ha⟩ := bind_ok.mp ha
  obtain ⟨⟨⟩, -, ha⟩ := bind_ok.mp ha
  rw [← Except.ok.inj ha]
  exact h _ _ _ hvalue

end Reader
end Record
end Json
end ThreatModel
