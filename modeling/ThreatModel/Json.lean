import ThreatModel.NameMap

/-!
# `Json` — document values

The stored documents are JSON. A value keeps the members of an object in the order they were written, repeats
included; the extension slots of the model hold values in canonical form, where every object has each name
once and its names in order.

## Contents

* `Number`, `Json` — the values.
* `Json.canonical` — the canonical form of a value; of the members under one name the last one counts.
* `Json.Canonical`, `canonical_canonical` — what being in that form means, and that `canonical` delivers it.
* `Custom` — the members of an extension slot.
-/

namespace ThreatModel

/-- A number: a whole number, or a binary floating point number given by its 64 bits. -/
inductive Number where
  | whole (value : Int)
  | float (bits : Nat)
deriving DecidableEq, Repr, Inhabited

/-- A document value. -/
inductive Json where
  | null
  | bool (value : Bool)
  | number (value : Number)
  | string (text : String)
  | array (items : List Json)
  | object (members : List (String × Json))
deriving Repr, Inhabited

namespace Json

/-! ## Canonical form -/

mutual

/-- The value with the members of every object in name order, each name once. -/
def canonical : Json → Json
  | .array items => .array (canonicalItems items)
  | .object members => .object (canonicalMembers members)
  | .null => .null
  | .bool b => .bool b
  | .number n => .number n
  | .string s => .string s

/-- The items in canonical form. -/
def canonicalItems : List Json → List Json
  | [] => []
  | item :: rest => canonical item :: canonicalItems rest

/-- The members in canonical form and in name order; a later member under the same name wins. -/
def canonicalMembers : List (String × Json) → List (String × Json)
  | [] => []
  | (name, value) :: rest =>
    alterEntries name (fun later => later.getD (canonical value)) (canonicalMembers rest)

end

mutual

/-- Every object in the value has its names strictly increasing. -/
def Canonical : Json → Prop
  | .array items => CanonicalItems items
  | .object members => CanonicalMembers members
  | .null | .bool _ | .number _ | .string _ => True

/-- Every item is canonical. -/
def CanonicalItems : List Json → Prop
  | [] => True
  | item :: rest => Canonical item ∧ CanonicalItems rest

/-- The names are strictly increasing and every member's value is canonical. -/
def CanonicalMembers : List (String × Json) → Prop
  | [] => True
  | (name, value) :: rest =>
    (∀ member ∈ rest, name < member.1) ∧ Canonical value ∧ CanonicalMembers rest

end

/-- Canonical members are members in name order with canonical values. -/
theorem canonicalMembers_iff {members : List (String × Json)} :
    CanonicalMembers members ↔ Increasing members ∧ ∀ member ∈ members, Canonical member.2 := by
  induction members with
  | nil => simp [CanonicalMembers, Increasing]
  | cons head rest ih =>
    obtain ⟨name, value⟩ := head
    simp only [CanonicalMembers, ih, Increasing, List.pairwise_cons, List.mem_cons, forall_eq_or_imp]
    constructor
    · rintro ⟨h1, h2, h3, h4⟩
      exact ⟨⟨h1, h3⟩, h2, h4⟩
    · rintro ⟨⟨h1, h3⟩, h2, h4⟩
      exact ⟨h1, h2, h3, h4⟩

/-- An update changes the values of a list of entries only to values of the change. -/
theorem forall_alterEntries {α : Type} {p : α → Prop} {name : String} {change : Option α → α}
    {entries : List (String × α)} (hnone : p (change none)) (hsome : ∀ a, p a → p (change (some a)))
    (h : ∀ entry ∈ entries, p entry.2) : ∀ entry ∈ alterEntries name change entries, p entry.2 := by
  induction entries with
  | nil => simpa [alterEntries] using hnone
  | cons head rest ih =>
    obtain ⟨key, value⟩ := head
    simp only [List.mem_cons, forall_eq_or_imp] at h
    simp only [alterEntries]
    split
    · simpa only [List.mem_cons, forall_eq_or_imp] using ⟨hsome _ h.1, h.2⟩
    · split
      · simpa only [List.mem_cons, forall_eq_or_imp] using ⟨hnone, h.1, h.2⟩
      · simpa only [List.mem_cons, forall_eq_or_imp] using ⟨h.1, ih h.2⟩

mutual

/-- The canonical form is canonical. -/
theorem canonical_canonical : ∀ value : Json, Canonical (canonical value)
  | .array items => by simpa only [canonical, Canonical] using canonicalItems_canonical items
  | .object members => by simpa only [canonical, Canonical] using canonicalMembers_canonical members
  | .null | .bool _ | .number _ | .string _ => by simp only [canonical, Canonical]

theorem canonicalItems_canonical : ∀ items : List Json, CanonicalItems (canonicalItems items)
  | [] => by simp only [canonicalItems, CanonicalItems]
  | item :: rest => by
    simpa only [canonicalItems, CanonicalItems] using
      ⟨canonical_canonical item, canonicalItems_canonical rest⟩

theorem canonicalMembers_canonical :
    ∀ members : List (String × Json), CanonicalMembers (canonicalMembers members)
  | [] => by simp only [canonicalMembers, CanonicalMembers]
  | (name, value) :: rest => by
    have hrest := canonicalMembers_iff.mp (canonicalMembers_canonical rest)
    rw [canonicalMembers]
    refine canonicalMembers_iff.mpr ⟨increasing_alterEntries hrest.1, ?_⟩
    exact forall_alterEntries (canonical_canonical value) (fun _ h => h) hrest.2

end

end Json

/-! ## Extension slots -/

/-- The extension slot of a record: members in name order, with canonical values. -/
structure Custom where
  members : List (String × Json)
  canonical : Json.CanonicalMembers members

namespace Custom

/-- Two slots with the same members are equal. -/
@[ext] theorem ext {a b : Custom} (h : a.members = b.members) : a = b := by
  cases a; cases b; simpa using h

/-- The slot without members. -/
def empty : Custom := ⟨[], by simp only [Json.CanonicalMembers]⟩

instance : EmptyCollection Custom := ⟨empty⟩
instance : Inhabited Custom := ⟨empty⟩

/-- The slot that holds the members of a list, of which the last one under a name counts. -/
def ofMembers (members : List (String × Json)) : Custom :=
  ⟨Json.canonicalMembers members, Json.canonicalMembers_canonical members⟩

end Custom
end ThreatModel
