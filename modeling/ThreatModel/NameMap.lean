/-!
# `NameMap` — finite maps from names, in name order

Entities and document members are held under names, and every listing of them is in name order: by character
codes, which is also the order of the encoded bytes. A `NameMap` is the list of its entries with the names
strictly increasing, so two maps with the same entries are equal.

## Contents

* `alterEntries` — the one list operation all updates are made of, and `increasing_alterEntries`.
* `NameMap` — the type, with `get?`, `insert`, `insertNew`, `mergeMissing` and `ofList`.
-/

namespace ThreatModel

universe u v

/-! ## Entries in name order -/

/-- The entries with the value under `name` replaced by what `change` makes of it, or a new entry put in its
place in the order. -/
def alterEntries {α : Type u} (name : String) (change : Option α → α) :
    List (String × α) → List (String × α)
  | [] => [(name, change none)]
  | (key, value) :: rest =>
    if name = key then (key, change (some value)) :: rest
    else if name < key then (name, change none) :: (key, value) :: rest
    else (key, value) :: alterEntries name change rest

/-- The names of a list of entries are strictly increasing. -/
def Increasing {α : Type u} (entries : List (String × α)) : Prop :=
  entries.Pairwise fun a b => a.1 < b.1

theorem mem_alterEntries {α : Type u} {name : String} {change : Option α → α}
    {entries : List (String × α)} {entry : String × α} (h : entry ∈ alterEntries name change entries) :
    entry.1 = name ∨ entry ∈ entries := by
  induction entries with
  | nil => simp_all [alterEntries]
  | cons head rest ih =>
    obtain ⟨key, value⟩ := head
    simp only [alterEntries] at h
    split at h
    · next heq =>
      rcases List.mem_cons.mp h with rfl | h
      · exact Or.inl heq.symm
      · exact Or.inr (List.mem_cons_of_mem _ h)
    · split at h
      · rcases List.mem_cons.mp h with rfl | h
        · exact Or.inl rfl
        · exact Or.inr h
      · rcases List.mem_cons.mp h with rfl | h
        · exact Or.inr List.mem_cons_self
        · exact (ih h).imp id (List.mem_cons_of_mem _)

/-- Of two different names one comes first. -/
theorem name_lt_or_gt {a b : String} (h : a ≠ b) : a < b ∨ b < a := by
  rcases String.le_total a b with hab | hab
  · by_cases hba : b ≤ a
    · exact absurd (String.le_antisymm hab hba) h
    · exact Or.inl (String.not_le.mp hba)
  · by_cases hba : a ≤ b
    · exact absurd (String.le_antisymm hba hab) h
    · exact Or.inr (String.not_le.mp hba)

/-- An update keeps the entries in name order. -/
theorem increasing_alterEntries {α : Type u} {name : String} {change : Option α → α}
    {entries : List (String × α)} (h : Increasing entries) :
    Increasing (alterEntries name change entries) := by
  induction entries with
  | nil => simp [Increasing, alterEntries]
  | cons head rest ih =>
    obtain ⟨key, value⟩ := head
    have ⟨hhead, hrest⟩ := List.pairwise_cons.mp h
    simp only [alterEntries]
    split
    · exact List.pairwise_cons.mpr ⟨hhead, hrest⟩
    · next hne =>
      split
      · next hlt =>
        refine List.pairwise_cons.mpr ⟨fun entry hentry => ?_, h⟩
        rcases List.mem_cons.mp hentry with rfl | hentry
        · exact hlt
        · exact String.lt_trans hlt (hhead entry hentry)
      · next hnlt =>
        refine List.pairwise_cons.mpr ⟨fun entry hentry => ?_, ih hrest⟩
        rcases mem_alterEntries hentry with heq | hmem
        · have hkey := (name_lt_or_gt hne).resolve_left hnlt
          simpa [heq] using hkey
        · exact hhead entry hmem

/-! ## Maps -/

/-- A finite map from names, kept in name order. -/
structure NameMap (α : Type u) where
  entries : List (String × α)
  increasing : Increasing entries

namespace NameMap

variable {α : Type u} {β : Type v}

/-- Two maps with the same entries are equal. -/
@[ext] theorem ext {m n : NameMap α} (h : m.entries = n.entries) : m = n := by
  cases m; cases n; simpa using h

/-- The map without entries. -/
def empty : NameMap α := ⟨[], List.Pairwise.nil⟩

instance : EmptyCollection (NameMap α) := ⟨empty⟩
instance : Inhabited (NameMap α) := ⟨empty⟩

instance [DecidableEq α] : DecidableEq (NameMap α) := fun m n =>
  if h : m.entries = n.entries then isTrue (ext h) else isFalse fun heq => h (congrArg entries heq)

/-- The value under a name. -/
def get? (m : NameMap α) (name : String) : Option α := m.entries.lookup name

/-- Whether a name has a value. -/
def contains (m : NameMap α) (name : String) : Bool := (m.get? name).isSome

/-- The number of entries. -/
def size (m : NameMap α) : Nat := m.entries.length

/-- The names in order. -/
def names (m : NameMap α) : List String := m.entries.map Prod.fst

/-- The values in the order of their names. -/
def values (m : NameMap α) : List α := m.entries.map Prod.snd

/-- The map with the value under `name` replaced by what `change` makes of it. -/
def alter (m : NameMap α) (name : String) (change : Option α → α) : NameMap α :=
  ⟨alterEntries name change m.entries, increasing_alterEntries m.increasing⟩

/-- The map with `value` under `name`, in place of any value before. -/
def insert (m : NameMap α) (name : String) (value : α) : NameMap α := m.alter name fun _ => value

/-- The map with `value` under `name` unless the name has a value already. -/
def insertNew (m : NameMap α) (name : String) (value : α) : NameMap α :=
  m.alter name fun old => old.getD value

/-- The map with the entries of `other` whose names it lacks. -/
def mergeMissing (m other : NameMap α) : NameMap α :=
  other.entries.foldl (fun acc entry => acc.insertNew entry.1 entry.2) m

/-- The map of a list of entries, of which the last one under a name counts. -/
def ofList (entries : List (String × α)) : NameMap α :=
  entries.foldl (fun acc entry => acc.insert entry.1 entry.2) empty

end NameMap
end ThreatModel
