import Mathlib
import ThreatModel.Json

/-!
# `Proofs.NameMap` — what is found in a map

A map is known by what is found under each name, and every update is described by what is found afterwards.

## Contents

* `get?_eq_some_iff`, `isSome_get?` — values, entries and names.
* `ext_get?`, `size_eq` — maps in which the same is found, or something under the same names.
* `get?_alter`, `get?_insertNew`, `get?_mergeMissing` — what is found after an update.
* `ofList_entries`, `forall_mem_ofList` — the map of a list of entries.
* `traverse`, `traverse_eq_some`, `eq_of_traverse` — changing every value, where each change may fail.
-/

namespace ThreatModel

universe u v

variable {α : Type u} {β : Type v}

/-! ## Entries -/

theorem name_lt_irrefl (name : String) : ¬name < name := String.lt_irrefl name

/-- A name before all others of a list is put at its start. -/
theorem alterEntries_of_lt {name : String} {change : Option α → α} {entries : List (String × α)}
    (h : ∀ entry ∈ entries, name < entry.1) : alterEntries name change entries = (name, change none) :: entries := by
  cases entries with
  | nil => rfl
  | cons entry rest =>
    obtain ⟨key, value⟩ := entry
    have hlt : name < key := h _ List.mem_cons_self
    have hne : name ≠ key := by
      rintro rfl
      exact name_lt_irrefl _ hlt
    rw [alterEntries, if_neg hne, if_pos hlt]

/-- A name after all others of a list is put at its end. -/
theorem alterEntries_of_gt {name : String} {change : Option α → α} {entries : List (String × α)}
    (h : ∀ entry ∈ entries, entry.1 < name) : alterEntries name change entries = entries ++ [(name, change none)] := by
  induction entries with
  | nil => rfl
  | cons entry rest ih =>
    obtain ⟨key, value⟩ := entry
    have hlt : key < name := h _ List.mem_cons_self
    have hne : name ≠ key := by
      rintro rfl
      exact name_lt_irrefl _ hlt
    have hnot : ¬name < key := fun hgt => name_lt_irrefl _ (String.lt_trans hlt hgt)
    rw [alterEntries, if_neg hne, if_neg hnot, ih fun entry hentry => h entry (List.mem_cons_of_mem _ hentry)]
    rfl

/-- What is found is the first value under the name. -/
theorem lookup_cons_eq (entry : String × α) (rest : List (String × α)) (name : String) :
    (entry :: rest).lookup name = if name = entry.1 then some entry.2 else rest.lookup name := by
  rw [List.lookup_cons]
  by_cases h : name = entry.1
  · rw [if_pos h, beq_iff_eq.mpr h]
  · rw [if_neg h, beq_eq_false_iff_ne.mpr h]

/-- Nothing is found under a name before all others. -/
theorem lookup_of_lt {name : String} {entries : List (String × α)} (h : ∀ entry ∈ entries, name < entry.1) :
    entries.lookup name = none := by
  rw [List.lookup_eq_none_iff]
  intro entry hentry
  have hne : name ≠ entry.1 := by
    intro heq
    exact name_lt_irrefl _ (heq ▸ h entry hentry)
  exact bne_iff_ne.mpr hne

/-- An update changes what is found under its name, and nothing else. -/
theorem lookup_alterEntries {name : String} {change : Option α → α} {entries : List (String × α)}
    (h : Increasing entries) (key : String) :
    (alterEntries name change entries).lookup key
      = if key = name then some (change (entries.lookup name)) else entries.lookup key := by
  induction entries with
  | nil =>
    rw [alterEntries, lookup_cons_eq]
    rfl
  | cons entry rest ih =>
    obtain ⟨first, value⟩ := entry
    obtain ⟨hfirst, hrest⟩ := List.pairwise_cons.mp h
    rw [alterEntries]
    by_cases hname : name = first
    · subst hname
      rw [if_pos rfl, lookup_cons_eq, lookup_cons_eq _ _ name, lookup_cons_eq _ _ key, if_pos rfl]
      split <;> rfl
    · rw [if_neg hname]
      by_cases hlt : name < first
      · -- The name is before all others, so nothing was found under it.
        have hnone : ((first, value) :: rest).lookup name = none := by
          refine lookup_of_lt fun entry hentry => ?_
          rcases List.mem_cons.mp hentry with rfl | hentry
          · exact hlt
          · exact String.lt_trans hlt (hfirst entry hentry)
        rw [if_pos hlt, hnone, lookup_cons_eq]
      · rw [if_neg hlt, lookup_cons_eq, lookup_cons_eq _ _ name, lookup_cons_eq _ _ key, ih hrest, if_neg hname]
        by_cases hkey : key = first
        · have hother : key ≠ name := fun heq => hname (heq.symm.trans hkey)
          rw [if_pos hkey, if_neg hother, if_pos hkey]
        · rw [if_neg hkey, if_neg hkey]

namespace NameMap

/-! ## Values -/

theorem lookup_eq_some_iff {entries : List (String × α)} (h : Increasing entries) {name : String} {value : α} :
    entries.lookup name = some value ↔ (name, value) ∈ entries := by
  induction entries with
  | nil => simp
  | cons entry rest ih =>
    obtain ⟨key, first⟩ := entry
    obtain ⟨hfirst, hrest⟩ := List.pairwise_cons.mp h
    rw [lookup_cons_eq, List.mem_cons]
    by_cases hname : name = key
    · subst hname
      rw [if_pos rfl]
      constructor
      · intro heq
        exact Or.inl (by rw [← Option.some.inj heq])
      · rintro (heq | hmem)
        · rw [(Prod.mk.inj heq).2]
        · exact absurd (hfirst _ hmem) (name_lt_irrefl name)
    · rw [if_neg hname, ih hrest]
      constructor
      · exact Or.inr
      · rintro (heq | hmem)
        · exact absurd (Prod.mk.inj heq).1 hname
        · exact hmem

/-- What is found under a name is what its entry holds. -/
theorem get?_eq_some_iff {m : NameMap α} {name : String} {value : α} :
    m.get? name = some value ↔ (name, value) ∈ m.entries :=
  lookup_eq_some_iff m.increasing

/-- Something is found under the names of a map. -/
theorem isSome_get? (m : NameMap α) (name : String) : (m.get? name).isSome = m.names.contains name := by
  rw [get?, names]
  induction m.entries with
  | nil => rfl
  | cons entry rest ih =>
    rw [List.lookup_cons, List.map_cons, List.contains_cons, ← ih]
    cases name == entry.1 <;> rfl

theorem nodup_entries (m : NameMap α) : m.entries.Nodup := by
  refine List.Pairwise.imp ?_ m.increasing
  rintro a b hlt rfl
  exact name_lt_irrefl a.1 hlt

theorem nodup_names (m : NameMap α) : m.names.Nodup := by
  refine List.Pairwise.imp ?_ (List.pairwise_map.mpr m.increasing)
  rintro a b hlt rfl
  exact name_lt_irrefl a hlt

/-- A map is known by what is found in it. -/
theorem ext_get? {m n : NameMap α} (h : ∀ name, m.get? name = n.get? name) : m = n := by
  have hmem : ∀ entry, entry ∈ m.entries ↔ entry ∈ n.entries := by
    rintro ⟨name, value⟩
    rw [← get?_eq_some_iff, ← get?_eq_some_iff, h]
  have hperm := (List.perm_ext_iff_of_nodup m.nodup_entries n.nodup_entries).mpr hmem
  refine ext (hperm.eq_of_pairwise ?_ m.increasing n.increasing)
  intro a b _ _ hab hba
  exact absurd (String.lt_trans hab hba) (name_lt_irrefl a.1)

/-- Maps with the same names have the same number of entries. -/
theorem size_eq {m : NameMap α} {n : NameMap β} (h : ∀ name, (m.get? name).isSome = (n.get? name).isSome) :
    m.size = n.size := by
  have hmem : ∀ name, name ∈ m.names ↔ name ∈ n.names := by
    intro name
    have hname := h name
    rw [isSome_get?, isSome_get?] at hname
    rw [← List.contains_iff_mem, hname, List.contains_iff_mem]
  have hlength := ((List.perm_ext_iff_of_nodup m.nodup_names n.nodup_names).mpr hmem).length_eq
  rwa [names, names, List.length_map, List.length_map] at hlength

/-- An update changes what is found under its name, and nothing else. -/
theorem get?_alter (m : NameMap α) (name : String) (change : Option α → α) (key : String) :
    (m.alter name change).get? key = if key = name then some (change (m.get? name)) else m.get? key :=
  lookup_alterEntries m.increasing key

theorem get?_insertNew (m : NameMap α) (name : String) (value : α) (key : String) :
    (m.insertNew name value).get? key = if key = name then some ((m.get? name).getD value) else m.get? key :=
  get?_alter m name _ key

/-- What is found after merging: the value that was there, or else the one of the other map. -/
theorem get?_mergeMissing (m other : NameMap α) (key : String) :
    (m.mergeMissing other).get? key = (m.get? key).or (other.get? key) := by
  obtain ⟨entries, hentries⟩ := other
  simp only [mergeMissing]
  induction entries generalizing m with
  | nil =>
    simp only [List.foldl_nil, get?, List.lookup_nil, Option.or_none]
  | cons entry rest ih =>
    obtain ⟨name, value⟩ := entry
    obtain ⟨-, hrest⟩ := List.pairwise_cons.mp hentries
    rw [List.foldl_cons, ih (m.insertNew name value) hrest, get?_insertNew]
    unfold get?
    rw [lookup_cons_eq]
    by_cases hkey : key = name
    · -- The value that is added counts only if there was none.
      subst hkey
      rw [if_pos rfl, if_pos rfl]
      cases m.entries.lookup key <;> rfl
    · rw [if_neg hkey, if_neg hkey]

/-! ## Lists of entries -/

theorem foldl_insert_entries {entries : List (String × α)} :
    ∀ m : NameMap α, Increasing (m.entries ++ entries) →
      (entries.foldl (fun acc entry => acc.insert entry.1 entry.2) m).entries = m.entries ++ entries := by
  induction entries with
  | nil =>
    intro m _
    rw [List.foldl_nil, List.append_nil]
  | cons entry rest ih =>
    intro m h
    have hlast : (m.insert entry.1 entry.2).entries = m.entries ++ [entry] := by
      refine alterEntries_of_gt fun other hother => ?_
      exact (List.pairwise_append.mp h).2.2 other hother entry List.mem_cons_self
    have happend : (m.insert entry.1 entry.2).entries ++ rest = m.entries ++ entry :: rest := by
      rw [hlast, List.append_assoc, List.singleton_append]
    rw [List.foldl_cons, ih _ (by rw [happend]; exact h), happend]

/-- The map of entries in name order holds these entries. -/
theorem ofList_entries {entries : List (String × α)} (h : Increasing entries) : (ofList entries).entries = entries :=
  foldl_insert_entries empty h

/-- The map of a list of entries holds values of the list only. -/
theorem forall_mem_ofList {α : Type} {p : α → Prop} {entries : List (String × α)} (h : ∀ entry ∈ entries, p entry.2) :
    ∀ entry ∈ (ofList entries).entries, p entry.2 := by
  have hfold : ∀ (entries : List (String × α)) (m : NameMap α), (∀ entry ∈ entries, p entry.2) →
      (∀ entry ∈ m.entries, p entry.2) →
        ∀ entry ∈ (entries.foldl (fun acc entry => acc.insert entry.1 entry.2) m).entries, p entry.2 := by
    intro entries
    induction entries with
    | nil => exact fun m _ hm => hm
    | cons entry rest ih =>
      intro m hall hm
      obtain ⟨hentry, hrest⟩ := List.forall_mem_cons.mp hall
      have hinsert : ∀ other ∈ (m.insert entry.1 entry.2).entries, p other.2 :=
        Json.forall_alterEntries hentry (fun _ _ => hentry) hm
      exact ih _ hrest hinsert
  exact hfold entries empty h (List.forall_mem_nil _)

/-! ## Changing every value -/

/-- The map with every value changed, if every change succeeds. -/
def traverse (change : α → Option β) (m : NameMap α) : Option (NameMap β) :=
  (m.entries.mapM fun entry => (change entry.2).map fun b => (entry.1, b)).map ofList

/-- Entries whose values are changed keep their names. -/
theorem mapM_names {change : α → Option β} {entries : List (String × α)} {changed : List (String × β)}
    (h : (entries.mapM fun entry => (change entry.2).map fun b => (entry.1, b)) = some changed) :
    changed.map Prod.fst = entries.map Prod.fst ∧
      ∀ name, changed.lookup name = (entries.lookup name).bind change := by
  induction entries generalizing changed with
  | nil =>
    obtain rfl := Option.some.inj h
    exact ⟨rfl, fun _ => rfl⟩
  | cons entry rest ih =>
    rw [List.mapM_cons] at h
    obtain ⟨first, hfirst, h⟩ := Option.bind_eq_some_iff.mp h
    obtain ⟨more, hmore, h⟩ := Option.bind_eq_some_iff.mp h
    obtain ⟨b, hvalue, rfl⟩ := Option.map_eq_some_iff.mp hfirst
    obtain rfl := Option.some.inj h
    obtain ⟨hnames, hlookup⟩ := ih hmore
    refine ⟨by rw [List.map_cons, List.map_cons, hnames], fun name => ?_⟩
    rw [lookup_cons_eq, lookup_cons_eq]
    by_cases hname : name = entry.1
    · rw [if_pos hname, if_pos hname]
      exact hvalue.symm
    · rw [if_neg hname, if_neg hname]
      exact hlookup name

/-- Whether entries are in name order depends on their names alone. -/
theorem increasing_iff_names {entries : List (String × α)} :
    Increasing entries ↔ (entries.map Prod.fst).Pairwise (· < ·) :=
  List.pairwise_map.symm

/-- A map whose values are changed keeps its names, and holds the changed values under them. -/
theorem traverse_eq_some {change : α → Option β} {m : NameMap α} {n : NameMap β} (h : m.traverse change = some n) :
    n.names = m.names ∧ ∀ name, n.get? name = (m.get? name).bind change := by
  obtain ⟨changed, hchanged, rfl⟩ := Option.map_eq_some_iff.mp h
  obtain ⟨hnames, hlookup⟩ := mapM_names hchanged
  have hincreasing : Increasing changed :=
    increasing_iff_names.mpr (hnames ▸ increasing_iff_names.mp m.increasing)
  have hentries := ofList_entries hincreasing
  refine ⟨?_, fun name => ?_⟩
  · rw [names, hentries, hnames]
    rfl
  · rw [get?, hentries, hlookup]
    rfl

/-- A map of which every value stays if it is there at all. -/
theorem eq_of_traverse {change : α → Option α} {m n : NameMap α} (h : m.traverse change = some n)
    (hchange : ∀ entry ∈ m.entries, ∀ a, change entry.2 = some a → a = entry.2) : n = m := by
  obtain ⟨hnames, hget⟩ := traverse_eq_some h
  refine ext_get? fun name => ?_
  have hsome : (n.get? name).isSome = (m.get? name).isSome := by rw [isSome_get?, isSome_get?, hnames]
  rw [hget] at hsome ⊢
  cases hvalue : m.get? name with
  | none => rfl
  | some value =>
    rw [hvalue, Option.bind_some, Option.isSome_some] at hsome
    obtain ⟨a, ha⟩ := Option.isSome_iff_exists.mp hsome
    rw [Option.bind_some, ha, hchange _ (get?_eq_some_iff.mp hvalue) a ha]

/-- A map whose values all stay stays. -/
theorem traverse_eq_self {change : α → Option α} {m : NameMap α}
    (h : ∀ entry ∈ m.entries, change entry.2 = some entry.2) : m.traverse change = some m := by
  have hentries : ∀ entries : List (String × α), (∀ entry ∈ entries, change entry.2 = some entry.2) →
      (entries.mapM fun entry => (change entry.2).map fun b => (entry.1, b)) = some entries := by
    intro entries
    induction entries with
    | nil => intro _; rfl
    | cons entry rest ih =>
      intro hall
      rw [List.mapM_cons, hall entry List.mem_cons_self,
        ih fun other hother => hall other (List.mem_cons_of_mem _ hother)]
      rfl
  rw [traverse, hentries m.entries h, Option.map_some]
  exact congrArg some (ext (ofList_entries m.increasing))

end NameMap
end ThreatModel
