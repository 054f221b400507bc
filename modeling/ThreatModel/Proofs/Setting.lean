import Mathlib
import ThreatModel.Proofs.NameMap
import ThreatModel.Setting.Source

/-!
# `Proofs.Setting` — what is found in a table

A mapping of a file becomes a table in the order of its names, and the settings of the file are laid over an empty
table one by one. Neither changes what is found under a name, as long as the names differ and are written in lower
case; tables within the settings are laid over nothing in the same way.

## Contents

* `tableOf`, `ofEntries?_eq`, `lookup_tableOf` — the table that a mapping becomes.
* `IsSimple` — names that lead to the setting of that name.
* `laid` — a setting laid over nothing, and `lookup_foldl_assign`.
* `entry?_layer` — what is found in the settings of a file.
-/

namespace ThreatModel
namespace Setting

/-! ## Tables -/

/-- The table of some entries, of which a later one under the same name counts. -/
def tableOf (entries : List (String × Setting)) : List (String × Setting) :=
  entries.foldr (fun entry table => alterEntries entry.1 (fun later => later.getD entry.2) table) []

theorem tableOf_cons (entry : String × Setting) (rest : List (String × Setting)) :
    tableOf (entry :: rest) = alterEntries entry.1 (fun later => later.getD entry.2) (tableOf rest) := rfl

/-- The entries of a mapping become a table. -/
theorem ofEntries?_eq {entries : List (Key × Yaml)} {values : List (String × Setting)}
    (h : List.Forall₂ (fun entry value => nameOf entry.1 = value.1 ∧ ofYaml? entry.2 = some value.2) entries values) :
    ofEntries? entries = some (tableOf values) := by
  induction h with
  | nil => rfl
  | @cons entry value _ _ hvalue _ ih =>
    obtain ⟨key, yaml⟩ := entry
    obtain ⟨name, setting⟩ := value
    obtain ⟨rfl, hsetting⟩ := hvalue
    rw [ofEntries?, hsetting, ih]
    rfl

theorem increasing_tableOf (entries : List (String × Setting)) : Increasing (tableOf entries) := by
  induction entries with
  | nil => exact List.Pairwise.nil
  | cons entry rest ih => exact increasing_alterEntries ih

/-- The names of a table are those of its entries. -/
theorem mem_names_of_mem_tableOf {entries : List (String × Setting)} {entry : String × Setting}
    (h : entry ∈ tableOf entries) : entry.1 ∈ entries.map Prod.fst := by
  induction entries with
  | nil => cases h
  | cons first rest ih =>
    rw [tableOf_cons] at h
    rw [List.map_cons]
    rcases mem_alterEntries h with heq | hmem
    · exact heq ▸ List.mem_cons_self
    · exact List.mem_cons_of_mem _ (ih hmem)

theorem lookup_eq_none_of_not_mem {entries : List (String × Setting)} {name : String}
    (h : name ∉ entries.map Prod.fst) : entries.lookup name = none := by
  rw [List.lookup_eq_none_iff]
  intro entry hentry
  rw [bne_iff_ne]
  rintro rfl
  exact h (List.mem_map_of_mem hentry)

/-- What is found in a table is what its entries say, if their names differ. -/
theorem lookup_tableOf {entries : List (String × Setting)} (h : (entries.map Prod.fst).Nodup) (name : String) :
    (tableOf entries).lookup name = entries.lookup name := by
  induction entries generalizing name with
  | nil => rfl
  | cons entry rest ih =>
    rw [List.map_cons, List.nodup_cons] at h
    rw [tableOf_cons, lookup_alterEntries (increasing_tableOf rest), ih h.2, ih h.2, lookup_cons_eq,
      lookup_eq_none_of_not_mem h.1]
    rfl

theorem nodup_tableOf (entries : List (String × Setting)) : ((tableOf entries).map Prod.fst).Nodup := by
  refine (NameMap.increasing_iff_names.mp (increasing_tableOf entries)).imp fun {a b} (hlt : a < b) => ?_
  rintro rfl
  exact name_lt_irrefl a hlt

/-! ## Laying settings over nothing -/

/-- A setting laid over nothing. -/
def laid : Setting → Setting
  | .table entries => assignAll entries (.table [])
  | value => value

/-- A name that leads to the setting of that name. -/
structure IsSimple (name : String) : Prop where
  path : Path.ofText? name = some ⟨name, []⟩
  lower : Text.lowercase name = name

/-- A setting under a new name is laid over nothing. -/
theorem assign_new {name : String} (hlower : Text.lowercase name = name) (value : Setting)
    {out : List (String × Setting)} (hout : Increasing out) (hnew : out.lookup name = none) :
    ∃ out', assign name value (.table out) = .table out' ∧ Increasing out' ∧
      ∀ key, out'.lookup key = if key = name then some (laid value) else out.lookup key := by
  -- A table is laid over the entries that are there, anything else takes the place of what is there.
  let change : Option Setting → Setting :=
    match value with
    | .table incoming => fun old => assignAll incoming (.table (old.getD .nothing).entries)
    | value => fun _ => value
  have hchange : change none = laid value := by cases value <;> rfl
  refine ⟨alterEntries name change out, ?_, increasing_alterEntries hout, fun key => ?_⟩
  · cases value <;> rw [assign, hlower] <;> first | rfl | simp
  · rw [lookup_alterEntries hout, hnew, hchange]

/-- Settings under new names that differ are found where they are put, each laid over nothing. -/
theorem lookup_foldl_assign {entries : List (String × Setting)}
    (hlower : ∀ entry ∈ entries, Text.lowercase entry.1 = entry.1) (hnodup : (entries.map Prod.fst).Nodup)
    {out : List (String × Setting)} (hout : Increasing out) (hnew : ∀ entry ∈ entries, out.lookup entry.1 = none) :
    ∃ out', entries.foldl (fun settings entry => assign entry.1 entry.2 settings) (.table out) = .table out' ∧
      ∀ key, out'.lookup key = ((entries.lookup key).map laid).or (out.lookup key) := by
  induction entries generalizing out with
  | nil => exact ⟨out, rfl, fun key => rfl⟩
  | cons entry rest ih =>
    obtain ⟨hfirst, hrest⟩ := List.forall_mem_cons.mp hlower
    obtain ⟨hnone, hothers⟩ := List.forall_mem_cons.mp hnew
    rw [List.map_cons, List.nodup_cons] at hnodup
    obtain ⟨between, hassign, hbetween, hlookup⟩ := assign_new hfirst entry.2 hout hnone
    have hnew' : ∀ other ∈ rest, between.lookup other.1 = none := by
      intro other hother
      have hne : other.1 ≠ entry.1 := fun heq => hnodup.1 (heq ▸ List.mem_map_of_mem hother)
      rw [hlookup, if_neg hne, hothers other hother]
    obtain ⟨out', hfold, hfound⟩ := ih hrest hnodup.2 hbetween hnew'
    refine ⟨out', ?_, fun key => ?_⟩
    · rw [List.foldl_cons, hassign, hfold]
    · rw [hfound, hlookup, lookup_cons_eq]
      by_cases hkey : key = entry.1
      · rw [if_pos hkey, if_pos hkey, hkey, lookup_eq_none_of_not_mem hnodup.1]
        rfl
      · rw [if_neg hkey, if_neg hkey]

theorem assignAll_eq (incoming : List (String × Setting)) (target : Setting) :
    assignAll incoming target = incoming.foldl (fun settings entry => assign entry.1 entry.2 settings) target := by
  induction incoming generalizing target with
  | nil => rw [assignAll, List.foldl_nil]
  | cons entry rest ih => rw [assignAll, List.foldl_cons, ih]

theorem lower_tableOf {entries : List (String × Setting)} (h : ∀ entry ∈ entries, Text.lowercase entry.1 = entry.1) :
    ∀ entry ∈ tableOf entries, Text.lowercase entry.1 = entry.1 := by
  intro entry hentry
  obtain ⟨other, hother, heq⟩ := List.mem_map.mp (mem_names_of_mem_tableOf hentry)
  rw [← heq]
  exact h other hother

/-- What is found in a table that is laid over nothing. -/
theorem lookup_laid_table {entries : List (String × Setting)}
    (hlower : ∀ entry ∈ entries, Text.lowercase entry.1 = entry.1) (hnodup : (entries.map Prod.fst).Nodup) :
    ∃ out, laid (.table (tableOf entries)) = .table out ∧
      ∀ key, out.lookup key = (entries.lookup key).map laid := by
  obtain ⟨out, hout, hlookup⟩ := lookup_foldl_assign (lower_tableOf hlower) (nodup_tableOf entries) List.Pairwise.nil
    fun _ _ => rfl
  refine ⟨out, (assignAll_eq _ _).trans hout, fun key => ?_⟩
  rw [hlookup, lookup_tableOf hnodup]
  exact Option.or_none

/-- **What is found in the settings of a file** is what its entries say, where the environment says nothing. -/
theorem entry?_layer {entries : List (String × Setting)} (hsimple : ∀ entry ∈ entries, IsSimple entry.1)
    (hnodup : (entries.map Prod.fst).Nodup) {environment : List (String × String)}
    (henvironment : ∀ variable_ ∈ environment, ofVariable? variable_ = none) (key : String) :
    Setting.entry? key (layer (.table (tableOf entries)) environment) = (entries.lookup key).map laid := by
  have hnone : environment.filterMap ofVariable? = [] := List.filterMap_eq_nil_iff.mpr henvironment
  have hput : (tableOf entries).foldl put (.table [])
      = (tableOf entries).foldl (fun settings entry => assign entry.1 entry.2 settings) (.table []) := by
    refine List.foldl_ext _ _ _ fun settings entry hentry => ?_
    obtain ⟨other, hother, heq⟩ := List.mem_map.mp (mem_names_of_mem_tableOf hentry)
    rw [put, ← heq, (hsimple other hother).path]
    rfl
  obtain ⟨out, hout, hlookup⟩ := lookup_laid_table (fun entry hentry => (hsimple entry hentry).lower) hnodup
  rw [laid, assignAll_eq] at hout
  rw [layer, hnone, List.append_nil, Setting.entries, hput, hout]
  exact hlookup key

end Setting
end ThreatModel
