import Mathlib
import ThreatModel.Proofs.FileTree.Places
import ThreatModel.Walk

/-!
# `Proofs.Walk` — what a walk finds

A walk finds files below its start, each under the path that leads to it. What it finds outside a directory depends on
nothing in that directory: neither the ignore files there nor the number of files there change it, as long as the
directory does not have the name of an ignore file.

## Contents

* `mem_children_iff`, `filter_children_eq` — what a tree holds at a place decides what its directories list.
* `below`, `visit_eq_of_below_lt` — a walk ends before it runs out of depth.
* `names_of_mem_visit`, `exists_file_of_mem_filesBelow` — the files that are found.
* `levelAt_eq`, `filter_visit_eq`, `filter_filesBelow_eq` — two trees that agree outside a directory.
-/

namespace ThreatModel

/-! ## The entries of a directory -/

namespace FileTree

variable {tree other : FileTree} {place : Place} {name : String} {entry : Entry}

theorem mem_children_iff (h : tree.Proper) :
    (name, entry) ∈ tree.children place ↔ tree.get? (place ++ [name]) = some entry := by
  rw [h.get?_eq_some_iff (by simp), children, List.mem_mergeSort, List.mem_filterMap]
  constructor
  · rintro ⟨⟨p, e⟩, hmem, heq⟩
    simp only at heq
    split at heq
    · next last hlast =>
      obtain ⟨rfl, rfl⟩ := Prod.mk.inj (Option.some.inj heq)
      rw [List.isPrefixOf?_eq_some_iff_append_eq] at hlast
      rwa [hlast]
    · cases heq
  · intro hmem
    have hlast : place.isPrefixOf? (place ++ [name]) = some [name] := List.isPrefixOf?_eq_some_iff_append_eq.mpr rfl
    exact ⟨_, hmem, by simp only [hlast]⟩

theorem isFileName_of_mem_children (h : tree.Proper) (hmem : (name, entry) ∈ tree.children place) :
    IsFileName name := by
  have hentry := (h.get?_eq_some_iff (by simp)).mp ((mem_children_iff h).mp hmem)
  exact h.names _ hentry name (by simp)

theorem pairwise_children (tree : FileTree) (place : Place) : (tree.children place).Pairwise fun a b => a.1 ≤ b.1 := by
  have htrans : ∀ a b c : String × Entry, decide (a.1 ≤ b.1) = true → decide (b.1 ≤ c.1) = true →
      decide (a.1 ≤ c.1) = true := by
    intro a b c hab hbc
    simp only [decide_eq_true_eq] at hab hbc ⊢
    exact String.le_trans hab hbc
  have htotal : ∀ a b : String × Entry, (decide (a.1 ≤ b.1) || decide (b.1 ≤ a.1)) = true := by
    intro a b
    simp only [Bool.or_eq_true, decide_eq_true_eq]
    exact String.le_total a.1 b.1
  exact (List.pairwise_mergeSort htrans htotal _).imp of_decide_eq_true

theorem nodup_children (h : tree.Proper) : (tree.children place).Nodup := by
  refine (List.mergeSort_perm _ _).nodup_iff.mpr ?_
  have hentries : tree.entries.Nodup := h.nodup.of_map
  refine hentries.filterMap ?_
  rintro ⟨p, e⟩ ⟨q, f⟩ found hp hq
  simp only [Option.mem_def] at hp hq
  split at hp
  · next first hfirst =>
    split at hq
    · next second hsecond =>
      obtain rfl := Option.some.inj hp
      obtain ⟨rfl, rfl⟩ := Prod.mk.inj (Option.some.inj hq)
      rw [List.isPrefixOf?_eq_some_iff_append_eq] at hfirst hsecond
      rw [← hfirst, ← hsecond]
    · cases hq
  · cases hp

/-- **What a directory lists under some names** is decided by what is found under these names. -/
theorem filter_children_eq (hproper : tree.Proper) (hother : other.Proper) (keep : String → Bool)
    (h : ∀ name, keep name = true → other.get? (place ++ [name]) = tree.get? (place ++ [name])) :
    (other.children place).filter (fun child => keep child.1) = (tree.children place).filter fun child => keep child.1 := by
  have hmem : ∀ child, child ∈ (other.children place).filter (fun child => keep child.1) ↔
      child ∈ (tree.children place).filter fun child => keep child.1 := by
    rintro ⟨name, entry⟩
    rw [List.mem_filter, List.mem_filter, mem_children_iff hproper, mem_children_iff hother]
    exact and_congr_left fun hkeep => by rw [h name hkeep]
  have hperm := (List.perm_ext_iff_of_nodup ((nodup_children hother).filter _) ((nodup_children hproper).filter _)).mpr hmem
  refine hperm.eq_of_pairwise ?_ ((pairwise_children _ _).filter _) ((pairwise_children _ _).filter _)
  -- Two children with one name are found at one place.
  rintro ⟨name, e⟩ ⟨name', e'⟩ ha hb hab hba
  obtain rfl : name = name' := String.le_antisymm hab hba
  have he := (mem_children_iff hother).mp (List.mem_filter.mp ha).1
  have he' := (mem_children_iff hother).mp (List.mem_filter.mp ((hmem _).mpr hb)).1
  exact Prod.ext rfl (Option.some.inj (he.symm.trans he'))

/-! ## How deep a tree is -/

/-- The number of entries below a place. -/
def below (tree : FileTree) (place : Place) : Nat :=
  tree.entries.countP fun entry => place.isPrefixOf entry.1 && entry.1 ≠ place

theorem below_le (tree : FileTree) (place : Place) : tree.below place ≤ tree.entries.length := List.countP_le_length

/-- Fewer entries are below a directory than below the one that it is in. -/
theorem below_lt (h : tree.Proper) (hmem : (name, entry) ∈ tree.children place) :
    tree.below (place ++ [name]) < tree.below place := by
  have hentry := (h.get?_eq_some_iff (by simp)).mp ((mem_children_iff h).mp hmem)
  obtain ⟨before, after, hsplit⟩ := List.append_of_mem hentry
  have hle : ∀ entries : List (Place × Entry),
      (entries.countP fun entry => (place ++ [name]).isPrefixOf entry.1 && entry.1 ≠ place ++ [name])
        ≤ entries.countP fun entry => place.isPrefixOf entry.1 && entry.1 ≠ place := by
    intro entries
    refine List.countP_mono_left fun e _ hbelow => ?_
    simp only [Bool.and_eq_true, List.isPrefixOf_iff_prefix, decide_eq_true_eq] at hbelow ⊢
    obtain ⟨hfront, -⟩ := hbelow
    refine ⟨(List.prefix_append _ _).trans hfront, ?_⟩
    rintro rfl
    have hlength := hfront.length_le
    simp at hlength
  have hbefore := hle before
  have hafter := hle after
  -- The entry itself is below the outer directory only.
  have hin : (place.isPrefixOf (place ++ [name]) && decide (place ++ [name] ≠ place)) = true := by simp
  have hout : ((place ++ [name]).isPrefixOf (place ++ [name]) && decide (place ++ [name] ≠ place ++ [name])) = false := by
    simp
  unfold below
  rw [hsplit, List.countP_append, List.countP_append, List.countP_cons, List.countP_cons]
  simp only [hin, hout, if_true, Bool.false_eq_true, if_false]
  omega

end FileTree

namespace Walk

open FileTree

variable {tree other : FileTree}

/-- The files that a walk finds at one entry of the directory where it stands. -/
def foundAt (tree : FileTree) (depth : Nat) (levels : List Level) (path : String) (names : List String) (place : Place)
    (child : String × Entry) : List Found :=
  if passesOver levels (Path.join path child.1) (names ++ [child.1]) (child.2 = .directory) then []
  else
    match child.2 with
    | .file _ => [⟨Path.join path child.1, names ++ [child.1]⟩]
    | .directory =>
      visit tree depth (levelAt tree (.within (Path.join path child.1)) (place ++ [child.1]) :: levels)
        (Path.join path child.1) (names ++ [child.1]) (place ++ [child.1])

/-- A walk goes through the entries of a directory one by one. -/
theorem visit_succ (tree : FileTree) (depth : Nat) (levels : List Level) (path : String) (names : List String)
    (place : Place) :
    visit tree (depth + 1) levels path names place
      = (tree.children place).flatMap (foundAt tree depth levels path names place) := by
  rw [visit]
  rfl

/-- A file that is found at an entry is the entry, or is found below it. -/
theorem mem_foundAt {depth : Nat} {levels : List Level} {path : String} {names : List String} {place : Place}
    {name : String} {entry : Entry} {found : Found}
    (h : found ∈ foundAt tree depth levels path names place (name, entry)) :
    ((∃ content, entry = .file content) ∧ found = ⟨Path.join path name, names ++ [name]⟩) ∨
      (entry = .directory ∧ found ∈ visit tree depth
        (levelAt tree (.within (Path.join path name)) (place ++ [name]) :: levels) (Path.join path name)
        (names ++ [name]) (place ++ [name])) := by
  unfold foundAt at h
  split at h
  · cases h
  · cases entry with
    | file content => exact Or.inl ⟨⟨content, rfl⟩, List.mem_singleton.mp h⟩
    | directory => exact Or.inr ⟨rfl, h⟩

/-- **A walk ends before it runs out of depth**, if it may go deeper than there are entries. -/
theorem visit_eq_of_below_lt (h : tree.Proper) {depth : Nat} :
    ∀ (depth' : Nat) {levels : List Level} {path : String} {names : List String} {place : Place},
      tree.below place < depth → tree.below place < depth' →
      visit tree depth levels path names place = visit tree depth' levels path names place := by
  induction depth with
  | zero => intro _ _ _ _ _ hdepth _; omega
  | succ depth ih =>
    intro depth' levels path names place hdepth hdepth'
    obtain ⟨depth', rfl⟩ := Nat.exists_eq_add_one_of_ne_zero (Nat.ne_zero_of_lt hdepth')
    rw [visit_succ, visit_succ]
    refine List.flatMap_congr ?_
    rintro ⟨name, entry⟩ hmem
    have hlt := below_lt h hmem
    unfold foundAt
    split
    · rfl
    · cases entry with
      | file content => rfl
      | directory => exact ih depth' (Nat.lt_of_lt_of_le hlt (by omega)) (Nat.lt_of_lt_of_le hlt (by omega))

/-! ## The files that are found -/

/-- The names of a file that is found start with those of the directory where the walk stands. -/
theorem names_of_mem_visit {depth : Nat} :
    ∀ {levels : List Level} {path : String} {names : List String} {place : Place} {found : Found},
      found ∈ visit tree depth levels path names place → names <+: found.names := by
  induction depth with
  | zero =>
    intro _ _ _ _ _ h
    cases h
  | succ depth ih =>
    intro levels path names place found h
    rw [visit_succ] at h
    obtain ⟨⟨name, entry⟩, -, h⟩ := List.mem_flatMap.mp h
    rcases mem_foundAt h with ⟨-, rfl⟩ | ⟨-, h⟩
    · exact List.prefix_append _ _
    · exact (List.prefix_append _ _).trans (ih h)

/-- A file that is found is where its names lead from the start, and its path leads there. -/
theorem exists_file_of_mem_visit (hproper : tree.Proper) (start : Place) {depth : Nat} :
    ∀ {levels : List Level} {path : String} {names : List String} {found : Found},
      tree.Within path (start ++ names) → found ∈ visit tree depth levels path names (start ++ names) →
      ∃ content, tree.locate found.path = .ok (start ++ found.names) ∧
        tree.get? (start ++ found.names) = some (.file content) := by
  induction depth with
  | zero =>
    intro _ _ _ _ _ h
    cases h
  | succ depth ih =>
    intro levels path names found hwithin h
    rw [visit_succ] at h
    obtain ⟨⟨name, entry⟩, hmem, h⟩ := List.mem_flatMap.mp h
    have hentry := (mem_children_iff hproper).mp hmem
    have hname := isFileName_of_mem_children hproper hmem
    rcases mem_foundAt h with ⟨⟨content, rfl⟩, rfl⟩ | ⟨rfl, hbelow⟩
    · refine ⟨content, ?_, ?_⟩
      · rw [← List.append_assoc]
        exact (locate_join_iff hname).mpr ⟨_, hwithin, rfl⟩
      · rw [← List.append_assoc]
        exact hentry
    · have hdown := hwithin.down hname hentry
      rw [List.append_assoc] at hdown hbelow
      exact ih hdown hbelow

/-- **The files that a walk finds** are below its start, and their paths lead to them. -/
theorem exists_file_of_mem_filesBelow (hproper : tree.Proper) {start : String} {found : Found}
    (h : found ∈ filesBelow tree start) :
    (∃ content, tree.find? found.path = some (.file content)) ∧
      Path.target found.path = Path.target start ++ found.names := by
  have hthere : ∃ content, tree.locate found.path = .ok (Path.target start ++ found.names) ∧
      tree.get? (Path.target start ++ found.names) = some (.file content) := by
    unfold filesBelow at h
    split at h
    · cases h
    · next place hlocate =>
      obtain rfl := locate_eq_target hlocate
      split at h
      · cases h
      · next content hentry =>
        obtain rfl := List.mem_singleton.mp h
        rw [List.append_nil]
        exact ⟨content, hlocate, hentry⟩
      · next hdirectory =>
        have hwithin := within_of_locate hlocate hdirectory
        rw [← List.append_nil (Path.target start)] at hwithin h
        exact exists_file_of_mem_visit hproper _ hwithin h
  obtain ⟨content, hlocate, hcontent⟩ := hthere
  have htarget := locate_eq_target hlocate
  rw [htarget] at hlocate hcontent
  exact ⟨⟨content, find?_eq_some_iff.mpr ⟨hlocate, hcontent⟩⟩, htarget.symm⟩

/-! ## Trees that agree outside a directory -/

/-- The names of the files and directories that can rule out a file, and of the directories that these are in. -/
def ignoreNames : List String := [".ignore", ".gitignore", ".git", "info", "exclude"]

section Agree

variable {home : Place} {name : String}

/-- Other names do not lead into a directory. -/
theorem not_prefix_append {place : Place} (h : ¬home ++ [name] <+: place) {more : List String} (hmore : name ∉ more) :
    ¬home ++ [name] <+: place ++ more := by
  intro hfront
  rcases List.prefix_or_prefix_of_prefix hfront (List.prefix_append place more) with hbelow | ⟨rest, hrest⟩
  · exact h hbelow
  · rw [← hrest, List.prefix_append_right_inj] at hfront
    rcases List.eq_nil_or_concat rest with rfl | ⟨front, last, rfl⟩
    · rw [List.append_nil] at hrest
      exact h (hrest ▸ List.prefix_refl _)
    · rw [List.concat_eq_append, ← List.append_assoc] at hrest
      have hlast : last = name := by simpa using (List.append_inj' hrest rfl).2
      exact hmore (hfront.subset (by simp [hlast]))

/-- The ignore files outside a directory are the same. -/
theorem levelAt_eq (hname : name ∉ ignoreNames) (hagree : AgreeOutside (home ++ [name]) tree other) {place : Place}
    (hplace : ¬home ++ [name] <+: place) (scope : Scope) : levelAt other scope place = levelAt tree scope place := by
  have hsame : ∀ more : List String, (∀ word ∈ more, word ∈ ignoreNames) →
      other.get? (place ++ more) = tree.get? (place ++ more) := fun more hmore =>
    hagree _ (not_prefix_append hplace fun hmem => hname (hmore name hmem))
  have hrules : ∀ more : List String, (∀ word ∈ more, word ∈ ignoreNames) →
      IgnoreFile.rulesOf other (place ++ more) = IgnoreFile.rulesOf tree (place ++ more) := by
    intro more hmore
    unfold IgnoreFile.rulesOf
    rw [hsame more hmore]
  unfold levelAt
  rw [hrules [".ignore"] (by decide), hrules [".gitignore"] (by decide), hrules [".git", "info", "exclude"] (by decide),
    hsame [".git"] (by decide)]

theorem levelsAbove_eq (hname : name ∉ ignoreNames) (hagree : AgreeOutside (home ++ [name]) tree other) {place : Place}
    (hplace : ¬home ++ [name] <+: place) : levelsAbove other place = levelsAbove tree place := by
  refine List.map_congr_left fun count _ => levelAt_eq hname hagree (fun h => hplace ?_) _
  exact h.trans (List.take_prefix count place)

/-- Whether a file that is found from a start is outside a directory. -/
def Found.isOutside (directory start : Place) (found : Found) : Bool :=
  decide (¬directory <+: start ++ found.names)

/-- Elements that add nothing can be left out. -/
theorem flatMap_filter_eq {α β : Type} {f : α → List β} (keep : α → Bool) {xs : List α}
    (h : ∀ x ∈ xs, keep x = false → f x = []) : (xs.filter keep).flatMap f = xs.flatMap f := by
  induction xs with
  | nil => rfl
  | cons x rest ih =>
    obtain ⟨hx, hrest⟩ := List.forall_mem_cons.mp h
    rw [List.filter_cons, List.flatMap_cons, ← ih hrest]
    by_cases hkeep : keep x = true
    · rw [if_pos hkeep, List.flatMap_cons]
    · rw [if_neg hkeep, hx (eq_false_of_ne_true hkeep), List.nil_append]

/-- What a walk finds outside a directory from a place outside it is the same. -/
theorem filter_visit_eq (hname : name ∉ ignoreNames) (hproper : tree.Proper) (hother : other.Proper)
    (hagree : AgreeOutside (home ++ [name]) tree other) (start : Place) (depth : Nat) :
    ∀ (levels : List Level) (path : String) {names : List String}, ¬home ++ [name] <+: start ++ names →
      (visit other depth levels path names (start ++ names)).filter (·.isOutside (home ++ [name]) start)
        = (visit tree depth levels path names (start ++ names)).filter (·.isOutside (home ++ [name]) start) := by
  induction depth with
  | zero => intro _ _ _ _; rfl
  | succ depth ih =>
    intro levels path names hplace
    rw [visit_succ, visit_succ, List.filter_flatMap, List.filter_flatMap]
    -- What is listed inside the directory can differ, but adds nothing outside it.
    have hinside : ∀ (seen : FileTree) (child : String × Entry),
        decide (¬home ++ [name] <+: start ++ names ++ [child.1]) = false →
        (foundAt seen depth levels path names (start ++ names) child).filter (·.isOutside (home ++ [name]) start) = [] := by
      rintro seen ⟨child, entry⟩ hchild
      have hfront : home ++ [name] <+: start ++ (names ++ [child]) := by simpa using hchild
      refine List.filter_eq_nil_iff.mpr fun found hfound => ?_
      have hbelow : names ++ [child] <+: found.names := by
        rcases mem_foundAt hfound with ⟨-, rfl⟩ | ⟨-, h⟩
        · exact List.prefix_refl _
        · exact names_of_mem_visit h
      have hfound := hfront.trans ((List.prefix_append_right_inj start).mpr hbelow)
      simpa [Found.isOutside] using hfound
    have hchildren := filter_children_eq hproper hother
      (fun child => decide (¬home ++ [name] <+: start ++ names ++ [child]))
      (fun child hchild => hagree _ (of_decide_eq_true hchild))
    rw [← flatMap_filter_eq (fun child => decide (¬home ++ [name] <+: start ++ names ++ [child.1]))
      fun child _ => hinside other child, ← flatMap_filter_eq (fun child =>
        decide (¬home ++ [name] <+: start ++ names ++ [child.1])) fun child _ => hinside tree child, hchildren]
    refine List.flatMap_congr ?_
    rintro ⟨child, entry⟩ hmem
    have hchild : ¬home ++ [name] <+: start ++ (names ++ [child]) := by
      have hkeep := (List.mem_filter.mp hmem).2
      simpa using hkeep
    unfold foundAt
    split
    · rfl
    · cases entry with
      | file content => rfl
      | directory =>
        simp only
        rw [List.append_assoc, levelAt_eq hname hagree hchild]
        exact ih _ _ hchild

/-- **What a walk finds outside a directory** is the same in two trees that agree there. -/
theorem filter_filesBelow_eq (hname : name ∉ ignoreNames) (hproper : tree.Proper) (hother : other.Proper)
    (hagree : AgreeOutside (home ++ [name]) tree other) {start : String}
    (hlocate : tree.locate start = .ok (Path.target start)) (hlocate' : other.locate start = .ok (Path.target start))
    (hstart : ¬home ++ [name] <+: Path.target start) :
    (filesBelow other start).filter (·.isOutside (home ++ [name]) (Path.target start))
      = (filesBelow tree start).filter (·.isOutside (home ++ [name]) (Path.target start)) := by
  unfold filesBelow
  simp only [hlocate, hlocate', hagree _ hstart]
  cases tree.get? (Path.target start) with
  | none => rfl
  | some entry =>
    cases entry with
    | file content => rfl
    | directory =>
      simp only
      rw [levelAt_eq hname hagree hstart, levelsAbove_eq hname hagree hstart]
      -- Both walks may go as deep as the larger tree needs.
      have htree := below_le tree (Path.target start)
      have hbelow := below_le other (Path.target start)
      rw [visit_eq_of_below_lt hother (tree.entries.length + other.entries.length + 1) (by omega) (by omega),
        visit_eq_of_below_lt hproper (tree.entries.length + other.entries.length + 1) (by omega) (by omega)]
      have hnone : ¬home ++ [name] <+: Path.target start ++ [] := by rwa [List.append_nil]
      have hvisit := filter_visit_eq hname hproper hother hagree (Path.target start)
        (tree.entries.length + other.entries.length + 1)
        (levelAt tree (.within start) (Path.target start) :: levelsAbove tree (Path.target start)) start hnone
      rwa [List.append_nil] at hvisit

end Agree

end Walk
end ThreatModel
