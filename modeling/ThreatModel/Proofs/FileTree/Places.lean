import Mathlib
import ThreatModel.Proofs.FileTree.Directories
import ThreatModel.Proofs.Store.Save

/-!
# `Proofs.FileTree.Places` — places that paths name, and trees whose files have names

Whether a path leads anywhere depends on the tree, but the place it leads to is spelled by the path: its parts alone say
where it is. So two trees can only disagree on whether a path leads somewhere, and on what is found there.

A proper tree has one entry at a place, and every name in it can stand in a path. All operations keep a tree proper.

## Contents

* `Path.target`, `locate_eq_target`, `LiesIn` — the place that a path spells, and paths into a directory.
* `locate_mono` — paths that still lead where they led.
* `leads_of_follow`, `within_of_locate`, `Within.down` — paths that lead to a directory, and to the directories in it.
* `createDirectories_join`, `createDirectories_join_error` — when a directory in a directory is created, and why not.
* `Proper`, `get?_eq_some_iff` — proper trees, and what is found in them.
* `AgreeOutside` — trees that hold the same outside a directory.
* `FileAction.Preserves`, `preserves_save` — what actions keep of a tree; a save keeps it proper.
-/

namespace ThreatModel

/-! ## The place that a path spells -/

namespace Path

/-- The place that one part of a path leads to. -/
def Part.onward (here : Place) : Part → Place
  | .root | .here => here
  | .up => here.dropLast
  | .name text => here ++ [text]

/-- The place that a path leads to from the directory of a tree, if it leads anywhere. -/
def target (path : String) : Place := (parts path).foldl Part.onward []

/-- The part that a piece of a path stands for, if it stands for any. -/
def partOf (piece : String) : Option Part :=
  if piece = "" || piece = "." then none
  else if piece = ".." then some .up
  else some (.name piece)

/-- The sort of start that a path has leads nowhere by itself. -/
theorem foldl_parts (path : String) (here : Place) :
    (parts path).foldl Part.onward here = ((pieces path).filterMap partOf).foldl Part.onward here := by
  have hparts : parts path = (pieces path).filterMap partOf ∨ parts path = .root :: (pieces path).filterMap partOf ∨
      parts path = .here :: (pieces path).filterMap partOf := by
    unfold parts
    simp only
    split
    · exact Or.inr (Or.inl rfl)
    · split
      · exact Or.inr (Or.inr rfl)
      · exact Or.inl rfl
  rcases hparts with h | h | h <;> rw [h] <;> rfl

end Path

namespace FileTree

/-- Pieces lead to the place that they spell. -/
theorem follow_eq_foldl {tree : FileTree} {here place : Place} {pieces : List String}
    (h : tree.follow here pieces = .ok place) :
    place = (pieces.filterMap Path.partOf).foldl Path.Part.onward here := by
  induction pieces generalizing here with
  | nil => exact (Except.ok.inj h).symm
  | cons piece rest ih =>
    rw [follow] at h
    rw [List.filterMap_cons]
    unfold Path.partOf
    split at h
    · next hplain =>
      rw [if_pos hplain]
      split at h
      · exact ih h
      · cases h
    · next hplain =>
      rw [if_neg hplain]
      split at h
      · next hup =>
        rw [if_pos hup]
        split at h
        · cases h
        · exact ih h
      · next hup =>
        rw [if_neg hup]
        -- The search ends early where only empty pieces are left, which spell nothing.
        have hempty : ∀ {pieces : List String}, pieces.all (· = "") = true → pieces.filterMap Path.partOf = [] := by
          intro pieces hall
          rw [List.filterMap_eq_nil_iff]
          intro other hother
          have hnone : other = "" := by simpa using List.all_eq_true.mp hall other hother
          rw [hnone]
          rfl
        split at h
        · cases h
        · simp only at h
          split at h
          · next hrest =>
            rw [hrest]
            exact (Except.ok.inj h).symm
          · split at h
            · split at h
              · next hall =>
                show place = (rest.filterMap Path.partOf).foldl Path.Part.onward (here ++ [piece])
                rw [hempty hall]
                exact (Except.ok.inj h).symm
              · cases h
            · exact ih h
            · cases h

/-- **A path leads to the place that it spells**, if it leads anywhere. -/
theorem locate_eq_target {tree : FileTree} {path : String} {place : Place} (h : tree.locate path = .ok place) :
    place = Path.target path := by
  unfold locate at h
  split at h
  · cases h
  · split at h
    · cases h
    · rw [Path.target, Path.foldl_parts]
      exact follow_eq_foldl h

/-- What a path leads to is found at the place that it spells. -/
theorem find?_eq_some_iff {tree : FileTree} {path : String} {entry : Entry} :
    tree.find? path = some entry ↔
      tree.locate path = .ok (Path.target path) ∧ tree.get? (Path.target path) = some entry := by
  unfold find?
  cases h : tree.locate path with
  | error e => simp
  | ok place => simp [locate_eq_target h]

/-- A path leads into a directory: to the directory itself, or to something in it, whether it is there or not. -/
def LiesIn (tree : FileTree) (directory : Place) (path : String) : Prop :=
  ∃ place, tree.locate path = .ok place ∧ directory <+: place

theorem liesIn_iff {tree : FileTree} {directory : Place} {path : String} :
    tree.LiesIn directory path ↔ tree.locate path = .ok (Path.target path) ∧ directory <+: Path.target path := by
  constructor
  · rintro ⟨place, hlocate, hplace⟩
    obtain rfl := locate_eq_target hlocate
    exact ⟨hlocate, hplace⟩
  · rintro ⟨hlocate, hplace⟩
    exact ⟨_, hlocate, hplace⟩

instance (tree : FileTree) (directory : Place) (path : String) : Decidable (tree.LiesIn directory path) :=
  decidable_of_iff (tree.locate path = .ok (Path.target path) ∧ directory <+: Path.target path) liesIn_iff.symm

/-! ## Paths that lead to a directory -/

/-- Pieces that are followed to a directory lead to it through directories only. -/
theorem leads_of_follow {tree : FileTree} {here place : Place} {pieces : List String}
    (h : tree.follow here pieces = .ok place) (hplace : tree.get? place = some .directory) :
    tree.Leads here pieces place := by
  induction pieces generalizing here with
  | nil =>
    obtain rfl := Except.ok.inj h
    exact .here here
  | cons piece rest ih =>
    rw [follow] at h
    split at h
    · next hplain =>
      split at h
      · next hhere => exact .stay (by simpa using hplain) hhere (ih h)
      · cases h
    · next hplain =>
      split at h
      · next hup =>
        obtain rfl := hup
        split at h
        · cases h
        · next hhere => exact .up hhere (ih h)
      · next hup =>
        split at h
        · cases h
        · next hfits =>
          have hname : IsName piece := by
            obtain ⟨hempty, hdot⟩ := not_or.mp (by simpa using hplain)
            exact ⟨hempty, hdot, hup, Nat.le_of_not_lt hfits⟩
          simp only at h
          split at h
          · next hrest =>
            obtain rfl := Except.ok.inj h
            rw [hrest]
            exact .down hname hplace (.here _)
          · split at h
            · next hnone =>
              split at h
              · obtain rfl := Except.ok.inj h
                rw [hnone] at hplace
                cases hplace
              · cases h
            · next hthere => exact .down hname hthere (ih h)
            · cases h

/-- Pieces lead to the same entry in a tree with at least the same directories. -/
theorem follow_mono {tree other : FileTree} (hextends : tree.Extends other) {here place : Place} {pieces : List String}
    (h : tree.follow here pieces = .ok place) (hplace : (tree.get? place).isSome = true) :
    other.follow here pieces = .ok place := by
  induction pieces generalizing here with
  | nil => exact h
  | cons piece rest ih =>
    rw [follow] at h ⊢
    split at h
    · next hplain =>
      rw [if_pos hplain]
      split at h
      · next hhere =>
        rw [if_pos (hextends _ hhere)]
        exact ih h
      · cases h
    · next hplain =>
      rw [if_neg hplain]
      split at h
      · next hup =>
        rw [if_pos hup]
        split at h
        · cases h
        · next hhere =>
          rw [if_neg hhere]
          exact ih h
      · next hup =>
        rw [if_neg hup]
        split at h
        · cases h
        · next hfits =>
          rw [if_neg hfits]
          simp only at h ⊢
          split at h
          · next hrest => rwa [if_pos hrest]
          · next hrest =>
            rw [if_neg hrest]
            split at h
            · next hnone =>
              split at h
              · obtain rfl := Except.ok.inj h
                rw [hnone] at hplace
                cases hplace
              · cases h
            · next hthere =>
              rw [hextends _ hthere]
              exact ih h
            · cases h

/-- A path leads to the same place in a tree with at least the same directories, if something is there. -/
theorem locate_mono {tree other : FileTree} (hextends : tree.Extends other) {path : String} {place : Place}
    (h : tree.locate path = .ok place) (hplace : (tree.get? place).isSome = true) : other.locate path = .ok place := by
  unfold locate at h ⊢
  split at h
  · cases h
  · next hzero =>
    rw [if_neg hzero]
    split at h
    · cases h
    · next hrelative =>
      rw [if_neg hrelative]
      exact follow_mono hextends h hplace

/-- An empty piece leads nowhere else. -/
theorem Leads.of_concat_empty {tree : FileTree} {here there : Place} {pieces : List String}
    (h : tree.Leads here (pieces ++ [""]) there) : tree.Leads here pieces there := by
  induction pieces generalizing here with
  | nil =>
    generalize hlast : [] ++ [""] = last at h
    cases h with
    | here => cases hlast
    | stay _ _ h =>
      obtain ⟨-, rfl⟩ := List.cons.inj hlast
      exact h
    | up _ _ => exact absurd (List.cons.inj hlast).1 (by decide)
    | down hname _ _ => exact absurd (List.cons.inj hlast).1.symm hname.not_empty
  | cons piece rest ih =>
    rcases h with _ | ⟨hplain, hhere, h⟩ | ⟨hhere, h⟩ | ⟨hname, hthere, h⟩
    · exact .stay hplain hhere (ih h)
    · exact .up hhere (ih h)
    · exact .down hname hthere (ih h)

/-- **A path that leads to a directory** leads to it through directories only. -/
theorem within_of_locate {tree : FileTree} {path : String} {place : Place} (h : tree.locate path = .ok place)
    (hplace : tree.get? place = some .directory) : tree.Within path place := by
  unfold locate at h
  split at h
  · cases h
  · next hzero =>
    split at h
    · cases h
    · next hrelative =>
      obtain ⟨hne, hrelative⟩ : path ≠ "" ∧ Path.isAbsolute path = false := by simpa using hrelative
      have hleads := leads_of_follow h hplace
      refine ⟨by simpa using hzero, hrelative, ?_⟩
      rw [directoryPieces, if_neg hne]
      split
      · next hslash =>
        -- The slash at the end adds an empty piece.
        obtain ⟨front, hfront⟩ := List.getLast?_eq_some_iff.mp hslash
        have hpieces : Path.pieces path = (Path.pieces path).dropLast ++ [""] := by
          rw [Path.pieces, hfront, Text.splitOn_concat_self, List.map_append, List.map_singleton, List.dropLast_concat]
        rw [hpieces] at hleads
        exact hleads.of_concat_empty
      · exact hleads

theorem Leads.concat {tree : FileTree} {here there : Place} {pieces : List String} {name : String}
    (h : tree.Leads here pieces there) (hname : IsName name)
    (hthere : tree.get? (there ++ [name]) = some .directory) : tree.Leads here (pieces ++ [name]) (there ++ [name]) := by
  induction h with
  | here place => exact .down hname hthere (.here _)
  | stay hplain hhere _ ih => exact .stay hplain hhere (ih hthere)
  | up hhere _ ih => exact .up hhere (ih hthere)
  | down hpiece hbelow _ ih => exact .down hpiece hbelow (ih hthere)

/-- The path of a directory in a directory leads to it. -/
theorem Within.down {tree : FileTree} {path name : String} {place : Place} (h : tree.Within path place)
    (hname : IsFileName name) (hthere : tree.get? (place ++ [name]) = some .directory) :
    tree.Within (Path.join path name) (place ++ [name]) := by
  have hslash : (Path.join path name).toList.getLast? ≠ some '/' := by
    have hend := endsInSlash_join hname path
    unfold endsInSlash at hend
    simpa using hend
  have hne : Path.join path name ≠ "" := by
    intro heq
    have hlast := congrArg List.getLast? (pieces_join hname.no_slash path)
    rw [heq, List.getLast?_concat] at hlast
    exact hname.not_empty (Option.some.inj (hlast.symm.trans rfl))
  refine ⟨(zero_mem_join hname path).not.mpr h.no_zero, ?_, ?_⟩
  · rw [isAbsolute_join hname.no_slash, h.relative]
  · rw [directoryPieces, if_neg hne, if_neg hslash, pieces_join hname.no_slash]
    exact h.leads.concat hname.toIsName hthere

/-- A directory in a directory can be created where nothing is. -/
theorem createDirectory_join {tree : FileTree} {path name : String} {place : Place} (h : tree.Within path place)
    (hname : IsFileName name) :
    tree.createDirectory (Path.join path name)
      = if (tree.get? (place ++ [name])).isSome then .error .exists_
        else .ok (tree.set (place ++ [name]) .directory) := by
  unfold FileTree.createDirectory
  rw [(locate_join_iff hname).mpr ⟨place, h, rfl⟩]
  rfl

theorem isDirectory_join {tree : FileTree} {path name : String} {place : Place} (h : tree.Within path place)
    (hname : IsFileName name) :
    tree.isDirectory (Path.join path name) = decide (tree.get? (place ++ [name]) = some .directory) := by
  unfold FileTree.isDirectory find?
  rw [(locate_join_iff hname).mpr ⟨place, h, rfl⟩]

/-- The path of something in a directory is not empty. -/
theorem join_ne_empty {tree : FileTree} {path name : String} {place : Place} (h : tree.Within path place)
    (hname : IsFileName name) : Path.join path name ≠ "" := by
  intro heq
  have hlocate : tree.locate (Path.join path name) = .ok (place ++ [name]) := (locate_join_iff hname).mpr ⟨place, h, rfl⟩
  rw [heq] at hlocate
  cases hlocate

/-- **When a directory in a directory is created**: where nothing is. A directory stays, and a file is in the way. -/
theorem createDirectories_join {tree : FileTree} {path name : String} {place : Place} (h : tree.Within path place)
    (hname : IsFileName name) :
    tree.createDirectories (Path.join path name)
      = match tree.get? (place ++ [name]) with
        | none => (tree.set (place ++ [name]) .directory, none)
        | some .directory => (tree, none)
        | some (.file _) => (tree, some .exists_) := by
  unfold FileTree.createDirectories createDirectories.go
  rw [if_neg (join_ne_empty h hname), System.willing_createDirectory, createDirectory_join h hname,
    isDirectory_join h hname]
  cases tree.get? (place ++ [name]) with
  | none => rfl
  | some entry =>
    cases entry with
    | file content => rfl
    | directory => rfl

/-- **Why a directory in a directory is not created**: a file is in the way, or the system refuses. The tree is as it
was. -/
theorem createDirectories_join_error {system : System} {tree after : FileTree} {path name : String} {place : Place}
    {e : FileError} (h : tree.Within path place) (hname : IsFileName name)
    (hcreate : tree.createDirectories (Path.join path name) system = (after, some e)) :
    after = tree ∧
      ((∃ content, tree.get? (place ++ [name]) = some (.file content)) ∧ e = .exists_ ∨
        tree.get? (place ++ [name]) ≠ some .directory ∧ ∃ reason, e = .refused reason) := by
  have hcreates := creates_createDirectories system tree (Path.join path name)
  rw [hcreate] at hcreates
  simp only at hcreates
  -- The directory that it is created in is there, so none above has to be created.
  have hfound : ¬system.createDirectory tree (Path.join path name) = .error .notFound := by
    intro hnotFound
    have hnone := System.notFound hnotFound
    rw [createDirectory_join h hname] at hnone
    split at hnone <;> cases hnone
  generalize (Path.parts (Path.join path name)).length = fuel at hcreates
  generalize hpath : Path.join path name = whole at hcreates hfound
  generalize hended : some e = ended at hcreates
  cases hcreates with
  | nothing => cases hended
  | created => cases hended
  | stoppedAbove _ hnotFound => exact absurd hnotFound hfound
  | createdBelow => cases hended
  | keptBelow _ hnotFound => exact absurd hnotFound hfound
  | @kept _ _ _ cause _ hcause =>
    subst hpath
    rw [isDirectory_join h hname] at hended
    split at hended
    · cases hended
    · next hnot =>
      obtain rfl := Option.some.inj hended
      have hnot : tree.get? (place ++ [name]) ≠ some .directory := by simpa using hnot
      refine ⟨rfl, ?_⟩
      unfold System.createDirectory at hcause
      split at hcause
      · next refusal _ =>
        obtain rfl := Except.error.inj hcause
        exact Or.inr ⟨hnot, refusal.reason, rfl⟩
      · rw [createDirectory_join h hname] at hcause
        split at hcause
        · next hsome =>
          obtain rfl := Except.error.inj hcause
          obtain ⟨entry, hentry⟩ := Option.isSome_iff_exists.mp hsome
          cases entry with
          | directory => exact absurd hentry hnot
          | file content => exact Or.inl ⟨⟨content, hentry⟩, rfl⟩
        · cases hcause

/-- **Creating a directory** in a directory puts it there, or leaves it there, and changes nothing else. -/
theorem get?_createDirectories_join {tree after : FileTree} {path name : String} {place : Place}
    (h : tree.Within path place) (hname : IsFileName name)
    (hcreate : tree.createDirectories (Path.join path name) = (after, none)) (other : Place) :
    after.get? other = if other = place ++ [name] then some .directory else tree.get? other := by
  rw [createDirectories_join h hname] at hcreate
  split at hcreate
  · obtain rfl := (Prod.mk.inj hcreate).1
    rw [get?_set tree (by simp)]
  · next hthere =>
    obtain rfl := (Prod.mk.inj hcreate).1
    split
    · next heq => rw [heq, hthere]
    · rfl
  · cases (Prod.mk.inj hcreate).2

/-! ## Proper trees -/

/-- A tree with one entry at a place, whose names can stand in paths. -/
structure Proper (tree : FileTree) : Prop where
  nodup : (tree.entries.map Prod.fst).Nodup
  names : ∀ entry ∈ tree.entries, ∀ name ∈ entry.1, IsFileName name

instance (name : String) : Decidable (IsFileName name) :=
  decidable_of_iff (name ≠ "" ∧ name ≠ "." ∧ name ≠ ".." ∧ name.utf8ByteSize ≤ 255 ∧ '/' ∉ name.toList ∧
    '\x00' ∉ name.toList)
    ⟨fun ⟨hempty, hhere, hup, hfits, hslash, hzero⟩ => ⟨⟨hempty, hhere, hup, hfits⟩, hslash, hzero⟩,
      fun h => ⟨h.not_empty, h.not_here, h.not_up, h.fits, h.no_slash, h.no_zero⟩⟩

instance (tree : FileTree) : Decidable tree.Proper :=
  decidable_of_iff ((tree.entries.map Prod.fst).Nodup ∧ ∀ entry ∈ tree.entries, ∀ name ∈ entry.1, IsFileName name)
    ⟨fun ⟨hnodup, hnames⟩ => ⟨hnodup, hnames⟩, fun h => ⟨h.nodup, h.names⟩⟩

/-- What is found in a proper tree below its own place is one of its entries. -/
theorem Proper.get?_eq_some_iff {tree : FileTree} (h : tree.Proper) {place : Place} (hplace : place ≠ [])
    {entry : Entry} : tree.get? place = some entry ↔ (place, entry) ∈ tree.entries := by
  have hnodup := h.nodup
  rw [get?, if_neg hplace]
  generalize tree.entries = entries at hnodup
  induction entries with
  | nil => simp
  | cons head rest ih =>
    obtain ⟨key, value⟩ := head
    rw [List.map_cons, List.nodup_cons] at hnodup
    rw [List.lookup_cons, List.mem_cons, Prod.mk.injEq]
    by_cases heq : place = key
    · subst heq
      have hnot : (place, entry) ∉ rest := fun hmem => hnodup.1 (List.mem_map.mpr ⟨_, hmem, rfl⟩)
      simp [hnot, eq_comm]
    · have hne : (place == key) = false := by simpa using heq
      simp [hne, heq, ih hnodup.2]

/-- A proper tree stays proper when an entry is put in a place whose names can stand in paths. -/
theorem Proper.set {tree : FileTree} (h : tree.Proper) {place : Place} (hnames : ∀ name ∈ place, IsFileName name)
    (entry : Entry) : (tree.set place entry).Proper where
  nodup := by
    have hsub : ((tree.erase place).entries.map Prod.fst).Sublist (tree.entries.map Prod.fst) :=
      List.filter_sublist.map Prod.fst
    refine List.nodup_cons.mpr ⟨fun hmem => ?_, h.nodup.sublist hsub⟩
    obtain ⟨other, hother, heq⟩ := List.mem_map.mp hmem
    have hne := (List.mem_filter.mp hother).2
    simp only [heq, ne_eq, not_true, decide_false] at hne
    cases hne
  names := by
    intro other hother
    rcases List.mem_cons.mp hother with rfl | hother
    · exact hnames
    · exact h.names other (List.mem_filter.mp hother).1

theorem Proper.erase {tree : FileTree} (h : tree.Proper) (place : Place) : (tree.erase place).Proper where
  nodup := h.nodup.sublist (List.filter_sublist.map Prod.fst)
  names := fun entry hentry => h.names entry (List.mem_filter.mp hentry).1

/-- The names of a place that pieces lead to can stand in paths, as the pieces do. -/
theorem isFileName_of_follow {tree : FileTree} {here place : Place} {pieces : List String}
    (hpieces : ∀ piece ∈ pieces, '/' ∉ piece.toList ∧ '\x00' ∉ piece.toList)
    (hhere : ∀ name ∈ here, IsFileName name) (h : tree.follow here pieces = .ok place) :
    ∀ name ∈ place, IsFileName name := by
  induction pieces generalizing here with
  | nil =>
    obtain rfl := Except.ok.inj h
    exact hhere
  | cons piece rest ih =>
    obtain ⟨hpiece, hrest⟩ := List.forall_mem_cons.mp hpieces
    rw [follow] at h
    split at h
    · split at h
      · exact ih hrest hhere h
      · cases h
    · next hplain =>
      split at h
      · split at h
        · cases h
        · exact ih hrest (fun name hname => hhere name (List.mem_of_mem_dropLast hname)) h
      · next hup =>
        split at h
        · cases h
        · next hfits =>
          obtain ⟨hempty, hdot⟩ := not_or.mp (by simpa using hplain)
          have hname : IsFileName piece :=
            ⟨⟨hempty, hdot, hup, Nat.le_of_not_lt hfits⟩, hpiece.1, hpiece.2⟩
          have hthere : ∀ name ∈ here ++ [piece], IsFileName name := by
            intro name hmem
            rcases List.mem_append.mp hmem with hmem | hmem
            · exact hhere name hmem
            · obtain rfl := List.mem_singleton.mp hmem
              exact hname
          simp only at h
          split at h
          · obtain rfl := Except.ok.inj h
            exact hthere
          · split at h
            · split at h
              · obtain rfl := Except.ok.inj h
                exact hthere
              · cases h
            · exact ih hrest hthere h
            · cases h

/-- The names of a place that a path leads to can stand in paths. -/
theorem isFileName_of_locate {tree : FileTree} {path : String} {place : Place} (h : tree.locate path = .ok place) :
    ∀ name ∈ place, IsFileName name := by
  unfold locate at h
  split at h
  · cases h
  · next hzero =>
    split at h
    · cases h
    · refine isFileName_of_follow (fun piece hpiece => ⟨Path.slash_not_mem_of_mem_pieces hpiece, ?_⟩)
        (List.forall_mem_nil _) h
      obtain ⟨part, hpart, rfl⟩ := List.mem_map.mp hpiece
      rw [String.toList_ofList]
      intro hmem
      exact hzero (by simpa using (Text.sublist_of_mem_splitOn hpart).1.subset hmem)

theorem Proper.write {tree after : FileTree} {path : String} {content : ByteArray} (h : tree.Proper)
    (hwrite : tree.write path content = .ok after) : after.Proper := by
  obtain ⟨place, hlocate, hwrite⟩ := bind_ok.mp hwrite
  have hset := h.set (isFileName_of_locate hlocate) (.file content)
  split at hwrite
  · cases hwrite
  · exact Except.ok.inj hwrite ▸ hset
  · split at hwrite
    · cases hwrite
    · exact Except.ok.inj hwrite ▸ hset

theorem Proper.rename {tree after : FileTree} {source destination : String} (h : tree.Proper)
    (hrename : tree.rename source destination = .ok after) : after.Proper := by
  obtain ⟨origin, -, hrename⟩ := bind_ok.mp hrename
  obtain ⟨place, hlocate, hrename⟩ := bind_ok.mp hrename
  split at hrename
  · cases hrename
  · cases hrename
  · split at hrename
    · cases hrename
    · exact Except.ok.inj hrename ▸ (h.erase origin).set (isFileName_of_locate hlocate) _

theorem Proper.createDirectory {tree after : FileTree} {path : String} (h : tree.Proper)
    (hcreate : tree.createDirectory path = .ok after) : after.Proper := by
  obtain ⟨place, hlocate, hcreate⟩ := bind_ok.mp hcreate
  split at hcreate
  · cases hcreate
  · exact Except.ok.inj hcreate ▸ h.set (isFileName_of_locate hlocate) .directory

theorem Proper.createDirectories {tree : FileTree} {system : System} (h : tree.Proper) (path : String) :
    (tree.createDirectories path system).1.Proper := by
  have hcreates : ∀ {fuel tree path after error}, Creates system fuel tree path after error → tree.Proper →
      after.Proper := by
    intro fuel tree path after error hcreates
    induction hcreates with
    | nothing => exact id
    | created _ hcreate => exact fun h => h.createDirectory (System.createDirectory_ok hcreate)
    | kept => exact id
    | stoppedAbove _ _ _ _ ih => exact ih
    | createdBelow _ _ _ _ hbelow ih => exact fun h => (ih h).createDirectory (System.createDirectory_ok hbelow)
    | keptBelow _ _ _ _ _ ih => exact ih
  exact hcreates (creates_createDirectories system tree path) h

/-! ## Trees that agree -/

/-- Two trees that hold the same outside a directory. -/
def AgreeOutside (directory : Place) (tree other : FileTree) : Prop :=
  ∀ place, ¬directory <+: place → other.get? place = tree.get? place

theorem AgreeOutside.trans {directory : Place} {tree other third : FileTree} (h : AgreeOutside directory tree other)
    (h' : AgreeOutside directory other third) : AgreeOutside directory tree third :=
  fun place hplace => (h' place hplace).trans (h place hplace)

/-- What a path leads to outside the directory is the same in both trees, if it is there in both. -/
theorem AgreeOutside.find?_eq {directory : Place} {tree other : FileTree} (h : AgreeOutside directory tree other)
    {path : String} {entry entry' : Entry} (hfind : tree.find? path = some entry)
    (hother : other.find? path = some entry') (houtside : ¬tree.LiesIn directory path) :
    other.find? path = tree.find? path := by
  obtain ⟨hlocate, hentry⟩ := find?_eq_some_iff.mp hfind
  obtain ⟨-, hentry'⟩ := find?_eq_some_iff.mp hother
  rw [hfind, hother, ← hentry, ← hentry']
  exact h _ fun hfront => houtside (liesIn_iff.mpr ⟨hlocate, hfront⟩)

/-- What a path leads to outside the directory is still there in a tree with at least the same directories. -/
theorem AgreeOutside.find?_of_extends {directory : Place} {tree other : FileTree}
    (h : AgreeOutside directory tree other) (hextends : tree.Extends other) {path : String} {entry : Entry}
    (hfind : tree.find? path = some entry) (houtside : ¬tree.LiesIn directory path) : other.find? path = some entry := by
  obtain ⟨hlocate, hentry⟩ := find?_eq_some_iff.mp hfind
  refine find?_eq_some_iff.mpr ⟨locate_mono hextends hlocate (by rw [hentry]; rfl), ?_⟩
  rw [h _ fun hfront => houtside (liesIn_iff.mpr ⟨hlocate, hfront⟩), hentry]

end FileTree

/-! ## What actions keep of a tree -/

namespace FileAction

variable {ε α β : Type} {p : FileTree → Prop}

/-- An action keeps a property of the tree, whether it succeeds or fails. -/
def Preserves (p : FileTree → Prop) (action : FileAction ε α) : Prop := ∀ tree, p tree → p (outcome action tree).2

theorem preserves_pure (a : α) : Preserves p (pure a : FileAction ε α) := fun _ h => h

theorem Preserves.bind {action : FileAction ε α} {next : α → FileAction ε β} (h : Preserves p action)
    (hnext : ∀ a, Preserves p (next a)) : Preserves p (action >>= next) := by
  intro tree htree
  have hbetween := h tree htree
  rw [outcome_bind]
  generalize outcome action tree = first at hbetween
  obtain ⟨result, between⟩ := first
  cases result with
  | error e => exact hbetween
  | ok a => exact hnext a between hbetween

theorem preserves_change {wrap : FileError → ε} {f : FileTree → FileTree × Option FileError}
    (h : ∀ tree, p tree → p (f tree).1) : Preserves p (change wrap f) := by
  intro tree htree
  have hafter := h tree htree
  rw [outcome_change]
  split
  · next heq =>
    rw [heq] at hafter
    exact hafter
  · next heq =>
    rw [heq] at hafter
    exact hafter

theorem preserves_forM {action : α → FileAction ε Unit} (h : ∀ x, Preserves p (action x)) (xs : List α) :
    Preserves p (xs.forM action) := by
  induction xs with
  | nil => exact preserves_pure ()
  | cons x rest ih => exact (h x).bind fun _ => ih

end FileAction

/-- Writing under a system keeps a tree proper, whether it succeeds or is refused. -/
theorem System.proper_write {system : System} {tree : FileTree} (h : tree.Proper) (path : String) (content : ByteArray) :
    (system.write tree path content).1.Proper := by
  generalize hwrite : system.write tree path content = ended
  obtain ⟨after, error⟩ := ended
  cases error with
  | none => exact h.write (write_ok hwrite)
  | some e =>
    rcases write_error hwrite with rfl | ⟨_, _, -, hpart⟩
    · exact h
    · exact h.write hpart

theorem System.proper_rename {system : System} {tree : FileTree} (h : tree.Proper) (source destination : String) :
    (system.rename tree source destination).1.Proper := by
  generalize hrename : system.rename tree source destination = ended
  obtain ⟨after, error⟩ := ended
  cases error with
  | none => exact h.rename (rename_ok hrename)
  | some e => exact rename_error hrename ▸ h

/-- **A save keeps a tree proper**, under any system. -/
theorem Store.preserves_save (s : Store) (g : Graph) (system : System) :
    FileAction.Preserves FileTree.Proper (s.save g system) := by
  refine (FileAction.preserves_change fun tree h => h.createDirectories _).bind fun _ => ?_
  refine FileAction.preserves_forM (fun document => ?_) _
  exact (FileAction.preserves_change fun tree h => System.proper_write h _ _).bind fun _ =>
    FileAction.preserves_change fun tree h => System.proper_rename h _ _

end ThreatModel
