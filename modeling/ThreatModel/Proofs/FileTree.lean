import Mathlib
import ThreatModel.Proofs.FileTree.Action
import ThreatModel.Proofs.Text

/-!
# `Proofs.FileTree` — where the paths below a directory lead

A path to a file in a directory leads to the directory first, through directories only, and then to the name of
the file. So it leads to the same place in every tree that has at least the same directories, and all files of
one directory are found beside each other.

## Contents

* `get?_set`, `get?_erase` — what is found in a changed tree.
* `Leads`, `Solid` — the pieces of a path that lead to a directory, and places above which all is directories.
* `follow_cons_ok`, `follow_concat_iff` — where the pieces of a path to a file lead.
* `Within`, `locate_join_iff` — the place of a file in a directory.
* `readBytes_of_file`, `read_eq_of_file` — what is found as a file is read.
* `write_join_ok`, `rename_join_ok`, `readBytes_join_ok` — when a file of a directory is written, moved and read.
-/

namespace ThreatModel
namespace FileTree

/-! ## Changed trees -/

theorem get?_nil (tree : FileTree) : tree.get? [] = some .directory := rfl

theorem lookup_filter_ne {place other : Place} (h : other ≠ place) (entries : List (Place × Entry)) :
    (entries.filter fun entry => entry.1 ≠ place).lookup other = entries.lookup other := by
  induction entries with
  | nil => rfl
  | cons entry rest ih =>
    by_cases hplace : entry.1 = place
    · have hne : (other == entry.1) = false := by simpa [hplace] using h
      rw [List.filter_cons_of_neg (by simpa using hplace), ih, List.lookup_cons, hne]
    · rw [List.filter_cons_of_pos (by simpa using hplace), List.lookup_cons, List.lookup_cons, ih]

theorem lookup_filter_self (place : Place) (entries : List (Place × Entry)) :
    (entries.filter fun entry => entry.1 ≠ place).lookup place = none := by
  rw [List.lookup_eq_none_iff]
  intro entry hentry
  have hne := (List.mem_filter.mp hentry).2
  simp only [ne_eq, decide_not, Bool.not_eq_true', decide_eq_false_iff_not] at hne
  simpa using fun h => hne h.symm

/-- What is found after an entry is removed. -/
theorem get?_erase (tree : FileTree) {place : Place} (hplace : place ≠ []) (other : Place) :
    (tree.erase place).get? other = if other = place then none else tree.get? other := by
  unfold get? erase
  by_cases hother : other = place
  · subst hother
    rw [if_neg hplace, if_pos rfl]
    exact lookup_filter_self other tree.entries
  · rw [if_neg hother]
    by_cases hnil : other = []
    · rw [if_pos hnil, if_pos hnil]
    · rw [if_neg hnil, if_neg hnil]
      exact lookup_filter_ne hother tree.entries

/-- What is found after an entry is put in a place. -/
theorem get?_set (tree : FileTree) {place : Place} (hplace : place ≠ []) (entry : Entry) (other : Place) :
    (tree.set place entry).get? other = if other = place then some entry else tree.get? other := by
  by_cases hother : other = place
  · subst hother
    rw [if_pos rfl]
    unfold get? set
    rw [if_neg hplace, List.lookup_cons, beq_self_eq_true]
  · rw [if_neg hother, ← get?_erase tree hplace other |>.trans (if_neg hother)]
    have hne : (other == place) = false := by simpa using hother
    unfold get? set
    rw [List.lookup_cons, hne]

/-! ## Pieces that lead to a directory -/

/-- A name that leads to something in a directory. -/
structure IsName (piece : String) : Prop where
  not_empty : piece ≠ ""
  not_here : piece ≠ "."
  not_up : piece ≠ ".."
  fits : piece.utf8ByteSize ≤ 255

/-- The pieces of a path that lead from one directory to another, through directories only. -/
inductive Leads (tree : FileTree) : Place → List String → Place → Prop
  /-- Nothing leads nowhere else. -/
  | here (place : Place) : Leads tree place [] place
  /-- Empty pieces and single dots count for nothing. -/
  | stay {here there : Place} {piece : String} {rest : List String} :
      piece = "" ∨ piece = "." → tree.get? here = some .directory → Leads tree here rest there →
      Leads tree here (piece :: rest) there
  /-- Two dots lead to the directory above. -/
  | up {here there : Place} {rest : List String} :
      here ≠ [] → Leads tree here.dropLast rest there → Leads tree here (".." :: rest) there
  /-- A name leads to a directory below. -/
  | down {here there : Place} {piece : String} {rest : List String} :
      IsName piece → tree.get? (here ++ [piece]) = some .directory → Leads tree (here ++ [piece]) rest there →
      Leads tree here (piece :: rest) there

/-- A place that is a directory, as all places above it are. -/
def Solid (tree : FileTree) (place : Place) : Prop := ∀ above, above <+: place → tree.get? above = some .directory

theorem solid_nil (tree : FileTree) : tree.Solid [] := by
  intro above h
  rw [List.prefix_nil.mp h]
  exact get?_nil tree

theorem Solid.dropLast {tree : FileTree} {place : Place} (h : tree.Solid place) : tree.Solid place.dropLast :=
  fun above habove => h above (habove.trans (List.dropLast_prefix place))

theorem Solid.down {tree : FileTree} {place : Place} (h : tree.Solid place) {piece : String}
    (hpiece : tree.get? (place ++ [piece]) = some .directory) : tree.Solid (place ++ [piece]) := by
  intro above habove
  rcases List.prefix_concat_iff.mp habove with rfl | habove
  · exact hpiece
  · exact h above habove

/-- Directories lead to directories. -/
theorem Leads.solid {tree : FileTree} {here there : Place} {pieces : List String}
    (h : tree.Leads here pieces there) (hhere : tree.Solid here) : tree.Solid there := by
  induction h with
  | here => exact hhere
  | stay _ _ _ ih => exact ih hhere
  | up _ _ ih => exact ih hhere.dropLast
  | down _ hpiece _ ih => exact ih (hhere.down hpiece)

/-- A tree with at least the same directories. -/
def Extends (tree other : FileTree) : Prop :=
  ∀ place, tree.get? place = some .directory → other.get? place = some .directory

theorem Extends.trans {tree other third : FileTree} (h : tree.Extends other) (h' : other.Extends third) :
    tree.Extends third :=
  fun place hplace => h' place (h place hplace)

/-- Directories stay where an entry is put in the place of no directory. -/
theorem extends_set {tree : FileTree} {place : Place} {entry : Entry} (hfree : tree.get? place ≠ some .directory) :
    tree.Extends (tree.set place entry) := by
  have hne : place ≠ [] := fun h => hfree (h ▸ get?_nil tree)
  intro q hq
  rw [get?_set tree hne]
  split
  · next heq => exact absurd (heq ▸ hq) hfree
  · exact hq

/-- Directories stay where something else is removed. -/
theorem extends_erase {tree : FileTree} {place : Place} (hfree : tree.get? place ≠ some .directory) :
    tree.Extends (tree.erase place) := by
  have hne : place ≠ [] := fun h => hfree (h ▸ get?_nil tree)
  intro q hq
  rw [get?_erase tree hne]
  split
  · next heq => exact absurd (heq ▸ hq) hfree
  · exact hq

theorem Leads.mono {tree other : FileTree} (hextends : tree.Extends other) {here there : Place}
    {pieces : List String} (h : tree.Leads here pieces there) : other.Leads here pieces there := by
  induction h with
  | here place => exact .here place
  | stay hpiece hhere _ ih => exact .stay hpiece (hextends _ hhere) ih
  | up hhere _ ih => exact .up hhere ih
  | down hpiece hthere _ ih => exact .down hpiece (hextends _ hthere) ih

/-! ## Following pieces -/

theorem IsName.not_plain {piece : String} (h : IsName piece) : ¬(piece = "" || piece = ".") = true := by
  simp [h.not_empty, h.not_here]

/-- A name is put after the directory it is in. -/
theorem follow_name (tree : FileTree) (here : Place) {name : String} (hname : IsName name) :
    tree.follow here [name] = .ok (here ++ [name]) := by
  rw [follow, if_neg hname.not_plain, if_neg hname.not_up, if_neg (Nat.not_lt.mpr hname.fits)]
  simp only [if_true]

/-- A name of a directory is followed into it, if more pieces come after it. -/
theorem follow_down {tree : FileTree} {here : Place} {piece : String} (hpiece : IsName piece)
    (hthere : tree.get? (here ++ [piece]) = some .directory) {rest : List String} (hrest : rest ≠ []) :
    tree.follow here (piece :: rest) = tree.follow (here ++ [piece]) rest := by
  rw [follow, if_neg hpiece.not_plain, if_neg hpiece.not_up, if_neg (Nat.not_lt.mpr hpiece.fits)]
  simp only [hrest, if_false, hthere]

/-- Pieces that lead to a directory are followed to it, if more pieces come after them. -/
theorem Leads.follow_append {tree : FileTree} {here there : Place} {pieces : List String}
    (h : tree.Leads here pieces there) {more : List String} (hmore : more ≠ []) :
    tree.follow here (pieces ++ more) = tree.follow there more := by
  induction h with
  | here => rfl
  | stay hpiece hhere _ ih => rw [List.cons_append, follow, if_pos (by simpa using hpiece), if_pos hhere, ih]
  | up hhere _ ih => rw [List.cons_append, follow, if_neg (by decide), if_pos rfl, if_neg hhere, ih]
  | down hpiece hthere _ ih =>
    rw [List.cons_append, follow_down hpiece hthere (by simp [hmore]), ih]

/-- Pieces that lead to a directory are followed to it. -/
theorem Leads.follow {tree : FileTree} {here there : Place} {pieces : List String}
    (h : tree.Leads here pieces there) : tree.follow here pieces = .ok there := by
  induction h with
  | here => rfl
  | stay hpiece hhere _ ih => rw [FileTree.follow, if_pos (by simpa using hpiece), if_pos hhere, ih]
  | up hhere _ ih => rw [FileTree.follow, if_neg (by decide), if_pos rfl, if_neg hhere, ih]
  | @down here there piece rest hpiece hthere hrest ih =>
    -- The last piece is not looked up by the search, so it is a case of its own.
    by_cases hnil : rest = []
    · subst hnil
      rw [follow_name tree here hpiece, ← ih]
      rfl
    · rw [follow_down hpiece hthere hnil, ih]

/-- What following one more piece can do: stay, go up, or go down into a directory. Pieces of which one is not
empty come after it. -/
theorem follow_cons_ok {tree : FileTree} {here place : Place} {piece : String} {rest : List String}
    (hrest : (rest.all fun piece => piece = "") = false) (h : tree.follow here (piece :: rest) = .ok place) :
    ((piece = "" ∨ piece = ".") ∧ tree.get? here = some .directory ∧ tree.follow here rest = .ok place) ∨
      (piece = ".." ∧ here ≠ [] ∧ tree.follow here.dropLast rest = .ok place) ∨
      (IsName piece ∧ tree.get? (here ++ [piece]) = some .directory ∧
        tree.follow (here ++ [piece]) rest = .ok place) := by
  have hne : rest ≠ [] := by
    rintro rfl
    cases hrest
  rw [follow] at h
  by_cases hplain : (piece = "" || piece = ".") = true
  · rw [if_pos hplain] at h
    split at h
    · next hhere => exact Or.inl ⟨by simpa using hplain, hhere, h⟩
    · cases h
  · rw [if_neg hplain] at h
    by_cases hup : piece = ".."
    · rw [if_pos hup] at h
      split at h
      · cases h
      · next hhere => exact Or.inr (Or.inl ⟨hup, hhere, h⟩)
    · rw [if_neg hup] at h
      split at h
      · cases h
      · next hfits =>
        have hname : IsName piece := by
          obtain ⟨hempty, hdot⟩ := not_or.mp (by simpa using hplain)
          exact ⟨hempty, hdot, hup, Nat.le_of_not_lt hfits⟩
        simp only [if_false, hrest, Bool.false_eq_true] at h
        split at h
        · cases h
        · next hthere => exact Or.inr (Or.inr ⟨hname, hthere, h⟩)
        · cases h

/-- **Where the pieces of a path to a file lead**: to the directory first, and then to the name. -/
theorem follow_concat_iff {tree : FileTree} {here place : Place} {pieces : List String} {name : String}
    (hname : IsName name) :
    tree.follow here (pieces ++ [name]) = .ok place ↔ ∃ there, tree.Leads here pieces there ∧ place = there ++ [name] := by
  constructor
  · intro h
    induction pieces generalizing here with
    | nil =>
      rw [List.nil_append, follow_name tree here hname] at h
      exact ⟨here, .here here, (Except.ok.inj h).symm⟩
    | cons piece rest ih =>
      have hrest : ((rest ++ [name]).all fun piece => piece = "") = false := by
        rw [List.all_append]
        simp [hname.not_empty]
      rcases follow_cons_ok hrest h with ⟨hplain, hhere, h⟩ | ⟨rfl, hhere, h⟩ | ⟨hpiece, hthere, h⟩
      · obtain ⟨there, hleads, heq⟩ := ih h
        exact ⟨there, .stay hplain hhere hleads, heq⟩
      · obtain ⟨there, hleads, heq⟩ := ih h
        exact ⟨there, .up hhere hleads, heq⟩
      · obtain ⟨there, hleads, heq⟩ := ih h
        exact ⟨there, .down hpiece hthere hleads, heq⟩
  · rintro ⟨there, hleads, rfl⟩
    rw [hleads.follow_append (List.cons_ne_nil _ _), follow_name tree there hname]

/-! ## Files in a directory -/

/-- The name of a file as it stands at the end of a path. -/
structure IsFileName (name : String) : Prop extends IsName name where
  no_slash : '/' ∉ name.toList
  no_zero : '\x00' ∉ name.toList

/-- The pieces of the paths to the files of a directory, without the names of the files. -/
def directoryPieces (directory : String) : List String :=
  if directory = "" then []
  else if directory.toList.getLast? = some '/' then (Path.pieces directory).dropLast
  else Path.pieces directory

theorem isAbsolute_of_no_slash {name : String} (h : '/' ∉ name.toList) : Path.isAbsolute name = false := by
  have hhead : name.toList.head? ≠ some '/' := fun heq => h (List.mem_of_mem_head? heq)
  simpa [Path.isAbsolute] using hhead

/-- The path to a file in a directory, character by character. -/
theorem toList_join {name : String} (hname : '/' ∉ name.toList) (directory : String) :
    (Path.join directory name).toList
      = if directory = "" then name.toList
        else if directory.toList.getLast? = some '/' then directory.toList ++ name.toList
        else directory.toList ++ '/' :: name.toList := by
  unfold Path.join
  rw [isAbsolute_of_no_slash hname]
  by_cases hempty : directory = ""
  · simp [hempty]
  · by_cases hslash : directory.toList.getLast? = some '/'
    · simp [hempty, hslash]
    · simp [hempty, hslash]

/-- The pieces of the path to a file in a directory. -/
theorem pieces_join {name : String} (hname : '/' ∉ name.toList) (directory : String) :
    Path.pieces (Path.join directory name) = directoryPieces directory ++ [name] := by
  rw [Path.pieces, toList_join hname, directoryPieces]
  by_cases hempty : directory = ""
  · rw [if_pos hempty, if_pos hempty, Text.splitOn_of_not_mem hname, List.map_singleton, String.ofList_toList]
    rfl
  · rw [if_neg hempty, if_neg hempty]
    by_cases hslash : directory.toList.getLast? = some '/'
    · obtain ⟨front, hfront⟩ := List.getLast?_eq_some_iff.mp hslash
      rw [if_pos hslash, if_pos hslash, Path.pieces, hfront, List.append_assoc, List.singleton_append,
        Text.splitOn_append_cons, Text.splitOn_concat_self, Text.splitOn_of_not_mem hname, List.map_append,
        List.map_append, List.map_singleton, List.map_singleton, List.dropLast_concat, String.ofList_toList]
    · rw [if_neg hslash, if_neg hslash, Text.splitOn_append_cons, Text.splitOn_of_not_mem hname, List.map_append,
        List.map_singleton, String.ofList_toList]
      rfl

/-- The path of a directory leads, from the directory of the tree and through directories only, to a place. -/
structure Within (tree : FileTree) (directory : String) (place : Place) : Prop where
  no_zero : '\x00' ∉ directory.toList
  relative : Path.isAbsolute directory = false
  leads : tree.Leads [] (directoryPieces directory) place

theorem Within.mono {tree other : FileTree} (hextends : tree.Extends other) {directory : String} {place : Place}
    (h : tree.Within directory place) : other.Within directory place :=
  ⟨h.no_zero, h.relative, h.leads.mono hextends⟩

theorem Within.isDirectory {tree : FileTree} {directory : String} {place : Place} (h : tree.Within directory place) :
    tree.get? place = some .directory :=
  h.leads.solid (solid_nil tree) place (List.prefix_refl place)

theorem isAbsolute_join {name : String} (hname : '/' ∉ name.toList) (directory : String) :
    Path.isAbsolute (Path.join directory name) = Path.isAbsolute directory := by
  have hhead : (name.toList.head? = some '/') = False :=
    eq_false fun heq => hname (List.mem_of_mem_head? heq)
  rw [Path.isAbsolute, Path.isAbsolute, toList_join hname]
  by_cases hempty : directory = ""
  · simp [hempty, hhead]
  · have hne : directory.toList ≠ [] := by simpa using hempty
    rw [if_neg hempty]
    split <;> rw [List.head?_append_of_ne_nil _ hne]

theorem zero_mem_join {name : String} (hname : IsFileName name) (directory : String) :
    '\x00' ∈ (Path.join directory name).toList ↔ '\x00' ∈ directory.toList := by
  have hno := hname.no_zero
  rw [toList_join hname.no_slash]
  by_cases hempty : directory = ""
  · simp [hempty, hno]
  · rw [if_neg hempty]
    split
    · simp [hno]
    · simp [hno]

/-- **The place of a file in a directory**: its name after the place of the directory. -/
theorem locate_join_iff {tree : FileTree} {directory name : String} {place : Place} (hname : IsFileName name) :
    tree.locate (Path.join directory name) = .ok place ↔
      ∃ there, tree.Within directory there ∧ place = there ++ [name] := by
  have hne : Path.join directory name ≠ "" := by
    intro heq
    have hpieces := pieces_join hname.no_slash directory
    rw [heq] at hpieces
    have hlast := congrArg List.getLast? hpieces
    rw [List.getLast?_concat] at hlast
    exact hname.not_empty (Option.some.inj (hlast.symm.trans rfl))
  unfold locate
  rw [pieces_join hname.no_slash]
  simp only [isAbsolute_join hname.no_slash, hne, decide_false, Bool.false_or, List.contains_iff_mem]
  constructor
  · intro h
    split at h
    · cases h
    · next hzero =>
      split at h
      · cases h
      · next habsolute =>
        obtain ⟨there, hleads, heq⟩ := (follow_concat_iff hname.toIsName).mp h
        refine ⟨there, ⟨?_, by simpa using habsolute, hleads⟩, heq⟩
        exact fun hmem => hzero ((zero_mem_join hname directory).mpr hmem)
  · rintro ⟨there, hwithin, rfl⟩
    have hzero : '\x00' ∉ (Path.join directory name).toList :=
      fun hmem => hwithin.no_zero ((zero_mem_join hname directory).mp hmem)
    rw [if_neg hzero, hwithin.relative, if_neg (by decide)]
    exact (follow_concat_iff hname.toIsName).mpr ⟨there, hwithin.leads, rfl⟩

/-- **The place of the directory itself.** -/
theorem Within.locate {tree : FileTree} {directory : String} {place : Place} (h : tree.Within directory place)
    (hne : directory ≠ "") : tree.locate directory = .ok place := by
  unfold FileTree.locate
  have hzero : ¬directory.toList.contains '\x00' = true := by simpa using h.no_zero
  rw [if_neg hzero, h.relative, if_neg (by simpa using hne)]
  have hleads := h.leads
  rw [directoryPieces, if_neg hne] at hleads
  split at hleads
  · next hslash =>
    -- The slash at the end adds an empty piece, which leads nowhere else.
    obtain ⟨front, hfront⟩ := List.getLast?_eq_some_iff.mp hslash
    have hpieces : Path.pieces directory = (Path.pieces directory).dropLast ++ [""] := by
      rw [Path.pieces, hfront, Text.splitOn_concat_self, List.map_append, List.map_singleton, List.dropLast_concat]
    rw [hpieces, hleads.follow_append (List.cons_ne_nil _ _), follow, if_pos (by decide), if_pos h.isDirectory]
    rfl
  · exact hleads.follow

/-- The path of a directory leads to one place. -/
theorem Within.unique {tree : FileTree} {directory : String} {place other : Place}
    (h : tree.Within directory place) (hother : tree.Within directory other) : place = other := by
  have hname : IsFileName "x" := ⟨⟨by decide, by decide, by decide, by decide⟩, by decide, by decide⟩
  have hplace := (locate_join_iff hname).mpr ⟨place, h, rfl⟩
  have hsame := (locate_join_iff hname).mpr ⟨other, hother, rfl⟩
  exact (List.append_inj' (Except.ok.inj (hplace.symm.trans hsame)) rfl).1

/-! ## Operations on files in a directory -/

theorem endsInSlash_join {name : String} (hname : IsFileName name) (directory : String) :
    endsInSlash (Path.join directory name) = false := by
  have hne : name.toList ≠ [] := by simpa using hname.not_empty
  have hlast : name.toList.getLast? ≠ some '/' := fun h => hname.no_slash (List.mem_of_getLast? h)
  have hjoin : ∃ front, (Path.join directory name).toList = front ++ name.toList := by
    rw [toList_join hname.no_slash]
    split
    · exact ⟨[], rfl⟩
    · split
      · exact ⟨_, rfl⟩
      · exact ⟨directory.toList ++ ['/'], by simp⟩
  obtain ⟨front, hfront⟩ := hjoin
  rw [endsInSlash, hfront, List.getLast?_append_of_ne_nil _ hne]
  simpa using hlast

/-- Two steps succeed one after the other. -/
theorem bind_ok {ε α β : Type} {outcome : Except ε α} {next : α → Except ε β} {b : β} :
    (outcome >>= next) = .ok b ↔ ∃ a, outcome = .ok a ∧ next a = .ok b := by
  cases outcome with
  | error e => simp [bind, Except.bind]
  | ok a => simp [bind, Except.bind]

/-- What is found as a file is read. -/
theorem readBytes_of_file {tree : FileTree} {path : String} {content : ByteArray}
    (h : tree.find? path = some (.file content)) : tree.readBytes path = .ok content := by
  unfold find? at h
  split at h
  · next place hplace => simp only [readBytes, bind, Except.bind, hplace, h]
  · cases h

/-- What is found as the same file in two trees has the same text. -/
theorem read_eq_of_file {tree other : FileTree} {path : String} {content : ByteArray}
    (h : tree.find? path = some (.file content)) (hother : other.find? path = some (.file content)) :
    other.read path = tree.read path := by
  rw [FileTree.read, FileTree.read, readBytes_of_file h, readBytes_of_file hother]

/-- A file can be written wherever no directory is in its place. -/
theorem write_join_ok {tree after : FileTree} {directory name : String} {content : ByteArray}
    (hname : IsFileName name) :
    tree.write (Path.join directory name) content = .ok after ↔
      ∃ place, tree.Within directory place ∧ tree.get? (place ++ [name]) ≠ some .directory ∧
        after = tree.set (place ++ [name]) (.file content) := by
  rw [write, bind_ok]
  simp only [endsInSlash_join hname, Bool.false_eq_true, if_false]
  constructor
  · rintro ⟨target, hlocate, h⟩
    obtain ⟨place, hwithin, rfl⟩ := (locate_join_iff hname).mp hlocate
    split at h
    · cases h
    · next hentry => exact ⟨place, hwithin, by simp [hentry], (Except.ok.inj h).symm⟩
    · next hentry => exact ⟨place, hwithin, by simp [hentry], (Except.ok.inj h).symm⟩
  · rintro ⟨place, hwithin, hfree, rfl⟩
    refine ⟨place ++ [name], (locate_join_iff hname).mpr ⟨place, hwithin, rfl⟩, ?_⟩
    split
    · next h => exact absurd h hfree
    · rfl
    · rfl

/-- A file can be moved to another name of its directory unless a directory has that name. -/
theorem rename_join_ok {tree after : FileTree} {directory source target : String} (hsource : IsFileName source)
    (htarget : IsFileName target) :
    tree.rename (Path.join directory source) (Path.join directory target) = .ok after ↔
      ∃ place content, tree.Within directory place ∧ tree.get? (place ++ [source]) = some (.file content) ∧
        tree.get? (place ++ [target]) ≠ some .directory ∧
        after = (tree.erase (place ++ [source])).set (place ++ [target]) (.file content) := by
  rw [rename, bind_ok]
  simp only [bind_ok]
  constructor
  · rintro ⟨origin, horigin, goal, hgoal, h⟩
    obtain ⟨place, hwithin, rfl⟩ := (locate_join_iff hsource).mp horigin
    obtain ⟨other, hother, rfl⟩ := (locate_join_iff htarget).mp hgoal
    obtain rfl := hwithin.unique hother
    split at h
    · cases h
    · cases h
    · next content hentry =>
      split at h
      · cases h
      · next hfree => exact ⟨place, content, hwithin, hentry, hfree, (Except.ok.inj h).symm⟩
  · rintro ⟨place, content, hwithin, hentry, hfree, rfl⟩
    refine ⟨_, (locate_join_iff hsource).mpr ⟨place, hwithin, rfl⟩, _,
      (locate_join_iff htarget).mpr ⟨place, hwithin, rfl⟩, ?_⟩
    simp only [hentry, hfree, if_false]

/-- The bytes of a file in a directory. -/
theorem readBytes_join_ok {tree : FileTree} {directory name : String} {content : ByteArray}
    (hname : IsFileName name) :
    tree.readBytes (Path.join directory name) = .ok content ↔
      ∃ place, tree.Within directory place ∧ tree.get? (place ++ [name]) = some (.file content) := by
  rw [readBytes, bind_ok]
  constructor
  · rintro ⟨target, hlocate, h⟩
    obtain ⟨place, hwithin, rfl⟩ := (locate_join_iff hname).mp hlocate
    split at h
    · cases h
    · cases h
    · next before hentry =>
      obtain rfl := Except.ok.inj h
      exact ⟨place, hwithin, hentry⟩
  · rintro ⟨place, hwithin, hentry⟩
    refine ⟨_, (locate_join_iff hname).mpr ⟨place, hwithin, rfl⟩, ?_⟩
    simp only [hentry]

/-- A directory that is there already can be created again, under any system. -/
theorem createDirectories_of_within {tree : FileTree} {system : System} {directory : String} {place : Place}
    (h : tree.Within directory place) : tree.createDirectories directory system = (tree, none) := by
  by_cases hempty : directory = ""
  · subst hempty
    exact createDirectories_empty system tree
  · refine createDirectories_of_isDirectory ?_
    unfold FileTree.isDirectory find?
    rw [h.locate hempty]
    simp [h.isDirectory]

end FileTree
end ThreatModel
