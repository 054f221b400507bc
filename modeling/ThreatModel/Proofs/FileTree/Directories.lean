import Mathlib
import ThreatModel.Proofs.FileTree

/-!
# `Proofs.FileTree.Directories` — what creating directories changes

Creating a directory together with those that lead to it puts directories where nothing was, each under a name that
stands in the path, and changes nothing else. This is so whether it succeeds or stops on the way.

## Contents

* `Part.text`, `pieces_ofParts`, `mem_pieces_of_mem_parent` — the pieces of paths that are put together, and those of
  the path above a path.
* `follow_ok` — where pieces lead: to a directory, or to a name among them.
* `Keeps` — what is at a place stays, created directories apart.
* `createDirectories_keeps` — creating directories keeps all else.
-/

namespace ThreatModel

/-! ## The path above a path -/

namespace Path

/-- The text of a part as it stands in a path. -/
def Part.text : Part → String
  | .root => ""
  | .here => "."
  | .up => ".."
  | .name text => text

/-- A path is put together from the texts of its parts, except the path of the root. -/
theorem ofParts_eq {ps : List Part} (h : ps ≠ [.root]) : ofParts ps = "/".intercalate (ps.map Part.text) := by
  unfold ofParts
  split
  · exact absurd rfl h
  · refine congrArg "/".intercalate (List.map_congr_left fun part _ => ?_)
    cases part <;> rfl

/-- The text of a part of a path is one of the pieces of the path. -/
theorem text_mem_pieces {path : String} {part : Part} (h : part ∈ parts path) : part.text ∈ pieces path := by
  have hnamed : part ∈ (pieces path).filterMap (fun piece =>
      if piece = "" || piece = "." then none
      else if piece = ".." then some .up
      else some (.name piece)) → part.text ∈ pieces path := by
    intro h
    obtain ⟨piece, hpiece, heq⟩ := List.mem_filterMap.mp h
    split at heq
    · cases heq
    · split at heq
      · next hup =>
        obtain rfl := Option.some.inj heq
        obtain rfl := hup
        exact hpiece
      · obtain rfl := Option.some.inj heq
        exact hpiece
  unfold parts at h
  simp only at h
  split at h
  · next hslash =>
    -- A slash at the start has an empty piece before it.
    rcases List.mem_cons.mp h with rfl | h
    · obtain ⟨rest, hrest⟩ := List.head?_eq_some_iff.mp hslash
      rw [pieces, hrest, Text.splitOn_cons_self, List.map_cons]
      exact List.mem_cons_self
    · exact hnamed h
  · split at h
    · next hhere =>
      rcases List.mem_cons.mp h with rfl | h
      · exact List.mem_of_mem_head? hhere
      · exact hnamed h
    · exact hnamed h

theorem slash_not_mem_of_mem_pieces {path piece : String} (h : piece ∈ pieces path) : '/' ∉ piece.toList := by
  obtain ⟨part, hpart, rfl⟩ := List.mem_map.mp h
  rw [String.toList_ofList]
  exact (Text.sublist_of_mem_splitOn hpart).2

/-- The pieces of a path that is put together are the texts of its parts. -/
theorem pieces_ofParts {ps : List Part} (hne : ps ≠ []) (hroot : ps ≠ [.root])
    (hslash : ∀ part ∈ ps, '/' ∉ part.text.toList) : pieces (ofParts ps) = ps.map Part.text := by
  have hnil : (ps.map Part.text).map String.toList ≠ [] := by simpa using hne
  have hwords : ∀ text ∈ (ps.map Part.text).map String.toList, '/' ∉ text := by
    intro text htext
    obtain ⟨word, hword, rfl⟩ := List.mem_map.mp htext
    obtain ⟨part, hpart, rfl⟩ := List.mem_map.mp hword
    exact hslash part hpart
  have hseparator : "/".toList = ['/'] := rfl
  rw [ofParts_eq hroot, pieces, String.toList_intercalate, hseparator, Text.splitOn_intercalate hnil hwords,
    List.map_map]
  simp

/-- The pieces of a path that is put together from parts of a path are pieces of that path. -/
theorem mem_pieces_ofParts {path piece : String} {ps : List Part} (hps : ∀ part ∈ ps, part ∈ parts path)
    (hne : ofParts ps ≠ "") (h : piece ∈ pieces (ofParts ps)) : piece ∈ pieces path := by
  have htext : ∀ part ∈ ps, part.text ∈ pieces path := fun part hpart => text_mem_pieces (hps part hpart)
  by_cases hroot : ps = [.root]
  · -- The path of the root has only empty pieces.
    subst hroot
    have hslash : pieces (ofParts [.root]) = ["", ""] := rfl
    rw [hslash] at h
    obtain rfl : piece = "" := by simpa using h
    exact htext .root List.mem_cons_self
  · have hnil : ps ≠ [] := by
      rintro rfl
      exact hne rfl
    rw [pieces_ofParts hnil hroot fun part hpart => slash_not_mem_of_mem_pieces (htext part hpart)] at h
    obtain ⟨part, hpart, rfl⟩ := List.mem_map.mp h
    exact htext part hpart

/-- The pieces of the path above a path are pieces of that path. -/
theorem mem_pieces_of_mem_parent {path parent piece : String} (hparent : parent? path = some parent)
    (hne : parent ≠ "") (h : piece ∈ pieces parent) : piece ∈ pieces path := by
  obtain rfl : ofParts (parts path).dropLast = parent := by
    unfold parent? at hparent
    split at hparent
    · cases hparent
    · cases hparent
    · exact Option.some.inj hparent
  exact mem_pieces_ofParts (fun _ hpart => (List.dropLast_sublist _).subset hpart) hne h

end Path

namespace FileTree

/-! ## Where pieces lead -/

/-- Pieces lead to a directory, or to a name among them. -/
theorem follow_ok {tree : FileTree} {here place : Place} {pieces : List String}
    (h : tree.follow here pieces = .ok place) (hhere : tree.Solid here) :
    tree.get? place = some .directory ∨ ∃ name ∈ pieces, place.getLast? = some name := by
  induction pieces generalizing here with
  | nil =>
    obtain rfl := Except.ok.inj h
    exact Or.inl (hhere here (List.prefix_refl here))
  | cons piece rest ih =>
    have hlater : (tree.get? place = some .directory ∨ ∃ name ∈ rest, place.getLast? = some name) →
        tree.get? place = some .directory ∨ ∃ name ∈ piece :: rest, place.getLast? = some name :=
      Or.imp_right fun ⟨name, hname, hlast⟩ => ⟨name, List.mem_cons_of_mem _ hname, hlast⟩
    have hname : place = here ++ [piece] → ∃ name ∈ piece :: rest, place.getLast? = some name := fun heq =>
      ⟨piece, List.mem_cons_self, by rw [heq, List.getLast?_concat]⟩
    rw [follow] at h
    split at h
    · split at h
      · exact hlater (ih h hhere)
      · cases h
    · split at h
      · split at h
        · cases h
        · exact hlater (ih h hhere.dropLast)
      · split at h
        · cases h
        · simp only at h
          split at h
          · exact Or.inr (hname (Except.ok.inj h).symm)
          · split at h
            · split at h
              · exact Or.inr (hname (Except.ok.inj h).symm)
              · cases h
            · next hthere => exact hlater (ih h (hhere.down hthere))
            · cases h

/-- A path leads to a directory, or to a name among its pieces. -/
theorem locate_ok {tree : FileTree} {path : String} {place : Place} (h : tree.locate path = .ok place) :
    tree.get? place = some .directory ∨ ∃ name ∈ Path.pieces path, place.getLast? = some name := by
  unfold locate at h
  split at h
  · cases h
  · split at h
    · cases h
    · exact follow_ok h (solid_nil tree)

/-! ## Created directories -/

/-- What is at a place stays as it is, unless nothing is there and a directory is created under one of the names. -/
def Keeps (names : List String) (tree after : FileTree) (place : Place) : Prop :=
  after.get? place = tree.get? place ∨
    tree.get? place = none ∧ after.get? place = some .directory ∧ ∃ name ∈ names, place.getLast? = some name

variable {names : List String} {tree between after : FileTree} {place : Place}

theorem Keeps.trans (h : tree.Keeps names between place) (h' : between.Keeps names after place) :
    tree.Keeps names after place := by
  rcases h with h | ⟨hnone, hdirectory, hname⟩
  · rwa [Keeps, h] at h'
  · rcases h' with h' | ⟨hnone', -, -⟩
    · exact Or.inr ⟨hnone, h'.trans hdirectory, hname⟩
    · rw [hdirectory] at hnone'
      cases hnone'

theorem Keeps.mono {more : List String} (h : tree.Keeps names after place) (hnames : ∀ name ∈ names, name ∈ more) :
    tree.Keeps more after place :=
  h.imp_right fun ⟨hnone, hdirectory, name, hname, hlast⟩ => ⟨hnone, hdirectory, name, hnames name hname, hlast⟩

/-- One more directory is under a name of its path, where nothing was. -/
theorem createDirectory_keeps {path : String} (h : tree.createDirectory path = .ok after) (place : Place) :
    tree.Keeps (Path.pieces path) after place := by
  obtain ⟨target, hlocate, h⟩ := bind_ok.mp h
  split at h
  · cases h
  · next hfree =>
    obtain rfl := Except.ok.inj h
    have hnone : tree.get? target = none := by simpa using hfree
    have hne : target ≠ [] := by
      rintro rfl
      cases hnone
    rcases locate_ok hlocate with hdirectory | hname
    · rw [hnone] at hdirectory
      cases hdirectory
    · unfold Keeps
      rw [get?_set tree hne]
      by_cases heq : place = target
      · subst heq
        exact Or.inr ⟨hnone, if_pos rfl, hname⟩
      · exact Or.inl (if_neg heq)

/-- The ways in which a directory is created change nothing else. -/
theorem Creates.keeps {system : System} {fuel : Nat} {path : String} {error : Option FileError}
    (h : Creates system fuel tree path after error) (place : Place) : tree.Keeps (Path.pieces path) after place := by
  -- The directories above come first; their names stand in the path as well.
  have habove : ∀ {fuel tree above path parent error}, Path.parent? path = some parent →
      Creates system fuel tree parent above error → FileTree.Keeps (Path.pieces parent) tree above place →
      FileTree.Keeps (Path.pieces path) tree above place := by
    intro fuel tree above path parent error hparent hcreates h
    by_cases hempty : parent = ""
    · subst hempty
      exact Or.inl (by rw [hcreates.eq_of_empty])
    · exact h.mono fun name => Path.mem_pieces_of_mem_parent hparent hempty
  induction h with
  | nothing => exact Or.inl rfl
  | created _ hcreate => exact createDirectory_keeps (System.createDirectory_ok hcreate) place
  | kept => exact Or.inl rfl
  | stoppedAbove _ _ hparent hcreates ih => exact habove hparent hcreates ih
  | createdBelow _ _ hparent hcreates hbelow ih =>
    exact (habove hparent hcreates ih).trans (createDirectory_keeps (System.createDirectory_ok hbelow) place)
  | keptBelow _ _ hparent hcreates _ ih => exact habove hparent hcreates ih

/-- **Creating directories changes nothing else**, under any system: where something is it stays, and where nothing was
there may now be a directory, under a name that stands in the path. -/
theorem createDirectories_keeps (system : System) (tree : FileTree) (path : String) (place : Place) :
    tree.Keeps (Path.pieces path) (tree.createDirectories path system).1 place :=
  (creates_createDirectories system tree path).keeps place

end FileTree
end ThreatModel
