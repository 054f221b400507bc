import Mathlib
import ThreatModel.Proofs.FileTree.Above
import ThreatModel.Proofs.Run.Apart
import ThreatModel.Proofs.Run.Failure

/-!
# `Proofs.Command.Start` — what a failed start of a project leaves

A project is started in two steps: its configuration is written, and the directory of its store is created. Nothing is
taken back when a step fails. So a start that fails in the first step leaves the tree as it was, but for directories on
the way to a project that was not there, and for a part of the configuration if the system stopped the writing; and one
that fails in the second step leaves the configuration. The second step fails because of a file in the place of the
store, or because the system refuses.

## Contents

* `Reached` — the tree in which a project is started.
* `Project.Begun` — a configuration whose writing was stopped.
* `save_error`, `save_ok`, `create_error` — writing a configuration.
* `startProject_error`, `exists_startProject` — the step at which a start fails, and starts by force.
* `startProject_of_contains`, `startProject_of_erase` — starts beside a configuration that is left.
* `failure_of_startProject` — what a failed start leaves.
* `changed_of_startProject` — failed starts that change the tree.
-/

namespace ThreatModel

open FileTree FileAction
open Run (projectFile)

/-- Directories on the way to a project may have been created, and nothing else is changed. Where the directory of the
project is there, nothing is changed at all. -/
structure Reached (directory : String) (tree between : FileTree) : Prop where
  keeps : ∀ place, tree.Keeps (Path.pieces directory) between place
  eq_of_within : ∀ home, tree.Within directory home → between = tree

/-- The tree after the directory above the files of a project has been created, as far as that was possible. -/
theorem reached_above (system : System) (directory : String) (tree : FileTree) :
    Reached directory tree (tree.createDirectories (Path.ofParts (Path.parts directory)) system).1 where
  keeps := createDirectories_above_keeps system tree directory
  eq_of_within := fun _ hwithin => by rw [createDirectories_above system hwithin]

/-- What is no directory on the way has been there before. -/
theorem Reached.get?_eq {directory : String} {tree between : FileTree} (h : Reached directory tree between)
    {place : Place} (hplace : between.get? place ≠ some .directory) : between.get? place = tree.get? place := by
  rcases h.keeps place with hkept | ⟨-, hdirectory, -⟩
  · exact hkept
  · exact absurd hdirectory hplace

/-! ## Writing a configuration -/

namespace Project

variable {directory : String} {force : Bool} {p : Project} {system : System} {tree between after : FileTree}
  {home : Place}

/-- The file that holds a configuration. -/
def toEntry (p : Project) : Entry := .file p.toYaml.render.toUTF8

/-- The system has stopped the writing of a configuration: its file is there, with a part of its text, in place of any
configuration before. -/
def Begun (p : Project) (directory : String) (e : FileError) (between after : FileTree) : Prop :=
  ∃ reason home written, e = .refused reason ∧ between.Within directory home ∧
    between.get? (home ++ [fileName]) ≠ some .directory ∧
    after = between.set (home ++ [fileName]) (.file (p.toYaml.render.toUTF8.extract 0 written))

/-- What is under the name of the configuration in the directory of a project is in the place of the configuration. -/
theorem contains_projectFile {entry : Entry} (h : tree.Within directory home)
    (hentry : tree.get? (home ++ [fileName]) = some entry) : tree.contains (projectFile directory) = true := by
  rw [contains, find?, projectFile, (locate_join_iff isFileName_fileName).mpr ⟨home, h, rfl⟩]
  simp only [hentry, Option.isSome_some]

/-- A configuration whose writing was stopped is in its place. -/
theorem Begun.contains {e : FileError} (h : Begun p directory e between after) :
    after.contains (projectFile directory) = true := by
  obtain ⟨reason, home, written, -, hwithin, hfree, rfl⟩ := h
  have hentry := get?_set between (List.append_ne_nil_of_right_ne_nil home (List.cons_ne_nil fileName []))
    (.file (p.toYaml.render.toUTF8.extract 0 written)) (home ++ [fileName])
  rw [if_pos rfl] at hentry
  exact contains_projectFile (hwithin.mono (extends_set hfree)) hentry

/-- A configuration is written after the directory above it is created. -/
theorem outcome_save (directory : String) (p : Project) (system : System) (tree : FileTree) :
    outcome (save (projectFile directory) p system) tree
      = match tree.createDirectories (Path.ofParts (Path.parts directory)) system with
        | (between, some e) => (.error (.file e), between)
        | (between, none) =>
          match system.write between (projectFile directory) p.toYaml.render.toUTF8 with
          | (after, some e) => (.error (.file e), after)
          | (after, none) => (.ok (), after) := by
  unfold save
  rw [projectFile, Path.parent?_join isFileName_fileName]
  simp only
  rw [outcome_bind, FileAction.createDirectories, outcome_change]
  obtain ⟨between, error⟩ := tree.createDirectories (Path.ofParts (Path.parts directory)) system
  cases error with
  | some e => rfl
  | none => exact outcome_change _ _ between

/-- **A configuration that is not written** leaves directories on the way to the project at most, or a part of itself. -/
theorem save_error {e : ProjectError} (h : outcome (save (projectFile directory) p system) tree = (.error e, after)) :
    ∃ f between, e = .file f ∧ Reached directory tree between ∧ (after = between ∨ Begun p directory f between after) := by
  have hreached := reached_above system directory tree
  rw [outcome_save] at h
  split at h
  · next between f hcreate =>
    obtain ⟨he, rfl⟩ := Prod.mk.inj h
    rw [hcreate] at hreached
    exact ⟨f, between, (Except.error.inj he).symm, hreached, Or.inl rfl⟩
  · next between hcreate =>
    rw [hcreate] at hreached
    split at h
    · next written f hwrite =>
      obtain ⟨he, rfl⟩ := Prod.mk.inj h
      refine ⟨f, between, (Except.error.inj he).symm, hreached, ?_⟩
      rcases System.write_error hwrite with rfl | ⟨reason, count, hrefused, hpart⟩
      · exact Or.inl rfl
      · obtain ⟨home, hwithin, hfree, heq⟩ := (write_join_ok isFileName_fileName).mp hpart
        exact Or.inr ⟨reason, home, count, hrefused, hwithin, hfree, heq⟩
    · cases (Prod.mk.inj h).1

/-- **A configuration that is written** is in the directory of the project, and nothing else is changed, but for
directories on the way there. -/
theorem save_ok (h : outcome (save (projectFile directory) p system) tree = (.ok (), after)) :
    ∃ between home, Reached directory tree between ∧ between.Within directory home ∧
      between.get? (home ++ [fileName]) ≠ some .directory ∧ after = between.set (home ++ [fileName]) p.toEntry := by
  have hreached := reached_above system directory tree
  rw [outcome_save] at h
  split at h
  · cases (Prod.mk.inj h).1
  · next between hcreate =>
    rw [hcreate] at hreached
    split at h
    · cases (Prod.mk.inj h).1
    · next written hwrite =>
      obtain ⟨-, rfl⟩ := Prod.mk.inj h
      obtain ⟨home, hwithin, hfree, heq⟩ := (write_join_ok isFileName_fileName).mp (System.write_ok hwrite)
      exact ⟨between, home, hreached, hwithin, hfree, heq⟩

/-- A configuration can be written in a directory that is there, unless a directory is in its place. -/
theorem outcome_save_of_within (h : tree.Within directory home)
    (hfree : tree.get? (home ++ [fileName]) ≠ some .directory) :
    outcome (save (projectFile directory) p) tree = (.ok (), tree.set (home ++ [fileName]) p.toEntry) := by
  have hwrite : System.willing.write tree (projectFile directory) p.toYaml.render.toUTF8
      = (tree.set (home ++ [fileName]) p.toEntry, none) :=
    System.willing_write_ok.mpr ((write_join_ok isFileName_fileName).mpr ⟨home, h, hfree, rfl⟩)
  rw [outcome_save, createDirectories_above .willing h]
  simp only [hwrite]

/-- A configuration that is there is only replaced by force. -/
theorem outcome_create (path : String) (force : Bool) (system : System) (tree : FileTree) :
    outcome (create path force system) tree
      = if tree.contains path && !force then (.error (.alreadyExists path), tree)
        else outcome (save path default system) tree := by
  have hlook : outcome (look fun tree => tree.contains path : FileAction ProjectError Bool) tree
      = (.ok (tree.contains path), tree) := rfl
  unfold create
  rw [outcome_bind, hlook]
  simp only
  split
  · rfl
  · rfl

/-- **A default configuration that is not written** is either refused because something is in its place, or it cannot
be written. -/
theorem create_error {e : ProjectError}
    (h : outcome (create (projectFile directory) force system) tree = (.error e, after)) :
    (e = .alreadyExists (projectFile directory) ∧ force = false ∧ tree.contains (projectFile directory) = true ∧
        after = tree) ∨
      ∃ f between, e = .file f ∧ Reached directory tree between ∧
        (after = between ∨ Begun default directory f between after) := by
  rw [outcome_create] at h
  split at h
  · next hthere =>
    obtain ⟨he, rfl⟩ := Prod.mk.inj h
    obtain ⟨hcontains, hforce⟩ : tree.contains (projectFile directory) = true ∧ force = false := by simpa using hthere
    exact Or.inl ⟨(Except.error.inj he).symm, hforce, hcontains, rfl⟩
  · exact Or.inr (save_error h)

/-- The default configuration is written as any other is. -/
theorem save_of_create (h : outcome (create (projectFile directory) force system) tree = (.ok (), after)) :
    outcome (save (projectFile directory) default system) tree = (.ok (), after) := by
  rw [outcome_create] at h
  split at h
  · cases (Prod.mk.inj h).1
  · exact h

end Project

/-! ## Starting a project -/

namespace Command

variable {o : Occasion} {directory : String} {force : Bool} {system : System} {tree after : FileTree} {home : Place}

/-- The tree with the configuration of a new project in a directory. -/
def configured (tree : FileTree) (home : Place) : FileTree :=
  tree.set (home ++ [Project.fileName]) Project.default.toEntry

theorem get?_configured (tree : FileTree) (home other : Place) :
    (configured tree home).get? other
      = if other = home ++ [Project.fileName] then some Project.default.toEntry else tree.get? other :=
  get?_set tree (List.append_ne_nil_of_right_ne_nil _ (List.cons_ne_nil _ _)) _ _

/-- The store is not in the place of the configuration. -/
theorem placeIn_ne (home : Place) : Store.placeIn home ≠ home ++ [Project.fileName] := by
  have hname : Store.directoryName ≠ Project.fileName := by decide
  simpa [Store.placeIn] using hname

theorem get?_configured_placeIn (tree : FileTree) (home : Place) :
    (configured tree home).get? (Store.placeIn home) = tree.get? (Store.placeIn home) := by
  rw [get?_configured, if_neg (placeIn_ne home)]

/-- **A start fails** in one of its two steps. -/
theorem startProject_error {e : CommandError}
    (h : outcome (startProject o directory force system) tree = (.error e, after)) :
    (∃ cause, outcome (Project.create (projectFile directory) force system) tree = (.error cause, after) ∧
        e = .project cause) ∨
      ∃ written f, outcome (Project.create (projectFile directory) force system) tree = (.ok (), written) ∧
        written.createDirectories (Path.join directory Store.directoryName) system = (after, some f) ∧ e = .file f := by
  rcases outcome_bind_error.mp h with h | ⟨⟨⟩, written, hcreate, h⟩
  · exact Or.inl (outcome_adapt_error.mp h)
  · obtain ⟨f, hstore, rfl⟩ := outcome_change_error.mp (outcome_bind_pure_error.mp h)
    exact Or.inr ⟨written, f, outcome_adapt_ok.mp hcreate, hstore, rfl⟩

/-- **Beside a configuration** a project is not started without force, whatever the system. -/
theorem startProject_of_contains (o : Occasion) (system : System) (h : tree.contains (projectFile directory) = true) :
    outcome (startProject o directory false system) tree
      = (.error (.project (.alreadyExists (projectFile directory))), tree) := by
  have hcreate : outcome (Project.create (projectFile directory) false system) tree
      = (.error (.alreadyExists (projectFile directory)), tree) := by
    rw [Project.outcome_create, h]
    rfl
  unfold startProject
  simp only
  rw [outcome_bind, outcome_adapt, hcreate]
  rfl

/-- A project is started by force wherever its directory is there, no directory is in the place of the configuration,
and no file is in that of the store. -/
theorem exists_startProject (o : Occasion) (h : tree.Within directory home)
    (hconfiguration : tree.get? (home ++ [Project.fileName]) ≠ some .directory)
    (hstore : ∀ content, tree.get? (Store.placeIn home) ≠ some (.file content)) :
    ∃ last, outcome (startProject o directory true) tree
      = (.ok (initMessages o.colors (projectFile directory)), last) := by
  have hcreate : outcome (Project.create (projectFile directory) true) tree = (.ok (), configured tree home) := by
    rw [Project.outcome_create, Bool.not_true, Bool.and_false, if_neg Bool.false_ne_true,
      Project.outcome_save_of_within h hconfiguration]
    rfl
  have hwithin : (configured tree home).Within directory home := h.mono (extends_set hconfiguration)
  have hcreated : ∃ last, (configured tree home).createDirectories (Path.join directory Store.directoryName)
      = (last, none) := by
    rw [createDirectories_join hwithin Store.isFileName_directoryName, ← Store.placeIn, get?_configured_placeIn]
    cases hentry : tree.get? (Store.placeIn home) with
    | none => exact ⟨_, rfl⟩
    | some entry =>
      cases entry with
      | directory => exact ⟨_, rfl⟩
      | file content => exact absurd hentry (hstore content)
  obtain ⟨last, hlast⟩ := hcreated
  refine ⟨last, outcome_bind_ok.mpr ⟨(), configured tree home, ?_, outcome_bind_ok.mpr ⟨(), last, ?_, rfl⟩⟩⟩
  · exact outcome_adapt_ok.mpr hcreate
  · exact outcome_createDirectories_ok.mpr hlast

/-- **After what is in the place of the store is removed**, the configuration that the failed start has left is only
replaced by force. -/
theorem startProject_of_erase (o : Occasion) (h : tree.Within directory home)
    (hfree : tree.get? (home ++ [Project.fileName]) ≠ some .directory)
    (hstore : tree.get? (Store.placeIn home) ≠ some .directory) :
    let cleared := (configured tree home).erase (Store.placeIn home)
    (∀ system, outcome (startProject o directory false system) cleared
        = (.error (.project (.alreadyExists (projectFile directory))), cleared)) ∧
      ∃ last, outcome (startProject o directory true) cleared
        = (.ok (initMessages o.colors (projectFile directory)), last) := by
  intro cleared
  have hplace : Store.placeIn home ≠ [] := List.append_ne_nil_of_right_ne_nil _ (List.cons_ne_nil _ _)
  have hblocked : (configured tree home).get? (Store.placeIn home) ≠ some .directory := by
    rwa [get?_configured_placeIn]
  have hwithin : cleared.Within directory home := h.mono ((extends_set hfree).trans (extends_erase hblocked))
  have hconfiguration : cleared.get? (home ++ [Project.fileName]) = some Project.default.toEntry := by
    rw [get?_erase _ hplace, if_neg (placeIn_ne home).symm, get?_configured, if_pos rfl]
  constructor
  · intro system
    exact startProject_of_contains o system (Project.contains_projectFile hwithin hconfiguration)
  · apply exists_startProject o hwithin
    · rw [hconfiguration]
      exact nofun
    · intro content
      rw [get?_erase _ hplace, if_pos rfl]
      exact nofun

/-- **What a failed start of a project leaves**, whatever is in the tree and whatever the system refuses.

* It refuses to replace what is in the place of the configuration unless by force, and then the tree is as it was.
* It cannot write the configuration, and then the tree is as it was, but for directories on the way to a project whose
  directory was not there. If the system stopped the writing, a part of the configuration may be there as well, and the
  project cannot be started again without force.
* A file is in the place of the store, or the system refuses to create it. Then the configuration is written and nothing
  else is changed, but for directories on the way. After what is in the place of the store is removed, the project
  cannot be started without force, but it can by force if the system refuses nothing. -/
theorem failure_of_startProject {e : CommandError}
    (h : outcome (startProject o directory force system) tree = (.error e, after)) :
    (e = .project (.alreadyExists (projectFile directory)) ∧ force = false ∧
        tree.contains (projectFile directory) = true ∧ after = tree) ∨
      (∃ f between, e = .project (.file f) ∧ Reached directory tree between ∧
        (after = between ∨
          Project.default.Begun directory f between after ∧
            ∀ o' system', outcome (startProject o' directory false system') after
              = (.error (.project (.alreadyExists (projectFile directory))), after))) ∨
      ∃ f between home, e = .file f ∧ Reached directory tree between ∧ between.Within directory home ∧
        ((∃ content, tree.get? (Store.placeIn home) = some (.file content)) ∧ f = .exists_ ∨
          tree.get? (Store.placeIn home) ≠ some .directory ∧ ∃ reason, f = .refused reason) ∧
        after = configured between home ∧
        ∀ o', (∀ system', outcome (startProject o' directory false system') (after.erase (Store.placeIn home))
            = (.error (.project (.alreadyExists (projectFile directory))), after.erase (Store.placeIn home))) ∧
          ∃ last, outcome (startProject o' directory true) (after.erase (Store.placeIn home))
            = (.ok (initMessages o'.colors (projectFile directory)), last) := by
  rcases startProject_error h with ⟨cause, hcreate, rfl⟩ | ⟨written, f, hcreate, hstore, rfl⟩
  · rcases Project.create_error hcreate with ⟨rfl, hforce, hcontains, hsame⟩ | ⟨f, between, rfl, hreached, hleft⟩
    · exact Or.inl ⟨rfl, hforce, hcontains, hsame⟩
    · refine Or.inr (Or.inl ⟨f, between, rfl, hreached, hleft.imp_right fun hbegun => ⟨hbegun, fun o' system' => ?_⟩⟩)
      exact startProject_of_contains o' system' hbegun.contains
  · obtain ⟨between, home, hreached, hwithin, hfree, hwritten⟩ := Project.save_ok (Project.save_of_create hcreate)
    obtain rfl : written = configured between home := hwritten
    have hconfigured : (configured between home).Within directory home := hwithin.mono (extends_set hfree)
    obtain ⟨rfl, hcause⟩ := createDirectories_join_error hconfigured Store.isFileName_directoryName hstore
    rw [← Store.placeIn, get?_configured_placeIn] at hcause
    -- What is in the place of the store is no directory on the way.
    have hblocked : between.get? (Store.placeIn home) ≠ some .directory := by
      rcases hcause with ⟨⟨content, hcontent⟩, -⟩ | ⟨hnot, -⟩
      · rw [hcontent]
        exact nofun
      · exact hnot
    rw [hreached.get?_eq hblocked] at hcause
    exact Or.inr (Or.inr ⟨f, between, home, rfl, hreached, hwithin, hcause, rfl,
      fun o' => startProject_of_erase o' hwithin hfree hblocked⟩)

/-! ### Starts that fail -/

/-- Nothing but a file in the place of the store. -/
def blocked : FileTree := ⟨[([Store.directoryName], .file "x".toUTF8)]⟩

/-- An occasion at which nothing else is given. -/
def plainly : Occasion := ⟨[], "", 0, false⟩

theorem within_blocked : blocked.Within "." [] where
  no_zero := by decide
  relative := by decide
  leads := .stay (Or.inr rfl) (get?_nil blocked) (.here [])

/-- A start beside a file in the place of the store writes the configuration, and nothing else. -/
theorem failure_of_startProject_blocked :
    outcome (startProject plainly "." false) blocked
      = (.error (.file .exists_), configured blocked []) := by
  have herror : (outcome (startProject plainly "." false) blocked).1 = .error (.file .exists_) := by decide +kernel
  generalize houtcome : outcome (startProject plainly "." false) blocked = ended at herror ⊢
  obtain ⟨result, after⟩ := ended
  obtain rfl : result = .error (.file .exists_) := herror
  rcases failure_of_startProject houtcome with ⟨he, -⟩ | ⟨f, between, he, -⟩ | ⟨f, between, home, -, h⟩
  · cases he
  · cases he
  · obtain ⟨hreached, hwithin, -, rfl, -⟩ := h
    obtain rfl := hreached.eq_of_within [] within_blocked
    obtain rfl := hwithin.unique within_blocked
    rfl

/-- **A start that fails can change the tree.** Beside a file in the place of the store the configuration is written;
after the file is removed a start without force is refused because of it. A start in the place of the file creates a
directory that is on the way there. -/
theorem changed_of_startProject :
    (blocked.contains (projectFile ".") = false ∧
      (outcome (startProject plainly "." false) blocked).1 = .error (.file .exists_) ∧
      (outcome (startProject plainly "." false) blocked).2.contains (projectFile ".") = true ∧
      (outcome (startProject plainly "." false)
          ((outcome (startProject plainly "." false) blocked).2.erase [Store.directoryName])).1
        = .error (.project (.alreadyExists (projectFile ".")))) ∧
    (blocked.contains "new" = false ∧
      (outcome (startProject plainly "new/../threatmodel" false) blocked).1 = .error (.project (.file .exists_)) ∧
      (outcome (startProject plainly "new/../threatmodel" false) blocked).2.isDirectory "new" = true) := by
  decide +kernel

end Command
end ThreatModel
