import Mathlib
import ThreatModel.Proofs.Store.Interrupted
import ThreatModel.Proofs.Store.Outcome

/-!
# `Proofs.FileTree.Writing` — why a file cannot be written

Writing fails because of what is in the way, or because the system refuses it. That a file holds no text is a fault that
only reading finds, so an error tells whether something could not be read or could not be written.

## Contents

* `follow_ne_notText` … `createDirectory_ne_notText` — the operations that find no fault in the text of a file.
* `System.write_ne_notText`, `System.rename_ne_notText`, `createDirectories_ne_notText` — nor does any system.
* `OnlyWrites` — actions that can only fail because of a file that cannot be written.
-/

namespace ThreatModel

open Store (bind_error_iff)

/-! ## Operations -/

namespace FileTree

variable {tree : FileTree}

theorem follow_ne_notText {here : Place} {pieces : List String} : tree.follow here pieces ≠ .error .notText := by
  induction pieces generalizing here with
  | nil => simp [follow]
  | cons piece rest ih =>
    rw [follow]
    split
    · split
      · exact ih
      · simp
    · split
      · split
        · simp
        · exact ih
      · split
        · simp
        · simp only
          split
          · simp
          · split
            · split <;> simp
            · exact ih
            · simp

/-- That a file holds no text is no reason why a path leads nowhere. -/
theorem locate_ne_notText {path : String} : tree.locate path ≠ .error .notText := by
  unfold locate
  split
  · nofun
  · split
    · nofun
    · exact follow_ne_notText

theorem write_ne_notText {path : String} {content : ByteArray} : tree.write path content ≠ .error .notText := by
  intro h
  rcases bind_error_iff.mp h with h | ⟨place, -, h⟩
  · exact locate_ne_notText h
  · split at h
    · cases h
    · cases h
    · split at h <;> cases h

theorem rename_ne_notText {source destination : String} : tree.rename source destination ≠ .error .notText := by
  intro h
  rcases bind_error_iff.mp h with h | ⟨origin, -, h⟩
  · exact locate_ne_notText h
  · rcases bind_error_iff.mp h with h | ⟨target, -, h⟩
    · exact locate_ne_notText h
    · split at h
      · cases h
      · cases h
      · split at h <;> cases h

theorem createDirectory_ne_notText {path : String} : tree.createDirectory path ≠ .error .notText := by
  intro h
  rcases bind_error_iff.mp h with h | ⟨place, -, h⟩
  · exact locate_ne_notText h
  · split at h <;> cases h

end FileTree

/-! ## Systems -/

namespace System

variable {system : System} {tree : FileTree}

theorem createDirectory_ne_notText {path : String} : system.createDirectory tree path ≠ .error .notText := by
  unfold createDirectory
  split
  · nofun
  · exact FileTree.createDirectory_ne_notText

theorem write_ne_notText {path : String} {content : ByteArray} :
    (system.write tree path content).2 ≠ some .notText := by
  unfold write
  split
  · nofun
  · split
    · nofun
    · next hwrite =>
      rintro ⟨⟩
      exact FileTree.write_ne_notText hwrite
  · split
    · nofun
    · next hwrite =>
      rintro ⟨⟩
      exact FileTree.write_ne_notText hwrite

theorem rename_ne_notText {source destination : String} :
    (system.rename tree source destination).2 ≠ some .notText := by
  unfold rename
  split
  · nofun
  · split
    · nofun
    · next hrename =>
      rintro ⟨⟩
      exact FileTree.rename_ne_notText hrename

end System

/-- No directory is missing because some file holds no text. -/
theorem FileTree.createDirectories_ne_notText (system : System) (tree : FileTree) (path : String) :
    (tree.createDirectories path system).2 ≠ some .notText := by
  -- An error that is left is one of creating a single directory.
  have herror : ∀ {tree after : FileTree} {path : String} {e : FileError}, system.createDirectory tree path = .error e →
      (if after.isDirectory path then none else some e) ≠ some .notText := by
    intro tree after path e h heq
    split at heq
    · cases heq
    · obtain rfl := Option.some.inj heq
      exact System.createDirectory_ne_notText h
  have hcreates : ∀ {fuel tree path after error}, Creates system fuel tree path after error → error ≠ some .notText := by
    intro fuel tree path after error h
    induction h with
    | nothing => nofun
    | created => nofun
    | kept _ hcreate => exact herror hcreate
    | stoppedAbove _ _ _ _ ih => exact ih
    | createdBelow => nofun
    | keptBelow _ _ _ _ hbelow => exact herror hbelow
  exact hcreates (creates_createDirectories system tree path)

/-! ## Actions -/

/-- An action can only fail because of a file that cannot be written. -/
def FileAction.OnlyWrites {ε α : Type} (wrap : FileError → ε) (action : FileAction ε α) : Prop :=
  ∀ tree e after, action.outcome tree = (.error e, after) → ∃ f, f ≠ .notText ∧ e = wrap f

namespace FileAction

variable {ε α β : Type} {wrap : FileError → ε}

theorem onlyWrites_pure (a : α) : OnlyWrites wrap (pure a : FileAction ε α) := by
  intro tree e after h
  cases (Prod.mk.inj h).1

theorem OnlyWrites.bind {action : FileAction ε α} {next : α → FileAction ε β} (h : OnlyWrites wrap action)
    (hnext : ∀ a, OnlyWrites wrap (next a)) : OnlyWrites wrap (action >>= next) := by
  intro tree e after hfails
  rcases outcome_bind_error.mp hfails with hfails | ⟨a, between, -, hfails⟩
  · exact h tree e after hfails
  · exact hnext a between e after hfails

theorem onlyWrites_change {f : FileTree → FileTree × Option FileError} (hf : ∀ tree, (f tree).2 ≠ some .notText) :
    OnlyWrites wrap (change wrap f) := by
  intro tree e after h
  obtain ⟨cause, hcause, rfl⟩ := outcome_change_error.mp h
  refine ⟨cause, ?_, rfl⟩
  rintro rfl
  exact hf tree (congrArg Prod.snd hcause)

theorem onlyWrites_forM {action : α → FileAction ε Unit} (h : ∀ x, OnlyWrites wrap (action x)) (xs : List α) :
    OnlyWrites wrap (xs.forM action) := by
  intro tree e after hfails
  obtain ⟨before, x, rest, between, -, -, hx⟩ := outcome_forM_error hfails
  exact h x between e after hx

end FileAction

end ThreatModel
