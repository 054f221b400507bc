import Mathlib
import ThreatModel.FileTree

/-!
# `Proofs.FileTree.Action` — what actions do to a tree, and what a system lets them do

An action ends with a result or an error, and with the tree it leaves. A change that a system refuses ends with an
error, and leaves the tree as it was or a part of a file. What succeeds under some system is just what the tree allows,
so it succeeds in the same way under the system that refuses nothing.

## Contents

* `FileAction.outcome` — what an action does to a tree, and when it succeeds.
* `System.write_ok`, `System.rename_ok`, `createDirectories_ok` — changes that are not refused.
* `System.write_error`, `System.rename_error` — what is left by those that are.
* `Creates`, `creates_go` — the ways in which directories are created, or not.
* `FileAction.Granted` — actions that do under any system what they do under the willing one, if they succeed.
-/

namespace ThreatModel

/-! ## Outcomes -/

namespace FileAction

variable {ε α β : Type}

/-- What an action does to a tree: its result or error, and the tree after it. -/
def outcome (action : FileAction ε α) (tree : FileTree) : Except ε α × FileTree := action.run.run tree

theorem outcome_bind (action : FileAction ε α) (next : α → FileAction ε β) (tree : FileTree) :
    outcome (action >>= next) tree
      = match outcome action tree with
        | (.ok a, between) => outcome (next a) between
        | (.error e, between) => (.error e, between) := by
  unfold outcome
  rw [ExceptT.run_bind, StateT.run_bind]
  generalize StateT.run action.run tree = first
  obtain ⟨result, between⟩ := first
  cases result <;> rfl

/-- The tree is seen as it is. -/
theorem outcome_get (tree : FileTree) : outcome (get : FileAction ε FileTree) tree = (.ok tree, tree) := rfl

/-- Two actions succeed one after the other. -/
theorem outcome_bind_ok {action : FileAction ε α} {next : α → FileAction ε β} {tree after : FileTree} {b : β} :
    outcome (action >>= next) tree = (.ok b, after) ↔
      ∃ a between, outcome action tree = (.ok a, between) ∧ outcome (next a) between = (.ok b, after) := by
  rw [outcome_bind]
  obtain ⟨result, between⟩ := outcome action tree
  cases result with
  | error e => simp
  | ok a => simp

/-- Of two actions the first one fails, or else the second one. -/
theorem outcome_bind_error {action : FileAction ε α} {next : α → FileAction ε β} {tree after : FileTree} {e : ε} :
    outcome (action >>= next) tree = (.error e, after) ↔
      outcome action tree = (.error e, after) ∨
        ∃ a between, outcome action tree = (.ok a, between) ∧ outcome (next a) between = (.error e, after) := by
  rw [outcome_bind]
  obtain ⟨result, between⟩ := outcome action tree
  cases result with
  | error other => simp
  | ok a => simp

/-- A change that is stopped keeps what was changed before. -/
theorem outcome_change (wrap : FileError → ε) (f : FileTree → FileTree × Option FileError) (tree : FileTree) :
    outcome (change wrap f) tree
      = match f tree with
        | (after, some e) => (.error (wrap e), after)
        | (after, none) => (.ok (), after) := by
  unfold change
  rw [outcome_bind, outcome_get]
  cases h : f tree with
  | mk after error =>
    simp only [h]
    cases error <;> rfl

variable {wrap : FileError → ε} {tree after : FileTree}

theorem outcome_change_ok {f : FileTree → FileTree × Option FileError} :
    outcome (change wrap f) tree = (.ok (), after) ↔ f tree = (after, none) := by
  rw [outcome_change]
  obtain ⟨t, error⟩ := f tree
  cases error <;> simp

theorem outcome_change_error {f : FileTree → FileTree × Option FileError} {e : ε} :
    outcome (change wrap f) tree = (.error e, after) ↔ ∃ cause, f tree = (after, some cause) ∧ e = wrap cause := by
  rw [outcome_change]
  obtain ⟨t, error⟩ := f tree
  cases error with
  | none => simp
  | some cause => simp [eq_comm, and_comm]

end FileAction

/-! ## Changes under a system -/

namespace System

variable {system : System} {tree after : FileTree} {path source destination : String} {content : ByteArray}

@[simp] theorem willing_createDirectory (tree : FileTree) (path : String) :
    willing.createDirectory tree path = tree.createDirectory path := rfl

/-- A directory that is created is one that the tree has room for. -/
theorem createDirectory_ok (h : system.createDirectory tree path = .ok after) :
    tree.createDirectory path = .ok after := by
  unfold createDirectory at h
  split at h
  · cases h
  · exact h

/-- What is not found is not refused, but is not in the tree. -/
theorem notFound (h : system.createDirectory tree path = .error .notFound) :
    tree.createDirectory path = .error .notFound := by
  unfold createDirectory at h
  split at h
  · cases h
  · exact h

theorem willing_write_ok : willing.write tree path content = (after, none) ↔ tree.write path content = .ok after := by
  simp only [write, willing]
  cases tree.write path content <;> simp

theorem willing_rename_ok :
    willing.rename tree source destination = (after, none) ↔ tree.rename source destination = .ok after := by
  simp only [rename, willing]
  cases tree.rename source destination <;> simp

/-- A file that is written is written as a whole. -/
theorem write_ok (h : system.write tree path content = (after, none)) : tree.write path content = .ok after := by
  unfold write at h
  split at h
  · cases h
  · split at h <;> cases h
  · split at h
    · next hwrite =>
      cases h
      exact hwrite
    · cases h

/-- **A file that is not written** is as it was, or holds a part of its content. -/
theorem write_error {e : FileError} (h : system.write tree path content = (after, some e)) :
    after = tree ∨ ∃ reason written, e = .refused reason ∧ tree.write path (content.extract 0 written) = .ok after := by
  unfold write at h
  split at h
  · cases h
    exact Or.inl rfl
  · next reason written _ =>
    split at h
    · next hwrite =>
      cases h
      exact Or.inr ⟨reason, written, rfl, hwrite⟩
    · cases h
      exact Or.inl rfl
  · split at h
    · cases h
    · cases h
      exact Or.inl rfl

theorem rename_ok (h : system.rename tree source destination = (after, none)) :
    tree.rename source destination = .ok after := by
  unfold rename at h
  split at h
  · cases h
  · split at h
    · next hrename =>
      cases h
      exact hrename
    · cases h

/-- A file that is not moved stays where it is. -/
theorem rename_error {e : FileError} (h : system.rename tree source destination = (after, some e)) : after = tree := by
  unfold rename at h
  split at h
  · cases h
    rfl
  · split at h
    · cases h
    · cases h
      rfl

end System

namespace FileTree

variable {system : System} {tree after : FileTree} {path : String}

/-- What is a directory cannot be created. -/
theorem createDirectory_of_isDirectory (h : tree.isDirectory path = true) :
    tree.createDirectory path = .error .exists_ := by
  unfold isDirectory find? at h
  unfold createDirectory
  split at h
  · next hlocate =>
    rw [hlocate]
    have hentry : tree.get? _ = some .directory := of_decide_eq_true h
    simp only [bind, Except.bind, hentry, Option.isSome_some, if_true]
  · simp at h

/-- **A directory that is there** is not created again, and no system fails because of it. -/
theorem go_of_isDirectory {fuel : Nat} (hne : path ≠ "") (h : tree.isDirectory path = true) :
    createDirectories.go system fuel tree path = (tree, none) := by
  have hthere := createDirectory_of_isDirectory h
  unfold createDirectories.go
  rw [if_neg hne]
  split
  · next hcreate => cases hthere.symm.trans (System.createDirectory_ok hcreate)
  · next hcreate => cases hthere.symm.trans (System.notFound hcreate)
  · simp only [h, if_true]

/-- The directory of the tree itself is there. -/
theorem createDirectories_empty (system : System) (tree : FileTree) :
    tree.createDirectories "" system = (tree, none) := by
  unfold createDirectories createDirectories.go
  rfl

theorem createDirectories_of_isDirectory (h : tree.isDirectory path = true) :
    tree.createDirectories path system = (tree, none) := by
  by_cases hempty : path = ""
  · subst hempty
    exact createDirectories_empty system tree
  · exact go_of_isDirectory hempty h

/-- The ways in which a directory is created with those that lead to it, and what they leave: nothing has to be done, it
is created, or it is not and may be there anyway; or those above it come first. The number bounds how many are above. -/
inductive Creates (system : System) : Nat → FileTree → String → FileTree → Option FileError → Prop
  | nothing (fuel : Nat) (tree : FileTree) : Creates system fuel tree "" tree none
  | created {fuel : Nat} {tree after : FileTree} {path : String} : path ≠ "" →
      system.createDirectory tree path = .ok after → Creates system fuel tree path after none
  | kept {fuel : Nat} {tree : FileTree} {path : String} {e : FileError} : path ≠ "" →
      system.createDirectory tree path = .error e →
      Creates system fuel tree path tree (if tree.isDirectory path then none else some e)
  | stoppedAbove {fuel : Nat} {tree above : FileTree} {path parent : String} {e : FileError} : path ≠ "" →
      system.createDirectory tree path = .error .notFound → Path.parent? path = some parent →
      Creates system fuel tree parent above (some e) → Creates system (fuel + 1) tree path above (some e)
  | createdBelow {fuel : Nat} {tree above after : FileTree} {path parent : String} : path ≠ "" →
      system.createDirectory tree path = .error .notFound → Path.parent? path = some parent →
      Creates system fuel tree parent above none → system.createDirectory above path = .ok after →
      Creates system (fuel + 1) tree path after none
  | keptBelow {fuel : Nat} {tree above : FileTree} {path parent : String} {e : FileError} : path ≠ "" →
      system.createDirectory tree path = .error .notFound → Path.parent? path = some parent →
      Creates system fuel tree parent above none → system.createDirectory above path = .error e →
      Creates system (fuel + 1) tree path above (if above.isDirectory path then none else some e)

theorem Creates.eq_of_empty {fuel : Nat} {error : Option FileError} (h : Creates system fuel tree "" after error) :
    after = tree := by
  cases h with
  | nothing => rfl
  | created hne => exact absurd rfl hne
  | kept => rfl
  | stoppedAbove hne => exact absurd rfl hne
  | createdBelow hne => exact absurd rfl hne
  | keptBelow hne => exact absurd rfl hne

/-- A directory that is not found is not there. -/
theorem isDirectory_of_notFound (h : system.createDirectory tree path = .error .notFound) :
    tree.isDirectory path = false := by
  by_contra hnot
  have hthere := createDirectory_of_isDirectory (Bool.not_eq_false _ ▸ hnot)
  rw [System.notFound h] at hthere
  cases hthere

/-- What is not found and has no directory above to come first is missing. -/
theorem Creates.missing {fuel : Nat} (hne : path ≠ "") (h : system.createDirectory tree path = .error .notFound) :
    Creates system fuel tree path tree (some .notFound) := by
  have hkept : Creates system fuel tree path tree (if tree.isDirectory path then none else some .notFound) := .kept hne h
  rwa [isDirectory_of_notFound h, if_neg Bool.false_ne_true] at hkept

/-- **Every creation of a directory** is one of these. -/
theorem creates_go (system : System) (fuel : Nat) (tree : FileTree) (path : String) :
    Creates system fuel tree path (createDirectories.go system fuel tree path).1
      (createDirectories.go system fuel tree path).2 := by
  induction fuel generalizing tree path with
  | zero =>
    unfold createDirectories.go
    split
    · next hempty => exact hempty ▸ .nothing 0 tree
    · next hne =>
      split
      · next hcreate => exact .created hne hcreate
      · next hcreate => exact .missing hne hcreate
      · next hcreate => exact .kept hne hcreate
  | succ fuel ih =>
    unfold createDirectories.go
    split
    · next hempty => exact hempty ▸ .nothing _ tree
    · next hne =>
      split
      · next hcreate => exact .created hne hcreate
      · next hcreate =>
        split
        · next n parent hfuel hparent =>
          obtain rfl := Nat.succ.inj hfuel
          have habove := ih tree parent
          split
          · next heq =>
            rw [heq] at habove
            exact .stoppedAbove hne hcreate hparent habove
          · next heq =>
            rw [heq] at habove
            split
            · next hbelow => exact .createdBelow hne hcreate hparent habove hbelow
            · next hbelow => exact .keptBelow hne hcreate hparent habove hbelow
        · exact .missing hne hcreate
      · next hcreate => exact .kept hne hcreate

theorem creates_createDirectories (system : System) (tree : FileTree) (path : String) :
    Creates system (Path.parts path).length tree path (tree.createDirectories path system).1
      (tree.createDirectories path system).2 :=
  creates_go system _ tree path

/-- A creation that ends well does what the willing system does. -/
theorem Creates.go_willing {fuel : Nat} {error : Option FileError} (h : Creates system fuel tree path after error)
    (hok : error = none) : createDirectories.go .willing fuel tree path = (after, none) := by
  have hdirectory : ∀ {tree : FileTree} {path : String} {e : FileError},
      (if tree.isDirectory path then none else some e) = none → tree.isDirectory path = true := by
    intro tree path e h
    by_contra hnot
    rw [if_neg hnot] at h
    cases h
  induction h with
  | nothing fuel tree =>
    unfold createDirectories.go
    rfl
  | created hne hcreate =>
    unfold createDirectories.go
    rw [if_neg hne, System.willing_createDirectory, System.createDirectory_ok hcreate]
  | kept hne hcreate => exact go_of_isDirectory hne (hdirectory hok)
  | stoppedAbove => cases hok
  | createdBelow hne hcreate hparent _ hbelow ih =>
    unfold createDirectories.go
    rw [if_neg hne, System.willing_createDirectory, System.notFound hcreate]
    simp only [hparent, ih rfl, System.willing_createDirectory, System.createDirectory_ok hbelow]
  | keptBelow hne hcreate hparent _ hbelow ih =>
    have hthere := hdirectory hok
    unfold createDirectories.go
    rw [if_neg hne, System.willing_createDirectory, System.notFound hcreate]
    simp only [hparent, ih rfl, System.willing_createDirectory, createDirectory_of_isDirectory hthere, hthere, if_true]

/-- **Directories that are created** under some system are those that the willing one creates. -/
theorem createDirectories_ok (h : tree.createDirectories path system = (after, none)) :
    tree.createDirectories path = (after, none) := by
  have hcreates := creates_createDirectories system tree path
  rw [h] at hcreates
  exact hcreates.go_willing rfl

end FileTree

/-! ## Actions under a system -/

namespace FileAction

variable {ε ε' α β : Type} {wrap : FileError → ε} {tree after : FileTree} {path source destination : String}
  {content : ByteArray}

theorem outcome_createDirectories_ok {system : System} :
    outcome (createDirectories wrap path system) tree = (.ok (), after) ↔
      tree.createDirectories path system = (after, none) :=
  outcome_change_ok

theorem outcome_write_ok :
    outcome (write wrap path content) tree = (.ok (), after) ↔ tree.write path content = .ok after :=
  outcome_change_ok.trans System.willing_write_ok

theorem outcome_rename_ok :
    outcome (rename wrap source destination) tree = (.ok (), after) ↔ tree.rename source destination = .ok after :=
  outcome_change_ok.trans System.willing_rename_ok

/-- An action that does under any system what it does under the willing one, if it succeeds. -/
def Granted (action : System → FileAction ε α) : Prop :=
  ∀ system tree after a, outcome (action system) tree = (.ok a, after) →
    outcome (action .willing) tree = (.ok a, after)

theorem granted_createDirectories (wrap : FileError → ε) (path : String) :
    Granted fun system => createDirectories wrap path system :=
  fun _ _ _ _ h => outcome_change_ok.mpr (FileTree.createDirectories_ok (outcome_change_ok.mp h))

theorem granted_write (wrap : FileError → ε) (path : String) (content : ByteArray) :
    Granted fun system => write wrap path content system :=
  fun _ _ _ _ h => outcome_write_ok.mpr (System.write_ok (outcome_change_ok.mp h))

theorem granted_rename (wrap : FileError → ε) (source destination : String) :
    Granted fun system => rename wrap source destination system :=
  fun _ _ _ _ h => outcome_rename_ok.mpr (System.rename_ok (outcome_change_ok.mp h))

/-- What does not depend on the system is granted. -/
theorem granted_const (action : FileAction ε α) : Granted fun _ => action := fun _ _ _ _ h => h

theorem Granted.bind {action : System → FileAction ε α} {next : System → α → FileAction ε β} (h : Granted action)
    (hnext : ∀ a, Granted fun system => next system a) : Granted fun system => action system >>= next system := by
  intro system tree after b hok
  obtain ⟨a, between, hfirst, hsecond⟩ := outcome_bind_ok.mp hok
  exact outcome_bind_ok.mpr ⟨a, between, h _ _ _ _ hfirst, hnext a _ _ _ _ hsecond⟩

theorem granted_forM {action : System → α → FileAction ε Unit} (h : ∀ x, Granted fun system => action system x)
    (xs : List α) : Granted fun system => xs.forM (action system) := by
  induction xs with
  | nil => exact granted_const (pure ())
  | cons x rest ih => exact (h x).bind fun _ => ih

end FileAction
end ThreatModel
