import Mathlib
import ThreatModel.Command
import ThreatModel.Proofs.FileTree.Writing

/-!
# `Proofs.Run.Failure` — why a run or a report fails, and what it leaves

A run builds its model in stages: the configuration, the stored model, the imported libraries, the sources. The first
stage that fails gives the error, whatever the later ones would have said, and no file has been touched by then. Only
when all stages have succeeded are files written, and what can go wrong then is told apart by its error.

## Contents

* `FirstError` — the first element of a list for which something fails.
* `Project.Refuses`, `Scan.Refuses` — why a configuration cannot be used, and why a scan root cannot be searched.
* `Run.Fails`, `Run.model_error_iff` — the first stage of a run that fails.
* `onlyWrites_save` — what can go wrong in a save.
* `Command.ReportFails`, `reportText_error_iff` — the same for a report.
* `failure_of_perform` — how runs and reports fail.
-/

namespace ThreatModel

open FileTree (bind_ok)
open Store (bind_error_iff exists_ok_iff)

/-! ## The first failure in a list -/

section FirstError

variable {α β γ ε ε' : Type}

/-- The first element for which something fails, with its error; it succeeds for all elements before. -/
def FirstError (f : α → Except ε β) (xs : List α) (e : ε) : Prop :=
  ∃ before x after, xs = before ++ x :: after ∧ (∀ y ∈ before, ∃ b, f y = .ok b) ∧ f x = .error e

theorem not_firstError_nil (f : α → Except ε β) (e : ε) : ¬FirstError f [] e := by
  rintro ⟨before, x, after, h, -⟩
  exact List.append_ne_nil_of_right_ne_nil _ (List.cons_ne_nil _ _) h.symm

theorem firstError_cons {f : α → Except ε β} {x : α} {xs : List α} {e : ε} :
    FirstError f (x :: xs) e ↔ f x = .error e ∨ (∃ b, f x = .ok b) ∧ FirstError f xs e := by
  constructor
  · rintro ⟨before, y, after, h, hbefore, hy⟩
    cases before with
    | nil =>
      obtain ⟨rfl, -⟩ := List.cons.inj h
      exact Or.inl hy
    | cons first before =>
      obtain ⟨rfl, rfl⟩ := List.cons.inj h
      obtain ⟨hfirst, hbefore⟩ := List.forall_mem_cons.mp hbefore
      exact Or.inr ⟨hfirst, before, y, after, rfl, hbefore, hy⟩
  · rintro (hx | ⟨hx, before, y, after, rfl, hbefore, hy⟩)
    · exact ⟨[], x, xs, rfl, List.forall_mem_nil _, hx⟩
    · exact ⟨x :: before, y, after, rfl, List.forall_mem_cons.mpr ⟨hx, hbefore⟩, hy⟩

/-- Results for a list are refused for the first element that fails. -/
theorem mapM_error_iff {f : α → Except ε β} {xs : List α} {e : ε} :
    xs.mapM f = .error e ↔ FirstError f xs e := by
  induction xs with
  | nil => exact iff_of_false nofun (not_firstError_nil f e)
  | cons x xs ih =>
    rw [List.mapM_cons, bind_error_iff, firstError_cons, ← ih]
    simp only [bind_error_iff, pure, Except.pure, reduceCtorEq, and_false, exists_false, or_false, exists_and_right]

/-- Steps that do not fail because of the state they are taken in fail at the first element for which one fails. -/
theorem foldlM_error_iff {step : γ → α → Except ε γ} {f : α → Except ε β}
    (hstep : ∀ state x e, step state x = .error e ↔ f x = .error e) {xs : List α} {e : ε} (state : γ) :
    xs.foldlM step state = .error e ↔ FirstError f xs e := by
  induction xs generalizing state with
  | nil => exact iff_of_false nofun (not_firstError_nil f e)
  | cons x xs ih =>
    have hok : (∃ next, step state x = .ok next) ↔ ∃ b, f x = .ok b := by
      rw [exists_ok_iff, exists_ok_iff]
      simp only [hstep]
    rw [List.foldlM_cons, bind_error_iff, firstError_cons, hstep]
    simp only [ih, exists_and_right, hok]

theorem mapError_error_iff {wrap : ε → ε'} {result : Except ε α} {e : ε'} :
    result.mapError wrap = .error e ↔ ∃ cause, result = .error cause ∧ wrap cause = e := by
  cases result <;> simp [Except.mapError]

theorem mapError_ok_iff {wrap : ε → ε'} {result : Except ε α} {a : α} :
    result.mapError wrap = .ok a ↔ result = .ok a := by
  cases result <;> simp [Except.mapError]

end FirstError

/-! ## The configuration -/

namespace Project

variable {path : String} {environment : List (String × String)} {tree : FileTree}

/-- Why the configuration at a path cannot be used. -/
inductive Refuses (path : String) (environment : List (String × String)) (tree : FileTree) : ProjectError → Prop
  /-- It is not there. -/
  | missing : tree.isFile path = false → Refuses path environment tree (.notFound path)
  /-- Its file holds no text, or a text that describes no project. -/
  | undecodable : tree.isFile path = true → (∀ text, tree.read path = .ok text → ofText? text environment = none) →
      Refuses path environment tree .undecodable
  /-- It describes a project with a fault. -/
  | invalid {text : String} {project : Project} {fault : Fault} : tree.isFile path = true →
      tree.read path = .ok text → ofText? text environment = some project → project.fault? = some fault →
      Refuses path environment tree (.invalid fault.message)

/-- The text of a file describes something. -/
theorem toOption_read_bind {β : Type} {f : String → Option β} {b : β} :
    (tree.read path).toOption.bind f = some b ↔ ∃ text, tree.read path = .ok text ∧ f text = some b := by
  cases tree.read path <;> simp [Except.toOption]

/-- The file holds no text, or a text that describes nothing. -/
theorem toOption_read_bind_none {β : Type} {f : String → Option β} :
    (tree.read path).toOption.bind f = none ↔ ∀ text, tree.read path = .ok text → f text = none := by
  cases tree.read path <;> simp [Except.toOption]

theorem validate_error_iff {project : Project} {e : ProjectError} :
    project.validate = .error e ↔ ∃ fault, project.fault? = some fault ∧ e = .invalid fault.message := by
  unfold validate
  cases project.fault? with
  | none => simp
  | some fault => simp [eq_comm]

/-- **When a configuration cannot be loaded.** -/
theorem load_error_iff {e : ProjectError} : load path environment tree = .error e ↔ Refuses path environment tree e := by
  unfold load
  by_cases hfile : tree.isFile path = true
  · generalize hdescribed : ((tree.read path).toOption.bind fun text => ofText? text environment) = described
    simp only [hfile, Bool.not_true, Bool.false_eq_true, if_false]
    cases described with
    | none =>
      have hnone := toOption_read_bind_none.mp hdescribed
      constructor
      · intro h
        rw [← Except.error.inj h]
        exact .undecodable hfile hnone
      · rintro (hmissing | - | ⟨-, htext, hsome, -⟩)
        · exact absurd hfile (by rw [hmissing]; exact Bool.false_ne_true)
        · rfl
        · exact absurd ((hnone _ htext).symm.trans hsome) nofun
    | some project =>
      obtain ⟨text, htext, hsome⟩ := toOption_read_bind.mp hdescribed
      rw [validate_error_iff]
      constructor
      · rintro ⟨fault, hfault, rfl⟩
        exact .invalid hfile htext hsome hfault
      · intro h
        cases h with
        | missing hmissing => exact absurd hfile (by rw [hmissing]; exact Bool.false_ne_true)
        | undecodable _ hnone => exact absurd ((hnone _ htext).symm.trans hsome) nofun
        | @invalid other described fault _ hother hdescribes hfault =>
          have hsame : some described = some project := by
            rw [← hdescribes, ← hsome, Except.ok.inj (hother.symm.trans htext)]
          exact ⟨fault, Option.some.inj hsame ▸ hfault, rfl⟩
  · have hmissing : tree.isFile path = false := Bool.eq_false_iff.mpr hfile
    simp only [hmissing, Bool.not_false, if_true]
    constructor
    · intro h
      rw [← Except.error.inj h]
      exact .missing hmissing
    · rintro (- | ⟨hfile', -⟩ | ⟨hfile', -⟩)
      · rfl
      · exact absurd hfile' hfile
      · exact absurd hfile' hfile

end Project

/-! ## The sources -/

namespace Scan

/-- A scan root that is there is refused for the first of its patterns that is none. -/
structure Refuses (directory : String) (tree : FileTree) (root : ScanRoot) (e : ScanError) : Prop where
  there : tree.contains (Path.join directory root.path) = true
  pattern : ∃ before after, root.ignore = before ++ e.pattern :: after ∧
    (∀ other ∈ before, ∃ glob, Glob.ofText other = .ok glob) ∧ Glob.ofText e.pattern = .error e.fault

/-- A scan root that can be searched. -/
def Usable (directory : String) (tree : FileTree) (root : ScanRoot) : Prop :=
  tree.contains (Path.join directory root.path) = true → ∀ pattern ∈ root.ignore, ∃ glob, Glob.ofText pattern = .ok glob

variable {directory : String} {tree : FileTree} {root : ScanRoot} {e : ScanError}

theorem patterns_error_iff : patterns root = .error e ↔
    ∃ before after, root.ignore = before ++ e.pattern :: after ∧
      (∀ other ∈ before, ∃ glob, Glob.ofText other = .ok glob) ∧ Glob.ofText e.pattern = .error e.fault := by
  have hpattern : ∀ pattern, ((Glob.ofText pattern).mapError fun fault => (⟨pattern, fault⟩ : ScanError)) = .error e ↔
      e.pattern = pattern ∧ Glob.ofText pattern = .error e.fault := by
    intro pattern
    rw [mapError_error_iff]
    constructor
    · rintro ⟨fault, hfault, rfl⟩
      exact ⟨rfl, hfault⟩
    · rintro ⟨rfl, hfault⟩
      exact ⟨e.fault, hfault, rfl⟩
  unfold patterns
  rw [mapM_error_iff]
  simp only [FirstError, hpattern, mapError_ok_iff]
  constructor
  · rintro ⟨before, pattern, after, h, hbefore, rfl, hfault⟩
    exact ⟨before, after, h, hbefore, hfault⟩
  · rintro ⟨before, after, h, hbefore, hfault⟩
    exact ⟨before, e.pattern, after, h, hbefore, rfl, hfault⟩

/-- The files of a scan root are refused with the scan root. -/
theorem filesOf_error_iff {extensions : List String} :
    filesOf directory extensions tree root = .error e ↔ Refuses directory tree root e := by
  unfold filesOf
  by_cases hthere : tree.contains (Path.join directory root.path) = true
  · simp only [hthere, if_true, bind_error_iff, patterns_error_iff, reduceCtorEq, and_false, exists_false, or_false]
    exact ⟨fun hpattern => ⟨hthere, hpattern⟩, fun h => h.pattern⟩
  · simp only [hthere]
    exact iff_of_false nofun fun h => hthere h.there

/-- A scan root has files, or none, if it can be searched. -/
theorem exists_filesOf_iff {extensions : List String} :
    (∃ files, filesOf directory extensions tree root = .ok files) ↔ Usable directory tree root := by
  have hmapM : (∃ globs, patterns root = .ok globs) ↔ ∀ pattern ∈ root.ignore, ∃ glob, Glob.ofText pattern = .ok glob := by
    unfold patterns
    induction root.ignore with
    | nil => exact iff_of_true ⟨[], rfl⟩ (List.forall_mem_nil _)
    | cons pattern more ih =>
      rw [List.forall_mem_cons, ← ih]
      simp only [List.mapM_cons, bind_ok, mapError_ok_iff]
      constructor
      · rintro ⟨globs, glob, hglob, rest, hrest, -⟩
        exact ⟨⟨glob, hglob⟩, rest, hrest⟩
      · rintro ⟨⟨glob, hglob⟩, rest, hrest⟩
        exact ⟨glob :: rest, glob, hglob, rest, hrest, rfl⟩
  unfold filesOf Usable
  simp only
  by_cases hthere : tree.contains (Path.join directory root.path) = true
  · rw [if_pos hthere, ← hmapM]
    simp only [bind_ok, hthere, forall_const]
    constructor
    · rintro ⟨files, globs, hglobs, -⟩
      exact ⟨globs, hglobs⟩
    · rintro ⟨globs, hglobs⟩
      exact ⟨_, globs, hglobs, rfl⟩
  · rw [if_neg hthere]
    exact iff_of_true ⟨[], rfl⟩ fun h => absurd h hthere

/-- **When the sources cannot be searched**: one of the scan roots is refused, and all before it can be searched. -/
theorem blocks_error_iff {p : Project} : blocks directory p tree = .error e ↔
    ∃ before root after, p.scanRoots = before ++ root :: after ∧ (∀ other ∈ before, Usable directory tree other) ∧
      Refuses directory tree root e := by
  have hroots : p.scanRoots.mapM (filesOf directory p.extensions tree) = .error e ↔
      ∃ before root after, p.scanRoots = before ++ root :: after ∧ (∀ other ∈ before, Usable directory tree other) ∧
        Refuses directory tree root e := by
    rw [mapM_error_iff]
    simp only [FirstError, filesOf_error_iff, exists_filesOf_iff]
  rw [← hroots]
  unfold blocks files
  simp only [bind_error_iff, reduceCtorEq, and_false, exists_false, or_false]

end Scan

/-! ## The stages of a run -/

namespace Run

/-- The stored model is not wanted, or not there, or can be loaded. -/
def StoreUsable (r : Run) (tree : FileTree) : Prop :=
  r.merge = true → (∃ d, tree.isFile ((storeIn r.directory).path d) = true) →
    ∀ d ∈ Document.all, (storeIn r.directory).Readable tree d

/-- A library that can be imported. -/
def Importable (r : Run) (tree : FileTree) (library : String) : Prop :=
  ∀ d ∈ Document.library, (libraryStore r.directory library).Readable tree d

/-- Why a run fails before it writes anything. Every stage comes after the stages above it have succeeded. -/
inductive Fails (r : Run) (tree : FileTree) : CommandError → Prop
  /-- The configuration cannot be used. -/
  | project {e : ProjectError} : Project.Refuses (projectFile r.directory) r.environment tree e →
      Fails r tree (.project e)
  /-- The run merges, there is a stored model, and it cannot be loaded. -/
  | store {project : Project} {e : StoreError} :
      Project.load (projectFile r.directory) r.environment tree = .ok project →
      r.merge = true → (∃ d, tree.isFile ((storeIn r.directory).path d) = true) →
      (storeIn r.directory).Refuses tree Document.all e → Fails r tree (.store e)
  /-- A library cannot be imported, and those before it can. -/
  | library {project : Project} {before after : List String} {name : String} {e : StoreError} :
      Project.load (projectFile r.directory) r.environment tree = .ok project → r.StoreUsable tree →
      project.imports = before ++ name :: after → (∀ library ∈ before, r.Importable tree library) →
      (libraryStore r.directory name).Refuses tree Document.library e → Fails r tree (.library name e)
  /-- A scan root cannot be searched, and those before it can. -/
  | scan {project : Project} {before after : List ScanRoot} {root : ScanRoot} {e : ScanError} :
      Project.load (projectFile r.directory) r.environment tree = .ok project → r.StoreUsable tree →
      (∀ library ∈ project.imports, r.Importable tree library) → project.scanRoots = before ++ root :: after →
      (∀ other ∈ before, Scan.Usable r.directory tree other) → Scan.Refuses r.directory tree root e →
      Fails r tree (.scan e.message)

variable {r : Run} {tree : FileTree}

theorem holdsAny_iff {s : Store} : s.holdsAny tree = true ↔ ∃ d, tree.isFile (s.path d) = true := by
  simp only [Store.holdsAny, List.any_eq_true, Document.mem_all, true_and]

/-- The stored model is refused only if it is wanted and there. -/
theorem priorModel_error_iff {e : CommandError} : r.priorModel tree = .error e ↔
    r.merge = true ∧ (∃ d, tree.isFile ((storeIn r.directory).path d) = true) ∧
      ∃ cause, (storeIn r.directory).Refuses tree Document.all cause ∧ .store cause = e := by
  unfold priorModel
  by_cases hwanted : (r.merge && (storeIn r.directory).holdsAny tree) = true
  · obtain ⟨hmerge, hany⟩ := (Bool.and_eq_true_iff ..).mp hwanted
    rw [if_pos hwanted, mapError_error_iff]
    simp only [Store.load_error_iff, hmerge, holdsAny_iff.mp hany, true_and]
  · rw [if_neg hwanted]
    refine iff_of_false nofun ?_
    rintro ⟨hmerge, hany, -⟩
    exact hwanted ((Bool.and_eq_true_iff ..).mpr ⟨hmerge, holdsAny_iff.mpr hany⟩)

theorem exists_priorModel_iff : (∃ g, r.priorModel tree = .ok g) ↔ r.StoreUsable tree := by
  have hreadable : (∃ e, (storeIn r.directory).Refuses tree Document.all e) ↔
      ¬∀ d ∈ Document.all, (storeIn r.directory).Readable tree d := Store.exists_refuses
  rw [exists_ok_iff]
  simp only [priorModel_error_iff]
  constructor
  · intro h hmerge hany
    by_contra hno
    obtain ⟨cause, hcause⟩ := hreadable.mpr hno
    exact h ⟨_, hmerge, hany, cause, hcause, rfl⟩
  · rintro h ⟨e, hmerge, hany, cause, hcause, -⟩
    exact hreadable.mp ⟨cause, hcause⟩ (h hmerge hany)

/-- Whether a library can be imported does not depend on the model that it is imported into. -/
theorem importLibrary_error_iff {g : Graph} {library : String} {e : CommandError} :
    r.importLibrary tree g library = .error e ↔
      ((libraryStore r.directory library).loadLibrary tree).mapError (CommandError.library library) = .error e := by
  unfold importLibrary
  cases (libraryStore r.directory library).loadLibrary tree <;> simp [Except.mapError]

theorem loadLibrary_ok_iff {library : String} :
    (∃ registry, ((libraryStore r.directory library).loadLibrary tree).mapError (CommandError.library library)
      = .ok registry) ↔ r.Importable tree library := by
  simp only [mapError_ok_iff]
  rw [exists_ok_iff]
  simp only [Store.loadLibrary_error_iff, Store.exists_refuses, not_not]
  rfl

/-- The first of the libraries that cannot be imported gives the error, with its name. -/
theorem imports_error_iff {g : Graph} {imports : List String} {e : CommandError} :
    imports.foldlM (r.importLibrary tree) g = .error e ↔
      ∃ before name after cause, imports = before ++ name :: after ∧ (∀ library ∈ before, r.Importable tree library) ∧
        (libraryStore r.directory name).Refuses tree Document.library cause ∧ .library name cause = e := by
  have hstep : ∀ g library e, r.importLibrary tree g library = .error e ↔
      ((libraryStore r.directory library).loadLibrary tree).mapError (CommandError.library library) = .error e :=
    fun g library e => importLibrary_error_iff
  rw [foldlM_error_iff hstep]
  simp only [FirstError, loadLibrary_ok_iff, mapError_error_iff, Store.loadLibrary_error_iff]
  constructor
  · rintro ⟨before, name, after, h, hbefore, cause, hcause, heq⟩
    exact ⟨before, name, after, cause, h, hbefore, hcause, heq⟩
  · rintro ⟨before, name, after, cause, h, hbefore, hcause, heq⟩
    exact ⟨before, name, after, h, hbefore, cause, hcause, heq⟩

theorem exists_imports_iff {g : Graph} {imports : List String} :
    (∃ imported, imports.foldlM (r.importLibrary tree) g = .ok imported) ↔
      ∀ library ∈ imports, r.Importable tree library := by
  induction imports generalizing g with
  | nil => exact iff_of_true ⟨g, rfl⟩ (List.forall_mem_nil _)
  | cons library rest ih =>
    have hlibrary : (∃ next, r.importLibrary tree g library = .ok next) ↔ r.Importable tree library := by
      rw [← loadLibrary_ok_iff, exists_ok_iff, exists_ok_iff]
      simp only [importLibrary_error_iff]
    rw [List.forall_mem_cons, ← hlibrary]
    simp only [List.foldlM_cons, bind_ok]
    constructor
    · rintro ⟨imported, next, hnext, himported⟩
      exact ⟨⟨next, hnext⟩, ih.mp ⟨imported, himported⟩⟩
    · rintro ⟨⟨next, hnext⟩, hrest⟩
      obtain ⟨imported, himported⟩ := ih.mpr hrest
      exact ⟨imported, next, hnext, himported⟩

/-- **When a run cannot build its model**: just if one of its stages fails and all before it succeed. -/
theorem model_error_iff {e : CommandError} : r.model tree = .error e ↔ r.Fails tree e := by
  unfold model
  simp only [bind_error_iff, mapError_error_iff, mapError_ok_iff, Project.load_error_iff, priorModel_error_iff,
    imports_error_iff, Scan.blocks_error_iff, reduceCtorEq, and_false, exists_false, or_false]
  constructor
  · rintro (⟨cause, hcause, rfl⟩ | ⟨project, hproject, hlater⟩)
    · exact .project hcause
    · rcases hlater with ⟨hmerge, hany, cause, hcause, rfl⟩ | ⟨prior, hprior, hlater⟩
      · exact .store hproject hmerge hany hcause
      · have husable := exists_priorModel_iff.mp ⟨prior, hprior⟩
        rcases hlater with ⟨before, name, after, cause, himports, hbefore, hcause, rfl⟩ | ⟨imported, himported, hlater⟩
        · exact .library hproject husable himports hbefore hcause
        · have himportable := exists_imports_iff.mp ⟨imported, himported⟩
          obtain ⟨cause, ⟨before, root, after, hroots, hbefore, hcause⟩, rfl⟩ := hlater
          exact .scan hproject husable himportable hroots hbefore hcause
  · intro h
    cases h with
    | @project cause hcause => exact Or.inl ⟨cause, hcause, rfl⟩
    | @store project cause hproject hmerge hany hcause =>
      exact Or.inr ⟨project, hproject, Or.inl ⟨hmerge, hany, cause, hcause, rfl⟩⟩
    | @library project before after name cause hproject husable himports hbefore hcause =>
      obtain ⟨prior, hprior⟩ := exists_priorModel_iff.mpr husable
      refine Or.inr ⟨project, hproject, Or.inr ⟨prior, hprior, Or.inl ?_⟩⟩
      exact ⟨before, name, after, cause, himports, hbefore, hcause, rfl⟩
    | @scan project before after root cause hproject husable himportable hroots hbefore hcause =>
      obtain ⟨prior, hprior⟩ := exists_priorModel_iff.mpr husable
      obtain ⟨imported, himported⟩ := exists_imports_iff.mpr himportable
      refine Or.inr ⟨project, hproject, Or.inr ⟨prior, hprior, Or.inr ⟨imported, himported, ?_⟩⟩⟩
      exact ⟨cause, ⟨before, root, after, hroots, hbefore, hcause⟩, rfl⟩

end Run

/-! ## Outcomes -/

open FileAction

/-- A save can only fail because of a file that cannot be written, under any system. -/
theorem Store.onlyWrites_save (s : Store) (g : Graph) (system : System) :
    OnlyWrites StoreError.file (s.save g system) := by
  have hcreate : OnlyWrites StoreError.file (FileAction.createDirectories .file s.directory system) :=
    onlyWrites_change fun tree => tree.createDirectories_ne_notText system s.directory
  refine hcreate.bind fun _ => onlyWrites_forM (fun document => ?_) Document.all
  refine (onlyWrites_change fun tree => ?_).bind fun _ => onlyWrites_change fun tree => ?_
  · exact System.write_ne_notText
  · exact System.rename_ne_notText

namespace FileAction

variable {ε ε' α β : Type} {tree after : FileTree}

/-- A result that does not depend on the tree leaves it as it is. -/
theorem outcome_ofExcept (result : Except ε α) : outcome (ofExcept result) tree = (result, tree) := by
  cases result <;> rfl

/-- What is done depends on the tree, and fails before anything is done if a result for the tree is an error. -/
theorem outcome_ofExcept_bind_error {build : FileTree → Except ε α} {next : α → FileAction ε β} {e : ε} :
    outcome (do let a ← ofExcept (build (← get)); next a) tree = (.error e, after) ↔
      build tree = .error e ∧ after = tree ∨
        ∃ a, build tree = .ok a ∧ outcome (next a) tree = (.error e, after) := by
  rw [outcome_bind, outcome_get]
  simp only
  rw [outcome_bind, outcome_ofExcept]
  cases build tree with
  | error cause => simp [eq_comm]
  | ok a => simp

/-- Errors are worded otherwise, and nothing else changes. -/
theorem outcome_adapt (wrap : ε → ε') (action : FileAction ε α) (tree : FileTree) :
    outcome (action.adapt wrap) tree = ((outcome action tree).1.mapError wrap, (outcome action tree).2) := rfl

theorem outcome_adapt_error {wrap : ε → ε'} {action : FileAction ε α} {e : ε'} :
    outcome (action.adapt wrap) tree = (.error e, after) ↔
      ∃ cause, outcome action tree = (.error cause, after) ∧ e = wrap cause := by
  rw [outcome_adapt]
  obtain ⟨result, last⟩ := outcome action tree
  simp only [Prod.mk.injEq, mapError_error_iff]
  constructor
  · rintro ⟨⟨cause, hresult, rfl⟩, rfl⟩
    exact ⟨cause, ⟨hresult, rfl⟩, rfl⟩
  · rintro ⟨cause, ⟨hresult, rfl⟩, rfl⟩
    exact ⟨⟨cause, hresult, rfl⟩, rfl⟩

theorem outcome_adapt_ok {wrap : ε → ε'} {action : FileAction ε α} {a : α} :
    outcome (action.adapt wrap) tree = (.ok a, after) ↔ outcome action tree = (.ok a, after) := by
  rw [outcome_adapt]
  obtain ⟨result, last⟩ := outcome action tree
  simp only [Prod.mk.injEq, mapError_ok_iff]

/-- Nothing fails after the last action. -/
theorem outcome_bind_pure_error {action : FileAction ε α} {result : α → β} {e : ε} :
    outcome (do let a ← action; return result a) tree = (.error e, after) ↔
      outcome action tree = (.error e, after) := by
  rw [outcome_bind_error]
  constructor
  · rintro (h | ⟨a, between, -, h⟩)
    · exact h
    · cases (Prod.mk.inj h).1
  · exact Or.inl

end FileAction

/-- **How a run fails**: a stage of it fails and nothing is changed, or else its model cannot be stored. -/
theorem Run.perform_error_iff {r : Run} {system : System} {tree after : FileTree} {e : CommandError} :
    outcome (r.perform system) tree = (.error e, after) ↔
      r.Fails tree e ∧ after = tree ∨
        ∃ g summary cause, r.model tree = .ok (g, summary) ∧
          outcome ((storeIn r.directory).save g system) tree = (.error cause, after) ∧ e = .store cause := by
  rw [perform, outcome_ofExcept_bind_error, model_error_iff]
  simp only [Prod.exists, outcome_bind_pure_error, outcome_adapt_error, exists_and_left]

namespace Command

/-- Why a report fails before anything is written: the configuration cannot be used, or else the stored model cannot be
loaded. -/
inductive ReportFails (o : Occasion) (directory : String) (tree : FileTree) : CommandError → Prop
  | project {e : ProjectError} : Project.Refuses (Run.projectFile directory) o.environment tree e →
      ReportFails o directory tree (.project e)
  | store {project : Project} {e : StoreError} :
      Project.load (Run.projectFile directory) o.environment tree = .ok project →
      (Run.storeIn directory).Refuses tree Document.all e → ReportFails o directory tree (.store e)

variable {o : Occasion} {directory : String} {system : System} {tree after : FileTree} {e : CommandError}

theorem reportText_error_iff : reportText o directory tree = .error e ↔ ReportFails o directory tree e := by
  unfold reportText
  simp only [bind_error_iff, mapError_error_iff, mapError_ok_iff, Project.load_error_iff, Store.load_error_iff,
    reduceCtorEq, and_false, exists_false, or_false]
  constructor
  · rintro (⟨cause, hcause, rfl⟩ | ⟨project, hproject, cause, hcause, rfl⟩)
    · exact .project hcause
    · exact .store hproject hcause
  · rintro (⟨hcause⟩ | ⟨hproject, hcause⟩)
    · exact Or.inl ⟨_, hcause, rfl⟩
    · exact Or.inr ⟨_, hproject, _, hcause, rfl⟩

/-- **How a report fails**: nothing can be reported and nothing is changed, or else it cannot be written. -/
theorem writeReport_error {output : Option String}
    (h : outcome (writeReport o directory output system) tree = (.error e, after)) :
    ReportFails o directory tree e ∧ after = tree ∨
      (∃ text, reportText o directory tree = .ok text) ∧ ∃ f, f ≠ .notText ∧ e = .file f := by
  rcases outcome_ofExcept_bind_error.mp h with ⟨h, rfl⟩ | ⟨text, htext, h⟩
  · exact Or.inl ⟨reportText_error_iff.mp h, rfl⟩
  · have hwrites : ∀ path : String, OnlyWrites CommandError.file
        (do FileAction.write .file path text.toUTF8 system
            return [Terminal.success o.colors ("Wrote " ++ path)]) := fun path =>
      (onlyWrites_change fun tree => System.write_ne_notText).bind fun _ => onlyWrites_pure _
    have hcreates : ∀ path : String, OnlyWrites CommandError.file (FileAction.createDirectories .file path system) :=
      fun path => onlyWrites_change fun tree => tree.createDirectories_ne_notText system path
    refine Or.inr ⟨⟨text, htext⟩, ?_⟩
    simp only at h
    split at h
    · exact ((hcreates _).bind fun _ => hwrites _) tree e after h
    · exact hwrites _ tree e after h

theorem perform_run_error {quiet merge : Bool} :
    outcome (perform o directory quiet (.run merge) system) tree = (.error e, after) ↔
      outcome (Run.perform ⟨directory, merge, o.environment, o.runId⟩ system) tree = (.error e, after) := by
  unfold perform updateModel
  rw [outcome_bind_pure_error]
  exact outcome_bind_pure_error

theorem perform_report_error {quiet : Bool} {output : Option String} :
    outcome (perform o directory quiet (.report output) system) tree = (.error e, after) ↔
      outcome (writeReport o directory output system) tree = (.error e, after) :=
  outcome_bind_pure_error

/-- **How commands fail.** A run whose configuration, stored model, imports or sources are at fault ends with the error
of the first stage that fails, and all files are as they were; it ends with no other error unless all these stages
succeed, and then the error is that a file cannot be written. It is the same with a report, which has two stages; and
what the system refuses makes no difference to this. -/
theorem failure_of_perform (o : Occasion) (directory : String) (quiet : Bool) (system : System) (tree : FileTree) :
    (∀ merge e, Run.Fails ⟨directory, merge, o.environment, o.runId⟩ tree e →
      outcome (perform o directory quiet (.run merge) system) tree = (.error e, tree)) ∧
    (∀ merge e after, outcome (perform o directory quiet (.run merge) system) tree = (.error e, after) →
      Run.Fails ⟨directory, merge, o.environment, o.runId⟩ tree e ∧ after = tree ∨
        (¬∃ cause, Run.Fails ⟨directory, merge, o.environment, o.runId⟩ tree cause) ∧
          ∃ f, f ≠ .notText ∧ e = .store (.file f)) ∧
    (∀ output e, ReportFails o directory tree e →
      outcome (perform o directory quiet (.report output) system) tree = (.error e, tree)) ∧
    ∀ output e after, outcome (perform o directory quiet (.report output) system) tree = (.error e, after) →
      ReportFails o directory tree e ∧ after = tree ∨
        (¬∃ cause, ReportFails o directory tree cause) ∧ ∃ f, f ≠ .notText ∧ e = .file f := by
  refine ⟨?_, ?_, ?_, ?_⟩
  · intro merge e h
    exact perform_run_error.mpr (Run.perform_error_iff.mpr (Or.inl ⟨h, rfl⟩))
  · intro merge e after h
    rcases Run.perform_error_iff.mp (perform_run_error.mp h) with h | ⟨g, summary, cause, hmodel, hsave, rfl⟩
    · exact Or.inl h
    · obtain ⟨f, hf, rfl⟩ := Store.onlyWrites_save _ g system tree cause after hsave
      refine Or.inr ⟨?_, f, hf, rfl⟩
      simp only [← Run.model_error_iff]
      exact exists_ok_iff.mp ⟨_, hmodel⟩
  · intro output e h
    exact perform_report_error.mpr (outcome_ofExcept_bind_error.mpr (Or.inl ⟨reportText_error_iff.mpr h, rfl⟩))
  · intro output e after h
    rcases writeReport_error (perform_report_error.mp h) with h | ⟨htext, hwrite⟩
    · exact Or.inl h
    · refine Or.inr ⟨?_, hwrite⟩
      simp only [← reportText_error_iff]
      exact exists_ok_iff.mp htext

end Command
end ThreatModel
