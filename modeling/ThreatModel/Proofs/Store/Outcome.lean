import Mathlib
import ThreatModel.Store
import ThreatModel.Proofs.FileTree

/-!
# `Proofs.Store.Outcome` — what loading a store comes to

A store is refused because of one of its documents: the first that is no file, or, where all are files, the first that
cannot be read. What the other documents hold plays no part in it. A store in which all documents can be read is loaded.

## Contents

* `Defect`, `Readable` — why a file is no document, and files that are one.
* `FirstAt`, `Refuses` — the document because of which a store is refused.
* `load_error_iff`, `loadLibrary_error_iff` — loading fails in just these cases.
* `load_outcome` — what loading comes to, in all states of the files.
-/

namespace ThreatModel

/-- The fault with which reading a text fails. -/
def Json.faultOf {α : Type} : Except Json.Fault α → Option Json.Fault
  | .ok _ => none
  | .error fault => some fault

theorem Json.faultOf_eq_some {α : Type} {result : Except Json.Fault α} {fault : Json.Fault} :
    Json.faultOf result = some fault ↔ result = .error fault := by
  cases result <;> simp [Json.faultOf]

/-- The fault of a document that cannot be read from a text. -/
def Document.fault? (document : Document) (text : List Char) : Option Json.Fault :=
  match document with
  | .controls => Json.faultOf (readMap (Entity.shape "Control") text)
  | .threats => Json.faultOf (readMap (Entity.shape "Threat") text)
  | .components => Json.faultOf (readMap Component.shape text)
  | .model => Json.faultOf (readModel text)

namespace Store

open FileTree (bind_ok)

/-! ## One document -/

/-- Why a file is not the document that it should be. -/
inductive Defect (s : Store) (tree : FileTree) (document : Document) : StoreError → Prop
  /-- It holds no text. -/
  | notText {content : ByteArray} : tree.find? (s.path document) = some (.file content) →
      String.fromUTF8? content = none → Defect s tree document (.file .notText)
  /-- Its text is not that of the document. -/
  | corrupt {content : ByteArray} {text : String} {fault : Json.Fault} :
      tree.find? (s.path document) = some (.file content) → String.fromUTF8? content = some text →
      document.fault? text.toList = some fault → Defect s tree document (.corrupt document (fault.locate text.toList))

/-- A file that holds the document that it should. -/
def Readable (s : Store) (tree : FileTree) (document : Document) : Prop :=
  ∃ content text, tree.find? (s.path document) = some (.file content) ∧ String.fromUTF8? content = some text ∧
    document.fault? text.toList = none

variable {s : Store} {tree other : FileTree} {document : Document} {documents : List Document} {e : StoreError}

theorem isFile_iff {path : String} : tree.isFile path = true ↔ ∃ content, tree.find? path = some (.file content) := by
  unfold FileTree.isFile
  split
  · next content h => simp [h]
  · next h => simpa using fun content hcontent => h content hcontent

/-- A document that is a file is read as its bytes say. -/
theorem readDocument_of_file {α : Type} {content : ByteArray} (h : tree.find? (s.path document) = some (.file content))
    (read : List Char → Except Json.Fault α) :
    s.readDocument tree document read
      = match String.fromUTF8? content with
        | none => .error (.file .notText)
        | some text =>
          match read text.toList with
          | .ok value => .ok value
          | .error fault => .error (.corrupt document (fault.locate text.toList)) := by
  have hread : tree.read (s.path document) = (String.fromUTF8? content).elim (.error .notText) .ok := by
    unfold FileTree.read
    rw [FileTree.readBytes_of_file h]
    cases htext : String.fromUTF8? content with
    | none => simp only [bind, Except.bind, htext, Option.elim]
    | some text => simp only [bind, Except.bind, htext, Option.elim]
  unfold readDocument
  rw [hread]
  cases String.fromUTF8? content with
  | none => rfl
  | some text => rfl

/-- The faults of a reader are those of the document. -/
def Reads {α : Type} (document : Document) (read : List Char → Except Json.Fault α) : Prop :=
  ∀ text fault, document.fault? text = some fault ↔ read text = .error fault

theorem reads_controls : Reads .controls (Document.readMap (Entity.shape "Control")) :=
  fun _ _ => Json.faultOf_eq_some

theorem reads_threats : Reads .threats (Document.readMap (Entity.shape "Threat")) := fun _ _ => Json.faultOf_eq_some

theorem reads_components : Reads .components (Document.readMap Component.shape) := fun _ _ => Json.faultOf_eq_some

theorem reads_model : Reads .model Document.readModel := fun _ _ => Json.faultOf_eq_some

/-- Reading a file fails for its defect. -/
theorem readDocument_error_iff {α : Type} {read : List Char → Except Json.Fault α} (hread : Reads document read)
    (hfile : tree.isFile (s.path document) = true) :
    s.readDocument tree document read = .error e ↔ s.Defect tree document e := by
  obtain ⟨content, hcontent⟩ := isFile_iff.mp hfile
  rw [readDocument_of_file hcontent]
  constructor
  · intro h
    split at h
    · next htext =>
      obtain rfl := Except.error.inj h
      exact .notText hcontent htext
    · next text htext =>
      split at h
      · cases h
      · next fault hfault =>
        obtain rfl := Except.error.inj h
        exact .corrupt hcontent htext ((hread _ _).mpr hfault)
  · rintro (⟨hbytes, htext⟩ | ⟨hbytes, htext, hfault⟩)
    · obtain rfl := Entry.file.inj (Option.some.inj (hcontent.symm.trans hbytes))
      rw [htext]
    · obtain rfl := Entry.file.inj (Option.some.inj (hcontent.symm.trans hbytes))
      simp only [htext, (hread _ _).mp hfault]

/-- A file is readable if it has no defect. -/
theorem readable_iff (hfile : tree.isFile (s.path document) = true) :
    s.Readable tree document ↔ ¬∃ e, s.Defect tree document e := by
  obtain ⟨content, hcontent⟩ := isFile_iff.mp hfile
  constructor
  · rintro ⟨bytes, text, hbytes, htext, hfault⟩ ⟨e, ⟨hother, hnone⟩ | ⟨hother, hsome, hsomeFault⟩⟩
    · obtain rfl := Entry.file.inj (Option.some.inj (hbytes.symm.trans hother))
      cases htext.symm.trans hnone
    · obtain rfl := Entry.file.inj (Option.some.inj (hbytes.symm.trans hother))
      obtain rfl := Option.some.inj (htext.symm.trans hsome)
      cases hfault.symm.trans hsomeFault
  · intro h
    cases htext : String.fromUTF8? content with
    | none => exact absurd ⟨_, .notText hcontent htext⟩ h
    | some text =>
      cases hfault : document.fault? text.toList with
      | none => exact ⟨content, text, hcontent, htext, hfault⟩
      | some fault => exact absurd ⟨_, .corrupt hcontent htext hfault⟩ h

theorem Readable.isFile (h : s.Readable tree document) : tree.isFile (s.path document) = true := by
  obtain ⟨content, -, hcontent, -⟩ := h
  exact isFile_iff.mpr ⟨content, hcontent⟩

/-! ## Documents in their order -/

/-- The first of several documents that is bad fails; those before it are good. -/
inductive FirstAt (good : Document → Prop) (bad : Document → StoreError → Prop) : List Document → StoreError → Prop
  | here {document : Document} {rest : List Document} {e : StoreError} :
      bad document e → FirstAt good bad (document :: rest) e
  | later {document : Document} {rest : List Document} {e : StoreError} :
      good document → FirstAt good bad rest e → FirstAt good bad (document :: rest) e

section FirstAt

variable {good : Document → Prop} {bad : Document → StoreError → Prop}

theorem firstAt_nil : ¬FirstAt good bad [] e := nofun

theorem firstAt_cons :
    FirstAt good bad (document :: documents) e ↔ bad document e ∨ good document ∧ FirstAt good bad documents e := by
  constructor
  · rintro (h | ⟨hgood, hrest⟩)
    · exact Or.inl h
    · exact Or.inr ⟨hgood, hrest⟩
  · rintro (h | ⟨hgood, hrest⟩)
    · exact .here h
    · exact .later hgood hrest

/-- Documents of which each is good or bad are all good, or one is the first that is bad. -/
theorem exists_firstAt (h : ∀ d ∈ documents, good d ↔ ¬∃ e, bad d e) :
    (∃ e, FirstAt good bad documents e) ↔ ¬∀ d ∈ documents, good d := by
  induction documents with
  | nil => simp [firstAt_nil]
  | cons document rest ih =>
    have hrest := ih fun d hd => h d (List.mem_cons_of_mem _ hd)
    have hhead := h document List.mem_cons_self
    simp only [firstAt_cons, exists_or, exists_and_left, hrest, List.forall_mem_cons]
    tauto

/-- The first bad document is one of the documents. -/
theorem FirstAt.exists_bad (h : FirstAt good bad documents e) : ∃ d ∈ documents, bad d e := by
  induction h with
  | here hbad => exact ⟨_, List.mem_cons_self, hbad⟩
  | later _ _ ih =>
    obtain ⟨d, hd, hbad⟩ := ih
    exact ⟨d, List.mem_cons_of_mem _ hd, hbad⟩

end FirstAt

/-- The first of the documents that is no file is missing, whatever the others hold. -/
abbrev Misses (s : Store) (tree : FileTree) : List Document → StoreError → Prop :=
  FirstAt (fun d => tree.isFile (s.path d) = true) fun d e => tree.isFile (s.path d) = false ∧ e = .missing d (s.path d)

/-- Why a store of the given documents cannot be read: one of them is missing; or all are files, and the first that
cannot be read has a defect. -/
inductive Refuses (s : Store) (tree : FileTree) (documents : List Document) : StoreError → Prop
  | missing {e : StoreError} : s.Misses tree documents e → Refuses s tree documents e
  | defect {e : StoreError} : (∀ d ∈ documents, tree.isFile (s.path d) = true) →
      FirstAt (s.Readable tree) (s.Defect tree) documents e → Refuses s tree documents e

theorem exists_misses : (∃ e, s.Misses tree documents e) ↔ ¬∀ d ∈ documents, tree.isFile (s.path d) = true :=
  exists_firstAt fun d _ => by simp

/-- A store is not refused if all its documents can be read. -/
theorem exists_refuses : (∃ e, s.Refuses tree documents e) ↔ ¬∀ d ∈ documents, s.Readable tree d := by
  constructor
  · rintro ⟨e, h | ⟨hfiles, h⟩⟩ hreadable
    · exact exists_misses.mp ⟨e, h⟩ fun d hd => (hreadable d hd).isFile
    · exact (exists_firstAt fun d hd => readable_iff (hfiles d hd)).mp ⟨e, h⟩ hreadable
  · intro h
    by_cases hfiles : ∀ d ∈ documents, tree.isFile (s.path d) = true
    · obtain ⟨e, he⟩ := (exists_firstAt fun d hd => readable_iff (hfiles d hd)).mpr h
      exact ⟨e, .defect hfiles he⟩
    · obtain ⟨e, he⟩ := exists_misses.mpr hfiles
      exact ⟨e, .missing he⟩

/-- A store is refused for a missing document if not all of its documents are files. -/
theorem exists_refuses_missing :
    (∃ d path, s.Refuses tree documents (.missing d path)) ↔ ¬∀ d ∈ documents, tree.isFile (s.path d) = true := by
  constructor
  · rintro ⟨d, path, h | ⟨-, h⟩⟩
    · exact exists_misses.mp ⟨_, h⟩
    · -- No defect of a file is that it is missing.
      obtain ⟨d, -, hdefect⟩ := h.exists_bad
      cases hdefect
  · intro hfiles
    obtain ⟨e, he⟩ := exists_misses.mpr hfiles
    obtain ⟨d, -, -, rfl⟩ := he.exists_bad
    exact ⟨d, _, .missing he⟩

/-! ## Loading -/

theorem bind_error_iff {ε α β : Type} {result : Except ε α} {next : α → Except ε β} {e : ε} :
    (result >>= next) = .error e ↔ result = .error e ∨ ∃ a, result = .ok a ∧ next a = .error e := by
  cases result with
  | error other => simp [bind, Except.bind]
  | ok a => simp [bind, Except.bind]

/-- Documents are first looked for, in their order. -/
theorem requirePresent_error_iff : s.requirePresent tree documents = .error e ↔ s.Misses tree documents e := by
  unfold requirePresent Misses
  induction documents with
  | nil => simp [firstAt_nil]
  | cons document rest ih =>
    rw [firstAt_cons, ← ih]
    cases hfile : tree.isFile (s.path document) with
    | false => simp [hfile, eq_comm]
    | true => simp [hfile]

theorem requirePresent_ok_iff :
    s.requirePresent tree documents = .ok () ↔ ∀ d ∈ documents, tree.isFile (s.path d) = true := by
  unfold requirePresent
  split
  · next d h =>
    have hno := List.find?_some h
    simp only [Bool.not_eq_true'] at hno
    simp only [reduceCtorEq, false_iff, not_forall]
    exact ⟨d, List.mem_of_find?_eq_some h, by simp [hno]⟩
  · next h =>
    rw [List.find?_eq_none] at h
    simpa using h

/-- A document is read before all others. -/
theorem readDocument_bind_error_iff {α β : Type} {read : List Char → Except Json.Fault α}
    (hread : Reads document read) (hfile : tree.isFile (s.path document) = true) {next : α → Except StoreError β}
    (hnext : ∀ value, next value = .error e ↔ FirstAt (s.Readable tree) (s.Defect tree) documents e) :
    (s.readDocument tree document read >>= next) = .error e ↔
      FirstAt (s.Readable tree) (s.Defect tree) (document :: documents) e := by
  rw [firstAt_cons, bind_error_iff, readDocument_error_iff hread hfile, readable_iff hfile]
  simp only [hnext, exists_and_right]
  -- The document has been read just if it has no defect.
  have hread : (∃ value, s.readDocument tree document read = .ok value) ↔ ¬∃ e, s.Defect tree document e := by
    simp only [← readDocument_error_iff hread hfile]
    cases s.readDocument tree document read <;> simp
  rw [hread]

/-- The entities are read from three documents, before all else. -/
theorem readRegistry_bind_error_iff {β : Type} {next : Registry → Except StoreError β}
    (hfiles : ∀ d ∈ Document.library, tree.isFile (s.path d) = true)
    (hnext : ∀ registry, next registry = .error e ↔ FirstAt (s.Readable tree) (s.Defect tree) documents e) :
    (s.readRegistry tree >>= next) = .error e ↔
      FirstAt (s.Readable tree) (s.Defect tree) (Document.library ++ documents) e := by
  have hcontrols := hfiles .controls (by decide)
  have hthreats := hfiles .threats (by decide)
  have hcomponents := hfiles .components (by decide)
  unfold readRegistry
  simp only [bind_assoc]
  refine readDocument_bind_error_iff reads_controls hcontrols fun controls => ?_
  refine readDocument_bind_error_iff reads_threats hthreats fun threats => ?_
  refine readDocument_bind_error_iff reads_components hcomponents fun components => ?_
  exact hnext _

/-- A check of what is there comes before all reading. -/
theorem requirePresent_bind_error_iff {α : Type} {next : Except StoreError α}
    (hnext : (∀ d ∈ documents, tree.isFile (s.path d) = true) →
      (next = .error e ↔ FirstAt (s.Readable tree) (s.Defect tree) documents e)) :
    (s.requirePresent tree documents >>= fun _ => next) = .error e ↔ s.Refuses tree documents e := by
  rw [bind_error_iff, requirePresent_error_iff]
  constructor
  · rintro (h | ⟨⟨⟩, hpresent, h⟩)
    · exact .missing h
    · have hfiles := requirePresent_ok_iff.mp hpresent
      exact .defect hfiles ((hnext hfiles).mp h)
  · rintro (h | ⟨hfiles, h⟩)
    · exact Or.inl h
    · exact Or.inr ⟨(), requirePresent_ok_iff.mpr hfiles, (hnext hfiles).mpr h⟩

/-- **When a store cannot be loaded**: just if it is refused for one of its documents. -/
theorem load_error_iff : s.load tree = .error e ↔ s.Refuses tree Document.all e := by
  refine requirePresent_bind_error_iff fun hfiles => ?_
  refine readRegistry_bind_error_iff (fun d hd => hfiles d (List.mem_append_left _ hd)) fun registry => ?_
  refine readDocument_bind_error_iff reads_model (hfiles .model (by decide)) fun model => ?_
  exact iff_of_false nofun firstAt_nil

/-- The entities alone cannot be loaded just if the store is refused for one of their documents. -/
theorem loadLibrary_error_iff : s.loadLibrary tree = .error e ↔ s.Refuses tree Document.library e := by
  refine requirePresent_bind_error_iff fun hfiles => ?_
  have hnone : ∀ registry, (pure registry : Except StoreError Registry) = .error e ↔
      FirstAt (s.Readable tree) (s.Defect tree) [] e := fun _ => iff_of_false nofun firstAt_nil
  have hregistry := readRegistry_bind_error_iff hfiles hnone
  rwa [bind_pure, List.append_nil] at hregistry

/-! ## What loading depends on -/

/-- A document that leads to the same in another tree is read from there with the same result. -/
theorem readDocument_congr {α : Type} (h : other.find? (s.path document) = tree.find? (s.path document))
    (hfile : tree.isFile (s.path document) = true) (read : List Char → Except Json.Fault α) :
    s.readDocument other document read = s.readDocument tree document read := by
  obtain ⟨content, hcontent⟩ := isFile_iff.mp hfile
  rw [readDocument_of_file hcontent, readDocument_of_file (h.trans hcontent)]

theorem requirePresent_congr (h : ∀ d ∈ documents, other.find? (s.path d) = tree.find? (s.path d)) :
    s.requirePresent other documents = s.requirePresent tree documents := by
  have hfind : documents.find? (fun d => !other.isFile (s.path d)) = documents.find? fun d => !tree.isFile (s.path d) :=
    List.find?_congr fun d hd => by rw [FileTree.isFile, FileTree.isFile, h d hd]
  rw [requirePresent, requirePresent, hfind]

theorem readRegistry_congr (h : ∀ d ∈ Document.library, other.find? (s.path d) = tree.find? (s.path d))
    (hfiles : ∀ d ∈ Document.library, tree.isFile (s.path d) = true) : s.readRegistry other = s.readRegistry tree := by
  have hsame : ∀ {α : Type} (d : Document) (_ : d ∈ Document.library) (read : List Char → Except Json.Fault α),
      s.readDocument other d read = s.readDocument tree d read :=
    fun d hd read => readDocument_congr (h d hd) (hfiles d hd) read
  unfold readRegistry
  rw [hsame .controls (by decide), hsame .threats (by decide), hsame .components (by decide)]

/-- The outcome of a load depends on the documents alone. -/
theorem load_congr (h : ∀ d ∈ Document.all, other.find? (s.path d) = tree.find? (s.path d)) :
    s.load other = s.load tree := by
  unfold load
  rw [requirePresent_congr h]
  cases hpresent : s.requirePresent tree Document.all with
  | error e => rfl
  | ok =>
    have hfiles := requirePresent_ok_iff.mp hpresent
    have hlibrary := readRegistry_congr (fun d hd => h d (List.mem_append_left _ hd))
      fun d hd => hfiles d (List.mem_append_left _ hd)
    rw [hlibrary, readDocument_congr (h .model (by decide)) (hfiles .model (by decide))]

theorem loadLibrary_congr (h : ∀ d ∈ Document.library, other.find? (s.path d) = tree.find? (s.path d)) :
    s.loadLibrary other = s.loadLibrary tree := by
  unfold loadLibrary
  rw [requirePresent_congr h]
  cases hpresent : s.requirePresent tree Document.library with
  | error e => rfl
  | ok => rw [readRegistry_congr h (requirePresent_ok_iff.mp hpresent)]

/-- What is loaded has the entities that are loaded alone. -/
theorem loadLibrary_of_load {g : Graph} (h : s.load tree = .ok g) :
    ∃ library, s.loadLibrary tree = .ok library ∧ library.components = g.registry.components ∧
      library.controls = g.registry.controls ∧ library.threats = g.registry.threats := by
  obtain ⟨⟨⟩, hpresent, h⟩ := bind_ok.mp h
  obtain ⟨registry, hregistry, h⟩ := bind_ok.mp h
  obtain ⟨⟨runId, relations⟩, -, h⟩ := bind_ok.mp h
  obtain rfl := Except.ok.inj h
  have hfiles := requirePresent_ok_iff.mp hpresent
  have hlibrary := requirePresent_ok_iff.mpr fun d hd => hfiles d (List.mem_append_left _ hd)
  exact ⟨registry, bind_ok.mpr ⟨(), hlibrary, hregistry⟩, rfl, rfl, rfl⟩

/-- What becomes of the state once the store has been read. -/
def settle (tree : FileTree) : Except StoreError Graph → ExceptT StoreError (StateM (Graph × FileTree)) Unit
  | .ok loaded => set (loaded, tree)
  | .error e => throw e

/-- A load into a model that fails changes neither the model nor the files. -/
theorem eq_of_loadInto_error {g : Graph} {state : Graph × FileTree}
    (h : s.loadInto.run.run (g, tree) = (.error e, state)) : state = (g, tree) := by
  have hrun : s.loadInto.run.run (g, tree) = (settle tree (s.load tree)).run.run (g, tree) := rfl
  rw [hrun] at h
  cases hload : s.load tree with
  | ok loaded =>
    rw [hload] at h
    cases (Prod.mk.inj h).1
  | error fault =>
    rw [hload] at h
    exact (Prod.mk.inj h).2.symm

/-- Of a result there is an error just if there is no value. -/
theorem exists_ok_iff {ε α : Type} {result : Except ε α} : (∃ a, result = .ok a) ↔ ¬∃ e, result = .error e := by
  cases result <;> simp

/-- **What loading comes to.** A store is loaded if all its documents can be read. Otherwise it is refused for the first
that is missing, or else for the first that has a defect; the library likewise, for its three documents. -/
theorem load_outcome (s : Store) (tree : FileTree) :
    (∀ e, s.load tree = .error e ↔ s.Refuses tree Document.all e) ∧
    ((∃ g, s.load tree = .ok g) ↔ ∀ d ∈ Document.all, s.Readable tree d) ∧
    (s.holdsAll tree = true ↔ ∀ d path, s.load tree ≠ .error (.missing d path)) ∧
    (∀ e, s.loadLibrary tree = .error e ↔ s.Refuses tree Document.library e) ∧
    ((∃ library, s.loadLibrary tree = .ok library) ↔ ∀ d ∈ Document.library, s.Readable tree d) ∧
    (∀ g, s.load tree = .ok g → ∃ library, s.loadLibrary tree = .ok library ∧
      library.components = g.registry.components ∧ library.controls = g.registry.controls ∧
      library.threats = g.registry.threats) ∧
    (∀ other : FileTree, (∀ d ∈ Document.all, other.find? (s.path d) = tree.find? (s.path d)) →
      s.load other = s.load tree) ∧
    (∀ other : FileTree, (∀ d ∈ Document.library, other.find? (s.path d) = tree.find? (s.path d)) →
      s.loadLibrary other = s.loadLibrary tree) ∧
    ∀ g e state, s.loadInto.run.run (g, tree) = (.error e, state) → state = (g, tree) := by
  refine ⟨fun e => load_error_iff, ?_, ?_, fun e => loadLibrary_error_iff, ?_, fun g => loadLibrary_of_load,
    fun other => load_congr, fun other => loadLibrary_congr, fun g e state => eq_of_loadInto_error⟩
  · rw [exists_ok_iff]
    simp only [load_error_iff, exists_refuses, not_not]
  · have hmissing : (∃ d path, s.Refuses tree Document.all (.missing d path)) ↔
        ¬∀ d ∈ Document.all, tree.isFile (s.path d) = true := exists_refuses_missing
    simp only [ne_eq, load_error_iff, holdsAll, List.all_eq_true]
    simpa only [not_exists, not_not] using (not_congr hmissing).symm
  · rw [exists_ok_iff]
    simp only [loadLibrary_error_iff, exists_refuses, not_not]

end Store
end ThreatModel
