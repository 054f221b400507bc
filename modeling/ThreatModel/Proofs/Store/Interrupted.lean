import Mathlib
import ThreatModel.Proofs.FileTree.Directories
import ThreatModel.Proofs.Store.Save

/-!
# `Proofs.Store.Interrupted` — how far a save comes

A save writes its documents in their order, and a document takes its place in one move. Wherever a save stops, and
whatever the system refuses, the documents up to there are the new ones as a whole, and the others are the old ones as a
whole; of the one at which it stopped there may be a temporary file, with any part of its text.

## Contents

* `outcome_forM_error`, `outcome_writeDocument_error` — where actions stop, and what a document that cannot be written
  leaves.
* `SavedUpTo` — the state in which some documents are written.
* `savedUpTo_of_save` — the state that every save leaves, whether it succeeds or fails.
* `not_frame_of_stale` — a temporary file from before does not stay, even if the save fails.
-/

namespace ThreatModel

/-! ## Actions that fail -/

namespace FileAction

variable {ε α β : Type} {tree after : FileTree} {e : ε}

/-- **Actions one after the other stop at the first that fails.** Those before it have succeeded, and those behind it
have not been started. -/
theorem outcome_forM_error {action : α → FileAction ε Unit} {xs : List α}
    (h : outcome (xs.forM action) tree = (.error e, after)) :
    ∃ before x rest between, xs = before ++ x :: rest ∧
      outcome (before.forM action) tree = (.ok (), between) ∧ outcome (action x) between = (.error e, after) := by
  induction xs generalizing tree with
  | nil => cases (Prod.mk.inj h).1
  | cons x rest ih =>
    rcases outcome_bind_error.mp h with h | ⟨⟨⟩, between, hx, h⟩
    · exact ⟨[], x, rest, tree, rfl, rfl, h⟩
    · obtain ⟨before, y, more, last, rfl, hbefore, hy⟩ := ih h
      exact ⟨x :: before, y, more, last, rfl, outcome_bind_ok.mpr ⟨(), between, hx, hbefore⟩, hy⟩

end FileAction

namespace Store

open FileTree FileAction

variable {s : Store} {text : Document → String} {system : System} {tree between after : FileTree} {place : Place}

/-- Documents that have been written show where the directory is. -/
theorem exists_written_of_forM {documents : List Document} (hnodup : documents.Nodup)
    (h : outcome (documents.forM fun d => s.writeDocument d (text d) system) tree = (.ok (), after)) :
    documents = [] ∧ after = tree ∨
      ∃ place, tree.Within s.directory place ∧ Written place documents text tree after := by
  cases documents with
  | nil => exact Or.inl ⟨rfl, (Prod.mk.inj h).2.symm⟩
  | cons d rest =>
    -- What succeeds under the system succeeds in the same way under the willing one.
    have hwilling := granted_forM (fun d => granted_writeDocument s d (text d)) _ _ _ _ _ h
    obtain ⟨⟨⟩, first, hfirst, -⟩ := outcome_bind_ok.mp (id hwilling)
    obtain ⟨place, hwithin, -⟩ := outcome_writeDocument_ok.mp hfirst
    exact Or.inr ⟨place, hwithin, written_of_forM hnodup hwithin hwilling⟩

/-- A document that cannot be written leaves its temporary file at most, which may hold any part of its text. -/
theorem outcome_writeDocument_error {document : Document} {content : String} {e : StoreError}
    (h : outcome (s.writeDocument document content system) tree = (.error e, after)) :
    after = tree ∨ ∃ place written, tree.Within s.directory place ∧
      tree.get? (place ++ [document.temporaryName]) ≠ some .directory ∧
      after = tree.set (place ++ [document.temporaryName]) (.file written) := by
  have hplace : ∀ {written after}, tree.write (s.temporaryPath document) written = .ok after →
      ∃ place written, tree.Within s.directory place ∧
        tree.get? (place ++ [document.temporaryName]) ≠ some .directory ∧
        after = tree.set (place ++ [document.temporaryName]) (.file written) := by
    intro written after hwrite
    rw [temporaryPath_eq, write_join_ok document.isFileName_temporaryName] at hwrite
    obtain ⟨place, hwithin, hfree, rfl⟩ := hwrite
    exact ⟨place, written, hwithin, hfree, rfl⟩
  rcases outcome_bind_error.mp h with hwrite | ⟨⟨⟩, between, hwrite, hrename⟩
  · obtain ⟨cause, hwrite, -⟩ := outcome_change_error.mp hwrite
    rcases System.write_error hwrite with rfl | ⟨_, _, -, hpart⟩
    · exact Or.inl rfl
    · exact Or.inr (hplace hpart)
  · obtain ⟨cause, hrename, -⟩ := outcome_change_error.mp hrename
    rw [System.rename_error hrename]
    exact Or.inr (hplace (System.write_ok (outcome_change_ok.mp hwrite)))

/-! ## The state of a save -/

/-- The state in which a save has written the first `k` documents. -/
structure SavedUpTo (s : Store) (text : Document → String) (k : Nat) (tree after : FileTree) : Prop where
  /-- The first documents hold the new texts. -/
  written : ∀ d ∈ Document.all.take k, after.readBytes (s.path d) = .ok (text d).toUTF8
  /-- Their temporary files are gone. -/
  gone : ∀ d ∈ Document.all.take k, after.contains (s.temporaryPath d) = false
  /-- All later documents are as they were. -/
  kept : ∀ d ∈ Document.all.drop k, ∀ place, after.locate (s.path d) = .ok place →
    tree.Keeps (Path.pieces s.directory) after place
  /-- Nothing else is changed, but that the first of these may have a temporary file. -/
  frame : ∀ place, tree.Keeps (Path.pieces s.directory) after place ∨
    (∃ d ∈ Document.all.take k, after.locate (s.path d) = .ok place) ∨
    ∃ d ∈ Document.all.take (k + 1), after.locate (s.temporaryPath d) = .ok place

theorem locate_path_iff (h : tree.Within s.directory place) {document : Document} {target : Place} :
    tree.locate (s.path document) = .ok target ↔ target = place ++ [document.fileName] := by
  rw [path, locate_join_iff document.isFileName_fileName]
  constructor
  · rintro ⟨there, hthere, rfl⟩
    rw [h.unique hthere]
  · rintro rfl
    exact ⟨place, h, rfl⟩

theorem locate_temporaryPath_iff (h : tree.Within s.directory place) {document : Document} {target : Place} :
    tree.locate (s.temporaryPath document) = .ok target ↔ target = place ++ [document.temporaryName] := by
  rw [temporaryPath_eq, locate_join_iff document.isFileName_temporaryName]
  constructor
  · rintro ⟨there, hthere, rfl⟩
    rw [h.unique hthere]
  · rintro rfl
    exact ⟨place, h, rfl⟩

/-- Before anything is written all documents are as they were. -/
theorem savedUpTo_zero (h : ∀ place, tree.Keeps (Path.pieces s.directory) after place) :
    s.SavedUpTo text 0 tree after where
  written := List.forall_mem_nil _
  gone := List.forall_mem_nil _
  kept := fun _ _ place _ => h place
  frame := fun place => Or.inl (h place)

/-- No document that is still to come has a name of one that is written. -/
theorem ne_written {k : Nat} {d : Document} (hd : d ∈ Document.all.drop k) :
    ∀ other ∈ Document.all.take k, d.fileName ≠ other.fileName ∧ d.temporaryName ≠ other.temporaryName := by
  have hnodup : Document.all.Nodup := by decide
  intro other hother
  have hne : d ≠ other := by
    rintro rfl
    exact List.disjoint_take_drop hnodup (Nat.le_refl k) hother hd
  exact ⟨fun h => hne (Document.fileName_injective h), fun h => hne (Document.temporaryName_injective h)⟩

/-- How far a save has come is told by what is in the directory of the store. -/
theorem savedUpTo_of_places {k : Nat} (hwithin : after.Within s.directory place)
    (hwritten : ∀ d ∈ Document.all.take k, after.get? (place ++ [d.fileName]) = some (.file (text d).toUTF8))
    (hgone : ∀ d ∈ Document.all.take k, after.get? (place ++ [d.temporaryName]) = none)
    (hrest : ∀ q, (∀ d ∈ Document.all.take k, q ≠ place ++ [d.fileName] ∧ q ≠ place ++ [d.temporaryName]) →
      tree.Keeps (Path.pieces s.directory) after q ∨
        ∃ d ∈ (Document.all.drop k).head?, q = place ++ [d.temporaryName]) : s.SavedUpTo text k tree after where
  written := fun d hd => (readBytes_join_ok d.isFileName_fileName).mpr ⟨place, hwithin, hwritten d hd⟩
  gone := by
    intro d hd
    unfold FileTree.contains find?
    rw [(locate_temporaryPath_iff hwithin).mpr rfl]
    simp only [hgone d hd, Option.isSome_none]
  kept := by
    intro d hd q hq
    obtain rfl := (locate_path_iff hwithin).mp hq
    have hother : ∀ other ∈ Document.all.take k, place ++ [d.fileName] ≠ place ++ [other.fileName] ∧
        place ++ [d.fileName] ≠ place ++ [other.temporaryName] := by
      intro other hother
      simp only [ne_eq, List.append_cancel_left_eq, List.cons.injEq, and_true]
      exact ⟨(ne_written hd other hother).1, fun h => other.temporaryName_ne_fileName d h.symm⟩
    rcases hrest (place ++ [d.fileName]) hother with hkeeps | ⟨other, -, heq⟩
    · exact hkeeps
    · -- No document has the name of a temporary file.
      have hname : d.fileName = other.temporaryName := by simpa using heq
      exact absurd hname.symm (other.temporaryName_ne_fileName d)
  frame := by
    intro q
    by_cases hnames : ∀ d ∈ Document.all.take k, q ≠ place ++ [d.fileName] ∧ q ≠ place ++ [d.temporaryName]
    · rcases hrest q hnames with hkeeps | ⟨d, hd, rfl⟩
      · exact Or.inl hkeeps
      · refine Or.inr (Or.inr ⟨d, ?_, (locate_temporaryPath_iff hwithin).mpr rfl⟩)
        rw [List.take_add_one, ← List.head?_drop]
        exact List.mem_append_right _ (Option.mem_toList.mpr hd)
    · push Not at hnames
      obtain ⟨d, hd, hname⟩ := hnames
      by_cases hfile : q = place ++ [d.fileName]
      · exact Or.inr (Or.inl ⟨d, hd, (locate_path_iff hwithin).mpr hfile⟩)
      · have hmem : d ∈ Document.all.take (k + 1) := List.take_subset_take_left _ (Nat.le_succ k) hd
        exact Or.inr (Or.inr ⟨d, hmem, (locate_temporaryPath_iff hwithin).mpr (hname hfile)⟩)

/-- Documents that have been written after the directories were created. -/
theorem savedUpTo_of_written {k : Nat} (hkeeps : ∀ q, tree.Keeps (Path.pieces s.directory) between q)
    (hwithin : between.Within s.directory place) (hwritten : Written place (Document.all.take k) text between after) :
    s.SavedUpTo text k tree after := by
  refine savedUpTo_of_places (hwithin.mono hwritten.extends) hwritten.content hwritten.gone fun q hq => Or.inl ?_
  have hsame := hkeeps q
  rwa [Keeps, ← hwritten.frame q hq] at hsame

/-- A temporary file beside documents that have been written, whatever it holds. -/
theorem savedUpTo_of_temporary {k : Nat} {d : Document} (content : ByteArray) (hd : (Document.all.drop k).head? = some d)
    (hkeeps : ∀ q, tree.Keeps (Path.pieces s.directory) between q) (hwithin : between.Within s.directory place)
    (hwritten : Written place (Document.all.take k) text between after)
    (hfree : after.get? (place ++ [d.temporaryName]) ≠ some .directory) :
    s.SavedUpTo text k tree (after.set (place ++ [d.temporaryName]) (.file content)) := by
  have hother := ne_written (List.mem_of_mem_head? hd)
  refine savedUpTo_of_places ((hwithin.mono hwritten.extends).mono (extends_set hfree)) ?_ ?_ ?_
  · intro written hmem
    have hne : place ++ [written.fileName] ≠ place ++ [d.temporaryName] := by
      simpa using fun h => d.temporaryName_ne_fileName written h.symm
    rw [get?_set after (by simp), if_neg hne]
    exact hwritten.content written hmem
  · intro written hmem
    have hne : place ++ [written.temporaryName] ≠ place ++ [d.temporaryName] := by
      simpa using fun h => (hother written hmem).2 h.symm
    rw [get?_set after (by simp), if_neg hne]
    exact hwritten.gone written hmem
  · intro q hq
    rw [Keeps, get?_set after (by simp)]
    by_cases heq : q = place ++ [d.temporaryName]
    · exact Or.inr ⟨d, hd, heq⟩
    · have hsame := hkeeps q
      rw [Keeps, ← hwritten.frame q hq] at hsame
      rw [if_neg heq]
      exact Or.inl hsame

/-! ## Every save -/

/-- Creating directories keeps all else, whether it succeeds or not. -/
theorem keeps_of_createDirectories {ε : Type} {wrap : FileError → ε} {path : String} {result : Except ε Unit}
    (h : outcome (FileAction.createDirectories wrap path system) tree = (result, after)) (q : Place) :
    tree.Keeps (Path.pieces path) after q := by
  have hkeeps := createDirectories_keeps system tree path q
  have hafter : after = (tree.createDirectories path system).1 := by
    cases result with
    | ok =>
      have hcreate := outcome_createDirectories_ok.mp h
      rw [hcreate]
    | error e =>
      obtain ⟨cause, hcreate, -⟩ := outcome_change_error.mp h
      rw [hcreate]
  rwa [hafter]

/-- **How far a save comes**, whatever is in the tree and whatever the system refuses. A save that succeeds has written
all documents. One that fails has written those before some document, of which there may be a temporary file; that one
and all later ones are as they were. -/
theorem savedUpTo_of_save (s : Store) (g : Graph) (system : System) (tree : FileTree) :
    match outcome (s.save g system) tree with
    | (.ok (), after) => s.SavedUpTo (fun d => d.render g) Document.all.length tree after
    | (.error _, after) => ∃ k < Document.all.length, s.SavedUpTo (fun d => d.render g) k tree after := by
  have hnodup : Document.all.Nodup := by decide
  generalize h : outcome (s.save g system) tree = o
  obtain ⟨⟨e⟩ | ⟨⟨⟩⟩, after⟩ := o
  · rcases outcome_bind_error.mp h with hcreate | ⟨⟨⟩, between, hcreate, hwrite⟩
    · exact ⟨0, by decide, savedUpTo_zero (keeps_of_createDirectories hcreate)⟩
    · -- The save stopped at a document; those before it are written.
      have hkeeps := keeps_of_createDirectories hcreate
      obtain ⟨before, d, rest, mid, hall, hbefore, hd⟩ := outcome_forM_error hwrite
      have htake : Document.all.take before.length = before := by rw [hall, List.take_left]
      have hhead : (Document.all.drop before.length).head? = some d := by rw [hall, List.drop_left, List.head?_cons]
      have hnodup : before.Nodup := by
        rw [← htake]
        exact hnodup.sublist (List.take_sublist _ _)
      refine ⟨before.length, by rw [hall]; simp, ?_⟩
      rcases exists_written_of_forM hnodup hbefore with ⟨rfl, rfl⟩ | ⟨place, hwithin, hwritten⟩
      · rcases outcome_writeDocument_error hd with rfl | ⟨place, content, hwithin, hfree, rfl⟩
        · exact savedUpTo_zero hkeeps
        · exact savedUpTo_of_temporary content hhead hkeeps hwithin (written_nil place _ mid) hfree
      · rw [← htake] at hwritten
        rcases outcome_writeDocument_error hd with rfl | ⟨other, content, hother, hfree, rfl⟩
        · exact savedUpTo_of_written hkeeps hwithin hwritten
        · obtain rfl := (hwithin.mono hwritten.extends).unique hother
          exact savedUpTo_of_temporary content hhead hkeeps hwithin hwritten hfree
  · obtain ⟨⟨⟩, between, hcreate, hwrite⟩ := outcome_bind_ok.mp h
    have hkeeps := keeps_of_createDirectories hcreate
    rcases exists_written_of_forM hnodup hwrite with ⟨hnil, -⟩ | ⟨place, hwithin, hwritten⟩
    · cases hnil
    · exact savedUpTo_of_written hkeeps hwithin hwritten

/-- A store in which an earlier save left a temporary file, and in which a directory is in the place of a document. -/
def stale : FileTree :=
  ⟨[(["threatmodel"], .directory), (["threatmodel", "controls.json.tmp"], .file "stale".toUTF8),
    (["threatmodel", "threats.json"], .directory)]⟩

/-- What a save leaves of it. -/
def unstale : FileTree := (outcome (Store.save ⟨"threatmodel"⟩ (Graph.empty "r")) stale).2

/-- **A temporary file from before does not stay.** A save stops at the threats, yet the temporary file of the controls,
which came before them, is gone with the document that took its place. So a save that fails changes more than the
temporary file of the document at which it stopped. -/
theorem not_frame_of_stale :
    outcome (Store.save ⟨"threatmodel"⟩ (Graph.empty "r")) stale = (.error (.file .isDirectory), unstale) ∧
      ¬∃ k < Document.all.length,
        (∀ d ∈ Document.all.take k,
          unstale.readBytes (Store.path ⟨"threatmodel"⟩ d) = .ok (d.render (Graph.empty "r")).toUTF8) ∧
        (∀ d ∈ Document.all.drop k,
          unstale.find? (Store.path ⟨"threatmodel"⟩ d) = stale.find? (Store.path ⟨"threatmodel"⟩ d)) ∧
        ∀ place, stale.Keeps (Path.pieces "threatmodel") unstale place ∨
          (∃ d ∈ Document.all.take k, unstale.locate (Store.path ⟨"threatmodel"⟩ d) = .ok place) ∨
          ∃ d ∈ (Document.all.drop k).head?,
            unstale.locate (Store.temporaryPath ⟨"threatmodel"⟩ d) = .ok place := by
  have hstops : (outcome (Store.save ⟨"threatmodel"⟩ (Graph.empty "r")) stale).1 = .error (.file .isDirectory) := by
    decide +kernel
  refine ⟨by rw [unstale, ← hstops, Prod.mk.eta], ?_⟩
  rintro ⟨k, hk, -, hkept, hframe⟩
  cases k with
  | zero =>
    -- The controls have been written, so it did not stop there.
    have hnew : unstale.find? (Store.path ⟨"threatmodel"⟩ .controls)
        ≠ stale.find? (Store.path ⟨"threatmodel"⟩ .controls) := by decide +kernel
    exact hnew (hkept .controls List.mem_cons_self)
  | succ k =>
    have hgone : unstale.get? ["threatmodel", "controls.json.tmp"] = none := by decide +kernel
    have hwithin : unstale.Within "threatmodel" ["threatmodel"] := by
      have hname : IsName "threatmodel" := ⟨by decide, by decide, by decide, by decide⟩
      exact ⟨by decide, by decide, .down hname (by decide +kernel) (.here _)⟩
    rcases hframe (["threatmodel"] ++ [Document.controls.temporaryName]) with hkeeps | ⟨d, -, hplace⟩ | ⟨d, hd, hplace⟩
    · have hthere : stale.get? ["threatmodel", "controls.json.tmp"] = some (.file "stale".toUTF8) := rfl
      rcases hkeeps with hsame | ⟨hnone, -⟩
      · cases hthere.symm.trans (hsame.symm.trans hgone)
      · cases hthere.symm.trans hnone
    · have hname := (locate_path_iff hwithin).mp hplace
      simp only [List.append_cancel_left_eq, List.cons.injEq, and_true] at hname
      exact Document.controls.temporaryName_ne_fileName d hname
    · -- The controls are not among the documents behind the first.
      have hname := (locate_temporaryPath_iff hwithin).mp hplace
      simp only [List.append_cancel_left_eq, List.cons.injEq, and_true] at hname
      obtain rfl := Document.temporaryName_injective hname
      have hrest : Document.controls ∉ Document.all.drop 1 := by decide
      exact hrest (List.drop_subset_drop_left _ (Nat.le_add_left 1 k) (List.mem_of_mem_head? hd))

end Store
end ThreatModel
