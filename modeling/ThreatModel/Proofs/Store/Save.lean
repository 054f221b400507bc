import Mathlib
import ThreatModel.Store
import ThreatModel.Proofs.FileTree

/-!
# `Proofs.Store.Save` — what saving leaves in the files

A save that succeeds leaves the four documents in the directory of the store, with the texts that were written,
and no temporary file beside them. It can then be done again.

## Contents

* `withDocument`, `Written` — what writing one document, and several, does to a tree.
* `granted_save` — a save that succeeds does the same under every system.
* `written_of_save`, `readBytes_of_save` — what a save leaves behind.
* `exists_save_of_save` — after a save another one succeeds.
-/

namespace ThreatModel

/-! ## Writing one document -/

namespace Document

/-- The name of the temporary file of a document. -/
def temporaryName (document : Document) : String := document.fileName ++ ".tmp"

theorem isFileName_fileName (document : Document) : FileTree.IsFileName document.fileName := by
  cases document <;> exact ⟨⟨by decide, by decide, by decide, by decide⟩, by decide, by decide⟩

theorem isFileName_temporaryName (document : Document) : FileTree.IsFileName document.temporaryName := by
  cases document <;> exact ⟨⟨by decide, by decide, by decide, by decide⟩, by decide, by decide⟩

theorem fileName_injective {document other : Document} (h : document.fileName = other.fileName) :
    document = other := by
  revert h
  cases document <;> cases other <;> decide

theorem mem_all (document : Document) : document ∈ all := by
  cases document <;> decide

theorem temporaryName_ne_fileName (document other : Document) : document.temporaryName ≠ other.fileName := by
  cases document <;> cases other <;> decide

theorem temporaryName_injective {document other : Document} (h : document.temporaryName = other.temporaryName) :
    document = other := by
  revert h
  cases document <;> cases other <;> decide

end Document

namespace Store

open FileTree FileAction

theorem temporaryPath_eq (s : Store) (document : Document) :
    s.temporaryPath document = Path.join s.directory document.temporaryName := by
  have hname := isAbsolute_of_no_slash (document.isFileName_fileName).no_slash
  have htemporary := isAbsolute_of_no_slash (document.isFileName_temporaryName).no_slash
  unfold temporaryPath path Path.join
  rw [hname, htemporary]
  split
  · rfl
  · split <;> simp only [Document.temporaryName, String.append_assoc]

/-- The tree in which a document with the given text has been written to a directory. -/
def withDocument (tree : FileTree) (place : Place) (document : Document) (text : String) : FileTree :=
  ((tree.set (place ++ [document.temporaryName]) (.file text.toUTF8)).erase (place ++ [document.temporaryName])).set
    (place ++ [document.fileName]) (.file text.toUTF8)

/-- The file of the document has the text, its temporary file is gone, and all else stays. -/
theorem get?_withDocument (tree : FileTree) (place : Place) (document : Document) (text : String) (q : Place) :
    (withDocument tree place document text).get? q
      = if q = place ++ [document.fileName] then some (.file text.toUTF8)
        else if q = place ++ [document.temporaryName] then none else tree.get? q := by
  rw [withDocument, get?_set _ (by simp), get?_erase _ (by simp), get?_set _ (by simp)]
  split
  · rfl
  · split <;> rfl

/-- The files of another document stay. -/
theorem get?_withDocument_other (tree : FileTree) (place : Place) {document other : Document} (text : String)
    (h : other ≠ document) :
    (withDocument tree place document text).get? (place ++ [other.fileName]) = tree.get? (place ++ [other.fileName]) ∧
      (withDocument tree place document text).get? (place ++ [other.temporaryName])
        = tree.get? (place ++ [other.temporaryName]) := by
  have hname : other.fileName ≠ document.fileName := fun heq => h (Document.fileName_injective heq)
  have htemporary : other.temporaryName ≠ document.temporaryName := fun heq =>
    h (Document.temporaryName_injective heq)
  have hcross := Document.temporaryName_ne_fileName other document
  have hcross' := (Document.temporaryName_ne_fileName document other).symm
  rw [get?_withDocument, get?_withDocument]
  simp only [List.append_cancel_left_eq, List.cons.injEq, and_true, hname, htemporary, hcross, hcross', if_false,
    and_self]

/-- **What writing a document does**: the document is written if nothing is in the way. -/
theorem outcome_writeDocument_ok {s : Store} {document : Document} {text : String} {tree after : FileTree} :
    outcome (s.writeDocument document text) tree = (.ok (), after) ↔
      ∃ place, tree.Within s.directory place ∧
        tree.get? (place ++ [document.temporaryName]) ≠ some .directory ∧
        tree.get? (place ++ [document.fileName]) ≠ some .directory ∧
        after = withDocument tree place document text := by
  have hname := document.isFileName_fileName
  have htemporary := document.isFileName_temporaryName
  have hne : document.fileName ≠ document.temporaryName := (document.temporaryName_ne_fileName document).symm
  rw [writeDocument, outcome_bind_ok]
  constructor
  · rintro ⟨⟨⟩, between, hwrite, hrename⟩
    rw [outcome_write_ok, temporaryPath_eq, write_join_ok htemporary] at hwrite
    rw [outcome_rename_ok, temporaryPath_eq, path, rename_join_ok htemporary hname] at hrename
    obtain ⟨place, hwithin, hfree, rfl⟩ := hwrite
    obtain ⟨other, content, hother, hcontent, htarget, rfl⟩ := hrename
    -- The temporary file takes the place of no directory, so the move finds the directory where the write did.
    obtain rfl := (hwithin.mono (extends_set hfree)).unique hother
    rw [get?_set tree (by simp), if_pos rfl] at hcontent
    obtain rfl := Entry.file.inj (Option.some.inj hcontent)
    rw [get?_set tree (by simp), if_neg (by simpa using hne)] at htarget
    exact ⟨place, hwithin, hfree, htarget, rfl⟩
  · rintro ⟨place, hwithin, hfree, htarget, rfl⟩
    refine ⟨(), tree.set (place ++ [document.temporaryName]) (.file text.toUTF8), ?_, ?_⟩
    · rw [outcome_write_ok, temporaryPath_eq, write_join_ok htemporary]
      exact ⟨place, hwithin, hfree, rfl⟩
    · rw [outcome_rename_ok, temporaryPath_eq, path, rename_join_ok htemporary hname]
      refine ⟨place, text.toUTF8, hwithin.mono (extends_set hfree), ?_, ?_, rfl⟩
      · rw [get?_set tree (by simp), if_pos rfl]
      · rw [get?_set tree (by simp), if_neg (by simpa using hne)]
        exact htarget

theorem granted_writeDocument (s : Store) (document : Document) (text : String) :
    Granted fun system => s.writeDocument document text system :=
  (granted_write _ _ _).bind fun _ => granted_rename _ _ _

/-! ## Writing several documents -/

/-- What writing documents to a directory does to a tree. -/
structure Written (place : Place) (documents : List Document) (text : Document → String)
    (tree after : FileTree) : Prop where
  /-- Nothing was in the way. -/
  free : ∀ d ∈ documents, tree.get? (place ++ [d.fileName]) ≠ some .directory ∧
    tree.get? (place ++ [d.temporaryName]) ≠ some .directory
  /-- Every document has its text. -/
  content : ∀ d ∈ documents, after.get? (place ++ [d.fileName]) = some (.file (text d).toUTF8)
  /-- No temporary file is left. -/
  gone : ∀ d ∈ documents, after.get? (place ++ [d.temporaryName]) = none
  /-- All else stays. -/
  frame : ∀ q, (∀ d ∈ documents, q ≠ place ++ [d.fileName] ∧ q ≠ place ++ [d.temporaryName]) →
    after.get? q = tree.get? q

/-- Directories stay where documents are written. -/
theorem Written.extends {place : Place} {documents : List Document} {text : Document → String}
    {tree after : FileTree} (h : Written place documents text tree after) : tree.Extends after := by
  intro q hq
  rw [h.frame q fun d hd => ?_]
  · exact hq
  · obtain ⟨hname, htemporary⟩ := h.free d hd
    exact ⟨fun heq => hname (heq ▸ hq), fun heq => htemporary (heq ▸ hq)⟩

theorem written_nil (place : Place) (text : Document → String) (tree : FileTree) : Written place [] text tree tree where
  free := List.forall_mem_nil _
  content := List.forall_mem_nil _
  gone := List.forall_mem_nil _
  frame := fun _ _ => rfl

/-- One more document is written before others. -/
theorem Written.cons {place : Place} {document : Document} {documents : List Document} {text : Document → String}
    {tree after : FileTree} (hnew : document ∉ documents)
    (hfree : tree.get? (place ++ [document.temporaryName]) ≠ some .directory)
    (htarget : tree.get? (place ++ [document.fileName]) ≠ some .directory)
    (h : Written place documents text (withDocument tree place document (text document)) after) :
    Written place (document :: documents) text tree after := by
  have hother : ∀ d ∈ documents, d ≠ document := fun d hd heq => hnew (heq ▸ hd)
  have hcross := fun d => Document.temporaryName_ne_fileName d document
  have hcross' := fun d => Document.temporaryName_ne_fileName document d
  refine ⟨?_, ?_, ?_, ?_⟩
  · intro d hd
    rcases List.mem_cons.mp hd with rfl | hd
    · exact ⟨htarget, hfree⟩
    · obtain ⟨hname, htemporary⟩ := get?_withDocument_other tree place (text document) (hother d hd)
      have hfree := h.free d hd
      rwa [hname, htemporary] at hfree
  · -- The first document is not touched by the others, because no two names agree.
    intro d hd
    rcases List.mem_cons.mp hd with rfl | hd
    · rw [h.frame, get?_withDocument, if_pos rfl]
      intro other hin
      simp only [ne_eq, List.append_cancel_left_eq, List.cons.injEq, and_true]
      exact ⟨fun heq => hother other hin (Document.fileName_injective heq.symm), fun heq => hcross other heq.symm⟩
    · exact h.content d hd
  · intro d hd
    rcases List.mem_cons.mp hd with rfl | hd
    · rw [h.frame, get?_withDocument]
      · simp only [List.append_cancel_left_eq, List.cons.injEq, and_true, hcross' d, if_false, if_true]
      · intro other hin
        simp only [ne_eq, List.append_cancel_left_eq, List.cons.injEq, and_true]
        exact ⟨hcross' other, fun heq => hother other hin (Document.temporaryName_injective heq.symm)⟩
    · exact h.gone d hd
  · intro q hq
    obtain ⟨hname, htemporary⟩ := hq document List.mem_cons_self
    rw [h.frame q fun d hd => hq d (List.mem_cons_of_mem _ hd), get?_withDocument, if_neg hname, if_neg htemporary]

/-- Directories stay where one document is written. -/
theorem extends_withDocument {tree : FileTree} {place : Place} {document : Document}
    (hfree : tree.get? (place ++ [document.temporaryName]) ≠ some .directory)
    (htarget : tree.get? (place ++ [document.fileName]) ≠ some .directory) (text : String) :
    tree.Extends (withDocument tree place document text) :=
  (Written.cons List.not_mem_nil hfree htarget (written_nil place (fun _ => text) _)).extends

/-- Documents that are written are there afterwards. -/
theorem written_of_forM {s : Store} {text : Document → String} {documents : List Document}
    (hnodup : documents.Nodup) {place : Place} :
    ∀ {tree after : FileTree}, tree.Within s.directory place →
      outcome (documents.forM fun d => s.writeDocument d (text d)) tree = (.ok (), after) →
      Written place documents text tree after := by
  induction documents with
  | nil =>
    intro tree after _ h
    obtain ⟨-, rfl⟩ := Prod.mk.inj h
    exact written_nil place text tree
  | cons document documents ih =>
    intro tree after hwithin h
    obtain ⟨hnew, hnodup⟩ := List.nodup_cons.mp hnodup
    obtain ⟨⟨⟩, between, hdocument, hrest⟩ := outcome_bind_ok.mp h
    obtain ⟨other, hother, hfree, htarget, rfl⟩ := outcome_writeDocument_ok.mp hdocument
    obtain rfl := hwithin.unique hother
    have hextends := extends_withDocument hfree htarget (text document)
    exact Written.cons hnew hfree htarget (ih hnodup (hwithin.mono hextends) hrest)

/-- Documents can be written where nothing is in the way. -/
theorem exists_forM {s : Store} (text : Document → String) {documents : List Document}
    (hnodup : documents.Nodup) {place : Place} :
    ∀ {tree : FileTree}, tree.Within s.directory place →
      (∀ d ∈ documents, tree.get? (place ++ [d.fileName]) ≠ some .directory ∧
        tree.get? (place ++ [d.temporaryName]) ≠ some .directory) →
      ∃ after, outcome (documents.forM fun d => s.writeDocument d (text d)) tree = (.ok (), after) := by
  induction documents with
  | nil =>
    intro tree _ _
    exact ⟨tree, rfl⟩
  | cons document documents ih =>
    intro tree hwithin hfree
    obtain ⟨hnew, hnodup⟩ := List.nodup_cons.mp hnodup
    obtain ⟨htarget, htemporary⟩ := hfree document List.mem_cons_self
    have hextends := extends_withDocument htemporary htarget (text document)
    have hdocument : outcome (s.writeDocument document (text document)) tree
        = (.ok (), withDocument tree place document (text document)) :=
      outcome_writeDocument_ok.mpr ⟨place, hwithin, htemporary, htarget, rfl⟩
    have hrest : ∀ d ∈ documents,
        (withDocument tree place document (text document)).get? (place ++ [d.fileName]) ≠ some .directory ∧
          (withDocument tree place document (text document)).get? (place ++ [d.temporaryName]) ≠ some .directory := by
      intro d hd
      have hne : d ≠ document := fun heq => hnew (heq ▸ hd)
      obtain ⟨hname, htemporary⟩ := get?_withDocument_other tree place (text document) hne
      rw [hname, htemporary]
      exact hfree d (List.mem_cons_of_mem _ hd)
    obtain ⟨after, hafter⟩ := ih hnodup (hwithin.mono hextends) hrest
    exact ⟨after, outcome_bind_ok.mpr ⟨(), _, hdocument, hafter⟩⟩

/-! ## Saving -/

/-- **A save that succeeds under some system** does what it does under the willing one. -/
theorem granted_save (s : Store) (g : Graph) : Granted fun system => s.save g system := by
  refine (granted_createDirectories _ _).bind fun _ => granted_forM (fun document => ?_) Document.all
  exact granted_writeDocument s document (document.render g)

/-- **What a save that succeeds does**: the directory is there, and all documents are written to it. -/
theorem written_of_save {s : Store} {g : Graph} {tree after : FileTree}
    (h : outcome (s.save g) tree = (.ok (), after)) :
    ∃ between place, between.Within s.directory place ∧
      Written place Document.all (fun d => d.render g) between after := by
  obtain ⟨⟨⟩, between, -, hwrite⟩ := outcome_bind_ok.mp h
  -- The first document shows where the directory is.
  obtain ⟨⟨⟩, first, hfirst, -⟩ := outcome_bind_ok.mp (id hwrite)
  obtain ⟨place, hwithin, -⟩ := outcome_writeDocument_ok.mp hfirst
  exact ⟨between, place, hwithin, written_of_forM (by decide) hwithin hwrite⟩

/-- The documents that a save wrote. -/
theorem readBytes_of_save {s : Store} {g : Graph} {tree after : FileTree}
    (h : outcome (s.save g) tree = (.ok (), after)) (document : Document) :
    after.readBytes (s.path document) = .ok (document.render g).toUTF8 := by
  obtain ⟨between, place, hwithin, hwritten⟩ := written_of_save h
  refine (readBytes_join_ok document.isFileName_fileName).mpr ⟨place, hwithin.mono hwritten.extends, ?_⟩
  exact hwritten.content document (Document.mem_all document)

/-- A save succeeds where the directory is there and nothing is in the way. -/
theorem exists_save {s : Store} (g : Graph) {tree : FileTree} {place : Place}
    (hwithin : tree.Within s.directory place)
    (hfree : ∀ d : Document, tree.get? (place ++ [d.fileName]) ≠ some .directory ∧
      tree.get? (place ++ [d.temporaryName]) ≠ some .directory) :
    ∃ after, outcome (s.save g) tree = (.ok (), after) := by
  obtain ⟨after, hafter⟩ := exists_forM (fun d => d.render g) (by decide : Document.all.Nodup) hwithin
    (fun d _ => hfree d)
  refine ⟨after, outcome_bind_ok.mpr ⟨(), tree, ?_, hafter⟩⟩
  exact outcome_createDirectories_ok.mpr (createDirectories_of_within hwithin)

/-- **After a save another one succeeds.** -/
theorem exists_save_of_save {s : Store} {g : Graph} {tree after : FileTree}
    (h : outcome (s.save g) tree = (.ok (), after)) (other : Graph) :
    ∃ again, outcome (s.save other) after = (.ok (), again) := by
  obtain ⟨between, place, hwithin, hwritten⟩ := written_of_save h
  refine exists_save other (hwithin.mono hwritten.extends) fun d => ?_
  -- A file is where each document goes, and nothing is where its temporary file goes.
  rw [hwritten.content d (Document.mem_all d), hwritten.gone d (Document.mem_all d)]
  exact ⟨by simp, by simp⟩

end Store
end ThreatModel
