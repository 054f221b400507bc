import Mathlib
import ThreatModel.Proofs.Document.Prolong
import ThreatModel.Proofs.Store.Interrupted
import ThreatModel.Proofs.Store.RoundTrip

/-!
# `Proofs.Store.Torn` — documents of which a part is missing

A document that was cut off after any number of its bytes is not loaded. Its bytes are cut inside a character, and then
they are no text; or they are the front of its text, which is no document.

## Contents

* `exists_behind` — bytes at the front of a text are the front of the text.
* `refuses_of_defect` — the one document that has a defect is the reason.
* `not_load_of_torn` — a store with a torn document is not loaded.
-/

namespace ThreatModel

open Json FileTree FileAction

/-- Bytes that are a text are read as the bytes of that text. -/
theorem toUTF8_of_fromUTF8? {content : ByteArray} {text : String} (h : String.fromUTF8? content = some text) :
    text.toUTF8 = content := by
  unfold String.fromUTF8? at h
  split at h
  · obtain rfl := Option.some.inj h
    rfl
  · cases h

/-- A text whose bytes stand at the front of the bytes of another one stands at its front. -/
theorem exists_behind {text front : String} {rest : ByteArray} (h : text.toUTF8 = front.toUTF8 ++ rest)
    (hrest : rest ≠ ByteArray.empty) : ∃ behind, behind ≠ [] ∧ text.toList = front.toList ++ behind := by
  have hbytes : ∀ s : String, s.toUTF8 = s.toList.utf8Encode := fun s => String.utf8Encode_toList.symm
  have hencoded : front.toList.utf8Encode ++ rest = text.toList.utf8Encode := by rw [← hbytes, ← hbytes, h]
  obtain ⟨behind, hbehind⟩ := List.isPrefix_of_utf8Encode_append_eq_utf8Encode rest hencoded
  refine ⟨behind, ?_, hbehind.symm⟩
  rintro rfl
  rw [List.append_nil] at hbehind
  rw [← hbehind] at hencoded
  apply hrest
  have hsize := congrArg ByteArray.size hencoded
  rw [ByteArray.size_append] at hsize
  exact ByteArray.size_eq_zero_iff.mp (by omega)

namespace Store

variable {s : Store} {tree after other : FileTree} {document : Document} {e : StoreError}

/-- The one document that is bad is the first that is. -/
theorem firstAt_of_mem {good : Document → Prop} {bad : Document → StoreError → Prop} {documents : List Document}
    (hmem : document ∈ documents) (hgood : ∀ d ∈ documents, d ≠ document → good d) (hbad : bad document e) :
    FirstAt good bad documents e := by
  induction documents with
  | nil => cases hmem
  | cons first rest ih =>
    by_cases heq : first = document
    · exact .here (heq ▸ hbad)
    · have hrest := (List.mem_cons.mp hmem).resolve_left fun h => heq h.symm
      exact .later (hgood first List.mem_cons_self heq) (ih hrest fun d hd => hgood d (List.mem_cons_of_mem _ hd))

/-- A store is refused for the one document that has a defect. -/
theorem refuses_of_defect {documents : List Document} (hmem : document ∈ documents)
    (hgood : ∀ d ∈ documents, d ≠ document → s.Readable other d) (hdefect : s.Defect other document e) :
    s.Refuses other documents e := by
  refine .defect (fun d hd => ?_) (firstAt_of_mem hmem hgood hdefect)
  by_cases heq : d = document
  · subst heq
    cases hdefect with
    | notText hcontent => exact isFile_iff.mpr ⟨_, hcontent⟩
    | corrupt hcontent => exact isFile_iff.mpr ⟨_, hcontent⟩
  · exact (hgood d hd heq).isFile

/-- Every document of a store that is loaded can be read. -/
theorem readable_of_load {g : Graph} (h : s.load tree = .ok g) (d : Document) : s.Readable tree d := by
  have hnone : ¬∃ e, s.Refuses tree Document.all e := by
    simp only [← load_error_iff]
    exact exists_ok_iff.mp ⟨g, h⟩
  rw [exists_refuses, not_not] at hnone
  exact hnone d (Document.mem_all d)

/-- Where the directory of a store is there, its documents are beside each other. -/
theorem find?_path {place : Place} (h : tree.Within s.directory place) (d : Document) :
    tree.find? (s.path d) = tree.get? (place ++ [d.fileName]) := by
  unfold find?
  rw [(locate_path_iff h).mpr rfl]

/-- A saved document that can be read has no fault in its text. -/
theorem fault?_of_readable {g : Graph} (hsaved : tree.readBytes (s.path document) = .ok (document.render g).toUTF8)
    (h : s.Readable tree document) : document.fault? (pretty 0 (document.encode g)) = none := by
  obtain ⟨content, text, hcontent, htext, hfault⟩ := h
  have hsame : content = (document.render g).toUTF8 := by
    obtain ⟨place, hlocate, hentry⟩ := bind_ok.mp hsaved
    unfold find? at hcontent
    simp only [hlocate] at hcontent
    simp only [hcontent] at hentry
    exact Except.ok.inj hentry
  rw [hsame, fromUTF8?_toUTF8] at htext
  obtain rfl := Option.some.inj htext
  rwa [Document.render, Json.render, String.toList_ofList] at hfault

/-- **A torn document is never loaded.** The documents of a model have been saved and can be loaded; of one of them only
bytes from its front are left, the others are as they were saved. Then the store is not loaded: the error is that the
document is corrupt if the bytes are a text, and otherwise that they are none. It is the same with the library, if the
document is one of its documents. -/
theorem not_load_of_torn {g loaded : Graph} {torn rest : ByteArray}
    (hsave : outcome (s.save g) tree = (.ok (), after)) (hload : s.load after = .ok loaded)
    (hkept : ∀ d, d ≠ document → other.find? (s.path d) = after.find? (s.path d))
    (htorn : other.find? (s.path document) = some (.file torn))
    (hfront : (document.render g).toUTF8 = torn ++ rest) (hproper : rest ≠ ByteArray.empty) :
    (∀ text, String.fromUTF8? torn = some text → ∃ fault, s.load other = .error (.corrupt document fault) ∧
      (document ∈ Document.library → s.loadLibrary other = .error (.corrupt document fault))) ∧
    (String.fromUTF8? torn = none → s.load other = .error (.file .notText) ∧
      (document ∈ Document.library → s.loadLibrary other = .error (.file .notText))) := by
  have hgood : ∀ d, d ≠ document → s.Readable other d := by
    intro d hd
    obtain ⟨content, text, hcontent, htext, hfault⟩ := readable_of_load hload d
    exact ⟨content, text, (hkept d hd).trans hcontent, htext, hfault⟩
  have hrefused : ∀ e, s.Defect other document e → s.load other = .error e ∧
      (document ∈ Document.library → s.loadLibrary other = .error e) := by
    intro e hdefect
    refine ⟨load_error_iff.mpr (refuses_of_defect (Document.mem_all document) (fun d _ => hgood d) hdefect), ?_⟩
    intro hlibrary
    exact loadLibrary_error_iff.mpr (refuses_of_defect hlibrary (fun d _ => hgood d) hdefect)
  have hfault := fault?_of_readable (readBytes_of_save hsave document) (readable_of_load hload document)
  constructor
  · intro text htext
    rw [← toUTF8_of_fromUTF8? htext] at hfront
    obtain ⟨behind, hbehind, hsplit⟩ := exists_behind hfront hproper
    rw [Document.render, Json.render, String.toList_ofList] at hsplit
    obtain ⟨fault, hcut⟩ := Document.fault?_of_isPrefix hsplit hbehind hfault
    exact ⟨fault.locate text.toList, hrefused _ (.corrupt htorn htext hcut)⟩
  · intro hnone
    exact hrefused _ (.notText htorn hnone)

/-- The threats of a model are cut off after seven characters. -/
theorem not_load_of_torn_quoted : ∃ (after other : FileTree) (torn rest : ByteArray) (text : String),
    outcome ((⟨"threatmodel"⟩ : Store).save quoted) ⟨[(["threatmodel"], .directory)]⟩ = (.ok (), after) ∧
      (⟨"threatmodel"⟩ : Store).load after = .ok quoted ∧
      (∀ d, d ≠ Document.threats →
        other.find? ((⟨"threatmodel"⟩ : Store).path d) = after.find? ((⟨"threatmodel"⟩ : Store).path d)) ∧
      other.find? ((⟨"threatmodel"⟩ : Store).path .threats) = some (.file torn) ∧
      (Document.threats.render quoted).toUTF8 = torn ++ rest ∧ rest ≠ ByteArray.empty ∧
      String.fromUTF8? torn = some text ∧
      ∃ fault, (⟨"threatmodel"⟩ : Store).load other = .error (.corrupt .threats fault) := by
  have hname : IsName "threatmodel" := ⟨by decide, by decide, by decide, by decide⟩
  have hthere : (⟨[(["threatmodel"], .directory)]⟩ : FileTree).Within "threatmodel" ["threatmodel"] :=
    ⟨by decide, by decide, .down hname rfl (.here _)⟩
  obtain ⟨after, hsave⟩ := exists_save (s := ⟨"threatmodel"⟩) quoted hthere fun d => by
    cases d <;> decide
  have hload : (⟨"threatmodel"⟩ : Store).load after = .ok quoted :=
    (load_eq_ok_iff (readBytes_of_save hsave)).mpr (Graph.back_plain quoted_plain)
  let chars := pretty 0 (Document.threats.encode quoted)
  let torn := (String.ofList (chars.take 7)).toUTF8
  let rest := (String.ofList (chars.drop 7)).toUTF8
  have hfront : (Document.threats.render quoted).toUTF8 = torn ++ rest := by
    show (String.ofList chars).toByteArray = (String.ofList (chars.take 7)).toByteArray ++ (String.ofList (chars.drop 7)).toByteArray
    rw [String.toByteArray_ofList, String.toByteArray_ofList, String.toByteArray_ofList, ← List.utf8Encode_append,
      List.take_append_drop]
  have hproper : rest ≠ ByteArray.empty := by
    show (String.ofList (chars.drop 7)).toByteArray ≠ ByteArray.empty
    rw [String.toByteArray_ofList, ne_eq, List.utf8Encode_eq_empty]
    decide +kernel
  -- The documents are found beside each other, before and after one of them is cut off.
  obtain ⟨between, place, hwithin, hwritten⟩ := written_of_save hsave
  have hafter := hwithin.mono hwritten.extends
  let other := after.set (place ++ [Document.threats.fileName]) (.file torn)
  have hother : other.Within "threatmodel" place := by
    refine hafter.mono (extends_set ?_)
    rw [hwritten.content .threats (Document.mem_all _)]
    exact nofun
  have hset : ∀ d : Document, other.find? ((⟨"threatmodel"⟩ : Store).path d)
      = if d.fileName = Document.threats.fileName then some (.file torn)
        else after.find? ((⟨"threatmodel"⟩ : Store).path d) := by
    intro d
    rw [find?_path hother, find?_path hafter, get?_set after (by simp)]
    simp only [List.append_cancel_left_eq, List.cons.injEq, and_true]
  have hkept := fun d hd => (hset d).trans (if_neg (mt Document.fileName_injective hd))
  have htorn := (hset .threats).trans (if_pos rfl)
  have htext := fromUTF8?_toUTF8 (String.ofList (chars.take 7))
  obtain ⟨fault, hfault, -⟩ := (not_load_of_torn hsave hload hkept htorn hfront hproper).1 _ htext
  exact ⟨after, other, torn, rest, _, hsave, hload, hkept, htorn, hfront, hproper, htext, fault, hfault⟩

end Store
end ThreatModel
