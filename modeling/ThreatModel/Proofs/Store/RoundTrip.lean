import Mathlib
import ThreatModel.Proofs.Document.Model
import ThreatModel.Proofs.Store.Save

/-!
# `Proofs.Store.RoundTrip` — a saved model can be loaded

What is loaded from a store is decided by the bytes of its documents. After a save these are the texts of the
model, so loading gives the model that comes back from its texts; saving that one again writes the same bytes.

## Contents

* `fromUTF8?_toUTF8` — the bytes of a text are read as the text.
* `toOption_load` — what is loaded where the documents of a model are stored.
* `load_of_save` — a model that is saved can be loaded, and saved again to the same bytes.
-/

namespace ThreatModel

open Json FileTree FileAction

/-! ## Documents that are read -/

/-- The bytes of a text are read as the text. -/
theorem fromUTF8?_toUTF8 (text : String) : String.fromUTF8? text.toUTF8 = some text := by
  have hvalid : text.toUTF8.IsValidUTF8 := text.isValidUTF8
  unfold String.fromUTF8?
  rw [dif_pos hvalid]
  rfl

theorem isFile_of_readBytes {tree : FileTree} {path : String} {content : ByteArray}
    (h : tree.readBytes path = .ok content) : tree.isFile path = true := by
  obtain ⟨place, hlocate, hentry⟩ := bind_ok.mp h
  unfold isFile find?
  rw [hlocate]
  simp only
  split at hentry
  · cases hentry
  · cases hentry
  · next heq => rw [heq]

namespace Store

variable {s : Store} {g : Graph} {tree : FileTree}

/-- What is read of a document where the text of a model is stored. -/
theorem toOption_readDocument {α : Type} {document : Document} (read : List Char → Except Json.Fault α)
    (h : tree.readBytes (s.path document) = .ok (document.render g).toUTF8) :
    (s.readDocument tree document read).toOption = (read (pretty 0 (document.encode g))).toOption := by
  have hread : tree.read (s.path document) = .ok (document.render g) := by
    unfold FileTree.read
    rw [h]
    simp only [bind, Except.bind, fromUTF8?_toUTF8]
  have htext : (document.render g).toList = pretty 0 (document.encode g) := by
    rw [Document.render, Json.render, String.toList_ofList]
  unfold readDocument
  rw [hread]
  simp only [htext]
  cases read (pretty 0 (document.encode g)) <;> rfl

/-- **What is loaded** where the documents of a model are stored is the model that comes back from them. -/
theorem toOption_load (h : ∀ document, tree.readBytes (s.path document) = .ok (document.render g).toUTF8) :
    (s.load tree).toOption = g.back := by
  -- All documents are there, and each is read as what comes back of its part of the model.
  have hpresent : s.requirePresent tree Document.all = .ok () := by
    have hnone : (Document.all.find? fun d => !tree.isFile (s.path d)) = none := by
      rw [List.find?_eq_none]
      intro d _
      rw [isFile_of_readBytes (h d)]
      decide
    unfold requirePresent
    rw [hnone]
  have hcontrols : (s.readDocument tree .controls (Document.readMap (Entity.shape "Control"))).toOption
      = backMap (Entity.shape "Control") Reader.maxLevels g.registry.controls :=
    (toOption_readDocument _ (h .controls)).trans (Document.toOption_readMap (Entity.rows _).sound _)
  have hthreats : (s.readDocument tree .threats (Document.readMap (Entity.shape "Threat"))).toOption
      = backMap (Entity.shape "Threat") Reader.maxLevels g.registry.threats :=
    (toOption_readDocument _ (h .threats)).trans (Document.toOption_readMap (Entity.rows _).sound _)
  have hcomponents : (s.readDocument tree .components (Document.readMap Component.shape)).toOption
      = backMap Component.shape Reader.maxLevels g.registry.components :=
    (toOption_readDocument _ (h .components)).trans (Document.toOption_readMap Component.rows.sound _)
  have hmodel : (s.readDocument tree .model Document.readModel).toOption
      = (g.relations.back 124).map fun relations => (g.runId, relations) :=
    (toOption_readDocument _ (h .model)).trans (Document.toOption_readModel g)
  unfold load readRegistry
  rw [hpresent]
  simp only [toOption_bind, toOption_ok, hcontrols, hthreats, hcomponents, hmodel, Option.bind_some, Option.bind_assoc,
    Option.bind_map]
  rfl

/-- A model is loaded from its documents just if it comes back from them. -/
theorem load_eq_ok_iff (h : ∀ document, tree.readBytes (s.path document) = .ok (document.render g).toUTF8)
    {loaded : Graph} : s.load tree = .ok loaded ↔ g.back = some loaded := by
  rw [← toOption_load h]
  cases s.load tree <;> simp [Except.toOption]

/-! ## The round trip -/

/-- A model whose registry is of its run is made of its own parts. -/
theorem ofParts_self (h : g.registry.runId = g.runId) : Graph.ofParts g.runId g.registry g.relations = g := by
  have hregistry : { g.registry with runId := g.runId } = g.registry := by rw [← h]
  rw [Graph.ofParts, hregistry]

theorem render_ofParts (g : Graph) (document : Document) :
    document.render (Graph.ofParts g.runId g.registry g.relations) = document.render g := by
  cases document <;> rfl

/-- **A saved model can be loaded**: the same run, the same entities and the same relations in the same order.
The model that is loaded can be saved again, and every document then has the same bytes. -/
theorem load_of_save (hplain : g.Plain) {after : FileTree} (hsave : outcome (s.save g) tree = (.ok (), after)) :
    ∃ loaded, s.load after = .ok loaded ∧
      loaded.runId = g.runId ∧ loaded.registry.runId = g.runId ∧
      loaded.registry.components = g.registry.components ∧
      loaded.registry.controls = g.registry.controls ∧
      loaded.registry.threats = g.registry.threats ∧
      loaded.relations = g.relations ∧
      (g.registry.runId = g.runId → loaded = g) ∧
      ∃ again, outcome (s.save loaded) after = (.ok (), again) ∧
        ∀ document, ∃ content, after.readBytes (s.path document) = .ok content ∧
          again.readBytes (s.path document) = .ok content := by
  have hload := toOption_load (readBytes_of_save hsave)
  rw [Graph.back_plain hplain] at hload
  have hloaded : s.load after = .ok (Graph.ofParts g.runId g.registry g.relations) := by
    cases h : s.load after with
    | error e =>
      rw [h] at hload
      cases hload
    | ok loaded =>
      rw [h] at hload
      rw [Option.some.inj hload]
  obtain ⟨again, hagain⟩ := exists_save_of_save hsave (Graph.ofParts g.runId g.registry g.relations)
  refine ⟨_, hloaded, rfl, rfl, rfl, rfl, rfl, rfl, ?_, again, hagain, fun document => ?_⟩
  · exact ofParts_self
  · have hbytes := readBytes_of_save hagain document
    rw [render_ofParts] at hbytes
    exact ⟨_, readBytes_of_save hsave document, hbytes⟩

/-- A model with quotes, a control character and text beyond ASCII, and with numbers at their limits. -/
def quoted : Graph where
  runId := "run 1"
  registry :=
    { components := {}
      controls := {}
      threats := NameMap.empty.insert "\"Überlauf\"\n"
        { id := "\"Überlauf\"\n", runId := "run 0", name := "\"Überlauf\"\n", description := "\x01",
          custom := Custom.ofMembers [("score", .array [.number (.whole (-9223372036854775808)), .null])] }
      runId := "run 1" }
  relations :=
    { reviews := [{ component := "Api", details := "später",
                    source := { directive := "@review Api später", code := "", filename := "a.c",
                                line := 18446744073709551615 } }] }

theorem quoted_plain : quoted.Plain where
  components := List.forall_mem_nil _
  controls := List.forall_mem_nil _
  threats := by
    intro entry hentry
    obtain rfl := List.mem_singleton.mp hentry
    simp [Custom.Plain, Custom.ofMembers, canonicalMembers, canonical, canonicalItems, alterEntries, PlainMembers,
      Plain, PlainItems, signBit, Reader.maxWhole]
  annexes := by
    intro a ha
    obtain rfl := List.mem_singleton.mp ha
    exact ⟨by simp [Custom.Plain, PlainMembers, EmptyCollection.emptyCollection, Custom.empty], by decide⟩

/-- The model is saved to a directory that is there, and loaded from it. -/
theorem load_of_save_quoted :
    ∃ after, outcome ((⟨"threatmodel"⟩ : Store).save quoted) ⟨[(["threatmodel"], .directory)]⟩ = (.ok (), after) ∧
      quoted.Plain ∧ (⟨"threatmodel"⟩ : Store).load after = .ok quoted := by
  have hname : IsName "threatmodel" := ⟨by decide, by decide, by decide, by decide⟩
  have hwithin : (⟨[(["threatmodel"], .directory)]⟩ : FileTree).Within "threatmodel" ["threatmodel"] :=
    ⟨by decide, by decide, .down hname rfl (.here _)⟩
  obtain ⟨after, hsave⟩ := exists_save (s := ⟨"threatmodel"⟩) quoted hwithin fun d => by
    cases d <;> decide
  obtain ⟨loaded, hload, -, -, -, -, -, -, hsame, -⟩ := load_of_save quoted_plain hsave
  rw [hsame rfl] at hload
  exact ⟨after, hsave, quoted_plain, hload⟩

end Store
end ThreatModel
