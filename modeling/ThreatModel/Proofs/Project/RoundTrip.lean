import Mathlib
import ThreatModel.Proofs.FileTree.Rewritten
import ThreatModel.Proofs.Project.Written
import ThreatModel.Proofs.Store.RoundTrip

/-!
# `Proofs.Project.RoundTrip` — a saved configuration can be loaded

Loading a configuration that has been saved gives what its text is read as, if that can be used. It is the same
configuration unless a text is taken for a number: where a scan root is concerned nothing can be loaded, elsewhere
the text of the number takes the place of the text.

## Contents

* `find?_of_save`, `load_of_file` — the file that is written, and what is loaded from a file.
* `load_eq_of_save` — what is loaded of a saved configuration.
* `load_saved_iff` — when that is the configuration itself.
-/

namespace ThreatModel

/-! ## The round trip -/

namespace Project

open FileTree FileAction

theorem exists_of_fst {action : FileAction ProjectError Unit} {tree : FileTree}
    (h : (outcome action tree).1 = .ok ()) : ∃ after, outcome action tree = (.ok (), after) := by
  generalize outcome action tree = ended at h
  exact ⟨ended.2, Prod.ext h rfl⟩

/-- The file of a configuration that has been saved holds the text of the configuration. -/
theorem find?_of_save {path : String} {p : Project} {tree after : FileTree}
    (h : outcome (save path p) tree = (.ok (), after)) : after.find? path = some (.file p.toYaml.render.toUTF8) := by
  unfold save at h
  split at h <;>
    · obtain ⟨_, between, -, hchange⟩ := outcome_bind_ok.mp h
      exact find?_of_write (outcome_write_ok.mp hchange)

/-- What is loaded from a file that holds the text of a configuration. -/
theorem load_of_file {path : String} {environment : List (String × String)} {tree : FileTree} {text : String}
    (h : tree.find? path = some (.file text.toUTF8)) :
    load path environment tree
      = match ofText? text environment with
        | some project => project.validate
        | none => .error .undecodable := by
  have hfile : tree.isFile path = true := by rw [isFile, h]
  have hread : tree.read path = .ok text := by
    rw [FileTree.read, readBytes_of_file h]
    simp only [bind, Except.bind, fromUTF8?_toUTF8]
  rw [load, hfile, hread]
  cases hproject : ofText? text environment <;> simp [hproject, Except.toOption]

/-- A configuration is read as itself if numbers taken as texts leave its texts as they are. -/
theorem asRead_eq_iff {p : Project} : p.asRead = p ↔ ∀ text ∈ p.freeTexts, Setting.asText text = text := by
  obtain ⟨name, description, url, imports, roots, extensions⟩ := p
  have hlist : ∀ texts : List String,
      texts.map Setting.asText = texts ↔ ∀ text ∈ texts, Setting.asText text = text := by
    intro texts
    induction texts with
    | nil => simp
    | cons text rest ih => rw [List.map_cons, List.cons.injEq, ih, List.forall_mem_cons]
  have hurl : url.map Setting.asText = url ↔ ∀ text ∈ url.toList, Setting.asText text = text := by
    cases url <;> simp
  simp only [asRead, freeTexts, mk.injEq, hlist, hurl, List.forall_mem_cons, List.forall_mem_append]
  tauto

/-- **What is loaded of a saved configuration**: the configuration, with the text of a number for every text that
is misread, as long as that happens in no scan root; else it cannot be decoded. -/
theorem load_eq_of_save {path : String} {p : Project} {environment : List (String × String)} {tree after : FileTree}
    (hlines : ∀ text ∈ p.freeTexts ++ p.scanTexts, Yaml.IsLine text.toList)
    (henvironment : ∀ variable_ ∈ environment, Setting.ofVariable? variable_ = none)
    (hsave : outcome (save path p) tree = (.ok (), after)) :
    load path environment after
      = if p.scanTexts.any Setting.isMisread then .error .undecodable else p.asRead.validate := by
  rw [load_of_file (find?_of_save hsave), ofText?_render hlines henvironment]
  rcases Bool.eq_false_or_eq_true (p.scanTexts.any Setting.isMisread) with hmisread | hmisread <;>
    simp only [hmisread] <;> rfl

theorem validate_eq_ok_iff {p q : Project} (hvalid : q.fault? = none) : p.validate = .ok q ↔ p = q := by
  unfold validate
  constructor
  · intro h
    split at h
    · cases h
    · exact Except.ok.inj h
  · rintro rfl
    rw [hvalid]

/-- **A saved configuration is loaded as it was** just if no text of its scan roots is misread, and every other text
that is misread is the text of the number that it is taken for. -/
theorem load_saved_iff {path : String} {p : Project} {environment : List (String × String)} {tree after : FileTree}
    (hlines : ∀ text ∈ p.freeTexts ++ p.scanTexts, Yaml.IsLine text.toList) (hvalid : p.fault? = none)
    (henvironment : ∀ variable_ ∈ environment, Setting.ofVariable? variable_ = none)
    (hsave : outcome (save path p) tree = (.ok (), after)) :
    load path environment after = .ok p ↔
      (∀ text ∈ p.scanTexts, Setting.isMisread text = false) ∧
        ∀ text ∈ p.freeTexts, Setting.isMisread text = true → Setting.asText text = text := by
  have hfree : p.asRead = p ↔ ∀ text ∈ p.freeTexts, Setting.isMisread text = true → Setting.asText text = text := by
    rw [asRead_eq_iff]
    refine forall₂_congr fun text _ => ⟨fun h _ => h, fun h => ?_⟩
    cases hmisread : Setting.isMisread text with
    | false => exact Setting.asText_of_not_isMisread hmisread
    | true => exact h hmisread
  rw [load_eq_of_save hlines henvironment hsave, ← hfree]
  cases hmisread : p.scanTexts.any Setting.isMisread with
  | true =>
    rw [if_pos rfl]
    refine iff_of_false nofun fun h => ?_
    obtain ⟨text, htext, htrue⟩ := List.any_eq_true.mp hmisread
    rw [h.1 text htext] at htrue
    cases htrue
  | false =>
    have hscan : ∀ text ∈ p.scanTexts, Setting.isMisread text = false := by
      simpa [List.any_eq_false] using hmisread
    rw [if_neg (by decide), validate_eq_ok_iff hvalid]
    exact ⟨fun h => ⟨hscan, h⟩, And.right⟩

/-- A configuration with texts that look like other values, and with two that are taken for numbers and are the
texts of these. -/
def disguised : Project where
  name := "it's"
  description := "true"
  repositoryUrl := some "1e3"
  imports := ["inf", " # "]
  scanRoots := [.plain "~", .filtered "- x: y" ["0x1F", ""]]
  extensions := ["rs", "NaN"]

/-- The configuration is saved in an empty directory, and loaded from it. -/
theorem load_saved_disguised :
    ∃ after, outcome (save "threatline.yaml" disguised) FileTree.empty = (.ok (), after) ∧
      (∀ text ∈ disguised.freeTexts ++ disguised.scanTexts, Yaml.IsLine text.toList) ∧ disguised.fault? = none ∧
      load "threatline.yaml" [("HOME", "/")] after = .ok disguised := by
  have hlines : ∀ text ∈ disguised.freeTexts ++ disguised.scanTexts, Yaml.IsLine text.toList := by decide +kernel
  have hvalid : disguised.fault? = none := by decide +kernel
  have henvironment : ∀ variable_ ∈ [("HOME", "/")], Setting.ofVariable? variable_ = none := by
    intro variable_ hvariable
    rw [List.mem_singleton.mp hvariable]
    rfl
  have hsaved : (outcome (save "threatline.yaml" disguised) FileTree.empty).1 = .ok () := by decide +kernel
  obtain ⟨after, hsave⟩ := exists_of_fst hsaved
  have hkept : (∀ text ∈ disguised.scanTexts, Setting.isMisread text = false) ∧
      ∀ text ∈ disguised.freeTexts, Setting.isMisread text = true → Setting.asText text = text := by decide +kernel
  exact ⟨after, hsave, hlines, hvalid, (load_saved_iff hlines hvalid henvironment hsave).mpr hkept⟩

/-- A configuration whose name is a word for a value that is no number. -/
def nan : Project where
  name := "nan"
  description := ""
  repositoryUrl := none
  imports := []
  scanRoots := [.plain "./src"]
  extensions := ["rs"]

/-- The configuration is saved in an empty directory, and another one is loaded from it. -/
theorem load_saved_nan :
    ∃ after, outcome (save "threatline.yaml" nan) FileTree.empty = (.ok (), after) ∧
      (∀ text ∈ nan.freeTexts ++ nan.scanTexts, Yaml.IsLine text.toList) ∧ nan.fault? = none ∧
      load "threatline.yaml" [] after = .ok { nan with name := "NaN" } ∧ { nan with name := "NaN" } ≠ nan := by
  have hlines : ∀ text ∈ nan.freeTexts ++ nan.scanTexts, Yaml.IsLine text.toList := by decide +kernel
  have hvalid : nan.fault? = none := by decide +kernel
  have hsaved : (outcome (save "threatline.yaml" nan) FileTree.empty).1 = .ok () := by decide +kernel
  obtain ⟨after, hsave⟩ := exists_of_fst hsaved
  refine ⟨after, hsave, hlines, hvalid, ?_, by decide⟩
  rw [load_eq_of_save hlines (List.forall_mem_nil _) hsave]
  decide +kernel

end Project

end ThreatModel
