import Mathlib
import ThreatModel.Project.Configure
import ThreatModel.Proofs.Setting
import ThreatModel.Proofs.Yaml.Blocks

/-!
# `Proofs.Project.Written` — the settings that a written configuration stands for

A configuration is written as texts, and the reader may take one that is written without quotes for a number. The
settings of a project take numbers as texts again, in the wording of numbers; a scan root does not.

## Contents

* `Setting.isMisread`, `Setting.ofWritten`, `Setting.asText` — what becomes of a text that is written and read.
* `Project.freeTexts`, `Project.scanTexts`, `Project.asRead` — the texts of a configuration, and what becomes of it.
* `Project.written`, `Project.ofSetting?_written` — the settings of a written configuration, and what they describe.
* `Project.ofText?_render` — what the text of a configuration is read as.
-/

namespace ThreatModel

/-! ## Texts as settings -/

/-- Whether a text that is written without quotes is read as a number. The writer leaves the quotes out where it
sees no number itself, and the reader knows more of them. -/
def Setting.isMisread (text : String) : Bool :=
  Yaml.Style.ofText text.toList = .plain &&
    ((Yaml.whole? text.toList).isSome || (Decimal.floatBits? text.toList).isSome)

/-- The setting that a text on one line stands for once it has been written. -/
def Setting.ofWritten (text : String) : Setting :=
  if Yaml.Style.ofText text.toList = .plain then
    match Yaml.whole? text.toList, Decimal.floatBits? text.toList with
    | some n, _ => .whole n
    | none, some bits => .real bits
    | none, none => .text text
  else .text text

/-- Every text on one line stands for a setting. -/
theorem Setting.ofYaml?_readBack (text : String) : ofYaml? (Yaml.readBack text) = some (ofWritten text) := by
  unfold Yaml.readBack ofWritten
  by_cases hstyle : Yaml.Style.ofText text.toList = .plain
  · obtain ⟨hreserved, hspecial⟩ := Yaml.not_reserved hstyle
    have hreal : Yaml.isReal text.toList = (Decimal.floatBits? text.toList).isSome := by
      rw [Yaml.isReal, String.ofList_toList, List.contains_eq_mem, decide_eq_false hspecial, Bool.false_or]
    rw [if_pos hstyle, if_pos hstyle, Yaml.ofPlain, String.ofList_toList, hreal]
    split
    iterate 5 exact absurd (by decide) hreserved
    cases hwhole : Yaml.whole? text.toList with
    | some n => rfl
    | none =>
      cases hbits : Decimal.floatBits? text.toList with
      | some bits => simp [ofYaml?, hbits]
      | none => rfl
  · rw [if_neg hstyle, if_neg hstyle, ofYaml?]

theorem Setting.laid_ofWritten (text : String) : laid (ofWritten text) = ofWritten text := by
  unfold ofWritten
  split
  · split <;> rfl
  · rfl

/-- A text that is not misread stays. -/
theorem Setting.ofWritten_of_not_isMisread {text : String} (h : isMisread text = false) :
    ofWritten text = .text text := by
  unfold ofWritten
  split
  · next hstyle =>
    simp only [isMisread, hstyle, decide_true, Bool.true_and, Bool.or_eq_false_iff, Option.isSome_eq_false_iff,
      Option.isNone_iff_eq_none] at h
    rw [h.1, h.2]
  · rfl

/-- A misread text is a number. -/
theorem Setting.ofWritten_of_isMisread {text : String} (h : isMisread text = true) :
    (∃ n, ofWritten text = .whole n) ∨ ∃ bits, ofWritten text = .real bits := by
  simp only [isMisread, Bool.and_eq_true, decide_eq_true_eq, Bool.or_eq_true] at h
  obtain ⟨hstyle, hnumber⟩ := h
  rw [ofWritten, if_pos hstyle]
  cases hwhole : Yaml.whole? text.toList with
  | some n => exact Or.inl ⟨n, rfl⟩
  | none =>
    rw [hwhole] at hnumber
    obtain ⟨bits, hbits⟩ := Option.isSome_iff_exists.mp (hnumber.resolve_left nofun)
    rw [hbits]
    exact Or.inr ⟨bits, rfl⟩

section Letters

variable {c : Char} (hc : c.isAlpha = true)

include hc

theorem ne_of_isAlpha {d : Char} (hd : d.isAlpha = false) : c ≠ d := by
  rintro rfl
  rw [hd] at hc
  cases hc

theorem Decimal.isDigit_letter : isDigit c = false := by
  have hlarge : '9' < c := by
    simp only [Char.isAlpha, Char.isUpper, Char.isLower, Bool.or_eq_true, Bool.and_eq_true, decide_eq_true_eq] at hc
    rcases hc with hc | hc
    · exact lt_of_lt_of_le (by decide : '9' < 'A') hc.1
    · exact lt_of_lt_of_le (by decide : '9' < 'a') hc.1
  simp [isDigit, hlarge]

/-- No decimal starts with a letter. -/
theorem Decimal.unsigned?_letter (rest : List Char) : unsigned? (c :: rest) = none := by
  have hdigit : ¬isDigit c = true := by rw [isDigit_letter hc]; decide
  unfold unsigned?
  rw [List.takeWhile_cons_of_neg hdigit, List.dropWhile_cons_of_neg hdigit]
  split
  next heq =>
    split at heq
    · next hpoint => exact absurd (List.cons.inj hpoint).1 (ne_of_isAlpha hc (by decide))
    · obtain ⟨rfl, -⟩ := Prod.mk.inj heq
      rfl

/-- No whole number starts with a letter. -/
theorem Yaml.whole?_letter (rest : List Char) : whole? (c :: rest) = none := by
  have hdigit : digit? 10 c = none := by
    simp only [digit?, Decimal.isDigit_letter hc, Bool.false_eq_true, if_false]
    rw [if_neg]
    split
    · omega
    · split <;> omega
  have hsigned : signed? 10 (c :: rest) = none := by
    unfold signed?
    split
    iterate 2 next heq => exact absurd (List.cons.inj heq).1 (ne_of_isAlpha hc (by decide))
    rw [natOf?, List.isEmpty_cons, List.foldlM_cons, hdigit]
    rfl
  unfold whole?
  split
  iterate 3 next heq => exact absurd (List.cons.inj heq).1 (ne_of_isAlpha hc (by decide))
  rw [hsigned]
  rfl

/-- **Among the texts that start with a letter** only the words for infinity and for no number are misread. -/
theorem Setting.word_of_isMisread {rest : List Char} (h : isMisread (String.ofList (c :: rest)) = true) :
    String.ofList ((c :: rest).map Char.toLower) ∈ ["inf", "infinity", "nan"] := by
  simp only [isMisread, String.toList_ofList, Yaml.whole?_letter hc, Option.isSome_none, Bool.false_or,
    Bool.and_eq_true] at h
  have hbits := h.2
  by_contra hword
  simp only [List.mem_cons, List.not_mem_nil, or_false, not_or] at hword
  unfold Decimal.floatBits? at hbits
  split at hbits
  next heq =>
    split at heq
    · next hminus => exact absurd (List.cons.inj hminus).1 (ne_of_isAlpha hc (by decide))
    · next hplus => exact absurd (List.cons.inj hplus).1 (ne_of_isAlpha hc (by decide))
    · obtain ⟨-, rfl⟩ := Prod.mk.inj heq
      simp only [hword, Decimal.unsigned?_letter hc, decide_false, Bool.or_self, Bool.false_eq_true, if_false,
        Option.map_none, Option.isSome_none] at hbits

end Letters

/-- Where a text has to be one, a misread one is missing. -/
theorem Setting.strictText?_ofWritten (text : String) :
    (ofWritten text).strictText? = if isMisread text then none else some text := by
  cases h : isMisread text with
  | false => rw [ofWritten_of_not_isMisread h]; rfl
  | true => rcases ofWritten_of_isMisread h with ⟨n, heq⟩ | ⟨bits, heq⟩ <;> rw [heq] <;> rfl

/-- The text that a written text comes back as where numbers are taken as texts. -/
def Setting.asText (text : String) : String := (ofWritten text).text?.getD text

theorem Setting.text?_ofWritten (text : String) : (ofWritten text).text? = some (asText text) := by
  rw [asText]
  cases h : isMisread text with
  | false => rw [ofWritten_of_not_isMisread h]; rfl
  | true => rcases ofWritten_of_isMisread h with ⟨n, heq⟩ | ⟨bits, heq⟩ <;> rw [heq] <;> rfl

theorem Setting.asText_of_not_isMisread {text : String} (h : isMisread text = false) : asText text = text := by
  rw [asText, ofWritten_of_not_isMisread h]
  rfl

theorem Setting.mapM_text? (texts : List String) :
    (texts.map ofWritten).mapM text? = some (texts.map asText) := by
  induction texts with
  | nil => rfl
  | cons text rest ih => simp only [List.map_cons, List.mapM_cons, text?_ofWritten, ih]; rfl

/-- Items of which some are missing when they are read are missing as a whole. -/
theorem mapM_unless {α β : Type} {written : α → β} {read : β → Option α} {isMissing : α → Bool}
    (h : ∀ item, read (written item) = if isMissing item then none else some item) (items : List α) :
    (items.map written).mapM read = if items.any isMissing then none else some items := by
  induction items with
  | nil => rfl
  | cons item rest ih =>
    simp only [List.map_cons, List.mapM_cons, h, ih, List.any_cons]
    rcases Bool.eq_false_or_eq_true (isMissing item) with hfirst | hfirst
    · simp [hfirst]
    · rcases Bool.eq_false_or_eq_true (rest.any isMissing) with hothers | hothers <;> simp [hfirst, hothers]

/-! ## The settings of a configuration -/

namespace Project

/-- The texts of a configuration that may look like numbers. -/
def freeTexts (p : Project) : List String :=
  p.name :: p.description :: (p.repositoryUrl.toList ++ p.imports ++ p.extensions)

/-- The texts of the scan roots of a configuration. -/
def scanTexts (p : Project) : List String := p.scanRoots.flatMap fun root => root.path :: root.ignore

/-- A configuration with its texts as they come back where numbers are taken as texts. -/
def asRead (p : Project) : Project where
  name := Setting.asText p.name
  description := Setting.asText p.description
  repositoryUrl := p.repositoryUrl.map Setting.asText
  imports := p.imports.map Setting.asText
  scanRoots := p.scanRoots
  extensions := p.extensions.map Setting.asText

end Project

/-- The settings that a path with patterns stands for once it has been written. -/
def ScanRoot.writtenFilter (path : String) (ignore : List String) : List (String × Setting) :=
  [("path", .ofWritten path), ("ignore", .list (ignore.map .ofWritten))]

/-- The setting that a scan root stands for once it has been written. -/
def ScanRoot.written : ScanRoot → Setting
  | .plain path => .ofWritten path
  | .filtered path ignore => .table (Setting.tableOf (writtenFilter path ignore))

/-- The settings that the name and the description of a configuration stand for once they have been written. -/
def Project.writtenIdentity (p : Project) : List (String × Setting) :=
  [("name", .ofWritten p.name), ("description", .ofWritten p.description)]

/-- The settings that a configuration stands for once it has been written. -/
def Project.written (p : Project) : List (String × Setting) :=
  ("project", .table (Setting.tableOf p.writtenIdentity)) ::
    ((p.repositoryUrl.toList.map fun url => ("repository_url", Setting.ofWritten url)) ++
      [("imports", .list (p.imports.map .ofWritten)), ("paths", .list (p.scanRoots.map ScanRoot.written)),
        ("extensions", .list (p.extensions.map .ofWritten))])

/-- A scan root is described by its setting unless one of its texts is misread. -/
theorem ScanRoot.ofSetting?_written (root : ScanRoot) :
    ScanRoot.ofSetting? root.written
      = if (root.path :: root.ignore).any Setting.isMisread then none else some root := by
  cases root with
  | plain path =>
    rw [written, ScanRoot.path, ScanRoot.ignore, List.any_cons, List.any_nil, Bool.or_false]
    cases h : Setting.isMisread path with
    | false => rw [Setting.ofWritten_of_not_isMisread h]; rfl
    | true => rcases Setting.ofWritten_of_isMisread h with ⟨n, heq⟩ | ⟨bits, heq⟩ <;> rw [heq] <;> rfl
  | filtered path ignore =>
    have hnames : ((writtenFilter path ignore).map Prod.fst).Nodup := (by decide : ["path", "ignore"].Nodup)
    have hpath : (Setting.tableOf (writtenFilter path ignore)).lookup "path" = some (.ofWritten path) :=
      Setting.lookup_tableOf hnames _
    have hignore : Setting.entry? "ignore" (.table (Setting.tableOf (writtenFilter path ignore)))
        = some (.list (ignore.map .ofWritten)) := Setting.lookup_tableOf hnames _
    rw [written, ScanRoot.ofSetting?, hpath]
    simp only [Option.bind_eq_bind, Option.bind_some, Setting.strictText?_ofWritten, Setting.part?, hignore,
      mapM_unless Setting.strictText?_ofWritten, ScanRoot.path, ScanRoot.ignore, List.any_cons]
    rcases Bool.eq_false_or_eq_true (Setting.isMisread path) with hfirst | hfirst
    · simp [hfirst]
    · rcases Bool.eq_false_or_eq_true (ignore.any Setting.isMisread) with hothers | hothers <;> simp [hfirst, hothers]

theorem ScanRoot.mapM_ofSetting? (roots : List ScanRoot) :
    (roots.map ScanRoot.written).mapM ScanRoot.ofSetting?
      = if (roots.flatMap fun root => root.path :: root.ignore).any Setting.isMisread then none else some roots := by
  rw [mapM_unless ofSetting?_written, List.any_flatMap]

namespace Project

variable {p : Project}

/-- The names of the settings of a configuration. -/
def settingNames : List String := ["project", "repository_url", "imports", "paths", "extensions"]

/-- The name of an address that is not known is left out. -/
theorem names_written : (p.written.map Prod.fst).Sublist settingNames := by
  rw [written]
  cases p.repositoryUrl with
  | none => exact (by decide : ["project", "imports", "paths", "extensions"].Sublist settingNames)
  | some url => exact List.Sublist.refl settingNames

theorem nodup_written : (p.written.map Prod.fst).Nodup := names_written.nodup (by decide)

theorem isSimple_written : ∀ entry ∈ p.written, Setting.IsSimple entry.1 := by
  have hnames : ∀ name ∈ settingNames, Setting.IsSimple name := by
    intro name hname
    fin_cases hname <;> exact ⟨by rfl, by rfl⟩
  exact fun entry hentry => hnames _ (names_written.subset (List.mem_map_of_mem hentry))

/-- The name and the description come back as texts. -/
theorem identity?_written :
    identity? (Setting.laid (.table (Setting.tableOf p.writtenIdentity)))
      = some (Setting.asText p.name, Setting.asText p.description) := by
  have hlower : ∀ entry ∈ p.writtenIdentity, Text.lowercase entry.1 = entry.1 := by
    intro entry hentry
    have hname : entry.1 ∈ ["name", "description"] := List.mem_map_of_mem hentry
    generalize entry.1 = name at hname
    fin_cases hname <;> rfl
  obtain ⟨out, hout, hlookup⟩ := Setting.lookup_laid_table hlower (by decide : ["name", "description"].Nodup)
  have hname : out.lookup "name" = some (.ofWritten p.name) :=
    (hlookup "name").trans (congrArg some (Setting.laid_ofWritten p.name))
  have hdescription : Setting.entry? "description" (.table out) = some (.ofWritten p.description) :=
    (hlookup "description").trans (congrArg some (Setting.laid_ofWritten p.description))
  rw [hout, identity?, hname]
  simp only [Option.bind_eq_bind, Option.bind_some, Setting.text?_ofWritten, Setting.part?, hdescription]

/-- **The configuration that comes back**: its settings describe it, with numbers taken as texts, unless a text of
its scan roots is misread. -/
theorem ofSetting?_written {environment : List (String × String)}
    (henvironment : ∀ variable_ ∈ environment, Setting.ofVariable? variable_ = none) :
    ofSetting? (Setting.layer (.table (Setting.tableOf p.written)) environment)
      = if p.scanTexts.any Setting.isMisread then none else some p.asRead := by
  have hentry := Setting.entry?_layer (isSimple_written (p := p)) nodup_written henvironment
  have hproject : p.written.lookup "project" = some (.table (Setting.tableOf p.writtenIdentity)) := rfl
  have haddress : ∀ read : Setting → Option (Option String),
      (∀ url, read (.ofWritten url) = some (some (Setting.asText url))) →
      (Setting.layer (.table (Setting.tableOf p.written)) environment).part? "repository_url" none read
        = some (p.repositoryUrl.map Setting.asText) := by
    intro read hread
    rw [Setting.part?, hentry, written]
    cases p.repositoryUrl with
    | none => rfl
    | some url => exact (congrArg read (Setting.laid_ofWritten url)).trans (hread url)
  have himports : p.written.lookup "imports" = some (.list (p.imports.map .ofWritten)) := by
    rw [written]
    cases p.repositoryUrl <;> rfl
  have hpaths : p.written.lookup "paths" = some (.list (p.scanRoots.map ScanRoot.written)) := by
    rw [written]
    cases p.repositoryUrl <;> rfl
  have hextensions : p.written.lookup "extensions" = some (.list (p.extensions.map .ofWritten)) := by
    rw [written]
    cases p.repositoryUrl <;> rfl
  have hlist : ∀ items, Setting.laid (.list items) = .list items := fun _ => rfl
  rw [ofSetting?, haddress]
  · simp only [Setting.part?, hentry, hproject, himports, hpaths, hextensions, Option.map_some, hlist,
      identity?_written, Setting.texts?, Setting.mapM_text?, ScanRoot.mapM_ofSetting?, Option.bind_eq_bind,
      Option.bind_some, scanTexts]
    rcases Bool.eq_false_or_eq_true
      ((p.scanRoots.flatMap fun root => root.path :: root.ignore).any Setting.isMisread) with hmisread | hmisread <;>
        simp only [hmisread] <;> rfl
  · -- An address is a text or a number, but never nothing.
    intro url
    have htext := Setting.text?_ofWritten url
    cases hwritten : Setting.ofWritten url with
    | nothing => rw [hwritten] at htext; cases htext
    | _ => rw [hwritten] at htext; simp only [htext, Option.map_some]

end Project

/-! ## Configurations as values -/

section Values

open Yaml Setting

/-- The entries of a mapping have names as keys. -/
theorem ofEntries_eq (named : List (String × Yaml)) :
    Yaml.ofEntries named = .mapping (named.map fun entry => (.text entry.1, entry.2)) := rfl

/-- A mapping with named entries that is read back becomes a table. -/
theorem ofYaml?_ofEntries {named : List (String × Yaml)} {values : List (String × Setting)}
    (h : List.Forall₂ (fun entry value => entry.1 = value.1 ∧ ofYaml? (reread entry.2) = some value.2) named values) :
    ofYaml? (reread (Yaml.ofEntries named)) = some (.table (tableOf values)) := by
  have hentries : ofEntries? ((named.map fun entry => (Key.text entry.1, entry.2)).map fun entry =>
      (entry.1, reread entry.2)) = some (tableOf values) := by
    refine ofEntries?_eq ?_
    rw [List.map_map, List.forall₂_map_left_iff]
    exact h
  rw [ofEntries_eq, reread, rereadEntries_eq, ofYaml?, hentries]
  rfl

/-- Items that are read back become the settings of each. -/
theorem ofYaml?_sequence {α : Type} {toYaml : α → Yaml} {written : α → Setting} {items : List α}
    (h : ∀ item ∈ items, ofYaml? (reread (toYaml item)) = some (written item)) :
    ofYaml? (reread (.sequence (items.map toYaml))) = some (.list (items.map written)) := by
  have hitems : ofItems? (rereadItems (items.map toYaml)) = some (items.map written) := by
    induction items with
    | nil => rfl
    | cons item rest ih =>
      obtain ⟨hitem, hrest⟩ := List.forall_mem_cons.mp h
      rw [List.map_cons, rereadItems, ofItems?, hitem, ih hrest]
      rfl
  rw [reread, ofYaml?, hitems]
  rfl

theorem ofYaml?_text (text : String) : ofYaml? (reread (.text text)) = some (ofWritten text) := ofYaml?_readBack text

theorem ofYaml?_ofTexts (texts : List String) :
    ofYaml? (reread (Yaml.ofTexts texts)) = some (.list (texts.map ofWritten)) :=
  ofYaml?_sequence fun text _ => ofYaml?_text text

theorem ScanRoot.ofYaml?_toYaml (root : ScanRoot) : ofYaml? (reread root.toYaml) = some root.written := by
  cases root with
  | plain path => exact ofYaml?_text path
  | filtered path ignore =>
    exact ofYaml?_ofEntries (.cons ⟨rfl, ofYaml?_text path⟩ (.cons ⟨rfl, ofYaml?_ofTexts ignore⟩ .nil))

/-- **The settings of a configuration** are those that its value stands for when it is read back. -/
theorem Project.ofYaml?_toYaml (p : Project) : ofYaml? (reread p.toYaml) = some (.table (tableOf p.written)) := by
  have hidentity := ofYaml?_ofEntries
    (.cons ⟨rfl, ofYaml?_text p.name⟩ (.cons ⟨rfl, ofYaml?_text p.description⟩ .nil) :
      List.Forall₂ _ [("name", Yaml.text p.name), ("description", .text p.description)] p.writtenIdentity)
  refine ofYaml?_ofEntries (.cons ⟨rfl, hidentity⟩ (List.rel_append ?_ ?_))
  · cases p.repositoryUrl with
    | none => exact .nil
    | some url => exact .cons ⟨rfl, ofYaml?_text url⟩ .nil
  · exact .cons ⟨rfl, ofYaml?_ofTexts p.imports⟩ (.cons ⟨rfl, ofYaml?_sequence fun root _ => root.ofYaml?_toYaml⟩
      (.cons ⟨rfl, ofYaml?_ofTexts p.extensions⟩ .nil))

/-- The names of all settings and their parts. -/
def knownNames : List String := "name" :: "description" :: "path" :: "ignore" :: Project.settingNames

/-- The names of settings are written and read as they are. -/
theorem kept_knownNames : ∀ name ∈ knownNames, (Key.text name).Kept := by
  intro name hname
  fin_cases hname <;> exact ⟨by decide, by rfl⟩

/-- A mapping of settings is made of lines if their values are. -/
theorem lined_ofEntries {named : List (String × Yaml)} (hnames : named.map Prod.fst ⊆ knownNames)
    (hdistinct : (named.map Prod.fst).Nodup) (h : ∀ entry ∈ named, Lined entry.2) : Lined (Yaml.ofEntries named) := by
  rw [ofEntries_eq]
  refine .mapping _ ?_ ?_ ?_
  · exact List.forall_mem_map.mpr fun entry hentry => kept_knownNames _ (hnames (List.mem_map_of_mem hentry))
  · have hkeys : ((named.map fun entry => (Key.text entry.1, entry.2)).map Prod.fst)
        = (named.map Prod.fst).map Key.text := by
      rw [List.map_map, List.map_map]
      rfl
    rw [hkeys]
    exact hdistinct.map fun _ _ heq => Key.text.inj heq
  · exact List.forall_mem_map.mpr h

theorem lined_ofTexts {texts : List String} (h : ∀ text ∈ texts, IsLine text.toList) : Lined (Yaml.ofTexts texts) :=
  .sequence _ (List.forall_mem_map.mpr fun text htext => .text _ (h text htext))

theorem ScanRoot.lined_toYaml {root : ScanRoot} (h : ∀ text ∈ root.path :: root.ignore, IsLine text.toList) :
    Lined root.toYaml := by
  cases root with
  | plain path => exact .text _ (h path List.mem_cons_self)
  | filtered path ignore =>
    obtain ⟨hpath, hignore⟩ := List.forall_mem_cons.mp h
    refine lined_ofEntries (by decide : ["path", "ignore"] ⊆ knownNames) (by decide : ["path", "ignore"].Nodup) ?_
    exact List.forall_mem_cons.mpr ⟨.text _ hpath,
      List.forall_mem_cons.mpr ⟨lined_ofTexts hignore, List.forall_mem_nil _⟩⟩

/-- The value of a configuration whose texts stand on one line each is made of lines. -/
theorem Project.lined_toYaml {p : Project} (h : ∀ text ∈ p.freeTexts ++ p.scanTexts, IsLine text.toList) :
    Lined p.toYaml := by
  obtain ⟨hfree, hscan⟩ := List.forall_mem_append.mp h
  obtain ⟨hname, hothers⟩ := List.forall_mem_cons.mp hfree
  obtain ⟨hdescription, hothers⟩ := List.forall_mem_cons.mp hothers
  obtain ⟨hothers, hextensions⟩ := List.forall_mem_append.mp hothers
  obtain ⟨hurl, himports⟩ := List.forall_mem_append.mp hothers
  have hidentity : Lined (Yaml.ofEntries [("name", .text p.name), ("description", .text p.description)]) := by
    refine lined_ofEntries (by decide : ["name", "description"] ⊆ knownNames)
      (by decide : ["name", "description"].Nodup) ?_
    exact List.forall_mem_cons.mpr ⟨.text _ hname,
      List.forall_mem_cons.mpr ⟨.text _ hdescription, List.forall_mem_nil _⟩⟩
  have hroots : Lined (.sequence (p.scanRoots.map ScanRoot.toYaml)) := by
    refine .sequence _ (List.forall_mem_map.mpr fun root hroot => ScanRoot.lined_toYaml fun text htext => ?_)
    exact hscan text (List.mem_flatMap.mpr ⟨root, hroot, htext⟩)
  have hlast : ∀ entry ∈ [("imports", Yaml.ofTexts p.imports), ("paths", .sequence (p.scanRoots.map ScanRoot.toYaml)),
      ("extensions", Yaml.ofTexts p.extensions)], Lined entry.2 :=
    List.forall_mem_cons.mpr ⟨lined_ofTexts himports, List.forall_mem_cons.mpr ⟨hroots,
      List.forall_mem_cons.mpr ⟨lined_ofTexts hextensions, List.forall_mem_nil _⟩⟩⟩
  unfold Project.toYaml
  cases haddress : p.repositoryUrl with
  | none =>
    exact lined_ofEntries (by decide : ["project", "imports", "paths", "extensions"] ⊆ knownNames)
      (by decide : ["project", "imports", "paths", "extensions"].Nodup) (List.forall_mem_cons.mpr ⟨hidentity, hlast⟩)
  | some url =>
    have hline : IsLine url.toList := hurl url (by rw [haddress]; exact List.mem_cons_self)
    exact lined_ofEntries (by decide : Project.settingNames ⊆ knownNames) (by decide : Project.settingNames.Nodup)
      (List.forall_mem_cons.mpr ⟨hidentity, List.forall_mem_cons.mpr ⟨.text _ hline, hlast⟩⟩)

/-- **What a written configuration is read as**: itself, with numbers taken as texts, unless a text of its scan
roots is misread. -/
theorem Project.ofText?_render {p : Project} (h : ∀ text ∈ p.freeTexts ++ p.scanTexts, IsLine text.toList)
    {environment : List (String × String)}
    (henvironment : ∀ variable_ ∈ environment, ofVariable? variable_ = none) :
    Project.ofText? p.toYaml.render environment = if p.scanTexts.any isMisread then none else some p.asRead := by
  rw [Project.ofText?, read_render (p.lined_toYaml h)]
  simp only [Option.bind_eq_bind, Option.bind_some, p.ofYaml?_toYaml]
  exact Project.ofSetting?_written henvironment

end Values

end ThreatModel
