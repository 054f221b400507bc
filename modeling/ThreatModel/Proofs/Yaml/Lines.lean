import Mathlib
import ThreatModel.Proofs.Text
import ThreatModel.Proofs.Yaml.Scalar

/-!
# `Proofs.Yaml.Lines` — the lines that a value is made of

What is written of a value is a first line, whose place the surrounding value decides, and further lines that are
indented on their own. The lines of a file are found again by the reader, and none of them is taken for a mark
between documents.

## Contents

* `Lined` — values made of texts on one line.
* `firstLine`, `moreLines`, `block_eq` — the lines of a value.
* `Starts`, `IsContent`, `isBodyLine_moreLines` — what stands in each of the lines.
* `fileLines_joined`, `documentLines?_body` — the lines of a file that holds a value.
-/

namespace ThreatModel

/-! ## Values made of lines -/

/-- A key that is written on one line and read as it is. -/
def Key.Kept : Key → Prop
  | .text name => Yaml.IsLine name.toList ∧ Yaml.readBack name = .text name
  | .whole _ => False

namespace Yaml

/-- A value made of texts on one line, under keys that differ and are read as they are. -/
inductive Lined : Yaml → Prop
  | text (value : String) (hline : IsLine value.toList) : Lined (.text value)
  | sequence (items : List Yaml) (hitems : ∀ item ∈ items, Lined item) : Lined (.sequence items)
  | mapping (entries : List (Key × Yaml)) (hkeys : ∀ entry ∈ entries, entry.1.Kept)
      (hdistinct : (entries.map Prod.fst).Nodup) (hvalues : ∀ entry ∈ entries, Lined entry.2) :
      Lined (.mapping entries)

/-- Whether a value takes lines of its own. -/
def spans : Yaml → Bool
  | .sequence (_ :: _) | .mapping (_ :: _) => true
  | _ => false

/-- The column of a value that takes lines of its own, under a key in a column. -/
def valueColumn (column : Nat) (value : Yaml) : Nat := if isListed value then column else column + 2

/-- The first line of a value, from the column on where the value starts. -/
def firstLine : Yaml → List Char
  | .sequence (item :: _) => '-' :: ' ' :: firstLine item
  | .mapping ((key, value) :: _) => keyText key ++ ':' :: if spans value then [] else ' ' :: firstLine value
  | value => (inline? 0 value).getD []

mutual

/-- The further lines of a value that starts in a column. -/
def moreLines (column : Nat) : Yaml → List (List Char)
  | .sequence (item :: rest) => moreLines (column + 2) item ++ itemLines column rest
  | .mapping ((_, value) :: rest) =>
    (if spans value then
        (spaces (valueColumn column value) ++ firstLine value) :: moreLines (valueColumn column value) value
      else []) ++ entryLines column rest
  | _ => []

/-- The lines of items whose dashes stand in a column. -/
def itemLines (column : Nat) : List Yaml → List (List Char)
  | [] => []
  | item :: rest =>
    (spaces column ++ '-' :: ' ' :: firstLine item) :: (moreLines (column + 2) item ++ itemLines column rest)

/-- The lines of entries whose keys stand in a column. -/
def entryLines (column : Nat) : List (Key × Yaml) → List (List Char)
  | [] => []
  | (key, value) :: rest =>
    (spaces column ++ (keyText key ++ ':' :: if spans value then [] else ' ' :: firstLine value)) ::
      ((if spans value then
          (spaces (valueColumn column value) ++ firstLine value) :: moreLines (valueColumn column value) value
        else []) ++ entryLines column rest)

end

/-- The lines as a text. -/
def joined (lines : List (List Char)) : List Char := lines.flatMap fun line => line ++ ['\n']

@[simp] theorem joined_nil : joined [] = [] := rfl

@[simp] theorem joined_cons (line : List Char) (rest : List (List Char)) :
    joined (line :: rest) = line ++ '\n' :: joined rest := by
  simp [joined]

@[simp] theorem joined_append (front back : List (List Char)) :
    joined (front ++ back) = joined front ++ joined back := by
  simp [joined]

theorem endLine_line {text : List Char} (h : IsLine text) : endLine text = text ++ ['\n'] := by
  rw [endLine, if_neg]
  rw [Option.any_eq_true]
  rintro ⟨c, hc, hbreak⟩
  have hmem : c ∈ text := List.mem_of_getLast? (by simpa using hc)
  rw [(isPrintable_of_isLine (h c hmem)).2.1] at hbreak
  cases hbreak

theorem moreLines_of_not_spans {v : Yaml} (h : spans v = false) (column : Nat) : moreLines column v = [] := by
  unfold moreLines
  split
  · cases h
  · cases h
  · rfl

/-- What stands in the line of a key. -/
def entryStart (key : Key) (value : Yaml) : List Char :=
  keyText key ++ ':' :: if spans value then [] else ' ' :: firstLine value

/-- The lines below a key that belong to its value. -/
def valueLines (column : Nat) (value : Yaml) : List (List Char) :=
  if spans value then
    (spaces (valueColumn column value) ++ firstLine value) :: moreLines (valueColumn column value) value
  else []

theorem firstLine_mapping (key : Key) (value : Yaml) (rest : List (Key × Yaml)) :
    firstLine (.mapping ((key, value) :: rest)) = entryStart key value := rfl

theorem moreLines_mapping (column : Nat) (key : Key) (value : Yaml) (rest : List (Key × Yaml)) :
    moreLines column (.mapping ((key, value) :: rest)) = valueLines column value ++ entryLines column rest := by
  rw [moreLines, valueLines]

theorem entryLines_cons (column : Nat) (key : Key) (value : Yaml) (rest : List (Key × Yaml)) :
    entryLines column ((key, value) :: rest)
      = (spaces column ++ entryStart key value) :: (valueLines column value ++ entryLines column rest) := by
  rw [entryLines, valueLines, entryStart]

theorem entryGap_eq (column : Nat) (value : Yaml) :
    entryGap column value = if spans value then '\n' :: spaces (valueColumn column value) else [' '] := by
  unfold entryGap spans valueColumn isListed
  split <;> simp_all

/-- What is written of an entry, where its value is written as lines. -/
theorem entry_eq {column : Nat} (key : Key) {value : Yaml}
    (h : block (valueColumn column value) value
      = firstLine value ++ '\n' :: joined (moreLines (valueColumn column value) value)) :
    keyText key ++ ':' :: entryGap column value ++ block (if isListed value then column else column + 2) value
      = entryStart key value ++ '\n' :: joined (valueLines column value) := by
  rw [show (if isListed value then column else column + 2) = valueColumn column value from rfl, h, entryGap_eq,
    entryStart, valueLines]
  cases hspans : spans value with
  | true => simp
  | false => simp [moreLines_of_not_spans hspans]

mutual

/-- What is written of a value is its first line and its further lines. -/
theorem block_eq (column : Nat) : ∀ {v : Yaml}, Lined v →
    block column v = firstLine v ++ '\n' :: joined (moreLines column v)
  | .text value, h => by
    cases h with
    | text _ hline =>
      rw [block, inline?, firstLine, inline?, scalarText_line hline, scalarText_line hline, Option.getD_some,
        endLine_line (isLine_written hline)]
      · rfl
      all_goals simp
  | .sequence [], _ => rfl
  | .sequence (item :: rest), h => by
    cases h with
    | sequence _ hitems =>
      obtain ⟨hitem, hrest⟩ := List.forall_mem_cons.mp hitems
      rw [block, block_eq (column + 2) hitem, blockItems_eq column hrest, firstLine, moreLines, joined_append]
      simp
  | .mapping [], _ => rfl
  | .mapping ((key, value) :: rest), h => by
    cases h with
    | mapping _ _ _ hvalues =>
      obtain ⟨hvalue, hrest⟩ := List.forall_mem_cons.mp hvalues
      rw [block, entry_eq key (block_eq _ hvalue), blockEntries_eq column hrest, firstLine_mapping, moreLines_mapping,
        joined_append]
      simp

theorem blockItems_eq (column : Nat) : ∀ {items : List Yaml}, (∀ item ∈ items, Lined item) →
    blockItems column items = joined (itemLines column items)
  | [], _ => rfl
  | item :: rest, h => by
    obtain ⟨hitem, hrest⟩ := List.forall_mem_cons.mp h
    rw [blockItems, block_eq (column + 2) hitem, blockItems_eq column hrest, itemLines, joined_cons, joined_append]
    simp

theorem blockEntries_eq (column : Nat) : ∀ {entries : List (Key × Yaml)}, (∀ entry ∈ entries, Lined entry.2) →
    blockEntries column entries = joined (entryLines column entries)
  | [], _ => rfl
  | (key, value) :: rest, h => by
    obtain ⟨hvalue, hrest⟩ := List.forall_mem_cons.mp h
    have hentry := entry_eq key (block_eq (valueColumn column value) hvalue)
    rw [blockEntries, blockEntries_eq column hrest, entryLines_cons, joined_cons, joined_append]
    calc spaces column ++ keyText key ++ ':' :: entryGap column value
          ++ block (if isListed value then column else column + 2) value ++ joined (entryLines column rest)
        = spaces column ++ (keyText key ++ ':' :: entryGap column value
          ++ block (if isListed value then column else column + 2) value) ++ joined (entryLines column rest) := by simp
      _ = _ := by
        rw [hentry]
        simp

end

/-! ## What stands in a line -/

/-- A text that starts with a value or a key: with no white space, and no comment, directive, name or tag. -/
def Starts (text : List Char) : Prop := ∃ c rest, text = c :: rest ∧ isBlank c = false ∧ c ∉ ['#', '%', '&', '!']

/-- A text that does not start like a mark between documents. -/
def Unmarked (text : List Char) : Prop := text.take 3 ≠ startMark ∧ text.take 3 ≠ stopMark

instance : DecidablePred Unmarked := fun text =>
  inferInstanceAs (Decidable (text.take 3 ≠ startMark ∧ text.take 3 ≠ stopMark))

/-- What stands in a line of a value. -/
structure IsContent (text : List Char) : Prop where
  starts : Starts text
  isLine : IsLine text
  unmarked : Unmarked text

theorem unmarked_of_second {c d : Char} {rest : List Char} (h : d ≠ '-' ∧ d ≠ '.') : Unmarked (c :: d :: rest) := by
  constructor <;> simp [startMark, stopMark, h]

theorem isLine_nil : IsLine [] := nofun

theorem isLine_colon {tail : List Char} (h : IsLine tail) : IsLine (':' :: tail) :=
  IsLine.append (by decide : IsLine [':']) h

theorem Plain.starts {text tail : List Char} (h : Plain text) (hline : IsLine text) : Starts (text ++ tail) := by
  obtain ⟨c, rest, rfl⟩ := List.exists_cons_of_ne_nil h.ne_nil
  refine ⟨c, rest ++ tail, rfl, ?_, ?_⟩
  · rw [Bool.eq_false_iff, Ne, isBlank_iff hline.of_cons.1]
    rintro rfl
    exact h.first rfl
  · intro hmem
    simp only [List.mem_cons, List.not_mem_nil, or_false] at hmem
    rcases hmem with rfl | rfl | rfl | rfl <;> exact absurd h.not_leading (by decide)

theorem Plain.unmarked {text tail : List Char} (h : Plain text) (htail : EndsWord tail) : Unmarked (text ++ tail) := by
  have hmarker := h.noMarker
  simp only [startsMarker, Bool.or_eq_false_iff, decide_eq_false_iff_not] at hmarker
  match text, h.ne_nil, hmarker with
  | [a], _, _ =>
    rcases htail with rfl | ⟨after, rfl, -⟩
    · constructor <;> simp [startMark, stopMark]
    · exact unmarked_of_second (by decide)
  | [a, b], _, _ =>
    rcases htail with rfl | ⟨after, rfl, -⟩ <;> constructor <;> simp [startMark, stopMark]
  | a :: b :: c :: rest, _, hmarker => exact hmarker

/-- What is written of a text starts a value or a key. -/
theorem starts_written {text : List Char} (h : IsLine text) (tail : List Char) : Starts (written text ++ tail) := by
  unfold written
  split
  · next hstyle => exact (plain_of_ofText hstyle).starts h
  · exact ⟨_, _, rfl, by decide, by decide⟩

/-- What is written of a text can stand alone and in front of a colon. -/
theorem isContent_written {text tail : List Char} (h : IsLine text) (htail : EndsWord tail) (hline : IsLine tail) :
    IsContent (written text ++ tail) := by
  refine ⟨starts_written h tail, (isLine_written h).append hline, ?_⟩
  unfold written
  split
  · next hstyle => exact (plain_of_ofText hstyle).unmarked htail
  · constructor <;> simp [startMark, stopMark]

theorem firstLine_text {value : String} (h : IsLine value.toList) : firstLine (.text value) = written value.toList := by
  rw [firstLine, inline?, scalarText_line h, Option.getD_some]
  all_goals simp

/-- A key is written as its name. -/
theorem keyText_kept {key : Key} (h : key.Kept) :
    ∃ name, key = .text name ∧ IsLine name.toList ∧ readBack name = .text name ∧ keyText key = written name.toList := by
  cases key with
  | whole n => exact h.elim
  | text name =>
    refine ⟨name, rfl, h.1, h.2, ?_⟩
    rw [keyText, scalarText_line h.1]
    rcases ofText_line h.1 with hstyle | hstyle <;> rw [hstyle]

theorem isContent_entryStart {key : Key} {value : Yaml} (hkey : key.Kept)
    (hvalue : spans value = false → IsLine (firstLine value)) : IsContent (entryStart key value) := by
  obtain ⟨name, -, hline, -, hwritten⟩ := keyText_kept hkey
  rw [entryStart, hwritten]
  cases hspans : spans value with
  | true => exact isContent_written hline (Or.inr ⟨_, rfl, rfl⟩) (isLine_colon isLine_nil)
  | false =>
    have hgap : IsLine (' ' :: firstLine value) := IsLine.append (by decide : IsLine [' ']) (hvalue hspans)
    exact isContent_written hline (Or.inr ⟨_, rfl, rfl⟩) (isLine_colon hgap)

theorem isContent_dash {text : List Char} (h : IsLine text) : IsContent ('-' :: ' ' :: text) := by
  refine ⟨⟨_, _, rfl, by decide, by decide⟩, ?_, unmarked_of_second (by decide)⟩
  exact IsLine.append (by decide : IsLine ['-', ' ']) h

/-- What the first line of a value holds. -/
theorem isContent_firstLine {v : Yaml} (h : Lined v) : IsContent (firstLine v) := by
  induction h with
  | text value hline =>
    rw [firstLine_text hline, ← List.append_nil (written _)]
    exact isContent_written hline (Or.inl rfl) (by decide)
  | sequence items _ ih =>
    cases items with
    | nil => exact ⟨⟨_, _, rfl, by decide, by decide⟩, by decide, by decide⟩
    | cons item rest => exact isContent_dash (ih item List.mem_cons_self).isLine
  | mapping entries hkeys _ _ ih =>
    cases entries with
    | nil => exact ⟨⟨_, _, rfl, by decide, by decide⟩, by decide, by decide⟩
    | cons entry rest =>
      exact isContent_entryStart (hkeys entry List.mem_cons_self) fun _ => (ih entry List.mem_cons_self).isLine

/-- A line of a value: its content, after spaces. -/
def IsBodyLine (line : List Char) : Prop := ∃ n content, line = spaces n ++ content ∧ IsContent content

theorem isBodyLine_itemLines {items : List Yaml} (hlined : ∀ item ∈ items, Lined item)
    (h : ∀ item ∈ items, ∀ column, ∀ line ∈ moreLines column item, IsBodyLine line) (column : Nat) :
    ∀ line ∈ itemLines column items, IsBodyLine line := by
  induction items with
  | nil => exact nofun
  | cons item rest ih =>
    obtain ⟨hitem, hrest⟩ := List.forall_mem_cons.mp hlined
    obtain ⟨hmore, hothers⟩ := List.forall_mem_cons.mp h
    rw [itemLines]
    refine List.forall_mem_cons.mpr ⟨⟨_, _, rfl, isContent_dash (isContent_firstLine hitem).isLine⟩, ?_⟩
    exact List.forall_mem_append.mpr ⟨hmore _, ih hrest hothers⟩

theorem isBodyLine_valueLines {value : Yaml} (hlined : Lined value)
    (h : ∀ column, ∀ line ∈ moreLines column value, IsBodyLine line) (column : Nat) :
    ∀ line ∈ valueLines column value, IsBodyLine line := by
  unfold valueLines
  split
  · exact List.forall_mem_cons.mpr ⟨⟨_, _, rfl, isContent_firstLine hlined⟩, h _⟩
  · exact nofun

theorem isBodyLine_entryLines {entries : List (Key × Yaml)} (hkeys : ∀ entry ∈ entries, entry.1.Kept)
    (hlined : ∀ entry ∈ entries, Lined entry.2)
    (h : ∀ entry ∈ entries, ∀ column, ∀ line ∈ moreLines column entry.2, IsBodyLine line) (column : Nat) :
    ∀ line ∈ entryLines column entries, IsBodyLine line := by
  induction entries with
  | nil => exact nofun
  | cons entry rest ih =>
    obtain ⟨key, value⟩ := entry
    obtain ⟨hkey, hkeys⟩ := List.forall_mem_cons.mp hkeys
    obtain ⟨hvalue, hrest⟩ := List.forall_mem_cons.mp hlined
    obtain ⟨hmore, hothers⟩ := List.forall_mem_cons.mp h
    rw [entryLines_cons]
    refine List.forall_mem_cons.mpr
      ⟨⟨_, _, rfl, isContent_entryStart hkey fun _ => (isContent_firstLine hvalue).isLine⟩, ?_⟩
    exact List.forall_mem_append.mpr ⟨isBodyLine_valueLines hvalue hmore _, ih hkeys hrest hothers⟩

/-- Every further line of a value has a content. -/
theorem isBodyLine_moreLines {v : Yaml} (h : Lined v) : ∀ column, ∀ line ∈ moreLines column v, IsBodyLine line := by
  induction h with
  | text value _ => exact fun _ => nofun
  | sequence items hitems ih =>
    intro column
    cases items with
    | nil => exact nofun
    | cons item rest =>
      rw [moreLines]
      refine List.forall_mem_append.mpr ⟨ih item List.mem_cons_self _, ?_⟩
      exact isBodyLine_itemLines (fun i hi => hitems i (List.mem_cons_of_mem _ hi))
        (fun i hi => ih i (List.mem_cons_of_mem _ hi)) column
  | mapping entries hkeys _ hvalues ih =>
    intro column
    cases entries with
    | nil => exact nofun
    | cons entry rest =>
      rw [moreLines_mapping]
      refine List.forall_mem_append.mpr
        ⟨isBodyLine_valueLines (hvalues entry List.mem_cons_self) (ih entry List.mem_cons_self) _, ?_⟩
      exact isBodyLine_entryLines (fun e he => hkeys e (List.mem_cons_of_mem _ he))
        (fun e he => hvalues e (List.mem_cons_of_mem _ he)) (fun e he => ih e (List.mem_cons_of_mem _ he)) column

/-! ## Lines of a file -/

theorem isLine_spaces (n : Nat) : IsLine (spaces n) := by
  intro c hc
  rw [List.eq_of_mem_replicate hc]
  decide

theorem IsBodyLine.isLine {line : List Char} (h : IsBodyLine line) : IsLine line := by
  obtain ⟨n, content, rfl, hcontent⟩ := h
  exact (isLine_spaces n).append hcontent.isLine

/-- A line of a value does not start like a mark between documents. -/
theorem IsBodyLine.unmarked {line : List Char} (h : IsBodyLine line) : Unmarked line := by
  obtain ⟨n, content, rfl, hcontent⟩ := h
  cases n with
  | zero => exact hcontent.unmarked
  | succ n =>
    rw [spaces, List.replicate_succ, List.cons_append]
    constructor <;> simp [startMark, stopMark]

theorem splitOn_joined {lines : List (List Char)} (h : ∀ line ∈ lines, '\n' ∉ line) :
    Text.splitOn '\n' (joined lines) = lines ++ [[]] := by
  induction lines with
  | nil => rfl
  | cons line rest ih =>
    obtain ⟨hline, hrest⟩ := List.forall_mem_cons.mp h
    rw [joined_cons, Text.splitOn_append_cons, Text.splitOn_of_not_mem hline, ih hrest]
    rfl

/-- The lines of a file are found again. -/
theorem fileLines_joined {lines : List (List Char)} (h : ∀ line ∈ lines, IsLine line) :
    fileLines (joined lines) = lines := by
  have hnot : ∀ line ∈ lines, ∀ c, ¬(' ' ≤ c ∧ c ≤ '~') → c ∉ line :=
    fun line hline c hc hmem => hc (h line hline c hmem)
  have hzero : (joined lines).takeWhile (· ≠ '\x00') = joined lines := by
    rw [List.takeWhile_eq_self_iff]
    intro c hc
    obtain ⟨line, hline, hc⟩ := List.mem_flatMap.mp hc
    rcases List.mem_append.mp hc with hc | hc
    · simpa using (isPrintable_of_isLine (h line hline c hc)).2.2.2
    · rw [List.mem_singleton.mp hc]
      decide
  have hreturn : ∀ line ∈ lines, Text.splitOn '\r' (Text.dropReturn line) = [line] := by
    intro line hline
    have hmem : '\r' ∉ line := hnot line hline _ (by decide)
    rw [Text.dropReturn, if_neg fun hlast => hmem (List.mem_of_getLast? hlast), Text.splitOn_of_not_mem hmem]
  have hsegments : (Text.segments (joined lines)).flatten = lines ++ [[]] := by
    rw [Text.segments, splitOn_joined fun line hline => hnot line hline _ (by decide)]
    have hmap : lines.map (Text.splitOn '\r' ∘ Text.dropReturn) = lines.map fun line => [line] :=
      List.map_congr_left hreturn
    simp only [List.dropLast_concat, List.getLast?_concat, Option.getD_some, List.map_append, List.map_map,
      List.flatten_append, hmap, ← List.flatMap_def, List.flatMap_singleton']
    rfl
  rw [fileLines, hzero, hsegments]
  simp

theorem isMarker_eq_false {mark line : List Char} (h : line.take 3 ≠ mark) : isMarker mark line = false := by
  simp [isMarker, h]

theorem isIgnorable_eq_false {line : List Char} (h : Starts line) : isIgnorable line = false := by
  obtain ⟨c, rest, rfl, hblank, hothers⟩ := h
  have hhash : c ≠ '#' := by
    rintro rfl
    exact hothers (by decide)
  simp [isIgnorable, hblank, hhash]

/-- The lines of one value are those of one document, which no mark stands in front of. -/
theorem documentLines?_body {first : List Char} {lines : List (List Char)} (hfirst : Starts first)
    (h : ∀ line ∈ first :: lines, Unmarked line) :
    documentLines? (first :: lines) = some (false, first :: lines) := by
  have hbetween : ¬isBetween first = true := by
    simp [isBetween, isIgnorable_eq_false hfirst, isMarker_eq_false (h first List.mem_cons_self).2]
  have hpercent : first.head? ≠ some '%' := by
    obtain ⟨c, rest, rfl, -, hothers⟩ := hfirst
    intro heq
    have hc : c = '%' := Option.some.inj heq
    exact hothers (by rw [hc]; decide)
  have hspan : (first :: lines).span (fun line => line.head? = some '%' || isIgnorable line)
      = ([], first :: lines) := by
    rw [List.span_eq_takeWhile_dropWhile, List.takeWhile_cons, List.dropWhile_cons]
    simp [isIgnorable_eq_false hfirst, hpercent]
  have hbody : (first :: lines).takeWhile (fun line => !(isMarker startMark line || isMarker stopMark line))
      = first :: lines := by
    rw [List.takeWhile_eq_self_iff]
    intro line hline
    rw [isMarker_eq_false (h line hline).1, isMarker_eq_false (h line hline).2]
    rfl
  have hmarked : isMarker startMark first = false := isMarker_eq_false (h first List.mem_cons_self).1
  unfold documentLines?
  rw [List.dropWhile_cons_of_neg hbetween, hspan]
  simp only [List.head?_cons, Option.any_some, hmarked, Bool.false_eq_true, if_false, hbody, List.drop_length]
  rfl

end Yaml
end ThreatModel
