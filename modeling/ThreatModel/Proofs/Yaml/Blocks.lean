import Mathlib
import ThreatModel.Proofs.Yaml.Reading

/-!
# `Proofs.Yaml.Blocks` — a value that is written is read

The reader finds the first line of a value at its cursor and the further ones below. What ends the value is the
next line that starts left of it; a sequence under a key is also ended by the next key in its own column. So the
value is read up to there, with every text as it is read back.

## Contents

* `reread` — a value with its texts read back.
* `weight` — how often the reader has to go on.
* `stops_itemLines`, `stops_entryLines` — what ends an item or the value of an entry.
* `ReadsLines`, `blockSequence_lines`, `blockMapping_lines`, `blockNode_lines` — a value is read up to the lines
  that end it.
* `read_render` — a file that holds a value is read.
-/

namespace ThreatModel
namespace Yaml

/-! ## Values -/

mutual

/-- A value with its texts read back. -/
def reread : Yaml → Yaml
  | .text value => readBack value
  | .sequence items => .sequence (rereadItems items)
  | .mapping entries => .mapping (rereadEntries entries)
  | value => value

/-- Items with their texts read back. -/
def rereadItems : List Yaml → List Yaml
  | [] => []
  | item :: rest => reread item :: rereadItems rest

/-- Entries with their texts read back. -/
def rereadEntries : List (Key × Yaml) → List (Key × Yaml)
  | [] => []
  | (key, value) :: rest => (key, reread value) :: rereadEntries rest

end

theorem rereadItems_eq (items : List Yaml) : rereadItems items = items.map reread := by
  induction items with
  | nil => rfl
  | cons item rest ih => rw [rereadItems, ih, List.map_cons]

theorem rereadEntries_eq (entries : List (Key × Yaml)) :
    rereadEntries entries = entries.map fun entry => (entry.1, reread entry.2) := by
  induction entries with
  | nil => rfl
  | cons entry rest ih => rw [rereadEntries, ih, List.map_cons]

mutual

/-- The number of values that a value is made of, counting each item and each entry once more. -/
def weight : Yaml → Nat
  | .sequence items => 1 + weightItems items
  | .mapping entries => 1 + weightEntries entries
  | _ => 1

/-- The weight of items. -/
def weightItems : List Yaml → Nat
  | [] => 0
  | item :: rest => 1 + weight item + weightItems rest

/-- The weight of entries. -/
def weightEntries : List (Key × Yaml) → Nat
  | [] => 0
  | (_, value) :: rest => 1 + weight value + weightEntries rest

end

/-! ## Items and entries -/

/-- The line that ends a value is none of its own. -/
theorem Stops.left {limit dash : Nat} {tail : List (List Char)} (h : Stops limit dash tail) :
    (reach tail).isEnd = true ∨
      (reach tail).column < if isDashNext (reach tail).rest then dash else limit := by
  cases h with
  | done => exact Or.inl rfl
  | line n content below hstarts hleft =>
    rw [reach_line n hstarts]
    exact Or.inr hleft

theorem starts_dash (text : List Char) : Starts ('-' :: ' ' :: text) := ⟨_, _, rfl, by decide, by decide⟩

theorem starts_entryStart {key : Key} (h : key.Kept) (value : Yaml) : Starts (entryStart key value) := by
  obtain ⟨name, -, hline, -, hwritten⟩ := keyText_kept h
  rw [entryStart, hwritten]
  exact starts_written hline _

/-- A cursor at a line with content is not at the end. -/
theorem isEnd_starts {content : List Char} (h : Starts content) (column : Nat) (below : List (List Char)) :
    Cursor.isEnd ⟨content, column, below, []⟩ = false := by
  obtain ⟨c, rest, rfl, -⟩ := h
  rfl

/-- A value that stands in its line after a space. -/
theorem blockValue_space {rest : List Char} (h : Starts rest) (fuel limit dash column : Nat) (fresh : Bool)
    (below : List (List Char)) :
    blockValue (fuel + 1) limit dash fresh ⟨' ' :: rest, column, below, []⟩
      = blockNode fuel limit dash fresh ⟨rest, column + 1, below, []⟩ := by
  have hline : Cursor.endsLine ⟨' ' :: rest, column, below, []⟩ = false := by
    have hcomment : isIgnorable (' ' :: rest) = false := isIgnorable_spaces 1 h
    simp [Cursor.endsLine, hcomment]
  have hskip : Cursor.skipBlanks ⟨' ' :: rest, column, below, []⟩ = ⟨rest, column + 1, below, []⟩ := by
    obtain ⟨c, more, rfl, hblank, -⟩ := h
    simp [Cursor.skipBlanks, Cursor.skip, hblank, show isBlank ' ' = true from rfl]
  rw [blockValue, hline, hskip]
  rfl

/-- What is known of the reading of a value: it is read up to the lines that end it. -/
def ReadsLines (v : Yaml) : Prop :=
  ∀ {fuel limit dash column : Nat} {fresh : Bool} {tail : List (List Char)}, 4 * weight v ≤ fuel →
    Stops limit dash tail → dash ≤ limit →
    (spans v = true → fresh = true ∧ dash ≤ column ∧ limit ≤ if isListed v then column + 1 else column) →
    blockNode fuel limit dash fresh ⟨firstLine v, column, moreLines column v ++ tail, []⟩ = some (reread v, reach tail)

/-- A value that takes lines of its own below a key starts right of the key, or is a sequence in its column. -/
theorem valueColumn_eq {v : Yaml} (hlined : Lined v) (h : spans v = true) (column : Nat) :
    column ≤ valueColumn column v ∧
      column + 1 ≤ (if isListed v then valueColumn column v + 1 else valueColumn column v) ∧
      (if isDashNext (firstLine v) then column else column + 1) ≤ valueColumn column v := by
  cases hlined with
  | text => cases h
  | sequence items =>
    cases items with
    | nil => cases h
    | cons item rest => exact ⟨le_rfl, le_rfl, le_rfl⟩
  | mapping entries hkeys =>
    cases entries with
    | nil => cases h
    | cons entry rest =>
      have hdash : isDashNext (firstLine (.mapping (entry :: rest))) = false :=
        (noMark_entryStart (hkeys entry List.mem_cons_self) entry.2).1
      rw [hdash]
      simp [valueColumn, isListed]

/-- The value of a key is read. -/
theorem blockValue_entry {v : Yaml} (hlined : Lined v) (h : ReadsLines v) {fuel column : Nat}
    (hfuel : 4 * weight v ≤ fuel) {tail : List (List Char)} (hstops : Stops (column + 1) column tail) (next : Nat) :
    blockValue (fuel + 1) (column + 1) column false
        ⟨if spans v then [] else ' ' :: firstLine v, next, valueLines column v ++ tail, []⟩
      = some (reread v, reach tail) := by
  have hstarts := (isContent_firstLine hlined).starts
  cases hspans : spans v with
  | false =>
    rw [valueLines, hspans, if_neg (by decide), if_neg (by decide), List.nil_append, blockValue_space hstarts]
    have hread : blockNode fuel (column + 1) column false ⟨firstLine v, next + 1, moreLines (next + 1) v ++ tail, []⟩
        = some (reread v, reach tail) :=
      h hfuel hstops (by omega) (by simp [hspans])
    rwa [moreLines_of_not_spans hspans, List.nil_append] at hread
  | true =>
    obtain ⟨hcolumn, hlimit, hdash⟩ := valueColumn_eq hlined hspans column
    rw [valueLines, hspans, if_pos rfl, if_pos rfl, blockValue, if_pos (by rfl), Cursor.descend, List.cons_append,
      descendTo_line _ _ hstarts]
    simp only [Option.bind_eq_bind, Option.bind_some, isEnd_starts hstarts, Bool.false_or, decide_eq_true_eq,
      if_neg (Nat.not_lt.mpr hdash)]
    exact h hfuel hstops (by omega) fun _ => ⟨rfl, hcolumn, hlimit⟩

/-- The cursor at the colon of an entry goes on behind it. -/
theorem afterColon_entry (v : Yaml) (column : Nat) (below : List (List Char)) :
    Cursor.afterColon ⟨':' :: if spans v then [] else ' ' :: firstLine v, column, below, []⟩
      = some ⟨if spans v then [] else ' ' :: firstLine v, column + 1, below, []⟩ := by
  cases hspans : spans v with
  | true => rfl
  | false => simp [Cursor.afterColon, Cursor.skip, show isBlank ' ' = true from rfl]

/-- What ends an item is the next one, or what ends the sequence. -/
theorem stops_itemLines (items : List Yaml) {column : Nat} {tail : List (List Char)}
    (hstops : Stops (column + 1) column tail) : Stops (column + 1) (column + 1) (itemLines column items ++ tail) := by
  cases items with
  | nil => exact hstops.mono le_rfl (by omega)
  | cons item rest => exact .line column _ _ (starts_dash _) (by split <;> omega)

/-- What ends the value of an entry is the next one, or what ends the mapping. -/
theorem stops_entryLines {entries : List (Key × Yaml)} (hkeys : ∀ entry ∈ entries, entry.1.Kept) {column : Nat}
    {tail : List (List Char)} (hstops : Stops column column tail) :
    Stops (column + 1) column (entryLines column entries ++ tail) := by
  cases entries with
  | nil => exact hstops.mono (by omega) le_rfl
  | cons entry rest =>
    have hkey := hkeys entry List.mem_cons_self
    rw [entryLines_cons, List.cons_append]
    refine .line column _ _ (starts_entryStart hkey _) ?_
    rw [(noMark_entryStart hkey _).1]
    simp

/-- The value of an item is read. -/
theorem blockValue_item {v : Yaml} (hlined : Lined v) (h : ReadsLines v) {fuel column : Nat}
    (hfuel : 4 * weight v ≤ fuel) {below : List (List Char)} (hstops : Stops (column + 1) (column + 1) below) :
    blockValue (fuel + 1) (column + 1) (column + 1) true
        ⟨' ' :: firstLine v, column + 1, moreLines (column + 2) v ++ below, []⟩
      = some (reread v, reach below) := by
  rw [blockValue_space (isContent_firstLine hlined).starts]
  refine h hfuel hstops le_rfl fun _ => ⟨rfl, by omega, ?_⟩
  split <;> omega

/-- No tab stands between a dash and its item. -/
theorem noTab_item {rest : List Char} (h : Starts rest) :
    (((' ' :: rest).takeWhile isBlank).contains '\t' &&
      isDashNext ((' ' :: rest).drop ((' ' :: rest).takeWhile isBlank).length)) = false := by
  obtain ⟨c, more, rfl, hblank, -⟩ := h
  simp [hblank, show isBlank ' ' = true from rfl]

/-- Items are read up to the lines that end their sequence. -/
theorem blockSequence_lines {items : List Yaml} (hlined : ∀ item ∈ items, Lined item)
    (h : ∀ item ∈ items, ReadsLines item) (hne : items ≠ []) {fuel column : Nat} (hfuel : 4 * weightItems items ≤ fuel)
    {tail : List (List Char)} (hstops : Stops (column + 1) column tail) (before : List Yaml) :
    blockSequence fuel column before (reach (itemLines column items ++ tail))
      = some (before ++ rereadItems items, reach tail) := by
  induction items generalizing fuel before with
  | nil => exact absurd rfl hne
  | cons item rest ih =>
    obtain ⟨hitem, hrest⟩ := List.forall_mem_cons.mp hlined
    obtain ⟨hread, hreads⟩ := List.forall_mem_cons.mp h
    have hstarts := (isContent_firstLine hitem).starts
    rw [weightItems] at hfuel
    obtain ⟨fuel, rfl⟩ : ∃ n, fuel = n + 2 := ⟨fuel - 2, by omega⟩
    rw [itemLines, List.cons_append, reach_line column (starts_dash _), List.append_assoc, blockSequence]
    have hvalue := blockValue_item hitem hread (show 4 * weight item ≤ fuel by omega) (stops_itemLines rest hstops)
    simp only [Cursor.skip, List.drop_succ_cons, List.drop_zero, noTab_item hstarts, hvalue, Option.bind_eq_bind,
      Option.bind_some, Bool.false_eq_true, if_false]
    cases rest with
    | nil =>
      rw [itemLines, List.nil_append]
      rcases hstops.left with hend | hleft
      · simp [hend, rereadItems]
      · cases hdash : isDashNext (reach tail).rest with
        | true =>
          rw [hdash, if_pos rfl] at hleft
          simp [hleft, rereadItems]
        | false =>
          rw [hdash, if_neg (by decide)] at hleft
          have hnot : ¬column < (reach tail).column := by omega
          simp [hnot, rereadItems]
    | cons other more =>
      have hfuel' : 4 * weightItems (other :: more) ≤ fuel + 1 := by omega
      have hgo := ih hrest hreads (List.cons_ne_nil _ _) hfuel' (before ++ [reread item])
      rw [itemLines, List.cons_append, reach_line column (starts_dash _)] at hgo ⊢
      have hdash : isDashNext ('-' :: ' ' :: firstLine other) = true := rfl
      simp only [isEnd_starts (starts_dash _), hdash, lt_irrefl, decide_false, Bool.or_self, Bool.false_eq_true,
        if_false, if_true, hgo]
      simp [rereadItems]

/-- Entries are read up to the lines that end their mapping. -/
theorem blockMapping_lines {entries : List (Key × Yaml)} (hkeys : ∀ entry ∈ entries, entry.1.Kept)
    (hlined : ∀ entry ∈ entries, Lined entry.2) (h : ∀ entry ∈ entries, ReadsLines entry.2) (hne : entries ≠ [])
    {fuel column : Nat} (hfuel : 4 * weightEntries entries ≤ fuel) {tail : List (List Char)}
    (hstops : Stops column column tail) (before : List (Key × Yaml))
    (hdistinct : ((before ++ entries).map Prod.fst).Nodup) :
    blockMapping fuel column before (reach (entryLines column entries ++ tail))
      = some (before ++ rereadEntries entries, reach tail) := by
  induction entries generalizing fuel before with
  | nil => exact absurd rfl hne
  | cons entry rest ih =>
    obtain ⟨key, value⟩ := entry
    obtain ⟨hkey, hkeys⟩ := List.forall_mem_cons.mp hkeys
    obtain ⟨hvalue, hrest⟩ := List.forall_mem_cons.mp hlined
    obtain ⟨hread, hreads⟩ := List.forall_mem_cons.mp h
    have hstarts := starts_entryStart hkey value
    rw [weightEntries] at hfuel
    obtain ⟨fuel, rfl⟩ : ∃ n, fuel = n + 2 := ⟨fuel - 2, by omega⟩
    have hnext := stops_entryLines hkeys hstops
    have hnew : (before.map Prod.fst).contains key = false := by
      rw [List.map_append, List.nodup_append] at hdistinct
      rw [List.contains_eq_mem, decide_eq_false_iff_not]
      intro hmem
      exact hdistinct.2.2 key hmem key List.mem_cons_self rfl
    obtain ⟨next, hahead⟩ := keyAhead?_entryStart hkey value column
      (valueLines column value ++ (entryLines column rest ++ tail))
    have hcontent := blockValue_entry hvalue hread (show 4 * weight value ≤ fuel by omega) hnext (next + 1)
    rw [entryLines_cons, List.cons_append, reach_line column hstarts, List.append_assoc, blockMapping,
      (noMark_entryStart hkey value).2, if_neg (by decide)]
    simp only [hahead, afterColon_entry, hcontent, addKeyed, hnew, Option.bind_eq_bind, Option.bind_some,
      Bool.false_eq_true, if_false]
    cases rest with
    | nil =>
      rw [entryLines, List.nil_append]
      rcases hstops.left with hend | hleft
      · simp [hend, rereadEntries]
      · rw [ite_self] at hleft
        simp [hleft, rereadEntries]
    | cons other more =>
      obtain ⟨otherKey, otherValue⟩ := other
      have hother := (List.forall_mem_cons.mp hkeys).1
      have hfuel' : 4 * weightEntries ((otherKey, otherValue) :: more) ≤ fuel + 1 := by omega
      have hdistinct' : ((before ++ [(key, reread value)] ++ (otherKey, otherValue) :: more).map Prod.fst).Nodup := by
        simpa using hdistinct
      have hgo := ih hkeys hrest hreads (List.cons_ne_nil _ _) hfuel' _ hdistinct'
      have hdash := (noMark_entryStart hother otherValue).1
      have hotherStarts := starts_entryStart hother otherValue
      rw [entryLines_cons, List.cons_append, reach_line column hotherStarts] at hgo ⊢
      simp only [isEnd_starts hotherStarts, hdash, lt_irrefl, decide_false, Bool.or_self, Bool.false_eq_true,
        if_false, hgo]
      simp [rereadEntries]

/-- **A value is read** up to the lines that end it, with its texts read back. -/
theorem blockNode_lines {v : Yaml} (h : Lined v) : ReadsLines v := by
  induction h with
  | text value hline =>
    intro fuel limit dash column fresh tail hfuel hstops hdash _
    rw [weight] at hfuel
    · obtain ⟨fuel, rfl⟩ : ∃ n, fuel = n + 2 := ⟨fuel - 2, by omega⟩
      have hstarts := starts_written hline []
      rw [List.append_nil] at hstarts
      rw [firstLine_text hline, moreLines_of_not_spans rfl, List.nil_append, blockNode_starts hstarts, reread]
      exact blockContent_text hline hstops hdash fuel column fresh
    all_goals simp
  | sequence items hitems ih =>
    intro fuel limit dash column fresh tail hfuel hstops hdash hplace
    rw [weight] at hfuel
    obtain ⟨fuel, rfl⟩ : ∃ n, fuel = n + 4 := ⟨fuel - 4, by omega⟩
    cases items with
    | nil =>
      have hstarts : Starts (firstLine (.sequence [])) := ⟨_, _, rfl, by decide, by decide⟩
      rw [blockNode_starts hstarts]
      exact blockContent_noItems hstops fuel column fresh
    | cons item rest =>
      obtain ⟨rfl, hcolumn, hlimit⟩ := hplace rfl
      rw [firstLine, blockNode_starts (starts_dash _), blockContent_dash]
      have hlines := blockSequence_lines hitems ih (List.cons_ne_nil _ _) (show _ ≤ fuel + 2 by omega)
        (hstops.mono hlimit hcolumn) []
      rw [itemLines, List.cons_append, reach_line column (starts_dash _)] at hlines
      rw [moreLines, hlines]
      rfl
  | mapping entries hkeys hdistinct hvalues ih =>
    intro fuel limit dash column fresh tail hfuel hstops hdash hplace
    rw [weight] at hfuel
    obtain ⟨fuel, rfl⟩ : ∃ n, fuel = n + 4 := ⟨fuel - 4, by omega⟩
    cases entries with
    | nil =>
      have hstarts : Starts (firstLine (.mapping [])) := ⟨_, _, rfl, by decide, by decide⟩
      rw [blockNode_starts hstarts]
      exact blockContent_noEntries hstops fuel column fresh
    | cons entry rest =>
      obtain ⟨key, value⟩ := entry
      have hkey : key.Kept := (List.forall_mem_cons.mp hkeys).1
      have hlimit : limit ≤ column := (hplace rfl).2.2
      obtain ⟨rfl, -, -⟩ := hplace rfl
      have hstarts := starts_entryStart hkey value
      rw [firstLine_mapping, blockNode_starts hstarts, blockContent_entryStart hkey]
      have hlines := blockMapping_lines hkeys hvalues ih (List.cons_ne_nil _ _) (show _ ≤ fuel + 2 by omega)
        (hstops.mono hlimit (hdash.trans hlimit)) [] hdistinct
      rw [entryLines_cons, List.cons_append, reach_line column hstarts] at hlines
      rw [moreLines_mapping, hlines]
      rfl

/-! ## Files -/

/-- The size of lines, with their ends. -/
def total (lines : List (List Char)) : Nat := (lines.map fun line => line.length + 1).sum

@[simp] theorem total_nil : total [] = 0 := rfl

@[simp] theorem total_cons (line : List Char) (rest : List (List Char)) :
    total (line :: rest) = line.length + 1 + total rest := rfl

@[simp] theorem total_append (front back : List (List Char)) : total (front ++ back) = total front + total back := by
  simp [total]

theorem foldl_length (lines : List (List Char)) (size : Nat) :
    lines.foldl (fun size line => size + line.length + 1) size = size + total lines := by
  induction lines generalizing size with
  | nil => rfl
  | cons line rest ih =>
    rw [List.foldl_cons, ih, total_cons]
    omega

/-- The lines of an entry are larger than its value. -/
theorem weight_entry {value : Yaml}
    (h : ∀ column, weight value ≤ (firstLine value).length + 1 + total (moreLines column value)) (key : Key)
    (column : Nat) : 1 + weight value ≤ (entryStart key value).length + total (valueLines column value) := by
  rw [entryStart, valueLines]
  cases hspans : spans value with
  | true =>
    have := h (valueColumn column value)
    simp only [if_true, List.length_append, List.length_cons, List.length_nil, total_cons]
    omega
  | false =>
    have := h column
    rw [moreLines_of_not_spans hspans, total_nil] at this
    simp only [Bool.false_eq_true, if_false, List.length_append, List.length_cons, total_nil]
    omega

mutual

/-- The lines of a value are larger than the value. -/
theorem weight_le (column : Nat) : ∀ v : Yaml, weight v ≤ (firstLine v).length + 1 + total (moreLines column v)
  | .null | .bool _ | .whole _ | .real _ | .text _ => by
    rw [weight]
    · omega
    all_goals simp
  | .sequence [] => (by decide : 1 ≤ 3)
  | .sequence (item :: rest) => by
    have hitem := weight_le (column + 2) item
    have hrest := weightItems_le column rest
    simp only [weight, weightItems, firstLine, moreLines, total_append, List.length_cons]
    omega
  | .mapping [] => (by decide : 1 ≤ 3)
  | .mapping ((key, value) :: rest) => by
    have hvalue := weight_entry (fun column => weight_le column value) key column
    have hrest := weightEntries_le column rest
    rw [weight, weightEntries, firstLine_mapping, moreLines_mapping, total_append]
    omega

theorem weightItems_le (column : Nat) : ∀ items : List Yaml, weightItems items ≤ total (itemLines column items)
  | [] => Nat.zero_le _
  | item :: rest => by
    have hitem := weight_le (column + 2) item
    have hrest := weightItems_le column rest
    simp only [weightItems, itemLines, total_cons, total_append, List.length_append, List.length_cons]
    omega

theorem weightEntries_le (column : Nat) :
    ∀ entries : List (Key × Yaml), weightEntries entries ≤ total (entryLines column entries)
  | [] => Nat.zero_le _
  | (key, value) :: rest => by
    have hvalue := weight_entry (fun column => weight_le column value) key column
    have hrest := weightEntries_le column rest
    rw [weightEntries, entryLines_cons, total_cons, total_append, List.length_append]
    omega

end

theorem mem_textsOfItems {items : List Yaml} {text : String} :
    text ∈ textsOfItems items ↔ ∃ item ∈ items, text ∈ texts item := by
  induction items with
  | nil => simp [textsOfItems]
  | cons item rest ih => simp [textsOfItems, ih]

theorem mem_textsOfEntries {entries : List (Key × Yaml)} {text : String} :
    text ∈ textsOfEntries entries ↔ ∃ entry ∈ entries, text ∈ texts entry.2 := by
  induction entries with
  | nil => simp [textsOfEntries]
  | cons entry rest ih => simp [textsOfEntries, ih]

theorem isLine_of_mem_texts {v : Yaml} (h : Lined v) {text : String} (htext : text ∈ texts v) : IsLine text.toList := by
  induction h with
  | text value hline => exact List.mem_singleton.mp htext ▸ hline
  | sequence items _ ih =>
    obtain ⟨item, hitem, htext⟩ := mem_textsOfItems.mp htext
    exact ih item hitem htext
  | mapping entries _ _ _ ih =>
    obtain ⟨entry, hentry, htext⟩ := mem_textsOfEntries.mp htext
    exact ih entry hentry htext

/-- No text on one line is written line by line, so the end of the file is not marked. -/
theorem endMark_lined {v : Yaml} (h : Lined v) : endMark v = [] := by
  have hnone : (texts v).filter (fun text => Style.ofText text.toList = .literal) = [] := by
    rw [List.filter_eq_nil_iff]
    intro text htext
    rcases ofText_line (isLine_of_mem_texts h htext) with hstyle | hstyle <;> simp [hstyle]
  rw [endMark, hnone]
  rfl

/-- **A file that holds a value is read** as the value, with its texts read back. -/
theorem read_render {v : Yaml} (h : Lined v) : read v.render.toList = some (reread v) := by
  have hcontent := isContent_firstLine h
  have hmore := isBodyLine_moreLines h 0
  have htext : v.render.toList = joined (firstLine v :: moreLines 0 v) := by
    rw [render, String.toList_ofList, endMark_lined h, List.append_nil, block_eq 0 h, joined_cons]
  have hlines : ∀ line ∈ firstLine v :: moreLines 0 v, IsLine line :=
    List.forall_mem_cons.mpr ⟨hcontent.isLine, fun line hline => (hmore line hline).isLine⟩
  have hunmarked : ∀ line ∈ firstLine v :: moreLines 0 v, Unmarked line :=
    List.forall_mem_cons.mpr ⟨hcontent.unmarked, fun line hline => (hmore line hline).unmarked⟩
  have hstarts : Starts (firstLine v) := hcontent.starts
  -- The reader goes to the first line, where the value starts in the first column.
  have hvalue : ∀ fuel, 4 * weight v ≤ fuel →
      blockValue (fuel + 1) 0 0 false ⟨[], 0, firstLine v :: moreLines 0 v, []⟩ = some (reread v, reach []) := by
    intro fuel hfuel
    have hdescend : Cursor.descendTo 0 [] (firstLine v :: moreLines 0 v)
        = some ⟨firstLine v, 0, moreLines 0 v, []⟩ := descendTo_line 0 0 hstarts _
    have hend : Cursor.isEnd ⟨firstLine v, 0, moreLines 0 v, []⟩ = false := by
      obtain ⟨c, rest, heq, -⟩ := hstarts
      rw [Cursor.isEnd, heq]
      rfl
    have hnode : blockNode fuel 0 0 true ⟨firstLine v, 0, moreLines 0 v ++ [], []⟩ = some (reread v, reach []) :=
      blockNode_lines h hfuel .done le_rfl fun _ => ⟨rfl, le_rfl, Nat.zero_le _⟩
    rw [blockValue, if_pos (by rfl), Cursor.descend, hdescend]
    simp only [Option.bind_eq_bind, Option.bind_some, hend, ite_self, Nat.not_lt_zero, decide_false, Bool.or_self,
      Bool.false_eq_true, if_false]
    rwa [List.append_nil] at hnode
  have hweight := weight_le 0 v
  rw [read, htext, fileLines_joined hlines, documentLines?_body hstarts hunmarked]
  simp only [Option.bind_eq_bind, Option.bind_some, Bool.not_false, Bool.true_and, List.all_cons,
    isIgnorable_eq_false hstarts, Bool.false_and, Bool.false_eq_true, if_false]
  rw [ofLines?, foldl_length]
  · simp only [hvalue (8 * (0 + total (firstLine v :: moreLines 0 v)) + 15) (by rw [total_cons]; omega)]
    rfl
  · nofun

end Yaml
end ThreatModel
