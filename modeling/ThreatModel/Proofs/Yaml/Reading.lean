import Mathlib
import ThreatModel.Proofs.Yaml.Lines

/-!
# `Proofs.Yaml.Reading` — what the reader finds at the start of a line

The reader goes from line to line. In a line it tells a text, a key, an item and an empty collection apart by their
first characters and by the colon behind a key. Written texts are none of the others, and end with their line: the
next line starts left of them, so they do not go on there.

## Contents

* `reach`, `Stops` — the cursor at the next line, and the lines that end a value.
* `plain_value`, `single_doubled` — texts without quotes and between quotes.
* `keyAhead?_entryStart`, `keyAhead?_written` — keys, and texts that are none.
* `blockContent_text` and its siblings — what starts a value.
-/

namespace ThreatModel
namespace Yaml

/-! ## The next line -/

theorem dropWhile_spaces (n : Nat) {content : List Char} (h : Starts content) :
    (spaces n ++ content).dropWhile isBlank = content := by
  obtain ⟨c, rest, rfl, hblank, -⟩ := h
  rw [List.dropWhile_append_of_pos fun d hd => by rw [List.eq_of_mem_replicate hd]; rfl,
    List.dropWhile_cons_of_neg (by simp [hblank])]

theorem columnOf_spaces (n : Nat) {content : List Char} (h : Starts content) :
    columnOf (spaces n ++ content) = n := by
  obtain ⟨c, rest, rfl, hblank, -⟩ := h
  rw [columnOf, List.takeWhile_append_of_pos fun d hd => by rw [List.eq_of_mem_replicate hd]; rfl,
    List.takeWhile_cons_of_neg (by simp [hblank])]
  simp [spaces]

theorem isIgnorable_spaces (n : Nat) {content : List Char} (h : Starts content) :
    isIgnorable (spaces n ++ content) = false := by
  have hcontent := isIgnorable_eq_false h
  have hself := dropWhile_spaces 0 h
  rw [isIgnorable, show content.dropWhile isBlank = content from hself] at hcontent
  rw [isIgnorable, dropWhile_spaces n h, hcontent]

theorem isIndentedByTab_spaces (limit n : Nat) {content : List Char} (h : Starts content) :
    isIndentedByTab limit (spaces n ++ content) = false := by
  obtain ⟨c, rest, rfl, hblank, -⟩ := h
  have hspace : c ≠ ' ' := by
    rintro rfl
    cases hblank
  have htab : c ≠ '\t' := by
    rintro rfl
    cases hblank
  have hindent : (spaces n ++ c :: rest).takeWhile (· = ' ') = spaces n := by
    rw [List.takeWhile_append_of_pos fun d hd => by rw [List.eq_of_mem_replicate hd]; rfl,
      List.takeWhile_cons_of_neg (by simpa using hspace), List.append_nil]
  simp only [isIndentedByTab, hindent, List.drop_left, List.head?_cons]
  simp [htab]

/-- The cursor at the first of some lines. -/
def reach : List (List Char) → Cursor
  | [] => ⟨[], 0, [], []⟩
  | line :: below => ⟨line.dropWhile isBlank, columnOf line, below, []⟩

theorem reach_line (n : Nat) {content : List Char} (h : Starts content) (below : List (List Char)) :
    reach ((spaces n ++ content) :: below) = ⟨content, n, below, []⟩ := by
  rw [reach, dropWhile_spaces n h, columnOf_spaces n h]

theorem descendTo_line (limit n : Nat) {content : List Char} (h : Starts content) (below : List (List Char)) :
    Cursor.descendTo limit [] ((spaces n ++ content) :: below) = some ⟨content, n, below, []⟩ := by
  rw [Cursor.descendTo, isIgnorable_spaces n h, isIndentedByTab_spaces limit n h, dropWhile_spaces n h,
    columnOf_spaces n h]
  rfl

/-- Lines that end a value whose content stands at or right of a limit: there are none, or the first one starts
left of the limit, or left of the column of the dashes if it is an item. -/
inductive Stops (limit dash : Nat) : List (List Char) → Prop
  | done : Stops limit dash []
  | line (n : Nat) (content : List Char) (below : List (List Char)) (hstarts : Starts content)
      (hleft : n < if isDashNext content then dash else limit) : Stops limit dash ((spaces n ++ content) :: below)

section Stops

variable {limit dash : Nat} {tail : List (List Char)}

theorem Stops.mono (h : Stops limit dash tail) {limit' dash' : Nat} (hlimit : limit ≤ limit') (hdash : dash ≤ dash') :
    Stops limit' dash' tail := by
  cases h with
  | done => exact .done
  | line n content below hstarts hleft =>
    refine .line n content below hstarts (hleft.trans_le ?_)
    split
    · exact hdash
    · exact hlimit

/-- The reader goes on at the line that ends a value. -/
theorem Stops.descendTo (h : Stops limit dash tail) (least : Nat) :
    Cursor.descendTo least [] tail = some (reach tail) := by
  cases h with
  | done => rfl
  | line n content below hstarts _ => rw [descendTo_line least n hstarts, reach_line n hstarts]

theorem Stops.finish (h : Stops limit dash tail) (least column : Nat) :
    Cursor.finish least ⟨[], column, tail, []⟩ = some (reach tail) := by
  rw [Cursor.finish, Cursor.descend, h.descendTo]
  rfl

/-- A text without quotes does not go on in the line that ends it. -/
theorem Stops.plainMore (h : Stops limit dash tail) (hdash : dash ≤ limit) (here : Cursor) :
    plainMore false limit here 0 tail = some ([], here) := by
  cases h with
  | done => rfl
  | line n content below hstarts hleft =>
    have hlt : n < limit := hleft.trans_le (by split <;> omega)
    rw [Yaml.plainMore]
    simp only [dropWhile_spaces n hstarts, isIndentedByTab_spaces limit n hstarts, columnOf_spaces n hstarts, hlt]
    obtain ⟨c, rest, rfl, hblank, hothers⟩ := hstarts
    simp

end Stops

theorem skipBlanks_cons {c : Char} (h : isBlank c = false) (rest : List Char) (column : Nat)
    (below : List (List Char)) :
    Cursor.skipBlanks ⟨c :: rest, column, below, []⟩ = ⟨c :: rest, column, below, []⟩ := by
  simp [Cursor.skipBlanks, Cursor.skip, h]

/-! ## Texts -/

/-- A scalar without quotes is read up to the lines that end it. -/
theorem plain_value {text : List Char} (h : Plain text) (hline : IsLine text) {limit dash : Nat}
    {tail : List (List Char)} (hstops : Stops limit dash tail) (hdash : dash ≤ limit) (column : Nat) :
    plain false limit ⟨text, column, tail, []⟩ = some (text, ⟨[], column + text.length, tail, []⟩) := by
  have hspan : plainLine false text = text := by
    have := h.plainLine_append hline (Or.inl rfl)
    rwa [List.append_nil] at this
  have hskip : Cursor.skip ⟨text, column, tail, []⟩ text.length = ⟨[], column + text.length, tail, []⟩ := by
    rw [Cursor.skip, List.drop_length]
  rw [plain]
  simp only [hspan, hskip, hstops.plainMore hdash, List.all_nil, if_true, Option.map_some, List.append_nil]

/-- A scalar between single quotes is read up to its closing quote. -/
theorem single_doubled (limit column : Nat) (text : List Char) {after : List Char} (hafter : after.head? ≠ some '\'')
    (below : List (List Char)) :
    ∃ next, single limit ⟨'\'' :: (doubled text ++ '\'' :: after), column, below, []⟩
      = some (text, ⟨after, next, below, []⟩) := by
  have hpart := singleLine_doubled text hafter
  have hdrop : (doubled text ++ '\'' :: after).drop ((doubled text ++ '\'' :: after).length - after.length)
      = after := by
    have hlength : (doubled text ++ '\'' :: after).length - after.length = (doubled text ++ ['\'']).length := by
      simp only [List.length_append, List.length_cons, List.length_nil]
      omega
    rw [hlength, List.append_cons (doubled text) '\'' after, List.drop_left]
  have htext : (text.map fun c => (c, decide (c = '\''))).map Prod.fst = text := by
    rw [List.map_map]
    exact List.map_id text
  refine ⟨column + 1 + ((doubled text ++ '\'' :: after).length - after.length), ?_⟩
  rw [single, quoted]
  simp only [Cursor.skip, List.drop_succ_cons, List.drop_zero, Option.bind_eq_bind, Option.bind_some, hpart,
    QuotePart.text, htext, hdrop]

section Marks

variable {value : String} {text tail : List Char}

/-- A written text is no dash in front of an item, and no mark of a key. -/
theorem noMark_written (h : IsLine text) (tail : List Char) :
    isDashNext (written text ++ tail) = false ∧ isKeyMarkNext (written text ++ tail) = false := by
  unfold written
  split
  · next hstyle =>
    have hplain := plain_of_ofText hstyle
    obtain ⟨c, rest, rfl⟩ := List.exists_cons_of_ne_nil hplain.ne_nil
    have happart : c = '?' ∨ c = ':' ∨ c = '-' → isApartNext (rest ++ tail) = false := by
      intro hc
      obtain ⟨d, more, rfl, hd⟩ := hplain.not_apart hc
      simp [isApartNext, hd]
    rw [List.cons_append]
    constructor
    · unfold isDashNext
      split
      · next heq =>
        obtain ⟨rfl, rfl⟩ := List.cons.inj heq
        exact happart (by simp)
      · rfl
    · unfold isKeyMarkNext
      split
      · next heq =>
        obtain ⟨rfl, rfl⟩ := List.cons.inj heq
        exact happart (by simp)
      · rfl
  · exact ⟨rfl, rfl⟩

theorem noMark_entryStart {key : Key} (h : key.Kept) (value : Yaml) :
    isDashNext (entryStart key value) = false ∧ isKeyMarkNext (entryStart key value) = false := by
  obtain ⟨name, -, hline, -, hwritten⟩ := keyText_kept h
  rw [entryStart, hwritten]
  exact noMark_written hline _

/-- No name and no tag stands in front of a text that starts with a value or a key. -/
theorem properties?_starts {rest : List Char} (h : Starts rest) (column : Nat) (below : List (List Char)) :
    properties? false 2 .none ⟨rest, column, below, []⟩ = some (.none, ⟨rest, column, below, []⟩) := by
  obtain ⟨c, more, rfl, -, hothers⟩ := h
  unfold properties?
  split
  · next heq =>
    obtain ⟨rfl, -⟩ := List.cons.inj heq
    exact absurd (by decide) hothers
  · next heq =>
    obtain ⟨rfl, -⟩ := List.cons.inj heq
    exact absurd (by decide) hothers
  · rfl

/-- A text without quotes starts none of the scalars that are set off by their first character. -/
theorem Plain.not_cons (h : Plain text) {c : Char} (hc : leadingIndicators.contains c = true) (rest : List Char) :
    text ++ tail ≠ c :: rest := by
  obtain ⟨d, more, rfl⟩ := List.exists_cons_of_ne_nil h.ne_nil
  intro heq
  obtain ⟨rfl, -⟩ := List.cons.inj heq
  rw [h.not_leading] at hc
  cases hc

/-- A written text is a scalar of its line, and is read back. -/
theorem inlineScalar?_written (h : IsLine value.toList) (htail : EndsWord tail) (column : Nat)
    (below : List (List Char)) :
    ∃ next, inlineScalar? none ⟨written value.toList ++ tail, column, below, []⟩
      = some (readBack value, ⟨tail, next, below, []⟩) := by
  by_cases hstyle : Style.ofText value.toList = .plain
  · have hplain := plain_of_ofText hstyle
    rw [written, readBack, if_pos hstyle, if_pos hstyle]
    refine ⟨column + value.toList.length, ?_⟩
    unfold inlineScalar?
    split
    iterate 3 next heq => exact absurd heq (hplain.not_cons (by decide) _)
    · have hstarts : startsPlain false (value.toList ++ tail) = true := by
        obtain ⟨c, rest, heq⟩ := List.exists_cons_of_ne_nil hplain.ne_nil
        rw [heq] at hplain ⊢
        exact hplain.startsPlain_append
      simp only [hstarts, if_true, hplain.plainLine_append h htail, Cursor.skip, List.drop_left]
      rfl
  · have hafter : tail.head? ≠ some '\'' := by
      rcases htail with rfl | ⟨after, rfl, -⟩ <;> simp
    rw [written, readBack, if_neg hstyle, if_neg hstyle, List.append_assoc]
    obtain ⟨next, hnext⟩ := single_doubled 0 column value.toList hafter []
    refine ⟨next, ?_⟩
    rw [List.cons_append, inlineScalar?]
    simp only [List.singleton_append, hnext, Option.map_some, String.ofList_toList]

/-- A key is found in front of its colon. -/
theorem keyAhead?_entryStart {key : Key} (h : key.Kept) (value : Yaml) (column : Nat) (below : List (List Char)) :
    ∃ next, keyAhead? ⟨entryStart key value, column, below, []⟩
      = some (key, ⟨':' :: if spans value then [] else ' ' :: firstLine value, next, below, []⟩) := by
  obtain ⟨name, rfl, hline, hback, hwritten⟩ := keyText_kept h
  have hapart : isApartNext (if spans value then [] else ' ' :: firstLine value) = true := by
    cases spans value <;> rfl
  obtain ⟨next, hnext⟩ := inlineScalar?_written hline (Or.inr ⟨_, rfl, hapart⟩) column below
  refine ⟨next, ?_⟩
  rw [entryStart, hwritten, keyAhead?, properties?_starts (starts_written hline _)]
  simp only [Option.bind_eq_bind, Option.bind_some, Properties.none, hnext, hback, key?,
    skipBlanks_cons (by decide : isBlank ':' = false), isColonMarkNext, hapart, if_true, Cursor.define]

/-- There is no key where a text is written. -/
theorem keyAhead?_written (h : IsLine value.toList) (column : Nat) (below : List (List Char)) :
    keyAhead? ⟨written value.toList, column, below, []⟩ = none := by
  obtain ⟨next, hnext⟩ := inlineScalar?_written h (Or.inl rfl) column below
  have hstarts := starts_written h []
  rw [List.append_nil] at hnext hstarts
  rw [keyAhead?, properties?_starts hstarts]
  simp only [Option.bind_eq_bind, Option.bind_some, Properties.none, hnext]
  cases (readBack value).key? <;> rfl

end Marks

/-! ## The start of a value -/

/-- A value in front of which no name and no tag stands is its content. -/
theorem blockNode_starts {rest : List Char} (h : Starts rest) (fuel limit dash column : Nat) (fresh : Bool)
    (below : List (List Char)) :
    blockNode (fuel + 1) limit dash fresh ⟨rest, column, below, []⟩
      = blockContent fuel limit fresh none ⟨rest, column, below, []⟩ := by
  rw [blockNode]
  split
  · rfl
  · rw [properties?_starts h]
    simp only [Option.bind_eq_bind, Option.bind_some, Properties.none, if_true, Cursor.define]
    cases blockContent fuel limit fresh none ⟨rest, column, below, []⟩ <;> rfl

section Content

variable {value : String} {limit dash : Nat} {tail : List (List Char)}

/-- A text is read back. -/
theorem blockContent_text (h : IsLine value.toList) (hstops : Stops limit dash tail) (hdash : dash ≤ limit)
    (fuel column : Nat) (fresh : Bool) :
    blockContent (fuel + 1) limit fresh none ⟨written value.toList, column, tail, []⟩
      = some (readBack value, reach tail) := by
  have hmarks := noMark_written h []
  rw [List.append_nil] at hmarks
  rw [blockContent]
  simp only [hmarks.1, hmarks.2, keyAhead?_written h, Option.isSome_none, Bool.and_false, Bool.or_false,
    Bool.false_eq_true, if_false]
  by_cases hstyle : Style.ofText value.toList = .plain
  · have hplain := plain_of_ofText hstyle
    have hnot : ∀ {c : Char} {rest : List Char}, leadingIndicators.contains c = true → value.toList ≠ c :: rest := by
      intro c rest hc heq
      exact hplain.not_cons hc rest ((List.append_nil _).trans heq)
    rw [written, readBack, if_pos hstyle, if_pos hstyle]
    split
    iterate 7 next heq => exact absurd heq (hnot (by decide))
    · have hstarts : startsPlain false value.toList = true := by
        obtain ⟨c, rest, heq⟩ := List.exists_cons_of_ne_nil hplain.ne_nil
        rw [heq] at hplain ⊢
        have happend : startsPlain false (c :: (rest ++ [])) = true := hplain.startsPlain_append
        rwa [List.append_nil] at happend
      simp only [hstarts, if_true, plain_value hplain h hstops hdash, Option.bind_eq_bind, Option.bind_some,
        hstops.finish]
      rfl
  · have hend : ([] : List Char).head? ≠ some '\'' := by decide
    obtain ⟨next, hnext⟩ := single_doubled limit column value.toList hend tail
    rw [written, readBack, if_neg hstyle, if_neg hstyle, List.cons_append]
    simp only [hnext, Option.bind_eq_bind, Option.bind_some, hstops.finish, String.ofList_toList]

/-- A sequence without items is read. -/
theorem blockContent_noItems (hstops : Stops limit dash tail) (fuel column : Nat) (fresh : Bool) :
    blockContent (fuel + 3) limit fresh none ⟨['[', ']'], column, tail, []⟩ = some (.sequence [], reach tail) := by
  have hkey : keyAhead? ⟨['[', ']'], column, tail, []⟩ = none := rfl
  have hflow : flowContent (fuel + 2) limit none ⟨['[', ']'], column, tail, []⟩
      = some (.sequence [], ⟨[], column + 2, tail, []⟩) := rfl
  rw [blockContent]
  simp only [hkey, hflow, hstops.finish, Option.bind_eq_bind, Option.bind_some]
  cases fresh <;> rfl

/-- A mapping without entries is read. -/
theorem blockContent_noEntries (hstops : Stops limit dash tail) (fuel column : Nat) (fresh : Bool) :
    blockContent (fuel + 3) limit fresh none ⟨['\x7b', '\x7d'], column, tail, []⟩ = some (.mapping [], reach tail) := by
  have hkey : keyAhead? ⟨['\x7b', '\x7d'], column, tail, []⟩ = none := rfl
  have hflow : flowContent (fuel + 2) limit none ⟨['\x7b', '\x7d'], column, tail, []⟩
      = some (.mapping [], ⟨[], column + 2, tail, []⟩) := rfl
  rw [blockContent]
  simp only [hkey, hflow, hstops.finish, Option.bind_eq_bind, Option.bind_some]
  cases fresh <;> rfl

/-- What starts with a dash is a sequence. -/
theorem blockContent_dash (fuel limit column : Nat) (rest : List Char) (below : List (List Char)) :
    blockContent (fuel + 1) limit true none ⟨'-' :: ' ' :: rest, column, below, []⟩
      = (blockSequence fuel column [] ⟨'-' :: ' ' :: rest, column, below, []⟩).map fun (items, c) =>
          (.sequence items, c) := by
  rw [blockContent]
  rfl

/-- What starts with a key is a mapping. -/
theorem blockContent_entryStart {key : Key} (h : key.Kept) (fuel limit column : Nat) (value : Yaml)
    (below : List (List Char)) :
    blockContent (fuel + 1) limit true none ⟨entryStart key value, column, below, []⟩
      = (blockMapping fuel column [] ⟨entryStart key value, column, below, []⟩).map fun (entries, c) =>
          (.mapping entries, c) := by
  obtain ⟨next, hkey⟩ := keyAhead?_entryStart h value column below
  have hmarks := noMark_entryStart h value
  rw [blockContent]
  simp only [hmarks.1, hmarks.2, hkey, Option.isSome_some, Bool.and_true, Bool.or_true, Bool.false_eq_true, if_false,
    if_true]

end Content

end Yaml
end ThreatModel
