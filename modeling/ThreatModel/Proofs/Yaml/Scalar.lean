import Mathlib
import ThreatModel.Yaml.Printer
import ThreatModel.Yaml.Reader

/-!
# `Proofs.Yaml.Scalar` — a text on one line, written and read

A text of printable characters is written without quotes or between single quotes. Between quotes it is read as it
is. Without quotes all its characters are read, since none of them has a meaning of its own, but they are then read
as the kind of value that they look like to the reader, which need not be the kind that they look like to the
writer.

## Contents

* `IsLine` — texts on one line.
* `written`, `scalarText_line` — what is written of such a text.
* `readBack` — what it is read as.
* `Plain` — texts without quotes, and how they start, go on and end.
* `plainLine_append`, `singleLine_doubled` — the scalar is read up to its end.
-/

namespace ThreatModel
namespace Yaml

/-! ## Texts on one line -/

/-- A text on one line: printable characters of ASCII. -/
def IsLine (text : List Char) : Prop := ∀ c ∈ text, ' ' ≤ c ∧ c ≤ '~'

instance : DecidablePred IsLine := fun text =>
  decidable_of_iff (text.all fun c => decide (' ' ≤ c ∧ c ≤ '~')) (by simp [IsLine])

/-- A printable character can be written, and ends no line. -/
theorem isPrintable_of_isLine {c : Char} (h : ' ' ≤ c ∧ c ≤ '~') :
    isPrintable c = true ∧ isBreak c = false ∧ c ≠ '\t' ∧ c ≠ '\x00' := by
  have hlow : 32 ≤ c.toNat := by simpa [Char.le_def, UInt32.le_iff_toNat_le] using h.1
  have hhigh : c.toNat ≤ 126 := by simpa [Char.le_def, UInt32.le_iff_toNat_le] using h.2
  have hne : ∀ d : Char, d.toNat < 32 ∨ 126 < d.toNat → c ≠ d := by
    rintro d hd rfl
    omega
  refine ⟨?_, ?_, hne _ (by decide), hne _ (by decide)⟩
  · simp [isPrintable, hlow, hhigh]
  · simp [isBreak, hne '\n' (by decide), hne '\r' (by decide), hne '\x85' (by decide), hne '\u2028' (by decide),
      hne '\u2029' (by decide)]

/-- The only white space in a line is the space. -/
theorem isBlank_iff {c : Char} (h : ' ' ≤ c ∧ c ≤ '~') : isBlank c = true ↔ c = ' ' := by
  simp [isBlank, (isPrintable_of_isLine h).2.2.1]

/-- White space sets apart. -/
theorem isApart_of_isBlank {c : Char} (h : isBlank c = true) : isApart c = true := by
  simp only [isBlank, Bool.or_eq_true, decide_eq_true_eq] at h
  rcases h with rfl | rfl <;> decide

theorem IsLine.of_cons {c : Char} {rest : List Char} (h : IsLine (c :: rest)) : (' ' ≤ c ∧ c ≤ '~') ∧ IsLine rest :=
  ⟨h c List.mem_cons_self, fun d hd => h d (List.mem_cons_of_mem _ hd)⟩

theorem IsLine.append {front back : List Char} (hfront : IsLine front) (hback : IsLine back) :
    IsLine (front ++ back) := by
  intro c hc
  rcases List.mem_append.mp hc with hc | hc
  · exact hfront c hc
  · exact hback c hc

/-- No line break stands next to a space in a line. -/
theorem breaksAtSpace_line {text : List Char} (h : IsLine text) (spaceFirst : Bool) :
    breaksAtSpace spaceFirst text = false := by
  rw [breaksAtSpace, List.any_eq_false]
  rintro ⟨a, b⟩ hab
  have ha : isBreak a = false := (isPrintable_of_isLine (h a (List.of_mem_zip hab).1)).2.1
  have hb : isBreak b = false := (isPrintable_of_isLine (h b (List.mem_of_mem_tail (List.of_mem_zip hab).2))).2.1
  simp [ha, hb]

/-- A text on one line is written without quotes or between single quotes. -/
theorem ofText_line {text : List Char} (h : IsLine text) :
    Style.ofText text = .plain ∨ Style.ofText text = .single := by
  have hbreak : text.contains '\n' = false := by
    rw [List.contains_eq_mem, decide_eq_false_iff_not]
    intro hmem
    exact absurd (isPrintable_of_isLine (h _ hmem)).2.1 (by decide)
  have hsingle : allowsSingle text = true := by
    simp only [allowsSingle, breaksAtSpace_line h, Bool.not_false, Bool.and_true, List.all_eq_true]
    exact fun c hc => (isPrintable_of_isLine (h c hc)).1
  rw [Style.ofText, if_neg (by rw [hbreak]; decide), hsingle]
  split
  · exact Or.inl rfl
  · exact Or.inr rfl

/-! ## What is written -/

/-- A text with every single quote doubled. -/
def doubled (text : List Char) : List Char := text.flatMap fun c => if c = '\'' then ['\'', '\''] else [c]

/-- What is written of a text on one line. -/
def written (text : List Char) : List Char :=
  if Style.ofText text = .plain then text else '\'' :: doubled text ++ ['\'']

theorem singleBody_line {text : List Char} (h : IsLine text) (indent : Nat) :
    singleBody indent false text = doubled text := by
  induction text with
  | nil => rfl
  | cons c rest ih =>
    obtain ⟨hc, hrest⟩ := h.of_cons
    have hbreak : ¬isBreak c = true := by rw [(isPrintable_of_isLine hc).2.1]; decide
    rw [singleBody, if_neg hbreak, ih hrest]
    rfl

/-- What is written of a text on one line does not depend on how far it is indented. -/
theorem scalarText_line {text : List Char} (h : IsLine text) (indent : Nat) :
    scalarText indent text = written text := by
  rw [scalarText, written]
  rcases ofText_line h with hstyle | hstyle
  · rw [hstyle, if_pos rfl]
  · rw [hstyle, if_neg (by decide), singleBody_line h]

theorem isLine_doubled {text : List Char} (h : IsLine text) : IsLine (doubled text) := by
  intro c hc
  obtain ⟨d, hd, hc⟩ := List.mem_flatMap.mp hc
  split at hc
  · simp only [List.mem_cons, List.not_mem_nil, or_false, or_self] at hc
    exact hc ▸ by decide
  · exact List.mem_singleton.mp hc ▸ h d hd

/-- What is written of a text on one line stands on one line. -/
theorem isLine_written {text : List Char} (h : IsLine text) : IsLine (written text) := by
  have hquote : IsLine ['\''] := by decide
  rw [written]
  split
  · exact h
  · exact (hquote.append (isLine_doubled h)).append hquote

/-! ## What is read -/

/-- What a text on one line is read as once it has been written. -/
def readBack (text : String) : Yaml :=
  if Style.ofText text.toList = .plain then ofPlain text.toList else .text text

/-- A text that can stand without quotes, by its characters. -/
structure Plain (text : List Char) : Prop where
  ne_nil : text ≠ []
  noIndicator : (triples none text).any isIndicator = false
  first : text.head? ≠ some ' '
  last : text.getLast? ≠ some ' '
  noMarker : startsMarker text = false

/-- A text is written without quotes if it can be, and looks like no other kind of value to the writer. -/
theorem allowsPlain_of_ofText {text : List Char} (h : Style.ofText text = .plain) :
    looksTyped text = false ∧ allowsPlain text = true := by
  unfold Style.ofText at h
  split at h
  · split at h <;> cases h
  · split at h
    · next hplain => simpa using hplain
    · split at h <;> cases h

/-- A text that is written without quotes is no word with a meaning of its own, and no special number. -/
theorem not_reserved {text : String} (h : Style.ofText text.toList = .plain) :
    text ∉ reservedWords ∧ text ∉ specialReals := by
  have htyped := (allowsPlain_of_ofText h).1
  simp only [looksTyped, String.ofList_toList, Bool.or_eq_false_iff, List.contains_eq_mem,
    decide_eq_false_iff_not] at htyped
  refine ⟨htyped.1.1, fun hmem => ?_⟩
  have hreal := htyped.2
  unfold looksReal at hreal
  rw [String.ofList_toList, if_pos (List.contains_iff_mem.mpr hmem)] at hreal
  cases hreal

/-- A text that is written without quotes can stand without them. -/
theorem plain_of_ofText {text : List Char} (h : Style.ofText text = .plain) : Plain text := by
  obtain ⟨htyped, hallows⟩ := allowsPlain_of_ofText h
  simp only [allowsPlain, Bool.and_eq_true, Bool.not_eq_true', decide_eq_true_eq] at hallows
  obtain ⟨⟨⟨⟨-, hmarker⟩, hindicator⟩, hfirst⟩, hlast⟩ := hallows
  refine ⟨?_, hindicator, hfirst, hlast, hmarker⟩
  rintro rfl
  revert htyped
  decide

namespace Plain

variable {c : Char} {text rest tail : List Char}

/-- The first character is no indicator, and none that would be one if something set it apart. -/
theorem not_leading (h : Plain (c :: rest)) : leadingIndicators.contains c = false := by
  have hfirst := h.noIndicator
  simp only [triples, List.any_cons, isIndicator, Bool.or_eq_false_iff] at hfirst
  exact hfirst.1.1

theorem not_apart (h : Plain (c :: rest)) (hc : c = '?' ∨ c = ':' ∨ c = '-') :
    ∃ d more, rest = d :: more ∧ isBlank d = false := by
  have hfirst := h.noIndicator
  simp only [triples, List.any_cons, isIndicator, Bool.or_eq_false_iff] at hfirst
  have happart : apart? rest.head? = false := by
    have hand := hfirst.1.2
    rcases hc with rfl | rfl | rfl <;> simpa using hand
  cases rest with
  | nil => cases happart
  | cons d more =>
    refine ⟨d, more, rfl, ?_⟩
    by_contra hblank
    rw [List.head?_cons, apart?, isApart_of_isBlank (by simpa using hblank)] at happart
    cases happart

end Plain

/-! ## Texts without quotes -/

/-- Whether what follows ends a key: nothing does, or a colon that is set apart. -/
def EndsWord (tail : List Char) : Prop := tail = [] ∨ ∃ after, tail = ':' :: after ∧ isApartNext after = true

/-- A text without indicators is read up to what ends it. -/
theorem plainSpan_append {tail : List Char} (htail : EndsWord tail) {before : Option Char} {text : List Char}
    (h : (triples before text).any isIndicator = false) :
    plainSpan false (before.any isBlank) (text ++ tail) = text := by
  induction text generalizing before with
  | nil =>
    rcases htail with rfl | ⟨after, rfl, hafter⟩
    · rfl
    · rw [List.nil_append, plainSpan, if_pos]
      simpa [isValueNext, isApartNext] using hafter
  | cons c rest ih =>
    simp only [triples, List.any_cons, Bool.or_eq_false_iff] at h
    obtain ⟨hc, hrest⟩ := h
    have hcolon : (decide (c = ':') && isValueNext false (rest ++ tail)) = false := by
      by_contra hcolon
      obtain ⟨rfl, hnext⟩ : c = ':' ∧ isValueNext false (rest ++ tail) = true := by simpa using hcolon
      -- A colon at the end of the text, or in front of white space, would be an indicator.
      have happart : apart? rest.head? = true := by
        cases rest with
        | nil => rfl
        | cons d more => exact isApart_of_isBlank (by simpa [isValueNext] using hnext)
      revert hc
      cases before <;> simp [isIndicator, happart]
    have hhash : (decide (c = '#') && before.any isBlank) = false := by
      by_contra hhash
      obtain ⟨rfl, hblank⟩ : c = '#' ∧ before.any isBlank = true := by simpa using hhash
      cases before with
      | none => cases hblank
      | some b =>
        have happart : isApart b = true := isApart_of_isBlank hblank
        revert hc
        simp [isIndicator, happart]
    rw [List.cons_append, plainSpan, if_neg (by simp [hcolon, hhash]), show isBlank c = (some c).any isBlank from rfl,
      ih hrest]

namespace Plain

variable {c : Char} {text rest tail : List Char}

/-- A text that can stand without quotes is read as a whole where it does. -/
theorem plainLine_append (h : Plain text) (hline : IsLine text) (htail : EndsWord tail) :
    plainLine false (text ++ tail) = text := by
  have hspan : plainSpan false ((none : Option Char).any isBlank) (text ++ tail) = text :=
    plainSpan_append htail h.noIndicator
  rw [Option.any_none] at hspan
  rw [plainLine, hspan, dropBlanksAtEnd]
  -- The last character is no white space, so nothing is dropped.
  obtain ⟨front, last, rfl⟩ := (List.eq_nil_or_concat' text).resolve_left h.ne_nil
  have hlast : ¬isBlank last = true := by
    rw [isBlank_iff (hline last (by simp))]
    rintro rfl
    exact h.last (by simp)
  rw [List.reverse_append, List.reverse_singleton, List.singleton_append, List.dropWhile_cons_of_neg hlast]
  simp

/-- A text that can stand without quotes starts a scalar. -/
theorem startsPlain_append (h : Plain (c :: rest)) : startsPlain false (c :: (rest ++ tail)) = true := by
  have hleading := h.not_leading
  simp only [leadingIndicators, List.contains_eq_mem, List.mem_cons, List.not_mem_nil, or_false,
    decide_eq_false_iff_not, not_or] at hleading
  have hbracket : isBracketing c = false := by simp [isBracketing, hleading]
  have hothers : ['#', '&', '*', '!', '\'', '"', '%', '@', '\x60'].contains c = false := by simp [hleading]
  have hblock : ¬(decide (c = '|') || decide (c = '>')) = true := by simp [hleading]
  rw [startsPlain, hbracket, hothers, if_neg (by decide), if_neg hblock]
  have happart : c = '?' ∨ c = ':' ∨ c = '-' → isApartNext (rest ++ tail) = false := by
    intro hc
    obtain ⟨d, more, rfl, hd⟩ := h.not_apart hc
    simp [isApartNext, hd]
  by_cases hdash : c = '-'
  · rw [if_pos hdash, happart (Or.inr (Or.inr hdash))]
    rfl
  · rw [if_neg hdash]
    by_cases hmark : c = '?'
    · rw [if_pos hmark, happart (Or.inl hmark)]
      rfl
    · rw [if_neg hmark]
      by_cases hcolon : c = ':'
      · rw [if_pos hcolon]
        have := happart (Or.inr (Or.inl hcolon))
        simpa [isValueNext, isApartNext] using this
      · rw [if_neg hcolon]

end Plain

/-! ## Texts between quotes -/

/-- A text between single quotes is read up to the closing quote. -/
theorem singleLine_doubled (text : List Char) {tail : List Char} (htail : tail.head? ≠ some '\'') :
    singleLine (doubled text ++ '\'' :: tail) = ⟨text.map fun c => (c, decide (c = '\'')), .closed tail⟩ := by
  induction text with
  | nil =>
    cases tail with
    | nil => rfl
    | cons d more =>
      have hd : d ≠ '\'' := fun heq => htail (by rw [heq]; rfl)
      rw [doubled, List.flatMap_nil, List.nil_append, singleLine]
      · rfl
      · simpa using hd
  | cons c rest ih =>
    by_cases hc : c = '\''
    · subst hc
      rw [show doubled ('\'' :: rest) = '\'' :: '\'' :: doubled rest from rfl, List.cons_append, List.cons_append,
        singleLine, ih]
      rfl
    · rw [show doubled (c :: rest) = c :: doubled rest by rw [doubled, List.flatMap_cons, if_neg hc]; rfl,
        List.cons_append, singleLine, ih]
      · simp [QuotePart.push, hc]
      · exact fun _ heq => absurd heq hc
      · exact hc

end Yaml
end ThreatModel
