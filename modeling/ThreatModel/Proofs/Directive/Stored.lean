import Mathlib
import ThreatModel.Proofs.Directive.Pieces
import ThreatModel.Proofs.Directive.TextOrder

/-!
# `Proofs.Directive.Stored` — the stored text of a directive

A relation keeps the text of its directive, without what stood around it and without white space at the ends. This
text states the same relation again, unless it ends like a comment: the cut that was taken in the longer line is taken
in the shorter one, up to the end of the last field.

## Contents

* `link?_of_append`, `cut?_of_append` — a cut that leaves some text is found with less text behind it.
* `CutsShort`, `phrase?_cutsShort` — a text is cut the same without the end of its last field.
* `trimEnd_ne_nil_of_ofFields?` — no field of a relation is blank.
* `occurrence?_bare`, `occurrence?_text` — the directive of a line without decoration, and of the stored text.
* `parse_text_of_mem_parse` — what is found in it.
-/

namespace ThreatModel
namespace Directive

open Text

/-! ## Cuts with less text behind them -/

section Shorter

variable {text rest behind : List Char}

/-- A clause word is found with less text behind it, as long as some is left. -/
theorem link?_of_append {word : List Char} (hne : word ≠ []) (hword : ∀ c ∈ word, isGap c = false)
    (hrest : rest ≠ []) (h : link? word (text ++ behind) = some (rest ++ behind)) : link? word text = some rest := by
  obtain ⟨-, before, gap, hbefore, hgaps, hgap, heq⟩ := link?_eq_some h
  rw [← List.cons_append, ← List.append_assoc, List.append_cancel_right_eq] at heq
  rw [heq]
  exact link?_append hne hword hbefore hgaps hgap hrest

/-- The nearest cut of a text is the nearest one with less text behind it, as long as some is left. -/
theorem cut?_of_append {words : List (List Char)} (hwords : IsWords words) {field word : List Char} (hrest : rest ≠ [])
    (h : cut? words (text ++ behind) = some ⟨field, word, rest ++ behind⟩) :
    cut? words text = some ⟨field, word, rest⟩ := by
  induction text generalizing field with
  | nil =>
    -- More is left than there was.
    obtain ⟨-, -, ⟨after, heq, hlink⟩, -⟩ := cut?_eq_some h
    obtain ⟨-, before, gap, -, -, -, rfl⟩ := link?_eq_some hlink
    have hlength := congrArg List.length heq
    simp only [List.nil_append, List.length_append, List.length_cons] at hlength
    omega
  | cons c text ih =>
    rw [List.cons_append, cut?] at h
    split at h
    · next found left hfind =>
      obtain ⟨rfl, rfl, rfl⟩ := Cut.mk.inj (Option.some.inj h)
      -- The same word of the list is the first to be found.
      obtain ⟨front, w, back, rfl, hw, hfront⟩ := List.findSome?_eq_some_iff.mp hfind
      obtain ⟨_, hlink, heq⟩ := Option.map_eq_some_iff.mp hw
      obtain ⟨rfl, rfl⟩ := Prod.mk.inj heq
      obtain ⟨hne, hword⟩ := hwords w (by simp)
      have hfirst : (front ++ w :: back).findSome? (fun word => (link? word text).map (Prod.mk word))
          = some (w, rest) := by
        refine List.findSome?_eq_some_iff.mpr ⟨front, w, back, rfl, ?_, fun other hother => ?_⟩
        · rw [link?_of_append hne hword hrest hlink, Option.map_some]
        · obtain ⟨hotherNe, hotherWord⟩ := hwords other (by simp [hother])
          cases hlater : link? other text with
          | none => rfl
          | some found =>
            have hnone := hfront other hother
            rw [link?_append_some hotherNe hotherWord hlater behind] at hnone
            cases hnone
      rw [cut?, hfirst]
    · next hfind =>
      obtain ⟨inner, hinner, heq⟩ := Option.map_eq_some_iff.mp h
      obtain ⟨rfl, rfl, hleft⟩ := Cut.mk.inj heq
      have hlinks : ∀ word ∈ words, link? word text = none := by
        intro word hmem
        obtain ⟨hne, hword⟩ := hwords word hmem
        cases hlater : link? word text with
        | none => rfl
        | some found =>
          have hnone := List.findSome?_eq_none_iff.mp hfind word hmem
          rw [link?_append_some hne hword hlater behind] at hnone
          cases hnone
      have hcut : cut? words text = some ⟨inner.field, inner.word, rest⟩ := ih (by rw [hinner, ← hleft])
      rw [cut?_cons_of_forall_none hlinks, hcut, Option.map_some]

end Shorter

/-! ## Phrases without the end of their last field -/

/-- A text whose phrase is the same without the end of its last field, as long as what is left of this field ends in a
word and not like a comment. -/
def CutsShort (cut : List Char → Option Phrase) (text : List Char) (phrase : Phrase) : Prop :=
  ∃ front fields last, phrase.fields = fields ++ [last] ∧ text = front ++ last ++ phrase.tail ∧
    ∀ kept spaces, last = kept ++ spaces → kept ≠ [] → Ends kept → Unclosed kept →
      cut (front ++ kept) = some ⟨fields ++ [kept], phrase.words, []⟩

theorem Starts.front {front back : List Char} (h : Starts (front ++ back)) : Starts front := by
  intro c hc
  exact h c (by rw [List.head?_append, hc]; rfl)

theorem Starts.dropWhile {text gaps : List Char} (h : Starts text) (hgaps : Gaps gaps) :
    (gaps ++ text).dropWhile isGap = text := by
  rw [dropWhile_gaps_append hgaps]
  cases text with
  | nil => rfl
  | cons c rest => exact dropWhile_of_not_isGap (h c rfl)

/-- What is left of a last field is a last field. -/
theorem closing?_kept {field kept spaces tail gaps : List Char} (hgaps : Gaps gaps) (hstarts : Starts (field ++ tail))
    (hsplit : field = kept ++ spaces) (hne : kept ≠ []) (hends : Ends kept) (hopen : Unclosed kept) :
    closing? ((gaps ++ kept).dropWhile isGap) = some (kept, []) := by
  rw [hsplit, List.append_assoc] at hstarts
  have hclosing := closing?_unclosed hne hends hopen tail_nil (by decide)
  rw [List.append_nil] at hclosing
  rw [hstarts.front.dropWhile hgaps, hclosing]

/-- **Fields with clause words between them** are cut the same without the end of the last one. -/
theorem clauses?_cutsShort {links : List (List (List Char))} (hlinks : ∀ words ∈ links, IsWords words)
    {text : List Char} {phrase : Phrase} (h : clauses? links text = some phrase) :
    CutsShort (clauses? links) text phrase := by
  induction links generalizing text phrase with
  | nil =>
    obtain ⟨⟨field, tail⟩, hclosing, rfl⟩ := Option.map_eq_some_iff.mp h
    obtain ⟨-, heq, -, -⟩ := closing?_eq_some hclosing
    have hstarts := starts_dropWhile text
    rw [heq] at hstarts
    refine ⟨text.takeWhile isGap, [], field, rfl, ?_, fun kept spaces hsplit hne hends hopen => ?_⟩
    · rw [List.append_assoc, ← heq, List.takeWhile_append_dropWhile]
    · rw [clauses?, closing?_kept (gaps_takeWhile text) hstarts hsplit hne hends hopen, Option.map_some]
      rfl
  | cons words links ih =>
    obtain ⟨⟨field, word, rest⟩, hcut, hrest⟩ := Option.bind_eq_some_iff.mp h
    obtain ⟨phrase, hphrase, rfl⟩ := Option.map_eq_some_iff.mp hrest
    obtain ⟨front, fields, last, hfields, rfl, hkept⟩ :=
      ih (fun ws hws => hlinks ws (List.mem_cons_of_mem _ hws)) hphrase
    obtain ⟨-, -, ⟨behind, heq, hlink⟩, -⟩ := cut?_eq_some hcut
    obtain ⟨-, before, gap, -, -, -, rfl⟩ := link?_eq_some hlink
    have hstarts := starts_dropWhile text
    have hdrop : ∀ kept behind, last ++ phrase.tail = kept ++ behind →
        text.dropWhile isGap = field ++ before ++ word ++ gap :: front ++ kept ++ behind := by
      intro kept behind hsame
      rw [heq, List.append_assoc front, hsame]
      simp only [List.append_assoc, List.cons_append]
    refine ⟨text.takeWhile isGap ++ (field ++ before ++ word ++ gap :: front), field :: fields, last, ?_, ?_, ?_⟩
    · rw [hfields, List.cons_append]
    · have hwhole := hdrop last phrase.tail rfl
      rw [List.append_assoc, List.append_assoc, ← List.append_assoc _ last, ← hwhole, List.takeWhile_append_dropWhile]
    · intro kept spaces hsplit hne hends hopen
      have hsame : last ++ phrase.tail = kept ++ (spaces ++ phrase.tail) := by rw [hsplit, List.append_assoc]
      have hlonger := hdrop kept (spaces ++ phrase.tail) hsame
      rw [hlonger] at hstarts hcut
      rw [List.append_assoc front, hsame, ← List.append_assoc front] at hcut
      have hshorter := cut?_of_append (hlinks words List.mem_cons_self) (by simp [hne]) hcut
      rw [clauses?, List.append_assoc, hstarts.front.dropWhile (gaps_takeWhile text), hshorter, Option.bind_some,
        hkept kept spaces hsplit hne hends hopen, Option.map_some]
      rfl

/-- **The phrase of a text** is the same without the end of its last field. -/
theorem phrase?_cutsShort {form : Form} (hform : form.HasWords) {text : List Char} {phrase : Phrase}
    (h : phrase? form text = some phrase) : CutsShort (phrase? form) text phrase := by
  cases form with
  | described => exact hform.elim
  | clauses links => exact clauses?_cutsShort hform h
  | wordThenText =>
    have hnearest := nearest_of_phrase? hform h
    have hstarts := starts_dropWhile text
    have hgaps := gaps_takeWhile text
    have hsplit : text = text.takeWhile isGap ++ text.dropWhile isGap := List.takeWhile_append_dropWhile.symm
    generalize text.dropWhile isGap = body at hnearest hstarts hsplit
    generalize text.takeWhile isGap = lead at hgaps hsplit
    subst hsplit
    cases hnearest with
    | @word word between rest field tail hword hspace hbetween hbetweenGaps hlast =>
      cases hlast with
      | last hne hfieldStarts htail hshortest =>
        refine ⟨lead ++ (word ++ between), [word], field, rfl, by simp only [List.append_assoc], ?_⟩
        intro kept spaces hfield hkept hends hopen
        rw [hfield, List.append_assoc kept, ← List.append_assoc _ kept] at hstarts
        rw [phrase?, List.append_assoc lead, hstarts.front.dropWhile hgaps, List.append_assoc,
          wordThenText?_word hword hspace (hbetweenGaps.setOff hbetween kept),
          closing?_kept hbetweenGaps hfieldStarts hfield hkept hends hopen, Option.map_some]
        rfl

/-! ## The stored text -/

/-- No field of a relation is blank. -/
theorem trimEnd_ne_nil_of_ofFields? {family : Family} (hfamily : family ∈ Family.relations)
    {words fields : List (List Char)} {s : Statement} (h : Statement.ofFields? family words fields = some s) :
    ∀ field ∈ fields, trimEnd field ≠ [] := by
  have hrelated : ∃ r, Statement.related? family words (fields.map fun field => String.ofList (trim field)) = some r := by
    cases family with
    | component | control | threat => exact absurd hfamily (by decide)
    | mitigate | accept | transfer | expose | connect | review | test =>
      obtain ⟨r, hr, -⟩ := Option.map_eq_some_iff.mp h
      exact ⟨r, hr⟩
  obtain ⟨r, hr⟩ := hrelated
  intro field hfield hnil
  obtain ⟨spaces, hspaces, hsplit⟩ := exists_eq_trimEnd_append field
  have hblank : trim field = [] := by
    rw [hsplit, trim_append_of_isBlank hspaces, hnil]
    rfl
  exact Statement.not_mem_of_related? hr (List.mem_map.mpr ⟨field, hfield, by rw [hblank]⟩)

/-- Fields that are the same without the white space at their ends say the same. -/
theorem ofFields?_congr {fields others : List (List Char)} (h : fields.map trim = others.map trim) (family : Family)
    (words : List (List Char)) : Statement.ofFields? family words fields = Statement.ofFields? family words others := by
  have hstrings : ∀ fields : List (List Char),
      (fields.map fun field => String.ofList (trim field)) = (fields.map trim).map String.ofList := by
    intro fields
    rw [List.map_map]
    rfl
  simp only [Statement.ofFields?.eq_def, hstrings, h]

/-- The directive of a line that is a keyword and a text which is cut without a tail. -/
theorem occurrence?_bare (line : Nat) {family : Family} {keyword text : List Char} {fields words : List (List Char)}
    {s : Statement} (hkeyword : keyword ∈ family.keywords) (hsetOff : SetOff text)
    (hphrase : phrase? family.form text = some ⟨fields, words, []⟩)
    (hstatement : Statement.ofFields? family words fields = some s) :
    occurrence? line ('@' :: (keyword ++ text))
      = some ⟨family, s, String.ofList (trim ('@' :: (keyword ++ text))), line⟩ := by
  have hgap : ∀ c ∈ keyword, (!isGap c) = true := fun c hc => by simp [keyword_not_isGap hkeyword c hc]
  obtain ⟨htake, hdrop⟩ := takeWhile_behind keyword hsetOff
  rw [List.takeWhile_eq_self_iff.mpr hgap] at htake
  rw [List.dropWhile_eq_nil_iff.mpr hgap, List.nil_append] at hdrop
  refine occurrence?_eq_some_iff.mpr ⟨keyword ++ text, ⟨fields, words, []⟩,
    directiveBody?_eq_some_iff.mpr ⟨[], lead_nil, rfl⟩, ?_, ?_, hstatement, ?_, rfl⟩
  · rw [htake]
    exact ofKeyword?_eq_some_iff.mpr hkeyword
  · rw [hdrop]
    exact hphrase
  · rw [List.length_nil, Nat.sub_zero, List.take_length]

/-- **The stored text of a relation** holds its directive, up to the line, if it does not end like a comment. -/
theorem occurrence?_text {line : Nat} {segment : List Char} {o : Occurrence} (hfamily : o.family ∈ Family.relations)
    (hinline : Inline segment) (h : occurrence? line segment = some o) (hopen : Unclosed o.text.toList) :
    Inline o.text.toList ∧ occurrence? 0 o.text.toList = some (o.atLine 0) := by
  obtain ⟨lead, keyword, text, phrase, hlayout⟩ := exists_layout h
  obtain ⟨-, -, htext⟩ := hlayout.kept hinline
  obtain ⟨front, fields, last, hfields, hsplit, hcut⟩ :=
    phrase?_cutsShort (Family.form_hasWords hfamily) hlayout.phrase?_eq
  obtain rfl : text = front ++ last := List.append_cancel_right hsplit
  -- The stored text keeps the last field without the white space at its end.
  have hlast : trimEnd last ≠ [] :=
    trimEnd_ne_nil_of_ofFields? hfamily hlayout.ofFields?_eq last (by simp [hfields])
  rw [trimEnd_append hlast] at htext
  have hends : ∀ c ∈ (trimEnd last).getLast?, isSpace c = false := not_isSpace_getLast_trimEnd last
  obtain ⟨spaces, hspaces, hlastSplit⟩ := exists_eq_trimEnd_append last
  generalize trimEnd last = kept at hlast hends hlastSplit htext
  have hkept : Unclosed kept := by
    rw [htext, ← List.append_assoc, ← List.cons_append] at hopen
    exact hopen.back
  have hphrase := hcut kept spaces hlastSplit hlast (fun c hc => not_isGap_of_not_isSpace (hends c hc)) hkept
  have hsetOff : SetOff (front ++ kept) := by
    have hfront := hlayout.setOff.front
    rw [hlastSplit, ← List.append_assoc] at hfront
    exact hfront.front
  have hstatement : Statement.ofFields? o.family phrase.words (fields ++ [kept]) = some o.statement := by
    refine Eq.trans (ofFields?_congr ?_ o.family phrase.words) hlayout.ofFields?_eq
    rw [hfields, List.map_append, List.map_append, List.map_singleton, List.map_singleton, hlastSplit,
      trim_append_of_isBlank hspaces]
  have htrim : trim o.text.toList = o.text.toList := by
    rw [htext]
    refine trim_eq_self (by simp [isSpace]) ?_
    rwa [← List.cons_append, ← List.append_assoc, List.getLast?_append_of_ne_nil _ hlast]
  constructor
  · intro c hc
    refine hinline c ?_
    rw [htext] at hc
    rw [hlayout.segment_eq, hlastSplit]
    simp only [List.mem_append, List.mem_cons] at hc ⊢
    tauto
  · have hfound := occurrence?_bare 0 hlayout.mem_keywords hsetOff hphrase hstatement
    rw [← htext, htrim, String.ofList_toList] at hfound
    exact hfound

/-- Every directive that a text lists is found in a stretch without line ends. -/
theorem exists_segment_of_mem_parse {text : List Char} {o : Occurrence} (h : o ∈ parse text) :
    ∃ segment, Inline segment ∧ occurrence? o.line segment = some o := by
  have hmem := (parse_perm_inTextOrder text).mem_iff.mp h
  rw [inTextOrder, found_eq, ← List.flatMap_def] at hmem
  obtain ⟨⟨part, number⟩, hpart, ho⟩ := List.mem_flatMap.mp hmem
  obtain ⟨segment, hsegment, hfound⟩ := List.mem_filterMap.mp ho
  obtain ⟨-, hfeed⟩ := sublist_of_mem_splitOn (List.fst_mem_of_mem_zipIdx hpart)
  obtain ⟨hsub, hreturn⟩ := sublist_of_mem_splitOn hsegment
  refine ⟨segment, fun c hc => ⟨?_, ?_⟩, by rw [line_of_mem_lineOccurrences ho, hfound]⟩
  · rintro rfl
    exact hfeed (hsub.subset hc)
  · rintro rfl
    exact hreturn hc

/-- **The stored text of a relation can be read again.** If it does not end like a comment, what is found in it is the
same directive, with the same text, on its only line. -/
theorem parse_text_of_mem_parse {text : List Char} {o : Occurrence} (ho : o ∈ parse text)
    (hfamily : o.family ∈ Family.relations) (hopen : Unclosed o.text.toList) :
    parse o.text.toList = [o.atLine 0] := by
  obtain ⟨segment, hinline, hfound⟩ := exists_segment_of_mem_parse ho
  obtain ⟨htext, hagain⟩ := occurrence?_text hfamily hinline hfound hopen
  rw [parse_inline htext, hagain]
  rfl

/-- A connection in a comment on the second line, with a clause word in its details, and with a no-break space between
them and the terminator. -/
theorem parse_text_of_mem_parse_connection :
    let text := "let x;\r\n\t/* @connects Web  to Api with TLS with care\u00a0 **/\n// @review".toList
    ∃ o ∈ parse text, o.family ∈ Family.relations ∧ o.line = 1 ∧ o.text = "@connects Web  to Api with TLS with care" ∧
      Unclosed o.text.toList ∧ parse o.text.toList = [o.atLine 0] := by
  intro text
  have hlisting : (parse text).map (fun o => (o.family, o.line, o.text))
      = [(.connect, 1, "@connects Web  to Api with TLS with care")] := by decide +kernel
  obtain ⟨o, rest, hparse, heq, -⟩ := List.map_eq_cons_iff.mp hlisting
  simp only [Prod.mk.injEq] at heq
  obtain ⟨hfamily, hline, htext⟩ := heq
  have ho : o ∈ parse text := by simp [hparse]
  have hrelation : o.family ∈ Family.relations := by
    rw [hfamily]
    decide
  have hopen : Unclosed o.text.toList := by
    rw [htext]
    decide +kernel
  exact ⟨o, ho, hrelation, hline, htext, hopen, parse_text_of_mem_parse ho hrelation hopen⟩

-- Of two terminators the first one belongs to the stored text, where it is taken for the end of a comment.
example : (parse "@review Api now */ */".toList).map (·.text) = ["@review Api now */"] ∧
    (parse "@review Api now */".toList).map (·.text) = ["@review Api now"] := by decide +kernel

end Directive
end ThreatModel
