import Mathlib
import ThreatModel.Proofs.Directive.Decorated

/-!
# `Proofs.Directive.Pieces` — the pieces of a directive

After its keyword the text of a directive holds the fields of the statement and the words between them, one behind the
other. The cut of a text gives its pieces in their order and leaves a tail; trimming a field, and dropping a
description that is blank, keeps this order.

## Contents

* `InOrder` — pieces one behind the other, and `InOrder.mono` for parts of them.
* `Cuts`, `phrase?_cuts` — the pieces of a phrase, and its tail.
* `pieces_of_ofFields?`, `texts_of_ofFields?` — what a statement says are parts of the pieces of its phrase.
* `Layout`, `exists_layout` — a directive as it lies in its segment.
* `Layout.kept`, `Layout.isField_texts` — the text of a directive, and its fields.
-/

namespace ThreatModel

theorem Direction.word_of_ofWord? {word : String} {direction : Direction}
    (h : Direction.ofWord? word = some direction) : direction.word = word := by
  unfold Direction.ofWord? at h
  split at h
  · next hword =>
    obtain rfl := Option.some.inj h
    exact hword.symm
  · split at h
    · next hword =>
      obtain rfl := Option.some.inj h
      exact hword.symm
    · cases h

namespace Directive

open Text

/-! ## Pieces in order -/

/-- Pieces that a text holds one behind the other, without overlap and with anything between them. -/
inductive InOrder : List (List Char) → List Char → Prop where
  | nil (text : List Char) : InOrder [] text
  | cons {piece rest : List Char} {pieces : List (List Char)} (before : List Char) :
      InOrder pieces rest → InOrder (piece :: pieces) (before ++ piece ++ rest)

namespace InOrder

variable {pieces : List (List Char)} {text : List Char}

theorem prepend (h : InOrder pieces text) (front : List Char) : InOrder pieces (front ++ text) := by
  cases h with
  | nil => exact nil _
  | @cons piece rest pieces before hrest =>
    rw [← List.append_assoc, ← List.append_assoc]
    exact cons (front ++ before) hrest

/-- Parts of some of the pieces are in order as well. -/
theorem mono {parts : List (List Char)} (hparts : List.SublistForall₂ (· <:+: ·) parts pieces)
    (h : InOrder pieces text) : InOrder parts text := by
  induction hparts generalizing text with
  | nil => exact nil text
  | @cons part piece parts pieces hpart _ ih =>
    cases h with
    | @cons _ rest _ before hrest =>
      obtain ⟨left, right, rfl⟩ := hpart
      have hsplit : before ++ (left ++ part ++ right) ++ rest = before ++ left ++ part ++ (right ++ rest) := by
        simp only [List.append_assoc]
      rw [hsplit]
      exact cons (before ++ left) ((ih hrest).prepend right)
  | @cons_right piece parts pieces _ ih =>
    cases h with
    | @cons _ rest _ before hrest => exact (ih hrest).prepend (before ++ piece)

/-- Pieces that end in no white space are in order without the white space behind them. -/
theorem of_append_isBlank {front spaces : List Char} (hspaces : isBlank spaces = true)
    (hpieces : ∀ piece ∈ pieces, IsField piece) (h : InOrder pieces (front ++ spaces)) : InOrder pieces front := by
  generalize htext : front ++ spaces = text at h
  induction h generalizing front spaces with
  | nil => exact nil front
  | @cons piece rest pieces before hrest ih =>
    have hmore : ∀ other ∈ pieces, IsField other := fun other hother => hpieces other (List.mem_cons_of_mem _ hother)
    rcases List.append_eq_append_iff.mp htext with ⟨inner, hinner, hback⟩ | ⟨inner, rfl, hback⟩
    · -- The last character of the piece is none of the white space.
      have hpiece := hpieces piece List.mem_cons_self
      obtain rfl : inner = [] := by
        by_contra hne
        have hlast : piece.getLast? = some (inner.getLast hne) := by
          calc piece.getLast?
              = (before ++ piece).getLast? := (List.getLast?_append_of_ne_nil before hpiece.ne_nil).symm
            _ = (front ++ inner).getLast? := congrArg List.getLast? hinner
            _ = inner.getLast? := List.getLast?_append_of_ne_nil front hne
            _ = some (inner.getLast hne) := List.getLast?_eq_some_getLast hne
        have hspace : isSpace (inner.getLast hne) = true :=
          List.all_eq_true.mp hspaces _ (by rw [hback]; exact List.mem_append_left _ (List.getLast_mem hne))
        rw [hpiece.ends _ hlast] at hspace
        cases hspace
      rw [List.append_nil] at hinner
      have hnil : InOrder pieces [] := ih hspaces hmore (by rw [hback]; rfl)
      rw [← hinner, ← List.append_nil (before ++ piece)]
      exact cons before hnil
    · exact cons before (ih hspaces hmore hback.symm)

/-- Every piece is a part of the text. -/
theorem isInfix (h : InOrder pieces text) {piece : List Char} (hpiece : piece ∈ pieces) : piece <:+: text := by
  induction h with
  | nil => cases hpiece
  | @cons first rest pieces before hrest ih =>
    rcases List.mem_cons.mp hpiece with rfl | hmore
    · exact ⟨before, rest, rfl⟩
    · exact (ih hmore).trans (List.suffix_append _ _).isInfix

end InOrder

/-! ## The pieces of a phrase -/

/-- The pieces of a text that is cut, and the tail they leave. -/
def Cuts (text : List Char) (phrase : Phrase) : Prop :=
  ∃ front, text = front ++ phrase.tail ∧ Tail phrase.tail ∧ InOrder (weave phrase.fields phrase.words) front

theorem Cuts.prepend {text : List Char} {phrase : Phrase} (h : Cuts text phrase) (front : List Char) :
    Cuts (front ++ text) phrase := by
  obtain ⟨inner, rfl, htail, hinner⟩ := h
  exact ⟨front ++ inner, (List.append_assoc _ _ _).symm, htail, hinner.prepend front⟩

/-- A field before other pieces. -/
theorem InOrder.field {pieces : List (List Char)} {text : List Char} (field : List Char) (h : InOrder pieces text) :
    InOrder (field :: pieces) (field ++ text) := InOrder.cons [] h

theorem inOrder_singleton (field : List Char) : InOrder [field] field := by
  have hfield := (InOrder.nil []).field field
  rwa [List.append_nil] at hfield

theorem Nearest.cuts {form : Form} {text : List Char} {phrase : Phrase} (h : Nearest form text phrase) :
    Cuts text phrase := by
  induction h with
  | @last field tail hne hstarts htail hshortest =>
    exact ⟨field, rfl, htail, inOrder_singleton field⟩
  | @link words links field behind word rest fields chosen tail hne hstarts hword hlinked hnearest hrest ih =>
    obtain ⟨before, after, -, -, -, -, rfl⟩ := hlinked
    obtain ⟨front, rfl, htail, hfront⟩ := ih
    refine ⟨field ++ (before ++ word ++ (after ++ front)), by simp only [List.append_assoc], htail, ?_⟩
    exact (InOrder.cons before (hfront.prepend after)).field field
  | @word word gaps rest field tail hne hspace hgaps hgapsGaps hrest ih =>
    obtain ⟨front, rfl, htail, hfront⟩ := ih
    refine ⟨word ++ (gaps ++ front), by simp only [List.append_assoc], htail, ?_⟩
    exact (hfront.prepend gaps).field word

/-- The phrases that a name and a description can give. -/
theorem described?_cases {text : List Char} {phrase : Phrase} (h : described? text = some phrase) :
    Cuts text phrase ∧ ∃ name, phrase.fields = [name] ∧ (phrase.words = [] ∨ phrase.words = [dashes]) ∨
      ∃ description, phrase.fields = [name, description] ∧ phrase.words = [dashes] := by
  rw [described?_eq] at h
  split at h
  · next cut hcut =>
    obtain ⟨-, hmem, ⟨behind, rfl, hlink⟩, -⟩ := cut?_eq_some hcut
    obtain ⟨-, before, gap, -, -, -, rfl⟩ := link?_eq_some hlink
    rw [List.mem_singleton.mp hmem]
    split at h
    · next description tail hclosing =>
      obtain rfl := Option.some.inj h
      obtain ⟨-, heq, htail, -⟩ := closing?_eq_some hclosing
      have hrest : cut.rest = cut.rest.takeWhile isGap ++ (description ++ tail) := by
        rw [← heq, List.takeWhile_append_dropWhile]
      refine ⟨⟨cut.field ++ (before ++ dashes ++ (gap :: cut.rest.takeWhile isGap ++ description)), ?_, htail, ?_⟩,
        cut.field, Or.inr ⟨description, rfl, rfl⟩⟩
      · conv_lhs => rw [hrest]
        simp only [List.append_assoc, List.cons_append]
      · exact (InOrder.cons before ((inOrder_singleton description).prepend _)).field cut.field
    · obtain rfl := Option.some.inj h
      refine ⟨⟨_, (List.append_nil _).symm, tail_nil, ?_⟩, cut.field, Or.inl ⟨rfl, Or.inr rfl⟩⟩
      exact (InOrder.cons before (InOrder.nil _)).field cut.field
  · obtain ⟨⟨name, tail⟩, hclosing, rfl⟩ := Option.map_eq_some_iff.mp h
    obtain ⟨-, rfl, htail, -⟩ := closing?_eq_some hclosing
    exact ⟨⟨name, rfl, htail, inOrder_singleton name⟩, name, Or.inl ⟨rfl, Or.inl rfl⟩⟩

/-- **The pieces of a phrase** are found in the text one behind the other, and leave its tail. -/
theorem phrase?_cuts {family : Family} {text : List Char} {phrase : Phrase}
    (h : phrase? family.form text = some phrase) : Cuts text phrase := by
  have hcuts : Cuts (text.dropWhile isGap) phrase := by
    cases family with
    | component | control | threat => exact (described?_cases h).1
    | mitigate | accept | transfer | expose | connect | review | test =>
      exact (nearest_of_phrase? (Family.form_hasWords (by decide)) h).cuts
  have hprepend := hcuts.prepend (text.takeWhile isGap)
  rwa [List.takeWhile_append_dropWhile] at hprepend

/-! ## The pieces of a statement -/

/-- A field without the white space at its ends can be a field, if it is not blank and on one line. -/
theorem isField_trim {text : List Char} (hne : trim text ≠ []) (hinline : Inline text) : IsField (trim text) where
  ne_nil := hne
  inline := fun c hc => hinline c ((isInfix_trim text).subset hc)
  starts := not_isSpace_head_trim text
  ends := not_isSpace_getLast_trimEnd (trimStart text)

theorem mem_weave_of_mem {fields words : List (List Char)} {field : List Char} (h : field ∈ fields) :
    field ∈ weave fields words := by
  induction fields, words using weave.induct with
  | case1 first fields word words ih =>
    rcases List.mem_cons.mp h with rfl | h
    · exact List.mem_cons_self
    · exact List.mem_cons_of_mem _ (List.mem_cons_of_mem _ (ih h))
  | case2 fields => rwa [weave.eq_2]
  | case3 words hne => cases h

theorem weave_trim (fields words : List (List Char)) :
    (weave (fields.map trim) words).Forall₂ (· <:+: ·) (weave fields words) := by
  induction fields, words using weave.induct with
  | case1 field fields word words ih =>
    exact List.Forall₂.cons (isInfix_trim field) (List.Forall₂.cons List.infix_rfl ih)
  | case2 fields =>
    rw [weave.eq_2, weave.eq_2, List.forall₂_map_left_iff, List.forall₂_same]
    exact fun field _ => isInfix_trim field
  | case3 words hne =>
    have hnil : weave [] words = [] := by simp [weave]
    rw [List.map_nil, hnil]
    exact List.Forall₂.nil

/-- The words of a cut are those of its links, one of each. -/
theorem Nearest.words_forall₂ {links : List (List (List Char))} {text : List Char} {phrase : Phrase}
    (h : Nearest (.clauses links) text phrase) : phrase.words.Forall₂ (· ∈ ·) links := by
  induction links generalizing text phrase with
  | nil =>
    cases h
    exact List.Forall₂.nil
  | cons words links ih =>
    cases h with
    | link _ _ hword _ _ hrest => exact List.Forall₂.cons hword (ih hrest)

/-- Where every link has one word only, these are the words of the cut. -/
theorem Nearest.eq_words {words : List (List Char)} {text : List Char} {phrase : Phrase}
    (h : Nearest (.clauses (words.map fun word => [word])) text phrase) : words = phrase.words := by
  have hwords := h.words_forall₂
  rw [List.forall₂_map_right_iff] at hwords
  simp only [List.mem_singleton, List.forall₂_eq_eq_eq] at hwords
  exact hwords.symm

namespace Statement

/-- No field of a relation is empty. -/
theorem not_mem_of_related? {family : Family} {words : List (List Char)} {fields : List String} {r : Relation}
    (h : related? family words fields = some r) : "" ∉ fields := by
  unfold related? at h
  split at h
  · cases h
  · next hempty => simpa using hempty

/-- A relation has the words that were found between its fields. -/
theorem words_of_related? {family : Family} {text : List Char} {phrase : Phrase} {fields : List String} {r : Relation}
    (hnearest : Nearest family.form text phrase) (h : related? family phrase.words fields = some r) :
    (Statement.relation r).words = phrase.words := by
  obtain ⟨rfl, rfl, -⟩ := related?_family h
  cases r with
  | review v =>
    cases hnearest
    rfl
  | connection c =>
    -- The direction is read off the first word.
    have hwords := Nearest.words_forall₂ hnearest
    have hempty : ¬(Relation.connection c).fields.contains "" = true := by simpa using not_mem_of_related? h
    unfold related? at h
    rw [if_neg hempty] at h
    simp only [Relation.family, Relation.fields] at h
    obtain ⟨direction, hdirection, heq⟩ := Option.map_eq_some_iff.mp h
    obtain ⟨word, hhead, hword⟩ := Option.bind_eq_some_iff.mp hdirection
    obtain rfl : direction = c.direction := congrArg Connection.direction (Relation.connection.inj heq)
    generalize phrase.words = words at hwords hhead
    cases hwords with
    | @cons first _ _ _ hfirst hrest =>
      obtain rfl : first = word := Option.some.inj hhead
      cases hrest with
      | @cons second _ _ _ hsecond hnil =>
        cases hnil
        obtain rfl := List.mem_singleton.mp hsecond
        simp only [Statement.words, Direction.word_of_ofWord? hword, String.toList_ofList]
  | mitigation m | acceptance a | exposure e | transfer t | test t =>
    apply Nearest.eq_words
    exact hnearest

/-- A declaration without description has a part of the first piece only. -/
theorem pieces_of_name (kind : EntityKind) (name : List Char) (fields words : List (List Char)) :
    List.SublistForall₂ (· <:+: ·)
      (weave (Statement.declaration kind (String.ofList (trim name)) none).texts []) (weave (name :: fields) words) := by
  obtain ⟨pieces, hpieces⟩ := weave_cons name fields words
  rw [hpieces, texts, Statement.fields, List.map_singleton, String.toList_ofList]
  exact List.SublistForall₂.cons (isInfix_trim name) List.SublistForall₂.nil

theorem pieces_of_declared? {kind : EntityKind} {text : List Char} {phrase : Phrase} {s : Statement}
    (hphrase : described? text = some phrase)
    (h : declared? kind (phrase.fields.map fun field => String.ofList (trim field)) = some s) :
    List.SublistForall₂ (· <:+: ·) (weave s.texts s.words) (weave phrase.fields phrase.words) := by
  obtain ⟨-, name, ⟨hfields, -⟩ | ⟨description, hfields, hwords⟩⟩ := described?_cases hphrase
  · rw [hfields, List.map_singleton, declared?] at h
    split at h
    · cases h
    · obtain rfl := Option.some.inj h
      rw [hfields]
      exact pieces_of_name kind name [] phrase.words
  · rw [hfields, List.map_cons, List.map_singleton, declared?] at h
    rw [hfields, hwords]
    split at h
    · cases h
    · obtain rfl := Option.some.inj h
      split
      · -- The dashes and the blank description are left out.
        exact pieces_of_name kind name [description] [dashes]
      · simp only [texts, Statement.fields, Statement.words, List.map_cons, List.map_nil, String.toList_ofList]
        exact List.SublistForall₂.cons (isInfix_trim name) (List.SublistForall₂.cons List.infix_rfl
          (List.SublistForall₂.cons (isInfix_trim description) List.SublistForall₂.nil))

theorem pieces_of_related? {family : Family} {text : List Char} {phrase : Phrase} {r : Relation}
    (hnearest : Nearest family.form text phrase)
    (h : related? family phrase.words (phrase.fields.map fun field => String.ofList (trim field)) = some r) :
    List.SublistForall₂ (· <:+: ·) (weave (relation r).texts (relation r).words) (weave phrase.fields phrase.words) := by
  have htexts : (relation r).texts = phrase.fields.map trim := by
    rw [texts, Statement.fields, (related?_family h).2.1, List.map_map]
    exact List.map_congr_left fun field _ => String.toList_ofList
  rw [words_of_related? hnearest h, htexts]
  exact List.sublistForall₂_iff.mpr ⟨_, weave_trim _ _, List.Sublist.refl _⟩

/-- **The pieces of a statement** are parts of the pieces of the phrase that it was made of. -/
theorem pieces_of_ofFields? {family : Family} {text : List Char} {phrase : Phrase} {s : Statement}
    (hphrase : Directive.phrase? family.form text = some phrase)
    (h : ofFields? family phrase.words phrase.fields = some s) :
    List.SublistForall₂ (· <:+: ·) (weave s.texts s.words) (weave phrase.fields phrase.words) := by
  cases family with
  | component | control | threat => exact pieces_of_declared? hphrase h
  | mitigate | accept | transfer | expose | connect | review | test =>
    obtain ⟨r, hr, rfl⟩ := Option.map_eq_some_iff.mp h
    exact pieces_of_related? (nearest_of_phrase? (Family.form_hasWords (by decide)) hphrase) hr

/-- A declaration has its name, and a description if that is not empty. -/
theorem fields_of_declared? {kind : EntityKind} {fields : List String} {s : Statement}
    (h : declared? kind fields = some s) : ∀ field ∈ s.fields, field ≠ "" ∧ field ∈ fields := by
  unfold declared? at h
  split at h
  · next name =>
    split at h
    · cases h
    · next hname =>
      obtain rfl := Option.some.inj h
      simpa [Statement.fields] using hname
  · next name description =>
    split at h
    · cases h
    · next hname =>
      obtain rfl := Option.some.inj h
      split
      · simpa [Statement.fields] using hname
      · next hdescription => simp [Statement.fields, hname, hdescription]
  · cases h

/-- **What a statement says** are fields without the white space at their ends, and none of it is empty. -/
theorem texts_of_ofFields? {family : Family} {words fields : List (List Char)} {s : Statement}
    (h : ofFields? family words fields = some s) : ∀ text ∈ s.texts, text ≠ [] ∧ ∃ field ∈ fields, text = trim field := by
  have hsays : ∀ field ∈ s.fields, field ≠ "" ∧ field ∈ fields.map fun field => String.ofList (trim field) := by
    cases family with
    | component | control | threat => exact fields_of_declared? h
    | mitigate | accept | transfer | expose | connect | review | test =>
      obtain ⟨r, hr, rfl⟩ := Option.map_eq_some_iff.mp h
      rw [Statement.fields, (related?_family hr).2.1]
      exact fun field hfield => ⟨fun hnil => not_mem_of_related? hr (hnil ▸ hfield), hfield⟩
  intro text htext
  obtain ⟨field, hfield, rfl⟩ := List.mem_map.mp htext
  obtain ⟨hne, hmem⟩ := hsays field hfield
  obtain ⟨other, hother, rfl⟩ := List.mem_map.mp hmem
  exact ⟨fun hnil => hne (String.toList_eq_nil_iff.mp hnil), other, hother, String.toList_ofList⟩

end Statement

/-! ## A directive in its segment -/

/-- How a directive lies in its segment: what stands before it, its keyword, the text behind the keyword up to the tail,
and the phrase that was cut. -/
structure Layout (o : Occurrence) (segment lead keyword text : List Char) (phrase : Phrase) : Prop where
  isLead : Lead lead
  mem_keywords : keyword ∈ o.family.keywords
  setOff : SetOff (text ++ phrase.tail)
  segment_eq : segment = lead ++ '@' :: (keyword ++ text) ++ phrase.tail
  phrase?_eq : phrase? o.family.form (text ++ phrase.tail) = some phrase
  isTail : Tail phrase.tail
  inOrder : InOrder (weave phrase.fields phrase.words) text
  ofFields?_eq : Statement.ofFields? o.family phrase.words phrase.fields = some o.statement
  text_eq : o.text.toList = trim ('@' :: (keyword ++ text))

/-- **A directive lies in its segment** behind a lead and before a tail. -/
theorem exists_layout {line : Nat} {segment : List Char} {o : Occurrence} (h : occurrence? line segment = some o) :
    ∃ lead keyword text phrase, Layout o segment lead keyword text phrase := by
  obtain ⟨body, phrase, hbody, hkeyword, hphrase, hstatement, htext, -⟩ := occurrence?_eq_some_iff.mp h
  obtain ⟨lead, hlead, rfl⟩ := directiveBody?_eq_some_iff.mp hbody
  have hsetOff := setOff_dropWhile body
  have hsplit : body = body.takeWhile (fun c => !isGap c) ++ body.dropWhile fun c => !isGap c :=
    List.takeWhile_append_dropWhile.symm
  obtain ⟨text, hcut, htail, hpieces⟩ := phrase?_cuts hphrase
  rw [hcut] at hphrase hsetOff hsplit
  generalize body.takeWhile (fun c => !isGap c) = keyword at hkeyword hsplit
  subst hsplit
  refine ⟨lead, keyword, text, phrase, hlead, ofKeyword?_eq_some_iff.mp hkeyword, hsetOff, by simp, hphrase, htail,
    hpieces, hstatement, ?_⟩
  have hlength : (keyword ++ (text ++ phrase.tail)).length - phrase.tail.length = (keyword ++ text).length := by
    simp only [List.length_append]
    omega
  rw [htext, hlength, ← List.append_assoc, List.take_left, String.toList_ofList]

theorem SetOff.front {front back : List Char} (h : SetOff (front ++ back)) : SetOff front := by
  intro c hc
  exact h c (by rw [List.head?_append, hc]; rfl)

section Layout

variable {o : Occurrence} {segment lead keyword text : List Char} {phrase : Phrase}

/-- What a directive on one line says are fields. -/
theorem Layout.isField_texts (h : Layout o segment lead keyword text phrase) (hinline : Inline segment) :
    ∀ field ∈ o.statement.texts, IsField field := by
  intro field hfield
  obtain ⟨hne, other, hother, rfl⟩ := Statement.texts_of_ofFields? h.ofFields?_eq field hfield
  have hpart : other <:+: text := h.inOrder.isInfix (mem_weave_of_mem hother)
  refine isField_trim hne fun c hc => hinline c ?_
  rw [h.segment_eq]
  simp [hpart.subset hc]

/-- **The text of a directive** is its keyword and what stands behind it, without the white space before the tail. It
holds the pieces of the statement. -/
theorem Layout.kept (h : Layout o segment lead keyword text phrase) (hinline : Inline segment) :
    InOrder (weave o.statement.texts o.statement.words) (trimEnd text) ∧ trimEnd text ≠ [] ∧
      o.text.toList = '@' :: (keyword ++ trimEnd text) := by
  have hall : ∀ piece ∈ weave o.statement.texts o.statement.words, IsField piece := fun piece hpiece =>
    (mem_weave hpiece).elim (h.isField_texts hinline piece) (o.statement.isField_words piece)
  have hpieces : InOrder (weave o.statement.texts o.statement.words) (trimEnd text) := by
    obtain ⟨spaces, hspaces, hsplit⟩ := exists_eq_trimEnd_append text
    have horder := h.inOrder.mono (Statement.pieces_of_ofFields? h.phrase?_eq h.ofFields?_eq)
    rw [hsplit] at horder
    exact horder.of_append_isBlank hspaces hall
  have hne : trimEnd text ≠ [] := by
    intro hnil
    obtain ⟨piece, hpiece⟩ := List.exists_mem_of_ne_nil _ o.statement.weave_ne_nil
    have hpart := hpieces.isInfix hpiece
    rw [hnil, List.infix_nil] at hpart
    exact (hall piece hpiece).ne_nil hpart
  have hstart : trimStart ('@' :: (keyword ++ text)) = '@' :: keyword ++ text := List.dropWhile_cons_of_neg (by decide)
  refine ⟨hpieces, hne, ?_⟩
  rw [h.text_eq, trim, hstart, trimEnd_append hne]
  rfl

end Layout

end Directive
end ThreatModel
