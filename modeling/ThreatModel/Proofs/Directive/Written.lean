import Mathlib
import ThreatModel.Proofs.Directive.FieldEnd
import ThreatModel.Proofs.Directive.Statement

/-!
# `Proofs.Directive.Written` — statements written as directives

A statement is written as a directive by putting its fields and the words between them behind a keyword, with any
gaps between them, and decoration around the whole. If no field holds the word that comes after it, and the last
one does not end like a comment, then the directive that is found states just this.

## Contents

* `Spaced`, `weave` — pieces with gaps before them, and fields with words between them.
* `clauses?_spaced`, `described?_description`, `wordThenText?_spaced` — the phrase of a written text.
* `Marker.inline`, `Spaced.inline` — what stands on one line.
* `Statement.Printable`, `Statement.Written` — statements that can be written, and the lines that state them.
* `parse_written` — what is found in such a line.
-/

namespace ThreatModel
namespace Directive

open Text

/-! ## Pieces with gaps before them -/

/-- Pieces one after the other, each of them after some gaps. -/
inductive Spaced : List (List Char) → List Char → Prop where
  | nil : Spaced [] []
  | cons {piece gaps text : List Char} {pieces : List (List Char)} : gaps ≠ [] → Gaps gaps → Spaced pieces text →
      Spaced (piece :: pieces) (gaps ++ piece ++ text)

/-- Fields with words between them, as far as there are words. -/
def weave : List (List Char) → List (List Char) → List (List Char)
  | field :: fields, word :: words => field :: word :: weave fields words
  | fields, [] => fields
  | [], _ => []

theorem Spaced.cons_inv {piece text : List Char} {pieces : List (List Char)} (h : Spaced (piece :: pieces) text) :
    ∃ gap more rest, Gaps (gap :: more) ∧ Spaced pieces rest ∧ text = gap :: more ++ piece ++ rest := by
  cases h with
  | @cons _ gaps rest _ hne hgaps hrest =>
    obtain ⟨gap, more, rfl⟩ := List.exists_cons_of_ne_nil hne
    exact ⟨gap, more, rest, hgaps, hrest, rfl⟩

theorem Spaced.nil_inv {text : List Char} (h : Spaced [] text) : text = [] := by
  cases h
  rfl

theorem weave_cons (field : List Char) (fields words : List (List Char)) :
    ∃ pieces, weave (field :: fields) words = field :: pieces := by
  cases words with
  | nil => exact ⟨fields, rfl⟩
  | cons word words => exact ⟨word :: weave fields words, rfl⟩

/-- A first piece that does not start with a gap stands behind all gaps before it. -/
theorem Spaced.dropWhile {piece text : List Char} {pieces : List (List Char)} (h : Spaced (piece :: pieces) text)
    (hpiece : IsField piece) : ∃ rest, Spaced pieces rest ∧
      ∀ behind, (text ++ behind).dropWhile isGap = piece ++ (rest ++ behind) := by
  obtain ⟨gap, gaps, rest, hgaps, hrest, rfl⟩ := h.cons_inv
  refine ⟨rest, hrest, fun behind => ?_⟩
  rw [List.append_assoc, List.append_assoc, dropWhile_gaps_append hgaps, hpiece.dropWhile]

/-- Pieces start with a gap, and do not end with it. -/
theorem Spaced.starts {piece text : List Char} {pieces : List (List Char)} (h : Spaced (piece :: pieces) text)
    (hpiece : IsField piece) : ∃ gap rest, isGap gap = true ∧ rest ≠ [] ∧ text = gap :: rest := by
  obtain ⟨gap, gaps, rest, hgaps, -, rfl⟩ := h.cons_inv
  exact ⟨gap, gaps ++ piece ++ rest, hgaps gap List.mem_cons_self, by simp [hpiece.ne_nil], by simp⟩

/-! ## Written phrases -/

section Phrase

variable {tail : List Char}

/-- A last field after some gaps, and what comes after it. -/
theorem closing?_spaced {field text : List Char} (hfield : IsField field) (hopen : Unclosed field)
    (hspaced : Spaced [field] text) (htail : Tail tail) (hsetOff : SetOff tail) :
    closing? ((text ++ tail).dropWhile isGap) = some (field, tail) := by
  obtain ⟨rest, hrest, hdrop⟩ := hspaced.dropWhile hfield
  rw [hdrop, hrest.nil_inv]
  exact closing?_field hfield hopen htail hsetOff

/-- A gap before a text with clauses makes no difference. -/
theorem clauses?_gap (links : List (List (List Char))) {gap : Char} (hgap : isGap gap = true) (text : List Char) :
    clauses? links (gap :: text) = clauses? links text := by
  cases links with
  | nil => rw [clauses?, clauses?, List.dropWhile_cons_of_pos hgap]
  | cons words links => rw [clauses?, clauses?, List.dropWhile_cons_of_pos hgap]

/-- **Fields with clause words between them** are cut where they were put together, if no field but the last holds
a word that may follow it and the last one does not end in a terminator. -/
theorem clauses?_spaced {links : List (List (List Char))} {words fields : List (List Char)} {text : List Char}
    (hlinks : ∀ ws ∈ links, IsWords ws) (hwords : words.Forall₂ (· ∈ ·) links)
    (hcount : fields.length = links.length + 1) (hfields : ∀ field ∈ fields, IsField field)
    (hclear : ∀ pair ∈ fields.zip links, ∀ word ∈ pair.2, ¬Holds word pair.1)
    (hopen : ∀ field ∈ fields.getLast?, Unclosed field)
    (hspaced : Spaced (weave fields words) text) (htail : Tail tail) (hsetOff : SetOff tail) :
    clauses? links (text ++ tail) = some ⟨fields, words, tail⟩ := by
  induction hwords generalizing fields text with
  | nil =>
    obtain ⟨field, rfl⟩ := List.length_eq_one_iff.mp hcount
    rw [clauses?, closing?_spaced (hfields field List.mem_cons_self) (hopen field rfl) hspaced htail hsetOff,
      Option.map_some]
  | @cons word ws words links hword hwords ih =>
    obtain ⟨field, more, rfl⟩ := List.exists_of_length_succ fields hcount
    have hmoreCount : more.length = links.length + 1 := Nat.succ.inj hcount
    obtain ⟨next, others, rfl⟩ := List.exists_of_length_succ more hmoreCount
    have hfield := hfields field List.mem_cons_self
    have hnext := hfields next (List.mem_cons_of_mem _ List.mem_cons_self)
    -- The text is the field, the word behind it, and a text that starts with the gap before the next field.
    obtain ⟨afterField, hafterField, hdrop⟩ := hspaced.dropWhile hfield
    obtain ⟨gap, gaps, afterWord, hgaps, hafterWord, rfl⟩ := hafterField.cons_inv
    have hrest := ih (fun ws hws => hlinks ws (List.mem_cons_of_mem _ hws)) hmoreCount
      (fun f hf => hfields f (List.mem_cons_of_mem _ hf)) (fun pair hpair => hclear pair (List.mem_cons_of_mem _ hpair))
      hopen hafterWord
    obtain ⟨pieces, hpieces⟩ := weave_cons next others words
    rw [hpieces] at hafterWord
    obtain ⟨last, behind, hlast, hbehind, rfl⟩ := hafterWord.starts hnext
    rw [List.cons_append, clauses?_gap links hlast] at hrest
    have hcut := cut?_field (hlinks ws List.mem_cons_self) hfield
      (fun w hw => hclear (field, ws) List.mem_cons_self w hw) hword (List.cons_ne_nil gap gaps) hgaps hlast
      (List.append_ne_nil_of_left_ne_nil hbehind tail)
    have htext : gap :: gaps ++ word ++ last :: behind ++ tail = gap :: gaps ++ word ++ last :: (behind ++ tail) :=
      List.append_assoc _ _ _
    rw [clauses?, hdrop, htext, hcut, Option.bind_some, hrest, Option.map_some]

theorem isWords_dashes : IsWords [dashes] := isWords_of_all (by decide)

theorem dashes_ne_nil : dashes ≠ [] := (isWords_dashes dashes List.mem_cons_self).1

theorem dashes_not_isGap : ∀ c ∈ dashes, isGap c = false := (isWords_dashes dashes List.mem_cons_self).2

/-- Dashes that stand alone are no terminator, so no description begins in a tail. -/
theorem Tail.link?_dashes (htail : Tail tail) : link? dashes tail = none := by
  obtain ⟨run, hrun, hlone⟩ := htail.lone
  refine hlone.link?_eq_none dashes_ne_nil dashes_not_isGap ?_
  rintro rfl
  rcases hrun with hnil | hterminator
  · exact dashes_ne_nil hnil
  · exact absurd (isTerminator_iff.mpr hterminator) (by decide)

/-- **A name alone** is a declaration without description. -/
theorem described?_name {name text : List Char} (hname : IsField name) (hclear : ¬Holds dashes name)
    (hopen : Unclosed name) (hspaced : Spaced [name] text) (htail : Tail tail) (hsetOff : SetOff tail) :
    described? ((text ++ tail).dropWhile isGap) = some ⟨[name], [], tail⟩ := by
  obtain ⟨rest, hrest, hdrop⟩ := hspaced.dropWhile hname
  rw [hdrop, hrest.nil_inv, List.nil_append]
  apply described?_append hname.ne_nil
  · intro front back hsplit hback
    have hlink := link?_inside dashes_not_isGap hname hclear hsplit hback hsetOff
    exact ⟨hlink, not_tail_inside hname hopen hsplit hback hsetOff⟩
  · intro c
    rw [described?, htail.link?_dashes]
    simp only [isTail_iff.mpr htail, if_true]

/-- **A name and a description** with dashes between them are a declaration with this description. -/
theorem described?_description {name description text : List Char} (hname : IsField name)
    (hclear : ¬Holds dashes name) (hdescription : IsField description) (hopen : Unclosed description)
    (hspaced : Spaced [name, dashes, description] text) (htail : Tail tail) (hsetOff : SetOff tail) :
    described? ((text ++ tail).dropWhile isGap) = some ⟨[name, description], [dashes], tail⟩ := by
  obtain ⟨afterName, hafterName, hdrop⟩ := hspaced.dropWhile hname
  obtain ⟨gap, gaps, afterDashes, hgaps, hafterDashes, rfl⟩ := hafterName.cons_inv
  have hclosing := closing?_spaced hdescription hopen hafterDashes htail hsetOff
  obtain ⟨last, behind, hlast, hbehind, rfl⟩ := hafterDashes.starts hdescription
  rw [List.cons_append, List.dropWhile_cons_of_pos hlast] at hclosing
  have hlink := link?_append dashes_ne_nil dashes_not_isGap (List.cons_ne_nil gap gaps) hgaps hlast
    (List.append_ne_nil_of_left_ne_nil hbehind tail)
  have htext : gap :: gaps ++ dashes ++ last :: behind ++ tail = gap :: gaps ++ dashes ++ last :: (behind ++ tail) :=
    List.append_assoc _ _ _
  rw [hdrop, htext]
  apply described?_append hname.ne_nil
  · intro front back hsplit hback
    have hsetOff' : SetOff (gap :: gaps ++ dashes ++ last :: (behind ++ tail)) := by
      rw [List.append_assoc]
      exact hgaps.setOff (List.cons_ne_nil gap gaps) _
    refine ⟨link?_inside dashes_not_isGap hname hclear hsplit hback hsetOff', fun hinside => ?_⟩
    -- The dashes are in the way of a tail.
    have hdash := (tail_inside (hname.back_ends hsplit hback) hback hsetOff' hinside).1 '-' (by simp [dashes])
    exact absurd hdash (by decide)
  · intro c
    rw [described?, hlink]
    simp only [hclosing]

/-- **A word and a text** after it are cut behind the word. -/
theorem wordThenText?_spaced {word field text : List Char} (hword : IsField word)
    (hspace : ∀ c ∈ word, isSpace c = false) (hfield : IsField field) (hopen : Unclosed field)
    (hspaced : Spaced [word, field] text) (htail : Tail tail) (hsetOff : SetOff tail) :
    wordThenText? ((text ++ tail).dropWhile isGap) = some ⟨[word, field], [], tail⟩ := by
  obtain ⟨afterWord, hafterWord, hdrop⟩ := hspaced.dropWhile hword
  have hclosing := closing?_spaced hfield hopen hafterWord htail hsetOff
  obtain ⟨gap, behind, hgap, -, rfl⟩ := hafterWord.starts hfield
  rw [List.cons_append, List.dropWhile_cons_of_pos hgap] at hclosing
  have hnot : ∀ c ∈ word, (!isSpace c) = true := fun c hc => by simp [hspace c hc]
  have hend : (!isSpace gap) = false := by simp [isSpace_of_isGap hgap]
  have hne : word.isEmpty = false := by simp [hword.ne_nil]
  rw [hdrop, wordThenText?, List.cons_append, List.takeWhile_append_of_pos hnot, List.dropWhile_append_of_pos hnot,
    List.takeWhile_cons, List.dropWhile_cons]
  simp only [hend, Bool.false_eq_true, if_false, List.append_nil, hgap, hne, Bool.not_false, Bool.and_self, if_true,
    hclosing, Option.map_some]

end Phrase

/-! ## Texts on one line -/

instance (text : List Char) : Decidable (Gaps text) := List.decidableBAll _ text

theorem Inline.append {a b : List Char} (ha : Inline a) (hb : Inline b) : Inline (a ++ b) := fun c hc =>
  (List.mem_append.mp hc).elim (ha c) (hb c)

theorem Gaps.inline {text : List Char} (h : Gaps text) : Inline text := by
  intro c hc
  have hgap := h c hc
  constructor
  · rintro rfl
    exact absurd hgap (by decide)
  · rintro rfl
    exact absurd hgap (by decide)

theorem Marker.inline {run : List Char} (h : Marker run) : Inline run := by
  cases h with
  | slashes n | stars n | hashes n | semicolons n =>
    intro c hc
    obtain rfl := List.eq_of_mem_replicate hc
    decide
  | opener n =>
    intro c hc
    rcases List.mem_cons.mp hc with rfl | hc
    · decide
    · obtain rfl := List.eq_of_mem_replicate hc
      decide
  | angle | brackets | dashes => decide

theorem Terminator.inline {run : List Char} (h : Terminator run) : Inline run := by
  cases h with
  | stars n =>
    intro c hc
    simp only [List.mem_append, List.mem_replicate, List.mem_singleton] at hc
    rcases hc with ⟨-, rfl⟩ | rfl <;> decide
  | arrow | brackets => decide

theorem Lead.inline {text : List Char} (h : Lead text) : Inline text := by
  obtain ⟨before, marker, after, hbefore, hafter, hmarker, rfl⟩ := h
  refine (hbefore.inline.append ?_).append hafter.inline
  rcases hmarker with rfl | hmarker
  · decide
  · exact hmarker.inline

theorem Tail.inline {text : List Char} (h : Tail text) : Inline text := by
  obtain ⟨before, terminator, after, hbefore, hafter, hterminator, rfl⟩ := h
  refine (hbefore.inline.append ?_).append hafter.inline
  rcases hterminator with rfl | hterminator
  · decide
  · exact hterminator.inline

theorem inline_keyword {family : Family} {keyword : List Char} (h : keyword ∈ family.keywords) : Inline keyword := by
  have hall : ∀ keyword ∈ family.keywords, Inline keyword := by
    cases family <;> decide
  exact hall keyword h

theorem Spaced.inline {pieces : List (List Char)} {text : List Char} (h : Spaced pieces text)
    (hpieces : ∀ piece ∈ pieces, Inline piece) : Inline text := by
  induction h with
  | nil => decide
  | @cons piece gaps text pieces hne hgaps hrest ih =>
    have hfirst := hgaps.inline.append (hpieces piece List.mem_cons_self)
    exact hfirst.append (ih fun other hother => hpieces other (List.mem_cons_of_mem _ hother))

theorem mem_weave {fields words : List (List Char)} {piece : List Char} (h : piece ∈ weave fields words) :
    piece ∈ fields ∨ piece ∈ words := by
  induction fields, words using weave.induct with
  | case1 field fields word words ih =>
    rw [weave] at h
    rcases List.mem_cons.mp h with rfl | h
    · exact Or.inl List.mem_cons_self
    · rcases List.mem_cons.mp h with rfl | h
      · exact Or.inr List.mem_cons_self
      · exact (ih h).imp (List.mem_cons_of_mem _) (List.mem_cons_of_mem _)
  | case2 fields => exact Or.inl (by rwa [weave.eq_2] at h)
  | case3 words hne => exact absurd h (by simp [weave])

/-! ## Written statements -/

namespace Statement

/-- The words that stand between the fields of a statement. -/
def words : Statement → List (List Char)
  | .declaration _ _ none => []
  | .declaration _ _ (some _) => [dashes]
  | .relation (.mitigation _) => ["against".toList, "with".toList]
  | .relation (.acceptance _) => ["to".toList, "with".toList]
  | .relation (.exposure _) => ["to".toList, "with".toList]
  | .relation (.transfer _) => ["from".toList, "to".toList, "with".toList]
  | .relation (.connection c) => [c.direction.word.toList, "with".toList]
  | .relation (.review _) => []
  | .relation (.test _) => ["for".toList]

/-- The texts of the fields of a statement. -/
def texts (s : Statement) : List (List Char) := s.fields.map String.toList

end Statement

/-- The fields of a form leave no doubt about where they end: a name does not hold the dashes that may follow it, no
field holds one of the words that may follow it, and a word holds no white space. -/
def Form.Clear (fields : List (List Char)) : Form → Prop
  | .described => ∀ name ∈ fields.head?, ¬Holds dashes name
  | .clauses links => ∀ pair ∈ fields.zip links, ∀ word ∈ pair.2, ¬Holds word pair.1
  | .wordThenText => ∀ word ∈ fields.head?, ∀ c ∈ word, isSpace c = false

instance (fields : List (List Char)) : (form : Form) → Decidable (form.Clear fields)
  | .described => inferInstanceAs (Decidable (∀ name ∈ fields.head?, ¬Holds dashes name))
  | .clauses links => inferInstanceAs (Decidable (∀ pair ∈ fields.zip links, ∀ word ∈ pair.2, ¬Holds word pair.1))
  | .wordThenText =>
    have (word : List Char) : Decidable (∀ c ∈ word, isSpace c = false) := List.decidableBAll _ word
    inferInstanceAs (Decidable (∀ word ∈ fields.head?, ∀ c ∈ word, isSpace c = false))

/-- A statement that can be written as a directive. -/
structure Statement.Printable (s : Statement) : Prop where
  fields : ∀ field ∈ s.texts, IsField field
  clear : s.family.form.Clear s.texts
  opens : ∀ field ∈ s.texts.getLast?, Unclosed field

theorem Statement.printable_iff {s : Statement} : s.Printable ↔ (∀ field ∈ s.texts, IsField field) ∧
    s.family.form.Clear s.texts ∧ ∀ field ∈ s.texts.getLast?, Unclosed field :=
  ⟨fun ⟨hfields, hclear, hopens⟩ => ⟨hfields, hclear, hopens⟩,
    fun ⟨hfields, hclear, hopens⟩ => ⟨hfields, hclear, hopens⟩⟩

instance (s : Statement) : Decidable s.Printable := decidable_of_iff _ Statement.printable_iff.symm

/-- The lines that state something: behind what may stand before a directive there is a keyword, and then the
fields with the words between them, all set off by gaps; a tail may follow, set off as well. -/
def Statement.Written (s : Statement) (line : List Char) : Prop :=
  ∃ lead keyword text tail, Lead lead ∧ keyword ∈ s.family.keywords ∧ Spaced (weave s.texts s.words) text ∧
    Tail tail ∧ SetOff tail ∧ line = lead ++ '@' :: (keyword ++ text ++ tail)

/-! ## What is found in a line that states something -/

/-- A relation is made of its own fields. -/
theorem related?_fields (r : Relation) (h : "" ∉ r.fields) :
    Statement.related? r.family (Statement.relation r).words r.fields = some (r.withAnnex {}) := by
  have hcontains : r.fields.contains "" = false := by simpa using h
  unfold Statement.related?
  rw [hcontains]
  cases r with
  | connection c =>
    have hdirection := Direction.ofWord?_word c.direction
    simp only [Relation.family, Relation.fields, Statement.words, List.head?_cons, Option.bind_some,
      String.ofList_toList, hdirection, Option.map_some]
    rfl
  | mitigation m | acceptance a | exposure e | transfer t | review v | test t => rfl

namespace Statement.Printable

variable {s : Statement} {text tail : List Char}

/-- The phrase of a written statement has its fields and its words. -/
theorem phrase? (h : s.Printable) (hspaced : Spaced (weave s.texts s.words) text) (htail : Tail tail)
    (hsetOff : SetOff tail) : Directive.phrase? s.family.form (text ++ tail) = some ⟨s.texts, s.words, tail⟩ := by
  obtain ⟨hfields, hclear, hopens⟩ := h
  cases s with
  | declaration kind name description =>
    have hform : (Statement.declaration kind name description).family.form = .described := by cases kind <;> rfl
    rw [hform] at hclear ⊢
    have hname := hfields name.toList (by cases description <;> simp [texts, Statement.fields])
    have hclearName := hclear name.toList (by cases description <;> rfl)
    cases description with
    | none => exact described?_name hname hclearName (hopens _ rfl) hspaced htail hsetOff
    | some description =>
      have hdescription := hfields description.toList (by simp [texts, Statement.fields])
      exact described?_description hname hclearName hdescription (hopens _ rfl) hspaced htail hsetOff
  | relation r =>
    have hlinks : r.family.form.HasWords := by
      apply Family.form_hasWords
      cases r <;> simp [Relation.family, Family.relations]
    cases r with
    | review v =>
      exact wordThenText?_spaced (hfields _ List.mem_cons_self) (hclear _ rfl)
        (hfields _ (List.mem_cons_of_mem _ List.mem_cons_self)) (hopens _ rfl) hspaced htail hsetOff
    | connection c =>
      refine clauses?_spaced hlinks ?_ rfl hfields hclear hopens hspaced htail hsetOff
      cases hdirection : c.direction <;> simp [words, hdirection, Direction.word]
    | mitigation m | acceptance a | exposure e | transfer t | test t =>
      exact clauses?_spaced hlinks (by simp [words]) rfl hfields hclear hopens hspaced htail hsetOff

/-- The fields of a statement make it again. -/
theorem ofFields? (h : s.Printable) : Statement.ofFields? s.family s.words s.texts = some s.bare := by
  have htrim : (s.texts.map fun field => String.ofList (trim field)) = s.fields := by
    rw [texts, List.map_map]
    conv_rhs => rw [← List.map_id s.fields]
    apply List.map_congr_left
    intro field hfield
    have hfield := h.fields field.toList (List.mem_map_of_mem hfield)
    simp only [Function.comp_apply, trim_eq_self hfield.starts hfield.ends, String.ofList_toList, id_eq]
  have hempty : "" ∉ s.fields := by
    intro hmem
    exact (h.fields _ (List.mem_map_of_mem hmem)).ne_nil rfl
  cases s with
  | declaration kind name description =>
    have hname : name ≠ "" := by
      rintro rfl
      exact hempty (by cases description <;> simp [Statement.fields])
    have hmade : declared? kind (Statement.declaration kind name description).fields
        = some (.declaration kind name description) := by
      cases description with
      | none => rw [Statement.fields, declared?, if_neg hname]
      | some description =>
        have hdescription : description ≠ "" := by
          rintro rfl
          exact hempty (by simp [Statement.fields])
        rw [Statement.fields, declared?, if_neg hname, if_neg hdescription]
    rw [Statement.ofFields?.eq_def, htrim]
    cases kind <;> exact hmade
  | relation r =>
    have hmade := related?_fields r hempty
    rw [Statement.ofFields?.eq_def, htrim]
    have hmap : (related? r.family (Statement.relation r).words r.fields).map relation
        = some (Statement.relation r).bare := by
      rw [hmade]
      rfl
    cases r <;> exact hmap

end Statement.Printable

namespace Statement

theorem texts_ne_nil (s : Statement) : s.texts ≠ [] := by
  cases s with
  | declaration kind name description => cases description <;> simp [texts, fields]
  | relation r => cases r <;> simp [texts, fields, Relation.fields]

theorem weave_ne_nil (s : Statement) : weave s.texts s.words ≠ [] := by
  obtain ⟨field, fields, htexts⟩ := List.exists_cons_of_ne_nil s.texts_ne_nil
  obtain ⟨pieces, hpieces⟩ := weave_cons field fields s.words
  rw [htexts, hpieces]
  exact List.cons_ne_nil field pieces

/-- The words between fields can be fields themselves. -/
theorem isField_words (s : Statement) : ∀ word ∈ s.words, IsField word := by
  cases s with
  | declaration kind name description => cases description <;> (simp only [words]; decide)
  | relation r =>
    cases r with
    | connection c => cases hdirection : c.direction <;> (simp only [words, hdirection]; decide)
    | mitigation m | acceptance a | exposure e | transfer t | review v | test t => simp only [words]; decide

/-- A line that states something is one line. -/
theorem Written.inline {s : Statement} {line : List Char} (hs : s.Printable) (h : s.Written line) : Inline line := by
  obtain ⟨lead, keyword, text, tail, hlead, hkeyword, hspaced, htail, -, rfl⟩ := h
  have htext : Inline text := hspaced.inline fun piece hpiece =>
    ((mem_weave hpiece).elim (hs.fields piece) (s.isField_words piece)).inline
  have hat : Inline ['@'] := by decide
  have hbody := ((inline_keyword hkeyword).append htext).append htail.inline
  exact hlead.inline.append (hat.append hbody)

end Statement

/-- A keyword ends where the pieces behind it begin. -/
theorem takeWhile_spaced {family : Family} {keyword text : List Char} {pieces : List (List Char)} (tail : List Char)
    (hkeyword : keyword ∈ family.keywords) (hspaced : Spaced pieces text) (hne : pieces ≠ []) :
    (keyword ++ text ++ tail).takeWhile (fun c => !isGap c) = keyword ∧
    (keyword ++ text ++ tail).dropWhile (fun c => !isGap c) = text ++ tail := by
  obtain ⟨piece, more, rfl⟩ := List.exists_cons_of_ne_nil hne
  obtain ⟨gap, gaps, rest, hgaps, -, rfl⟩ := hspaced.cons_inv
  have htake := takeWhile_keyword (piece ++ rest ++ tail) hkeyword (List.cons_ne_nil gap gaps) hgaps
  simpa using htake

/-- **A statement that is written is found.** On a line that states something with fields which leave no doubt about
where they end, this is the only directive. -/
theorem parse_written {s : Statement} {line : List Char} (hs : s.Printable) (hline : s.Written line) :
    ∃ o, parse line = [o] ∧ o.family = s.family ∧ o.statement = s.bare ∧ o.line = 0 := by
  have hinline := hline.inline hs
  obtain ⟨lead, keyword, text, tail, hlead, hkeyword, hspaced, htail, hsetOff, heq⟩ := hline
  have hbody := directiveBody?_eq_some_iff.mpr ⟨lead, hlead, heq⟩
  obtain ⟨htake, hdrop⟩ := takeWhile_spaced tail hkeyword hspaced s.weave_ne_nil
  obtain ⟨o, ho, hsays⟩ : ∃ o, occurrence? 0 line = some o ∧
      o.family = s.family ∧ o.statement = s.bare ∧ o.line = 0 := by
    refine ⟨⟨s.family, s.bare, _, 0⟩, occurrence?_eq_some_iff.mpr
      ⟨keyword ++ text ++ tail, ⟨s.texts, s.words, tail⟩, hbody, ?_, ?_, hs.ofFields?, rfl, rfl⟩, rfl, rfl, rfl⟩
    · rw [htake]
      exact ofKeyword?_eq_some_iff.mpr hkeyword
    · rw [hdrop]
      exact hs.phrase? hspaced htail hsetOff
  refine ⟨o, ?_, hsays⟩
  rw [parse_line_eq (fun hc => (hinline _ hc).1 rfl) (fun hc => (hinline _ hc).2 rfl), ho]
  rfl

/-- A connection whose fields hold parts of words, marks and dashes, written in a comment. -/
theorem parse_written_connection :
    let s := Statement.relation (.connection
      { sourceComponent := "Tomato:Api within @home", destinationComponent := "Cache for tests",
        direction := .toward, details := "TLS to Web -- with care" })
    let line := "\t<!-- @connects  Tomato:Api within @home\tto Cache for tests with \tTLS to Web -- with care -->".toList
    s.Printable ∧ s.Written line ∧
      ∃ o, parse line = [o] ∧ o.family = s.family ∧ o.statement = s.bare ∧ o.line = 0 := by
  intro s line
  have hs : s.Printable := by decide +kernel
  have hline : s.Written line := by
    refine ⟨"\t<!-- ".toList, "connects".toList,
      "  ".toList ++ "Tomato:Api within @home".toList ++ ("\t".toList ++ "to".toList ++ (" ".toList ++
        "Cache for tests".toList ++ (" ".toList ++ "with".toList ++ (" \t".toList ++
          "TLS to Web -- with care".toList ++ [])))), " -->".toList, isLead_iff.mp (by decide), by decide, ?_,
      isTail_iff.mp (by decide), by decide, by decide +kernel⟩
    refine .cons ?_ ?_ (.cons ?_ ?_ (.cons ?_ ?_ (.cons ?_ ?_ (.cons ?_ ?_ .nil)))) <;> decide
  exact ⟨hs, hline, parse_written hs hline⟩

end Directive
end ThreatModel
