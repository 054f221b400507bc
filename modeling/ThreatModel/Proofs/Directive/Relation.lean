import Mathlib
import ThreatModel.Proofs.Directive.Lines
import ThreatModel.Proofs.Directive.Phrase

/-!
# `Proofs.Directive.Relation` — when a line states a relation, and which one

On a line whose white space is spaces and tabs, a relation is found exactly if the line can be taken apart as its
family is written, in any way. The relation that is found is the one of the nearest way.

## Contents

* `Relation.family`, `Relation.fields`, `Relation.direction?` — what a relation record holds, in the order in
  which its directive states it.
* `Opens` — a line that opens with a keyword.
* `occurrence?_eq_some_iff` — the directive of a segment.
* `parse_line_eq` — the directives of a line without line ends.
* `Nearest.exists_relation` — the relation that a cut stands for.
* `parse_relation_iff` — when a relation is found, and which one.
-/

namespace ThreatModel

/-- The family whose directives state relations of a sort. -/
def Relation.family : Relation → Directive.Family
  | .mitigation _ => .mitigate
  | .acceptance _ => .accept
  | .exposure _ => .expose
  | .transfer _ => .transfer
  | .connection _ => .connect
  | .review _ => .review
  | .test _ => .test

/-- What a directive has to say of a relation, in the order in which it says it. -/
def Relation.fields : Relation → List String
  | .mitigation m => [m.component, m.threat, m.control]
  | .acceptance a => [a.threat, a.component, a.details]
  | .exposure e => [e.component, e.threat, e.details]
  | .transfer t => [t.threat, t.sourceComponent, t.destinationComponent, t.details]
  | .connection c => [c.sourceComponent, c.destinationComponent, c.details]
  | .review r => [r.component, r.details]
  | .test t => [t.control, t.component]

/-- The direction of a relation that has one. -/
def Relation.direction? : Relation → Option Direction
  | .connection c => some c.direction
  | _ => none

namespace Directive

open Text

/-! ## Lines that open with a keyword -/

/-- A line that opens with a keyword of a family after what may stand before it, and the text after the
keyword. -/
def Opens (family : Family) (line text : List Char) : Prop :=
  ∃ lead keyword gaps, Lead lead ∧ keyword ∈ family.keywords ∧ gaps ≠ [] ∧ Gaps gaps ∧
    line = lead ++ '@' :: (keyword ++ gaps ++ text)

theorem keyword_not_isGap {family : Family} {keyword : List Char} (h : keyword ∈ family.keywords) :
    ∀ c ∈ keyword, isGap c = false := by
  have hwords : IsWords family.keywords := isWords_of_all (by cases family <;> decide)
  exact (hwords keyword h).2

/-- No keyword belongs to two families. -/
theorem ofKeyword?_eq_some_iff {family : Family} {keyword : List Char} :
    Family.ofKeyword? keyword = some family ↔ keyword ∈ family.keywords := by
  constructor
  · intro h
    simpa using List.find?_some h
  · intro h
    have hall : ∀ family : Family, ∀ keyword ∈ family.keywords, Family.ofKeyword? keyword = some family := by
      intro family
      cases family <;> decide
    exact hall family keyword h

theorem takeWhile_keyword {family : Family} {keyword gaps : List Char} (text : List Char)
    (h : keyword ∈ family.keywords) (hne : gaps ≠ []) (hgaps : Gaps gaps) :
    (keyword ++ gaps ++ text).takeWhile (fun c => !isGap c) = keyword ∧
    (keyword ++ gaps ++ text).dropWhile (fun c => !isGap c) = gaps ++ text := by
  obtain ⟨gap, more, rfl⟩ := List.exists_cons_of_ne_nil hne
  have hgap := hgaps gap List.mem_cons_self
  have hnot : ∀ c ∈ keyword, (!isGap c) = true := fun c hc => by simp [keyword_not_isGap h c hc]
  rw [List.append_assoc, List.takeWhile_append_of_pos hnot, List.dropWhile_append_of_pos hnot]
  simp [hgap]

/-! ## The directive of a segment -/

/-- What a segment has to hold for a directive to be found in it, stage by stage. -/
theorem occurrence?_eq_some_iff {line : Nat} {segment : List Char} {o : Occurrence} :
    occurrence? line segment = some o ↔ ∃ body phrase, directiveBody? segment = some body ∧
      Family.ofKeyword? (body.takeWhile fun c => !isGap c) = some o.family ∧
      phrase? o.family.form (body.dropWhile fun c => !isGap c) = some phrase ∧
      Statement.ofFields? o.family phrase.words phrase.fields = some o.statement ∧
      o.text = String.ofList (trim ('@' :: body.take (body.length - phrase.tail.length))) ∧
      o.line = line := by
  unfold occurrence?
  simp only [Option.bind_eq_bind, Option.bind_eq_some_iff]
  constructor
  · rintro ⟨body, hbody, family, hfamily, phrase, hphrase, statement, hstatement, heq⟩
    obtain rfl := Option.some.inj heq
    exact ⟨body, phrase, hbody, hfamily, hphrase, hstatement, rfl, rfl⟩
  · rintro ⟨body, phrase, hbody, hfamily, hphrase, hstatement, htext, rfl⟩
    refine ⟨body, hbody, o.family, hfamily, phrase, hphrase, o.statement, hstatement, ?_⟩
    rw [← htext]
    rfl

/-- The directives of a line without line ends: the one of its only segment. -/
theorem parse_line_eq {line : List Char} (hfeed : '\n' ∉ line) (hreturn : '\r' ∉ line) :
    parse line = (occurrence? 0 line).toList := by
  have hperm := parse_line_perm hfeed
  rw [splitOn_of_not_mem hreturn, lineOccurrences] at hperm
  cases h : occurrence? 0 line with
  | none =>
    rw [List.filterMap_cons_none h, List.filterMap_nil] at hperm
    exact List.perm_nil.mp hperm
  | some o =>
    rw [List.filterMap_cons_some h, List.filterMap_nil] at hperm
    exact List.perm_singleton.mp hperm

theorem mem_parse_line {line : List Char} (hspace : ∀ c ∈ line, isSpace c = true → isGap c = true)
    {o : Occurrence} : o ∈ parse line ↔ occurrence? 0 line = some o := by
  have hfeed : '\n' ∉ line := fun hc => absurd (hspace _ hc (by decide)) (by decide)
  have hreturn : '\r' ∉ line := fun hc => absurd (hspace _ hc (by decide)) (by decide)
  rw [parse_line_eq hfeed hreturn, Option.mem_toList]

/-! ## The fields of the nearest cut -/

theorem trim_eq_self {text : List Char} (hfirst : ∀ c ∈ text.head?, isSpace c = false)
    (hlast : ∀ c ∈ text.getLast?, isSpace c = false) : trim text = text := by
  have hdrop : ∀ t : List Char, (∀ c ∈ t.head?, isSpace c = false) → t.dropWhile isSpace = t := by
    intro t ht
    cases t with
    | nil => rfl
    | cons c rest => simp [ht c rfl]
  rw [trim, trimStart, trimEnd, hdrop text hfirst, hdrop text.reverse (by simpa using hlast), List.reverse_reverse]

/-- A field does not end in a gap if it starts with none and stays a candidate without it. -/
theorem not_isGap_getLast {field behind : List Char} {p : List Char → Prop} (hstarts : Starts (field ++ behind))
    (hp : ∀ gap, isGap gap = true → p (gap :: behind))
    (hnearest : ∀ shorter other, shorter ≠ [] → field ++ behind = shorter ++ other → p other →
      field.length ≤ shorter.length) : ∀ c ∈ field.getLast?, isGap c = false := by
  intro c hc
  obtain ⟨front, rfl⟩ := List.getLast?_eq_some_iff.mp hc
  cases hgap : isGap c with
  | false => rfl
  | true =>
    -- Without the gap the field would be shorter and still a candidate.
    by_cases hfront : front = []
    · -- The field is not just this gap, because it starts with none.
      subst hfront
      exact absurd (hstarts c rfl) (by simp [hgap])
    · have hle := hnearest front (c :: behind) hfront (by simp) (hp c hgap)
      rw [List.length_append, List.length_singleton] at hle
      omega

theorem Linked.cons {word text rest : List Char} {gap : Char} (hgap : isGap gap = true)
    (h : Linked word text rest) : Linked word (gap :: text) rest := by
  obtain ⟨before, after, -, hafter, hbefore, hgaps, rfl⟩ := h
  refine ⟨gap :: before, after, List.cons_ne_nil _ _, hafter, ?_, hgaps, rfl⟩
  intro c hc
  rcases List.mem_cons.mp hc with rfl | hc
  · exact hgap
  · exact hbefore c hc

theorem Tail.cons {tail : List Char} {gap : Char} (hgap : isGap gap = true) (h : Tail tail) :
    Tail (gap :: tail) := by
  obtain ⟨before, terminator, after, hbefore, hafter, hterminator, rfl⟩ := h
  refine ⟨gap :: before, terminator, after, ?_, hafter, hterminator, rfl⟩
  intro c hc
  rcases List.mem_cons.mp hc with rfl | hc
  · exact hgap
  · exact hbefore c hc

/-- The fields of the nearest cut start and end with something that is no gap. -/
theorem Nearest.field_ends {form : Form} {text : List Char} {phrase : Phrase} (h : Nearest form text phrase) :
    ∀ field ∈ phrase.fields, field ≠ [] ∧ field <:+: text ∧ Starts field ∧
      ∀ c ∈ field.getLast?, isGap c = false := by
  induction h with
  | @last field tail hne hstarts htail hshortest =>
    intro other hother
    obtain rfl := List.mem_singleton.mp hother
    refine ⟨hne, (List.prefix_append _ _).isInfix, ?_, ?_⟩
    · intro c hc
      exact hstarts c (by rw [List.head?_append_of_ne_nil _ hne]; exact hc)
    · exact not_isGap_getLast hstarts (fun gap hgap => htail.cons hgap) hshortest
  | @link words links field behind word rest fields chosen tail hne hstarts hword hlinked hnearest hrest ih =>
    intro other hother
    rcases List.mem_cons.mp hother with rfl | hother
    · refine ⟨hne, (List.prefix_append _ _).isInfix, ?_, ?_⟩
      · intro c hc
        exact hstarts c (by rw [List.head?_append_of_ne_nil _ hne]; exact hc)
      · exact not_isGap_getLast hstarts
          (fun gap hgap => ⟨word, hword, rest, hlinked.cons hgap⟩) hnearest
    · obtain ⟨hother, hpart, hends⟩ := ih other hother
      refine ⟨hother, hpart.trans ?_, hends⟩
      obtain ⟨before, after, -, -, -, -, rfl⟩ := hlinked
      exact ⟨field ++ (before ++ word ++ after), [], by simp⟩
  | @word word gaps rest field tail hne hspace hgaps hgapsGaps hrest ih =>
    intro other hother
    rcases List.mem_cons.mp hother with rfl | hother
    · refine ⟨hne, ⟨[], gaps ++ rest, by simp⟩, ?_, ?_⟩
      · intro c hc
        exact not_isGap_of_not_isSpace (hspace c (List.mem_of_mem_head? hc))
      · intro c hc
        exact not_isGap_of_not_isSpace (hspace c (List.mem_of_mem_getLast? hc))
    · obtain ⟨hother, hpart, hends⟩ := ih other hother
      exact ⟨hother, hpart.trans ⟨word ++ gaps, [], by simp⟩, hends⟩

/-- Where all white space is gaps, the fields of the nearest cut are not blank, and trimmed already. -/
theorem Nearest.trim_field {form : Form} {text : List Char} {phrase : Phrase} (h : Nearest form text phrase)
    (hspace : ∀ c ∈ text, isSpace c = true → isGap c = true) :
    ∀ field ∈ phrase.fields, Filled field ∧ trim field = field := by
  intro field hfield
  obtain ⟨hne, hpart, hstarts, hends⟩ := h.field_ends field hfield
  have hgap : ∀ c ∈ field, isGap c = false → isSpace c = false := by
    intro c hc hgap
    cases hs : isSpace c with
    | false => rfl
    | true => exact absurd (hspace c (hpart.subset hc) hs) (by simp [hgap])
  refine ⟨?_, trim_eq_self (fun c hc => hgap c (List.mem_of_mem_head? hc) (hstarts c hc))
    (fun c hc => hgap c (List.mem_of_mem_getLast? hc) (hends c hc))⟩
  obtain ⟨c, rest, rfl⟩ := List.exists_cons_of_ne_nil hne
  exact ⟨c, List.mem_cons_self, hgap c List.mem_cons_self (hstarts c rfl)⟩

/-- Where all white space is gaps, the nearest cut is a way of cutting. -/
theorem Nearest.splits {form : Form} {text : List Char} {phrase : Phrase} (h : Nearest form text phrase)
    (hspace : ∀ c ∈ text, isSpace c = true → isGap c = true) : Splits form text phrase := by
  -- The fields are filled before the induction, whose hypothesis is about the text that is left only.
  have hfilled := fun field hfield => (h.trim_field hspace field hfield).1
  induction h with
  | last hne hstarts htail hshortest => exact Splits.last (hfilled _ List.mem_cons_self) htail
  | @link words links field behind word rest fields chosen tail hne hstarts hword hlinked hnearest hrest ih =>
    obtain ⟨before, after, -, -, -, -, rfl⟩ := id hlinked
    refine Splits.link (hfilled _ List.mem_cons_self) hword hlinked (ih (fun c hc => hspace c (by simp [hc])) ?_)
    exact fun other hother => hfilled other (List.mem_cons_of_mem _ hother)
  | @word word gaps rest field tail hne hword hgaps hgapsGaps hrest ih =>
    refine Splits.word hne hword hgaps hgapsGaps (ih (fun c hc => hspace c (by simp [hc])) ?_)
    exact fun other hother => hfilled other (List.mem_cons_of_mem _ hother)

/-! ## The relation that a cut stands for -/

theorem Nearest.ne_nil {form : Form} {text : List Char} {phrase : Phrase} (h : Nearest form text phrase) :
    text ≠ [] := by
  cases h with
  | last hne => simp [hne]
  | link hne => simp [hne]
  | word hne => simp [hne]

/-- The number of fields of a form without a description. -/
def Form.fieldCount : Form → Nat
  | .clauses links => links.length + 1
  | .wordThenText => 2
  | .described => 0

theorem Nearest.length_fields {form : Form} {text : List Char} {phrase : Phrase} (h : Nearest form text phrase) :
    phrase.fields.length = form.fieldCount := by
  induction h with
  | last => rfl
  | link _ _ _ _ _ _ ih => simpa [Form.fieldCount] using ih
  | word => rfl

/-- The first clause word of a cut is one of the first link. -/
theorem Nearest.head_word {words : List (List Char)} {links : List (List (List Char))} {text : List Char}
    {phrase : Phrase} (h : Nearest (.clauses (words :: links)) text phrase) :
    ∃ word ∈ words, phrase.words.head? = some word := by
  cases h with
  | @link _ _ _ _ word _ _ _ _ _ _ hword => exact ⟨word, hword, rfl⟩

theorem Family.form_hasWords {family : Family} (h : family ∈ Family.relations) : family.form.HasWords := by
  cases family with
  | component | control | threat => exact absurd h (by decide)
  | review => trivial
  | mitigate | accept | transfer | expose | connect | test => exact Form.hasWords_clauses (by decide)

/-- The fields of a relation make its record, which holds them in their order. -/
theorem related?_eq_some {family : Family} (hfamily : family ∈ Family.relations) {words : List (List Char)}
    {fields : List String} (hcount : fields.length = family.form.fieldCount) (hempty : "" ∉ fields)
    (hwords : family = .connect → ∃ direction : Direction, words.head? = some direction.word.toList) :
    ∃ r, Statement.related? family words fields = some r ∧ r.family = family ∧ r.fields = fields ∧
      ∀ direction, r.direction? = some direction → words.head? = some direction.word.toList := by
  have hcontains : fields.contains "" = false := by simpa using hempty
  simp only [Statement.related?, hcontains, Bool.false_eq_true, if_false]
  cases family with
  | component | control | threat => exact absurd hfamily (by decide)
  | mitigate | accept | expose =>
    obtain ⟨a, b, c, rfl⟩ := List.length_eq_three.mp hcount
    exact ⟨_, rfl, rfl, rfl, by simp [Relation.direction?]⟩
  | transfer =>
    obtain ⟨a, b, c, d, rfl⟩ : ∃ a b c d, fields = [a, b, c, d] := by
      obtain ⟨a, more, rfl⟩ := List.exists_of_length_succ fields hcount
      obtain ⟨b, c, d, rfl⟩ := List.length_eq_three.mp (Nat.succ.inj hcount)
      exact ⟨a, b, c, d, rfl⟩
    exact ⟨_, rfl, rfl, rfl, by simp [Relation.direction?]⟩
  | review | test =>
    obtain ⟨a, b, rfl⟩ := List.length_eq_two.mp hcount
    exact ⟨_, rfl, rfl, rfl, by simp [Relation.direction?]⟩
  | connect =>
    -- The direction is read off the first clause word, so that word has to be one of the two.
    obtain ⟨a, b, c, rfl⟩ := List.length_eq_three.mp hcount
    obtain ⟨direction, hdirection⟩ := hwords rfl
    have hword : Direction.ofWord? (String.ofList direction.word.toList) = some direction := by
      rw [String.ofList_toList, Direction.ofWord?_word]
    simp only [hdirection, Option.bind_some, hword, Option.map_some]
    refine ⟨_, rfl, rfl, rfl, fun other hother => ?_⟩
    obtain rfl := Option.some.inj hother
    rfl

/-- Where all white space is gaps, the nearest cut stands for a relation of its family. -/
theorem Nearest.exists_relation {family : Family} (hfamily : family ∈ Family.relations) {text : List Char}
    {phrase : Phrase} (h : Nearest family.form text phrase)
    (hspace : ∀ c ∈ text, isSpace c = true → isGap c = true) :
    ∃ r, Statement.ofFields? family phrase.words phrase.fields = some (.relation r) ∧ r.family = family ∧
      r.fields = phrase.fields.map String.ofList ∧
      ∀ direction, r.direction? = some direction → phrase.words.head? = some direction.word.toList := by
  have htrim : (phrase.fields.map fun field => String.ofList (trim field)) = phrase.fields.map String.ofList :=
    List.map_congr_left fun field hfield => by rw [(h.trim_field hspace field hfield).2]
  -- No field is blank, so the record is not dropped after the match.
  have hempty : "" ∉ phrase.fields.map String.ofList := by
    intro hmem
    obtain ⟨field, hfield, hnil⟩ := List.mem_map.mp hmem
    obtain ⟨c, hc, -⟩ := (h.trim_field hspace field hfield).1
    have hnil : field = [] := by simpa using congrArg String.toList hnil
    exact absurd (hnil ▸ hc) List.not_mem_nil
  have hdirection : family = .connect → ∃ direction : Direction, phrase.words.head? = some direction.word.toList := by
    rintro rfl
    obtain ⟨word, hword, hhead⟩ := Nearest.head_word h
    simp only [List.mem_cons, List.not_mem_nil, or_false] at hword
    rcases hword with rfl | rfl
    · exact ⟨.both, hhead⟩
    · exact ⟨.toward, hhead⟩
  have hcount : (phrase.fields.map String.ofList).length = family.form.fieldCount := by
    rw [List.length_map, h.length_fields]
  obtain ⟨r, hr, hrest⟩ := related?_eq_some hfamily hcount hempty hdirection
  refine ⟨r, ?_, hrest⟩
  cases family with
  | component | control | threat => exact absurd hfamily (by decide)
  | mitigate | accept | transfer | expose | connect | review | test =>
    simp only [Statement.ofFields?, htrim, hr, Option.map_some]

/-! ## When a relation is found -/

theorem Opens.mem {family : Family} {line text : List Char} (h : Opens family line text) {c : Char}
    (hc : c ∈ text) : c ∈ line := by
  obtain ⟨lead, keyword, gaps, -, -, -, -, rfl⟩ := h
  simp [hc]

/-- A directive of a family of relations opens its segment, and is cut in the nearest way. -/
theorem exists_nearest_of_occurrence? {line : Nat} {segment : List Char} {o : Occurrence}
    (hfamily : o.family ∈ Family.relations) (h : occurrence? line segment = some o) :
    ∃ text phrase, Opens o.family segment text ∧ Nearest o.family.form text phrase ∧
      Statement.ofFields? o.family phrase.words phrase.fields = some o.statement := by
  obtain ⟨body, phrase, hbody, hkeyword, hphrase, hstatement, -, -⟩ := occurrence?_eq_some_iff.mp h
  obtain ⟨lead, hlead, rfl⟩ := directiveBody?_eq_some_iff.mp hbody
  have hnearest := nearest_of_phrase? (Family.form_hasWords hfamily) hphrase
  refine ⟨_, phrase, ⟨lead, body.takeWhile fun c => !isGap c,
    (body.dropWhile fun c => !isGap c).takeWhile isGap, hlead, ofKeyword?_eq_some_iff.mp hkeyword, ?_,
    gaps_takeWhile _, ?_⟩, hnearest, hstatement⟩
  · -- Without a gap after the keyword there is nothing to cut.
    intro hnil
    cases hrest : body.dropWhile fun c => !isGap c with
    | nil => exact hnearest.ne_nil (by rw [hrest]; rfl)
    | cons c rest =>
      have hc : isGap c = true := by simpa using not_of_dropWhile hrest
      simp [hrest, hc] at hnil
  · rw [List.append_assoc, List.takeWhile_append_dropWhile, List.takeWhile_append_dropWhile]

/-- A line that opens with a keyword of relations and can be cut states a relation, where all white space is
gaps. -/
theorem exists_occurrence?_of_splits {family : Family} (hfamily : family ∈ Family.relations)
    {line text : List Char} {phrase : Phrase} (hopens : Opens family line text)
    (hsplits : Splits family.form text phrase) (hspace : ∀ c ∈ line, isSpace c = true → isGap c = true) :
    ∃ o, occurrence? 0 line = some o ∧ o.family = family := by
  obtain ⟨lead, keyword, gaps, hlead, hkeyword, hne, hgaps, heq⟩ := id hopens
  have hbody := directiveBody?_eq_some_iff.mpr ⟨lead, hlead, heq⟩
  obtain ⟨htake, hdrop⟩ := takeWhile_keyword text hkeyword hne hgaps
  -- The cut that is found need not be the one that is given.
  obtain ⟨found, hfound⟩ := exists_phrase? (Family.form_hasWords hfamily) hgaps hsplits
  have hnearest := nearest_of_phrase? (Family.form_hasWords hfamily) hfound
  have hsub : ∀ c ∈ (gaps ++ text).dropWhile isGap, isSpace c = true → isGap c = true := by
    intro c hc
    rw [dropWhile_gaps_append hgaps] at hc
    exact hspace c (hopens.mem ((List.dropWhile_sublist isGap).subset hc))
  obtain ⟨r, hr, -⟩ := hnearest.exists_relation hfamily hsub
  refine ⟨⟨family, .relation r, _, 0⟩, occurrence?_eq_some_iff.mpr
    ⟨keyword ++ gaps ++ text, found, hbody, ?_, ?_, hr, rfl, rfl⟩, rfl⟩
  · rw [htake]
    exact ofKeyword?_eq_some_iff.mpr hkeyword
  · rw [hdrop]
    exact hfound

/-- **When a line states a relation, and which one.** On a line whose white space is spaces and tabs, a relation
of a family is found exactly if the line opens with a keyword of the family and the text after it can be cut into
fields as the family is written. The relation that is found holds the fields of the nearest cut. -/
theorem parse_relation_iff {line : List Char} (hspace : ∀ c ∈ line, isSpace c = true → isGap c = true)
    {family : Family} (hfamily : family ∈ Family.relations) :
    ((∃ o ∈ parse line, o.family = family) ↔
      ∃ text phrase, Opens family line text ∧ Splits family.form text phrase) ∧
    ∀ o ∈ parse line, o.family = family →
      ∃ text phrase r, Opens family line text ∧ Nearest family.form text phrase ∧
        o.statement = .relation r ∧ r.family = family ∧ r.fields = phrase.fields.map String.ofList ∧
        ∀ direction, r.direction? = some direction → phrase.words.head? = some direction.word.toList := by
  have hfound : ∀ o ∈ parse line, o.family = family →
      ∃ text phrase, Opens family line text ∧ Nearest family.form text phrase ∧
        Statement.ofFields? family phrase.words phrase.fields = some o.statement := by
    rintro o ho rfl
    exact exists_nearest_of_occurrence? hfamily ((mem_parse_line hspace).mp ho)
  constructor
  · constructor
    · rintro ⟨o, ho, ho'⟩
      obtain ⟨text, phrase, hopens, hnearest, -⟩ := hfound o ho ho'
      exact ⟨text, phrase, hopens, hnearest.splits fun c hc => hspace c (hopens.mem hc)⟩
    · rintro ⟨text, phrase, hopens, hsplits⟩
      obtain ⟨o, ho, ho'⟩ := exists_occurrence?_of_splits hfamily hopens hsplits hspace
      exact ⟨o, (mem_parse_line hspace).mpr ho, ho'⟩
  · intro o ho ho'
    obtain ⟨text, phrase, hopens, hnearest, hstatement⟩ := hfound o ho ho'
    obtain ⟨r, hr, hrelation⟩ := hnearest.exists_relation hfamily fun c hc => hspace c (hopens.mem hc)
    have heq : o.statement = .relation r := Option.some.inj (hstatement.symm.trans hr)
    exact ⟨text, phrase, r, hopens, hnearest, heq, hrelation⟩

/-- A line with repeated clause words between a marker and a terminator states an acceptance. -/
theorem parse_relation_iff_repeated :
    (∀ c ∈ "\t// @accepts Replay to Api to Web with words with care */".toList, isSpace c = true → isGap c = true) ∧
    Family.accept ∈ Family.relations ∧
    ((∃ o ∈ parse "\t// @accepts Replay to Api to Web with words with care */".toList, o.family = .accept) ↔
      ∃ text phrase, Opens .accept "\t// @accepts Replay to Api to Web with words with care */".toList text ∧
        Splits Family.accept.form text phrase) := by
  have hspace : ∀ c ∈ "\t// @accepts Replay to Api to Web with words with care */".toList,
      isSpace c = true → isGap c = true := by
    intro c hc hspace
    have hall : ("\t// @accepts Replay to Api to Web with words with care */".toList.all fun c =>
      !isSpace c || isGap c) = true := by decide
    simpa [hspace] using List.all_eq_true.mp hall c hc
  have hfamily : Family.accept ∈ Family.relations := by decide
  exact ⟨hspace, hfamily, (parse_relation_iff hspace hfamily).1⟩

end Directive
end ThreatModel
