import Mathlib
import ThreatModel.Proofs.Comment.Lines
import ThreatModel.Proofs.Directive.Decorated
import ThreatModel.Proofs.Directive.TextOrder

/-!
# `Proofs.Comment.Closing` — the line on which a block comment ends

A block comment is one block over all its lines, and the line on which it ends counts as a whole, with whatever code
stands behind the closer. The directives above this line do not depend on the code; those of the line do not if no
directive begins before the closer, but otherwise the code is part of the directive.

## Contents

* `closerAfter`, `linesFrom` — the block comment that is open after some lines, and lines with their roles.
* `Closes`, `exists_closes` — the lines on which block comments end.
* `Group`, `Closes.group` — the lines of one block comment.
* `runs_of_group`, `directivesAt_of_group` — the block of these lines, and what is found in it.
* `not_infix_of_lead` — the closers cannot stand before a directive.
* `directivesAt_eq_iff` — when code behind a block comment makes a difference.
* `directivesAt_code_behind` — code that becomes part of a name.
-/

namespace ThreatModel
namespace Comment

open Text
open Directive (Occurrence parse Lead Inline)

/-! ## The block comment that is open -/

/-- The role of a line, where a block comment with a given closer may be open. -/
def Style.roleOf (style : Style) (closer : Option (List Char)) (line : List Char) : Role :=
  match closer, style.opened? line with
  | some _, _ => .inside
  | none, some _ => .opens
  | none, none => style.plainRole line

/-- The closer of the block comment that is open behind a line. -/
def Style.closerBehind (style : Style) (closer : Option (List Char)) (line : List Char) : Option (List Char) :=
  match closer, style.opened? line with
  | some c, _ => if containsText line c then none else some c
  | none, some (c, after) => if containsText after c then none else some c
  | none, none => none

theorem containsText_iff {text part : List Char} : containsText text part = true ↔ part <:+: text := by
  induction text with
  | nil => simp [containsText]
  | cons c rest ih =>
    rw [containsText, Bool.or_eq_true, ih, List.isPrefixOf_iff_prefix, List.infix_cons_iff]

theorem closerBehind_some (style : Style) (closer line : List Char) :
    style.closerBehind (some closer) line = if closer <:+: line then none else some closer := by
  simp only [Style.closerBehind, containsText_iff]

theorem closerBehind_none {style : Style} {line closer after : List Char}
    (h : style.opened? line = some (closer, after)) :
    style.closerBehind none line = if closer <:+: after then none else some closer := by
  simp only [Style.closerBehind, h, containsText_iff]

/-- The closer of the block comment that is open after some lines. -/
def closerAfter (style : Style) (closer : Option (List Char)) (texts : List (List Char)) : Option (List Char) :=
  texts.foldl style.closerBehind closer

theorem closerAfter_append (style : Style) (closer : Option (List Char)) (front back : List (List Char)) :
    closerAfter style closer (front ++ back) = closerAfter style (closerAfter style closer front) back :=
  List.foldl_append

theorem closerAfter_concat (style : Style) (closer : Option (List Char)) (above : List (List Char)) (line : List Char) :
    closerAfter style closer (above ++ [line]) = style.closerBehind (closerAfter style closer above) line :=
  List.foldl_concat _ _ _ _

theorem roles_cons (style : Style) (closer : Option (List Char)) (line : List Char) (rest : List (List Char)) :
    roles style closer (line :: rest)
      = style.roleOf closer line :: roles style (style.closerBehind closer line) rest := by
  unfold Style.roleOf Style.closerBehind
  cases closer with
  | some c => rfl
  | none => cases hopened : style.opened? line <;> simp only [roles, hopened]

/-- Lines with their roles, numbered from a given number on. -/
def linesFrom (style : Style) (closer : Option (List Char)) (start : Nat) : List (List Char) → List Line
  | [] => []
  | text :: rest =>
    ⟨start, text, style.roleOf closer text⟩ :: linesFrom style (style.closerBehind closer text) (start + 1) rest

theorem linesOf_eq (style : Style) (content : List Char) :
    linesOf style content = linesFrom style none 0 (lines content) := by
  have hfrom : ∀ (texts : List (List Char)) (closer : Option (List Char)) (start : Nat),
      ((texts.zip (roles style closer texts)).zipIdx start).map (fun line => ⟨line.2, line.1.1, line.1.2⟩)
        = linesFrom style closer start texts := by
    intro texts
    induction texts with
    | nil => intro closer start; rfl
    | cons text rest ih =>
      intro closer start
      rw [roles_cons, List.zip_cons_cons, List.zipIdx_cons, List.map_cons, ih, linesFrom]
  exact hfrom (lines content) none 0

theorem linesFrom_append (style : Style) (closer : Option (List Char)) (start : Nat) (front back : List (List Char)) :
    linesFrom style closer start (front ++ back)
      = linesFrom style closer start front
        ++ linesFrom style (closerAfter style closer front) (start + front.length) back := by
  induction front generalizing closer start with
  | nil => rfl
  | cons text rest ih =>
    have hnumber : start + 1 + rest.length = start + (text :: rest).length := by
      rw [List.length_cons]
      omega
    rw [List.cons_append, linesFrom, ih, hnumber, linesFrom, List.cons_append]
    rfl

variable {style : Style}

theorem map_text_linesFrom (closer : Option (List Char)) (start : Nat) (texts : List (List Char)) :
    (linesFrom style closer start texts).map Line.text = texts := by
  induction texts generalizing closer start with
  | nil => rfl
  | cons text rest ih => rw [linesFrom, List.map_cons, ih]

/-- The lines are numbered in their order. -/
theorem number_of_mem_linesFrom {closer : Option (List Char)} {start : Nat} {texts : List (List Char)} {line : Line}
    (h : line ∈ linesFrom style closer start texts) : start ≤ line.number ∧ line.number < start + texts.length := by
  induction texts generalizing closer start with
  | nil => cases h
  | cons text rest ih =>
    rw [List.length_cons]
    rcases List.mem_cons.mp h with rfl | h
    · exact ⟨Nat.le_refl _, by simp only; omega⟩
    · have hrest := ih h
      omega

/-! ## The lines of one block comment -/

/-- A line opens a block comment if it starts with the opener, white space aside. -/
theorem opened?_eq_some_iff {line closer after : List Char} :
    style.opened? line = some (closer, after) ↔
      ∃ opener, style.block = some (opener, closer) ∧ trimStart line = opener ++ after := by
  simp only [Style.opened?, Option.bind_eq_some_iff, Option.map_eq_some_iff, Prod.mk.injEq]
  constructor
  · rintro ⟨⟨opener, _⟩, hblock, rest, hrest, rfl, rfl⟩
    exact ⟨opener, hblock, (List.isPrefixOf?_eq_some_iff_append_eq.mp hrest).symm⟩
  · rintro ⟨opener, hblock, htrim⟩
    exact ⟨(opener, closer), hblock, after, List.isPrefixOf?_eq_some_iff_append_eq.mpr htrim.symm, rfl, rfl⟩

/-- What stands behind a comment that is opened and closed on one line changes nothing of it. -/
theorem opened?_append {line closer after : List Char} (hopened : style.opened? line = some (closer, after))
    (hpart : closer <:+: after) (behind : List Char) :
    ∃ more, style.opened? (line ++ behind) = some (closer, more) ∧ closer <:+: more := by
  obtain ⟨opener, hblock, htrim⟩ := opened?_eq_some_iff.mp hopened
  by_cases hnil : trimStart line = []
  · -- Delimiters without a character are found anywhere.
    obtain ⟨rfl, rfl⟩ := List.append_eq_nil_iff.mp (htrim.symm.trans hnil)
    obtain rfl := List.infix_nil.mp hpart
    exact ⟨trimStart (line ++ behind), opened?_eq_some_iff.mpr ⟨[], hblock, rfl⟩, List.nil_infix⟩
  · refine ⟨after ++ behind, opened?_eq_some_iff.mpr ⟨opener, hblock, ?_⟩,
      hpart.trans (List.prefix_append after behind).isInfix⟩
    have hsome : ¬(line.dropWhile isSpace).isEmpty = true := by simpa [trimStart] using hnil
    rw [trimStart, List.dropWhile_append, if_neg hsome, ← trimStart, htrim, List.append_assoc]

/-- What starts a trimmed text does not start with white space. -/
theorem trimStart_of_prefix {text line : List Char} (h : text <+: trimStart line) : trimStart text = text := by
  cases text with
  | nil => rfl
  | cons c rest =>
    obtain ⟨behind, hbehind⟩ := h
    have hspace : isSpace c = false := Directive.not_of_dropWhile hbehind.symm
    rw [trimStart, List.dropWhile_cons_of_neg (by simp [hspace])]

/-- Conversely a comment that is opened and closed on one line is closed by the text up to its closer. -/
theorem exists_opened? {line closer after : List Char} (hopened : style.opened? line = some (closer, after))
    (hpart : closer <:+: after) :
    ∃ front behind more, line = front ++ closer ++ behind ∧ style.opened? (front ++ closer) = some (closer, more) ∧
      closer <:+: more := by
  obtain ⟨opener, hblock, htrim⟩ := opened?_eq_some_iff.mp hopened
  obtain ⟨middle, behind, rfl⟩ := hpart
  have htrim : trimStart line = opener ++ (middle ++ closer) ++ behind := by
    rw [htrim]
    simp only [List.append_assoc]
  have hline : line = line.takeWhile isSpace ++ (opener ++ (middle ++ closer)) ++ behind := by
    rw [List.append_assoc, ← htrim, trimStart, List.takeWhile_append_dropWhile]
  have hstart :
      trimStart (line.takeWhile isSpace ++ (opener ++ (middle ++ closer))) = opener ++ (middle ++ closer) := by
    have hspaces : ∀ c ∈ line.takeWhile isSpace, isSpace c = true := by
      intro c hc
      exact List.mem_takeWhile_imp hc
    rw [trimStart, List.dropWhile_append_of_pos hspaces]
    exact trimStart_of_prefix ⟨behind, htrim.symm⟩
  refine ⟨line.takeWhile isSpace ++ opener ++ middle, behind, middle ++ closer, ?_, ?_, ⟨middle, [], by simp⟩⟩
  · conv_lhs => rw [hline]
    simp only [List.append_assoc]
  · refine opened?_eq_some_iff.mpr ⟨opener, hblock, ?_⟩
    rw [← hstart]
    simp only [List.append_assoc]

/-- A line on which a block comment ends. Of the lines above it the last ones, if any, belong to the comment; the line
itself begins with the given text and the closer. -/
inductive Closes (style : Style) (before group : List (List Char)) (front closer : List Char) : Prop where
  /-- The comment is opened on the line itself. -/
  | here {after : List Char} : closerAfter style none before = none → group = [] →
      style.opened? (front ++ closer) = some (closer, after) → closer <:+: after →
      Closes style before group front closer
  /-- The comment is opened above, and the closer is on no line in between. -/
  | below {first after : List Char} {rest : List (List Char)} : closerAfter style none before = none →
      group = first :: rest → style.opened? first = some (closer, after) → ¬closer <:+: after →
      (∀ line ∈ rest, ¬closer <:+: line) → Closes style before group front closer

/-- Every line with the closer of a block comment that is open is one on which it ends. -/
theorem exists_closes_of_open {above : List (List Char)} {closer : List Char}
    (h : closerAfter style none above = some closer) (front : List Char) :
    ∃ before group, above = before ++ group ∧ Closes style before group front closer := by
  induction above using List.reverseRecOn with
  | nil => cases h
  | append_singleton init line ih =>
    rw [closerAfter_concat] at h
    cases hopen : closerAfter style none init with
    | some other =>
      rw [hopen, closerBehind_some] at h
      split at h
      · cases h
      · next hnot =>
        -- The comment was open before the line already, which does not close it.
        obtain rfl := Option.some.inj h
        obtain ⟨before, group, rfl, hcloses⟩ := ih hopen
        refine ⟨before, group ++ [line], List.append_assoc _ _ _, ?_⟩
        cases hcloses with
        | here hbefore hgroup =>
          subst hgroup
          rw [List.append_nil] at hopen
          exact absurd (hopen.symm.trans hbefore) (by simp)
        | @below first after rest hbefore hgroup hfirst hafter hrest =>
          have hgroup : group ++ [line] = first :: (rest ++ [line]) := by rw [hgroup, List.cons_append]
          refine .below hbefore hgroup hfirst hafter fun other hother => ?_
          rcases List.mem_append.mp hother with hother | hother
          · exact hrest other hother
          · rw [List.mem_singleton.mp hother]
            exact hnot
    | none =>
      cases hopened : style.opened? line with
      | none =>
        rw [hopen] at h
        simp only [Style.closerBehind, hopened] at h
        cases h
      | some found =>
        obtain ⟨other, after⟩ := found
        rw [hopen, closerBehind_none hopened] at h
        split at h
        · cases h
        · next hnot =>
          obtain rfl := Option.some.inj h
          exact ⟨init, [line], rfl, .below hopen rfl hopened hnot (List.forall_mem_nil _)⟩

/-- Every line of a block comment behind which none is open is one on which it ends. -/
theorem exists_closes {above : List (List Char)} {line : List Char}
    (hcomment : closerAfter style none above ≠ none ∨ style.opened? line ≠ none)
    (hclosed : closerAfter style none (above ++ [line]) = none) :
    ∃ before group front closer behind, above = before ++ group ∧ line = front ++ closer ++ behind ∧
      Closes style before group front closer := by
  rw [closerAfter_concat] at hclosed
  cases hopen : closerAfter style none above with
  | some closer =>
    rw [hopen, closerBehind_some] at hclosed
    obtain ⟨front, behind, rfl⟩ : closer <:+: line := by simpa using hclosed
    obtain ⟨before, group, rfl, hcloses⟩ := exists_closes_of_open hopen front
    exact ⟨before, group, front, closer, behind, rfl, rfl, hcloses⟩
  | none =>
    obtain ⟨⟨closer, after⟩, hopened⟩ := Option.ne_none_iff_exists'.mp (hcomment.resolve_left fun h => h hopen)
    rw [hopen, closerBehind_none hopened] at hclosed
    have hpart : closer <:+: after := by simpa using hclosed
    obtain ⟨front, behind, more, rfl, hmore, hpart⟩ := exists_opened? hopened hpart
    exact ⟨above, [], front, closer, behind, (List.append_nil _).symm, rfl, .here hopen rfl hmore hpart⟩

/-- The lines of a block comment: the first one opens it, all others lie inside, and it is closed behind the last. -/
structure Group (style : Style) (texts : List (List Char)) : Prop where
  lines (start : Nat) : ∃ first rest, linesFrom style none start texts = first :: rest ∧ first.number = start ∧
    first.role = .opens ∧ ∀ line ∈ rest, line.role = .inside
  closed : closerAfter style none texts = none

/-- All lines lie inside a block comment up to the one with its closer, behind which it is closed. -/
theorem inside_of_open {closer last : List Char} {rest : List (List Char)} (hrest : ∀ line ∈ rest, ¬closer <:+: line)
    (hlast : closer <:+: last) (start : Nat) :
    (∀ line ∈ linesFrom style (some closer) start (rest ++ [last]), line.role = .inside) ∧
      closerAfter style (some closer) (rest ++ [last]) = none := by
  induction rest generalizing start with
  | nil =>
    refine ⟨fun line hline => ?_, ?_⟩
    · obtain rfl := List.mem_singleton.mp hline
      rfl
    · rw [closerAfter_concat]
      exact (closerBehind_some style closer last).trans (if_pos hlast)
  | cons text rest ih =>
    have hopen : style.closerBehind (some closer) text = some closer :=
      (closerBehind_some style closer text).trans (if_neg (hrest text List.mem_cons_self))
    obtain ⟨hroles, hclosed⟩ := ih (fun line hline => hrest line (List.mem_cons_of_mem _ hline)) (start + 1)
    refine ⟨fun line hline => ?_, ?_⟩
    · rw [List.cons_append, linesFrom, hopen] at hline
      rcases List.mem_cons.mp hline with rfl | hline
      · rfl
      · exact hroles line hline
    · rw [List.cons_append, closerAfter, List.foldl_cons, hopen]
      exact hclosed

/-- **The lines of a comment** up to the one on which it ends, whatever stands behind the closer there. -/
theorem Closes.group {before group : List (List Char)} {front closer : List Char}
    (h : Closes style before group front closer) (behind : List Char) :
    Group style (group ++ [front ++ closer ++ behind]) := by
  cases h with
  | here hbefore hgroup hopened hafter =>
    subst hgroup
    obtain ⟨more, hmore, hpart⟩ := opened?_append hopened hafter behind
    refine ⟨fun start => ⟨_, [], rfl, rfl, ?_, List.forall_mem_nil _⟩, ?_⟩
    · simp only [Style.roleOf, hmore]
    · exact (closerBehind_none hmore).trans (if_pos hpart)
  | @below first after rest hbefore hgroup hfirst hafter hrest =>
    subst hgroup
    have hlast : closer <:+: front ++ closer ++ behind := ⟨front, behind, rfl⟩
    have hopen : style.closerBehind none first = some closer := (closerBehind_none hfirst).trans (if_neg hafter)
    refine ⟨fun start => ⟨_, _, rfl, rfl, ?_, ?_⟩, ?_⟩
    · simp only [Style.roleOf, hfirst]
    · rw [hopen]
      exact (inside_of_open hrest hlast (start + 1)).1
    · rw [List.cons_append, closerAfter, List.foldl_cons, hopen]
      exact (@inside_of_open style _ _ _ hrest hlast 0).2

theorem Closes.before_closed {before group : List (List Char)} {front closer : List Char}
    (h : Closes style before group front closer) : closerAfter style none before = none := by
  cases h with
  | here hbefore => exact hbefore
  | below hbefore => exact hbefore

/-! ## The block of these lines -/

/-- A line that is not inside a block comment belongs to the line before it only if both are line comments. -/
theorem continues_eq_false {previous line : Line} (hline : line.role ≠ .inside)
    (hcomment : previous.role ≠ .comment ∨ line.role ≠ .comment) : continues previous line = false := by
  unfold continues
  split
  · next hprevious hrole => exact absurd hrole (hcomment.resolve_left fun h => h hprevious)
  · next hrole => exact absurd hrole hline
  · rfl

/-- Lines that lie inside a block comment belong to the line before them. -/
theorem isChain_of_inside {first : Line} {rest : List Line} (h : ∀ line ∈ rest, line.role = .inside) :
    (first :: rest).IsChain fun previous line => continues previous line := by
  induction rest generalizing first with
  | nil => exact List.isChain_singleton first
  | cons second more ih =>
    have hcontinues : continues first second = true := by
      unfold continues
      rw [h second List.mem_cons_self]
      cases first.role <;> rfl
    exact List.isChain_cons_cons.mpr ⟨hcontinues, ih fun line hline => h line (List.mem_cons_of_mem _ hline)⟩

/-- Outside block comments the next line does not lie inside one. -/
theorem role_of_mem_head? {start : Nat} {texts : List (List Char)} {line : Line}
    (h : line ∈ (linesFrom style none start texts).head?) : line.role ≠ .inside := by
  cases texts with
  | nil => cases h
  | cons text rest =>
    obtain rfl := Option.some.inj h
    unfold Style.roleOf
    split
    · next hnone => cases hnone
    · exact Role.noConfusion
    · exact plainRole_ne_inside style text

variable {content : List Char} {before group below : List (List Char)}

/-- **The lines of a block comment are one run**, between the runs above and below it. -/
theorem runs_of_group (hlines : lines content = before ++ group ++ below)
    (hbefore : closerAfter style none before = none) (hgroup : Group style group) :
    runs style content
      = (linesFrom style none 0 before).splitBy continues ++ [linesFrom style none before.length group]
        ++ (linesFrom style none (before ++ group).length below).splitBy continues := by
  obtain ⟨first, rest, hfrom, -, hfirst, hrest⟩ := hgroup.lines before.length
  have hroles : ∀ line ∈ first :: rest, line.role ≠ .comment := by
    intro line hline
    rcases List.mem_cons.mp hline with rfl | hline
    · simp [hfirst]
    · simp [hrest line hline]
  have hclosed : closerAfter style none (before ++ group) = none := by
    rw [closerAfter_append, hbefore, hgroup.closed]
  rw [runs, linesOf_eq, hlines, linesFrom_append, linesFrom_append, hbefore, hclosed, Nat.zero_add, Nat.zero_add, hfrom,
    List.splitBy_append, List.splitBy_append, List.splitBy_of_isChain (List.cons_ne_nil _ _) (isChain_of_inside hrest)]
  · intro previous _ line hline
    obtain rfl := Option.some.inj hline
    exact continues_eq_false (by simp [hfirst]) (Or.inr (by simp [hfirst]))
  · intro previous hprevious line hline
    refine continues_eq_false (role_of_mem_head? hline) (Or.inl (hroles previous ?_))
    rw [List.getLast?_append_cons] at hprevious
    exact List.mem_of_mem_getLast? hprevious

/-- A block that starts on the given line, counted from one. -/
def startsOn (line : Nat) (block : Block) : Bool := block.location.any (·.line = line)

/-- The directives that are found in the block that starts on a line of a file. -/
def directivesAt (filename : String) (content : List Char) (style : Style) (line : Nat) : List Occurrence :=
  ((extractBlocks filename content style).filter (startsOn line)).flatMap fun block => block.scan.occurrences

/-- No block starts on a line that is not in its run. -/
theorem filter_startsOn_eq_nil {filename : String} {texts : List (List Char)} {lines : List Line} {number : Nat}
    (h : ∀ line ∈ lines, line.number ≠ number) :
    (((lines.splitBy continues).filterMap (commentBlock? filename texts)).filter (startsOn (number + 1))) = [] := by
  refine List.filter_eq_nil_iff.mpr fun block hblock hstarts => ?_
  obtain ⟨run, hrun, hcomment⟩ := List.mem_filterMap.mp hblock
  obtain ⟨⟨text, code⟩, -, hcomment⟩ := Option.bind_eq_some_iff.mp hcomment
  obtain ⟨first, hfirst, hcomment⟩ := Option.bind_eq_some_iff.mp hcomment
  have hmem : first ∈ lines := by
    have hflatten := List.mem_flatten_of_mem hrun (List.mem_of_mem_head? hfirst)
    rwa [List.flatten_splitBy] at hflatten
  split at hcomment
  · obtain rfl := Option.some.inj hcomment
    have hnumber : first.number + 1 = number + 1 := by simpa [startsOn] using hstarts
    exact h first hmem (Nat.succ.inj hnumber)
  · cases hcomment

/-- **The directives of a block comment** are those of its lines. -/
theorem directivesAt_of_group (filename : String) (hlines : lines content = before ++ group ++ below)
    (hbefore : closerAfter style none before = none) (hgroup : Group style group) :
    directivesAt filename content style (before.length + 1) = parse (['\n'].intercalate group) := by
  obtain ⟨first, rest, hfrom, hnumber, hfirst, -⟩ := hgroup.lines before.length
  have htexts : (first :: rest).map Line.text = group := by rw [← hfrom, map_text_linesFrom]
  have habove : ∀ line ∈ linesFrom style none 0 before, line.number ≠ before.length := by
    intro line hline
    have hline := number_of_mem_linesFrom hline
    omega
  have hunder : ∀ line ∈ linesFrom style none (before ++ group).length below, line.number ≠ before.length := by
    intro line hline
    have hline := number_of_mem_linesFrom hline
    rw [List.length_append, ← htexts, List.length_map, List.length_cons] at hline
    omega
  have htext : textAndCode? (lines content) (first :: rest)
      = some (['\n'].intercalate group, codeAfter ((lines content).drop (first.number + rest.length + 1))) := by
    simp only [textAndCode?, hfirst, htexts]
  rw [directivesAt, extractBlocks_eq, runs_of_group hlines hbefore hgroup, List.filterMap_append, List.filterMap_append,
    List.filter_append, List.filter_append, filter_startsOn_eq_nil habove, filter_startsOn_eq_nil hunder,
    List.nil_append, List.append_nil, hfrom]
  by_cases hat : '@' ∈ ['\n'].intercalate group
  · simp [commentBlock?, htext, hat, startsOn, hnumber, Block.scan]
  · -- No block is made of the comment, and no directive is lost by that.
    rw [Directive.parse_of_not_mem hat]
    simp [commentBlock?, htext, hat]

/-! ## The closing line -/

/-- A line on which no directive begins lists none. -/
theorem parse_eq_nil {line : List Char} (hinline : Inline line)
    (h : ∀ lead body, Lead lead → line ≠ lead ++ '@' :: body) : parse line = [] := by
  have hbody : Directive.directiveBody? line = none := by
    refine Option.eq_none_iff_forall_ne_some.mpr fun body hbody => ?_
    obtain ⟨lead, hlead, heq⟩ := Directive.directiveBody?_eq_some_iff.mp hbody
    exact h lead body hlead heq
  rw [Directive.parse_inline hinline, Directive.occurrence?, hbody]
  rfl

/-- Behind a closer that cannot stand before a directive no directive begins. -/
theorem parse_behind_eq_nil {front closer behind : List Char} (hcloser : ∀ text, Lead text → ¬closer <:+: text)
    (hfront : ∀ lead body, Lead lead → front ++ closer ≠ lead ++ '@' :: body)
    (hinline : Inline (front ++ closer ++ behind)) : parse (front ++ closer ++ behind) = [] := by
  refine parse_eq_nil hinline fun lead body hlead heq => ?_
  rcases List.append_eq_append_iff.mp heq with ⟨more, hmore, -⟩ | ⟨more, hmore, hbody⟩
  · -- The directive begins behind the closer, which is then part of what stands before it.
    exact hcloser lead hlead ⟨front, more, hmore.symm⟩
  · cases more with
    | nil =>
      rw [List.append_nil] at hmore
      exact hcloser lead hlead ⟨front, [], by rw [List.append_nil, hmore]⟩
    | cons c rest =>
      obtain ⟨rfl, -⟩ := List.cons.inj hbody
      exact hfront lead rest hlead hmore

/-- No marker ends a comment. -/
theorem not_sublist_of_marker {run : List Char} (h : Directive.Marker run) :
    ¬"*/".toList.Sublist run ∧ ¬"]]".toList.Sublist run := by
  cases h with
  | slashes n | stars n | hashes n | semicolons n =>
    constructor
    · intro hsublist
      have hstar := List.eq_of_mem_replicate (hsublist.subset (show '*' ∈ "*/".toList by decide))
      have hslash := List.eq_of_mem_replicate (hsublist.subset (show '/' ∈ "*/".toList by decide))
      revert hstar hslash
      decide
    · intro hsublist
      have hbracket := List.eq_of_mem_replicate (hsublist.subset (show ']' ∈ "]]".toList by decide))
      revert hbracket
      decide
  | opener n =>
    constructor
    · intro hsublist
      -- The slash of the marker is its first character, so none follows a star.
      rcases List.cons_sublist_cons'.mp hsublist with hstars | ⟨hslash, -⟩
      · have hslash := List.eq_of_mem_replicate (hstars.subset (show '/' ∈ "*/".toList by decide))
        revert hslash
        decide
      · revert hslash
        decide
    · intro hsublist
      have hbracket := hsublist.subset (show ']' ∈ "]]".toList by decide)
      simp at hbracket
  | angle | brackets | dashes => decide

theorem closer_of_ofExtension {extension : String} {opener closer : List Char}
    (h : (Style.ofExtension extension).block = some (opener, closer)) :
    closer = "*/".toList ∨ closer = "]]".toList := by
  unfold Style.ofExtension at h
  split_ifs at h
  · exact Or.inl (Prod.mk.inj (Option.some.inj h)).2.symm
  · cases h
  · exact Or.inl (Prod.mk.inj (Option.some.inj h)).2.symm
  · exact Or.inr (Prod.mk.inj (Option.some.inj h)).2.symm
  · exact Or.inl (Prod.mk.inj (Option.some.inj h)).2.symm

/-- The closers of all file types are such closers. -/
theorem not_infix_of_lead {extension : String} {opener closer text : List Char}
    (hblock : (Style.ofExtension extension).block = some (opener, closer)) (hlead : Lead text) : ¬closer <:+: text := by
  intro hpart
  obtain ⟨before, marker, after, hbefore, hafter, hmarker, rfl⟩ := hlead
  have hgaps : ∀ gaps : List Char, Directive.Gaps gaps → gaps.filter (fun c => !isGap c) = [] := fun gaps hgaps => by
    rw [List.filter_eq_nil_iff]
    intro c hc
    simp [hgaps c hc]
  have hsublist := hpart.sublist.filter fun c => !isGap c
  rw [List.filter_append, List.filter_append, hgaps before hbefore, hgaps after hafter, List.nil_append,
    List.append_nil] at hsublist
  have hself : closer.filter (fun c => !isGap c) = closer := by
    rcases closer_of_ofExtension hblock with rfl | rfl <;> decide
  rw [hself] at hsublist
  have hmarked := hsublist.trans List.filter_sublist
  rcases hmarker with rfl | hmarker
  · rcases closer_of_ofExtension hblock with rfl | rfl
    · exact absurd hmarked (by decide)
    · exact absurd hmarked (by decide)
  · rcases closer_of_ofExtension hblock with rfl | rfl
    · exact (not_sublist_of_marker hmarker).1 hmarked
    · exact (not_sublist_of_marker hmarker).2 hmarked

/-- **Code behind a block comment.** If the lines of two files differ in what stands behind the closer of a block
comment, the same is found in this comment above the line on which it ends; and the same is found in all of it just if
the two lines list the same. They do if no directive begins before the closer, and the closer cannot stand before a
directive. -/
theorem directivesAt_eq_iff {front closer a b contentA contentB : List Char} (filename : String)
    (hcloses : Closes style before group front closer)
    (hA : lines contentA = before ++ (group ++ [front ++ closer ++ a]) ++ below)
    (hB : lines contentB = before ++ (group ++ [front ++ closer ++ b]) ++ below) :
    (directivesAt filename contentA style (before.length + 1)).filter (·.line < group.length)
      = (directivesAt filename contentB style (before.length + 1)).filter (·.line < group.length) ∧
    (directivesAt filename contentA style (before.length + 1) = directivesAt filename contentB style (before.length + 1)
      ↔ parse (front ++ closer ++ a) = parse (front ++ closer ++ b)) ∧
    ((∀ text, Lead text → ¬closer <:+: text) → (∀ lead body, Lead lead → front ++ closer ≠ lead ++ '@' :: body) →
      Inline (front ++ closer ++ a) → Inline (front ++ closer ++ b) →
      directivesAt filename contentA style (before.length + 1)
        = directivesAt filename contentB style (before.length + 1)) := by
  have hfeed : ∀ line ∈ group, '\n' ∉ line := by
    intro line hline
    refine @not_mem_of_mem_lines contentA line ?_
    rw [hA]
    simp [hline]
  obtain ⟨habove, hiff⟩ := Directive.parse_last_line hfeed (front ++ closer ++ a) (front ++ closer ++ b)
  rw [← directivesAt_of_group filename hA hcloses.before_closed (hcloses.group a),
    ← directivesAt_of_group filename hB hcloses.before_closed (hcloses.group b)] at habove hiff
  refine ⟨habove, hiff, fun hcloser hfront hinlineA hinlineB => hiff.mpr ?_⟩
  rw [parse_behind_eq_nil hcloser hfront hinlineA, parse_behind_eq_nil hcloser hfront hinlineB]

/-- A comment of several lines with a directive above the line on which it ends. -/
theorem directivesAt_closed_below :
    let contentA := "/*\n * @component Foo\n */ let x = 1;\n".toList
    let contentB := "/*\n * @component Foo\n */ let y = 2;\n".toList
    directivesAt "a.rs" contentA .slashes 1 = directivesAt "a.rs" contentB .slashes 1 ∧
      (directivesAt "a.rs" contentA .slashes 1).map (·.text) = ["@component Foo"] := by
  intro contentA contentB
  have hcloses : Closes .slashes [] ["/*".toList, " * @component Foo".toList] " ".toList "*/".toList :=
    .below rfl rfl rfl (by decide) (by decide)
  have hA : lines contentA = [] ++ (["/*".toList, " * @component Foo".toList] ++ [" */ let x = 1;".toList]) ++ [] := by
    decide
  have hB : lines contentB = [] ++ (["/*".toList, " * @component Foo".toList] ++ [" */ let y = 2;".toList]) ++ [] := by
    decide
  have hcloser : ∀ text, Lead text → ¬"*/".toList <:+: text := by
    intro text hlead
    have hblock : (Style.ofExtension "rs").block = some ("/*".toList, "*/".toList) := rfl
    exact not_infix_of_lead hblock hlead
  have hfront : ∀ lead body, Lead lead → " ".toList ++ "*/".toList ≠ lead ++ '@' :: body := by
    intro lead body _ heq
    have hat : '@' ∈ " ".toList ++ "*/".toList := by
      rw [heq]
      simp
    revert hat
    decide
  have hsame := directivesAt_eq_iff "a.rs" hcloses hA hB
  exact ⟨hsame.2.2 hcloser hfront (by decide) (by decide), by decide +kernel⟩

/-- **Code that becomes part of a name.** The comment ends on the line that holds the directive, and the code behind it
is taken for a part of the name. -/
theorem directivesAt_code_behind :
    let front := "/* @component Foo ".toList
    let code := "/* @component Foo */ let x = 1;\n".toList
    let bare := "/* @component Foo */\n".toList
    Closes .slashes [] [] front "*/".toList ∧ lines code = [front ++ "*/".toList ++ " let x = 1;".toList] ∧
      lines bare = [front ++ "*/".toList] ∧
      (directivesAt "a.rs" bare .slashes 1).map (fun o => (o.text, o.statement.fields))
        = [("@component Foo", ["Foo"])] ∧
      (directivesAt "a.rs" code .slashes 1).map (fun o => (o.text, o.statement.fields))
        = [("@component Foo */ let x = 1;", ["Foo */ let x = 1;"])] := by
  intro front code bare
  have hcloses : Closes .slashes [] [] front "*/".toList := .here rfl rfl rfl (by decide)
  exact ⟨hcloses, by decide, by decide, by decide +kernel, by decide +kernel⟩

end Comment
end ThreatModel
