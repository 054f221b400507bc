import Mathlib
import ThreatModel.Directive.Decoration

/-!
# `Proofs.Directive.Decoration` — the texts around a directive

What may stand before and after a directive, said without the tests that recognise it: gaps around at most one
marker, and gaps around at most one terminator. The tests accept exactly these texts.

## Contents

* `Gaps` — texts of gaps only, and `dropWhile_gaps_append`.
* `Marker`, `Lead`, `isLead_iff` — what stands before a directive.
* `Terminator`, `Tail`, `isTail_iff` — what stands after a directive.
* `directiveBody?_eq_some_iff` — where a directive starts.
-/

namespace ThreatModel
namespace Directive

open Text

/-! ## Gaps -/

/-- A text that holds nothing but gaps. -/
def Gaps (text : List Char) : Prop := ∀ c ∈ text, isGap c = true

theorem Gaps.append {a b : List Char} (ha : Gaps a) (hb : Gaps b) : Gaps (a ++ b) := fun c hc =>
  (List.mem_append.mp hc).elim (ha c) (hb c)

theorem gaps_takeWhile (text : List Char) : Gaps (text.takeWhile isGap) := fun _ hc =>
  List.mem_takeWhile_imp hc

/-- Leading gaps are dropped, however many there are. -/
theorem dropWhile_gaps_append {gaps text : List Char} (h : Gaps gaps) :
    (gaps ++ text).dropWhile isGap = text.dropWhile isGap :=
  List.dropWhile_append_of_pos h

/-- What is left after dropping starts with a character that is not dropped. -/
theorem not_of_dropWhile {p : Char → Bool} {text rest : List Char} {c : Char}
    (h : text.dropWhile p = c :: rest) : p c = false := by
  have hne : text.dropWhile p ≠ [] := by rw [h]; exact List.cons_ne_nil c rest
  have hhead := List.head_dropWhile_not p hne
  simpa only [h, List.head_cons] using hhead

theorem dropWhile_of_not_isGap {text : List Char} {c : Char} (h : isGap c = false) :
    (c :: text).dropWhile isGap = c :: text := by
  simp [h]

theorem dropWhile_eq_self_of_forall {run text : List Char} (hne : run ≠ [])
    (h : ∀ c ∈ run, isGap c = false) : (run ++ text).dropWhile isGap = run ++ text := by
  cases run with
  | nil => exact absurd rfl hne
  | cons c rest => exact dropWhile_of_not_isGap (h c List.mem_cons_self)

theorem gaps_iff_dropWhile {text : List Char} : Gaps text ↔ text.dropWhile isGap = [] :=
  List.dropWhile_eq_nil_iff.symm

/-! ## Trimming gaps -/

/-- What trimming takes away. -/
theorem exists_eq_append_trimGaps (text : List Char) :
    ∃ before after, Gaps before ∧ Gaps after ∧ text = before ++ trimGaps text ++ after := by
  refine ⟨text.takeWhile isGap, ((text.dropWhile isGap).reverse.takeWhile isGap).reverse,
    gaps_takeWhile text, fun c hc => gaps_takeWhile _ c (List.mem_reverse.mp hc), ?_⟩
  have hback : (text.dropWhile isGap).reverse
      = (text.dropWhile isGap).reverse.takeWhile isGap ++ (text.dropWhile isGap).reverse.dropWhile isGap :=
    List.takeWhile_append_dropWhile.symm
  have hfront := congrArg List.reverse hback
  rw [List.reverse_reverse, List.reverse_append] at hfront
  rw [trimGaps, List.append_assoc, ← hfront, List.takeWhile_append_dropWhile]

/-- A run without gaps is what trimming leaves of it and the gaps around it. -/
theorem trimGaps_append {before run after : List Char} (hbefore : Gaps before) (hafter : Gaps after)
    (hrun : ∀ c ∈ run, isGap c = false) : trimGaps (before ++ run ++ after) = run := by
  rw [trimGaps, List.append_assoc, dropWhile_gaps_append hbefore]
  by_cases hne : run = []
  · subst hne
    rw [List.nil_append, gaps_iff_dropWhile.mp hafter]
    rfl
  · have hreverse : Gaps after.reverse := fun c hc => hafter c (List.mem_reverse.mp hc)
    rw [dropWhile_eq_self_of_forall hne hrun, List.reverse_append, dropWhile_gaps_append hreverse]
    have hback : (run.reverse ++ []).dropWhile isGap = run.reverse ++ [] :=
      dropWhile_eq_self_of_forall (List.reverse_ne_nil_iff.mpr hne)
        fun c hc => hrun c (List.mem_reverse.mp hc)
    rw [List.append_nil] at hback
    rw [hback, List.reverse_reverse]

/-! ## Before a directive -/

/-- The comment markers. -/
inductive Marker : List Char → Prop where
  | slashes (n : Nat) : Marker (List.replicate (n + 2) '/')
  | opener (n : Nat) : Marker ('/' :: List.replicate (n + 1) '*')
  | stars (n : Nat) : Marker (List.replicate (n + 1) '*')
  | hashes (n : Nat) : Marker (List.replicate (n + 1) '#')
  | semicolons (n : Nat) : Marker (List.replicate (n + 1) ';')
  | angle : Marker "<!--".toList
  | brackets : Marker "--[[".toList
  | dashes : Marker "--".toList

/-- What may stand before a directive: gaps around at most one marker. -/
def Lead (text : List Char) : Prop :=
  ∃ before marker after, Gaps before ∧ Gaps after ∧ (marker = [] ∨ Marker marker) ∧
    text = before ++ marker ++ after

theorem eq_replicate_of_all {c : Char} {run : List Char} (h : run.all (· = c) = true) :
    run = List.replicate run.length c := by
  refine List.eq_replicate_iff.mpr ⟨rfl, fun x hx => ?_⟩
  simpa using List.all_eq_true.mp h x hx

theorem isMarker_iff {run : List Char} : isMarker run = true ↔ Marker run := by
  constructor
  · intro h
    unfold isMarker at h
    split at h
    · next rest =>
      rw [eq_replicate_of_all h]
      exact Marker.slashes rest.length
    · next rest =>
      rw [eq_replicate_of_all h]
      exact Marker.opener rest.length
    · next rest =>
      rw [eq_replicate_of_all h]
      exact Marker.stars rest.length
    · next rest =>
      rw [eq_replicate_of_all h]
      exact Marker.hashes rest.length
    · next rest =>
      rw [eq_replicate_of_all h]
      exact Marker.semicolons rest.length
    · simp only [Bool.or_eq_true, decide_eq_true_eq] at h
      rcases h with (rfl | rfl) | rfl
      · exact Marker.angle
      · exact Marker.brackets
      · exact Marker.dashes
  · intro h
    cases h with
    | slashes n => simp [isMarker, List.replicate_succ]
    | opener n => simp [isMarker, List.replicate_succ]
    | stars n => simp [isMarker, List.replicate_succ]
    | hashes n => simp [isMarker, List.replicate_succ]
    | semicolons n => simp [isMarker, List.replicate_succ]
    | angle => decide
    | brackets => decide
    | dashes => decide

/-- A marker is not empty, and holds neither a gap nor an `@`. -/
theorem Marker.not_isGap {run : List Char} (h : Marker run) :
    run ≠ [] ∧ ∀ c ∈ run, isGap c = false ∧ c ≠ '@' := by
  cases h with
  | slashes n | stars n | hashes n | semicolons n =>
    refine ⟨by simp [List.replicate_succ], fun c hc => ?_⟩
    obtain rfl := List.eq_of_mem_replicate hc
    decide
  | opener n =>
    refine ⟨by simp, fun c hc => ?_⟩
    rcases List.mem_cons.mp hc with rfl | hc
    · decide
    · obtain rfl := List.eq_of_mem_replicate hc
      decide
  | angle | brackets | dashes => simp [isGap]

theorem lead_nil : Lead [] :=
  ⟨[], [], [], List.forall_mem_nil _, List.forall_mem_nil _, Or.inl rfl, rfl⟩

/-- A text passes as a lead exactly if it is one. -/
theorem isLead_iff {text : List Char} : isLead text = true ↔ Lead text := by
  simp only [isLead, Bool.or_eq_true, decide_eq_true_eq, isMarker_iff]
  constructor
  · intro h
    obtain ⟨before, after, hbefore, hafter, heq⟩ := exists_eq_append_trimGaps text
    exact ⟨before, trimGaps text, after, hbefore, hafter, h, heq⟩
  · -- A marker holds no gap, so trimming leaves all of it.
    rintro ⟨before, marker, after, hbefore, hafter, hmarker, rfl⟩
    rw [trimGaps_append hbefore hafter]
    · exact hmarker
    · rcases hmarker with rfl | hmarker
      · exact fun c hc => absurd hc List.not_mem_nil
      · exact fun c hc => (hmarker.not_isGap.2 c hc).1

/-- No lead contains an `@`. -/
theorem Lead.not_mem {text : List Char} (h : Lead text) : '@' ∉ text := by
  obtain ⟨before, marker, after, hbefore, hafter, hmarker, rfl⟩ := h
  have hgap : ∀ gaps : List Char, Gaps gaps → '@' ∉ gaps := fun gaps hgaps hc =>
    absurd (hgaps '@' hc) (by decide)
  simp only [List.mem_append, not_or]
  refine ⟨⟨hgap before hbefore, ?_⟩, hgap after hafter⟩
  rcases hmarker with rfl | hmarker
  · exact List.not_mem_nil
  · exact fun hc => (hmarker.not_isGap.2 _ hc).2 rfl

/-- Where a directive starts: at the first `@`, after a lead. -/
theorem directiveBody?_eq_some_iff {segment body : List Char} :
    directiveBody? segment = some body ↔ ∃ lead, Lead lead ∧ segment = lead ++ '@' :: body := by
  constructor
  · intro h
    unfold directiveBody? at h
    split at h
    · exact absurd h (by simp)
    · next c rest heq =>
      split at h
      · next hlead =>
        obtain rfl := Option.some.inj h
        obtain rfl : c = '@' := by simpa using not_of_dropWhile heq
        refine ⟨segment.takeWhile (· ≠ '@'), isLead_iff.mp hlead, ?_⟩
        rw [← heq, List.takeWhile_append_dropWhile]
      · exact absurd h (by simp)
  · -- The first `@` is the one of the directive, because no lead holds one.
    rintro ⟨lead, hlead, rfl⟩
    have hnot : ∀ c ∈ lead, decide (c ≠ '@') = true := fun c hc =>
      decide_eq_true fun heq => hlead.not_mem (heq ▸ hc)
    rw [directiveBody?, List.dropWhile_append_of_pos hnot, List.takeWhile_append_of_pos hnot]
    simp [isLead_iff.mpr hlead]

/-! ## After a directive -/

/-- The comment terminators. -/
inductive Terminator : List Char → Prop where
  | stars (n : Nat) : Terminator (List.replicate (n + 1) '*' ++ ['/'])
  | arrow : Terminator "-->".toList
  | brackets : Terminator "]]".toList

/-- What may stand after a directive: gaps around at most one terminator. -/
def Tail (text : List Char) : Prop :=
  ∃ before terminator after, Gaps before ∧ Gaps after ∧ (terminator = [] ∨ Terminator terminator) ∧
    text = before ++ terminator ++ after

theorem isTerminator_iff {run : List Char} : isTerminator run = true ↔ Terminator run := by
  constructor
  · intro h
    unfold isTerminator at h
    split at h
    · next rest =>
      -- After the first star there are stars only, and then the slash.
      have hstars : (rest.takeWhile (· = '*')).all (· = '*') = true :=
        List.all_eq_true.mpr fun _ hc => List.mem_takeWhile_imp (p := fun x => decide (x = '*')) hc
      have hsplit : rest = rest.takeWhile (· = '*') ++ ['/'] := by
        rw [← of_decide_eq_true h, List.takeWhile_append_dropWhile]
      rw [hsplit, eq_replicate_of_all hstars]
      exact Terminator.stars _
    · simp only [Bool.or_eq_true, decide_eq_true_eq] at h
      rcases h with rfl | rfl
      · exact Terminator.arrow
      · exact Terminator.brackets
  · intro h
    cases h with
    | stars n =>
      have hdrop : (List.replicate n '*' ++ ['/']).dropWhile (· = '*') = ['/'] := by
        rw [List.dropWhile_append_of_pos fun c hc => by simp [List.eq_of_mem_replicate hc]]
        rfl
      simp [isTerminator, List.replicate_succ, hdrop]
    | arrow => decide
    | brackets => decide

/-- A terminator holds no gap. -/
theorem Terminator.not_isGap {run : List Char} (h : Terminator run) : ∀ c ∈ run, isGap c = false := by
  cases h with
  | stars n =>
    intro c hc
    simp only [List.mem_append, List.mem_replicate, List.mem_singleton] at hc
    rcases hc with ⟨-, rfl⟩ | rfl <;> decide
  | arrow | brackets => simp [isGap]

theorem Terminator.ne_nil {run : List Char} (h : Terminator run) : run ≠ [] := by
  cases h <;> simp

theorem Terminator.not_isSpace {run : List Char} (h : Terminator run) : ∀ c ∈ run, isSpace c = false := by
  cases h with
  | stars n =>
    intro c hc
    simp only [List.mem_append, List.mem_replicate, List.mem_singleton] at hc
    rcases hc with ⟨-, rfl⟩ | rfl <;> decide
  | arrow | brackets => simp [isSpace]

theorem tail_nil : Tail [] :=
  ⟨[], [], [], List.forall_mem_nil _, List.forall_mem_nil _, Or.inl rfl, rfl⟩

/-- A text passes as a tail exactly if it is one. -/
theorem isTail_iff {text : List Char} : isTail text = true ↔ Tail text := by
  simp only [isTail, Bool.or_eq_true, decide_eq_true_eq, isTerminator_iff]
  constructor
  · intro h
    obtain ⟨before, after, hbefore, hafter, heq⟩ := exists_eq_append_trimGaps text
    exact ⟨before, trimGaps text, after, hbefore, hafter, h, heq⟩
  · rintro ⟨before, terminator, after, hbefore, hafter, hterminator, rfl⟩
    rw [trimGaps_append hbefore hafter]
    · exact hterminator
    · rcases hterminator with rfl | hterminator
      · exact fun c hc => absurd hc List.not_mem_nil
      · exact hterminator.not_isGap

end Directive
end ThreatModel
