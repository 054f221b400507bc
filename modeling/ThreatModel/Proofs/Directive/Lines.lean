import Mathlib
import ThreatModel.Directive
import ThreatModel.Proofs.Text

/-!
# `Proofs.Directive.Lines` — directives line by line

A directive never reaches over a line feed. The directives of a text are those of its lines, each at its own
line; only their order differs, because a text lists its declarations first. So are the directives of lines that
are joined by line feeds, whatever carriage returns the lines hold.

## Contents

* `Occurrence.atLine` — a directive as it is found on a given line.
* `parse_perm` — the directives of a text, segment by segment.
* `parse_line_perm`, `parse_intercalate_perm` — the directives of one line, and of joined lines.
-/

namespace ThreatModel
namespace Directive

open Text

/-! ## The line of a directive -/

/-- The directive as it is found on another line. -/
def Occurrence.atLine (o : Occurrence) (line : Nat) : Occurrence := { o with line }

/-- The line of a segment decides the line of its directive and nothing else. -/
theorem occurrence?_eq (line other : Nat) (segment : List Char) :
    occurrence? line segment = (occurrence? other segment).map (·.atLine line) := by
  -- The line is used by the last stage alone, so the stages before it are the same.
  unfold occurrence?
  cases directiveBody? segment with
  | none => rfl
  | some body =>
    simp only [Option.bind_eq_bind, Option.bind_some]
    cases Family.ofKeyword? (body.takeWhile fun c => !isGap c) with
    | none => rfl
    | some family =>
      simp only [Option.bind_some]
      cases phrase? family.form (body.dropWhile fun c => !isGap c) with
      | none => rfl
      | some phrase =>
        simp only [Option.bind_some]
        cases Statement.ofFields? family phrase.words phrase.fields with
        | none => rfl
        | some statement => rfl

theorem line_of_mem_lineOccurrences {line : Nat} {segments : List (List Char)} {o : Occurrence}
    (h : o ∈ lineOccurrences line segments) : o.line = line := by
  obtain ⟨segment, _, hsegment⟩ := List.mem_filterMap.mp h
  rw [occurrence?_eq line 0] at hsegment
  obtain ⟨found, _, rfl⟩ := Option.map_eq_some_iff.mp hsegment
  rfl

/-- The directives of the segments of a line, found on another line. -/
theorem lineOccurrences_eq (line other : Nat) (segments : List (List Char)) :
    lineOccurrences line segments = (lineOccurrences other segments).map (·.atLine line) := by
  simp only [lineOccurrences, List.map_filterMap]
  congr 1
  funext segment
  exact occurrence?_eq line other segment

/-- An empty segment holds no directive. -/
@[simp] theorem occurrence?_nil (line : Nat) : occurrence? line [] = none := rfl

/-- A carriage return at the end of a line changes none of its directives. -/
theorem lineOccurrences_dropReturn (number : Nat) (line : List Char) :
    lineOccurrences number (splitOn '\r' (dropReturn line)) = lineOccurrences number (splitOn '\r' line) := by
  rcases splitOn_dropReturn line with h | h
  · rw [h]
  · rw [h, lineOccurrences, lineOccurrences, List.filterMap_append]
    simp

/-! ## The order of a listing -/

/-- Grouping a list by keys keeps what it holds, if every key is listed once. -/
theorem flatMap_filter_perm {α κ : Type} [DecidableEq κ] {key : α → κ} {keys : List κ} {xs : List α}
    (hnodup : keys.Nodup) (hall : ∀ x ∈ xs, key x ∈ keys) :
    (keys.flatMap fun k => xs.filter fun x => key x = k).Perm xs := by
  induction keys generalizing xs with
  | nil =>
    cases xs with
    | nil => exact List.Perm.nil
    | cons x rest => exact absurd (hall x List.mem_cons_self) List.not_mem_nil
  | cons k more ih =>
    obtain ⟨hk, hmore⟩ := List.nodup_cons.mp hnodup
    -- The other keys find all they have among what the first key leaves.
    have hrest : (more.flatMap fun k' => xs.filter fun x => key x = k')
        = more.flatMap fun k' => (xs.filter fun x => !decide (key x = k)).filter fun x => key x = k' := by
      refine List.flatMap_congr fun k' hk' => ?_
      rw [List.filter_filter]
      refine List.filter_congr fun x _ => ?_
      by_cases h : key x = k'
      · have hne : k' ≠ k := fun e => hk (e ▸ hk')
        simp [h, hne]
      · simp [h]
    rw [List.flatMap_cons, hrest]
    refine (List.Perm.append_left _ (ih hmore ?_)).trans (List.filter_append_perm _ xs)
    intro x hx
    obtain ⟨hx, hne⟩ := List.mem_filter.mp hx
    have hne : key x ≠ k := by simpa using hne
    exact (List.mem_cons.mp (hall x hx)).resolve_left hne

theorem Family.nodup_all : Family.all.Nodup := by decide

theorem Family.mem_all (family : Family) : family ∈ Family.all := by cases family <;> decide

/-- A listing by families holds what was found, in another order. -/
theorem inFamilies_perm (found : List Occurrence) :
    (inFamilies Family.declarations found ++ inFamilies Family.relations found).Perm found := by
  rw [inFamilies, inFamilies, ← List.flatMap_append]
  exact flatMap_filter_perm Family.nodup_all fun o _ => Family.mem_all o.family

/-- **The directives of a text** are those of its segments, in another order. -/
theorem parse_perm (text : List Char) :
    (parse text).Perm ((segments text).zipIdx.flatMap fun (line, number) => lineOccurrences number line) := by
  simp only [parse, List.flatMap_map]
  refine (List.flatMap_append_perm _ _ _).trans ?_
  exact List.Perm.flatMap_left _ fun line _ => inFamilies_perm _

/-! ## Single lines and joined lines -/

/-- The directives of a single line. -/
theorem parse_line_perm {line : List Char} (h : '\n' ∉ line) :
    (parse line).Perm (lineOccurrences 0 (splitOn '\r' line)) := by
  have hperm := parse_perm line
  rw [segments_of_not_mem h] at hperm
  simpa using hperm

/-- The directives of a single line, found on another line. -/
theorem parse_line_atLine_perm {line : List Char} (number : Nat) (h : '\n' ∉ line) :
    ((parse line).map (·.atLine number)).Perm (lineOccurrences number (splitOn '\r' line)) := by
  rw [lineOccurrences_eq number 0]
  exact (parse_line_perm h).map _

/-- **The directives of joined lines** are those of the lines, each found on its own line; the lines are counted
from any number on. -/
theorem parse_intercalate_perm {lines : List (List Char)} (start : Nat) (hne : lines ≠ [])
    (h : ∀ line ∈ lines, '\n' ∉ line) :
    ((parse (['\n'].intercalate lines)).map fun o => o.atLine (start + o.line)).Perm
      ((lines.zipIdx start).flatMap fun (line, number) => (parse line).map (·.atLine number)) := by
  -- Only the last line keeps the carriage return at its end, and it makes no difference.
  have hsegments : ((segments (['\n'].intercalate lines)).zipIdx.flatMap fun (line, number) =>
        lineOccurrences number line)
      = lines.zipIdx.flatMap fun (line, number) => lineOccurrences number (splitOn '\r' line) := by
    rw [segments_intercalate hne h]
    conv_rhs => rw [← List.dropLast_append_getLast hne]
    simp only [List.map_append, List.map_map, List.zipIdx_append, List.zipIdx_map, List.flatMap_append,
      List.flatMap_map, List.length_map, Prod.map_fst, Prod.map_snd, Function.comp_apply, id_eq,
      lineOccurrences_dropReturn]
  have hperm := (parse_perm (['\n'].intercalate lines)).map fun o => o.atLine (start + o.line)
  rw [hsegments, List.map_flatMap] at hperm
  refine hperm.trans ?_
  -- Counting from any number on is counting from zero and adding that number.
  have hstart : lines.zipIdx start = lines.zipIdx.map (Prod.map id (· + start)) :=
    (List.map_snd_add_zipIdx_eq_zipIdx (k := 0)).symm
  rw [hstart, List.flatMap_map]
  refine List.Perm.flatMap_left _ ?_
  rintro ⟨line, number⟩ hmem
  refine List.Perm.trans (List.Perm.of_eq ?_)
    (parse_line_atLine_perm (number + start) (h line (List.fst_mem_of_mem_zipIdx hmem))).symm
  rw [lineOccurrences_eq (number + start) number]
  refine List.map_congr_left fun o ho => ?_
  rw [line_of_mem_lineOccurrences ho, Nat.add_comm]

/-! ## Texts without a directive -/

theorem directiveBody?_of_not_mem {segment : List Char} (h : '@' ∉ segment) :
    directiveBody? segment = none := by
  have hdrop : segment.dropWhile (· ≠ '@') = [] := by
    rw [List.dropWhile_eq_nil_iff]
    intro c hc
    simpa using fun e : c = '@' => h (e ▸ hc)
  rw [directiveBody?, hdrop]

theorem occurrence?_of_not_mem {segment : List Char} (line : Nat) (h : '@' ∉ segment) :
    occurrence? line segment = none := by
  simp [occurrence?, directiveBody?_of_not_mem h]

/-- A text without an `@` holds no directive. -/
theorem parse_of_not_mem {text : List Char} (h : '@' ∉ text) : parse text = [] := by
  refine List.perm_nil.mp ((parse_perm text).trans (List.Perm.of_eq ?_))
  rw [List.flatMap_eq_nil_iff]
  rintro ⟨line, number⟩ hmem
  refine List.filterMap_eq_nil_iff.mpr fun segment hsegment => occurrence?_of_not_mem number fun hc => h ?_
  exact (sublist_of_mem_segments (List.fst_mem_of_mem_zipIdx hmem) hsegment).subset hc

end Directive
end ThreatModel
