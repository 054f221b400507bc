import Mathlib
import ThreatModel.Graph
import ThreatModel.Proofs.Directive.Statement
import ThreatModel.Proofs.Directive.TextOrder

/-!
# `Proofs.History` — models built step by step, and the relations they hold

A model is built by a history of steps: blocks are parsed, or searched first and merged later, runs are started and
libraries imported. Of the relations of every sort a history keeps what was there and adds a record for each
directive of that sort, in the order of the blocks and of the text in them. The line of a record is a machine word: it
is the line of the block and the line in the block together, as long as a machine word can hold their sum.

## Contents

* `Graph.Event`, `Graph.step`, `Graph.after`, `Graph.answers` — histories, and what they make of a model.
* `Relations.sequence`, `sequence_push` — the relations of one sort.
* `Block.provenance`, `Recorded` — the record of a directive.
* `line_provenance` — its line, where machine words hold the sum of the lines.
* `Grows` — a sequence with records of some directives added, and the steps that add them.
* `relations_after` — what a history makes of the relations.
-/

namespace ThreatModel

open Directive

/-! ## Histories -/

namespace Graph

/-- A step in the history of a model. -/
inductive Event where
  /-- A block is searched and its directives are applied. -/
  | parse (block : Block)
  /-- The directives of a block that was searched before are applied. -/
  | merge (block : Block)
  | startRun (runId : String)
  | importLibrary (library : Registry)

/-- The block of a step that has one. -/
def Event.block? : Event → Option Block
  | .parse block | .merge block => some block
  | .startRun _ | .importLibrary _ => none

/-- The model after one step. -/
def step (g : Graph) : Event → Graph
  | .parse block => (g.parse block).1
  | .merge block => (g.merge block.scan).1
  | .startRun runId => g.startRun runId
  | .importLibrary library => g.importLibrary library

/-- What one step answers. -/
def answer? (g : Graph) : Event → Option Nat
  | .parse block => some (g.parse block).2
  | .merge block => some (g.merge block.scan).2
  | .startRun _ | .importLibrary _ => none

/-- The model after a history. -/
def after (g : Graph) (events : List Event) : Graph := events.foldl step g

/-- What the steps of a history answer, one after the other. -/
def answers (g : Graph) : List Event → List Nat
  | [] => []
  | event :: events => (g.answer? event).toList ++ (g.step event).answers events

@[simp] theorem after_nil (g : Graph) : g.after [] = g := rfl

@[simp] theorem after_cons (g : Graph) (event : Event) (events : List Event) :
    g.after (event :: events) = (g.step event).after events := rfl

/-! ## Merging a block -/

/-- Merging applies the directives of a block one after the other, and counts them. -/
theorem merge_eq (g : Graph) (found : ScannedBlock) :
    g.merge found
      = (found.occurrences.foldl (fun g o => g.apply found.block.location o) g, found.occurrences.length) := by
  have hcount : ∀ (os : List Occurrence) (g : Graph) (n : Nat),
      os.foldl (fun (state : Graph × Nat) o => (state.1.apply found.block.location o, state.2 + 1)) (g, n)
        = (os.foldl (fun g o => g.apply found.block.location o) g, n + os.length) := by
    intro os
    induction os with
    | nil => intro g n; rfl
    | cons o rest ih =>
      intro g n
      rw [List.foldl_cons, ih, List.foldl_cons, List.length_cons]
      congr 1
      omega
  have hmerge := hcount found.occurrences g 0
  rwa [Nat.zero_add] at hmerge

/-- A step with a block applies the directives that the block lists. -/
theorem step_block {event : Event} {block : Block} (h : event.block? = some block) (g : Graph) :
    g.step event = (Directive.parse block.text.toList).foldl (fun g o => g.apply block.location o) g ∧
    g.answer? event = some (Directive.parse block.text.toList).length := by
  cases event with
  | parse other | merge other =>
    obtain rfl := Option.some.inj h
    simp only [step, answer?, Graph.parse, merge_eq, Block.scan, and_self]
  | startRun runId => cases h
  | importLibrary library => cases h

end Graph

/-! ## The relations of one sort -/

/-- The relations of the sort that a family states. -/
def Relations.sequence (rs : Relations) : Family → List Relation
  | .mitigate => rs.mitigations.map .mitigation
  | .accept => rs.acceptances.map .acceptance
  | .transfer => rs.transfers.map .transfer
  | .expose => rs.exposures.map .exposure
  | .connect => rs.connections.map .connection
  | .review => rs.reviews.map .review
  | .test => rs.tests.map .test
  | .component | .control | .threat => []

/-- A relation is added at the end of the relations of its sort. -/
theorem Relations.sequence_push (rs : Relations) (r : Relation) (family : Family) :
    (rs.push r).sequence family = rs.sequence family ++ if r.family = family then [r] else [] := by
  cases r <;> cases family <;> simp [push, sequence, Relation.family]

/-! ## The record of a directive -/

/-- Where a directive of a block was found. Lines are added as machine words. -/
def Block.provenance (block : Block) (o : Occurrence) : Source where
  directive := o.text
  code := (block.location.map (·.code)).getD ""
  filename := (block.location.map (·.filename)).getD ""
  line := (block.location.map fun l => (l.line + o.line) % 2 ^ 64).getD 0

theorem sourceOf_eq (block : Block) (o : Occurrence) : Graph.sourceOf block.location o = block.provenance o := by
  unfold Graph.sourceOf Block.provenance
  cases block.location <;> rfl

/-- **The line of a directive** is the line of its block and its line in the block together, if that is a machine word. -/
theorem line_provenance {block : Block} {l : Location} {o : Occurrence} (hlocation : block.location = some l)
    (hword : l.line + o.line < 2 ^ 64) : (block.provenance o).line = l.line + o.line := by
  show (block.location.map fun l => (l.line + o.line) % 2 ^ 64).getD 0 = l.line + o.line
  rw [hlocation, Option.map_some, Option.getD_some]
  exact Nat.mod_eq_of_lt hword

/-- The record that is kept of a directive found in a block: the relation that the directive states, without
description and extension, and with the place where the directive was found. -/
def Recorded (record : Relation) (found : Block × Occurrence) : Prop :=
  ∃ r, found.2.statement = .relation r ∧ r.family = found.2.family ∧
    record = r.withAnnex { description := "", custom := {}, source := found.1.provenance found.2 }

/-! ## Sequences that grow -/

/-- The relations of a sort in the second model are those in the first one and then the records of some
directives, in their order. -/
def Grows (family : Family) (before after : Graph) (found : List (Block × Occurrence)) : Prop :=
  ∃ added, after.relations.sequence family = before.relations.sequence family ++ added ∧
    added.Forall₂ Recorded found

namespace Grows

variable {family : Family} {g h k : Graph}

/-- Nothing is added to relations that stay as they are. -/
theorem of_eq (heq : h.relations = g.relations) : Grows family g h [] :=
  ⟨[], by rw [heq, List.append_nil], List.Forall₂.nil⟩

/-- What is added first stands first. -/
theorem trans {first second : List (Block × Occurrence)} (hfirst : Grows family g h first)
    (hsecond : Grows family h k second) : Grows family g k (first ++ second) := by
  obtain ⟨added, heq, hadded⟩ := hfirst
  obtain ⟨more, heqMore, hmore⟩ := hsecond
  refine ⟨added ++ more, ?_, List.rel_append hadded hmore⟩
  rw [heqMore, heq, List.append_assoc]

/-- A directive adds its record to the relations of its own sort. -/
theorem apply (hfamily : family ∈ Family.relations) {o : Occurrence} (hstated : o.statement.family = o.family)
    (hbare : o.statement.bare = o.statement) (g : Graph) (block : Block) :
    Grows family g (g.apply block.location o) (if o.family = family then [(block, o)] else []) := by
  unfold Graph.apply
  cases hstatement : o.statement with
  | declaration kind name description =>
    -- No family of relations has declarations.
    have hne : o.family ≠ family := by
      rintro rfl
      rw [← hstated] at hfamily
      obtain ⟨r, hr, -⟩ := Statement.exists_relation hfamily
      cases hr.symm.trans hstatement
    rw [if_neg hne]
    exact of_eq rfl
  | relation r =>
    rw [hstatement] at hstated hbare
    have hannex : r.withAnnex {} = r := Statement.relation.inj hbare
    have hrecord : r.withSource (Graph.sourceOf block.location o)
        = r.withAnnex { description := "", custom := {}, source := block.provenance o } := by
      rw [← hannex, Relation.withSource_eq, sourceOf_eq]
      cases r <;> rfl
    show Grows family g (g.append (r.withSource (Graph.sourceOf block.location o))) _
    rw [hrecord]
    have hsort : r.family = o.family := hstated
    have hpush := Relations.sequence_push g.relations
      (r.withAnnex { description := "", custom := {}, source := block.provenance o }) family
    rw [Relation.family_withAnnex, hsort] at hpush
    by_cases heq : o.family = family
    · rw [if_pos heq] at hpush
      rw [if_pos heq]
      exact ⟨_, hpush, List.Forall₂.cons ⟨r, hstatement, hsort, rfl⟩ List.Forall₂.nil⟩
    · rw [if_neg heq] at hpush
      rw [if_neg heq]
      exact ⟨_, hpush, List.Forall₂.nil⟩

/-- Directives that are applied one after the other add their records in this order. -/
theorem foldl_apply (hfamily : family ∈ Family.relations) (block : Block) {occurrences : List Occurrence}
    (hstated : ∀ o ∈ occurrences, o.statement.family = o.family ∧ o.statement.bare = o.statement) (g : Graph) :
    Grows family g (occurrences.foldl (fun g o => g.apply block.location o) g)
      ((occurrences.filter (·.family = family)).map (Prod.mk block)) := by
  induction occurrences generalizing g with
  | nil => exact of_eq rfl
  | cons o rest ih =>
    have hfirst := hstated o List.mem_cons_self
    have hrest := ih (fun other hother => hstated other (List.mem_cons_of_mem _ hother)) (g.apply block.location o)
    have hboth := (apply hfamily hfirst.1 hfirst.2 g block).trans hrest
    rw [List.foldl_cons, List.filter_cons]
    by_cases heq : o.family = family
    · rw [if_pos heq] at hboth
      rwa [if_pos (decide_eq_true heq)]
    · rw [if_neg heq] at hboth
      rwa [if_neg (by simpa using heq)]

/-- One step adds a record for each directive of its block, in the order of the text. -/
theorem step (hfamily : family ∈ Family.relations) (g : Graph) (event : Graph.Event) :
    Grows family g (g.step event)
      (event.block?.toList.flatMap fun block =>
        ((inTextOrder block.text.toList).filter (·.family = family)).map (Prod.mk block)) := by
  cases hblock : event.block? with
  | some block =>
    rw [(Graph.step_block hblock g).1, Option.toList_some, List.flatMap_singleton, ← filter_family_parse]
    exact foldl_apply hfamily block (fun o ho => statement_of_mem_parse ho) g
  | none =>
    cases event with
    | parse block => cases hblock
    | merge block => cases hblock
    | startRun runId => exact of_eq rfl
    | importLibrary library => exact of_eq rfl

/-- A history adds what its steps add, one step after the other. -/
theorem after (hfamily : family ∈ Family.relations) (g : Graph) (events : List Graph.Event) :
    Grows family g (g.after events)
      ((events.filterMap Graph.Event.block?).flatMap fun block =>
        ((inTextOrder block.text.toList).filter (·.family = family)).map (Prod.mk block)) := by
  induction events generalizing g with
  | nil => exact of_eq rfl
  | cons event events ih =>
    have hboth := (step hfamily g event).trans (ih (g.step event))
    rw [← List.flatMap_append] at hboth
    cases hblock : event.block? with
    | none =>
      rw [hblock] at hboth
      rwa [List.filterMap_cons_none hblock]
    | some block =>
      rw [hblock] at hboth
      rwa [List.filterMap_cons_some hblock]

end Grows

namespace Graph

theorem answers_eq (g : Graph) (events : List Event) :
    g.answers events = (events.filterMap Event.block?).map fun block =>
      (Directive.parse block.text.toList).length := by
  induction events generalizing g with
  | nil => rfl
  | cons event events ih =>
    rw [answers, ih]
    cases hblock : event.block? with
    | some block =>
      rw [(step_block hblock g).2, List.filterMap_cons_some hblock]
      rfl
    | none =>
      rw [List.filterMap_cons_none hblock]
      cases event with
      | parse block => cases hblock
      | merge block => cases hblock
      | startRun runId => rfl
      | importLibrary library => rfl

/-- **What a history makes of the relations.** The relations of every sort are those at the start and then a record
for each directive of that sort, in the order of the blocks and within a block in the order of the text; and every
block is answered with the number of declarations and of other directives in it. The line of a record is the sum of
machine words, and so it is the sum of the two lines wherever a machine word holds it. -/
theorem relations_after (g : Graph) (events : List Event) :
    (∀ family ∈ Family.relations, ∃ added,
      (g.after events).relations.sequence family = g.relations.sequence family ++ added ∧
      added.Forall₂ Recorded
        ((events.filterMap Event.block?).flatMap fun block =>
          ((inTextOrder block.text.toList).filter (·.family = family)).map (Prod.mk block))) ∧
    (g.answers events = (events.filterMap Event.block?).map fun block =>
      (inTextOrder block.text.toList).countP (·.family.isDeclaration)
        + (inTextOrder block.text.toList).countP (!·.family.isDeclaration)) ∧
    ∀ (block : Block) (l : Location), block.location = some l → ∀ o : Occurrence, l.line + o.line < 2 ^ 64 →
      (block.provenance o).line = l.line + o.line := by
  refine ⟨?_, ?_, ?_⟩
  · intro family hfamily
    exact Grows.after hfamily g events
  · rw [answers_eq]
    apply List.map_congr_left
    intro block _
    exact length_parse _
  · intro block l hlocation o hword
    exact line_provenance hlocation hword

end Graph
end ThreatModel
