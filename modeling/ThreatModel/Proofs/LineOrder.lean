import Mathlib
import ThreatModel.Proofs.BlockOrder

/-!
# `Proofs.LineOrder` — the order of the lines of a block

A block is read in two passes: all its declarations are applied before any of its relations. So a model does not depend
on how the lines with declarations and the lines with relations lie between each other, nor on the prose around them,
as long as each of the two kinds of lines keeps its own order. What changes is the line at which a relation was found.

## Contents

* `Text.bareLines` — the lines of a text without their ends.
* `declaringLines`, `relatingLines` — the lines that hold declarations, and those that hold other directives.
* `parse_atLine` — what a text lists is what these lines list, but for the lines.
* `Relation.SameButLine`, `sameButLine_of_recorded` — the records of directives that are found on other lines.
* `parse_of_sameLines` — the model after a block with its lines in another order.
-/

namespace ThreatModel

/-- The lines of a text without their ends. -/
def Text.bareLines (text : List Char) : List (List Char) := (Text.splitOn '\n' text).map Text.dropReturn

namespace Directive

open Text

/-! ## Lines with declarations, and lines with other directives -/

/-- The lines of a text that hold declarations. -/
def declaringLines (text : List Char) : List (List Char) :=
  (bareLines text).filter fun line => !(declared line).isEmpty

/-- The lines of a text that hold directives other than declarations. -/
def relatingLines (text : List Char) : List (List Char) :=
  (bareLines text).filter fun line => !(related line).isEmpty

/-- Elements that yield nothing can be left out. -/
theorem flatMap_filter_not_isEmpty {α β : Type} (f : α → List β) (xs : List α) :
    (xs.filter fun x => !(f x).isEmpty).flatMap f = xs.flatMap f := by
  have hmap : (xs.filter fun x => !(f x).isEmpty).map f = (xs.map f).filter fun ys => !ys.isEmpty := by
    rw [List.filter_map]
    rfl
  rw [List.flatMap_def, List.flatMap_def, hmap, List.flatten_filter_not_isEmpty]

theorem inFamilies_atLine (families : List Family) (line : Nat) (occurrences : List Occurrence) :
    inFamilies families (occurrences.map (·.atLine line)) = (inFamilies families occurrences).map (·.atLine line) := by
  rw [inFamilies, inFamilies, List.map_flatMap]
  apply List.flatMap_congr
  intro family _
  rw [List.filter_map]
  rfl

/-- Line by line a text lists what its lines list. -/
theorem listing_atLine (families : List Family) (text : List Char) :
    ((found text).flatMap (inFamilies families)).map (·.atLine 0)
      = (bareLines text).flatMap fun line => (found line).flatMap (inFamilies families) := by
  have hline : ∀ part ∈ splitOn '\n' text, ∀ number,
      (inFamilies families (lineOccurrences number (splitOn '\r' part))).map (·.atLine 0)
        = (found (dropReturn part)).flatMap (inFamilies families) := by
    intro part hpart number
    have hfeed : '\n' ∉ dropReturn part := fun hmem =>
      (sublist_of_mem_splitOn hpart).2 ((dropReturn_sublist part).subset hmem)
    rw [← inFamilies_atLine, ← lineOccurrences_eq, ← lineOccurrences_dropReturn, found_eq, splitOn_of_not_mem hfeed]
    simp
  rw [found_eq, bareLines, List.flatMap_map, List.flatMap_map, List.map_flatMap]
  -- The numbers of the lines are gone with the lines of the directives.
  have hlines : ∀ entry ∈ (splitOn '\n' text).zipIdx,
      (inFamilies families (lineOccurrences entry.2 (splitOn '\r' entry.1))).map (·.atLine 0)
        = (fun part => (found (dropReturn part)).flatMap (inFamilies families)) entry.1 :=
    fun entry hentry => hline entry.1 (List.fst_mem_of_mem_zipIdx hentry) entry.2
  rw [List.flatMap_congr hlines]
  conv_rhs => rw [← List.zipIdx_map_fst 0 (splitOn '\n' text), List.flatMap_map]

theorem declared_atLine (text : List Char) : (declared text).map (·.atLine 0) = (declaringLines text).flatMap declared := by
  rw [declaringLines, flatMap_filter_not_isEmpty, declared_eq, listing_atLine]
  exact List.flatMap_congr fun line _ => (declared_eq line).symm

theorem related_atLine (text : List Char) : (related text).map (·.atLine 0) = (relatingLines text).flatMap related := by
  rw [relatingLines, flatMap_filter_not_isEmpty, related_eq, listing_atLine]
  exact List.flatMap_congr fun line _ => (related_eq line).symm

/-- **What a text lists**, but for the lines, are the declarations of the lines that hold declarations, and then the
other directives of the lines that hold others. -/
theorem parse_atLine (text : List Char) :
    (parse text).map (·.atLine 0) = (declaringLines text).flatMap declared ++ (relatingLines text).flatMap related := by
  rw [parse_eq_append, List.map_append, declared_atLine, related_atLine]

end Directive

open Directive

/-! ## Records of directives on other lines -/

/-- Records that differ at most in the line at which the relation was found. -/
def Relation.SameButLine (r other : Relation) : Prop := ∃ line, other = r.withSource { r.annex.source with line }

/-- The record of the same directive on another line of a block at the same place. -/
theorem Recorded.sameButLine {first second : Relation} {location : Option Location} {text other : String}
    {o o' : Occurrence} (hsame : o.atLine 0 = o'.atLine 0) (h : Recorded first (⟨text, location⟩, o))
    (h' : Recorded second (⟨other, location⟩, o')) : first.SameButLine second := by
  obtain ⟨r, hr, -, rfl⟩ := h
  obtain ⟨r', hr', -, rfl⟩ := h'
  simp only [Occurrence.atLine, Occurrence.mk.injEq] at hsame
  obtain ⟨-, hstatement, htext, -⟩ := hsame
  obtain rfl := Statement.relation.inj (hr.symm.trans (hstatement.trans hr'))
  refine ⟨(Block.provenance ⟨other, location⟩ o').line, ?_⟩
  have hprovenance : Block.provenance ⟨other, location⟩ o'
      = { Block.provenance ⟨text, location⟩ o with line := (Block.provenance ⟨other, location⟩ o').line } := by
    simp only [Block.provenance, htext]
  rw [hprovenance]
  cases r <;> rfl

/-- The records of the same directives on other lines. -/
theorem sameButLine_of_recorded {location : Option Location} {text other : String} {records others : List Relation}
    {os os' : List Occurrence} (hsame : os.map (·.atLine 0) = os'.map (·.atLine 0))
    (h : records.Forall₂ Recorded (os.map (Prod.mk ⟨text, location⟩)))
    (h' : others.Forall₂ Recorded (os'.map (Prod.mk ⟨other, location⟩))) :
    records.Forall₂ Relation.SameButLine others := by
  rw [List.forall₂_map_right_iff] at h h'
  induction h generalizing others os' with
  | nil =>
    rw [List.map_nil, eq_comm, List.map_eq_nil_iff] at hsame
    subst hsame
    cases h'
    exact List.Forall₂.nil
  | @cons record o records os hrecord _ ih =>
    obtain ⟨o', more, rfl, ho, hmore⟩ := List.map_eq_cons_iff.mp hsame.symm
    cases h' with
    | cons hrecord' hrest =>
      exact List.Forall₂.cons (hrecord.sameButLine ho.symm hrecord') (ih hmore.symm hrest)

/-! ## Blocks with their lines in another order -/

namespace Graph

theorem step_parse (g : Graph) (block : Block) : g.step (.parse block) = (g.parse block).1 := rfl

/-- What is found on other lines offers the same records. -/
theorem registry_of_sameListing (g : Graph) (location : Option Location) {text other : List Char}
    (h : (Directive.parse text).map (·.atLine 0) = (Directive.parse other).map (·.atLine 0)) :
    (g.parse ⟨String.ofList text, location⟩).1.registry = (g.parse ⟨String.ofList other, location⟩).1.registry := by
  have hlisting : ∀ text : List Char, ∀ kind name,
      (Directive.parse text).findSome? (·.offer? g.registry.runId kind name)
        = ((Directive.parse text).map (·.atLine 0)).findSome? (·.offer? g.registry.runId kind name) := by
    intro text kind name
    rw [List.findSome?_map]
    rfl
  have hrecord : ∀ text : List Char, ∀ kind name,
      (g.parse ⟨String.ofList text, location⟩).1.registry.record? kind name
        = (g.registry.record? kind name).or
            (((Directive.parse text).map (·.atLine 0)).findSome? (·.offer? g.registry.runId kind name)) := by
    intro text kind name
    rw [← step_parse, (step_block rfl g).1, record?_foldl_apply, String.toList_ofList, hlisting]
  refine Registry.ext_record? ?_ fun kind name => ?_
  · rw [← step_parse, ← step_parse, runId_step_parse, runId_step_parse]
  · rw [hrecord, hrecord, h]

/-- What is found on other lines adds the same relations, but for their lines. -/
theorem relations_of_sameListing (g : Graph) (location : Option Location) {text other : List Char}
    (h : (Directive.parse text).map (·.atLine 0) = (Directive.parse other).map (·.atLine 0)) {family : Family}
    (hfamily : family ∈ Family.relations) :
    ∃ added others,
      (g.parse ⟨String.ofList text, location⟩).1.relations.sequence family = g.relations.sequence family ++ added ∧
      (g.parse ⟨String.ofList other, location⟩).1.relations.sequence family = g.relations.sequence family ++ others ∧
      added.Forall₂ Relation.SameButLine others := by
  have hgrows : ∀ text : List Char, Grows family g (g.parse ⟨String.ofList text, location⟩).1
      (((Directive.parse text).filter (·.family = family)).map (Prod.mk ⟨String.ofList text, location⟩)) := by
    intro text
    rw [← step_parse, (step_block rfl g).1, String.toList_ofList]
    exact Grows.foldl_apply hfamily _ (fun o ho => statement_of_mem_parse ho) g
  -- The line of a directive says nothing about its family.
  have hfilter : ∀ text : List Char, ((Directive.parse text).filter (·.family = family)).map (·.atLine 0)
      = ((Directive.parse text).map (·.atLine 0)).filter (·.family = family) := by
    intro text
    rw [List.filter_map]
    rfl
  obtain ⟨added, hsequence, hadded⟩ := hgrows text
  obtain ⟨others, hsequence', hothers⟩ := hgrows other
  exact ⟨added, others, hsequence, hsequence',
    sameButLine_of_recorded (by rw [hfilter, hfilter, h]) hadded hothers⟩

/-- **Only the order within each pass matters.** Two texts whose lines with declarations are the same in the same order,
and whose lines with other directives are, register the same entities when they are parsed at the same place, and add
the same relations, but for the lines at which these are found; all other lines may stand anywhere. A new name gets the
description of the first line that declares it, wherever the relations that use the name stand. -/
theorem parse_of_sameLines (g : Graph) (location : Option Location) {text other : List Char}
    (hdeclaring : declaringLines text = declaringLines other)
    (hrelating : relatingLines text = relatingLines other) :
    (g.parse ⟨String.ofList text, location⟩).1.registry = (g.parse ⟨String.ofList other, location⟩).1.registry ∧
    (∀ family ∈ Family.relations, ∃ added others,
      (g.parse ⟨String.ofList text, location⟩).1.relations.sequence family = g.relations.sequence family ++ added ∧
      (g.parse ⟨String.ofList other, location⟩).1.relations.sequence family = g.relations.sequence family ++ others ∧
      added.Forall₂ Relation.SameButLine others) ∧
    ∀ kind name description, g.registry.record? kind name = none →
      ((declaringLines text).flatMap declared).findSome? (·.declares? kind name) = some description →
      (g.parse ⟨String.ofList text, location⟩).1.registry.record? kind name
        = some (kind.first g.registry.runId name description) := by
  have hlisting : (Directive.parse text).map (·.atLine 0) = (Directive.parse other).map (·.atLine 0) := by
    rw [parse_atLine, parse_atLine, hdeclaring, hrelating]
  refine ⟨g.registry_of_sameListing location hlisting, fun family hfamily =>
    g.relations_of_sameListing location hlisting hfamily, fun kind name description hnew hfirst => ?_⟩
  have hdeclares : (inTextOrder text).findSome? (·.declares? kind name) = some description := by
    rw [← declares?_declared, ← hfirst, ← declared_atLine, List.findSome?_map]
    rfl
  have hrecord := record?_step g (.parse ⟨String.ofList text, location⟩) kind name
  rw [hnew, Option.none_or, step_parse] at hrecord
  rw [hrecord]
  simp only [Event.offer?, Block.offer?, String.toList_ofList, hdeclares]

/-- A relation above the two declarations of a component that it uses, and below them. -/
theorem parse_of_sameLines_declaredBelow :
    let g := empty "run 1"
    let location : Option Location := some ⟨"a.rs", 7, "fn main()"⟩
    let text := "@review Api soon\n@component Api -- entry\nprose\n@component Api -- other\n@tests WAF for Api".toList
    let other := "@component Api -- entry\r\n@component Api -- other\r\n@review Api soon\r\n@tests WAF for Api".toList
    declaringLines text = declaringLines other ∧ relatingLines text = relatingLines other ∧
      (g.parse ⟨String.ofList text, location⟩).1.registry = (g.parse ⟨String.ofList other, location⟩).1.registry ∧
      (g.parse ⟨String.ofList text, location⟩).1.registry.record? .component "Api"
        = some (EntityKind.component.first "run 1" "Api" "entry") := by
  intro g location text other
  have hdeclaring : declaringLines text = declaringLines other := by decide +kernel
  have hrelating : relatingLines text = relatingLines other := by decide +kernel
  have hsame := parse_of_sameLines g location hdeclaring hrelating
  exact ⟨hdeclaring, hrelating, hsame.1, hsame.2.2 .component "Api" "entry" rfl (by decide +kernel)⟩

end Graph
end ThreatModel
