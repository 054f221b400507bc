import Mathlib
import ThreatModel.Document
import ThreatModel.Proofs.Json.Prolong.Skip
import ThreatModel.Proofs.Json.Record
import ThreatModel.Proofs.Store.Outcome

/-!
# `Proofs.Document.Prolong` — a document that is cut off

A document is one object, which is read to its closing bracket. What is behind the bracket plays no part in what is
read, so two documents of which one goes on with the other differ in white space only. The text of a model ends in a
bracket: no part at its front is a document.

## Contents

* `prolongs_record` — records in longer texts.
* `Closes`, `closes_mapOf`, `closes_modelReader` — readers that stop at a closing bracket.
* `fault?_of_isPrefix` — the front of a document is no document.
-/

namespace ThreatModel

open Json Json.Reader
open FileTree (bind_ok)

namespace Json

/-! ## Records -/

theorem prolongs_membersOf (levels : Nat) : Prolongs (membersOf levels) (membersOf levels) := by
  have hmembers := prolongs_bounded 1 fun _ _ h =>
    prolongs_entries (fun state name => prolongs_keep (prolongs_value levels) state name) true [] h
  exact hmembers.bind (prolongs_close fun members : List (String × Json) => Json.object members.reverse)

theorem prolongs_guided (guide : Guide) : ∀ levels, Prolongs (guided guide levels) (guided guide levels) := by
  induction guide with
  | any =>
    intro levels
    have hskips := skipsSpace_guided .any levels
    refine prolongs_of_skipSpace hskips hskips (fun offset => ⟨_, rfl⟩) fun d rest offset hd => ?_
    have hstep : ∀ rest, guided .any levels ⟨d :: rest, offset⟩ = value levels ⟨d :: rest, offset⟩ := by
      intro rest
      simp only [guided, skipSpace_eq_self (forall_mem_head?_cons hd), List.isEmpty_cons, Bool.false_eq_true, if_false]
    exact (prolongs_value levels _).congr (hstep rest) fun more => hstep (rest ++ more)
  | text =>
    intro levels
    have hskips := skipsSpace_guided .text levels
    refine prolongs_of_skipSpace hskips hskips (fun offset => ⟨_, rfl⟩) fun d rest offset hd => ?_
    by_cases hquote : d = '"'
    · subst hquote
      exact ((prolongs_text.bind (prolongs_map Json.string)) _).next rfl fun _ _ => rfl
    · refine ProlongsAt.fail (e := mistyped .text ⟨d :: rest, offset⟩) ?_
      simp [guided, skipSpace_eq_self (forall_mem_head?_cons hd), hquote]
  | list item ih =>
    intro levels
    have hskips := skipsSpace_guided (.list item) levels
    refine prolongs_of_skipSpace hskips hskips (fun offset => ⟨_, rfl⟩) fun d rest offset hd => ?_
    by_cases hbracket : d = '['
    · subst hbracket
      cases levels with
      | zero => exact ProlongsAt.fail rfl
      | succ levels =>
        have hitems := prolongs_bounded 2 fun _ _ h => prolongs_sequence (ih levels) true h
        exact ((hitems.bind (prolongs_close Json.array)) _).next rfl fun _ _ => rfl
    · refine ProlongsAt.fail (e := mistyped .sequence ⟨d :: rest, offset⟩) ?_
      simp [guided, skipSpace_eq_self (forall_mem_head?_cons hd), hbracket]
  | members =>
    intro levels
    have hskips := skipsSpace_guided .members levels
    refine prolongs_of_skipSpace hskips hskips (fun offset => ⟨_, rfl⟩) fun d rest offset hd => ?_
    by_cases hbracket : d = '\x7b'
    · subst hbracket
      cases levels with
      | zero => exact ProlongsAt.fail rfl
      | succ levels => exact (prolongs_membersOf levels _).next rfl fun _ _ => rfl
    · refine ProlongsAt.fail (e := mistyped .map ⟨d :: rest, offset⟩) ?_
      simp [guided, skipSpace_eq_self (forall_mem_head?_cons hd), hbracket]

section Record

variable {σ : Type}

/-- Where no field is left, an array of fields ends. -/
theorem prolongs_fieldItems_nil (levels : Nat) (first : Bool) :
    Prolongs (fieldItems levels ([] : List (Field σ)) first) (fieldItems levels ([] : List (Field σ)) first) := by
  have hskips : ∀ c, fieldItems levels ([] : List (Field σ)) first c
      = fieldItems levels ([] : List (Field σ)) first c.skipSpace := by
    intro c
    unfold fieldItems
    rw [skipSpace_skipSpace]
  refine prolongs_of_skipSpace hskips hskips (fun offset => ⟨_, rfl⟩) fun d rest offset hd => ?_
  by_cases hbracket : d = ']'
  · subst hbracket
    exact (prolongs_stay (a := ([] : List Json)) _).next rfl fun _ _ => rfl
  · intro s hs
    simp only [fieldItems, skipSpace_eq_self (forall_mem_head?_cons hd)] at hs
    split at hs
    · cases hs
    · next h => exact absurd (List.cons.inj h).1 hbracket
    · cases hs
    · cases hs

theorem prolongs_fieldItems (levels : Nat) (fields : List (Field σ)) : ∀ first,
    Prolongs (fieldItems levels fields first) (fieldItems levels fields first) := by
  induction fields with
  | nil => exact prolongs_fieldItems_nil levels
  | cons field fields ih =>
    intro first
    have hclosed : Prolongs (fun c : Cursor => (.ok (([] : List Json), c.next) : Except Fault (List Json × Cursor)))
        fun c => .ok ([], c.next) := fun c => prolongs_close (fun items : List Json => items) ([], c)
    refine (prolongs_nextItem first).bind (prolongs_branch hclosed ?_)
    refine (prolongs_guided field.guide levels).bind (prolongs_pair fun item => ?_)
    exact (ih false).bind (prolongs_map (item :: ·))

theorem prolongs_fieldMember (shape : Shape σ) (levels : Nat) (before : List (String × Json)) (name : String) :
    Prolongs (fieldMember shape levels before name) (fieldMember shape levels before name) := by
  unfold fieldMember
  cases shape.field? name with
  | none => exact prolongs_colon.bind (prolongs_skipValue.bind fun c => prolongs_stay c)
  | some field =>
    simp only
    split
    · exact fun c => ProlongsAt.fail rfl
    · exact prolongs_keep (prolongs_guided field.guide levels) before name

theorem prolongs_shaped (shape : Shape σ) (v : Json) : Prolongs (shaped shape v) (shaped shape v) := by
  unfold shaped
  cases shape.decode .stored v with
  | ok record => exact prolongs_stay
  | error m => exact fun c => ProlongsAt.fail rfl

/-- **Records.** -/
theorem prolongs_record (shape : Shape σ) (levels : Nat) : Prolongs (record shape levels) (record shape levels) := by
  have hshaped : Prolongs (fun r : Json × Cursor => shaped shape r.1 r.2) fun r => shaped shape r.1 r.2 :=
    prolongs_pair fun v => prolongs_shaped shape v
  have hskips := skipsSpace_record shape levels
  refine prolongs_of_skipSpace hskips hskips (fun offset => ⟨_, rfl⟩) fun d rest offset hd => ?_
  by_cases hobject : d = '\x7b'
  · subst hobject
    cases levels with
    | zero => exact ProlongsAt.fail rfl
    | succ levels =>
      have hmembers := prolongs_bounded 1 fun _ _ h => prolongs_entries (prolongs_fieldMember shape levels) true [] h
      have hclosed : Prolongs (fun r : List (String × Json) × Cursor => shaped shape (.object r.1.reverse) r.2.next)
          fun r => shaped shape (.object r.1.reverse) r.2.next := by
        have hnext := prolongs_close fun members : List (String × Json) => Json.object members.reverse
        exact hnext.bind hshaped
      exact ((hmembers.bind hclosed) _).next rfl fun _ _ => rfl
  · by_cases harray : d = '['
    · subst harray
      cases levels with
      | zero => exact ProlongsAt.fail rfl
      | succ levels =>
        have hclosed : Prolongs (fun r : List Json × Cursor => shaped shape (.array r.1) r.2)
            fun r => shaped shape (.array r.1) r.2 := prolongs_pair fun items => prolongs_shaped shape (.array items)
        exact (((prolongs_fieldItems levels shape.fields true).bind hclosed) _).next rfl fun _ _ => rfl
    · refine ProlongsAt.fail (e := mistyped (.record shape.title) ⟨d :: rest, offset⟩) ?_
      simp only [record, skipSpace_eq_self (forall_mem_head?_cons hd)]
      split
      · next h => cases h
      · next h => exact absurd (List.cons.inj h).1 hobject
      · next h => exact absurd (List.cons.inj h).1 harray
      · next h => exact absurd (List.cons.inj h).1 hobject
      · next h => exact absurd (List.cons.inj h).1 harray
      · rfl

end Record

/-! ## Objects that are closed -/

section Closes

variable {σ β : Type} {reader : Reader β} {member : σ → String → Reader σ} {state : σ} {judge : σ → Option β}

/-- A reader that does the same on a longer text, wherever it stops. -/
def Closes (reader : Reader β) : Prop :=
  ∀ c r, reader c = .ok r → ∀ more, reader (c.before more) = .ok (Stop.before r more)

theorem nextName_closed {first : Bool} {c last : Cursor} (h : nextName first c = .ok (last, false)) :
    ∃ rest, last.rest = '\x7d' :: rest := by
  have hname : ∀ c, openName c ≠ .ok (last, false) := by
    intro c h
    unfold openName at h
    split at h <;> cases h
  unfold nextName at h
  simp only at h
  split at h
  · cases h
  · next rest hrest =>
    obtain ⟨rfl, -⟩ := Prod.mk.inj (Except.ok.inj h)
    exact ⟨rest, hrest⟩
  · split at h
    · exact absurd h (hname _)
    · split at h
      · split at h
        · cases h
        · cases h
        · exact absurd h (hname _)
      · cases h

/-- The members of an object are read up to its closing bracket. -/
theorem entries_closed {first : Bool} {fuel : Nat} {c last : Cursor} {members : σ}
    (h : entries member fuel first state c = .ok (members, last)) : ∃ rest, last.rest = '\x7d' :: rest := by
  induction fuel generalizing first state c with
  | zero => cases h
  | succ fuel ih =>
    obtain ⟨⟨c, more⟩, hname, h⟩ := bind_ok.mp h
    cases more with
    | false =>
      obtain ⟨-, rfl⟩ := Prod.mk.inj (Except.ok.inj h)
      exact nextName_closed hname
    | true =>
      obtain ⟨⟨name, c⟩, -, h⟩ := bind_ok.mp h
      obtain ⟨⟨next, c⟩, -, h⟩ := bind_ok.mp h
      exact ih h

/-- White space before a text is white space before a longer text. -/
theorem skipSpace_before {c : Cursor} (h : c.skipSpace.rest ≠ []) (more : List Char) :
    (c.before more).skipSpace = c.skipSpace.before more := by
  have hspace : (c.rest ++ more).takeWhile isLayout = c.rest.takeWhile isLayout := takeWhile_append_of_drop h more
  show (c.before more).skip ((c.rest ++ more).takeWhile isLayout).length = _
  rw [hspace, Cursor.before_skip (List.takeWhile_prefix isLayout).length_le]
  rfl

/-- **A reader of one object does not depend on what is behind it.** -/
theorem closes_of_object {close : σ × Cursor → Except Fault (β × Cursor)}
    (hmember : ∀ state name, Prolongs (member state name) (member state name))
    (hopen : ∀ c rest offset, c.skipSpace = ⟨'\x7b' :: rest, offset⟩ →
      reader c = entries member (rest.length + 1) true state ⟨rest, offset + 1⟩ >>= close)
    (hother : ∀ c, c.skipSpace.rest.head? ≠ some '\x7b' → ∃ fault, reader c = .error fault)
    (hclose : ∀ members last r, close (members, last) = .ok r ↔ ∃ b, judge members = some b ∧ r = (b, last.next)) :
    Closes reader := by
  intro c r hr more
  cases hspace : c.skipSpace with
  | mk text offset =>
    by_cases hobject : text.head? = some '\x7b'
    · obtain ⟨rest, rfl⟩ := List.head?_eq_some_iff.mp hobject
      rw [hopen c rest offset hspace] at hr
      obtain ⟨⟨members, last⟩, hmembers, hr⟩ := bind_ok.mp hr
      obtain ⟨b, hjudge, rfl⟩ := (hclose members last r).mp hr
      obtain ⟨after, hafter⟩ := entries_closed hmembers
      have hle : rest.length + 1 ≤ (rest ++ more).length + 1 := by
        rw [List.length_append]
        omega
      have hne : (Stop.cursor (members, last)).rest ≠ [] := by
        show last.rest ≠ []
        simp [hafter]
      have hlonger := (prolongs_entries hmember true state hle ⟨rest, offset + 1⟩ _ hmembers).2 hne more
      have hspace' : (c.before more).skipSpace = ⟨'\x7b' :: (rest ++ more), offset⟩ := by
        rw [skipSpace_before (by simp [hspace]), hspace]
        rfl
      rw [hopen _ _ _ hspace']
      refine bind_ok.mpr ⟨(members, last.before more), hlonger, (hclose _ _ _).mpr ⟨b, hjudge, ?_⟩⟩
      show (b, last.next.before more) = (b, (last.before more).next)
      simp [Cursor.before, Cursor.next, hafter]
    · obtain ⟨fault, hfault⟩ := hother c (by rwa [hspace])
      rw [hfault] at hr
      cases hr

theorem closes_mapOf {α : Type} {item : Nat → Reader α} {levels : Nat} (hitem : Prolongs (item levels) (item levels)) :
    Closes (mapOf item (levels + 1)) := by
  let judge : List (String × α) → Option (NameMap α) := fun members => some (NameMap.ofList members.reverse)
  refine @closes_of_object _ _ _ _ [] judge (fun r => .ok (NameMap.ofList r.1.reverse, r.2.next))
    (fun before name => prolongs_keep hitem before name) ?_ ?_ ?_
  · intro c rest offset hspace
    unfold mapOf
    rw [hspace]
    rfl
  · intro c hother
    unfold mapOf
    generalize c.skipSpace = settled at hother
    obtain ⟨_ | ⟨d, rest⟩, offset⟩ := settled
    · exact ⟨_, rfl⟩
    · have hobject : d ≠ '\x7b' := by simpa using hother
      refine ⟨mistyped .map ⟨d :: rest, offset⟩, ?_⟩
      simp only
      split
      · next h => cases h
      · next h => cases h
      · next h _ => exact absurd (List.cons.inj h).1 hobject
      · rfl
  · intro members last r
    constructor
    · intro h
      exact ⟨_, rfl, (Except.ok.inj h).symm⟩
    · rintro ⟨b, hjudge, rfl⟩
      obtain rfl := Option.some.inj hjudge
      rfl

end Closes

end Json

namespace Document

/-! ## Documents -/

theorem prolongs_modelMember (levels : Nat) (before : ModelMembers) (name : String) :
    Prolongs (modelMember levels before name) (modelMember levels before name) := by
  unfold modelMember
  split
  · split
    · exact fun c => ProlongsAt.fail rfl
    · refine prolongs_colon.bind ((prolongs_guided .text levels).bind (prolongs_pair fun v => ?_))
      cases v with
      | string runId => exact prolongs_stay
      | _ => exact fun c => ProlongsAt.fail rfl
  · exact (prolongs_keep (prolongs_value levels) before.others name).bind (prolongs_pair fun others => prolongs_stay)

/-- What becomes of the members of the last document when its closing bracket is read. -/
def closeModel (r : ModelMembers × Cursor) : Except Fault ((String × Relations) × Cursor) :=
  match ofMembers r.1 with
  | .ok content => .ok (content, r.2.next)
  | .error m => .error (r.2.next.fault (.mismatch m))

theorem closes_modelReader (levels : Nat) : Closes (modelReader (levels + 1)) := by
  let judge : ModelMembers → Option (String × Relations) := fun members => (ofMembers members).toOption
  refine @closes_of_object _ _ _ _ ⟨none, []⟩ judge closeModel (prolongs_modelMember levels) ?_ ?_ ?_
  · intro c rest offset hspace
    unfold modelReader
    rw [hspace]
    rfl
  · intro c hother
    unfold modelReader
    generalize c.skipSpace = settled at hother
    obtain ⟨_ | ⟨d, rest⟩, offset⟩ := settled
    · exact ⟨_, rfl⟩
    · have hobject : d ≠ '\x7b' := by simpa using hother
      refine ⟨mistyped (.record "ThreatModelIn") ⟨d :: rest, offset⟩, ?_⟩
      simp only
      split
      · next h => cases h
      · next h => cases h
      · next h _ => exact absurd (List.cons.inj h).1 hobject
      · rfl
  · intro members last r
    show _ ↔ ∃ b, (ofMembers members).toOption = some b ∧ r = (b, last.next)
    unfold closeModel
    cases ofMembers members with
    | error m => simp [Except.toOption]
    | ok content =>
      constructor
      · intro h
        exact ⟨content, rfl, (Except.ok.inj h).symm⟩
      · rintro ⟨b, hb, rfl⟩
        obtain rfl := Option.some.inj hb
        rfl

/-- The text of a document ends in a bracket. -/
theorem getLast?_pretty_encode (g : Graph) (document : Document) :
    (pretty 0 (document.encode g)).getLast? = some '\x7d' := by
  have hobject : ∀ members, (pretty 0 (.object members)).getLast? = some '\x7d' := by
    intro members
    cases members with
    | nil => rfl
    | cons member rest =>
      obtain ⟨name, v⟩ := member
      rw [pretty]
      exact List.getLast?_concat
  cases document <;> exact hobject _

section Front

variable {β : Type} {reader : Reader β} {front behind : List Char} {b b' : β}

theorem finish_ok_iff {c : Cursor} : finish c = .ok () ↔ ∀ d ∈ c.rest, isLayout d = true := by
  have hskip : c.skipSpace.rest = c.rest.dropWhile isLayout := by
    show c.rest.drop (c.rest.takeWhile isLayout).length = _
    induction c.rest with
    | nil => rfl
    | cons d rest ih => cases hd : isLayout d <;> simp [hd, ih]
  unfold finish
  simp only [hskip, List.isEmpty_iff, List.dropWhile_eq_nil_iff]
  split
  · next h => exact iff_of_true rfl h
  · next h => exact iff_of_false nofun h

/-- **A document that goes on with another one** differs from it in white space only. -/
theorem layout_of_document (hcloses : Closes reader) (hfront : Reader.document reader front = .ok b)
    (hall : Reader.document reader (front ++ behind) = .ok b') : ∀ d ∈ behind, isLayout d = true := by
  obtain ⟨⟨_, c⟩, hc, hfront⟩ := bind_ok.mp hfront
  obtain ⟨⟨_, c'⟩, hc', hall⟩ := bind_ok.mp hall
  have hsame := (hcloses _ _ hc behind).symm.trans hc'
  obtain ⟨⟨⟩, hfinish, -⟩ := bind_ok.mp hall
  obtain rfl := (Prod.mk.inj (Except.ok.inj hsame)).2
  intro d hd
  exact finish_ok_iff.mp hfinish d (List.mem_append_right _ hd)

/-- The front of a document is refused, if something other than white space is cut off. -/
theorem faultOf_document (hcloses : Closes reader) {d : Char} (hd : d ∈ behind) (hlayout : isLayout d = false)
    (hall : faultOf (Reader.document reader (front ++ behind)) = none) :
    ∃ fault, faultOf (Reader.document reader front) = some fault := by
  cases hfront : Reader.document reader front with
  | error fault => exact ⟨fault, rfl⟩
  | ok b =>
    cases hboth : Reader.document reader (front ++ behind) with
    | error fault =>
      rw [hboth] at hall
      cases hall
    | ok b' =>
      have hspace := layout_of_document hcloses hfront hboth d hd
      rw [hlayout] at hspace
      cases hspace

end Front

/-- **The front of a document is no document.** -/
theorem fault?_of_isPrefix {g : Graph} {document : Document} {front behind : List Char}
    (h : pretty 0 (document.encode g) = front ++ behind) (hbehind : behind ≠ [])
    (hall : document.fault? (pretty 0 (document.encode g)) = none) : ∃ fault, document.fault? front = some fault := by
  have hlast := getLast?_pretty_encode g document
  rw [h, List.getLast?_append_of_ne_nil _ hbehind] at hlast
  have hmem := List.mem_of_getLast? hlast
  have hlayout : isLayout '\x7d' = false := by decide
  rw [h] at hall
  have hentity := fun title levels => prolongs_record (Entity.shape title) levels
  cases document with
  | controls => exact faultOf_document (closes_mapOf (hentity "Control" 126)) hmem hlayout hall
  | threats => exact faultOf_document (closes_mapOf (hentity "Threat" 126)) hmem hlayout hall
  | components => exact faultOf_document (closes_mapOf (prolongs_record Component.shape 126)) hmem hlayout hall
  | model => exact faultOf_document (closes_modelReader 126) hmem hlayout hall

end Document
end ThreatModel
