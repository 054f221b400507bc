import Mathlib
import ThreatModel.Proofs.Json.Prolong
import ThreatModel.Proofs.Json.Value

/-!
# `Proofs.Json.Prolong.Nested` — nested values in longer texts

What stands between brackets is read item by item, and each item is read as it is in a longer text, because a comma or
a bracket follows it. So an array and an object that have been read to their closing brackets do not depend on what
follows them.

## Contents

* `prolongs_sequence`, `prolongs_entries` — arrays and objects, for any way of reading their items.
* `prolongs_value` — any value.
* `prolongs_skipValue` — any value that is passed over.
-/

namespace ThreatModel
namespace Json

open Reader

/-! ## Steps that stay or branch -/

section Steps

variable {ρ σ : Type} [Stop ρ] [Stop σ] {f g : ρ → Except Fault σ} {r : ρ} {s : σ}

/-- A step that stays where it is. -/
theorem ProlongsAt.stay (hf : f r = .ok s) (hcursor : Stop.cursor s = Stop.cursor r)
    (hg : ∀ more, g (Stop.before r more) = .ok (Stop.before s more)) : ProlongsAt f g r := by
  intro t ht
  obtain rfl := Except.ok.inj (hf.symm.trans ht)
  exact ⟨hcursor ▸ List.suffix_refl _, fun _ => hg⟩

/-- Which way a step goes on was read before. -/
theorem prolongs_branch {next next' : Cursor × Bool → Except Fault σ}
    (hno : Prolongs (fun c => next (c, false)) fun c => next' (c, false))
    (hyes : Prolongs (fun c => next (c, true)) fun c => next' (c, true)) : Prolongs next next' := by
  rintro ⟨c, b⟩
  cases b with
  | false => exact hno c
  | true => exact hyes c

end Steps

/-! ## Arrays -/

/-- The next item of an array after its comma. -/
def itemAhead : Cursor → Except Fault (Cursor × Bool) := fun c =>
  let c := c.skipSpace
  match c.rest with
  | [] => .error (c.faultAhead .endInValue)
  | ']' :: _ => .error (c.faultAhead .trailingComma)
  | _ => .ok (c, true)

theorem prolongs_itemAhead : Prolongs itemAhead itemAhead := by
  have hskips : ∀ c, itemAhead c = itemAhead c.skipSpace := by
    intro c
    unfold itemAhead
    rw [skipSpace_skipSpace]
  refine prolongs_of_skipSpace hskips hskips (fun offset => ⟨_, rfl⟩) fun d rest offset hd => ?_
  by_cases hbracket : d = ']'
  · subst hbracket
    exact ProlongsAt.fail rfl
  · have hitem : ∀ rest, itemAhead ⟨d :: rest, offset⟩ = .ok (⟨d :: rest, offset⟩, true) := by
      intro rest
      simp only [itemAhead, skipSpace_eq_self (forall_mem_head?_cons hd)]
      split
      · next h => cases h
      · next h => exact absurd (List.cons.inj h).1 hbracket
      · rfl
    exact ProlongsAt.stay (hitem rest) rfl fun more => hitem (rest ++ more)

theorem prolongs_nextItem (first : Bool) : Prolongs (nextItem first) (nextItem first) := by
  have hskips : ∀ c, nextItem first c = nextItem first c.skipSpace := by
    intro c
    unfold nextItem
    rw [skipSpace_skipSpace]
  refine prolongs_of_skipSpace hskips hskips (fun offset => ⟨_, rfl⟩) fun d rest offset hd => ?_
  have hspace : ∀ rest, Cursor.skipSpace ⟨d :: rest, offset⟩ = ⟨d :: rest, offset⟩ := fun rest =>
    skipSpace_eq_self (forall_mem_head?_cons hd) offset
  by_cases hbracket : d = ']'
  · subst hbracket
    exact ProlongsAt.stay rfl rfl fun more => rfl
  · cases first with
    | true =>
      have hitem : ∀ rest, nextItem true ⟨d :: rest, offset⟩ = .ok (⟨d :: rest, offset⟩, true) := by
        intro rest
        simp only [nextItem, hspace, if_true]
      exact ProlongsAt.stay (hitem rest) rfl fun more => hitem (rest ++ more)
    | false =>
      by_cases hcomma : d = ','
      · subst hcomma
        exact (prolongs_itemAhead _).next rfl fun _ _ => rfl
      · refine ProlongsAt.fail (e := Cursor.faultAhead ⟨d :: rest, offset⟩ .noArrayComma) ?_
        simp only [nextItem, hspace, hcomma, if_false, Bool.false_eq_true]

/-- **Arrays**, up to their closing brackets. -/
theorem prolongs_sequence {α : Type} {item item' : Reader α} (hitem : Prolongs item item') :
    ∀ {fuel more : Nat} (first : Bool), fuel ≤ more → Prolongs (sequence item fuel first) (sequence item' more first)
  | 0, _, _, _ => fun _ => ProlongsAt.fail rfl
  | fuel + 1, 0, _, h => absurd h (Nat.not_succ_le_zero fuel)
  | fuel + 1, more + 1, first, h => by
    have hrest := prolongs_sequence hitem false (Nat.le_of_succ_le_succ h)
    refine (prolongs_nextItem first).bind (prolongs_branch prolongs_stay ?_)
    refine hitem.bind (prolongs_pair fun head => ?_)
    exact hrest.bind (prolongs_map (head :: ·))

/-! ## Objects -/

/-- The name of a member from its quote on. -/
def openName : Cursor → Except Fault (Cursor × Bool) := fun c =>
  if c.rest.head? = some '"' then .ok (c.next, true) else .error (c.faultAhead .nameNotText)

theorem prolongs_openName : Prolongs openName openName := by
  rintro ⟨_ | ⟨d, rest⟩, offset⟩
  · exact ProlongsAt.fail rfl
  · by_cases hquote : d = '"'
    · subst hquote
      have hopen : Prolongs (fun c : Cursor => (.ok (c, true) : Except Fault (Cursor × Bool))) fun c => .ok (c, true) :=
        fun c => ProlongsAt.stay rfl rfl fun _ => rfl
      exact (hopen _).next rfl fun _ _ => rfl
    · refine ProlongsAt.fail (e := Cursor.faultAhead ⟨d :: rest, offset⟩ .nameNotText) ?_
      simp [openName, hquote]

/-- The name of the next member of an object after its comma. -/
def nameAhead : Cursor → Except Fault (Cursor × Bool) := fun c =>
  let c := c.skipSpace
  match c.rest with
  | [] => .error (c.faultAhead .endInValue)
  | '\x7d' :: _ => .error (c.faultAhead .trailingComma)
  | _ => openName c

theorem prolongs_nameAhead : Prolongs nameAhead nameAhead := by
  have hskips : ∀ c, nameAhead c = nameAhead c.skipSpace := by
    intro c
    unfold nameAhead
    rw [skipSpace_skipSpace]
  refine prolongs_of_skipSpace hskips hskips (fun offset => ⟨_, rfl⟩) fun d rest offset hd => ?_
  by_cases hbracket : d = '\x7d'
  · subst hbracket
    exact ProlongsAt.fail rfl
  · have hname : ∀ rest, nameAhead ⟨d :: rest, offset⟩ = openName ⟨d :: rest, offset⟩ := by
      intro rest
      simp only [nameAhead, skipSpace_eq_self (forall_mem_head?_cons hd)]
      split
      · next h => cases h
      · next h => exact absurd (List.cons.inj h).1 hbracket
      · rfl
    exact (prolongs_openName _).congr (hname rest) fun more => hname (rest ++ more)

theorem prolongs_nextName (first : Bool) : Prolongs (nextName first) (nextName first) := by
  have hskips : ∀ c, nextName first c = nextName first c.skipSpace := by
    intro c
    unfold nextName
    rw [skipSpace_skipSpace]
  refine prolongs_of_skipSpace hskips hskips (fun offset => ⟨_, rfl⟩) fun d rest offset hd => ?_
  have hspace : ∀ rest, Cursor.skipSpace ⟨d :: rest, offset⟩ = ⟨d :: rest, offset⟩ := fun rest =>
    skipSpace_eq_self (forall_mem_head?_cons hd) offset
  by_cases hbracket : d = '\x7d'
  · subst hbracket
    exact ProlongsAt.stay rfl rfl fun more => rfl
  · cases first with
    | true =>
      have hname : ∀ rest, nextName true ⟨d :: rest, offset⟩ = openName ⟨d :: rest, offset⟩ := by
        intro rest
        simp only [nextName, hspace, if_true]
        rfl
      exact (prolongs_openName _).congr (hname rest) fun more => hname (rest ++ more)
    | false =>
      by_cases hcomma : d = ','
      · subst hcomma
        exact (prolongs_nameAhead _).next rfl fun _ _ => rfl
      · refine ProlongsAt.fail (e := Cursor.faultAhead ⟨d :: rest, offset⟩ .noObjectComma) ?_
        simp only [nextName, hspace, hcomma, if_false, Bool.false_eq_true]

theorem prolongs_colon : Prolongs colon colon := by
  have hskips : ∀ c, colon c = colon c.skipSpace := by
    intro c
    unfold colon
    rw [skipSpace_skipSpace]
  refine prolongs_of_skipSpace hskips hskips (fun offset => ⟨_, rfl⟩) fun d rest offset hd => ?_
  by_cases hcolon : d = ':'
  · subst hcolon
    have hstay : Prolongs (fun c : Cursor => (.ok c : Except Fault Cursor)) fun c => .ok c :=
      fun c => ProlongsAt.stay rfl rfl fun _ => rfl
    exact (hstay _).next rfl fun _ _ => rfl
  · refine ProlongsAt.fail (e := Cursor.faultAhead ⟨d :: rest, offset⟩ .noColon) ?_
    simp only [colon, skipSpace_eq_self (forall_mem_head?_cons hd)]
    split
    · next h => cases h
    · next h => exact absurd (List.cons.inj h).1 hcolon
    · rfl

/-- **Objects**, up to their closing brackets. -/
theorem prolongs_entries {σ : Type} {member member' : σ → String → Reader σ}
    (hmember : ∀ state name, Prolongs (member state name) (member' state name)) :
    ∀ {fuel more : Nat} (first : Bool) (state : σ), fuel ≤ more →
      Prolongs (entries member fuel first state) (entries member' more first state)
  | 0, _, _, _, _ => fun _ => ProlongsAt.fail rfl
  | fuel + 1, 0, _, _, h => absurd h (Nat.not_succ_le_zero fuel)
  | fuel + 1, more + 1, first, state, h => by
    refine (prolongs_nextName first).bind (prolongs_branch prolongs_stay ?_)
    refine prolongs_text.bind (prolongs_pair fun name => ?_)
    refine (hmember state name).bind (prolongs_pair fun state => ?_)
    exact prolongs_entries hmember false state (Nat.le_of_succ_le_succ h)

theorem prolongs_keep {α : Type} {item item' : Reader α} (hitem : Prolongs item item')
    (before : List (String × α)) (name : String) : Prolongs (keep item before name) (keep item' before name) := by
  refine prolongs_colon.bind ?_
  exact hitem.bind (prolongs_map fun value => (name, value) :: before)

/-! ## Values -/

section Value

variable {levels : Nat}

/-- What is made of the items between brackets, and the cursor behind the closing bracket. -/
theorem prolongs_close {α β : Type} (F : α → β) :
    Prolongs (fun r : α × Cursor => (.ok (F r.1, r.2.next) : Except Fault (β × Cursor))) fun r => .ok (F r.1, r.2.next) := by
  rintro ⟨a, ⟨_ | ⟨d, rest⟩, offset⟩⟩
  · intro s hs
    obtain rfl := Except.ok.inj hs
    exact ⟨List.suffix_refl _, fun hne => absurd rfl hne⟩
  · intro s hs
    obtain rfl := Except.ok.inj hs
    exact ⟨List.suffix_cons d rest, fun _ _ => rfl⟩

/-- A value with a step behind its first character. -/
theorem prolongsAt_value_next {f : Cursor → Except Fault (Json × Cursor)} {d : Char} {offset : Nat} (hf : Prolongs f f)
    (hstep : ∀ rest, value levels ⟨d :: rest, offset⟩ = f ⟨rest, offset + 1⟩) (rest : List Char) :
    ProlongsAt (value levels) (value levels) ⟨d :: rest, offset⟩ :=
  (hf _).next (hstep rest) fun _ more => hstep (rest ++ more)

theorem prolongsAt_array (hdeeper : ∀ deeper, levels = deeper + 1 → Prolongs (value deeper) (value deeper))
    (rest : List Char) (offset : Nat) : ProlongsAt (value levels) (value levels) ⟨'[' :: rest, offset⟩ := by
  cases levels with
  | zero =>
    refine ProlongsAt.fail (e := Cursor.faultAhead ⟨'[' :: rest, offset⟩ .tooDeep) ?_
    unfold value
    rfl
  | succ deeper =>
    have hitems := prolongs_bounded 1 fun _ _ h => prolongs_sequence (hdeeper deeper rfl) true h
    refine prolongsAt_value_next (hitems.bind (prolongs_close Json.array)) (fun rest => ?_) rest
    unfold value
    rfl

theorem prolongsAt_object (hdeeper : ∀ deeper, levels = deeper + 1 → Prolongs (value deeper) (value deeper))
    (rest : List Char) (offset : Nat) : ProlongsAt (value levels) (value levels) ⟨'\x7b' :: rest, offset⟩ := by
  cases levels with
  | zero =>
    refine ProlongsAt.fail (e := Cursor.faultAhead ⟨'\x7b' :: rest, offset⟩ .tooDeep) ?_
    unfold value
    rfl
  | succ deeper =>
    have hmembers := prolongs_bounded 1 fun _ _ h =>
      prolongs_entries (fun state name => prolongs_keep (hdeeper deeper rfl) state name) true [] h
    refine prolongsAt_value_next (hmembers.bind (prolongs_close fun members => Json.object members.reverse))
      (fun rest => ?_) rest
    unfold value
    rfl

/-- A value, if values one level deeper do. -/
theorem prolongs_value_of (hdeeper : ∀ deeper, levels = deeper + 1 → Prolongs (value deeper) (value deeper)) :
    Prolongs (value levels) (value levels) := by
  have hskips := skipsSpace_value levels
  refine prolongs_of_skipSpace hskips hskips (fun offset => ⟨Cursor.faultAhead ⟨[], offset⟩ .endInValue, ?_⟩)
    fun d rest offset hd => ?_
  · unfold value
    rfl
  have hspace : ∀ rest, Cursor.skipSpace ⟨d :: rest, offset⟩ = ⟨d :: rest, offset⟩ := fun rest =>
    skipSpace_eq_self (forall_mem_head?_cons hd) offset
  by_cases hnull : d = 'n'
  · subst hnull
    have hnull := (prolongs_literal ['u', 'l', 'l']).bind fun c => prolongs_stay (a := Json.null) c
    refine prolongsAt_value_next hnull (fun rest => ?_) rest
    unfold value
    rfl
  by_cases htrue : d = 't'
  · subst htrue
    have htrue := (prolongs_literal ['r', 'u', 'e']).bind fun c => prolongs_stay (a := Json.bool true) c
    refine prolongsAt_value_next htrue (fun rest => ?_) rest
    unfold value
    rfl
  by_cases hfalse : d = 'f'
  · subst hfalse
    have hfalse := (prolongs_literal ['a', 'l', 's', 'e']).bind fun c => prolongs_stay (a := Json.bool false) c
    refine prolongsAt_value_next hfalse (fun rest => ?_) rest
    unfold value
    rfl
  by_cases hquote : d = '"'
  · subst hquote
    refine prolongsAt_value_next (prolongs_text.bind (prolongs_map Json.string)) (fun rest => ?_) rest
    unfold value
    rfl
  by_cases harray : d = '['
  · subst harray
    exact prolongsAt_array hdeeper rest offset
  by_cases hobject : d = '\x7b'
  · subst hobject
    exact prolongsAt_object hdeeper rest offset
  have hother : ∀ rest, value levels ⟨d :: rest, offset⟩
      = if isDigit d || d = '-' then Reader.number ⟨d :: rest, offset⟩ >>= fun r => .ok (.number r.1, r.2)
        else .error (Cursor.faultAhead ⟨d :: rest, offset⟩ .noValue) := by
    intro rest
    unfold value
    simp only [hspace]
  by_cases hnumber : (isDigit d || d = '-') = true
  · have hstep := fun rest => (hother rest).trans (if_pos hnumber)
    exact ((prolongs_number.bind (prolongs_map Json.number)) _).congr (hstep rest) fun more => hstep (rest ++ more)
  · exact ProlongsAt.fail ((hother rest).trans (if_neg hnumber))

end Value

/-- **Values.** -/
theorem prolongs_value (levels : Nat) : Prolongs (value levels) (value levels) := by
  induction levels with
  | zero => exact prolongs_value_of fun deeper h => absurd h (Nat.succ_ne_zero deeper).symm
  | succ levels ih =>
    refine prolongs_value_of fun deeper h => ?_
    obtain rfl := Nat.succ.inj h
    exact ih

end Json
end ThreatModel
