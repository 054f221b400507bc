import Mathlib
import ThreatModel.Proofs.Json.Number

/-!
# `Proofs.Json.Between` — what is printed between brackets

The items of a printed array and the members of a printed object are read one after the other, whatever reads
each of them. What a reader makes of the whole is then what it makes of the parts, in their order.

## Contents

* `pretty_head` — how a printed value starts.
* `itemsText`, `yields_items` — the items of an array.
* `membersText`, `yields_members` — the members of an object.
* `reads_keep`, `foldlM_keep_bind` — members that are kept with their names.
-/

namespace ThreatModel
namespace Json

open Reader

/-! ## Printed texts -/

/-- A printed value starts with a character that is neither white space nor a closing bracket. -/
theorem pretty_head (level : Nat) (v : Json) : ∃ c rest, pretty level v = c :: rest ∧ isLayout c = false ∧ c ≠ ']' := by
  cases v with
  | null => exact ⟨'n', _, rfl, by decide, by decide⟩
  | bool b => cases b with
    | false => exact ⟨'f', _, rfl, by decide, by decide⟩
    | true => exact ⟨'t', _, rfl, by decide, by decide⟩
  | string s => exact ⟨'"', _, rfl, by decide, by decide⟩
  | array items => cases items with
    | nil => exact ⟨'[', _, rfl, by decide, by decide⟩
    | cons item rest => exact ⟨'[', _, by rw [pretty]; rfl, by decide, by decide⟩
  | object members => cases members with
    | nil => exact ⟨'\x7b', _, rfl, by decide, by decide⟩
    | cons member rest => exact ⟨'\x7b', _, by rw [pretty]; rfl, by decide, by decide⟩
  | number n =>
    obtain ⟨sign, whole, fraction, exponent, hsign, hwhole, -, -, heq⟩ := isNumeral_numberText n
    obtain ⟨d, more, rfl, hd⟩ := hwhole.head
    rcases hsign with rfl | rfl
    · refine ⟨d, _, heq, ?_, ?_⟩
      · cases hlayout : isLayout d with
        | false => rfl
        | true =>
          simp only [isLayout, Bool.or_eq_true, decide_eq_true_eq] at hlayout
          rcases hlayout with ((rfl | rfl) | rfl) | rfl <;> exact absurd hd (by decide)
      · rintro rfl
        exact absurd hd (by decide)
    · exact ⟨'-', _, heq, by decide, by decide⟩

theorem pretty_head_not_isLayout (level : Nat) (v : Json) (rest : List Char) :
    ∀ c ∈ (pretty level v ++ rest).head?, isLayout c = false := by
  obtain ⟨d, more, heq, hd, -⟩ := pretty_head level v
  rw [heq]
  exact forall_mem_head?_cons hd

theorem isEmpty_pretty (level : Nat) (v : Json) (rest : List Char) : (pretty level v ++ rest).isEmpty = false := by
  obtain ⟨c, more, heq, -⟩ := pretty_head level v
  rw [heq]
  rfl

/-- The start of a line is white space. -/
theorem skipSpace_newline (level : Nat) {text : List Char} (htext : ∀ c ∈ text.head?, isLayout c = false)
    (offset : Nat) :
    Cursor.skipSpace ⟨newline level ++ text, offset⟩ = ⟨text, offset + (newline level).length⟩ := by
  refine skipSpace_append ?_ htext offset
  intro c hc
  rcases List.mem_cons.mp hc with rfl | hc
  · decide
  · rw [List.eq_of_mem_replicate hc]
    decide

theorem delimited_newline (level : Nat) (rest : List Char) : Delimited (newline level ++ rest) :=
  delimited_cons (by decide)

/-- No number goes on with the further items of an array. -/
theorem delimited_prettyItems (level outer : Nat) (items : List Json) (rest : List Char) :
    Delimited (prettyItems level items ++ (newline outer ++ rest)) := by
  cases items with
  | nil => exact delimited_newline outer rest
  | cons item more =>
    rw [prettyItems]
    exact delimited_cons (by decide)

theorem delimited_prettyMembers (level outer : Nat) (members : List (String × Json)) (rest : List Char) :
    Delimited (prettyMembers level members ++ (newline outer ++ rest)) := by
  cases members with
  | nil => exact delimited_newline outer rest
  | cons member more =>
    rw [prettyMembers]
    exact delimited_cons (by decide)

/-! ## Items -/

section Items

variable {α : Type} {item : Reader α} {fuel : Nat} {first : Bool} {c after : Cursor}

theorem sequence_next (h : nextItem first c = .ok (after, true)) :
    sequence item (fuel + 1) first c
      = item after >>= fun r => sequence item fuel false r.2 >>= fun more => .ok (r.1 :: more.1, more.2) := by
  simp only [Reader.sequence, h, bind, Except.bind]

theorem sequence_end (h : nextItem first c = .ok (after, false)) :
    sequence item (fuel + 1) first c = .ok ([], after) := by
  simp only [Reader.sequence, h, bind, Except.bind]

/-- The items of an array go on with the one that is printed next. -/
theorem nextItem_pretty (level inner : Nat) (v : Json) (rest : List Char) (offset : Nat) :
    nextItem true ⟨newline level ++ (pretty inner v ++ rest), offset⟩
      = .ok (⟨pretty inner v ++ rest, offset + (newline level).length⟩, true) := by
  have hhead := pretty_head_not_isLayout inner v rest
  obtain ⟨d, more, heq, -, hclose⟩ := pretty_head inner v
  unfold nextItem
  rw [skipSpace_newline level hhead, heq]
  simp only [List.cons_append, if_true]

theorem nextItem_comma (level inner : Nat) (v : Json) (rest : List Char) (offset : Nat) :
    nextItem false ⟨',' :: newline level ++ (pretty inner v ++ rest), offset⟩
      = .ok (⟨pretty inner v ++ rest, offset + 1 + (newline level).length⟩, true) := by
  have hhead := pretty_head_not_isLayout inner v rest
  obtain ⟨d, more, heq, -, hclose⟩ := pretty_head inner v
  have hcomma : Cursor.skipSpace ⟨',' :: (newline level ++ (pretty inner v ++ rest)), offset⟩
      = ⟨',' :: (newline level ++ (pretty inner v ++ rest)), offset⟩ :=
    skipSpace_eq_self (forall_mem_head?_cons (by decide)) offset
  unfold nextItem
  rw [List.cons_append, hcomma]
  simp only [Cursor.next, List.tail_cons, skipSpace_newline level hhead]
  simp [heq, hclose]

theorem nextItem_close (level : Nat) (rest : List Char) (offset : Nat) :
    nextItem first ⟨newline level ++ ']' :: rest, offset⟩
      = .ok (⟨']' :: rest, offset + (newline level).length⟩, false) := by
  unfold nextItem
  rw [skipSpace_newline level (forall_mem_head?_cons (by decide))]
  rfl

/-- The further items of an array are read one after the other. -/
theorem yields_sequence {result : Json → Option α} {items : List Json} (level outer : Nat)
    (hitem : ∀ v ∈ items, Reads item (pretty level v) (result v)) (rest : List Char) :
    ∀ fuel offset, items.length < fuel →
      Yields (sequence item fuel false ⟨prettyItems level items ++ (newline outer ++ ']' :: rest), offset⟩)
        (']' :: rest) (items.mapM result) := by
  induction items with
  | nil =>
    intro fuel offset hfuel
    obtain ⟨fuel, rfl⟩ := Nat.exists_eq_add_one_of_ne_zero (by omega : fuel ≠ 0)
    rw [prettyItems, List.nil_append, sequence_end (nextItem_close outer rest offset)]
    exact Yields.ok [] _ _
  | cons v more ih =>
    -- A comma and the start of a line come before the item, and the rest of the items after it.
    intro fuel offset hfuel
    rw [List.length_cons] at hfuel
    obtain ⟨fuel, rfl⟩ := Nat.exists_eq_add_one_of_ne_zero (by omega : fuel ≠ 0)
    have hmore := ih fun v hv => hitem v (List.mem_cons_of_mem _ hv)
    rw [prettyItems, List.append_assoc, List.append_assoc, sequence_next (nextItem_comma level level v _ offset),
      List.mapM_cons]
    refine (hitem v List.mem_cons_self _ _ (delimited_prettyItems level outer more _)).bind _ _ fun a offset _ => ?_
    exact (hmore fuel offset (by omega)).bind _ _ fun as offset _ => Yields.ok (a :: as) _ offset

/-- The text between the brackets of an array. -/
def itemsText (level : Nat) : List Json → List Char
  | [] => []
  | v :: more =>
    newline (level + 1) ++ (pretty (level + 1) v ++ (prettyItems (level + 1) more ++ newline level))

theorem pretty_array (level : Nat) (items : List Json) :
    pretty level (.array items) = '[' :: (itemsText level items ++ [']']) := by
  cases items with
  | nil => rfl
  | cons v more =>
    rw [pretty, itemsText]
    simp only [List.cons_append, List.append_assoc]

theorem length_le_length_prettyItems (level : Nat) (items : List Json) :
    items.length ≤ (prettyItems level items).length := by
  induction items with
  | nil => exact Nat.zero_le _
  | cons v more ih =>
    simp only [prettyItems, List.length_append, List.length_cons]
    omega

/-- An array has no more items than characters. -/
theorem length_le_itemsText (level : Nat) (items : List Json) (rest : List Char) :
    items.length ≤ (itemsText level items ++ rest).length := by
  cases items with
  | nil => exact Nat.zero_le _
  | cons v more =>
    have := length_le_length_prettyItems (level + 1) more
    simp only [itemsText, newline, List.length_append, List.length_cons]
    omega

/-- **The items of a printed array are read**, from after its opening bracket. -/
theorem yields_items {result : Json → Option α} {level : Nat} {items : List Json}
    (hitem : ∀ v ∈ items, Reads item (pretty (level + 1) v) (result v)) (rest : List Char) (offset : Nat)
    (hfuel : items.length < fuel) :
    Yields (sequence item fuel true ⟨itemsText level items ++ ']' :: rest, offset⟩) (']' :: rest)
      (items.mapM result) := by
  obtain ⟨fuel, rfl⟩ := Nat.exists_eq_add_one_of_ne_zero (by omega : fuel ≠ 0)
  cases items with
  | nil =>
    have hnext : nextItem true ⟨']' :: rest, offset⟩ = .ok (⟨']' :: rest, offset⟩, false) := by
      unfold nextItem
      rw [skipSpace_eq_self (forall_mem_head?_cons (by decide))]
      rfl
    rw [itemsText, List.nil_append, sequence_end hnext]
    exact Yields.ok [] _ _
  | cons v more =>
    rw [List.length_cons] at hfuel
    rw [itemsText, List.append_assoc, List.append_assoc, List.append_assoc,
      sequence_next (nextItem_pretty (level + 1) (level + 1) v _ offset), List.mapM_cons]
    refine (hitem v List.mem_cons_self _ _ (delimited_prettyItems (level + 1) level more _)).bind _ _ fun a offset _ => ?_
    have hmore := yields_sequence (level + 1) level
      (fun v hv => hitem v (List.mem_cons_of_mem _ hv)) rest fuel offset (by omega)
    exact hmore.bind _ _ fun as offset _ => Yields.ok (a :: as) _ offset

end Items

/-! ## Members -/

section Members

variable {σ : Type} {member : σ → String → Reader σ} {fuel : Nat} {first : Bool} {state : σ} {c after : Cursor}

theorem entries_next (h : nextName first c = .ok (after, true)) :
    entries member (fuel + 1) first state c
      = text after >>= fun r => member state r.1 r.2 >>= fun r => entries member fuel false r.1 r.2 := by
  simp only [entries, h, bind, Except.bind]

theorem entries_end (h : nextName first c = .ok (after, false)) :
    entries member (fuel + 1) first state c = .ok (state, after) := by
  simp only [entries, h, bind, Except.bind]

/-- The members of an object go on with the name that is printed next. -/
theorem nextName_pretty (level : Nat) (rest : List Char) (offset : Nat) :
    nextName true ⟨newline level ++ '"' :: rest, offset⟩
      = .ok (⟨rest, offset + (newline level).length + 1⟩, true) := by
  unfold nextName
  rw [skipSpace_newline level (forall_mem_head?_cons (by decide))]
  rfl

theorem nextName_comma (level : Nat) (rest : List Char) (offset : Nat) :
    nextName false ⟨',' :: newline level ++ '"' :: rest, offset⟩
      = .ok (⟨rest, offset + 1 + (newline level).length + 1⟩, true) := by
  have hquote : ∀ c ∈ ('"' :: rest).head?, isLayout c = false := forall_mem_head?_cons (by decide)
  have hcomma : ∀ c ∈ (',' :: (newline level ++ '"' :: rest)).head?, isLayout c = false :=
    forall_mem_head?_cons (by decide)
  unfold nextName
  rw [List.cons_append, skipSpace_eq_self hcomma]
  simp only [Cursor.next, List.tail_cons, skipSpace_newline level hquote]
  rfl

theorem nextName_close (level : Nat) (rest : List Char) (offset : Nat) :
    nextName first ⟨newline level ++ '\x7d' :: rest, offset⟩
      = .ok (⟨'\x7d' :: rest, offset + (newline level).length⟩, false) := by
  unfold nextName
  rw [skipSpace_newline level (forall_mem_head?_cons (by decide))]
  rfl

/-- The name of a printed member is read, and then its value by whatever reads the value. -/
theorem yields_member {level : Nat} {entry : String × Json} {result : Option σ}
    (hmember : Reads (member state entry.1) (':' :: ' ' :: pretty level entry.2) result) {rest : List Char}
    (hrest : Delimited rest) (offset : Nat) :
    Yields (text ⟨entry.1.toList.flatMap escapeChar ++ '"' :: (':' :: ' ' :: pretty level entry.2 ++ rest), offset⟩
      >>= fun r => member state r.1 r.2) rest result := by
  have hbind := (reads_text entry.1 (':' :: ' ' :: pretty level entry.2 ++ rest) offset).bind
    (fun r => member state r.1 r.2) (fun _ => result) fun name offset hname => by
      obtain rfl := Option.some.inj hname
      exact hmember rest offset hrest
  rwa [Option.bind_some] at hbind

theorem prettyMembers_cons (level : Nat) (entry : String × Json) (more : List (String × Json)) (rest : List Char) :
    prettyMembers level (entry :: more) ++ rest
      = ',' :: newline level ++ '"' :: (entry.1.toList.flatMap escapeChar
        ++ '"' :: (':' :: ' ' :: pretty level entry.2 ++ (prettyMembers level more ++ rest))) := by
  obtain ⟨name, v⟩ := entry
  simp [prettyMembers, textLiteral]

/-- The further members of an object are read one after the other. -/
theorem yields_entries {step : σ → String × Json → Option σ} {members : List (String × Json)} (level outer : Nat)
    (hmember : ∀ entry ∈ members, ∀ state,
      Reads (member state entry.1) (':' :: ' ' :: pretty level entry.2) (step state entry)) (rest : List Char) :
    ∀ fuel state offset, members.length < fuel →
      Yields (entries member fuel false state
        ⟨prettyMembers level members ++ (newline outer ++ '\x7d' :: rest), offset⟩)
        ('\x7d' :: rest) (members.foldlM step state) := by
  induction members with
  | nil =>
    intro fuel state offset hfuel
    obtain ⟨fuel, rfl⟩ := Nat.exists_eq_add_one_of_ne_zero (by omega : fuel ≠ 0)
    rw [prettyMembers, List.nil_append, entries_end (nextName_close outer rest offset)]
    exact Yields.ok state _ _
  | cons entry more ih =>
    intro fuel state offset hfuel
    rw [List.length_cons] at hfuel
    obtain ⟨fuel, rfl⟩ := Nat.exists_eq_add_one_of_ne_zero (by omega : fuel ≠ 0)
    have hmore := ih fun entry hentry => hmember entry (List.mem_cons_of_mem _ hentry)
    rw [prettyMembers_cons, entries_next (nextName_comma level _ offset), ← bind_assoc, List.foldlM_cons]
    have hfirst := yields_member (hmember entry List.mem_cons_self state)
      (delimited_prettyMembers level outer more ('\x7d' :: rest)) (offset + 1 + (newline level).length + 1)
    exact hfirst.bind _ _ fun state offset _ => hmore fuel state offset (by omega)

/-- The text between the brackets of an object. -/
def membersText (level : Nat) : List (String × Json) → List Char
  | [] => []
  | entry :: more =>
    newline (level + 1) ++ '"' :: (entry.1.toList.flatMap escapeChar
      ++ '"' :: (':' :: ' ' :: pretty (level + 1) entry.2 ++ (prettyMembers (level + 1) more ++ newline level)))

theorem pretty_object (level : Nat) (members : List (String × Json)) :
    pretty level (.object members) = '\x7b' :: (membersText level members ++ ['\x7d']) := by
  cases members with
  | nil => rfl
  | cons entry more =>
    obtain ⟨name, v⟩ := entry
    simp [pretty, membersText, textLiteral]

theorem length_le_length_prettyMembers (level : Nat) (members : List (String × Json)) :
    members.length ≤ (prettyMembers level members).length := by
  induction members with
  | nil => exact Nat.zero_le _
  | cons entry more ih =>
    simp only [prettyMembers, List.length_append, List.length_cons]
    omega

/-- An object has no more members than characters. -/
theorem length_le_membersText (level : Nat) (members : List (String × Json)) (rest : List Char) :
    members.length ≤ (membersText level members ++ rest).length := by
  cases members with
  | nil => exact Nat.zero_le _
  | cons entry more =>
    have := length_le_length_prettyMembers (level + 1) more
    simp only [membersText, newline, List.length_append, List.length_cons]
    omega

/-- **The members of a printed object are read**, from after its opening bracket. -/
theorem yields_members {step : σ → String × Json → Option σ} {members : List (String × Json)} (level : Nat)
    (hmember : ∀ entry ∈ members, ∀ state,
      Reads (member state entry.1) (':' :: ' ' :: pretty (level + 1) entry.2) (step state entry))
    (rest : List Char) (state : σ) (offset : Nat) (hfuel : members.length < fuel) :
    Yields (entries member fuel true state ⟨membersText level members ++ '\x7d' :: rest, offset⟩)
      ('\x7d' :: rest) (members.foldlM step state) := by
  obtain ⟨fuel, rfl⟩ := Nat.exists_eq_add_one_of_ne_zero (by omega : fuel ≠ 0)
  cases members with
  | nil =>
    have hnext : nextName true ⟨'\x7d' :: rest, offset⟩ = .ok (⟨'\x7d' :: rest, offset⟩, false) := by
      unfold nextName
      rw [skipSpace_eq_self (forall_mem_head?_cons (by decide))]
      rfl
    rw [membersText, List.nil_append, entries_end hnext]
    exact Yields.ok state _ _
  | cons entry more =>
    rw [List.length_cons] at hfuel
    have htext : membersText level (entry :: more) ++ '\x7d' :: rest
        = newline (level + 1) ++ '"' :: (entry.1.toList.flatMap escapeChar
          ++ '"' :: (':' :: ' ' :: pretty (level + 1) entry.2
          ++ (prettyMembers (level + 1) more ++ (newline level ++ '\x7d' :: rest)))) := by
      simp [membersText]
    rw [htext, entries_next (nextName_pretty (level + 1) _ offset), ← bind_assoc, List.foldlM_cons]
    have hfirst := yields_member (hmember entry List.mem_cons_self state)
      (delimited_prettyMembers (level + 1) level more ('\x7d' :: rest)) (offset + (newline (level + 1)).length + 1)
    refine hfirst.bind _ _ fun state offset _ => ?_
    exact yields_entries (level + 1) level
      (fun entry hentry => hmember entry (List.mem_cons_of_mem _ hentry)) rest fuel state offset (by omega)

end Members

/-! ## Members that are kept -/

/-- The value of a member is read after its colon. -/
theorem colon_pretty (rest : List Char) (offset : Nat) :
    colon ⟨':' :: ' ' :: rest, offset⟩ = .ok ⟨' ' :: rest, offset + 1⟩ := rfl

/-- A reader that passes over white space first. -/
def SkipsSpace {α : Type} (reader : Reader α) : Prop := ∀ c, reader c = reader c.skipSpace

theorem skipSpace_gap (level : Nat) (v : Json) (rest : List Char) (offset : Nat) :
    Cursor.skipSpace ⟨' ' :: (pretty level v ++ rest), offset⟩ = ⟨pretty level v ++ rest, offset + 1⟩ := by
  refine @skipSpace_append [' '] ?_ _ (pretty_head_not_isLayout level v rest) offset
  intro c hc
  obtain rfl := List.mem_singleton.mp hc
  decide

/-- A member whose value is read is kept with its name. -/
theorem reads_keep {α : Type} {item : Reader α} (hskips : SkipsSpace item) {level : Nat} {v : Json}
    {result : Option α} (hitem : Reads item (pretty level v) result) (before : List (String × α)) (name : String) :
    Reads (keep item before name) (':' :: ' ' :: pretty level v) (result.map fun a => (name, a) :: before) := by
  intro rest offset hrest
  have hread : keep item before name ⟨':' :: ' ' :: pretty level v ++ rest, offset⟩
      = item ⟨pretty level v ++ rest, offset + 2⟩ >>= fun r => .ok ((name, r.1) :: before, r.2) := by
    have hvalue := hskips ⟨' ' :: (pretty level v ++ rest), offset + 1⟩
    rw [skipSpace_gap] at hvalue
    unfold keep
    rw [List.cons_append, List.cons_append, colon_pretty]
    exact congrArg (· >>= fun r => .ok ((name, r.1) :: before, r.2)) hvalue
  rw [hread]
  exact (hitem rest (offset + 2) hrest).map fun a => (name, a) :: before

/-- What is kept of the members of an object, in their order. -/
theorem foldlM_keep {α : Type} (result : Json → Option α) (members : List (String × Json))
    (before : List (String × α)) :
    members.foldlM (fun before entry => (result entry.2).map fun a => (entry.1, a) :: before) before
      = (members.mapM fun entry => (result entry.2).map fun a => (entry.1, a)).map fun kept =>
          kept.reverse ++ before := by
  induction members generalizing before with
  | nil => rfl
  | cons entry more ih =>
    rw [List.foldlM_cons, List.mapM_cons]
    cases result entry.2 with
    | none => rfl
    | some a =>
      simp only [Option.map_some, bind, Option.bind_some, ih]
      cases more.mapM fun entry => (result entry.2).map fun a => (entry.1, a) with
      | none => rfl
      | some kept => simp [pure]

/-- What is kept is turned around when all members are read. -/
theorem foldlM_keep_bind {α β : Type} (result : Json → Option α) (members : List (String × Json))
    (further : List (String × α) → Option β) :
    (members.foldlM (fun before entry => (result entry.2).map fun a => (entry.1, a) :: before) []).bind
        (fun kept => further kept.reverse)
      = (members.mapM fun entry => (result entry.2).map fun a => (entry.1, a)).bind further := by
  rw [foldlM_keep, Option.bind_map]
  refine congrArg _ (funext fun kept => ?_)
  rw [Function.comp_apply, List.append_nil, List.reverse_reverse]

end Json
end ThreatModel
