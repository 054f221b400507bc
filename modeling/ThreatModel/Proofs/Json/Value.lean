import Mathlib
import ThreatModel.Proofs.Json.Between

/-!
# `Proofs.Json.Value` — printed values are read back

A printed value is read to its end. What is read is the value itself up to its numbers, unless it nests too
deeply or a number is too large.

## Contents

* `Json.reread` — what becomes of a value that is printed and read back.
* `reads_value` — a printed value is read back.
* `Json.Plain`, `reread_plain` — values without floating point numbers stay.
-/

namespace ThreatModel
namespace Json

open Reader

/-! ## What becomes of a value -/

mutual

/-- What becomes of a value that is printed and read back, where it may nest as many levels deep as given. -/
def reread (levels : Nat) : Json → Option Json
  | .null => some .null
  | .bool b => some (.bool b)
  | .number n => n.reread.map .number
  | .string s => some (.string s)
  | .array items =>
    match levels with
    | 0 => none
    | levels + 1 => (rereadItems levels items).map .array
  | .object members =>
    match levels with
    | 0 => none
    | levels + 1 => (rereadMembers levels members).map .object

/-- What becomes of the items of an array. -/
def rereadItems (levels : Nat) : List Json → Option (List Json)
  | [] => some []
  | item :: rest => do
    let item ← reread levels item
    let rest ← rereadItems levels rest
    some (item :: rest)

/-- What becomes of the members of an object. -/
def rereadMembers (levels : Nat) : List (String × Json) → Option (List (String × Json))
  | [] => some []
  | (name, value) :: rest => do
    let value ← reread levels value
    let rest ← rereadMembers levels rest
    some ((name, value) :: rest)

end

theorem rereadItems_eq_mapM (levels : Nat) (items : List Json) :
    rereadItems levels items = items.mapM (reread levels) := by
  induction items with
  | nil => rfl
  | cons item rest ih =>
    rw [rereadItems, List.mapM_cons, ih]
    rfl

theorem rereadMembers_eq_mapM (levels : Nat) (members : List (String × Json)) :
    rereadMembers levels members
      = members.mapM fun member => (reread levels member.2).map fun value => (member.1, value) := by
  induction members with
  | nil => rfl
  | cons member rest ih =>
    rw [rereadMembers, List.mapM_cons, ih]
    cases reread levels member.2 <;> rfl

/-! ## Values -/

theorem skipsSpace_value (levels : Nat) : SkipsSpace (Reader.value levels) := by
  intro c
  unfold Reader.value
  rw [skipSpace_skipSpace]

/-- The first character of a number. -/
theorem numberText_head (n : Number) : ∃ c rest, numberText n = c :: rest ∧ (isDigit c = true ∨ c = '-') := by
  obtain ⟨sign, whole, fraction, exponent, hsign, hwhole, -, -, heq⟩ := isNumeral_numberText n
  obtain ⟨d, more, rfl, hd⟩ := hwhole.head
  rcases hsign with rfl | rfl
  · exact ⟨d, _, heq, Or.inl hd⟩
  · exact ⟨'-', _, heq, Or.inr rfl⟩

theorem reads_value_number (levels level : Nat) (n : Number) :
    Reads (Reader.value levels) (pretty level (.number n)) (n.reread.map .number) := by
  intro rest offset hrest
  obtain ⟨c, more, heq, hc⟩ := numberText_head n
  have hhead := pretty_head_not_isLayout level (.number n) rest
  have hnumber := (reads_number n rest offset hrest).map Json.number
  rw [pretty] at hhead ⊢
  rw [heq, List.cons_append] at hhead hnumber ⊢
  have hstart : (isDigit c || decide (c = '-')) = true := by simpa using hc
  have hother : ∀ d : Char, (isDigit d || decide (d = '-')) = false → c ≠ d := by
    rintro d hd rfl
    exact absurd hstart (by simp [hd])
  have hread : Reader.value levels ⟨c :: (more ++ rest), offset⟩
      = Reader.number ⟨c :: (more ++ rest), offset⟩ >>= fun r => .ok (.number r.1, r.2) := by
    unfold Reader.value
    rw [skipSpace_eq_self hhead]
    dsimp only
    split
    · next h => cases h
    · next h => exact absurd (List.cons.inj h).1 (hother _ (by decide))
    · next h => exact absurd (List.cons.inj h).1 (hother _ (by decide))
    · next h => exact absurd (List.cons.inj h).1 (hother _ (by decide))
    · next h => exact absurd (List.cons.inj h).1 (hother _ (by decide))
    · next h => exact absurd (List.cons.inj h).1 (hother _ (by decide))
    · next h => exact absurd (List.cons.inj h).1 (hother _ (by decide))
    · next h =>
      obtain ⟨rfl, rfl⟩ := List.cons.inj h
      rw [if_pos hstart]
  rw [hread]
  exact hnumber

theorem reads_value_null (levels level : Nat) :
    Reads (Reader.value levels) (pretty level .null) (some .null) := by
  intro rest offset _
  unfold Reader.value
  exact ⟨_, rfl⟩

theorem reads_value_bool (levels level : Nat) (b : Bool) :
    Reads (Reader.value levels) (pretty level (.bool b)) (some (.bool b)) := by
  intro rest offset _
  cases b with
  | false =>
    unfold Reader.value
    exact ⟨_, rfl⟩
  | true =>
    unfold Reader.value
    exact ⟨_, rfl⟩

theorem reads_value_string (levels level : Nat) (s : String) :
    Reads (Reader.value levels) (pretty level (.string s)) (some (.string s)) := by
  intro rest offset _
  have hhead := pretty_head_not_isLayout level (.string s) rest
  have htext := (reads_text s rest (offset + 1)).map Json.string
  rw [pretty, textLiteral, List.cons_append, List.cons_append, List.append_assoc, List.singleton_append] at hhead ⊢
  unfold Reader.value
  rw [skipSpace_eq_self hhead]
  exact htext

theorem reads_value_array {levels level : Nat} {items : List Json}
    (hitem : ∀ v ∈ items, ∀ levels level, Reads (Reader.value levels) (pretty level v) (reread levels v)) :
    Reads (Reader.value levels) (pretty level (.array items)) (reread levels (.array items)) := by
  intro rest offset hrest
  have hhead := pretty_head_not_isLayout level (.array items) rest
  rw [pretty_array, List.cons_append, List.append_assoc, List.singleton_append] at hhead ⊢
  unfold Reader.value
  rw [skipSpace_eq_self hhead]
  cases levels with
  | zero => exact Yields.error _ rest
  | succ levels =>
    have hfuel := Nat.lt_succ_of_le (length_le_itemsText level items (']' :: rest))
    have hitems := yields_items (fun v hv => hitem v hv levels (level + 1)) rest (offset + 1) hfuel
    rw [reread, rereadItems_eq_mapM, Option.map_eq_bind]
    exact hitems.bind _ _ fun items offset _ => Yields.ok (Json.array items) rest (offset + 1)

/-- An object is read from after its opening bracket to after its closing bracket. -/
theorem yields_object {levels level fuel : Nat} {members : List (String × Json)}
    (hmember : ∀ entry ∈ members, ∀ levels level,
      Reads (Reader.value levels) (pretty level entry.2) (reread levels entry.2)) (rest : List Char) (offset : Nat)
    (hfuel : members.length < fuel) :
    Yields (entries (keep (Reader.value levels)) fuel true []
        ⟨membersText level members ++ '\x7d' :: rest, offset⟩
      >>= fun r => .ok (Json.object r.1.reverse, r.2.next)) rest ((rereadMembers levels members).map .object) := by
  have hmembers := yields_members level
    (fun entry hentry before => reads_keep (skipsSpace_value levels)
      (hmember entry hentry levels (level + 1)) before entry.1) rest [] offset hfuel
  have hobject := hmembers.bind (fun r => .ok (Json.object r.1.reverse, r.2.next))
    (fun kept => some (Json.object kept.reverse)) fun kept offset _ =>
      Yields.ok (Json.object kept.reverse) rest (offset + 1)
  rw [foldlM_keep_bind (reread levels) members fun kept => some (Json.object kept), ← rereadMembers_eq_mapM] at hobject
  rw [Option.map_eq_bind]
  exact hobject

theorem reads_value_object {levels level : Nat} {members : List (String × Json)}
    (hmember : ∀ entry ∈ members, ∀ levels level,
      Reads (Reader.value levels) (pretty level entry.2) (reread levels entry.2)) :
    Reads (Reader.value levels) (pretty level (.object members)) (reread levels (.object members)) := by
  intro rest offset hrest
  have hhead := pretty_head_not_isLayout level (.object members) rest
  rw [pretty_object, List.cons_append, List.append_assoc, List.singleton_append] at hhead ⊢
  unfold Reader.value
  rw [skipSpace_eq_self hhead]
  cases levels with
  | zero => exact Yields.error _ rest
  | succ levels =>
    have hfuel := Nat.lt_succ_of_le (length_le_membersText level members ('\x7d' :: rest))
    exact yields_object hmember rest (offset + 1) hfuel

mutual

/-- **A printed value is read back**, wherever it stands. -/
theorem reads_value : ∀ (v : Json) (levels level : Nat),
    Reads (Reader.value levels) (pretty level v) (reread levels v)
  | .null, levels, level => reads_value_null levels level
  | .bool b, levels, level => reads_value_bool levels level b
  | .number n, levels, level => reads_value_number levels level n
  | .string s, levels, level => reads_value_string levels level s
  | .array items, _, _ => reads_value_array (reads_value_items items)
  | .object members, _, _ => reads_value_object (reads_value_members members)

theorem reads_value_items : ∀ (items : List Json), ∀ v ∈ items, ∀ levels level,
    Reads (Reader.value levels) (pretty level v) (reread levels v)
  | [], _, hv => absurd hv List.not_mem_nil
  | item :: rest, v, hv => by
    rcases List.mem_cons.mp hv with h | h
    · rw [h]
      exact reads_value item
    · exact reads_value_items rest v h

theorem reads_value_members : ∀ (members : List (String × Json)), ∀ entry ∈ members, ∀ levels level,
    Reads (Reader.value levels) (pretty level entry.2) (reread levels entry.2)
  | [], _, hentry => absurd hentry List.not_mem_nil
  | (name, v) :: rest, entry, hentry => by
    rcases List.mem_cons.mp hentry with h | h
    · rw [h]
      exact reads_value v
    · exact reads_value_members rest entry h

end

/-! ## Values that stay -/

mutual

/-- A value without floating point numbers, which nests at most as many levels deep as given and whose whole
numbers have 64 bits, with or without a sign. -/
def Plain (levels : Nat) : Json → Prop
  | .null | .bool _ | .string _ => True
  | .number (.whole n) => -(signBit : Int) ≤ n ∧ n ≤ maxWhole
  | .number (.float _) => False
  | .array items =>
    match levels with
    | 0 => False
    | levels + 1 => PlainItems levels items
  | .object members =>
    match levels with
    | 0 => False
    | levels + 1 => PlainMembers levels members

/-- All items are plain. -/
def PlainItems (levels : Nat) : List Json → Prop
  | [] => True
  | item :: rest => Plain levels item ∧ PlainItems levels rest

/-- The values of all members are plain. -/
def PlainMembers (levels : Nat) : List (String × Json) → Prop
  | [] => True
  | (_, value) :: rest => Plain levels value ∧ PlainMembers levels rest

end

mutual

/-- A plain value may nest deeper. -/
theorem Plain.mono : ∀ {v : Json} {levels more : Nat}, levels ≤ more → Plain levels v → Plain more v
  | .null, _, _, _, _ | .bool _, _, _, _, _ | .string _, _, _, _, _ => by simp only [Plain]
  | .number (.whole n), _, _, _, h => by
    simp only [Plain] at h ⊢
    exact h
  | .number (.float _), _, _, _, h => by simp only [Plain] at h
  | .array items, 0, _, _, h | .object members, 0, _, _, h => h.elim
  | .array items, levels + 1, 0, hle, _ | .object members, levels + 1, 0, hle, _ => by omega
  | .array items, levels + 1, more + 1, hle, h => by
    simp only [Plain] at h ⊢
    exact PlainItems.mono (by omega) h
  | .object members, levels + 1, more + 1, hle, h => by
    simp only [Plain] at h ⊢
    exact PlainMembers.mono (by omega) h

theorem PlainItems.mono : ∀ {items : List Json} {levels more : Nat}, levels ≤ more →
    PlainItems levels items → PlainItems more items
  | [], _, _, _, _ => by simp only [PlainItems]
  | item :: rest, _, _, hle, h => by
    simp only [PlainItems] at h ⊢
    exact ⟨Plain.mono hle h.1, PlainItems.mono hle h.2⟩

theorem PlainMembers.mono : ∀ {members : List (String × Json)} {levels more : Nat}, levels ≤ more →
    PlainMembers levels members → PlainMembers more members
  | [], _, _, _, _ => by simp only [PlainMembers]
  | (name, value) :: rest, _, _, hle, h => by
    simp only [PlainMembers] at h ⊢
    exact ⟨Plain.mono hle h.1, PlainMembers.mono hle h.2⟩

end

mutual

/-- **A plain value stays** when it is printed and read back. -/
theorem reread_plain : ∀ {v : Json} {levels : Nat}, Plain levels v → reread levels v = some v
  | .null, _, _ | .bool _, _, _ | .string _, _, _ => by simp only [reread]
  | .number (.whole n), _, h => by
    simp only [Plain] at h
    rw [reread, reread_whole h.1 h.2]
    rfl
  | .number (.float _), _, h => by simp only [Plain] at h
  | .array items, 0, h | .object members, 0, h => h.elim
  | .array items, levels + 1, h => by
    simp only [Plain] at h
    rw [reread, rereadItems_plain h]
    rfl
  | .object members, levels + 1, h => by
    simp only [Plain] at h
    rw [reread, rereadMembers_plain h]
    rfl

theorem rereadItems_plain : ∀ {items : List Json} {levels : Nat}, PlainItems levels items →
    rereadItems levels items = some items
  | [], _, _ => by simp only [rereadItems]
  | item :: rest, _, h => by
    simp only [PlainItems] at h
    rw [rereadItems, reread_plain h.1, rereadItems_plain h.2]
    rfl

theorem rereadMembers_plain : ∀ {members : List (String × Json)} {levels : Nat}, PlainMembers levels members →
    rereadMembers levels members = some members
  | [], _, _ => by simp only [rereadMembers]
  | (name, value) :: rest, _, h => by
    simp only [PlainMembers] at h
    rw [rereadMembers, reread_plain h.1, rereadMembers_plain h.2]
    rfl

end

end Json
end ThreatModel
