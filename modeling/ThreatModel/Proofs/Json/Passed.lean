import Mathlib
import ThreatModel.Proofs.Json.AnyOrder
import ThreatModel.Proofs.Json.Prolong.Skip

/-!
# `Proofs.Json.Passed` — printed records with members that are passed over

The text of a record may have members that the record does not know. A text, a truth value or null under such a name is
passed over, so what is read of the printed members is the record that they make. It is the same for a map of records.

## Contents

* `IsSimple`, `skipValue_simple` — values that are passed over.
* `Shape.Readable` — members that can be read from their text.
* `reads_record_object`, `toOption_mapOf` — printed records and maps of records.
-/

namespace ThreatModel
namespace Json

open Reader

variable {σ : Type}

/-! ## Values that are passed over -/

/-- A text, a truth value or null. -/
def IsSimple : Json → Prop
  | .null | .bool _ | .string _ => True
  | .number _ | .array _ | .object _ => False

/-- A simple value is plain. -/
theorem IsSimple.plain {v : Json} (h : v.IsSimple) (levels : Nat) : Plain levels v := by
  cases v with
  | null | bool b | string s => simp only [Plain]
  | number n | array items | object members => exact h.elim

/-- One character of a string literal is passed over. -/
theorem skipText_escapeChar (c : Char) (fuel offset : Nat) (rest : List Char) :
    ∃ after, skipText (fuel + 1) ⟨escapeChar c ++ rest, offset⟩ = skipText fuel ⟨rest, after⟩ := by
  by_cases hsimple : c = '"' ∨ c = '\\' ∨ c = '\n' ∨ c = '\r' ∨ c = '\t' ∨ c = '\x08' ∨ c = '\x0c'
  · rcases hsimple with rfl | rfl | rfl | rfl | rfl | rfl | rfl <;>
      exact ⟨offset + 2, skipText_simple (by decide) (by decide)⟩
  · simp only [not_or] at hsimple
    obtain ⟨hquote, hslash, hfeed, hreturn, htab, hback, hform⟩ := hsimple
    by_cases hcontrol : c.toNat < 32
    · have hescape := unicodeEscape_control hcontrol (offset + 2) rest
      simp only [escapeChar, hquote, hslash, hfeed, hreturn, htab, hback, hform, hcontrol, if_false, if_true]
      cases hdigits : fourDigits (offset + 2) ('0' :: '0' :: hexDigit (c.toNat / 16) :: hexDigit c.toNat :: rest) with
      | error fault =>
        rw [unicodeEscape, hdigits] at hescape
        cases hescape
      | ok n =>
        have hfour : ['0', '0', hexDigit (c.toNat / 16), hexDigit c.toNat].length = 4 := rfl
        exact ⟨offset + 6, skipText_unicode hfour hdigits⟩
    · simp only [escapeChar, hquote, hslash, hfeed, hreturn, htab, hback, hform, hcontrol, if_false]
      exact ⟨offset + c.utf8Size, (skipText_plain hquote hslash).trans (if_neg hcontrol)⟩

/-- What a string literal holds is passed over up to the quote behind it. -/
theorem skipText_printed (chars rest : List Char) :
    ∀ fuel offset : Nat, chars.length < fuel →
      ∃ after, skipText fuel ⟨chars.flatMap escapeChar ++ '"' :: rest, offset⟩ = .ok ⟨rest, after⟩ := by
  induction chars with
  | nil =>
    intro fuel offset hfuel
    obtain ⟨fuel, rfl⟩ := Nat.exists_eq_add_one_of_ne_zero (by omega : fuel ≠ 0)
    exact ⟨offset + 1, rfl⟩
  | cons c more ih =>
    intro fuel offset hfuel
    obtain ⟨fuel, rfl⟩ := Nat.exists_eq_add_one_of_ne_zero (by omega : fuel ≠ 0)
    rw [List.flatMap_cons, List.append_assoc]
    obtain ⟨after, hstep⟩ := skipText_escapeChar c fuel offset (more.flatMap escapeChar ++ '"' :: rest)
    rw [hstep]
    exact ih fuel after (by simpa using hfuel)

/-- **A simple value is passed over**, with the white space in front of it. -/
theorem skipValue_simple {v : Json} (h : v.IsSimple) (level : Nat) (rest : List Char) (offset : Nat) :
    ∃ after, skipValue ⟨' ' :: (pretty level v ++ rest), offset⟩ = .ok ⟨rest, after⟩ := by
  unfold skipValue
  rw [skipNested, skipSpace_gap]
  cases v with
  | null => exact ⟨_, rfl⟩
  | bool b => cases b <;> exact ⟨_, rfl⟩
  | string s =>
    have hle := length_le_length_flatMap_escapeChar s.toList
    have htext := skipText_printed s.toList rest ((s.toList.flatMap escapeChar ++ '"' :: rest).length + 1) (offset + 2) (by
      rw [List.length_append]
      omega)
    simp only [pretty, textLiteral, List.cons_append, List.append_assoc, List.nil_append]
    exact htext
  | number n | array items | object members => exact h.elim

/-! ## Records -/

/-- Members that can be read from their text: those that the record knows look as their fields want them to and are
plain, and the others are simple. -/
def Shape.Readable (shape : Shape σ) (levels : Nat) (members : List (String × Json)) : Prop :=
  ∀ member ∈ members,
    (∀ field, shape.field? member.1 = some field → field.guide.Fits member.2 ∧ Plain levels member.2) ∧
      (shape.field? member.1 = none → member.2.IsSimple)

variable {shape : Shape σ} {members : List (String × Json)}

/-- What is kept of the members of a record once one more is read. -/
def keepKnown (shape : Shape σ) (before : List (String × Json)) (member : String × Json) :
    Option (List (String × Json)) :=
  if (shape.field? member.1).isSome then
    if before.any fun other => other.1 = member.1 then none else some (member :: before)
  else some before

theorem reads_fieldMember_readable (hreadable : shape.Readable levels members) {member : String × Json}
    (hmember : member ∈ members) (level : Nat) (before : List (String × Json)) :
    Reads (fieldMember shape levels before member.1) (':' :: ' ' :: pretty level member.2)
      (keepKnown shape before member) := by
  obtain ⟨hknown, hunknown⟩ := hreadable member hmember
  intro rest offset hrest
  unfold fieldMember keepKnown
  cases hfield : shape.field? member.1 with
  | none =>
    obtain ⟨after, hskip⟩ := skipValue_simple (hunknown hfield) level rest (offset + 1)
    simp only [Option.isSome_none, Bool.false_eq_true, if_false, List.cons_append, colon_pretty, bind, Except.bind, hskip]
    exact Yields.ok before rest after
  | some field =>
    obtain ⟨hfits, hplain⟩ := hknown field hfield
    simp only [Option.isSome_some, if_true]
    by_cases hseen : (before.any fun other => other.1 = member.1) = true
    · simp only [hseen, if_true]
      exact Yields.error _ rest
    · have hkeep := reads_keep (skipsSpace_guided field.guide levels) (reads_guided hfits levels level) before member.1
        rest offset hrest
      rw [reread_plain hplain] at hkeep
      simp only [hseen]
      exact hkeep

/-- The known members are kept, turned around. -/
theorem foldlM_keepKnown (hdistinct : shape.Distinct members) :
    ∀ before : List (String × Json), (∀ member ∈ shape.known members, ∀ other ∈ before, other.1 ≠ member.1) →
      members.foldlM (keepKnown shape) before = some ((shape.known members).reverse ++ before) := by
  induction members with
  | nil => intro before _; rfl
  | cons member rest ih =>
    intro before hbefore
    rw [List.foldlM_cons]
    cases hfield : shape.field? member.1 with
    | none =>
      have hknown : shape.known (member :: rest) = shape.known rest := List.filter_cons_of_neg (by simp [hfield])
      rw [Shape.Distinct, hknown] at hdistinct
      rw [hknown] at hbefore ⊢
      simp only [keepKnown, hfield, Option.isSome_none, Bool.false_eq_true, if_false]
      exact ih hdistinct before hbefore
    | some field =>
      have hknown : shape.known (member :: rest) = member :: shape.known rest :=
        List.filter_cons_of_pos (by simp [hfield])
      rw [Shape.Distinct, hknown, List.map_cons, List.nodup_cons] at hdistinct
      rw [hknown] at hbefore ⊢
      obtain ⟨hnew, hrest⟩ := List.forall_mem_cons.mp hbefore
      have hfirst : (before.any fun other => other.1 = member.1) = false := by
        rw [List.any_eq_false]
        exact fun other hother => by simpa using hnew other hother
      simp only [keepKnown, hfield, Option.isSome_some, if_true, hfirst, Bool.false_eq_true, if_false]
      refine (ih hdistinct.2 (member :: before) fun later hlater other hother => ?_).trans ?_
      · rcases List.mem_cons.mp hother with rfl | hother
        · exact fun heq => hdistinct.1 (List.mem_map.mpr ⟨later, hlater, heq.symm⟩)
        · exact hrest later hlater other hother
      · rw [List.reverse_cons, List.append_assoc, List.singleton_append]

theorem decodeMembers_known (members : List (String × Json)) (seen : List String) (target : σ) :
    shape.decodeMembers .stored seen target (shape.known members)
      = shape.decodeMembers .stored seen target members := by
  induction members generalizing seen target with
  | nil => rfl
  | cons member rest ih =>
    obtain ⟨name, v⟩ := member
    cases hfield : shape.field? name with
    | none =>
      have hknown : shape.known ((name, v) :: rest) = shape.known rest := List.filter_cons_of_neg (by simp [hfield])
      rw [hknown, ih, Shape.decodeMembers]
      simp only [hfield]
    | some field =>
      have hknown : shape.known ((name, v) :: rest) = (name, v) :: shape.known rest :=
        List.filter_cons_of_pos (by simp [hfield])
      simp only [hknown, Shape.decodeMembers, hfield, ih]

/-- The record of the known members is the record of all. -/
theorem decode_known (members : List (String × Json)) :
    shape.decode .stored (.object (shape.known members)) = shape.decode .stored (.object members) := by
  simp only [Shape.decode, decodeMembers_known]

/-- **A printed record is read** as the record that its members make, whatever else stands between them. -/
theorem reads_record_object {levels : Nat} (hreadable : shape.Readable levels members)
    (hdistinct : shape.Distinct members) (level : Nat) :
    Reads (record shape (levels + 1)) (pretty level (.object members))
      (shape.decode .stored (.object members)).toOption := by
  intro rest offset hrest
  have hhead := pretty_head_not_isLayout level (.object members) rest
  rw [pretty_object, List.cons_append, List.append_assoc, List.singleton_append] at hhead ⊢
  unfold record
  rw [skipSpace_eq_self hhead]
  have hfuel := Nat.lt_succ_of_le (length_le_membersText level members ('\x7d' :: rest))
  have hread := yields_members level (fun member hmember before =>
    reads_fieldMember_readable hreadable hmember (level + 1) before) rest [] (offset + 1) hfuel
  rw [foldlM_keepKnown hdistinct [] fun _ _ => List.forall_mem_nil _, List.append_nil] at hread
  have hrecord := hread.bind (fun r => shaped shape (.object r.1.reverse) r.2.next)
    (fun kept => (shape.decode .stored (.object kept.reverse)).toOption) fun kept offset _ =>
      yields_shaped shape (.object kept.reverse) rest (offset + 1)
  rw [Option.bind_some, List.reverse_reverse, decode_known] at hrecord
  exact hrecord

/-! ## Maps of records -/

/-- **The text of a map of records is read** record by record. -/
theorem toOption_mapOf (levels : Nat) {entries : List (String × Json)}
    (hreadable : ∀ entry ∈ entries, ∃ members, entry.2 = .object members ∧ shape.Readable levels members ∧
      shape.Distinct members) :
    (document (mapOf (record shape) (levels + 2)) (pretty 0 (.object entries))).toOption
      = (entries.mapM fun entry => (shape.decode .stored entry.2).toOption.map fun r => (entry.1, r)).map
          NameMap.ofList := by
  refine toOption_document fun rest offset hrest => ?_
  have hhead := pretty_head_not_isLayout 0 (.object entries) rest
  rw [pretty_object, List.cons_append, List.append_assoc, List.singleton_append] at hhead ⊢
  unfold mapOf
  rw [skipSpace_eq_self hhead]
  have hfuel := Nat.lt_succ_of_le (length_le_membersText 0 entries ('\x7d' :: rest))
  have hentry : ∀ entry ∈ entries, ∀ before,
      Reads (keep (record shape (levels + 1)) before entry.1) (':' :: ' ' :: pretty 1 entry.2)
        ((shape.decode .stored entry.2).toOption.map fun r => (entry.1, r) :: before) := by
    intro entry hentry before
    obtain ⟨members, heq, hmembers, hdistinct⟩ := hreadable entry hentry
    rw [heq]
    exact reads_keep (skipsSpace_record shape (levels + 1)) (reads_record_object hmembers hdistinct 1) before entry.1
  have hread := yields_members 0 hentry rest [] (offset + 1) hfuel
  have hmap := hread.bind (fun r => .ok (NameMap.ofList r.1.reverse, r.2.next))
    (fun kept => some (NameMap.ofList kept.reverse)) fun kept offset _ =>
      Yields.ok (NameMap.ofList kept.reverse) rest (offset + 1)
  rw [foldlM_keep_bind (fun v => (shape.decode .stored v).toOption) entries fun kept => some (NameMap.ofList kept)] at hmap
  rw [Option.map_eq_bind]
  exact hmap

end Json
end ThreatModel
