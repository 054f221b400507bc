import Mathlib
import ThreatModel.Json.Shape
import ThreatModel.Proofs.Json.Value
import ThreatModel.Proofs.NameMap

/-!
# `Proofs.Json.Record` — printed records are read back

A record is read member by member, each member in the way of its field. What comes of a record that is printed
and read back is therefore made of what comes of its fields, each of which knows nothing of the others.

## Contents

* `Guide.Fits`, `reads_guided` — values that look as their place wants them to.
* `Codec.back`, `Field.back` — what becomes of one value, and of one field of a record.
* `Shape.Sound`, `back_shape` — what becomes of a record, field by field.
* `reads_record`, `reads_mapOf` — printed records and maps of records are read back.
-/

namespace ThreatModel
namespace Json

open Reader

/-! ## Values that look right -/

/-- Whether a value looks as a guide says. -/
def Guide.Fits : Guide → Json → Prop
  | .any, _ => True
  | .text, v => ∃ s, v = .string s
  | .members, v => ∃ members, v = .object members
  | .list item, v => ∃ items, v = .array items ∧ ∀ i ∈ items, item.Fits i

theorem skipsSpace_guided (guide : Guide) (levels : Nat) : SkipsSpace (guided guide levels) := by
  intro c
  cases guide <;> simp only [guided, skipSpace_skipSpace]

/-- **A value that looks right is read** as any value is. -/
theorem reads_guided {guide : Guide} {v : Json} (h : guide.Fits v) (levels level : Nat) :
    Reads (guided guide levels) (pretty level v) (reread levels v) := by
  -- Only lists have guides for their items, so the induction is on the guide and not on the value.
  induction guide generalizing v levels level with
  | any =>
    intro rest offset hrest
    have hhead := pretty_head_not_isLayout level v rest
    simp only [guided, skipSpace_eq_self hhead, isEmpty_pretty, Bool.false_eq_true, if_false]
    exact reads_value v levels level rest offset hrest
  | text =>
    intro rest offset hrest
    have hhead := pretty_head_not_isLayout level v rest
    obtain ⟨s, rfl⟩ := h
    have htext := (reads_text s rest (offset + 1)).map Json.string
    simp only [guided, skipSpace_eq_self hhead, isEmpty_pretty, Bool.false_eq_true, if_false]
    rw [pretty, textLiteral, List.cons_append, List.cons_append, List.append_assoc, List.singleton_append,
      List.head?_cons, if_pos rfl]
    exact htext
  | members =>
    intro rest offset hrest
    have hhead := pretty_head_not_isLayout level v rest
    obtain ⟨members, rfl⟩ := h
    simp only [guided, skipSpace_eq_self hhead, isEmpty_pretty, Bool.false_eq_true, if_false]
    rw [pretty_object, List.cons_append, List.append_assoc, List.singleton_append, List.head?_cons, if_pos rfl]
    cases levels with
    | zero => exact Yields.error _ rest
    | succ levels =>
      have hfuel := Nat.lt_succ_of_le (length_le_membersText level members ('\x7d' :: rest))
      exact yields_object (reads_value_members members) rest (offset + 1) hfuel
  | list item ih =>
    intro rest offset hrest
    have hhead := pretty_head_not_isLayout level v rest
    obtain ⟨items, rfl, hitems⟩ := h
    simp only [guided, skipSpace_eq_self hhead, isEmpty_pretty, Bool.false_eq_true, if_false]
    rw [pretty_array, List.cons_append, List.append_assoc, List.singleton_append, List.head?_cons, if_pos rfl]
    cases levels with
    | zero => exact Yields.error _ rest
    | succ levels =>
      have hitem : ∀ v ∈ items, Reads (guided item levels) (pretty (level + 1) v) (reread levels v) :=
        fun v hv => ih (hitems v hv) levels (level + 1)
      have hfuel := Nat.lt_succ_of_le (Nat.le_succ_of_le (length_le_itemsText level items (']' :: rest)))
      have hread := yields_items hitem rest (offset + 1) hfuel
      rw [reread, rereadItems_eq_mapM, Option.map_eq_bind]
      exact hread.bind _ _ fun items offset _ => Yields.ok (Json.array items) rest (offset + 1)

/-! ## Fields and records -/

variable {σ α : Type}

/-- What becomes of a value that is written, printed, read and understood again. -/
def Codec.back (codec : Codec α) (levels : Nat) (a : α) : Option α :=
  (reread levels (codec.encode a)).bind fun v => (codec.decode .stored v).toOption

/-- What a field of a record that is written and read back puts into another record. -/
def Field.back (field : Field σ) (levels : Nat) (record : σ) : Option (σ → σ) :=
  (reread levels (field.encode record)).bind fun v => (field.decode .stored v).toOption

/-- The field of a codec puts what becomes of its value. -/
theorem back_field (codec : Codec α) (name : String) (required : Bool) (get : σ → α) (put : α → σ → σ)
    (levels : Nat) (record : σ) :
    (codec.field name required get put).back levels record = (codec.back levels (get record)).map put := by
  unfold Field.back Codec.back Codec.field
  cases reread levels (codec.encode (get record)) with
  | none => rfl
  | some v => cases h : codec.decode .stored v <;> simp [h, Except.map, Except.toOption]

/-- A shape whose fields have names of their own, and write what they read. -/
structure Shape.Sound (shape : Shape σ) : Prop where
  names : (shape.fields.map Field.name).Nodup
  fits : ∀ field ∈ shape.fields, ∀ record, field.guide.Fits (field.encode record)

/-- The members of a record, in the order of its fields. -/
def Shape.members (shape : Shape σ) (record : σ) : List (String × Json) :=
  shape.fields.map fun field => (field.name, field.encode record)

theorem Shape.Sound.members_nodup {shape : Shape σ} (h : shape.Sound) (record : σ) :
    ((shape.members record).map Prod.fst).Nodup := by
  rw [Shape.members, List.map_map]
  exact h.names

/-- The record that is left when one field after the other has put what becomes of it. -/
def refill (levels : Nat) (record : σ) : List (Field σ) → σ → Option σ
  | [], target => some target
  | field :: more, target => (field.back levels record).bind fun put => refill levels record more (put target)

theorem toOption_ok {ε : Type} (a : α) : (.ok a : Except ε α).toOption = some a := rfl

theorem toOption_bind {ε β : Type} (outcome : Except ε α) (next : α → Except ε β) :
    (outcome >>= next).toOption = outcome.toOption.bind fun a => (next a).toOption := by
  cases outcome <;> rfl

theorem find?_field {fields : List (Field σ)} (hnames : (fields.map Field.name).Nodup) {field : Field σ}
    (hfield : field ∈ fields) : fields.find? (fun other => other.name = field.name) = some field := by
  induction fields with
  | nil => exact absurd hfield List.not_mem_nil
  | cons head more ih =>
    rw [List.map_cons, List.nodup_cons] at hnames
    rcases List.mem_cons.mp hfield with rfl | hfield
    · simp
    · have hne : head.name ≠ field.name := by
        intro heq
        exact hnames.1 (heq ▸ List.mem_map_of_mem hfield)
      rw [List.find?_cons_of_neg (by simpa using hne)]
      exact ih hnames.2 hfield

/-- A member is read into its field, if it is the first one of that name. -/
theorem toOption_decodeMembers_cons {shape : Shape σ} {field : Field σ} (hfind : shape.field? field.name = some field)
    {seen : List String} (hnew : field.name ∉ seen) (target : σ) (v : Json) (members : List (String × Json)) :
    (shape.decodeMembers .stored seen target ((field.name, v) :: members)).toOption
      = (field.decode .stored v).toOption.bind fun put =>
          (shape.decodeMembers .stored (field.name :: seen) (put target) members).toOption := by
  have hcontains : seen.contains field.name = false := by simpa using hnew
  rw [Shape.decodeMembers, ← toOption_bind]
  simp only [hfind, hcontains, Bool.false_eq_true, if_false]

/-- The members of a record are read into their fields. -/
theorem decodeMembers_reread {shape : Shape σ} (hsound : shape.Sound) (levels : Nat) (record : σ) :
    ∀ (fields : List (Field σ)) (seen : List String) (target : σ), (∀ field ∈ fields, field ∈ shape.fields) →
      (fields.map Field.name).Nodup → (∀ field ∈ fields, field.name ∉ seen) →
      ((rereadMembers levels (fields.map fun field => (field.name, field.encode record))).bind fun members =>
        (shape.decodeMembers .stored seen target members).toOption)
      = (refill levels record fields target).map fun target =>
          (target, (fields.map Field.name).reverse ++ seen) := by
  -- By induction on the fields that are left. The names seen so far are carried along, because a name that comes
  -- twice is a fault.
  intro fields
  induction fields with
  | nil =>
    intro seen target _ _ _
    rfl
  | cons field more ih =>
    intro seen target hmem hnames hseen
    rw [List.map_cons, List.nodup_cons] at hnames
    have hfind : shape.field? field.name = some field :=
      find?_field hsound.names (hmem field List.mem_cons_self)
    have hdecode := toOption_decodeMembers_cons hfind (hseen field List.mem_cons_self) target
    -- The fields that follow meet one more name that is seen, which is not among theirs.
    have hmore := fun target => ih (field.name :: seen) target
      (fun other hother => hmem other (List.mem_cons_of_mem _ hother)) hnames.2 (by
        intro other hother hin
        rcases List.mem_cons.mp hin with heq | hin
        · exact hnames.1 (heq ▸ List.mem_map_of_mem hother)
        · exact hseen other (List.mem_cons_of_mem _ hother) hin)
    have hnames : (List.map Field.name (field :: more)).reverse ++ seen
        = (more.map Field.name).reverse ++ field.name :: seen := by simp
    rw [List.map_cons, rereadMembers, refill, Field.back, hnames]
    cases reread levels (field.encode record) with
    | none => rfl
    | some v =>
      simp only [bind, Option.bind_some]
      cases hput : (field.decode .stored v).toOption with
      | none =>
        cases rereadMembers levels (more.map fun field => (field.name, field.encode record)) with
        | none => rfl
        | some members => simp only [Option.bind_some, hdecode, hput, Option.bind_none, Option.map_none]
      | some put =>
        rw [Option.bind_some, ← hmore (put target)]
        cases rereadMembers levels (more.map fun field => (field.name, field.encode record)) with
        | none => rfl
        | some members => simp only [Option.bind_some, hdecode, hput]

/-- No field is missing once all are seen. -/
theorem complete_of_all (shape : Shape σ) (record : σ) :
    shape.complete record ((shape.fields.map Field.name).reverse ++ []) = .ok record := by
  have hnone : (shape.fields.find? fun field =>
      field.required && !((shape.fields.map Field.name).reverse ++ []).contains field.name) = none := by
    rw [List.find?_eq_none]
    intro field hfield
    simp only [List.append_nil, Bool.and_eq_true, Bool.not_eq_true', not_and, Bool.not_eq_false]
    intro _
    rw [List.contains_iff_mem, List.mem_reverse]
    exact List.mem_map_of_mem hfield
  unfold Shape.complete
  rw [hnone]

/-- **What becomes of a record** that is written and read back is made of what becomes of its fields. -/
theorem back_shape {shape : Shape σ} (hsound : shape.Sound) (levels : Nat) (record : σ) :
    shape.codec.back (levels + 1) record = refill levels record shape.fields shape.blank := by
  have hmembers := decodeMembers_reread hsound levels record shape.fields [] shape.blank (fun _ h => h)
    hsound.names (fun _ _ => List.not_mem_nil)
  have hdecode : ∀ members, (shape.decode .stored (.object members)).toOption
      = (shape.decodeMembers .stored [] shape.blank members).toOption.bind fun r =>
          (shape.complete r.1 r.2).toOption := by
    intro members
    rw [Shape.decode, ← toOption_bind]
  have hback : shape.codec.back (levels + 1) record
      = ((rereadMembers levels (shape.fields.map fun field => (field.name, field.encode record))).bind fun members =>
          (shape.decodeMembers .stored [] shape.blank members).toOption).bind fun r =>
            (shape.complete r.1 r.2).toOption := by
    unfold Codec.back Shape.codec
    simp only [Shape.encode, reread, Option.bind_map, Option.bind_assoc]
    exact congrArg _ (funext hdecode)
  rw [hback, hmembers, Option.bind_map]
  cases refill levels record shape.fields shape.blank with
  | none => rfl
  | some target =>
    simp only [Option.bind_some, Function.comp_apply, complete_of_all]
    rfl

/-! ## Records from text -/

/-- Members with names of their own are kept as if repeats were allowed. -/
theorem foldlM_distinct {result : Json → Option Json} {members : List (String × Json)}
    (hnames : (members.map Prod.fst).Nodup) :
    ∀ before : List (String × Json), (∀ member ∈ before, member.1 ∉ members.map Prod.fst) →
      members.foldlM (fun before entry =>
          if before.any fun member => member.1 = entry.1 then none
          else (result entry.2).map fun v => (entry.1, v) :: before) before
        = members.foldlM (fun before entry => (result entry.2).map fun v => (entry.1, v) :: before) before := by
  induction members with
  | nil => intro before _; rfl
  | cons entry more ih =>
    intro before hbefore
    rw [List.map_cons, List.nodup_cons] at hnames
    have hnew : (before.any fun member => member.1 = entry.1) = false := by
      rw [List.any_eq_false]
      intro member hmember
      have hne := hbefore member hmember
      rw [List.map_cons, List.mem_cons, not_or] at hne
      simpa using hne.1
    rw [List.foldlM_cons, List.foldlM_cons]
    simp only [hnew, Bool.false_eq_true, if_false]
    cases result entry.2 with
    | none => rfl
    | some v =>
      refine ih hnames.2 ((entry.1, v) :: before) fun member hmember => ?_
      rcases List.mem_cons.mp hmember with rfl | hmember
      · exact hnames.1
      · have hne := hbefore member hmember
        rw [List.map_cons, List.mem_cons, not_or] at hne
        exact hne.2

/-- A member of a record is read in the way of its field. -/
theorem reads_fieldMember {shape : Shape σ} (hsound : shape.Sound) {field : Field σ} (hfield : field ∈ shape.fields)
    (record : σ) (levels level : Nat) (before : List (String × Json)) :
    Reads (fieldMember shape levels before field.name) (':' :: ' ' :: pretty level (field.encode record))
      (if before.any fun member => member.1 = field.name then none
        else (reread levels (field.encode record)).map fun v => (field.name, v) :: before) := by
  have hfind : shape.field? field.name = some field := find?_field hsound.names hfield
  intro rest offset hrest
  unfold fieldMember
  rw [hfind]
  by_cases hseen : (before.any fun member => member.1 = field.name) = true
  · simp only [hseen, if_true]
    exact Yields.error _ rest
  · simp only [hseen]
    exact reads_keep (skipsSpace_guided field.guide levels)
      (reads_guided (hsound.fits field hfield record) levels level) before field.name rest offset hrest

theorem yields_shaped (shape : Shape σ) (v : Json) (rest : List Char) (offset : Nat) :
    Yields (shaped shape v ⟨rest, offset⟩) rest (shape.decode .stored v).toOption := by
  unfold shaped
  cases shape.decode .stored v with
  | ok record => exact Yields.ok record rest offset
  | error m => exact Yields.error _ rest

theorem skipsSpace_record (shape : Shape σ) (levels : Nat) : SkipsSpace (record shape levels) := by
  intro c
  unfold record
  rw [skipSpace_skipSpace]

/-- **A printed record is read back**, member by member. -/
theorem reads_record {shape : Shape σ} (hsound : shape.Sound) (levels level : Nat) (r : σ) :
    Reads (record shape levels) (pretty level (shape.encode r)) (shape.codec.back levels r) := by
  intro rest offset hrest
  have hhead := pretty_head_not_isLayout level (shape.encode r) rest
  have hencode : shape.encode r = .object (shape.members r) := rfl
  rw [hencode, pretty_object, List.cons_append, List.append_assoc, List.singleton_append] at hhead ⊢
  unfold record
  rw [skipSpace_eq_self hhead]
  cases levels with
  | zero => exact Yields.error _ rest
  | succ levels =>
    have hfuel := Nat.lt_succ_of_le (length_le_membersText level (shape.members r) ('\x7d' :: rest))
    have hmember : ∀ entry ∈ shape.members r, ∀ before,
        Reads (fieldMember shape levels before entry.1) (':' :: ' ' :: pretty (level + 1) entry.2)
          (if before.any fun member => member.1 = entry.1 then none
            else (reread levels entry.2).map fun v => (entry.1, v) :: before) := by
      intro entry hentry before
      obtain ⟨field, hfield, rfl⟩ := List.mem_map.mp hentry
      exact reads_fieldMember hsound hfield r levels (level + 1) before
    have hread := yields_members level hmember rest [] (offset + 1) hfuel
    -- No name comes twice in a record, so its members are kept as if repeats were allowed.
    rw [foldlM_distinct (hsound.members_nodup r) [] (List.forall_mem_nil _)] at hread
    have hrecord := hread.bind (fun r => shaped shape (.object r.1.reverse) r.2.next)
      (fun kept => (shape.decode .stored (.object kept.reverse)).toOption) fun kept offset _ =>
        yields_shaped shape (.object kept.reverse) rest (offset + 1)
    rw [foldlM_keep_bind (reread levels) (shape.members r) fun kept => (shape.decode .stored (.object kept)).toOption,
      ← rereadMembers_eq_mapM] at hrecord
    have hback : shape.codec.back (levels + 1) r = (rereadMembers levels (shape.members r)).bind fun kept =>
        (shape.decode .stored (.object kept)).toOption := by
      unfold Codec.back Shape.codec
      simp only [hencode, reread, Option.bind_map]
      rfl
    rw [hback]
    exact hrecord

/-! ## Maps of records, and documents -/

/-- What becomes of a map of records that is written and read back. -/
def backMap (shape : Shape σ) : Nat → NameMap σ → Option (NameMap σ)
  | 0, _ => none
  | levels + 1, records => records.traverse (shape.codec.back levels)

/-- **A printed map of records is read back**, record by record. -/
theorem reads_mapOf {shape : Shape σ} (hsound : shape.Sound) (levels level : Nat) (records : NameMap σ) :
    Reads (mapOf (record shape) levels)
      (pretty level (.object (records.entries.map fun entry => (entry.1, shape.encode entry.2))))
      (backMap shape levels records) := by
  intro rest offset hrest
  have hhead := pretty_head_not_isLayout level
    (.object (records.entries.map fun entry => (entry.1, shape.encode entry.2))) rest
  rw [pretty_object, List.cons_append, List.append_assoc, List.singleton_append] at hhead ⊢
  unfold mapOf
  rw [skipSpace_eq_self hhead]
  cases levels with
  | zero => exact Yields.error _ rest
  | succ levels =>
    generalize hmembers : records.entries.map (fun entry => (entry.1, shape.encode entry.2)) = members
    have hfuel := Nat.lt_succ_of_le (length_le_membersText level members ('\x7d' :: rest))
    have hmember : ∀ entry ∈ members, ∀ before,
        Reads (keep (record shape levels) before entry.1) (':' :: ' ' :: pretty (level + 1) entry.2)
          (((reread levels entry.2).bind fun v => (shape.decode .stored v).toOption).map fun r =>
            (entry.1, r) :: before) := by
      intro entry hentry before
      obtain ⟨⟨name, r⟩, -, rfl⟩ := List.mem_map.mp (hmembers ▸ hentry)
      exact reads_keep (skipsSpace_record shape levels) (reads_record hsound levels (level + 1) r) before name
    have hread := yields_members level hmember rest [] (offset + 1) hfuel
    have hmap := hread.bind (fun r => .ok (NameMap.ofList r.1.reverse, r.2.next))
      (fun kept => some (NameMap.ofList kept.reverse)) fun kept offset _ =>
        Yields.ok (NameMap.ofList kept.reverse) rest (offset + 1)
    rw [foldlM_keep_bind (fun v => (reread levels v).bind fun v => (shape.decode .stored v).toOption) members
      fun kept => some (NameMap.ofList kept), ← hmembers, List.mapM_map] at hmap
    rw [← hmembers, backMap, NameMap.traverse, Option.map_eq_bind]
    exact hmap

/-- A whole text is read as it is read in its place. -/
theorem toOption_document {reader : Reader α} {text : List Char} {result : Option α} (h : Reads reader text result) :
    (document reader text).toOption = result := by
  have hread := h [] 0 delimited_nil
  rw [List.append_nil] at hread
  unfold document
  cases result with
  | none =>
    obtain ⟨fault, heq⟩ := hread
    rw [heq]
    rfl
  | some a =>
    obtain ⟨offset, heq⟩ := hread
    rw [heq]
    rfl

end Json
end ThreatModel
