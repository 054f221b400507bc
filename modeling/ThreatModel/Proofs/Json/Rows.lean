import Mathlib
import ThreatModel.Proofs.Json.Passed

/-!
# `Proofs.Json.Rows` — records as rows

The fields of a record hold values of different types, each in a place of its own. So a record can be laid out as a row
of values, whose columns tell how each value is written and read. What is true of all rows is true of all such records:
their fields do not disturb each other, they are read as they were written, and each of them may lack the members that
have a default.

Rows are nested pairs, so that the row of a record is found by unfolding alone.

## Contents

* `Codec.Fits`, `Codec.Returns` — values that look as their guide says, and are read as they were written.
* `Column`, `Row`, `Row.fields` — columns, the rows of values in them, and the fields that hold these values.
* `Laid` — records that are laid out as rows.
* `pairwise_commutes`, `exists_returns`, `encode_change` — what the fields of a row do to a record.
* `Shape.Rows` — a shape whose records are rows, and what follows for it: `Rows.sound`, `Rows.independent`,
  `Rows.returns`, `Rows.decode_edited`, `Rows.defaults`.
-/

namespace ThreatModel
namespace Json

variable {α σ : Type}

/-! ## Values that are written as they are read -/

/-- A codec whose values look as its guide says. -/
def Codec.Fits (codec : Codec α) : Prop := ∀ a, codec.guide.Fits (codec.encode a)

theorem fits_text : Codec.text.Fits := fun s => ⟨s, rfl⟩

theorem fits_custom : Codec.custom.Fits := fun slot => ⟨slot.members, rfl⟩

theorem fits_list {item : Codec α} (h : item.Fits) : (Codec.list item).Fits := by
  intro as
  refine ⟨as.map item.encode, rfl, fun v hv => ?_⟩
  obtain ⟨a, -, rfl⟩ := List.mem_map.mp hv
  exact h a

theorem fits_shape (shape : Shape σ) : shape.codec.Fits := fun _ => trivial

theorem fits_count : Codec.count.Fits := fun _ => trivial

theorem toOption_map {ε β : Type} (f : α → β) (outcome : Except ε α) :
    (outcome.map f).toOption = outcome.toOption.map f := by
  cases outcome <;> rfl

theorem toOption_eq_some_iff {ε : Type} {outcome : Except ε α} {a : α} : outcome.toOption = some a ↔ outcome = .ok a := by
  cases outcome with
  | error e => exact ⟨nofun, nofun⟩
  | ok b => exact ⟨fun h => congrArg Except.ok (Option.some.inj h), fun h => congrArg some (Except.ok.inj h)⟩

/-- A codec that reads what it has written. -/
def Codec.Returns (codec : Codec α) : Prop := ∀ a, codec.decode .stored (codec.encode a) = .ok a

theorem returns_field {codec : Codec α} (h : codec.Returns) (name : String) (required : Bool) (get : σ → α)
    (put : α → σ → σ) (record : σ) :
    (codec.field name required get put).decode .stored ((codec.field name required get put).encode record)
      = .ok (put (get record)) := by
  simp only [Codec.field, h (get record)]
  rfl

theorem returns_text : Codec.text.Returns := fun _ => rfl

theorem returns_list {item : Codec α} (h : item.Returns) : (Codec.list item).Returns := by
  intro as
  have hitems : (as.map item.encode).mapM (item.decode .stored) = .ok as := by
    induction as with
    | nil => rfl
    | cons a more ih =>
      rw [List.map_cons, List.mapM_cons, h a, ih]
      rfl
  exact hitems

theorem returns_count : Codec.count.Returns := by
  intro n
  have hnegative : ¬(n : Int) < 0 := by omega
  simp only [Codec.count, hnegative, if_false, Int.toNat_natCast]

/-! ## Columns and rows -/

/-- A column of records: how its values are written and read, the name of the member that holds them, and whether that
has to be there. -/
structure Column where
  Value : Type
  codec : Codec Value
  name : String
  required : Bool
  fits : codec.Fits
  returns : codec.Returns

/-- A column of texts. -/
def Column.text (name : String) (required : Bool) : Column := ⟨String, Codec.text, name, required, fits_text, returns_text⟩

/-- A column whose values are written as texts, truth values or null. -/
def Column.Simple (column : Column) : Prop := ∀ v, (column.codec.encode v).IsSimple

/-- A value for each column. -/
@[reducible] def Row : List Column → Type
  | [] => Unit
  | column :: more => column.Value × Row more

namespace Row

/-- The fields of a record that hold the values of a row. -/
def fields : (columns : List Column) → (get : σ → Row columns) → (set : Row columns → σ → σ) → List (Field σ)
  | [], _, _ => []
  | column :: more, get, set =>
    column.codec.field column.name column.required (fun r => (get r).1) (fun v r => set (v, (get r).2) r) ::
      fields more (fun r => (get r).2) fun row r => set ((get r).1, row) r

/-- The names of the columns that have to be there. -/
def required (columns : List Column) : List String := (columns.filter Column.required).map Column.name

/-- The names of the other columns, each with the row that has the value of a blank row there. -/
def optional : (columns : List Column) → (blank row : Row columns) → List (String × Row columns)
  | [], _, _ => []
  | column :: more, blank, row =>
    (if column.required then [] else [(column.name, (blank.1, row.2))])
      ++ (optional more blank.2 row.2).map fun p => (p.1, (row.1, p.2))

end Row

/-- Records that are laid out as rows: the row of a record can be seen, and replaced. -/
structure Laid {columns : List Column} (get : σ → Row columns) (set : Row columns → σ → σ) : Prop where
  get_set : ∀ row r, get (set row r) = row
  set_get : ∀ r, set (get r) r = r
  set_set : ∀ row row' r, set row (set row' r) = set row r

variable {column : Column} {columns : List Column} {get : σ → Row columns} {set : Row columns → σ → σ} {field : Field σ}

/-- The rest of a row is laid out as well. -/
theorem Laid.tail {get : σ → Row (column :: columns)} {set : Row (column :: columns) → σ → σ} (h : Laid get set) :
    Laid (fun r => (get r).2) fun row r => set ((get r).1, row) r where
  get_set row r := by rw [h.get_set]
  set_get r := h.set_get r
  set_set row row' r := by rw [h.get_set, h.set_set]

/-! ## The fields of a row -/

theorem map_name_fields (columns : List Column) (get : σ → Row columns) (set : Row columns → σ → σ) :
    (Row.fields columns get set).map Field.name = columns.map Column.name := by
  induction columns with
  | nil => rfl
  | cons column more ih => exact congrArg (column.name :: ·) (ih _ _)

/-- A field belongs to a column. -/
theorem exists_column (h : field ∈ Row.fields columns get set) :
    ∃ column ∈ columns, column.name = field.name ∧ column.required = field.required ∧
      field.guide = column.codec.guide ∧ ∀ r, ∃ v, field.encode r = column.codec.encode v := by
  induction columns with
  | nil => cases h
  | cons column more ih =>
    rcases List.mem_cons.mp h with rfl | h
    · exact ⟨column, List.mem_cons_self, rfl, rfl, rfl, fun r => ⟨(get r).1, rfl⟩⟩
    · obtain ⟨other, hother, hfield⟩ := ih h
      exact ⟨other, List.mem_cons_of_mem _ hother, hfield⟩

/-- A column has a field. -/
theorem exists_field (h : column ∈ columns) :
    ∃ field ∈ Row.fields columns get set, field.name = column.name ∧ field.required = column.required := by
  induction columns with
  | nil => cases h
  | cons first more ih =>
    rcases List.mem_cons.mp h with rfl | h
    · exact ⟨_, List.mem_cons_self, rfl, rfl⟩
    · obtain ⟨field, hfield, hcolumn⟩ := ih h
      exact ⟨field, List.mem_cons_of_mem _ hfield, hcolumn⟩

/-- What a field writes is told by the row. -/
theorem encode_congr (h : field ∈ Row.fields columns get set) {r r' : σ} (hrow : get r = get r') :
    field.encode r = field.encode r' := by
  induction columns with
  | nil => cases h
  | cons column more ih =>
    rcases List.mem_cons.mp h with rfl | h
    · exact congrArg (fun row => column.codec.encode (Prod.fst row)) hrow
    · exact ih h (congrArg Prod.snd hrow)

/-- What a field puts into a record, it puts into its row. -/
theorem exists_change (h : field ∈ Row.fields columns get set) {v : Json} {change : σ → σ}
    (hchange : field.decode .stored v = .ok change) : ∃ f : Row columns → Row columns, ∀ r, change r = set (f (get r)) r := by
  induction columns with
  | nil => cases h
  | cons column more ih =>
    rcases List.mem_cons.mp h with rfl | h
    · obtain ⟨a, -, rfl⟩ := decode_field_ok hchange
      exact ⟨fun row => (a, row.2), fun _ => rfl⟩
    · obtain ⟨f, hf⟩ := ih h
      exact ⟨fun row => (row.1, f row.2), hf⟩

/-- **The fields of a row commute**, because each puts its value into a column of its own. -/
theorem pairwise_commutes (h : Laid get set) : (Row.fields columns get set).Pairwise Field.Commutes := by
  induction columns with
  | nil => exact List.Pairwise.nil
  | cons column more ih =>
    refine List.pairwise_cons.mpr ⟨fun other hother => ?_, ih h.tail⟩
    intro v w put put' hput hput' r
    obtain ⟨a, -, rfl⟩ := decode_field_ok hput
    obtain ⟨f, hf⟩ := exists_change hother hput'
    simp only [hf, h.get_set, h.set_set]

/-- **The fields of a row put back what they hold**, and all of them together put back the row. -/
theorem exists_returns (h : Laid get set) (record : σ) :
    ∃ changes, Shape.Returns record (Row.fields columns get set) changes ∧
      ∀ target, changes.foldl (fun r change => change r) target = set (get record) target := by
  induction columns with
  | nil => exact ⟨[], List.Forall₂.nil, fun target => (h.set_get target).symm⟩
  | cons column more ih =>
    obtain ⟨changes, hchanges, hfold⟩ := ih h.tail
    refine ⟨_, List.Forall₂.cons (returns_field column.returns ..) hchanges, fun target => ?_⟩
    rw [List.foldl_cons, hfold]
    simp only [h.get_set, h.set_set]

/-- A field reads what it writes of a record that it has changed. -/
theorem decode_encode_change (h : Laid get set) (hfield : field ∈ Row.fields columns get set) {v : Json} {change : σ → σ}
    (hchange : field.decode .stored v = .ok change) (r : σ) :
    field.decode .stored (field.encode (change r)) = .ok change := by
  induction columns with
  | nil => cases hfield
  | cons column more ih =>
    rcases List.mem_cons.mp hfield with rfl | hfield
    · obtain ⟨a, -, rfl⟩ := decode_field_ok hchange
      refine (returns_field column.returns ..).trans ?_
      simp only [h.get_set]
    · exact ih h.tail hfield

/-- **A field changes what it writes itself**, and nothing that the others write. -/
theorem encode_change (h : Laid get set) (hfield : field ∈ Row.fields columns get set) {v : Json} {change : σ → σ}
    (hchange : field.decode .stored v = .ok change) {other : Field σ} (hother : other ∈ Row.fields columns get set)
    (hname : other.name ≠ field.name) (r : σ) : other.encode (change r) = other.encode r := by
  induction columns with
  | nil => cases hfield
  | cons column more ih =>
    rcases List.mem_cons.mp hfield with rfl | hfield
    · obtain ⟨a, -, rfl⟩ := decode_field_ok hchange
      rcases List.mem_cons.mp hother with rfl | hother
      · exact absurd rfl hname
      · exact encode_congr hother (by simp only [h.get_set])
    · rcases List.mem_cons.mp hother with rfl | hother
      · obtain ⟨f, hf⟩ := exists_change hfield hchange
        simp only [hf, Codec.field, h.get_set]
      · exact ih h.tail hfield hother

/-- A column that may be left out has a field that puts its default. -/
theorem exists_default (h : Laid get set) (blank record : σ) :
    ∀ p ∈ Row.optional columns (get blank) (get record), ∃ field ∈ Row.fields columns get set,
      field.name = p.1 ∧ field.required = false ∧ field.encode (set p.2 record) = field.encode blank ∧
        ∃ change, field.decode .stored (field.encode blank) = .ok change ∧ change blank = blank ∧
          change record = set p.2 record := by
  induction columns with
  | nil => exact List.forall_mem_nil _
  | cons column more ih =>
    intro p hp
    rcases List.mem_append.mp hp with hhead | htail
    · split at hhead
      · cases hhead
      · next hoptional =>
        obtain rfl := List.mem_singleton.mp hhead
        refine ⟨_, List.mem_cons_self, rfl, Bool.eq_false_iff.mpr hoptional, ?_, _, returns_field column.returns .., ?_, rfl⟩
        · simp only [Codec.field, h.get_set]
        · exact h.set_get blank
    · obtain ⟨q, hq, rfl⟩ := List.mem_map.mp htail
      obtain ⟨field, hfield, hfacts⟩ := ih h.tail q hq
      exact ⟨field, List.mem_cons_of_mem _ hfield, hfacts⟩

/-- A column that may be left out is listed under its name. -/
theorem name_mem_optional (h : column ∈ columns) (hoptional : column.required = false) (blank row : Row columns) :
    column.name ∈ (Row.optional columns blank row).map Prod.fst := by
  induction columns with
  | nil => cases h
  | cons first more ih =>
    rw [Row.optional, List.map_append, List.mem_append]
    rcases List.mem_cons.mp h with rfl | h
    · left
      rw [hoptional, if_neg Bool.false_ne_true]
      exact List.mem_singleton_self _
    · right
      rw [List.map_map]
      exact ih h blank.2 row.2

/-! ## Shapes whose records are rows -/

/-- A shape whose records are rows: each has a row, and is put together from it. -/
structure Shape.Rows (shape : Shape σ) where
  columns : List Column
  row : σ → Row columns
  ofRow : Row columns → σ
  names : (columns.map Column.name).Nodup
  fields : shape.fields = Row.fields columns row fun values _ => ofRow values := by rfl
  row_ofRow : ∀ values, row (ofRow values) = values := by exact fun _ => rfl
  ofRow_row : ∀ record, ofRow (row record) = record := by exact fun _ => rfl

namespace Shape.Rows

variable {shape : Shape σ} (rows : shape.Rows)

/-- The names of the members that a record has to have. -/
def required : List String := Row.required rows.columns

/-- The names of the members that a record may lack, each with the record that has its default. -/
def optional (record : σ) : List (String × σ) :=
  (Row.optional rows.columns (rows.row shape.blank) (rows.row record)).map fun p => (p.1, rows.ofRow p.2)

theorem laid (rows : shape.Rows) : Laid rows.row fun values _ => rows.ofRow values where
  get_set values _ := rows.row_ofRow values
  set_get := rows.ofRow_row
  set_set _ _ _ := rfl

/-- The shape of a record that is a row is sound. -/
theorem sound (rows : shape.Rows) : shape.Sound where
  names := by
    rw [rows.fields, map_name_fields]
    exact rows.names
  fits := by
    intro field hfield record
    rw [rows.fields] at hfield
    obtain ⟨column, -, -, -, hguide, hencode⟩ := exists_column hfield
    obtain ⟨v, hv⟩ := hencode record
    rw [hguide, hv]
    exact column.fits v

/-- The fields of a record that is a row do not disturb each other. -/
theorem independent (rows : shape.Rows) : shape.Independent where
  toSound := rows.sound
  commutes := by
    rw [rows.fields]
    exact pairwise_commutes rows.laid

/-- **A record that is a row** is read as it was written. -/
theorem returns (rows : shape.Rows) : shape.codec.Returns := by
  intro record
  obtain ⟨changes, hchanges, hfold⟩ := exists_returns rows.laid record
  rw [← rows.fields] at hchanges
  refine toOption_eq_some_iff.mp ?_
  show (shape.decode .stored (shape.encode record)).toOption = some record
  rw [Shape.decode_encode rows.sound hchanges, hfold, rows.ofRow_row]

/-- A column that has to be there has a field that does. -/
theorem exists_required (rows : shape.Rows) :
    ∀ name ∈ rows.required, ∃ field, shape.field? name = some field ∧ field.required = true := by
  intro name hname
  obtain ⟨column, hcolumn, rfl⟩ := List.mem_map.mp hname
  obtain ⟨hcolumn, hrequired⟩ := List.mem_filter.mp hcolumn
  obtain ⟨field, hfield, hsame, heq⟩ := exists_field hcolumn
  rw [← rows.fields] at hfield
  exact ⟨field, hsame ▸ rows.sound.field?_name hfield, heq.trans hrequired⟩

/-- What a field writes, and what it changes, is apart from the other fields. -/
theorem encode_change (rows : shape.Rows) {field : Field σ} (hfield : field ∈ shape.fields) {v : Json} {change : σ → σ}
    (hchange : field.decode .stored v = .ok change) (record : σ) :
    ∀ other ∈ shape.fields, other.name ≠ field.name → other.encode (change record) = other.encode record := by
  intro other hother hname
  rw [rows.fields] at hfield hother
  exact Json.encode_change rows.laid hfield hchange hother hname record

/-- **A record with an edited member** is read as the record with what its field then says. -/
theorem decode_edited (rows : shape.Rows) {field : Field σ} (hfield : field ∈ shape.fields) (edit : Json → Json)
    (record : σ) {change : σ → σ} (hchange : field.decode .stored (edit (field.encode record)) = .ok change) :
    (shape.decode .stored (.object ((shape.members record).map fun member =>
      if member.1 = field.name then (member.1, edit member.2) else member))).toOption = some (change record) := by
  have halike : List.Forall₂ shape.Alike
      ((shape.members record).map fun member => if member.1 = field.name then (member.1, edit member.2) else member)
      (shape.members (change record)) := by
    rw [Shape.members, Shape.members, List.map_map, List.forall₂_map_left_iff, List.forall₂_map_right_iff,
      List.forall₂_same]
    intro other hother
    rw [Function.comp_apply]
    by_cases hname : other.name = field.name
    · have hsame := rows.sound.field?_name hother
      rw [hname, rows.sound.field?_name hfield] at hsame
      obtain rfl := Option.some.inj hsame
      rw [if_pos rfl]
      refine ⟨rfl, fun found hfound => ?_⟩
      rw [rows.sound.field?_name hfield] at hfound
      obtain rfl := Option.some.inj hfound
      rw [rows.fields] at hfield
      rw [hchange, decode_encode_change rows.laid hfield hchange]
    · rw [if_neg hname, rows.encode_change hfield hchange record other hother hname]
      exact ⟨rfl, fun _ _ => rfl⟩
  have hnames := Shape.names_eq_of_alike halike
  rw [Shape.decode_congr rows.sound (hnames ▸ rows.sound.members_nodup _) halike]
  exact congrArg Except.toOption (rows.returns (change record))

/-- **A member with a default may be left out.** -/
theorem defaults (rows : shape.Rows) (record : σ) :
    ∀ p ∈ rows.optional record, shape.Defaults p.1 record p.2 := by
  intro p hp
  obtain ⟨q, hq, rfl⟩ := List.mem_map.mp hp
  obtain ⟨field, hfield, hname, hoptional, hencode, change, hdecode, hblank, hchange⟩ :=
    exists_default rows.laid shape.blank record q hq
  rw [← rows.fields] at hfield
  refine ⟨⟨field, hname ▸ rows.sound.field?_name hfield, hoptional, hencode, change, hdecode, hblank⟩, ?_⟩
  intro other hother hne
  rw [← hchange]
  exact rows.encode_change hfield hdecode record other hother (hname ▸ hne)

/-- A record has no other members. -/
theorem required_or_optional (rows : shape.Rows) (record : σ) :
    ∀ member ∈ shape.members record, member.1 ∈ rows.required ∨ member.1 ∈ (rows.optional record).map Prod.fst := by
  intro member hmember
  obtain ⟨field, hfield, rfl⟩ := List.mem_map.mp hmember
  rw [rows.fields] at hfield
  obtain ⟨column, hcolumn, hname, -⟩ := exists_column hfield
  rw [← hname]
  cases hrequired : column.required with
  | true => exact Or.inl (List.mem_map_of_mem (List.mem_filter.mpr ⟨hcolumn, hrequired⟩))
  | false =>
    have hmem := name_mem_optional hcolumn hrequired (rows.row shape.blank) (rows.row record)
    rw [optional, List.map_map]
    exact Or.inr hmem

end Shape.Rows

end Json
end ThreatModel
