import DistanceField.Json.Record
import DistanceField.Proofs.Json.Values
import DistanceField.Proofs.Steps
import Mathlib.Data.List.Nodup
import Mathlib.Data.Option.Basic

/-!
# Members of records

A closed record says what its members say, in any order, whether it is written as an object or as an
array.
-/

namespace DistanceField.Json

def Record.toMembers (record : Record) : List (Option String × Value) :=
  record.map fun (name, value) => (some name, value)

/-- The members that a value has as a record: an object has its own, and an array has its elements
under the first names. -/
inductive Value.HasMembers (names : List String) : Value → List (Option String × Value) → Prop
  | object (members : List (Option String × Value)) : HasMembers names (.object members) members
  | array {elements : List Value} (le : elements.length ≤ names.length) :
    HasMembers names (.array elements) (Record.toMembers (names.zip elements))

/-- What members say about a field: it is what its member is read as, or else what it is when it is
missing. -/
structure Fills {α : Type} (members : List (Option String × Value)) (name : String)
    (read : Value → Option α) (missing field : α) : Prop where
  present : ∀ value, (some name, value) ∈ members → read value = some field
  absent : (∀ value, (some name, value) ∉ members) → field = missing

variable {names : List String} {members others : List (Option String × Value)} {record : Record}
  {name : String} {value : Value}

theorem Fills.perm {α : Type} {read : Value → Option α} {missing field : α}
    (fills : Fills members name read missing field) (perm : members.Perm others) :
    Fills others name read missing field where
  present value mem := fills.present value (perm.mem_iff.mpr mem)
  absent none := fills.absent fun value mem => none value (perm.mem_iff.mp mem)

theorem Value.hasMembers_object_iff :
    (Value.object members).HasMembers names others ↔ others = members := by
  constructor
  · rintro ⟨⟩
    rfl
  · rintro rfl
    exact .object _

theorem Value.hasMembers_array_iff {elements : List Value} :
    (Value.array elements).HasMembers names members ↔
      elements.length ≤ names.length ∧ members = Record.toMembers (names.zip elements) := by
  constructor
  · rintro ⟨⟩
    exact ⟨‹_›, rfl⟩
  · rintro ⟨le, rfl⟩
    exact .array le

theorem Value.HasMembers.unique (has : value.HasMembers names members)
    (has' : value.HasMembers names others) : members = others := by
  cases has <;> cases has' <;> rfl

namespace Record

theorem toMembers_injective : Function.Injective toMembers :=
  List.map_injective_iff.mpr fun (name, value) (name', value') same => by simpa using same

theorem mem_toMembers_iff : (some name, value) ∈ record.toMembers ↔ (name, value) ∈ record := by
  simp [toMembers]

/-- The members of a record are named for fields if its fields are. -/
theorem forall_mem_toMembers_iff :
    (∀ member ∈ record.toMembers, ∃ name ∈ names, member.1 = some name) ↔
      ∀ field ∈ record, field.1 ∈ names := by
  simp only [toMembers, List.forall_mem_map, Option.some.injEq, exists_eq_right']

theorem exists_toMembers_eq (known : ∀ member ∈ members, ∃ name ∈ names, member.1 = some name) :
    ∃ record : Record, members = record.toMembers := by
  induction members with
  | nil => exact ⟨[], rfl⟩
  | cons member others ih =>
    obtain ⟨name, -, named⟩ := known member List.mem_cons_self
    obtain ⟨record, rfl⟩ := ih fun other mem => known other (List.mem_cons_of_mem member mem)
    exact ⟨(name, member.2) :: record, by simp [toMembers, ← named]⟩

theorem map_fst_toMembers : record.toMembers.map Prod.fst = (record.map Prod.fst).map some := by
  simp [toMembers, Function.comp_def]

theorem nodup_map_fst_toMembers :
    (record.toMembers.map Prod.fst).Nodup ↔ (record.map Prod.fst).Nodup := by
  rw [map_fst_toMembers, List.nodup_map_iff (Option.some_injective _)]

theorem mapM_key_eq_some_iff :
    (members.mapM fun (key, value) => key.map (·, value)) = some record ↔
      members = record.toMembers := by
  rw [mapM_eq_some_iff, toMembers, ← List.forall₂_eq_eq_eq, List.forall₂_map_right_iff]
  have same (member : Option String × Value) (field : String × Value) :
      member.1.map (·, member.2) = some field ↔ member = (some field.1, field.2) := by
    obtain ⟨key, value⟩ := member
    cases key <;> simp [Prod.ext_iff]
  simp only [same]

theorem ofValue?_object_eq_some_iff : ofValue? names true (.object members) = some record ↔
    members = record.toMembers ∧ (∀ field ∈ record, field.1 ∈ names) ∧
      (record.map Prod.fst).Nodup := by
  simp only [ofValue?, Option.bind_eq_bind, Option.bind_eq_some_iff, mapM_key_eq_some_iff, true_and,
    List.length_filter_lt_length_iff_exists]
  constructor
  · rintro ⟨fields, rfl, read⟩
    split at read
    · cases read
    · rename_i known
      have known : ∀ field ∈ fields, field.1 ∈ names := by simpa using known
      rw [List.filter_eq_self.mpr (by simpa using known)] at read
      split at read
      · rename_i distinct
        cases read
        exact ⟨rfl, known, distinct⟩
      · cases read
  · rintro ⟨rfl, known, distinct⟩
    refine ⟨record, rfl, ?_⟩
    rw [if_neg (by simpa using known), List.filter_eq_self.mpr (by simpa using known),
      if_pos distinct]

theorem map_fst_zip_sublist (names : List String) (elements : List Value) :
    ((names.zip elements).map Prod.fst).Sublist names := by
  induction names generalizing elements with
  | nil => simp
  | cons name names ih => cases elements <;> simp [ih]

/-- A value is read as the closed record whose members it has. -/
theorem ofValue?_eq_some_iff (distinct : names.Nodup) : ofValue? names true value = some record ↔
    value.HasMembers names record.toMembers ∧ (∀ field ∈ record, field.1 ∈ names) ∧
      (record.map Prod.fst).Nodup := by
  cases value with
  | object members => rw [ofValue?_object_eq_some_iff, Value.hasMembers_object_iff, eq_comm]
  | array elements =>
    have first := map_fst_zip_sublist names elements
    rw [ofValue?, Option.ite_none_right_eq_some, Value.hasMembers_array_iff,
      toMembers_injective.eq_iff, Option.some.injEq]
    constructor
    · rintro ⟨le, rfl⟩
      refine ⟨⟨le, rfl⟩, fun field mem => ?_, first.nodup distinct⟩
      exact first.subset (List.mem_map_of_mem mem)
    · rintro ⟨⟨le, rfl⟩, -⟩
      exact ⟨le, rfl⟩
  | _ =>
    refine ⟨nofun, fun ⟨has, _⟩ => ?_⟩
    cases has

theorem lookup_eq_some_iff (distinct : (record.map Prod.fst).Nodup) :
    record.lookup name = some value ↔ (name, value) ∈ record := by
  rw [List.lookup_eq_some_iff]
  constructor
  · rintro ⟨before, after, rfl, -⟩
    simp
  · intro mem
    obtain ⟨before, after, rfl⟩ := List.append_of_mem mem
    refine ⟨before, after, rfl, fun field mem => ?_⟩
    rw [List.map_append, List.nodup_append] at distinct
    have ne := distinct.2.2 field.1 (List.mem_map_of_mem mem) name (by simp)
    simpa using ne.symm

/-- What a field is that may be missing is what the members of the record say. -/
theorem optional_eq_some_iff {α : Type} {read : Value → Option α} {missing field : α}
    (distinct : (record.map Prod.fst).Nodup) : record.optional name read missing = some field ↔
      Fills record.toMembers name read missing field := by
  rw [optional]
  split
  · rename_i value found
    have mem := mem_toMembers_iff.mpr ((lookup_eq_some_iff distinct).mp found)
    constructor
    · refine fun read => ⟨fun other mem' => ?_, fun none => absurd mem (none value)⟩
      have found' := (lookup_eq_some_iff distinct).mpr (mem_toMembers_iff.mp mem')
      rw [found] at found'
      cases found'
      exact read
    · exact fun fills => fills.present value mem
  · rename_i absent
    have none (value : Value) : (some name, value) ∉ record.toMembers := by
      rw [mem_toMembers_iff, ← lookup_eq_some_iff distinct, absent]
      exact nofun
    constructor
    · intro same
      exact ⟨fun value mem => absurd mem (none value), fun _ => (Option.some.inj same).symm⟩
    · exact fun fills => congrArg some (fills.absent none).symm

end Record

end DistanceField.Json
