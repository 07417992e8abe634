import DistanceField.Json.Value
import DistanceField.ValueType

/-!
# Records in JSON

A record has named fields. It is written as an object, or as an array with the fields in their
order, where fields may be missing at the end. A closed record has no other fields.
-/

namespace DistanceField.Json
open Numeral

/-- The fields of a record by their names; every name stands there once at most. -/
abbrev Record := List (String × Value)

def Record.ofValue? (names : List String) (closed : Bool) : Value → Option Record
  | .array elements =>
    if elements.length ≤ names.length then some (names.zip elements) else none
  | .object members => do
    let fields ← members.mapM fun (key, value) => key.map (·, value)
    let known := fields.filter (·.1 ∈ names)
    if closed ∧ known.length < fields.length then none
    else if (known.map Prod.fst).Nodup then some known
    else none
  | _ => none

def Record.required {α : Type} (record : Record) (name : String) (read : Value → Option α) :
    Option α := (record.lookup name).bind read

/-- A field that has a value of its own if it is not there. -/
def Record.optional {α : Type} (record : Record) (name : String) (read : Value → Option α)
    (missing : α) : Option α :=
  match record.lookup name with
  | some value => read value
  | none => some missing

namespace Value

def list? {α : Type} (read : Value → Option α) : Value → Option (List α)
  | array elements => elements.mapM read
  | _ => none

def text? : Value → Option String
  | string text => text
  | _ => none

def nullable? {α : Type} (read : Value → Option α) : Value → Option (Option α)
  | null => some none
  | value => (read value).map some

def numeric? : Value → Option Numeric
  | number value => value.value?
  | _ => none

def binary32? (value : Value) : Option Binary32 := value.numeric?.map Numeric.toBinary32

def uint32? (value : Value) : Option UInt32 := value.numeric?.bind Numeric.toUInt32?

def typeNamed? : String → Option ValueType
  | "root" => some .root
  | name => ValueType.ofGlsl? name

/-- A value type: its name, or an object with the name as its one key and the value `null`. -/
def valueType? : Value → Option ValueType
  | string (some name) => typeNamed? name
  | object [(some name, null)] => typeNamed? name
  | _ => none

end Value

end DistanceField.Json
