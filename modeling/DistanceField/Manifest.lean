import DistanceField.Files.Fault
import DistanceField.Files.Path
import DistanceField.Json.Record
import DistanceField.Operator
import DistanceField.Report

/-!
# Manifests

A manifest lists definitions of operators in JSON. The code of an operator stands in the manifest
or in a file of its own, whose path is relative to the manifest.
-/

namespace DistanceField
open Json Numeral

inductive DefaultValue where
  | scalar (value : Binary32)
  | vector (values : List Binary32)
  deriving DecidableEq

/-- The literal of a default. A list needs two to four numbers. -/
def DefaultValue.literal? : DefaultValue → Option Literal
  | scalar value => some (.scalar value)
  | vector values => if 2 ≤ values.length then Literal.ofList? values else none

structure ManifestEntry where
  inputs : List ValueType
  output : ValueType
  code : Option String
  codeFile : Option String
  defaults : List (Option DefaultValue)
  deriving DecidableEq

inductive EntryError where
  | unreadable (path : String) (fault : FileFault)
  | bothCodes
  | noCode
  | badDefault (index : Nat)
  deriving DecidableEq

def EntryError.report : EntryError → Report
  | unreadable path fault =>
    [.message s!"failed to read operator code at {path}", .message fault.message]
  | bothCodes => [.message "`code` and `codeFile` are mutually exclusive"]
  | noCode => [.message "one of `code` or `codeFile` is required"]
  | badDefault index => [.message s!"default {index} must be a number or 2 to 4 numbers"]

inductive ManifestError where
  | unreadable (path : String) (fault : FileFault)
  | malformed (path : String)
  | entry (index : Nat) (error : EntryError)
  deriving DecidableEq

def ManifestError.report : ManifestError → Report
  | unreadable path fault =>
    [.message s!"failed to read operator manifest at {path}", .message fault.message]
  | malformed path => [.message s!"failed to parse operator manifest {path}", .badFormat]
  | entry index error => .message s!"operator manifest entry {index}" :: error.report

def DefaultValue.ofValue? (value : Value) : Option DefaultValue :=
  match value with
  | .array _ => (value.list? Value.binary32?).map vector
  | value => value.binary32?.map scalar

namespace ManifestEntry

def fieldNames : List String := ["inputs", "output", "code", "codeFile", "defaults"]

def ofValue? (value : Value) : Option ManifestEntry := do
  let record ← Record.ofValue? fieldNames true value
  let inputs ← record.required "inputs" (Value.list? Value.valueType?)
  let output ← record.required "output" Value.valueType?
  let code ← record.optional "code" (Value.nullable? Value.text?) none
  let codeFile ← record.optional "codeFile" (Value.nullable? Value.text?) none
  let defaults ← record.optional "defaults"
    (Value.list? (Value.nullable? DefaultValue.ofValue?)) []
  return { inputs, output, code, codeFile, defaults }

/-- The path of a code file: as it is if it is absolute, and otherwise below the base. -/
def codePath (base file : String) : String :=
  if Path.isAbsolute file then file else Path.join base file

def readCode {m : Type → Type} [Monad m] (read : FileReader m) (base : String)
    (entry : ManifestEntry) : ExceptT EntryError m String := do
  match entry.code, entry.codeFile with
  | some code, none => return code
  | none, some file =>
    let path := codePath base file
    (readText read path).adapt (.unreadable path)
  | some _, some _ => throw .bothCodes
  | none, none => throw .noCode

/-- The literals of defaults, the first of which is number `index`. -/
def literals (index : Nat) :
    List (Option DefaultValue) → Except EntryError (List (Option Literal))
  | [] => .ok []
  | none :: defaults => (literals (index + 1) defaults).map (none :: ·)
  | some value :: defaults =>
    match value.literal? with
    | none => .error (.badDefault index)
    | some literal => (literals (index + 1) defaults).map (some literal :: ·)

/-- The defaults of the definition: without a list, no input has one. -/
def definedDefaults (entry : ManifestEntry) : Except EntryError (List (Option Literal)) :=
  if entry.defaults = [] then .ok (List.replicate entry.inputs.length none)
  else literals 0 entry.defaults

def resolve {m : Type → Type} [Monad m] (read : FileReader m) (base : String)
    (entry : ManifestEntry) : ExceptT EntryError m Definition := do
  let code ← readCode read base entry
  let defaults ← ExceptT.mk (pure entry.definedDefaults)
  return { inputs := entry.inputs, output := entry.output, code, defaults }

end ManifestEntry

namespace Manifest

def ofValue? (value : Value) : Option (List ManifestEntry) := do
  let record ← Record.ofValue? ["operators"] false value
  record.required "operators" (Value.list? ManifestEntry.ofValue?)

/-- The definitions of entries, the first of which is number `index`, up to the first failure. -/
def resolveFrom {m : Type → Type} [Monad m] (read : FileReader m) (base : String) (index : Nat) :
    List ManifestEntry → ExceptT ManifestError m (List Definition)
  | [] => return []
  | entry :: entries => do
    let definition ← (entry.resolve read base).adapt (.entry index)
    let definitions ← resolveFrom read base (index + 1) entries
    return definition :: definitions

def resolve {m : Type → Type} [Monad m] (read : FileReader m) (base : String)
    (entries : List ManifestEntry) : ExceptT ManifestError m (List Definition) :=
  resolveFrom read base 0 entries

def load {m : Type → Type} [Monad m] (read : FileReader m) (path : String) :
    ExceptT ManifestError m (List Definition) := do
  let text ← (readText read path).adapt (.unreadable path)
  match (Value.ofText? text).bind ofValue? with
  | none => throw (.malformed path)
  | some entries => resolve read ((Path.parent? path).getD ".") entries

end Manifest

end DistanceField
