import DistanceField.Manifest
import DistanceField.Proofs.Steps
import Mathlib.Data.List.Forall2

/-!
# Entries of manifests

A manifest that can be loaded gives one definition for each of its entries, in their order.
-/

namespace DistanceField
open Json
open List (Forall₂)

variable {read : FileReader Id} {base path : String} {definition : Definition}
  {definitions : List Definition}

namespace ManifestEntry

variable {entry : ManifestEntry}

/-- The code of an entry: it stands in the entry, or it is the text of the file named there. -/
def HoldsCode (read : FileReader Id) (base : String) (entry : ManifestEntry) (code : String) :
    Prop :=
  (entry.code = some code ∧ entry.codeFile = none) ∨
    ∃ file, entry.code = none ∧ entry.codeFile = some file ∧
      (readText read (codePath base file)).run = .ok code

/-- The definition that an entry gives has the types, the code and the defaults of the entry. -/
structure Gives (read : FileReader Id) (base : String) (entry : ManifestEntry)
    (definition : Definition) : Prop where
  inputs : definition.inputs = entry.inputs
  output : definition.output = entry.output
  code : entry.HoldsCode read base definition.code
  defaults : entry.definedDefaults = .ok definition.defaults

theorem run_readCode_eq_ok_iff {code : String} :
    (entry.readCode read base).run = .ok code ↔ entry.HoldsCode read base code := by
  unfold readCode HoldsCode
  cases entry.code with
  | none =>
    cases entry.codeFile with
    | none => exact ⟨fun done => (by cases done), by simp⟩
    | some file =>
      constructor
      · exact fun done => .inr ⟨file, rfl, rfl, run_adapt_eq_ok_iff.mp done⟩
      · rintro (⟨⟨⟩, -⟩ | ⟨_, -, ⟨⟩, held⟩)
        exact run_adapt_eq_ok_iff.mpr held
  | some own =>
    cases entry.codeFile with
    | none =>
      constructor
      · intro done
        cases done
        simp
      · simp only [Option.some.injEq, and_true, reduceCtorEq, false_and, exists_false, or_false]
        rintro rfl
        rfl
    | some file => exact ⟨fun done => (by cases done), by simp⟩

theorem run_resolve_eq_ok_iff :
    (entry.resolve read base).run = .ok definition ↔ entry.Gives read base definition := by
  simp only [resolve, run_bind_eq_ok_iff, run_readCode_eq_ok_iff]
  constructor
  · rintro ⟨code, held, defaults, listed, done⟩
    cases done
    exact ⟨rfl, rfl, held, listed⟩
  · obtain ⟨inputs, output, code, defaults⟩ := definition
    rintro ⟨rfl, rfl, held, listed⟩
    exact ⟨code, held, defaults, listed, rfl⟩

end ManifestEntry

namespace Manifest

variable {entries : List ManifestEntry}

theorem run_resolveFrom_eq_ok_iff {index : Nat} :
    (resolveFrom read base index entries).run = .ok definitions ↔
      Forall₂ (ManifestEntry.Gives read base) entries definitions := by
  induction entries generalizing index definitions with
  | nil =>
    rw [List.forall₂_nil_left_iff]
    constructor
    · intro done
      cases done
      rfl
    · rintro rfl
      rfl
  | cons entry entries ih =>
    simp only [resolveFrom, run_bind_eq_ok_iff, run_adapt_eq_ok_iff,
      ManifestEntry.run_resolve_eq_ok_iff, ih, List.forall₂_cons_left_iff]
    constructor
    · rintro ⟨definition, gives, definitions, others, done⟩
      cases done
      exact ⟨definition, definitions, gives, others, rfl⟩
    · rintro ⟨definition, definitions, gives, others, rfl⟩
      exact ⟨definition, gives, definitions, others, rfl⟩

/-- What a manifest holds: definitions for the entries that its text spells. Code files are found
from the directory of the manifest. -/
def Holds (read : FileReader Id) (path : String) (definitions : List Definition) : Prop :=
  ∃ text entries, (readText read path).run = .ok text ∧
    (Value.ofText? text).bind ofValue? = some entries ∧
      Forall₂ (ManifestEntry.Gives read ((Path.parent? path).getD ".")) entries definitions

theorem run_load_eq_ok_iff :
    (load read path).run = .ok definitions ↔ Holds read path definitions := by
  simp only [load, run_bind_eq_ok_iff, run_adapt_eq_ok_iff]
  constructor
  · rintro ⟨text, held, loaded⟩
    split at loaded
    · cases loaded
    · rename_i entries spelled
      exact ⟨text, entries, held, spelled, run_resolveFrom_eq_ok_iff.mp loaded⟩
  · rintro ⟨text, entries, held, spelled, gives⟩
    refine ⟨text, held, ?_⟩
    rw [spelled]
    exact run_resolveFrom_eq_ok_iff.mpr gives

end Manifest

end DistanceField
