import DistanceField.Operator.Builtin
import DistanceField.Proofs.Steps
import Mathlib.Data.List.Forall2

/-! # Accepted operators: what the check of a definition guarantees, and nothing less -/

namespace DistanceField

def Definition.named (definition : Definition) (symbol : String) : Operator :=
  ⟨definition.inputs, definition.output, definition.code, symbol, definition.defaults⟩

namespace Operator
open List (Forall₂)

variable {symbol : String} {operator : Operator}

theorem checkParameters_eq_ok_iff (index : Nat) {parameters : List Glsl.Parameter}
    {types : List ValueType} (same : parameters.length = types.length) :
    checkParameters symbol index parameters types = .ok () ↔
      Forall₂ (fun parameter type => accepts parameter type) parameters types := by
  induction parameters generalizing index types with
  | nil =>
    obtain rfl := List.length_eq_zero_iff.mp same.symm
    simp [checkParameters]
  | cons parameter parameters ih =>
    obtain ⟨type, types, rfl⟩ := List.exists_cons_of_length_eq_add_one same.symm
    have rest := ih (index + 1) (Nat.succ.inj same)
    by_cases h : accepts parameter type <;> simp [checkParameters, h, rest]

theorem checkDefaults_eq_ok_iff (index : Nat) {defaults : List (Option Literal)}
    {types : List ValueType} (same : defaults.length = types.length) :
    checkDefaults index defaults types = .ok () ↔
      Forall₂ (fun default type => suits type default) defaults types := by
  induction defaults generalizing index types with
  | nil =>
    obtain rfl := List.length_eq_zero_iff.mp same.symm
    simp [checkDefaults]
  | cons default defaults ih =>
    obtain ⟨type, types, rfl⟩ := List.exists_cons_of_length_eq_add_one same.symm
    have rest := ih (index + 1) (Nat.succ.inj same)
    by_cases h : suits type default <;> simp [checkDefaults, h, rest]

/-- The header of an operator agrees with its declared types. -/
structure Declares (header : Glsl.Header) (operator : Operator) : Prop where
  name : header.name = operator.symbol
  returnType : some header.returnType = operator.output.glsl?
  parameters :
    Forall₂ (fun parameter type => accepts parameter type) header.parameters operator.inputs

/-- What the check of a definition guarantees of the operator. -/
structure Checked (operator : Operator) : Prop where
  output_ne_root : operator.output ≠ .root
  root_notMem_inputs : .root ∉ operator.inputs
  unreserved : Shader.isReserved operator.symbol = false
  defaults : Forall₂ (fun default type => suits type default) operator.defaults operator.inputs
  header : ∃ header, Glsl.header? operator.code = some header ∧ Declares header operator

/-- Some definition passes its check and becomes the operator. -/
def Accepted (operator : Operator) : Prop :=
  ∃ definition, ofDefinition definition = .ok operator

theorem checked_of_ofDefinition {definition : Definition}
    (h : ofDefinition definition = .ok operator) :
    definition = ⟨operator.inputs, operator.output, operator.code, operator.defaults⟩ ∧
      Checked operator := by
  obtain ⟨inputs, output, code, defaults⟩ := definition
  simp only [ofDefinition, guard_eq_ok_iff, not_or] at h
  obtain ⟨⟨notRoot, noRoot⟩, h⟩ := h
  split at h
  · rename_i header read
    simp only [guard_eq_ok_iff, bind_eq_ok_iff, not_not] at h
    obtain ⟨unreserved, arity, ⟨⟩, parameters, returns, length, ⟨⟩, suited, done⟩ := h
    cases done
    exact ⟨rfl, notRoot, noRoot, by simpa using unreserved,
      (checkDefaults_eq_ok_iff 0 length).mp suited, header, read, rfl, returns,
      (checkParameters_eq_ok_iff 0 arity).mp parameters⟩
  · cases h

theorem ofDefinition_of_checked (checked : operator.Checked) :
    ofDefinition ⟨operator.inputs, operator.output, operator.code, operator.defaults⟩ =
      .ok operator := by
  obtain ⟨output, inputs, unreserved, defaults, header, read, name, returnType, parameters⟩ := checked
  have arity := parameters.length_eq
  have length := defaults.length_eq
  have passes : checkParameters operator.symbol 0 header.parameters operator.inputs = .ok () :=
    (checkParameters_eq_ok_iff 0 arity).mpr parameters
  have suited := (checkDefaults_eq_ok_iff 0 length).mpr defaults
  simp only [ofDefinition, throw, throwThe, MonadExceptOf.throw, bind, Except.bind, pure,
    Except.pure, read, name, unreserved, arity, passes, returnType, length, suited]
  simp [output, inputs]

theorem Accepted.checked (h : operator.Accepted) : operator.Checked := by
  obtain ⟨definition, h⟩ := h
  exact (checked_of_ofDefinition h).2

theorem Checked.length_defaults (h : operator.Checked) :
    operator.defaults.length = operator.arity := h.defaults.length_eq

theorem Checked.default (h : operator.Checked) {slot : Nat} {literal : Literal}
    (entry : operator.defaults[slot]? = some (some literal)) :
    operator.inputs[slot]? = some literal.type ∧ literal.isFinite := by
  obtain ⟨lt, eq⟩ := List.getElem?_eq_some_iff.mp entry
  have lt' : slot < operator.inputs.length := h.defaults.length_eq ▸ lt
  have suited : suits operator.inputs[slot] operator.defaults[slot] := h.defaults.get lt lt'
  rw [eq] at suited
  simp only [suits, Bool.and_eq_true, decide_eq_true_eq] at suited
  exact ⟨by rw [List.getElem?_eq_getElem lt', suited.1], suited.2⟩

theorem accepted_samplePoint : (Builtin.samplePoint.named "sample_point").Accepted :=
  ⟨Builtin.samplePoint, by decide +kernel⟩

theorem accepted_sphere : (Builtin.sphere.named "sdf_sphere").Accepted :=
  ⟨Builtin.sphere, by decide +kernel⟩

theorem accepted_union : (Builtin.union.named "op_union").Accepted :=
  ⟨Builtin.union, by decide +kernel⟩

end Operator

end DistanceField
