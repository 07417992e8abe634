import DistanceField.Operator.Builtin
import DistanceField.Proofs.Operator.Batches

/-!
# The built-in operators

All built-in definitions pass their check and have different symbols, so none of them is missing in
the built-in registry.
-/

namespace DistanceField

open List (Forall₂)

namespace Operator

variable {definition : Definition} {symbol : String} {header : Glsl.Header}

/-- Whether a definition with a header passes its check under a symbol. -/
def declares (definition : Definition) (symbol : String) (header : Glsl.Header) : Bool :=
  definition.output ≠ .root ∧ .root ∉ definition.inputs ∧ Shader.isReserved symbol = false ∧
    header.name = symbol ∧ some header.returnType = definition.output.glsl? ∧
      header.parameters.length = definition.inputs.length ∧
        checkParameters symbol 0 header.parameters definition.inputs = .ok () ∧
          definition.defaults.length = definition.inputs.length ∧
            checkDefaults 0 definition.defaults definition.inputs = .ok ()

theorem ofDefinition_of_declares (read : Glsl.header? definition.code = some header)
    (passes : declares definition symbol header) :
    ofDefinition definition = .ok (definition.named symbol) := by
  simp only [declares, Bool.decide_and, Bool.and_eq_true, decide_eq_true_eq] at passes
  obtain ⟨output, inputs, unreserved, name, returns, arity, parameters, length, defaults⟩ := passes
  have declared : Declares header (definition.named symbol) :=
    ⟨name, returns, (checkParameters_eq_ok_iff 0 arity).mp parameters⟩
  have checked : Checked (definition.named symbol) :=
    { output_ne_root := output
      root_notMem_inputs := inputs
      unreserved := unreserved
      defaults := (checkDefaults_eq_ok_iff 0 length).mp defaults
      header := ⟨header, read, declared⟩ }
  exact ofDefinition_of_checked checked

end Operator

namespace Builtin
open Operator

def symbols : List String :=
  ["sample_point", "sdf_sphere", "sdf_box", "sdf_torus", "sdf_plane", "op_translate", "op_round",
    "op_union", "op_subtract", "op_intersect", "op_smooth_union"]

def operators : List Operator := definitions.zipWith Definition.named symbols

-- The codes are unified with the lists of their characters: evaluating `toList` on them takes the
-- square of their lengths.
theorem declares_of_mem_zip : ∀ entry ∈ definitions.zip symbols,
    (Glsl.header? entry.1.code).any (declares entry.1 entry.2) := by
  simp only [definitions, symbols, List.zip_cons_cons, List.zip_nil_right, List.forall_mem_cons,
    List.not_mem_nil, IsEmpty.forall_iff, implies_true, and_true, Glsl.header?, Glsl.tokens,
    samplePoint, sphere, box, torus, plane, translate, Builtin.round, union, subtract, intersect,
    smoothUnion, String.toList_append]
  repeat rw [String.toList_ofList]
  refine ⟨?_, ?_, ?_, ?_, ?_, ?_, ?_, ?_, ?_, ?_, ?_⟩ <;> decide +kernel

theorem accepted : Forall₂ (fun definition operator => ofDefinition definition = .ok operator)
    definitions operators := by
  have same : definitions.length = operators.length := rfl
  have paired : definitions.zip operators =
      (definitions.zip symbols).map fun entry => (entry.1, entry.1.named entry.2) := rfl
  refine List.forall₂_iff_zip.mpr ⟨same, fun {definition operator} mem => ?_⟩
  rw [paired] at mem
  obtain ⟨entry, listed, eq⟩ := List.mem_map.mp mem
  obtain ⟨header, read, passes⟩ := Option.any_eq_true _ _ |>.mp (declares_of_mem_zip entry listed)
  cases eq
  exact ofDefinition_of_declares read passes

theorem nodup_symbols : (operators.map Operator.symbol).Nodup := by
  have eq : operators.map Operator.symbol = symbols := rfl
  rw [eq]
  decide +kernel

end Builtin

namespace Registry

theorem run_builtin :
    (registerAll Builtin.definitions).run empty = .ok () ⟨Builtin.operators⟩ :=
  Joins.run ⟨Builtin.accepted, Builtin.nodup_symbols, fun _ _ => List.not_mem_nil⟩

theorem builtin_eq : builtin = ⟨Builtin.operators⟩ := by rw [builtin, left, run_builtin]

end Registry

end DistanceField
