import DistanceField.Proofs.Numeral.Constants
import DistanceField.Proofs.Program.Spelling

/-!
# Literals denote their components

The expression of a scalar is a constant with a point that reads as the component. That of a vector
is the constructor with as many arguments as the type has components, each of which reads as its
component. Components behind these have no part in it.
-/

namespace DistanceField
open Numeral

namespace Literal

variable {literal : Literal}

theorem length_meaningful (literal : Literal) :
    literal.meaningful.length = literal.type.width := by
  have le : literal.type.width ≤ 4 := by cases literal.type <;> decide
  simp [meaningful, le]

theorem exists_constants_componentTexts {values : List Binary32}
    (finite : ∀ x ∈ values, x.isFinite) : ∃ constants : List Constant,
    values.map (fun x => (componentText x).toList) = constants.map Constant.chars ∧
      List.Forall₂ Constant.IsArgument constants values := by
  induction values with
  | nil => exact ⟨[], rfl, .nil⟩
  | cons x values ih =>
    obtain ⟨here, onward⟩ := List.forall_mem_cons.mp finite
    obtain ⟨constant, shown, argument⟩ := Binary32.exists_constant_componentText here
    obtain ⟨constants, shown', arguments⟩ := ih onward
    refine ⟨constant :: constants, ?_, .cons argument arguments⟩
    rw [List.map_cons, List.map_cons, shown, shown']

theorem toList_text_of_vector {type : ValueType} (notScalar : type ≠ .scalar)
    (notRoot : type ≠ .root) : type.text.toList = "vec".toList ++ Nat.toDigits 10 type.width := by
  cases type with
  | scalar => contradiction
  | root => contradiction
  | vec2 | vec3 | vec4 => decide

/-- The expression of a finite literal denotes the literal. -/
theorem denotes_expression (notRoot : literal.type ≠ .root) (finite : literal.isFinite) :
    (literal.type = .scalar → ∃ (x : Binary32) (constant : Constant), literal.meaningful = [x] ∧
      literal.expression.toList = constant.chars ∧ constant.fraction ≠ [] ∧ constant.Reads x) ∧
    (literal.type ≠ .scalar → ∃ constants : List Constant,
      literal.expression.toList = "vec".toList ++ Nat.toDigits 10 literal.type.width ++
          '(' :: ([',', ' '].intercalate (constants.map Constant.chars) ++ [')']) ∧
        constants.length = literal.type.width ∧
        List.Forall₂ Constant.IsArgument constants literal.meaningful) ∧
    ∀ other : Literal, other.type = literal.type → other.meaningful = literal.meaningful →
      other.expression = literal.expression := by
  refine ⟨fun scalar => ?_, fun vector => ?_, fun other => expression_congr⟩
  · obtain ⟨x, eq, shown⟩ := expression_of_scalar scalar
    have finite : x.isFinite := isFinite_iff.mp finite x (by simp [eq])
    exact ⟨x, (Binary32.exists_constant_floatText finite).imp fun constant reads =>
      ⟨eq, shown ▸ reads⟩⟩
  · obtain ⟨constants, shown, arguments⟩ :=
      exists_constants_componentTexts (isFinite_iff.mp finite)
    refine ⟨constants, ?_, arguments.length_eq.trans literal.length_meaningful, arguments⟩
    rw [toList_expression_of_vector vector notRoot, toList_text_of_vector vector notRoot,
      String.toList_intercalate, List.map_map, ← shown]
    rfl

def mixed : Literal := vec4 (-0) (-2147483648) (.ratio 1 10) 3000000000

theorem denotes_mixed : mixed.type ≠ .root ∧ mixed.isFinite ∧
    mixed.expression = "vec4(-0, -2147483600, 0.1, 3000000000.0)" ∧
    ∃ constants : List Constant,
      mixed.expression.toList = "vec".toList ++ Nat.toDigits 10 4 ++
          '(' :: ([',', ' '].intercalate (constants.map Constant.chars) ++ [')']) ∧
        List.Forall₂ Constant.IsArgument constants
          [-0, -2147483648, .ratio 1 10, 3000000000] := by
  have typed : mixed.type ≠ .root := by decide
  have finite : mixed.isFinite := by decide
  have vector : mixed.type ≠ .scalar := by decide
  obtain ⟨-, onVector, -⟩ := denotes_expression typed finite
  obtain ⟨constants, shown, -, arguments⟩ := onVector vector
  exact ⟨typed, finite, by decide +kernel, constants, shown, arguments⟩

end Literal

end DistanceField
