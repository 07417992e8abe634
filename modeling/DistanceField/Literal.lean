import DistanceField.Numeral.Shortest
import DistanceField.ValueType

/-!
# Literals

A literal fills an input of an operator with a constant. It always holds four components; only as
many as its type has count, and the others never show in its expression.
-/

namespace DistanceField
open Numeral

/-- A constant of the shading language. -/
structure Literal where
  type : ValueType
  components : Vector Binary32 4
  deriving DecidableEq

def floatText (x : Binary32) : String :=
  let text := x.text
  if '.' ∈ text.toList then text else text ++ ".0"

/-- An argument of a vector constructor. An integral value that fits a signed 32-bit integer is
written without a point, every other value as a float literal. -/
def componentText (x : Binary32) : String :=
  match x.toInt? with
  | some n => if -2 ^ (31 : Nat) ≤ n ∧ n < 2 ^ (31 : Nat) then x.text else floatText x
  | none => floatText x

namespace Literal

/-- The components that count. -/
def meaningful (literal : Literal) : List Binary32 :=
  literal.components.toList.take literal.type.width

def isFinite (literal : Literal) : Bool := literal.meaningful.all Binary32.isFinite

/-- The expression that denotes the literal: a float literal for a scalar, so that no conversion is
needed where it is an argument, and otherwise a constructor call. -/
def expression (literal : Literal) : String :=
  match literal.type with
  | .scalar => floatText literal.components[0]
  | .root => ""
  | type => type.text ++ "(" ++ ", ".intercalate (literal.meaningful.map componentText) ++ ")"

/-- Whether two literals have one type and the same value in each of the four components. -/
def same (a b : Literal) : Bool :=
  a.type = b.type && (a.components.zipWith Binary32.same b.components).all id

def scalar (x : Binary32) : Literal := ⟨.scalar, #v[x, 0, 0, 0]⟩

def vec2 (x y : Binary32) : Literal := ⟨.vec2, #v[x, y, 0, 0]⟩

def vec3 (x y z : Binary32) : Literal := ⟨.vec3, #v[x, y, z, 0]⟩

def vec4 (x y z w : Binary32) : Literal := ⟨.vec4, #v[x, y, z, w]⟩

def ofList? : List Binary32 → Option Literal
  | [x] => some (scalar x)
  | [x, y] => some (vec2 x y)
  | [x, y, z] => some (vec3 x y z)
  | [x, y, z, w] => some (vec4 x y z w)
  | _ => none

theorem isFinite_iff {literal : Literal} :
    literal.isFinite ↔ ∀ x ∈ literal.meaningful, x.isFinite := by simp [isFinite]

end Literal

end DistanceField
