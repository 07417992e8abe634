/-!
# Value types

The types of the values that flow between operators. `root` belongs to the scene root alone: it is
no type of the shading language, and no registered operator takes or yields it.
-/

namespace DistanceField

inductive ValueType where
  | scalar
  | vec2
  | vec3
  | vec4
  | root
  deriving DecidableEq, Repr

namespace ValueType

/-- The name of the type in the shading language. -/
def glsl? : ValueType → Option String
  | scalar => some "float"
  | vec2 => some "vec2"
  | vec3 => some "vec3"
  | vec4 => some "vec4"
  | root => none

/-- The name of the type in messages. -/
def text (type : ValueType) : String := type.glsl?.getD "root"

def width : ValueType → Nat
  | scalar => 1
  | vec2 => 2
  | vec3 => 3
  | vec4 => 4
  | root => 0

def ofGlsl? : String → Option ValueType
  | "float" => some scalar
  | "vec2" => some vec2
  | "vec3" => some vec3
  | "vec4" => some vec4
  | _ => none

def ofWidth? : Nat → Option ValueType
  | 1 => some scalar
  | 2 => some vec2
  | 3 => some vec3
  | 4 => some vec4
  | _ => none

end ValueType

end DistanceField
