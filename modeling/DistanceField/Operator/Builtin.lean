import DistanceField.Operator.Registry

/-!
# Built-in operators

The distance functions and the operations on distances that every scene can use.
-/

namespace DistanceField.Builtin
open Numeral

/-- The point at which the distance is wanted; the shader declares `map_point`. -/
def samplePoint : Definition where
  inputs := []
  output := .vec3
  code := "vec3 sample_point() \x7b\n    return map_point;\n\x7d"
  defaults := []

def sphere : Definition where
  inputs := [.vec3, .scalar]
  output := .scalar
  code := "float sdf_sphere(vec3 p, float r) \x7b\n    return length(p) - r;\n\x7d"
  defaults := [none, some (.scalar 1)]

def box : Definition where
  inputs := [.vec3, .vec3]
  output := .scalar
  code := "float sdf_box(vec3 p, vec3 b) \x7b\n    vec3 q = abs(p) - b;\n" ++
    "    return length(max(q, vec3(0.0))) + min(max(q.x, max(q.y, q.z)), 0.0);\n\x7d"
  defaults := [none, some (.vec3 (.ratio 1 2) (.ratio 1 2) (.ratio 1 2))]

def torus : Definition where
  inputs := [.vec3, .vec2]
  output := .scalar
  code := "float sdf_torus(vec3 p, vec2 t) \x7b\n" ++
    "    vec2 q = vec2(length(p.xz) - t.x, p.y);\n    return length(q) - t.y;\n\x7d"
  defaults := [none, some (.vec2 1 (.ratio 1 4))]

/-- The first three components of `n` are the normal, the last is the offset along it. -/
def plane : Definition where
  inputs := [.vec3, .vec4]
  output := .scalar
  code := "float sdf_plane(vec3 p, vec4 n) \x7b\n    return dot(p, normalize(n.xyz)) + n.w;\n\x7d"
  defaults := [none, some (.vec4 0 1 0 0)]

def translate : Definition where
  inputs := [.vec3, .vec3]
  output := .vec3
  code := "vec3 op_translate(vec3 p, vec3 offset) \x7b\n    return p - offset;\n\x7d"
  defaults := [none, some (.vec3 0 0 0)]

def round : Definition where
  inputs := [.scalar, .scalar]
  output := .scalar
  code := "float op_round(float d, float r) \x7b\n    return d - r;\n\x7d"
  defaults := [none, some (.scalar (.ratio 1 10))]

def union : Definition where
  inputs := [.scalar, .scalar]
  output := .scalar
  code := "float op_union(float a, float b) \x7b\n    return min(a, b);\n\x7d"
  defaults := [none, none]

def subtract : Definition where
  inputs := [.scalar, .scalar]
  output := .scalar
  code := "float op_subtract(float a, float b) \x7b\n    return max(a, -b);\n\x7d"
  defaults := [none, none]

def intersect : Definition where
  inputs := [.scalar, .scalar]
  output := .scalar
  code := "float op_intersect(float a, float b) \x7b\n    return max(a, b);\n\x7d"
  defaults := [none, none]

def smoothUnion : Definition where
  inputs := [.scalar, .scalar, .scalar]
  output := .scalar
  code := "float op_smooth_union(float a, float b, float k) \x7b\n" ++
    "    float h = clamp(0.5 + 0.5 * (b - a) / k, 0.0, 1.0);\n" ++
    "    return mix(b, a, h) - k * h * (1.0 - h);\n\x7d"
  defaults := [none, none, some (.scalar (.ratio 1 4))]

def definitions : List Definition :=
  [samplePoint, sphere, box, torus, plane, translate, round, union, subtract, intersect,
    smoothUnion]

end DistanceField.Builtin

namespace DistanceField.Registry

def builtin : Registry := left (registerAll Builtin.definitions) empty

end DistanceField.Registry
