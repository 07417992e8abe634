/-!
# Reserved symbols

The names that an operator must not take, because the shader around it declares them, because the
shading language defines or reserves them, or because generated locals begin that way.
-/

namespace DistanceField.Shader

def sceneDistance : String := "scene_distance"

def distanceMap : String := "distance_map"

/-- The names that the assembled shader declares itself. -/
def declaredSymbols : List String :=
  ["main", sceneDistance, distanceMap, "estimate_normal", "soft_shadow", "ambient_occlusion",
    "map_point", "uv", "frag_color", "Frame", "aspect", "MAX_DIST", "MAX_ITER", "EPSILON",
    "SURFACE_COLOR", "SKY_COLOR", "LIGHT_DIR"]

def builtinFunctions : List String :=
  ["radians", "degrees", "sin", "cos", "tan", "asin", "acos", "atan", "sinh", "cosh", "tanh",
    "asinh", "acosh", "atanh", "pow", "exp", "log", "exp2", "log2", "sqrt", "inversesqrt", "abs",
    "sign", "floor", "trunc", "round", "roundEven", "ceil", "fract", "mod", "modf", "min", "max",
    "clamp", "mix", "step", "smoothstep", "isnan", "isinf", "fma", "length", "distance", "dot",
    "cross", "normalize", "faceforward", "reflect", "refract", "matrixCompMult", "outerProduct",
    "transpose", "determinant", "inverse", "lessThan", "lessThanEqual", "greaterThan",
    "greaterThanEqual", "equal", "notEqual", "any", "all", "not", "texture", "dFdx", "dFdy",
    "fwidth"]

def hasDoubleUnderscore : List Char → Bool
  | '_' :: '_' :: _ => true
  | _ :: rest => hasDoubleUnderscore rest
  | [] => false

/-- Whether no operator may have the name. -/
def isReserved (symbol : String) : Bool :=
  "node_".toList.isPrefixOf symbol.toList || "gl_".toList.isPrefixOf symbol.toList ||
    hasDoubleUnderscore symbol.toList || symbol ∈ declaredSymbols || symbol ∈ builtinFunctions

end DistanceField.Shader
