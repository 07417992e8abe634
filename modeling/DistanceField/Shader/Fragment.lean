import DistanceField.Config
import DistanceField.Operator.Registry
import DistanceField.Program.Compile
import DistanceField.Shader.Engine

/-!
# The fragment stage

The sections of the fragment stage stand in a fixed order: the header with the constants, the code
of all registered operators, the functions that compute the scene, and the ray marcher.
-/

namespace DistanceField.Shader
open Numeral

def tripleText (v : Triple) : String :=
  "vec3(" ++ ", ".intercalate (v.toList.map floatText) ++ ")"

/-- The inputs and outputs of the stage, the constants and the variable for the current point. -/
def header (config : Config) : String := ofLines [
  "#version 450",
  "",
  "layout(location = 0) in vec2 uv;",
  "layout(location = 0) out vec4 frag_color;",
  "",
  "layout(set = 0, binding = 0) uniform Frame \x7b",
  "    float aspect;",
  "\x7d;",
  "",
  s!"const float MAX_DIST = {floatText config.maxDistance};",
  s!"const int MAX_ITER = {config.maxIterations.toNat};",
  s!"const float EPSILON = {floatText config.epsilon};",
  s!"const vec3 SURFACE_COLOR = {tripleText config.surfaceColor};",
  s!"const vec3 SKY_COLOR = {tripleText config.skyColor};",
  s!"const vec3 LIGHT_DIR = {tripleText config.lightDirection};",
  "",
  "// Point currently evaluated by distance_map, read by sample_point().",
  "vec3 map_point;",
  ""]

/-- The fragment stage around the functions that compute a scene. -/
def fragment (registry : Registry) (mapSource : String) (config : Config) : String :=
  header config ++ registry.preamble ++ mapSource ++ "\n" ++ engine

structure Stages where
  vertex : String
  fragment : String
  deriving DecidableEq

def ofScene (registry : Registry) (scene : Scene) (config : Config) :
    Except CompileError Stages :=
  scene.mapSource.map fun mapSource => ⟨vertex, fragment registry mapSource config⟩

end DistanceField.Shader
