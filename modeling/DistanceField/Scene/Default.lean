import DistanceField.Operator.Registry
import DistanceField.Scene.Edit

/-!
# The default scene

A sphere in front of the camera, smoothly joined with a ground plane. It is built from registered
operators, so it needs the built-in ones or others with their symbols and types.
-/

namespace DistanceField

inductive SetupError where
  | notRegistered (symbol : String)
  | scene (error : SceneError)
  deriving DecidableEq

def SetupError.message : SetupError → String
  | notRegistered symbol => s!"operator `{symbol}` is not registered"
  | scene error => error.message

/-- A computation that builds a scene from a registry. -/
abbrev Setup := EStateM SetupError Scene

namespace Setup
open Numeral

def edit {α : Type} (run : Edit α) : Setup α := run.adaptExcept .scene

/-- Creates a node of the operator with a symbol. -/
def attach (registry : Registry) (name symbol : String) (parent : NodeId) (slot : Nat) :
    Setup NodeId :=
  match registry.get? symbol with
  | some operator => edit (Edit.attach name operator parent slot)
  | none => throw (.notRegistered symbol)

def attachSamplePoint (registry : Registry) (parent : NodeId) (slot : Nat) : Setup NodeId :=
  attach registry "p" "sample_point" parent slot

/-- Builds the default scene below a root. -/
def defaultScene (registry : Registry) (root : NodeId) : Setup Unit := do
  let blend ← attach registry "scene" "op_smooth_union" root 0
  let ball ← attach registry "ball" "sdf_sphere" blend 0
  let offset ← attach registry "offset" "op_translate" ball 0
  let _ ← attachSamplePoint registry offset 0
  edit (Edit.setLiteral offset 1 (.vec3 0 0 5))
  let ground ← attach registry "ground" "sdf_plane" blend 1
  let _ ← attachSamplePoint registry ground 0
  edit (Edit.setLiteral ground 1 (.vec4 0 1 0 1))
  edit (Edit.setLiteral blend 2 (.scalar (.ratio 1 2)))

end Setup

def Scene.default (registry : Registry) (tag : Nat) : Except SetupError Scene :=
  match (Setup.defaultScene registry (Scene.new tag).root).run (Scene.new tag) with
  | .ok _ scene => .ok scene
  | .error error _ => .error error

end DistanceField
