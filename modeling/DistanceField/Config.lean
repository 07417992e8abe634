import DistanceField.Numeral.Shortest

/-!
# Ray marching constants

The numbers that are baked into the shader, and what they have to satisfy.
-/

namespace DistanceField
open Numeral

structure Triple where
  x : Binary32
  y : Binary32
  z : Binary32
  deriving DecidableEq

def Triple.toList (v : Triple) : List Binary32 := [v.x, v.y, v.z]

/-- The constants of the ray marcher. -/
structure Config where
  maxDistance : Binary32 := 256
  maxIterations : UInt32 := 256
  epsilon : Binary32 := .ratio 1 100
  surfaceColor : Triple := ⟨.ratio 9 10, .ratio 9 10, .ratio 9 10⟩
  skyColor : Triple := ⟨.ratio 3 10, .ratio 3 10, .ratio 3 10⟩
  lightDirection : Triple := ⟨-.ratio 1 10, .ratio 6 10, -.ratio 3 10⟩
  deriving DecidableEq

inductive ConfigFault where
  | maxDistance (found : Binary32)
  | noIterations
  | tooManyIterations (found : UInt32)
  | epsilon (found : Binary32)
  | notFinite (key : String)
  | noDirection
  deriving DecidableEq

def ConfigFault.message : ConfigFault → String
  | maxDistance found => s!"maxDistance must be a positive number, got {found.text}"
  | noIterations => "maxIterations must be at least 1"
  | tooManyIterations found => s!"maxIterations {found.toNat} does not fit a GLSL int"
  | epsilon found => s!"epsilon must be a positive number, got {found.text}"
  | notFinite key => s!"{key} must only contain finite numbers"
  | noDirection => "lightDirection must not be the zero vector"

namespace Config

def checkFinite (key : String) (v : Triple) : Except ConfigFault Unit :=
  if v.toList.all Binary32.isFinite then .ok () else .error (.notFinite key)

/-- Checks the constants. Of several faults the first in the order of the checks is reported. -/
def check (config : Config) : Except ConfigFault Unit := do
  if !config.maxDistance.isPositive then throw (.maxDistance config.maxDistance)
  if config.maxIterations = 0 then throw .noIterations
  -- The number becomes a signed 32-bit constant.
  if 2 ^ (31 : Nat) ≤ config.maxIterations.toNat then throw (.tooManyIterations config.maxIterations)
  if !config.epsilon.isPositive then throw (.epsilon config.epsilon)
  checkFinite "surfaceColor" config.surfaceColor
  checkFinite "skyColor" config.skyColor
  checkFinite "lightDirection" config.lightDirection
  if config.lightDirection.toList.all Binary32.isZero then throw .noDirection

end Config

end DistanceField
