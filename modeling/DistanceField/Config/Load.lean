import DistanceField.Config
import DistanceField.Files.Fault
import DistanceField.Json.Record
import DistanceField.Report

/-!
# Configurations in JSON

A configuration is a closed record all of whose fields may be missing.
-/

namespace DistanceField
open Json

inductive ConfigError where
  | malformed
  | refused (fault : ConfigFault)
  deriving DecidableEq

def ConfigError.report : ConfigError → Report
  | malformed => [.message "failed to parse config json", .badFormat]
  | refused fault => [.message fault.message]

inductive ConfigLoadError where
  | unreadable (path : String) (fault : FileFault)
  | invalid (path : String) (error : ConfigError)
  deriving DecidableEq

def ConfigLoadError.report : ConfigLoadError → Report
  | unreadable path fault =>
    [.message s!"failed to read config json at {path}", .message fault.message]
  | invalid path error => .message s!"invalid config in {path}" :: error.report

namespace Config

def triple? (value : Value) : Option Triple := do
  let [x, y, z] ← value.list? Value.binary32? | none
  return ⟨x, y, z⟩

def fieldNames : List String :=
  ["maxDistance", "maxIterations", "epsilon", "surfaceColor", "skyColor", "lightDirection"]

/-- The configuration that a value spells; missing fields have their defaults. -/
def ofValue? (value : Value) : Option Config := do
  let record ← Record.ofValue? fieldNames true value
  let default : Config := {}
  let maxDistance ← record.optional "maxDistance" Value.binary32? default.maxDistance
  let maxIterations ← record.optional "maxIterations" Value.uint32? default.maxIterations
  let epsilon ← record.optional "epsilon" Value.binary32? default.epsilon
  let surfaceColor ← record.optional "surfaceColor" triple? default.surfaceColor
  let skyColor ← record.optional "skyColor" triple? default.skyColor
  let lightDirection ← record.optional "lightDirection" triple? default.lightDirection
  return { maxDistance, maxIterations, epsilon, surfaceColor, skyColor, lightDirection }

def ofText (text : String) : Except ConfigError Config :=
  match (Value.ofText? text).bind ofValue? with
  | none => .error .malformed
  | some config =>
    match config.check with
    | .ok () => .ok config
    | .error fault => .error (.refused fault)

/-- Loads the configuration in a file. -/
def load {m : Type → Type} [Monad m] (read : FileReader m) (path : String) :
    ExceptT ConfigLoadError m Config := do
  let text ← (readText read path).adapt (.unreadable path)
  match ofText text with
  | .ok config => return config
  | .error error => throw (.invalid path error)

end Config

end DistanceField
