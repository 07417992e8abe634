import DistanceField.Shader.Fragment
import DistanceField.Text.Lines

/-!
# Validation

A stage is validated before it is used. The character `@` occurs in no token of the shading
language, and a source is rejected exactly if it contains one. A rejection shows the whole source
with numbered lines.
-/

namespace DistanceField.Shader

inductive Stage where
  | vertex
  | fragment
  deriving DecidableEq, Repr

def Stage.text : Stage → String
  | vertex => "vertex"
  | fragment => "fragment"

/-- Whether a source is free of characters that no token holds. -/
def isValid (source : String) : Bool := '@' ∉ source.toList

/-- The source with numbered lines between two marks. -/
def listing (source : String) : String :=
  "Generated GLSL:\n---\n" ++ Text.numberedFrom 1 (Text.lines source) ++ "---\n"

/-- A rejected source: what generated it, if that is known, and its listing. -/
structure Failure where
  heading : String
  listing : String
  deriving DecidableEq

def validate (source : String) : Option Failure :=
  if isValid source then none else some ⟨"", listing source⟩

def validateFrom (source : String) (stage : Stage) (context : String) : Option Failure :=
  (validate source).map fun failure =>
    { failure with heading := s!"{context} generated invalid {stage.text} GLSL: " }

def Stages.validate (stages : Stages) : List (Stage × Option Failure) :=
  [(.vertex, Shader.validate stages.vertex), (.fragment, Shader.validate stages.fragment)]

end DistanceField.Shader
