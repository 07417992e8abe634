import DistanceField.Literal
import DistanceField.Shader.Reserved

/-!
# Straight-line programs

The value of a scene is computed by assignments to local variables, one for each node, followed by
one result. An assignment calls an operator with variables and literals; a variable is assigned
before it is used.
-/

namespace DistanceField

inductive Argument where
  | var (name : String)
  | literal (value : Literal)
  deriving DecidableEq

def Argument.text : Argument → String
  | var name => name
  | literal value => value.expression

structure Assignment where
  type : ValueType
  name : String
  symbol : String
  arguments : List Argument
  deriving DecidableEq

def Assignment.text (assignment : Assignment) : String :=
  s!"    {assignment.type.text} {assignment.name} = {assignment.symbol}(" ++
    ", ".intercalate (assignment.arguments.map Argument.text) ++ ");\n"

theorem Assignment.text_eq (assignment : Assignment) : assignment.text =
    "    " ++ assignment.type.text ++ " " ++ assignment.name ++ " = " ++ assignment.symbol ++ "(" ++
      ", ".intercalate (assignment.arguments.map Argument.text) ++ ");\n" := by
  simp [Assignment.text, toString, String.append_assoc]

/-- A program: assignments in the order of their execution, and what is returned at last. -/
structure Program where
  assignments : List Assignment
  result : Argument
  deriving DecidableEq

namespace Program

/-- The body of the function that computes the program, a line for each assignment and one for the
result. -/
def body (program : Program) : String :=
  String.join (program.assignments.map Assignment.text) ++ s!"    return {program.result.text};\n"

theorem body_eq_append (program : Program) : program.body =
    String.join (program.assignments.map Assignment.text) ++
      ("    return " ++ program.result.text ++ ";\n") := by
  simp [body, toString, String.append_assoc]

/-- The two functions around a body. The second one is called by the ray marcher: it publishes its
argument as `map_point`, which the operator for the current point reads, and puts the distance
behind the colour of the surface. -/
def mapSource (body : String) : String :=
  s!"float {Shader.sceneDistance}() \x7b\n" ++ body ++ "\x7d\n\n" ++
  s!"vec4 {Shader.distanceMap}(vec3 p) \x7b\n    map_point = p;\n" ++
  s!"    return vec4(SURFACE_COLOR, {Shader.sceneDistance}());\n\x7d\n"

end Program

end DistanceField
