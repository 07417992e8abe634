import DistanceField.Glsl.Header
import DistanceField.Literal
import DistanceField.Shader.Reserved

/-!
# Operators

An operator is a function of the shading language with the types of its inputs and its output and
with an optional literal for each input. A definition becomes an operator only if its code begins
with a header that agrees with the declared types; the header also gives the operator its symbol.
-/

namespace DistanceField

/-- What is said about an operator before it is checked. -/
structure Definition where
  inputs : List ValueType
  output : ValueType
  code : String
  defaults : List (Option Literal)
  deriving DecidableEq

/-- A checked operator. -/
structure Operator where
  inputs : List ValueType
  output : ValueType
  code : String
  symbol : String
  defaults : List (Option Literal)
  deriving DecidableEq

inductive Rejection where
  | signatureNotFound (code : String)
  | arityMismatch (symbol : String) (expected found : Nat)
  | typeMismatch (symbol : String) (index : Nat) (expected : ValueType) (found : String)
  | returnTypeMismatch (symbol : String) (expected : ValueType) (found : String)
  | reservedType
  | reservedSymbol (symbol : String)
  | duplicateSymbol (symbol : String)
  | defaultsLength (expected found : Nat)
  | defaultMismatch (index : Nat)
  deriving DecidableEq

def Rejection.message : Rejection → String
  | signatureNotFound code => "failed to find a GLSL function header in:\n" ++ code
  | arityMismatch symbol expected found =>
    s!"`{symbol}` declares {found} parameter(s), operator inputs expect {expected}"
  | typeMismatch symbol index expected found =>
    s!"`{symbol}` parameter {index} is declared `{found}`, operator input expects `{expected.text}`"
  | returnTypeMismatch symbol expected found =>
    s!"`{symbol}` returns `{found}`, operator output expects `{expected.text}`"
  | reservedType => "the root type is reserved for the scene root"
  | reservedSymbol symbol => s!"`{symbol}` is reserved by the generated shader"
  | duplicateSymbol symbol => s!"an operator named `{symbol}` is already registered"
  | defaultsLength expected found => s!"{found} default(s) given for {expected} input(s)"
  | defaultMismatch index =>
    s!"default for input {index} has the wrong type or a non-finite component"

namespace Operator

def arity (operator : Operator) : Nat := operator.inputs.length

/-- The operator behind the scene root: it takes one scalar and has no code. -/
def sceneRoot : Operator := ⟨[.scalar], .root, "", "", [none]⟩

def accepts (parameter : Glsl.Parameter) (type : ValueType) : Bool :=
  !parameter.isOutput && some parameter.type = type.glsl?

/-- How a parameter is quoted when it does not fit: the qualifiers matter only if they make it an
output. -/
def declared (parameter : Glsl.Parameter) : String :=
  if parameter.isOutput then " ".intercalate parameter.qualifiers ++ " " ++ parameter.type
  else parameter.type

/-- Checks parameters against input types of the same number, the first one being number `index`. -/
def checkParameters (symbol : String) (index : Nat) :
    List Glsl.Parameter → List ValueType → Except Rejection Unit
  | parameter :: parameters, type :: types =>
    if accepts parameter type then checkParameters symbol (index + 1) parameters types
    else .error (.typeMismatch symbol index type (declared parameter))
  | _, _ => .ok ()

def suits (type : ValueType) : Option Literal → Bool
  | none => true
  | some literal => literal.type = type && literal.isFinite

def checkDefaults (index : Nat) : List (Option Literal) → List ValueType → Except Rejection Unit
  | default :: defaults, type :: types =>
    if suits type default then checkDefaults (index + 1) defaults types
    else .error (.defaultMismatch index)
  | _, _ => .ok ()

/-- Checks a definition. Of several faults the first in the order of the checks is reported. -/
def ofDefinition (definition : Definition) : Except Rejection Operator := do
  if definition.output = .root ∨ .root ∈ definition.inputs then throw .reservedType
  let some header := Glsl.header? definition.code | throw (.signatureNotFound definition.code)
  let symbol := header.name
  if Shader.isReserved symbol then throw (.reservedSymbol symbol)
  let arity := definition.inputs.length
  if header.parameters.length ≠ arity then
    throw (.arityMismatch symbol arity header.parameters.length)
  checkParameters symbol 0 header.parameters definition.inputs
  if some header.returnType ≠ definition.output.glsl? then
    throw (.returnTypeMismatch symbol definition.output header.returnType)
  if definition.defaults.length ≠ arity then
    throw (.defaultsLength arity definition.defaults.length)
  checkDefaults 0 definition.defaults definition.inputs
  return ⟨definition.inputs, definition.output, definition.code, symbol, definition.defaults⟩

def same (a b : Operator) : Bool :=
  a.inputs = b.inputs && a.output = b.output && a.code = b.code && a.symbol = b.symbol &&
    a.defaults.length = b.defaults.length &&
    (a.defaults.zip b.defaults).all fun
      | (some x, some y) => x.same y
      | (none, none) => true
      | _ => false

end Operator

def Definition.bare (inputs : List ValueType) (output : ValueType) (code : String) : Definition :=
  ⟨inputs, output, code, List.replicate inputs.length none⟩

end DistanceField
