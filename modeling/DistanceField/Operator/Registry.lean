import DistanceField.Operator
import DistanceField.Text.Blank

/-!
# Registries

A registry holds operators with pairwise different symbols in the order of their registration. It
only ever grows, and a rejected definition leaves it as it was.
-/

namespace DistanceField

/-- The registered operators, the first registered first. -/
structure Registry where
  operators : List Operator
  deriving DecidableEq

/-- A registration: it reads and extends a registry, or is rejected. -/
abbrev Registration := EStateM Rejection Registry

namespace Registry

def empty : Registry := ⟨[]⟩

def size (registry : Registry) : Nat := registry.operators.length

def get? (registry : Registry) (symbol : String) : Option Operator :=
  registry.operators.find? (·.symbol = symbol)

def indexOf? (registry : Registry) (symbol : String) : Option Nat :=
  registry.operators.findIdx? (·.symbol = symbol)

def symbols (registry : Registry) : List String := registry.operators.map Operator.symbol

/-- The code of an operator as it stands in a shader, with an empty line after it. -/
def block (operator : Operator) : String := Text.trimEnd operator.code ++ "\n\n"

def preamble (registry : Registry) : String := String.join (registry.operators.map block)

def insert (operator : Operator) : Registration Operator := do
  if ((← get).get? operator.symbol).isSome then throw (.duplicateSymbol operator.symbol)
  modify fun registry => ⟨registry.operators ++ [operator]⟩
  return operator

def register (definition : Definition) : Registration Operator :=
  match Operator.ofDefinition definition with
  | .ok operator => insert operator
  | .error rejection => throw rejection

/-- The registry that a registration leaves behind, whether it goes through or is rejected. -/
def left {α : Type} (registration : Registration α) (registry : Registry) : Registry :=
  match registration.run registry with
  | .ok _ after => after
  | .error _ after => after

/-- Registers definitions in order up to the first that is rejected. -/
def registerAll : List Definition → Registration Unit
  | [] => pure ()
  | definition :: definitions => do
    let _ ← register definition
    registerAll definitions

end Registry

end DistanceField
