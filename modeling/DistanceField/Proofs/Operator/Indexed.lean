import DistanceField.Proofs.Operator.Registered
import Std.Data.HashMap.Lemmas

/-!
# Registries with an index

A registry that keeps a table of positions beside its operators looks symbols up without a search.
It does what the operators alone do as long as the table leads each symbol to its operator.
-/

namespace DistanceField.Registry

/-- Operators in the order of their registration, with a table of the positions of their symbols. -/
structure Indexed where
  operators : Array Operator
  positions : Std.HashMap String Nat

namespace Indexed

def empty : Indexed := ⟨#[], ∅⟩

def indexOf? (indexed : Indexed) (symbol : String) : Option Nat := indexed.positions[symbol]?

def get? (indexed : Indexed) (symbol : String) : Option Operator :=
  (indexed.indexOf? symbol).bind (indexed.operators[·]?)

def insert (operator : Operator) : EStateM Rejection Indexed Operator := do
  if (← get).positions.contains operator.symbol then throw (.duplicateSymbol operator.symbol)
  modify fun indexed =>
    ⟨indexed.operators.push operator,
      indexed.positions.insert operator.symbol indexed.operators.size⟩
  return operator

def register (definition : Definition) : EStateM Rejection Indexed Operator :=
  match Operator.ofDefinition definition with
  | .ok operator => insert operator
  | .error rejection => throw rejection

def registerAll : List Definition → EStateM Rejection Indexed Unit
  | [] => pure ()
  | definition :: definitions => do
    let _ ← register definition
    registerAll definitions

/-- The table leads to the operators of a registry: each symbol to the place where it stands. -/
structure Agrees (indexed : Indexed) (registry : Registry) : Prop where
  operators : indexed.operators.toList = registry.operators
  indexOf? : ∀ symbol, indexed.indexOf? symbol = registry.indexOf? symbol

variable {α β : Type} {indexed : Indexed} {registry : Registry} {symbol : String}

theorem agrees_empty : empty.Agrees Registry.empty :=
  ⟨rfl, fun _ => by simp [indexOf?, Registry.indexOf?, empty, Registry.empty]⟩

theorem Agrees.size (agrees : indexed.Agrees registry) :
    indexed.operators.size = registry.operators.length := by
  rw [← agrees.operators, Array.length_toList]

theorem Agrees.get? (agrees : indexed.Agrees registry) (symbol : String) :
    indexed.get? symbol = registry.get? symbol := by
  rw [Registry.get?, List.find?_eq_bind_findIdx?_getElem?, ← Registry.indexOf?,
    ← agrees.indexOf?, Indexed.get?, ← agrees.operators]
  simp only [Array.getElem?_toList]

theorem Agrees.contains_iff (agrees : indexed.Agrees registry) :
    indexed.positions.contains symbol ↔ symbol ∈ registry.symbols := by
  rw [Std.HashMap.contains_eq_isSome_getElem?, ← Indexed.indexOf?, agrees.indexOf?,
    Registry.indexOf?, List.findIdx?_isSome, List.any_eq_true, symbols, List.mem_map]
  simp

/-- The table of a registry grows with it: the symbol of a new operator leads behind the others. -/
theorem Agrees.push (agrees : indexed.Agrees registry) {operator : Operator}
    (free : operator.symbol ∉ registry.symbols) :
    Agrees ⟨indexed.operators.push operator,
      indexed.positions.insert operator.symbol indexed.operators.size⟩
      ⟨registry.operators ++ [operator]⟩ where
  operators := by rw [Array.toList_push, agrees.operators]
  indexOf? := by
    intro symbol
    have old := agrees.indexOf? symbol
    simp only [Indexed.indexOf?, Registry.indexOf?] at old ⊢
    rw [Std.HashMap.getElem?_insert, List.findIdx?_append, old]
    by_cases own : operator.symbol = symbol
    · subst own
      have missing : registry.operators.findIdx? (·.symbol = operator.symbol) = none := by
        rw [List.findIdx?_eq_none_iff]
        intro other mem
        have apart : other.symbol ≠ operator.symbol :=
          fun same => free (same ▸ List.mem_map_of_mem mem)
        simpa using apart
      simp [missing, agrees.size]
    · simp [own]

/-- Two outcomes that give the same, and leave an index and a registry that agree. -/
inductive Together : EStateM.Result Rejection Indexed α → EStateM.Result Rejection Registry α → Prop
  | ok (a : α) {indexed : Indexed} {registry : Registry} (agrees : indexed.Agrees registry) :
    Together (.ok a indexed) (.ok a registry)
  | error (rejection : Rejection) {indexed : Indexed} {registry : Registry}
    (agrees : indexed.Agrees registry) :
    Together (.error rejection indexed) (.error rejection registry)

/-- A registration with an index that does what a registration does. -/
def Follows (mine : EStateM Rejection Indexed α) (registration : Registration α) : Prop :=
  ∀ (indexed : Indexed) (registry : Registry), indexed.Agrees registry →
    Together (mine.run indexed) (registration.run registry)

theorem follows_pure (a : α) : Follows (pure a) (pure a) := fun _ _ agrees => .ok a agrees

theorem Follows.bind {mine : EStateM Rejection Indexed α} {registration : Registration α}
    {next : α → EStateM Rejection Indexed β} {onward : α → Registration β}
    (first : Follows mine registration) (second : ∀ a, Follows (next a) (onward a)) :
    Follows (mine >>= next) (registration >>= onward) := by
  intro indexed registry agrees
  have both := first indexed registry agrees
  -- with variables for the outcomes `both` can be taken apart
  rw [EStateM.run_bind, EStateM.run_bind]
  generalize mine.run indexed = outcome, registration.run registry = outcome' at both
  cases both with
  | ok a agrees => exact second a _ _ agrees
  | error rejection agrees => exact .error rejection agrees

theorem follows_insert (operator : Operator) :
    Follows (insert operator) (Registry.insert operator) := by
  intro indexed registry agrees
  have found : indexed.positions.contains operator.symbol =
      (registry.get? operator.symbol).isSome := by
    rw [Bool.eq_iff_iff, agrees.contains_iff, Option.isSome_iff_ne_none, Ne, get?_eq_none_iff,
      not_not]
  simp only [insert, Registry.insert, EStateM.run_bind, EStateM.run_get, found]
  cases taken : (registry.get? operator.symbol).isSome with
  | true => exact .error _ agrees
  | false =>
    have free : operator.symbol ∉ registry.symbols :=
      get?_eq_none_iff.mp (Option.isSome_eq_false_iff.mp taken |> Option.isNone_iff_eq_none.mp)
    exact .ok operator (agrees.push free)

theorem follows_register (definition : Definition) :
    Follows (register definition) (Registry.register definition) := by
  unfold register Registry.register
  cases Operator.ofDefinition definition with
  | ok operator => exact follows_insert operator
  | error rejection => exact fun _ _ agrees => .error rejection agrees

theorem follows_registerAll (definitions : List Definition) :
    Follows (registerAll definitions) (Registry.registerAll definitions) := by
  induction definitions with
  | nil => exact follows_pure ()
  | cons definition definitions ih => exact (follows_register definition).bind fun _ => ih

end Indexed

end DistanceField.Registry
