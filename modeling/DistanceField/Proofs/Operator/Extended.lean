import DistanceField.Proofs.Operator.Library

/-!
# Extended registries

Definitions that come later add operators behind those that are there. No symbol is taken over, so
whoever looks up a symbol finds what was found before.
-/

namespace DistanceField.Registry

variable {registry after : Registry} {definition : Definition} {definitions : List Definition}
  {operator : Operator} {symbol : String}

def afterAll (registry : Registry) (definitions : List Definition) : Registry :=
  definitions.foldl (fun registry definition => registry.after definition) registry

/-- The operators that some definitions add, in the order of their registration. -/
def joining (registry : Registry) : List Definition → List Operator
  | [] => []
  | definition :: definitions =>
    match (register definition).run registry with
    | .ok operator after => operator :: after.joining definitions
    | .error _ after => after.joining definitions

@[simp] theorem afterAll_nil : registry.afterAll [] = registry := rfl

@[simp] theorem afterAll_cons :
    registry.afterAll (definition :: definitions) =
      (registry.after definition).afterAll definitions := rfl

theorem afterAll_append (definitions more : List Definition) :
    registry.afterAll (definitions ++ more) = (registry.afterAll definitions).afterAll more :=
  List.foldl_append

theorem Reached.afterAll (h : registry.Reached) (definitions : List Definition) :
    (registry.afterAll definitions).Reached := by
  induction definitions generalizing registry with
  | nil => exact h
  | cons definition definitions ih => exact ih (h.step definition)

theorem operators_afterAll (registry : Registry) (definitions : List Definition) :
    (registry.afterAll definitions).operators =
      registry.operators ++ registry.joining definitions := by
  induction definitions generalizing registry with
  | nil => simp [joining]
  | cons definition definitions ih =>
    rw [afterAll_cons, ih, joining, Registry.after]
    rcases register_cases definition registry with ⟨rejection, -, run⟩ | ⟨operator, -, -, run⟩
    · rw [run]
    · rw [run, List.append_assoc, List.singleton_append]

theorem preamble_afterAll (registry : Registry) (definitions : List Definition) :
    (registry.afterAll definitions).preamble =
      registry.preamble ++ String.join ((registry.joining definitions).map block) := by
  rw [preamble, operators_afterAll, List.map_append, String.join_append, preamble]

/-- Definitions registered together are registered one after the other. -/
theorem eq_afterAll_of_registerAll
    (run : (registerAll definitions).run registry = .ok () after) :
    after = registry.afterAll definitions := by
  induction definitions generalizing registry with
  | nil =>
    cases run
    rfl
  | cons definition definitions ih =>
    rw [registerAll, EStateM.run_bind] at run
    rw [afterAll_cons, Registry.after]
    cases first : (register definition).run registry with
    | ok operator next =>
      rw [first] at run
      exact ih run
    | error rejection next =>
      rw [first] at run
      cases run

theorem builtin_eq_afterAll : builtin = empty.afterAll Builtin.definitions :=
  eq_afterAll_of_registerAll (by rw [run_builtin, builtin_eq])

theorem reached_builtin : builtin.Reached := builtin_eq_afterAll ▸ Reached.empty.afterAll _

end DistanceField.Registry
