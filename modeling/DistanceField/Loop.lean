/-!
# Counted loops

A loop is a step function that either goes on from a new state or ends with an answer. It is run
with a bound on its turns and tells how many it took, so that a bound on the work of a loop is a
statement about its run.
-/

namespace DistanceField

inductive Turn (σ α : Type) where
  | next (state : σ)
  | done (answer : α)

namespace Turn

variable {σ α : Type}

/-- The answer of a loop and the number of its turns, if `bound` turns suffice. -/
def run (step : σ → Turn σ α) : Nat → σ → Option (α × Nat)
  | 0, _ => none
  | bound + 1, state =>
    match step state with
    | done answer => some (answer, 1)
    | next state => (run step bound state).map fun (answer, turns) => (answer, turns + 1)

end Turn

end DistanceField
