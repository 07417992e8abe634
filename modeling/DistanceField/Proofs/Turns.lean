import DistanceField.Loop

/-! # Loops as paths: the run of a loop is put together from stretches of known length -/

namespace DistanceField.Turn

variable {σ α ι : Type} {step : σ → Turn σ α} {a b c : σ} {n k bound : Nat} {answer : α}
  {states : List σ} {stack : σ → List ι} {items more : List ι}

/-- A loop gets from one state to another in a number of turns. -/
inductive Leads (step : σ → Turn σ α) : Nat → σ → σ → Prop where
  | refl (state : σ) : Leads step 0 state state
  | head {first second last : σ} {turns : Nat} (turn : step first = .next second)
      (path : Leads step turns second last) : Leads step (turns + 1) first last

namespace Leads

theorem single (turn : step a = .next b) : Leads step 1 a b := .head turn (.refl b)

theorem trans (first : Leads step n a b) (second : Leads step k b c) : Leads step (n + k) a c := by
  induction first with
  | refl => simpa using second
  | head turn path ih =>
    rw [Nat.add_right_comm]
    exact .head turn (ih second)

theorem run_eq (path : Leads step n a b) (done : step b = .done answer) (lt : n < bound) :
    run step bound a = some (answer, n + 1) := by
  induction path generalizing bound with
  | refl =>
    obtain ⟨bound, rfl⟩ := Nat.exists_eq_add_of_lt lt
    simp [run, done]
  | head turn path ih =>
    obtain ⟨bound, rfl⟩ : ∃ k, bound = k + 1 := ⟨bound - 1, by omega⟩
    have rest := ih done (Nat.lt_of_succ_lt_succ lt)
    simp [run, turn, rest]

end Leads

/-- A loop comes to an end: its turns begin in these states, and the last one gives the answer. -/
inductive Course (step : σ → Turn σ α) : σ → List σ → α → Prop where
  | done {state : σ} {answer : α} (turn : step state = .done answer) :
    Course step state [state] answer
  | next {first second : σ} {states : List σ} {answer : α} (turn : step first = .next second)
      (rest : Course step second states answer) : Course step first (first :: states) answer

/-- A loop that comes to an end is run with any bound that is not less than its turns. -/
theorem Course.run_eq (course : Course step a states answer) (le : states.length ≤ bound) :
    run step bound a = some (answer, states.length) := by
  induction course generalizing bound with
  | done turn =>
    obtain ⟨bound, rfl⟩ := Nat.exists_eq_add_of_le' le
    simp [run, turn]
  | next turn _ ih =>
    obtain ⟨bound, rfl⟩ : ∃ k, bound = k + 1 := ⟨bound - 1, by simp at le; omega⟩
    have rest := ih (Nat.le_of_succ_le_succ le)
    simp [run, turn, rest]

theorem Leads.exists_course (path : Leads step n a b) (done : step b = .done answer) :
    ∃ states, Course step a states answer ∧ states.length = n + 1 := by
  induction path with
  | refl => exact ⟨_, .done done, rfl⟩
  | head turn _ ih =>
    obtain ⟨states, course, length⟩ := ih done
    exact ⟨_, .next turn course, by rw [List.length_cons, length]⟩

/-- What is on top of the stack when a turn begins, turn after turn. -/
def taken (stack : σ → List ι) (states : List σ) : List ι :=
  states.filterMap fun state => (stack state).head?

theorem taken_cons {item : ι} (takes : (stack a).head? = some item) :
    taken stack (a :: states) = item :: taken stack states := List.filterMap_cons_some takes

/-- A loop gets from one state to another, and on the way each turn takes one of these items from
the top of the stack. -/
inductive Visits (step : σ → Turn σ α) (stack : σ → List ι) : List ι → σ → σ → Prop where
  | refl (state : σ) : Visits step stack [] state state
  | head {first second last : σ} {item : ι} {items : List ι}
      (takes : (stack first).head? = some item) (turn : step first = .next second)
      (path : Visits step stack items second last) : Visits step stack (item :: items) first last

namespace Visits

theorem trans (first : Visits step stack items a b) (second : Visits step stack more b c) :
    Visits step stack (items ++ more) a c := by
  induction first with
  | refl => exact second
  | head takes turn _ ih => exact .head takes turn (ih second)

/-- A whole course has one turn more than items were taken on the way to its last state, and what it
takes are these and what is then on top. -/
theorem exists_course (path : Visits step stack items a b) (done : step b = .done answer) :
    ∃ states, Course step a states answer ∧ states.length = items.length + 1 ∧
      taken stack states = items ++ (stack b).head?.toList := by
  induction path with
  | refl state =>
    refine ⟨_, .done done, rfl, ?_⟩
    cases top : (stack state).head? <;> simp [taken, top]
  | head takes turn _ ih =>
    obtain ⟨states, course, length, eq⟩ := ih done
    refine ⟨_, .next turn course, by rw [List.length_cons, length, List.length_cons], ?_⟩
    rw [taken_cons takes, eq, List.cons_append]

end Visits

theorem answer_of_run (holds : σ → Prop) (ends : α → Prop) {turns : Nat}
    (next : ∀ {a b}, holds a → step a = .next b → holds b)
    (done : ∀ {a answer}, holds a → step a = .done answer → ends answer) (start : holds a)
    (h : run step bound a = some (answer, turns)) : ends answer := by
  induction bound generalizing a turns with
  | zero => cases h
  | succ bound ih =>
    rw [run] at h
    cases turn : step a with
    | done last =>
      rw [turn] at h
      cases h
      exact done start turn
    | next b =>
      rw [turn] at h
      obtain ⟨⟨last, rest⟩, run, eq⟩ := Option.map_eq_some_iff.mp h
      cases eq
      exact ih (next start turn) run

end DistanceField.Turn
