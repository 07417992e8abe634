import DistanceField.Files.Fault
import Mathlib.Data.List.Forall2

/-!
# Steps that may fail

A chain of steps goes through if each step does. What a failure is called does not matter for that.
-/

namespace DistanceField
open List (Forall₂)

variable {ε ε' α β : Type}

theorem bind_eq_ok_iff {first : Except ε α} {next : α → Except ε β} {result : β} :
    first >>= next = .ok result ↔ ∃ value, first = .ok value ∧ next value = .ok result := by
  cases first <;> simp [bind, Except.bind]

/-- Of two steps the first fails, or the second with what the first gave. -/
theorem bind_eq_error_iff {first : Except ε α} {next : α → Except ε β} {error : ε} :
    first >>= next = .error error ↔
      first = .error error ∨ ∃ value, first = .ok value ∧ next value = .error error := by
  cases first <;> simp [bind, Except.bind]

/-- A guard lets the following steps go on if its condition fails. -/
theorem guard_eq_ok_iff {condition : Prop} [Decidable condition] {fault : ε} {rest : Except ε α}
    {result : α} : (if condition then do throw fault; rest else rest) = .ok result ↔
      ¬ condition ∧ rest = .ok result := by
  split <;> simp [*, throw, throwThe, MonadExceptOf.throw, bind, Except.bind]

theorem seq_eq_ok_iff {first second : Except ε Unit} :
    (do first; second) = .ok () ↔ first = .ok () ∧ second = .ok () := by
  cases first <;> simp [bind, Except.bind]

theorem map_eq_ok_iff {f : α → β} {result : Except ε α} {value : β} :
    result.map f = .ok value ↔ ∃ first, result = .ok first ∧ f first = value := by
  cases result <;> simp [Except.map]

theorem map_eq_error_iff {f : α → β} {result : Except ε α} {error : ε} :
    result.map f = .error error ↔ result = .error error := by
  cases result <;> simp [Except.map]

/-- A step taken for each of several things goes through if it does for each of them. -/
theorem mapM_eq_some_iff {f : α → Option β} {xs : List α} {ys : List β} :
    xs.mapM f = some ys ↔ Forall₂ (fun x y => f x = some y) xs ys := by
  constructor
  · intro h
    induction xs generalizing ys with
    | nil =>
      cases h
      exact .nil
    | cons x xs ih =>
      simp only [List.mapM_cons, Option.bind_eq_bind, Option.bind_eq_some_iff] at h
      obtain ⟨y, here, ys', rest, eq⟩ := h
      cases eq
      exact .cons here (ih rest)
  · intro h
    induction h with
    | nil => rfl
    | cons here _ ih => simp [List.mapM_cons, here, ih]

theorem run_bind_eq_ok_iff {first : ExceptT ε Id α} {next : α → ExceptT ε Id β} {result : β} :
    (first >>= next).run = .ok result ↔
      ∃ value, first.run = .ok value ∧ (next value).run = .ok result := by
  rw [ExceptT.run_bind]
  cases ended : first.run with
  | error error => exact ⟨fun done => (by cases done), fun ⟨_, done, _⟩ => (by cases done)⟩
  | ok value =>
    constructor
    · exact fun done => ⟨value, rfl, done⟩
    · rintro ⟨_, same, done⟩
      cases same
      exact done

theorem mapError_eq_ok_iff {adapt : ε → ε'} {result : Except ε α} {value : α} :
    result.mapError adapt = .ok value ↔ result = .ok value := by
  cases result with
  | error error => exact iff_of_false (fun done => by cases done) (fun done => by cases done)
  | ok other =>
    constructor <;>
    · intro done
      cases done
      rfl

theorem run_adapt_eq_ok_iff {adapt : ε → ε'} {step : ExceptT ε Id α} {value : α} :
    (step.adapt adapt).run = .ok value ↔ step.run = .ok value := mapError_eq_ok_iff

theorem run_bind_eq_error_iff {first : ExceptT ε Id α} {next : α → ExceptT ε Id β} {error : ε} :
    (first >>= next).run = .error error ↔ first.run = .error error ∨
      ∃ value, first.run = .ok value ∧ (next value).run = .error error := by
  rw [ExceptT.run_bind]
  cases ended : first.run with
  | error other =>
    constructor
    · intro failed
      cases failed
      exact .inl rfl
    · rintro (same | ⟨_, done, -⟩)
      · cases same
        rfl
      · cases done
  | ok value =>
    constructor
    · exact fun failed => .inr ⟨value, rfl, failed⟩
    · rintro (failed | ⟨_, same, failed⟩)
      · cases failed
      · cases same
        exact failed

theorem run_bind_pure_eq_error_iff {step : ExceptT ε Id α} {f : α → β} {error : ε} :
    (step >>= fun value => pure (f value)).run = .error error ↔ step.run = .error error := by
  rw [run_bind_eq_error_iff, or_iff_left]
  rintro ⟨_, -, failed⟩
  cases failed

theorem run_adapt_eq_error_iff {adapt : ε → ε'} {step : ExceptT ε Id α} {error : ε'} :
    (step.adapt adapt).run = .error error ↔
      ∃ cause, step.run = .error cause ∧ error = adapt cause := by
  change step.run.mapError adapt = .error error ↔ _
  cases step.run with
  | ok value =>
    exact iff_of_false (fun failed => by cases failed) (fun ⟨_, failed, _⟩ => by cases failed)
  | error cause =>
    constructor
    · intro failed
      cases failed
      exact ⟨cause, rfl, rfl⟩
    · rintro ⟨_, same, rfl⟩
      cases same
      rfl

theorem run_readText_eq_ok_iff {read : FileReader Id} {path text : String} :
    (readText read path).run = .ok text ↔
      ∃ bytes, read path = .ok bytes ∧ textOf bytes = .ok text := by
  exact bind_eq_ok_iff

end DistanceField
