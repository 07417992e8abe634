import DistanceField.Config.Load
import DistanceField.Proofs.Steps

/-!
# Accepted configurations

What the check of a configuration guarantees. A text or a file gives a configuration only if it
passes the check.
-/

namespace DistanceField.Config
open Json Numeral

variable {config : Config}

/-- What the check of a configuration guarantees. -/
structure Sound (config : Config) : Prop where
  maxDistance : config.maxDistance.isPositive
  iterations_pos : 1 ≤ config.maxIterations.toNat
  iterations_le : config.maxIterations.toNat ≤ 2147483647
  epsilon : config.epsilon.isPositive
  surfaceColor : ∀ x ∈ config.surfaceColor.toList, x.isFinite
  skyColor : ∀ x ∈ config.skyColor.toList, x.isFinite
  lightDirection : ∀ x ∈ config.lightDirection.toList, x.isFinite
  direction : ∃ x ∈ config.lightDirection.toList, x.isZero = false

theorem checkFinite_eq_ok_iff {key : String} {v : Triple} :
    checkFinite key v = .ok () ↔ ∀ x ∈ v.toList, x.isFinite := by
  rw [← List.all_eq_true, checkFinite]
  split <;> simp [*]

theorem check_eq_ok_iff : config.check = .ok () ↔ config.Sound := by
  have direction : (if config.lightDirection.toList.all Binary32.isZero then throw .noDirection
      else pure () : Except ConfigFault Unit) = .ok () ↔
      ∃ x ∈ config.lightDirection.toList, x.isZero = false := by
    split
    · rename_i zero
      simpa [throw, throwThe, MonadExceptOf.throw] using zero
    · rename_i other
      simpa [pure, Except.pure] using other
  have iterations : config.maxIterations = 0 ↔ config.maxIterations.toNat = 0 :=
    UInt32.toNat_inj.symm
  simp only [check, guard_eq_ok_iff, seq_eq_ok_iff, checkFinite_eq_ok_iff, direction, iterations,
    Bool.not_eq_true', Bool.not_eq_false]
  constructor
  · rintro ⟨maxDistance, some, fits, epsilon, surfaceColor, skyColor, lightDirection, direction⟩
    exact ⟨maxDistance, by omega, by omega, epsilon, surfaceColor, skyColor, lightDirection,
      direction⟩
  · rintro ⟨maxDistance, some, fits, epsilon, surfaceColor, skyColor, lightDirection, direction⟩
    exact ⟨maxDistance, by omega, by omega, epsilon, surfaceColor, skyColor, lightDirection,
      direction⟩

/-- The ways to a configuration: it passes its check as it is given, or a text or a file holds it. -/
inductive Accepted (config : Config) : Prop
  | given (passes : config.check = .ok ())
  | parsed {text : String} (parses : ofText text = .ok config)
  | loaded {read : FileReader Id} {path : String} (loads : (load read path).run = .ok config)

theorem ofText_eq_ok_iff {text : String} : ofText text = .ok config ↔
    (Value.ofText? text).bind ofValue? = some config ∧ config.check = .ok () := by
  rw [ofText]
  cases (Value.ofText? text).bind ofValue? with
  | none => simp
  | some other =>
    constructor
    · intro accepted
      dsimp only at accepted
      split at accepted
      · rename_i passes
        cases accepted
        exact ⟨rfl, passes⟩
      · cases accepted
    · rintro ⟨same, passes⟩
      cases same
      simp only [passes]

theorem ofText_eq_refused_iff {text : String} {fault : ConfigFault} :
    ofText text = .error (.refused fault) ↔ ∃ config,
      (Value.ofText? text).bind ofValue? = some config ∧ config.check = .error fault := by
  rw [ofText]
  cases (Value.ofText? text).bind ofValue? with
  | none => simp
  | some config => cases checked : config.check <;> simp [checked]

theorem check_of_ofText {text : String} (parses : ofText text = .ok config) :
    config.check = .ok () :=
  (ofText_eq_ok_iff.mp parses).2

theorem run_load_eq_ok_iff {read : FileReader Id} {path : String} :
    (load read path).run = .ok config ↔
      ∃ text, (readText read path).run = .ok text ∧ ofText text = .ok config := by
  simp only [load, run_bind_eq_ok_iff, run_adapt_eq_ok_iff]
  refine exists_congr fun text => and_congr_right fun _ => ?_
  cases ofText text with
  | ok other => exact ⟨fun done => (by cases done; rfl), fun done => (by cases done; rfl)⟩
  | error error => exact ⟨fun done => (by cases done), fun done => (by cases done)⟩

theorem Accepted.sound (h : config.Accepted) : config.Sound := by
  apply check_eq_ok_iff.mp
  cases h with
  | given passes => exact passes
  | parsed parses => exact check_of_ofText parses
  | loaded loads =>
    obtain ⟨text, -, parses⟩ := run_load_eq_ok_iff.mp loads
    exact check_of_ofText parses

end DistanceField.Config
