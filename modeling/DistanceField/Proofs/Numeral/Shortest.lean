import DistanceField.Numeral.Shortest
import Mathlib.Tactic.Ring

/-!
# Shortest decimals tell numbers apart

The numbers that round to a pattern make up an interval. Intervals of different patterns have no
point in common, and the shortest decimal of a pattern lies in the interval of that pattern, so no
two patterns have one decimal.
-/

namespace DistanceField.Numeral

namespace Format

variable {format : Format} {p q point : Nat}

theorem exponent_pos (format : Format) (p : Nat) : 1 ≤ format.exponent p := Nat.le_max_left ..

theorem two_pow_exponent (format : Format) (p : Nat) :
    2 ^ format.exponent p = 2 * 2 ^ (format.exponent p - 1) := by
  obtain ⟨e, eq⟩ := Nat.exists_eq_add_of_le' (format.exponent_pos p)
  rw [eq, Nat.add_sub_cancel, Nat.pow_succ, Nat.mul_comm]

theorem succ_div_mod (size p : Nat) (pos : 0 < size) :
    ((p + 1) / size = p / size + 1 ∧ (p + 1) % size = 0 ∧ p % size + 1 = size) ∨
      ((p + 1) / size = p / size ∧ (p + 1) % size = p % size + 1) := by
  have small := Nat.mod_lt p pos
  have parts := Nat.div_add_mod p size
  by_cases last : p % size + 1 = size
  · left
    have next : p + 1 = size * (p / size + 1) := by rw [Nat.mul_add_one]; omega
    exact ⟨by rw [next, Nat.mul_div_cancel_left _ pos], by rw [next, Nat.mul_mod_right], last⟩
  · right
    have next : p + 1 = p % size + 1 + size * (p / size) := by omega
    have small' : p % size + 1 < size := by omega
    constructor
    · rw [next, Nat.add_mul_div_left _ _ pos, Nat.div_eq_of_lt small', Nat.zero_add]
    · rw [next, Nat.add_mul_mod_self_left, Nat.mod_eq_of_lt small']

/-- Up to the least normal number the patterns count the steps by twos. -/
theorem steps_of_le (le : p ≤ 2 ^ format.fractionBits) :
    format.steps p = 2 * p ∧ format.exponent p = 1 := by
  have pos : 0 < 2 ^ format.fractionBits := Nat.two_pow_pos _
  simp only [steps, significand, exponent]
  generalize 2 ^ format.fractionBits = size at le pos
  rcases Nat.lt_or_eq_of_le le with lt | rfl
  · simp [lt, Nat.div_eq_of_lt lt, Nat.mul_comm]
  · simp [Nat.div_self pos, Nat.mul_comm]

theorem steps_of_ge (ge : 2 ^ format.fractionBits ≤ p) :
    format.steps p = (2 ^ format.fractionBits + p % 2 ^ format.fractionBits) *
      2 ^ (p / 2 ^ format.fractionBits) ∧ format.exponent p = p / 2 ^ format.fractionBits := by
  have quotient : 1 ≤ p / 2 ^ format.fractionBits := Nat.div_pos ge (Nat.two_pow_pos _)
  simp only [steps, significand, exponent, if_neg (Nat.not_lt.mpr ge), Nat.max_eq_right quotient,
    and_self]

theorem steps_succ (format : Format) (p : Nat) :
    format.steps (p + 1) = format.steps p + 2 ^ format.exponent p := by
  by_cases lt : p < 2 ^ format.fractionBits
  · obtain ⟨steps, exponent⟩ := steps_of_le lt.le
    have next : p + 1 ≤ 2 ^ format.fractionBits := lt
    rw [(steps_of_le next).1, steps, exponent]
    ring
  · have ge := Nat.not_lt.mp lt
    obtain ⟨steps, exponent⟩ := steps_of_ge ge
    have next : 2 ^ format.fractionBits ≤ p + 1 := Nat.le_succ_of_le ge
    rw [(steps_of_ge next).1, steps, exponent]
    rcases succ_div_mod (2 ^ format.fractionBits) p (Nat.two_pow_pos _) with
      ⟨quotient, remainder, last⟩ | ⟨quotient, remainder⟩
    · -- the fraction overflows into the next exponent
      rw [quotient, remainder, Nat.add_zero, Nat.pow_succ, ← Nat.add_one_mul, Nat.add_assoc, last]
      ring
    · rw [quotient, remainder]
      ring

theorem ticks_succ (format : Format) (p : Nat) :
    format.ticks (p + 1) = format.ticks p + 2 * format.halfAbove p := by
  rw [ticks, ticks, halfAbove, steps_succ, two_pow_exponent]
  ring

/-- Two neighbours meet in the middle. -/
theorem halfBelow_succ (format : Format) (p : Nat) :
    format.halfBelow (p + 1) = format.halfAbove p := by
  have same : format.exponent (p + 1) = format.exponent p →
      format.halfAbove (p + 1) = format.halfAbove p := fun eq => by rw [halfAbove, halfAbove, eq]
  by_cases lt : p < 2 ^ format.fractionBits
  · have one := (steps_of_le lt).2
    rw [halfBelow, one, if_neg (by omega), same (one.trans (steps_of_le lt.le).2.symm)]
  · have ge := Nat.not_lt.mp lt
    have exponent := (steps_of_ge ge).2
    have next : 2 ^ format.fractionBits ≤ p + 1 := Nat.le_succ_of_le ge
    have exponent' := (steps_of_ge next).2
    have quotient : 1 ≤ p / 2 ^ format.fractionBits := Nat.div_pos ge (Nat.two_pow_pos _)
    rcases succ_div_mod (2 ^ format.fractionBits) p (Nat.two_pow_pos _) with
      ⟨more, remainder, -⟩ | ⟨same', remainder⟩
    · have less : p / 2 ^ format.fractionBits + 1 - 2 = p / 2 ^ format.fractionBits - 1 := by omega
      rw [halfBelow, exponent', more, remainder, if_pos (by omega), less, halfAbove, exponent]
    · rw [halfBelow, remainder, if_neg (by omega), same (by rw [exponent, exponent', same'])]

theorem halfAbove_pos (format : Format) (p : Nat) : 0 < format.halfAbove p :=
  Nat.mul_pos (Nat.two_pow_pos _) (Nat.pow_pos (by decide))

theorem low_le_ticks (format : Format) (p : Nat) :
    (format.interval p).low ≤ format.ticks p := by
  cases p with
  | zero => simp [interval]
  | succ p =>
    have half := format.halfAbove_pos p
    have ticks := format.ticks_succ p
    simp only [interval, halfBelow_succ]
    omega

theorem ticks_le_high (format : Format) (p : Nat) :
    format.ticks p ≤ (format.interval p).high := by
  have half := format.halfAbove_pos p
  simp only [interval]
  omega

/-- The middle between two neighbours belongs to the even one alone. -/
theorem high_lt_low_succ (format : Format) (p : Nat) :
    (format.interval p).high < (format.interval (p + 1)).low := by
  have half := format.halfAbove_pos p
  have ticks := format.ticks_succ p
  simp only [interval, halfBelow_succ]
  omega

theorem high_lt_low (format : Format) (lt : p < q) :
    (format.interval p).high < (format.interval q).low := by
  induction q, lt using Nat.le_induction with
  | base => exact format.high_lt_low_succ p
  | succ q _ ih =>
    calc (format.interval p).high
      _ < (format.interval q).low := ih
      _ ≤ format.ticks q := format.low_le_ticks q
      _ ≤ (format.interval q).high := format.ticks_le_high q
      _ < (format.interval (q + 1)).low := format.high_lt_low_succ q

/-- A number lies in the interval of no more than one pattern. -/
theorem interval_unique (low : (format.interval p).low ≤ point)
    (high : point ≤ (format.interval p).high) (low' : (format.interval q).low ≤ point)
    (high' : point ≤ (format.interval q).high) : p = q := by
  rcases Nat.lt_trichotomy p q with lt | eq | gt
  · have apart := format.high_lt_low lt
    omega
  · exact eq
  · have apart := format.high_lt_low gt
    omega

end Format

namespace Interval

variable {interval : Interval} {size bound : Nat}

theorem dvd_point (interval : Interval) (size : Nat) : size ∣ interval.point size := by
  simp only [point]
  split <;> exact Nat.dvd_mul_left ..

theorem point_mem (pos : 0 < size) (low : interval.low ≤ interval.value)
    (high : interval.value ≤ interval.high) (hit : interval.reaches size) :
    interval.low ≤ interval.point size ∧ interval.point size ≤ interval.high := by
  have below : interval.value / size * size ≤ interval.value := Nat.div_mul_le_self ..
  have above : interval.value < (interval.value / size + 1) * size :=
    Nat.mul_comm .. ▸ Nat.lt_mul_div_succ interval.value pos
  simp only [reaches, Bool.or_eq_true, decide_eq_true_eq] at hit
  simp only [point]
  split <;> omega

theorem reaches_one (low : interval.low ≤ interval.value) : interval.reaches 1 := by
  simp [reaches, low]

theorem reaches_coarsest (low : interval.low ≤ interval.value) (bound : Nat) :
    interval.reaches (10 ^ interval.coarsest bound) := by
  induction bound with
  | zero => exact reaches_one low
  | succ bound ih =>
    by_cases here : interval.reaches (10 ^ (bound + 1))
    · rw [coarsest, if_pos here]
      exact here
    · rw [coarsest, if_neg here]
      exact ih

end Interval

/-- A decimal as a number of ticks, of which no place of it is finer. -/
def Format.ticksOf (format : Format) (x : Decimal) : Nat :=
  x.coefficient * 10 ^ (format.unit - x.places)

namespace Format

variable {format : Format} {p q : Nat}

/-- The shortest decimal of a pattern rounds to it. -/
theorem shortest_mem (format : Format) (p : Nat) :
    (format.interval p).low ≤ format.ticksOf (format.shortest p) ∧
      format.ticksOf (format.shortest p) ≤ (format.interval p).high := by
  have low := format.low_le_ticks p
  have high := format.ticks_le_high p
  simp only [ticksOf, shortest]
  generalize max format.unit ((format.interval p).high.log2 / 3) = bound
  have hit := Interval.reaches_coarsest low bound
  generalize (format.interval p).coarsest bound = zeros at hit
  have mem := Interval.point_mem (Nat.pow_pos (by decide)) low high hit
  have grid : 10 ^ min zeros format.unit ∣ (format.interval p).point (10 ^ zeros) :=
    (Nat.pow_dvd_pow 10 (Nat.min_le_left ..)).trans (Interval.dvd_point ..)
  have places : format.unit - (format.unit - zeros) = min zeros format.unit := by omega
  rw [places, Nat.div_mul_cancel grid]
  exact mem

theorem shortest_inj (same : format.ticksOf (format.shortest p) = format.ticksOf (format.shortest q)) :
    p = q := by
  obtain ⟨low, high⟩ := format.shortest_mem p
  obtain ⟨low', high'⟩ := format.shortest_mem q
  exact format.interval_unique low high (same ▸ low') (same ▸ high')

end Format

end DistanceField.Numeral
