import DistanceField.Numeral.Binary32
import DistanceField.Proofs.Numeral.Shortest
import Mathlib.Algebra.Order.Field.Basic
import Mathlib.Data.Rat.Cast.Order
import Mathlib.Order.Monotone.Basic
import Mathlib.Tactic.Linarith
import Mathlib.Tactic.NormNum

/-!
# The number nearest to a rational

Every number but a not-a-number has a rational value, the infinities that of the next number there
would be. A rational rounds to the number whose value is nearest, and halfway between two to the
even one: there is always no more than one such value, and what lies in the interval of a pattern
rounds to that pattern.
-/

namespace DistanceField.Numeral

namespace Format

variable {format : Format} {p q point : Nat}

theorem strictMono_ticks (format : Format) : StrictMono format.ticks := by
  refine strictMono_nat_of_lt_succ fun p => ?_
  have half := format.halfAbove_pos p
  rw [ticks_succ]
  omega

/-- To a point in the interval of a pattern no other pattern lies nearer, on either side of zero,
and a pattern that lies as near leaves the point to an even one. -/
theorem nearest_of_mem (low : (format.interval p).low ≤ point)
    (high : point ≤ (format.interval p).high) (other : ℤ)
    (shown : other = format.ticks q ∨ other = -format.ticks q) :
    |(point : ℤ) - format.ticks p| ≤ |point - other| ∧
      (|(point : ℤ) - format.ticks p| = |point - other| → other = format.ticks p ∨ p % 2 = 0) := by
  have half := format.halfAbove_pos p
  simp only [interval] at low high
  simp only [abs_eq_max_neg]
  -- the point is at most half the way to the next pattern on either side, and any other pattern
  -- lies behind that one
  rcases Nat.lt_trichotomy p q with lt | rfl | gt
  · have above := format.strictMono_ticks.monotone (Nat.succ_le_of_lt lt)
    rw [Nat.succ_eq_add_one, ticks_succ] at above
    omega
  · cases p with
    | zero => omega
    | succ p =>
      have before := format.ticks_succ p
      have half' := format.halfAbove_pos p
      rw [halfBelow_succ] at low
      omega
  · obtain ⟨p, rfl⟩ := Nat.exists_eq_add_one_of_ne_zero (Nat.ne_zero_of_lt gt)
    have below := format.strictMono_ticks.monotone (Nat.le_of_lt_succ gt)
    have before := format.ticks_succ p
    rw [halfBelow_succ] at low
    omega

end Format

namespace Binary32

variable {x y : Binary32} {r : ℚ} {n : ℤ} {point : Nat}

def ticks (x : Binary32) : ℤ :=
  if x.negative then -single.ticks x.magnitude else single.ticks x.magnitude

/-- The value of a number. The pattern of infinity goes on with the finite ones, so infinity counts
as the power of two behind the largest of them. -/
def value (x : Binary32) : ℚ :=
  (if x.negative then -1 else 1) * (single.steps x.magnitude / 2 ^ single.unit)

theorem value_eq_ticks (x : Binary32) : x.value = x.ticks / 10 ^ single.unit := by
  have ten : (10 : ℚ) ^ single.unit = 2 ^ single.unit * 5 ^ single.unit := by
    rw [← mul_pow]
    norm_num
  have size : (single.steps x.magnitude : ℚ) / 2 ^ single.unit =
      single.ticks x.magnitude / 10 ^ single.unit := by
    rw [ten, Format.ticks, Nat.cast_mul, Nat.cast_pow, Nat.cast_ofNat, mul_div_mul_right]
    positivity
  rw [value, size, ticks]
  split
  · push_cast
    ring
  · push_cast
    ring

/-- A rational rounds to a number: no value is nearer, and only of an even number is there another
value as near. -/
structure IsNearest (r : ℚ) (x : Binary32) : Prop where
  isNumber : x.isNaN = false
  le (y : Binary32) : y.isNaN = false → |r - x.value| ≤ |r - y.value|
  even (y : Binary32) : y.isNaN = false → |r - x.value| = |r - y.value| →
    y.value = x.value ∨ x.magnitude % 2 = 0

/-- How far the point of some ticks on the side of `x` lies from a number, measured on that side. -/
theorem abs_sub_value (x y : Binary32) (point : Nat) :
    |(if x.negative then -1 else 1) * ((point : ℚ) / 10 ^ single.unit) - y.value| =
      |(point : ℤ) - if x.negative then -y.ticks else y.ticks| / 10 ^ single.unit := by
  have scale : (0 : ℚ) < 10 ^ single.unit := by positivity
  rw [value_eq_ticks, Int.cast_abs, ← abs_of_pos scale, ← abs_div, abs_of_pos scale]
  cases x.negative with
  | false => simp [sub_div]
  | true =>
    rw [← abs_neg, if_pos rfl, if_pos rfl]
    congr 1
    push_cast
    ring

theorem ticks_on_side (x y : Binary32) :
    (if x.negative then -y.ticks else y.ticks) = single.ticks y.magnitude ∨
      (if x.negative then -y.ticks else y.ticks) = -single.ticks y.magnitude := by
  simp only [ticks]
  cases x.negative <;> cases y.negative <;> simp

theorem isNearest_of_mem (number : x.isNaN = false)
    (low : (single.interval x.magnitude).low ≤ point)
    (high : point ≤ (single.interval x.magnitude).high) :
    IsNearest ((if x.negative then -1 else 1) * (point / 10 ^ single.unit)) x := by
  have scale : (0 : ℚ) < 10 ^ single.unit := by positivity
  have here : (if x.negative then -x.ticks else x.ticks) = single.ticks x.magnitude := by
    simp only [ticks]
    cases x.negative <;> simp
  refine ⟨number, fun y _ => ?_, fun y _ same => ?_⟩
  · obtain ⟨le, -⟩ := Format.nearest_of_mem low high _ (ticks_on_side x y)
    rw [abs_sub_value, abs_sub_value, here, div_le_div_iff_of_pos_right scale]
    exact_mod_cast le
  · obtain ⟨-, even⟩ := Format.nearest_of_mem low high _ (ticks_on_side x y)
    rw [abs_sub_value, abs_sub_value, here, div_left_inj' scale.ne'] at same
    refine (even (by exact_mod_cast same)).imp_left fun eq => ?_
    have ticks : y.ticks = x.ticks := by
      rw [← here] at eq
      cases sign : x.negative <;> simpa [sign] using eq
    rw [value_eq_ticks, value_eq_ticks, ticks]

theorem negative_ofMagnitude {negative : Bool} {magnitude : Nat} (small : magnitude < 0x80000000) :
    (ofMagnitude negative magnitude).negative = negative := by
  simp only [ofMagnitude, Binary32.negative, UInt32.toNat_ofNat']
  cases negative <;> simp <;> omega

theorem magnitude_ofMagnitude {negative : Bool} {magnitude : Nat}
    (small : magnitude < 0x80000000) : (ofMagnitude negative magnitude).magnitude = magnitude := by
  simp only [ofMagnitude, Binary32.magnitude, UInt32.toNat_ofNat']
  cases negative <;> simp <;> omega

theorem magnitude_lt (x : Binary32) : x.magnitude < 0x80000000 := Nat.mod_lt _ (by decide)

@[simp] theorem negative_neg (x : Binary32) : (-x).negative = !x.negative :=
  negative_ofMagnitude x.magnitude_lt

@[simp] theorem magnitude_neg (x : Binary32) : (-x).magnitude = x.magnitude :=
  magnitude_ofMagnitude x.magnitude_lt

@[simp] theorem ticks_neg (x : Binary32) : (-x).ticks = -x.ticks := by
  simp only [ticks, negative_neg, magnitude_neg]
  cases x.negative <;> simp

theorem ticks_ofMagnitude {negative : Bool} {magnitude : Nat} (small : magnitude < 0x80000000) :
    (ofMagnitude negative magnitude).ticks =
      if negative then -(single.ticks magnitude : ℤ) else single.ticks magnitude := by
  simp only [ticks, negative_ofMagnitude small, magnitude_ofMagnitude small]

theorem ticks_of_pos (pos : 0 < x.ticks) : x.ticks = single.ticks x.magnitude := by
  simp only [ticks] at pos ⊢
  split at pos
  · omega
  · rename_i positive
    rw [if_neg positive]

/-- Below a positive even number there is another one before the next even number. -/
theorem exists_between_of_pos (even : x.magnitude % 2 = 0) (even' : y.magnitude % 2 = 0)
    (number : y.isNaN = false) (pos : 0 < y.ticks) (lt : x.ticks < y.ticks) :
    ∃ z : Binary32, z.isNaN = false ∧ x.ticks < z.ticks ∧ z.ticks < y.ticks := by
  have strict := single.strictMono_ticks
  have zero : single.ticks 0 = 0 := by decide
  have whole := ticks_of_pos pos
  rw [whole] at lt pos ⊢
  obtain ⟨m, eq⟩ : ∃ m, y.magnitude = m + 2 := by
    refine ⟨y.magnitude - 2, ?_⟩
    have ne : y.magnitude ≠ 0 := fun eq => by simp [eq, zero] at pos
    omega
  have small := y.magnitude_lt
  have inside : m + 1 < 0x80000000 := by omega
  have shown : (ofMagnitude false (m + 1)).ticks = single.ticks (m + 1) := ticks_ofMagnitude inside
  refine ⟨ofMagnitude false (m + 1), ?_, ?_, ?_⟩
  · simp only [isNaN, magnitude_ofMagnitude inside, eq, decide_eq_false_iff_not] at number ⊢
    omega
  · rw [shown]
    have positive : single.ticks 0 < single.ticks (m + 1) := strict (Nat.succ_pos m)
    cases sign : x.negative with
    | true =>
      simp only [ticks, sign, if_true]
      omega
    | false =>
      simp only [ticks, sign, Bool.false_eq_true, if_false] at lt ⊢
      have before : x.magnitude < m + 2 := strict.lt_iff_lt.mp (by rw [← eq]; exact_mod_cast lt)
      exact_mod_cast strict (show x.magnitude < m + 1 by omega)
  · rw [shown, eq]
    exact_mod_cast strict (Nat.lt_succ_self (m + 1))

theorem exists_between (even : x.magnitude % 2 = 0) (even' : y.magnitude % 2 = 0)
    (number : x.isNaN = false) (number' : y.isNaN = false) (lt : x.ticks < y.ticks) :
    ∃ z : Binary32, z.isNaN = false ∧ x.ticks < z.ticks ∧ z.ticks < y.ticks := by
  by_cases pos : 0 < y.ticks
  · exact exists_between_of_pos even even' number' pos lt
  · have swapped : (-y).ticks < (-x).ticks := by simpa using lt
    obtain ⟨z, isNumber, above, below⟩ := exists_between_of_pos
      (by simpa using even') (by simpa using even) (by simpa [isNaN] using number)
      (by rw [ticks_neg]; omega) swapped
    rw [ticks_neg] at above below
    exact ⟨-z, by simpa [isNaN] using isNumber, by rw [ticks_neg]; omega, by rw [ticks_neg]; omega⟩

theorem value_lt_value_iff : x.value < y.value ↔ x.ticks < y.ticks := by
  have scale : (0 : ℚ) < 10 ^ single.unit := by positivity
  rw [value_eq_ticks, value_eq_ticks, div_lt_div_iff_of_pos_right scale, Int.cast_lt]

/-- Of two nearest values neither is the smaller one: both would belong to even numbers, and a
number between these would be nearer. -/
theorem IsNearest.value_le (nearest : IsNearest r x) (nearest' : IsNearest r y) :
    y.value ≤ x.value := by
  by_contra! lt
  have same : |r - x.value| = |r - y.value| :=
    (nearest.le y nearest'.isNumber).antisymm (nearest'.le x nearest.isNumber)
  have even := (nearest.even y nearest'.isNumber same).resolve_left lt.ne'
  have even' := (nearest'.even x nearest.isNumber same.symm).resolve_left lt.ne
  obtain ⟨z, isNumber, above, below⟩ := exists_between even even' nearest.isNumber
    nearest'.isNumber (value_lt_value_iff.mp lt)
  rw [← value_lt_value_iff] at above below
  rcases le_total r z.value with before | behind
  · have far := nearest'.le z isNumber
    rw [abs_of_nonpos (sub_nonpos.mpr before),
      abs_of_nonpos (sub_nonpos.mpr (before.trans below.le))] at far
    linarith
  · have far := nearest.le z isNumber
    rw [abs_of_nonneg (sub_nonneg.mpr behind),
      abs_of_nonneg (sub_nonneg.mpr (above.le.trans behind))] at far
    linarith

theorem IsNearest.value_eq (nearest : IsNearest r x) (nearest' : IsNearest r y) :
    x.value = y.value :=
  (nearest'.value_le nearest).antisymm (nearest.value_le nearest')

/-- Numbers of one value differ in their sign at most. -/
theorem eq_of_value_eq (same : x.value = y.value) (sign : x.negative = y.negative) : x = y := by
  have scale : (0 : ℚ) < 10 ^ single.unit := by positivity
  rw [value_eq_ticks, value_eq_ticks, div_left_inj' scale.ne', Int.cast_inj, ticks, ticks, sign]
    at same
  have magnitude : x.magnitude = y.magnitude := by
    apply single.strictMono_ticks.injective
    cases negative : y.negative <;> simpa [negative] using same
  rw [← x.ofMagnitude_negative_magnitude, sign, magnitude, y.ofMagnitude_negative_magnitude]

theorem value_eq_intCast_iff : x.value = n ↔
    (if x.negative then -(single.steps x.magnitude : ℤ) else single.steps x.magnitude) =
      (2 ^ single.unit : ℕ) * n := by
  rw [value, mul_div_assoc', div_eq_iff (by positivity), ← Int.cast_inj (α := ℚ), mul_comm (n : ℚ)]
  cases x.negative <;> simp

theorem toInt?_eq_some_iff : x.toInt? = some n ↔ x.isFinite ∧ x.value = n := by
  have pos : 0 < 2 ^ single.unit := Nat.two_pow_pos _
  have lifted : (2 : ℤ) ^ single.unit = (2 ^ single.unit : ℕ) := (Nat.cast_pow ..).symm
  simp only [value_eq_intCast_iff, toInt?, lifted]
  generalize single.steps x.magnitude = steps
  generalize 2 ^ single.unit = size at pos
  by_cases whole : size ∣ steps
  · obtain ⟨k, rfl⟩ := whole
    have ne : (size : ℤ) ≠ 0 := by exact_mod_cast pos.ne'
    have signed : (if x.negative then -((size * k : ℕ) : ℤ) else (size * k : ℕ)) =
        size * if x.negative then -(k : ℤ) else k := by
      cases x.negative <;> simp
    rw [signed, mul_right_inj' ne]
    simp [Int.mul_ediv_cancel_left _ ne]
  · have no : ¬(size : ℤ) ∣ if x.negative then -(steps : ℤ) else steps := by
      cases x.negative <;> simpa [Int.natCast_dvd_natCast] using whole
    have ne : (if x.negative then -(steps : ℤ) else steps) ≠ size * n :=
      fun eq => no (eq ▸ dvd_mul_right ..)
    simp [ne, Nat.dvd_iff_mod_eq_zero.not.mp whole]

end Binary32

end DistanceField.Numeral
