import DistanceField.Numeral.Binary32
import DistanceField.Numeral.Decimal

/-!
# Shortest decimals

The decimal that stands for a floating-point number is the one with the fewest digits among those
that round to it, and of these the nearest to the number; halfway between two, the greater. All
lengths are natural numbers of ticks of size `10 ^ (-unit)`: one step of size `2 ^ (-unit)` is
`5 ^ unit` ticks, so every finite number, every middle between two neighbours and every decimal
with at most `unit` places is a whole number of ticks.
-/

namespace DistanceField.Numeral

namespace Format

/-- A finite pattern in ticks. -/
def ticks (format : Format) (pattern : Nat) : Nat := format.steps pattern * 5 ^ format.unit

def halfAbove (format : Format) (pattern : Nat) : Nat :=
  2 ^ (format.exponent pattern - 1) * 5 ^ format.unit

/-- Half the distance from a finite pattern to the next smaller one, in ticks. Below a power of two
the numbers lie twice as close, except at the least normal number. -/
def halfBelow (format : Format) (pattern : Nat) : Nat :=
  if pattern % 2 ^ format.fractionBits = 0 ∧ 1 < format.exponent pattern then
    2 ^ (format.exponent pattern - 2) * 5 ^ format.unit
  else format.halfAbove pattern

end Format

structure Interval where
  low : Nat
  value : Nat
  high : Nat

/-- The numbers that round to a finite pattern: up to the middles on both sides, which round to the
even neighbour. -/
def Format.interval (format : Format) (pattern : Nat) : Interval :=
  let value := format.ticks pattern
  let odd := pattern % 2
  ⟨value - format.halfBelow pattern + odd, value, value + format.halfAbove pattern - odd⟩

namespace Interval

def reaches (interval : Interval) (size : Nat) : Bool :=
  interval.low ≤ interval.value / size * size ||
    (interval.value / size + 1) * size ≤ interval.high

/-- The multiple of `size` in the interval that is nearest to the value; halfway between two, the
greater. -/
def point (interval : Interval) (size : Nat) : Nat :=
  let below := interval.value / size * size
  let above := (interval.value / size + 1) * size
  if above ≤ interval.high ∧ (below < interval.low ∨ size ≤ 2 * (interval.value - below)) then above
  else below

/-- The number of zeros, up to a bound, of the coarsest decimal grid that has a point in the
interval. -/
def coarsest (interval : Interval) : Nat → Nat
  | 0 => 0
  | zeros + 1 => if interval.reaches (10 ^ (zeros + 1)) then zeros + 1 else interval.coarsest zeros

end Interval

/-- The shortest decimal that rounds to a finite pattern, the nearest one of these. A grid coarser
than `10 ^ (log2 / 3)` has no point up to the end of the interval but zero. -/
def Format.shortest (format : Format) (pattern : Nat) : Decimal :=
  let interval := format.interval pattern
  let zeros := interval.coarsest (max format.unit (interval.high.log2 / 3))
  ⟨interval.point (10 ^ zeros) / 10 ^ min zeros format.unit, format.unit - zeros⟩

namespace Interval

theorem reaches_of_multiple {interval : Interval} {size multiple : Nat}
    (low : interval.low ≤ multiple * size) (high : multiple * size ≤ interval.high) :
    interval.reaches size := by
  simp only [reaches, Bool.or_eq_true, decide_eq_true_eq]
  rcases Nat.lt_or_ge (interval.value / size) multiple with h | h
  · exact .inr (Nat.le_trans (Nat.mul_le_mul_right size h) high)
  · exact .inl (Nat.le_trans low (Nat.mul_le_mul_right size h))

theorem not_reaches_of_coarsest_lt {interval : Interval} {bound zeros : Nat}
    (lt : interval.coarsest bound < zeros) (le : zeros ≤ bound) :
    interval.reaches (10 ^ zeros) = false := by
  induction bound with
  | zero => simp_all
  | succ bound ih =>
    simp only [coarsest] at lt
    split at lt
    · omega
    · rename_i h
      rcases Nat.lt_or_ge zeros (bound + 1) with h' | h'
      · exact ih lt (Nat.le_of_lt_succ h')
      · obtain rfl : zeros = bound + 1 := Nat.le_antisymm le h'
        simpa using h

end Interval

namespace Binary32

/-- The written form of a number: `-` for a set sign and the shortest decimal, or a word for what
is not finite. A not-a-number has no sign. -/
def text (x : Binary32) : String :=
  if x.isNaN then "NaN"
  else
    let size := if x.isFinite then (single.shortest x.magnitude).text else "inf"
    if x.negative then "-" ++ size else size

end Binary32

end DistanceField.Numeral
