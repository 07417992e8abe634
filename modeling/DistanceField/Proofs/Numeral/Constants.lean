import DistanceField.Proofs.Numeral.Nearest
import DistanceField.Proofs.Numeral.Reading

/-!
# Constants as they are written

A constant is digits, perhaps with a sign before them and a point among them. A finite number is
written as a constant that rounds to the number, both as a float literal, which always has a point,
and as an argument of a vector constructor, which has none if the number is an integer that fits
into 32 bits. The digits of such an integer need not be those of its value: the shortest decimal
fills up with zeros. They stay below `2 ^ 31` all the same.
-/

namespace DistanceField.Numeral

namespace Format

variable {format : Format} {p k : Nat}

theorem places_shortest_le (format : Format) (p : Nat) :
    (format.shortest p).places ≤ format.unit := Nat.sub_le ..

theorem ticks_of_steps_eq (eq : format.steps p = 2 ^ format.unit * k) :
    format.ticks p = k * 10 ^ format.unit := by
  rw [ticks, eq, show 10 = 2 * 5 from rfl, Nat.mul_pow]
  ring

/-- An integer is reached by the grid of the integers, so its shortest decimal has no places. -/
theorem places_shortest_of_steps_eq (eq : format.steps p = 2 ^ format.unit * k) :
    (format.shortest p).places = 0 := by
  have grid := ticks_of_steps_eq eq
  have reached : (format.interval p).reaches (10 ^ format.unit) :=
    Interval.reaches_of_multiple (grid ▸ format.low_le_ticks p) (grid ▸ format.ticks_le_high p)
  simp only [shortest]
  by_contra ne
  have finer : (format.interval p).coarsest
      (max format.unit ((format.interval p).high.log2 / 3)) < format.unit := by omega
  have missed := Interval.not_reaches_of_coarsest_lt finer (Nat.le_max_left ..)
  rw [reached] at missed
  cases missed

end Format

/-- The digits of an integer up to `2 ^ 31` make up a number below: the decimals between the last
number before `2 ^ 31` and it round to one of these two, and `2 ^ 31` itself is written with fewer
digits. -/
theorem coefficient_shortest_lt {p : Nat} (whole : (single.shortest p).places = 0)
    (le : single.ticks p ≤ 2 ^ 31 * 10 ^ single.unit) :
    (single.shortest p).coefficient < 2 ^ 31 := by
  have last : single.ticks 0x4F000000 = 2 ^ 31 * 10 ^ single.unit := by decide +kernel
  rcases (single.strictMono_ticks.le_iff_le.mp (le.trans_eq last.symm)).lt_or_eq with lt | rfl
  · have below : single.ticksOf (single.shortest p) < 2 ^ 31 * 10 ^ single.unit :=
      calc single.ticksOf (single.shortest p)
        _ ≤ (single.interval p).high := (single.shortest_mem p).2
        _ < (single.interval 0x4F000000).low := single.high_lt_low lt
        _ ≤ single.ticks 0x4F000000 := single.low_le_ticks _
        _ = 2 ^ 31 * 10 ^ single.unit := last
    rw [Format.ticksOf, whole, Nat.sub_zero] at below
    exact Nat.lt_of_mul_lt_mul_right below
  · decide +kernel

def Decimal.value (x : Decimal) : ℚ := x.coefficient / 10 ^ x.places

theorem Decimal.value_eq_ticksOf {format : Format} {x : Decimal} (le : x.places ≤ format.unit) :
    x.value = format.ticksOf x / 10 ^ format.unit := by
  obtain ⟨finer, eq⟩ := Nat.exists_eq_add_of_le le
  rw [value, Format.ticksOf, eq, Nat.add_sub_cancel_left, pow_add, Nat.cast_mul, Nat.cast_pow,
    Nat.cast_ofNat, mul_div_mul_right]
  positivity

/-- A constant as it is written: perhaps a sign, digits, and perhaps a point and digits behind it.
Without digits behind it there is no point. -/
structure Constant where
  negative : Bool
  whole : List Char
  fraction : List Char
  whole_ne_nil : whole ≠ []
  isDigit_whole : ∀ c ∈ whole, c.isDigit
  isDigit_fraction : ∀ c ∈ fraction, c.isDigit

namespace Constant

variable {constant : Constant} {x y : Binary32}

def chars (constant : Constant) : List Char :=
  (if constant.negative then ['-'] else []) ++ constant.whole ++
    (if constant.fraction = [] then [] else '.' :: constant.fraction)

def decimal (constant : Constant) : Decimal :=
  ⟨Nat.ofDigitChars 10 (constant.whole ++ constant.fraction) 0, constant.fraction.length⟩

def value (constant : Constant) : ℚ :=
  (if constant.negative then -1 else 1) * constant.decimal.value

/-- A constant reads as the number that it rounds to; its sign is that of the number, zero
included. -/
structure Reads (constant : Constant) (x : Binary32) : Prop where
  negative : constant.negative = x.negative
  isNearest : x.IsNearest constant.value

theorem Reads.unique (reads : constant.Reads x) (reads' : constant.Reads y) : x = y :=
  Binary32.eq_of_value_eq (reads.isNearest.value_eq reads'.isNearest)
    (reads.negative.symm.trans reads'.negative)

theorem point_mem_chars_iff : '.' ∈ constant.chars ↔ constant.fraction ≠ [] := by
  have free : '.' ∉ constant.whole :=
    fun mem => Decimal.ne_point_of_isDigit (constant.isDigit_whole _ mem) rfl
  by_cases bare : constant.fraction = [] <;> cases sign : constant.negative <;>
    simp [chars, free, bare, sign]

/-- A constant whose decimal lies in the interval of a number reads as the number. -/
theorem reads_of_mem (sign : constant.negative = x.negative) (number : x.isNaN = false)
    (places : constant.decimal.places ≤ single.unit)
    (low : (single.interval x.magnitude).low ≤ single.ticksOf constant.decimal)
    (high : single.ticksOf constant.decimal ≤ (single.interval x.magnitude).high) :
    constant.Reads x := by
  refine ⟨sign, ?_⟩
  rw [value, sign, Decimal.value_eq_ticksOf places]
  exact Binary32.isNearest_of_mem number low high

def pointed (constant : Constant) : Constant :=
  { constant with
    fraction := if constant.fraction = [] then ['0'] else constant.fraction
    isDigit_fraction := by
      split
      · simp
      · exact constant.isDigit_fraction }

theorem fraction_pointed_ne_nil (constant : Constant) : constant.pointed.fraction ≠ [] := by
  simp only [pointed]
  split <;> simp_all

theorem chars_pointed (constant : Constant) : constant.pointed.chars =
    if '.' ∈ constant.chars then constant.chars else constant.chars ++ ['.', '0'] := by
  by_cases bare : constant.fraction = []
  · rw [if_neg (by simp [point_mem_chars_iff, bare])]
    simp [chars, pointed, bare]
  · rw [if_pos (point_mem_chars_iff.mpr bare)]
    simp [chars, pointed, bare]

theorem value_pointed (constant : Constant) : constant.pointed.value = constant.value := by
  by_cases bare : constant.fraction = []
  · have tenfold : constant.pointed.decimal = ⟨constant.decimal.coefficient * 10, 1⟩ := by
      simp [decimal, pointed, bare, Nat.ofDigitChars_append, Nat.ofDigitChars_cons, Nat.mul_comm]
    have whole : constant.decimal.places = 0 := by simp [decimal, bare]
    have same : constant.pointed.decimal.value = constant.decimal.value := by
      rw [tenfold, Decimal.value, Decimal.value, whole]
      push_cast
      ring
    rw [value, value, same]
    rfl
  · simp [value, decimal, pointed, bare]

theorem Reads.pointed (reads : constant.Reads x) : constant.pointed.Reads x :=
  ⟨reads.negative, constant.value_pointed ▸ reads.isNearest⟩

end Constant

/-- What an argument of a vector constructor is for a component: it reads as the component, and it
has no point if and only if the component is an integer that fits into 32 bits. Then its digits
alone fit as well, so that its sign can be read after them. -/
structure Constant.IsArgument (constant : Constant) (x : Binary32) : Prop where
  reads : constant.Reads x
  fraction_eq_nil_iff : constant.fraction = [] ↔ ∃ n : ℤ, x.value = n ∧ -2 ^ 31 ≤ n ∧ n < 2 ^ 31
  ofDigitChars_le : constant.fraction = [] → Nat.ofDigitChars 10 constant.whole 0 ≤ 2147483647

namespace Binary32

variable {x : Binary32}

theorem isNaN_of_isFinite (finite : x.isFinite) : x.isNaN = false := by
  simp only [isFinite, isNaN, decide_eq_true_eq, decide_eq_false_iff_not] at finite ⊢
  omega

theorem exists_constant_text (finite : x.isFinite) : ∃ constant : Constant,
    x.text.toList = constant.chars ∧ constant.negative = x.negative ∧
      constant.decimal = single.shortest x.magnitude := by
  rw [toList_text_of_isFinite finite]
  generalize single.shortest x.magnitude = decimal
  obtain ⟨whole, ne, digits, ⟨zero, eq, value⟩ | ⟨fraction, digits', pos, length, eq, value⟩⟩ :=
    decimal.toList_text
  · refine ⟨⟨x.negative, whole, [], ne, digits, by simp⟩, ?_, rfl, ?_⟩
    · simp [eq, Constant.chars, signChars]
    · rw [Constant.decimal, List.append_nil, value, List.length_nil, ← zero]
  · have ne' : fraction ≠ [] := List.ne_nil_of_length_pos (length ▸ pos)
    refine ⟨⟨x.negative, whole, fraction, ne, digits, digits'⟩, ?_, rfl, ?_⟩
    · simp [eq, ne', Constant.chars, signChars]
    · simp only [Constant.decimal, value, length]

theorem reads_of_shortest {constant : Constant} (finite : x.isFinite)
    (sign : constant.negative = x.negative)
    (decimal : constant.decimal = single.shortest x.magnitude) : constant.Reads x := by
  obtain ⟨low, high⟩ := single.shortest_mem x.magnitude
  exact Constant.reads_of_mem sign (isNaN_of_isFinite finite)
    (decimal ▸ single.places_shortest_le _) (decimal ▸ low) (decimal ▸ high)

theorem exists_constant_floatText (finite : x.isFinite) : ∃ constant : Constant,
    (floatText x).toList = constant.chars ∧ constant.fraction ≠ [] ∧ constant.Reads x := by
  obtain ⟨constant, shown, sign, decimal⟩ := exists_constant_text finite
  refine ⟨constant.pointed, ?_, constant.fraction_pointed_ne_nil,
    (reads_of_shortest finite sign decimal).pointed⟩
  rw [constant.chars_pointed, floatText, ← shown]
  split <;> simp

theorem steps_of_value_eq {n : ℤ} (int : x.value = n) :
    single.steps x.magnitude = 2 ^ single.unit * n.natAbs := by
  have size := congrArg Int.natAbs (value_eq_intCast_iff.mp int)
  rw [Int.natAbs_mul, Int.natAbs_natCast] at size
  rw [← size]
  cases x.negative <;> simp

/-- The text of an integer that fits into 32 bits is a constant without a point, whose digits stay
below `2 ^ 31`. -/
theorem bare_of_value_eq {constant : Constant} {n : ℤ}
    (decimal : constant.decimal = single.shortest x.magnitude) (int : x.value = n)
    (low : -2 ^ 31 ≤ n) (high : n < 2 ^ 31) :
    constant.fraction = [] ∧ Nat.ofDigitChars 10 constant.whole 0 ≤ 2147483647 := by
  have steps := steps_of_value_eq int
  have zero := Format.places_shortest_of_steps_eq steps
  have small : single.ticks x.magnitude ≤ 2 ^ 31 * 10 ^ single.unit := by
    rw [Format.ticks_of_steps_eq steps]
    exact Nat.mul_le_mul_right _ (by omega)
  have below := coefficient_shortest_lt zero small
  rw [← decimal] at zero below
  have bare : constant.fraction = [] := List.length_eq_zero_iff.mp zero
  refine ⟨bare, ?_⟩
  rw [Constant.decimal, bare, List.append_nil] at below
  exact Nat.le_of_lt_succ below

/-- What stands for a component among the arguments of a vector constructor is such an argument. -/
theorem exists_constant_componentText (finite : x.isFinite) : ∃ constant : Constant,
    (componentText x).toList = constant.chars ∧ constant.IsArgument x := by
  by_cases fits : ∃ n : ℤ, x.value = n ∧ -2 ^ 31 ≤ n ∧ n < 2 ^ 31
  · have ⟨n, int, low, high⟩ := fits
    obtain ⟨constant, shown, sign, decimal⟩ := exists_constant_text finite
    obtain ⟨bare, small⟩ := bare_of_value_eq decimal int low high
    refine ⟨constant, ?_, reads_of_shortest finite sign decimal, iff_of_true bare fits,
      fun _ => small⟩
    rw [componentText, toInt?_eq_some_iff.mpr ⟨finite, int⟩]
    simp only [low, high, and_self, if_true, shown]
  · obtain ⟨constant, shown, point, reads⟩ := exists_constant_floatText finite
    refine ⟨constant, ?_, reads, iff_of_false point fits, fun bare => absurd bare point⟩
    rw [← shown, componentText]
    split
    · rename_i n int
      rw [if_neg fun range => fits ⟨n, (toInt?_eq_some_iff.mp int).2, range⟩]
    · rfl

end Binary32

end DistanceField.Numeral
