import DistanceField.Literal
import DistanceField.Proofs.Numeral.Shortest
import Mathlib.Data.List.TakeWhile

/-!
# Written numbers read back

A plain decimal is read back from its digits and the place of its point. A finite number is written
as its sign and its shortest decimal, perhaps with a zero behind a point of its own, so different
numbers are never written alike.
-/

namespace DistanceField.Numeral

namespace Decimal

variable {x : Decimal} {whole fraction : List Char} {c : Char} {width number : Nat}

/-- The decimal that digits with at most one point among them denote. -/
def ofChars (text : List Char) : Decimal :=
  ⟨Nat.ofDigitChars 10 (text.filter (· ≠ '.')) 0, (text.dropWhile (· ≠ '.')).length - 1⟩

theorem ne_point_of_isDigit (h : c.isDigit) : c ≠ '.' := by
  rintro rfl
  simp at h

theorem isDigit_of_mem_toDigits (mem : c ∈ Nat.toDigits 10 number) : c.isDigit :=
  Nat.isDigit_of_mem_toDigits (by decide) (by decide) mem

theorem isDigit_of_mem_paddedDigits (mem : c ∈ paddedDigits width number) : c.isDigit := by
  rcases List.mem_append.mp mem with zero | digit
  · rw [List.eq_of_mem_replicate zero]
    rfl
  · exact isDigit_of_mem_toDigits digit

theorem ofChars_whole (digits : ∀ c ∈ whole, c.isDigit) :
    ofChars whole = ⟨Nat.ofDigitChars 10 whole 0, 0⟩ := by
  have plain : ∀ c ∈ whole, decide (c ≠ '.') = true := fun c mem =>
    decide_eq_true (ne_point_of_isDigit (digits c mem))
  rw [ofChars, List.filter_eq_self.mpr plain, List.dropWhile_eq_nil_iff.mpr plain]
  rfl

theorem ofChars_fraction (digits : ∀ c ∈ whole, c.isDigit) (digits' : ∀ c ∈ fraction, c.isDigit) :
    ofChars (whole ++ '.' :: fraction) =
      ⟨Nat.ofDigitChars 10 (whole ++ fraction) 0, fraction.length⟩ := by
  have plain : ∀ c ∈ whole, decide (c ≠ '.') = true := fun c mem =>
    decide_eq_true (ne_point_of_isDigit (digits c mem))
  have plain' : ∀ c ∈ fraction, decide (c ≠ '.') = true := fun c mem =>
    decide_eq_true (ne_point_of_isDigit (digits' c mem))
  rw [ofChars, List.filter_append, List.filter_cons_of_neg (by simp), List.filter_eq_self.mpr plain,
    List.filter_eq_self.mpr plain', List.dropWhile_append_of_pos plain,
    List.dropWhile_cons_of_neg (by simp), List.length_cons, Nat.add_sub_cancel]

/-- The text of a decimal: the whole part, and behind a point the fraction if there are places. -/
theorem toList_text (x : Decimal) : ∃ whole : List Char, whole ≠ [] ∧ (∀ c ∈ whole, c.isDigit) ∧
    ((x.places = 0 ∧ x.text.toList = whole ∧ Nat.ofDigitChars 10 whole 0 = x.coefficient) ∨
      ∃ fraction : List Char, (∀ c ∈ fraction, c.isDigit) ∧ 0 < x.places ∧
        fraction.length = x.places ∧ x.text.toList = whole ++ '.' :: fraction ∧
          Nat.ofDigitChars 10 (whole ++ fraction) 0 = x.coefficient) := by
  refine ⟨Nat.toDigits 10 (x.coefficient / 10 ^ x.places), Nat.toDigits_ne_nil,
    fun c mem => isDigit_of_mem_toDigits mem, ?_⟩
  by_cases zero : x.places = 0
  · left
    simp [text, zero]
  · right
    have pos : 0 < x.places := Nat.pos_of_ne_zero zero
    have small : x.coefficient % 10 ^ x.places < 10 ^ x.places :=
      Nat.mod_lt _ (Nat.pow_pos (by decide))
    have length := length_paddedDigits pos small
    refine ⟨_, fun c mem => isDigit_of_mem_paddedDigits mem, pos, length, by simp [text, zero], ?_⟩
    rw [Nat.ofDigitChars_append, Nat.ofDigitChars_eq_ofDigitChars_zero, length,
      ofDigitChars_paddedDigits, Nat.ofDigitChars_toDigits (by decide) (by decide),
      Nat.div_add_mod]

theorem ofChars_text (x : Decimal) : ofChars x.text.toList = x := by
  obtain ⟨whole, -, digits, ⟨zero, eq, value⟩ | ⟨fraction, digits', -, length, eq, value⟩⟩ :=
    x.toList_text
  · rw [eq, ofChars_whole digits, value, ← zero]
  · rw [eq, ofChars_fraction digits digits', value, length]

theorem ofChars_text_point (free : '.' ∉ x.text.toList) :
    x.places = 0 ∧ ofChars (x.text.toList ++ ['.', '0']) = ⟨x.coefficient * 10, 1⟩ := by
  obtain ⟨whole, -, digits, ⟨zero, eq, value⟩ | ⟨fraction, -, -, -, eq, -⟩⟩ := x.toList_text
  · refine ⟨zero, ?_⟩
    rw [eq, ofChars_fraction digits (by simp), Nat.ofDigitChars_append, value]
    simp [Nat.ofDigitChars_cons, Nat.mul_comm]
  · simp [eq] at free

theorem mem_text (mem : c ∈ x.text.toList) : c.isDigit ∨ c = '.' := by
  obtain ⟨whole, -, digits, ⟨-, eq, -⟩ | ⟨fraction, digits', -, -, eq, -⟩⟩ := x.toList_text
  · exact .inl (digits c (eq ▸ mem))
  · rw [eq, List.mem_append, List.mem_cons] at mem
    rcases mem with mem | rfl | mem
    · exact .inl (digits c mem)
    · exact .inr rfl
    · exact .inl (digits' c mem)

end Decimal

namespace Binary32

variable {x y : Binary32} {text : String}

/-- A text writes down a number: it is the text of the number, or this with a zero behind a point
that was not there. -/
inductive Writes (x : Binary32) : String → Prop where
  | text : Writes x x.text
  | point (free : '.' ∉ x.text.toList) : Writes x (x.text ++ ".0")

theorem writes_floatText (x : Binary32) : x.Writes (floatText x) := by
  by_cases h : '.' ∈ x.text.toList
  · simpa [floatText, h] using Writes.text (x := x)
  · simpa [floatText, h] using Writes.point h

theorem writes_componentText (x : Binary32) : x.Writes (componentText x) := by
  unfold componentText
  split
  · split
    · exact .text
    · exact x.writes_floatText
  · exact x.writes_floatText

def signChars (x : Binary32) : List Char := if x.negative then ['-'] else []

theorem toList_text_of_isFinite (finite : x.isFinite) :
    x.text.toList = x.signChars ++ (single.shortest x.magnitude).text.toList := by
  have lt : x.magnitude < single.infinity := of_decide_eq_true finite
  have number : x.isNaN = false := decide_eq_false (Nat.not_lt_of_lt lt)
  have shown : x.text = if x.negative then "-" ++ (single.shortest x.magnitude).text
      else (single.shortest x.magnitude).text := by
    unfold Binary32.text
    rw [number, finite]
    simp only [Bool.false_eq_true, if_false, if_true]
  rw [shown, signChars]
  split
  · rw [String.toList_append]
    rfl
  · rw [List.nil_append]

/-- Behind its sign a written number begins with a digit and has nothing but digits and points. -/
theorem Writes.exists_number (finite : x.isFinite) (writes : x.Writes text) : ∃ c rest,
    text.toList = x.signChars ++ c :: rest ∧ c.isDigit ∧ ∀ d ∈ rest, d.isDigit ∨ d = '.' := by
  obtain ⟨c, rest, shown, digit, all⟩ : ∃ c rest, x.text.toList = x.signChars ++ c :: rest ∧
      c.isDigit ∧ ∀ d ∈ rest, d.isDigit ∨ d = '.' := by
    rw [toList_text_of_isFinite finite]
    generalize single.shortest x.magnitude = decimal
    obtain ⟨c, rest, eq, digit⟩ : ∃ c rest, decimal.text.toList = c :: rest ∧ c.isDigit := by
      obtain ⟨whole, ne, digits, shown⟩ := decimal.toList_text
      obtain ⟨c, whole, rfl⟩ := List.exists_cons_of_ne_nil ne
      have digit := digits c List.mem_cons_self
      rcases shown with ⟨-, eq, -⟩ | ⟨fraction, -, -, -, eq, -⟩
      · exact ⟨c, _, eq, digit⟩
      · exact ⟨c, _, eq, digit⟩
    refine ⟨c, rest, by rw [eq], digit, fun d mem => ?_⟩
    have inText : d ∈ decimal.text.toList := eq ▸ List.mem_cons_of_mem c mem
    exact Decimal.mem_text inText
  cases writes with
  | text => exact ⟨c, rest, shown, digit, all⟩
  | point =>
    refine ⟨c, rest ++ ".0".toList, by simp [shown], digit, fun d mem => ?_⟩
    rcases List.mem_append.mp mem with mem | mem
    · exact all d mem
    · have zero : ∀ d ∈ ".0".toList, d.isDigit ∨ d = '.' := by simp
      exact zero d mem

/-- Behind its sign a written number has digits that denote its shortest decimal. -/
theorem Writes.exists_digits (finite : x.isFinite) (writes : x.Writes text) :
    ∃ digits : List Char, text.toList = x.signChars ++ digits ∧ '-' ∉ digits ∧
      single.ticksOf (Decimal.ofChars digits) = single.ticksOf (single.shortest x.magnitude) := by
  have shown := toList_text_of_isFinite finite
  generalize single.shortest x.magnitude = decimal at shown ⊢
  have noSign : '-' ∉ decimal.text.toList := by
    intro mem
    rcases Decimal.mem_text mem with digit | point
    · simp at digit
    · simp at point
  cases writes with
  | text => exact ⟨_, shown, noSign, by rw [Decimal.ofChars_text]⟩
  | point free =>
    have free : '.' ∉ decimal.text.toList := by
      rw [shown, List.mem_append, not_or] at free
      exact free.2
    obtain ⟨zero, value⟩ := Decimal.ofChars_text_point free
    refine ⟨decimal.text.toList ++ ['.', '0'], by simp [shown], by simp [noSign], ?_⟩
    have units : single.unit = 149 + 1 := rfl
    rw [value, Format.ticksOf, Format.ticksOf, zero, units]
    ring

/-- Finite numbers that are written alike are the same, the sign of zero included. -/
theorem Writes.inj (finite : x.isFinite) (finite' : y.isFinite) (writes : x.Writes text)
    (writes' : y.Writes text) : x = y := by
  obtain ⟨digits, eq, noSign, value⟩ := writes.exists_digits finite
  obtain ⟨digits', eq', noSign', value'⟩ := writes'.exists_digits finite'
  rw [eq] at eq'
  have same : x.negative = y.negative ∧ digits = digits' := by
    cases sign : x.negative <;> cases sign' : y.negative <;>
      simp only [signChars, sign, sign'] at eq' <;> simp at eq'
    · exact ⟨rfl, eq'⟩
    · exact absurd (eq' ▸ List.mem_cons_self) noSign
    · exact absurd (eq'.symm ▸ List.mem_cons_self) noSign'
    · exact ⟨rfl, eq'⟩
  obtain ⟨sign, rfl⟩ := same
  have magnitude := Format.shortest_inj (value.symm.trans value')
  rw [← x.ofMagnitude_negative_magnitude, sign, magnitude, y.ofMagnitude_negative_magnitude]

end Binary32

end DistanceField.Numeral
