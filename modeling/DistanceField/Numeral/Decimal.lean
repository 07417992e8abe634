/-!
# Plain decimals

A decimal is a natural number of units in some decimal place, written without an exponent: the
whole part in its shortest form and, if there are places, a point and exactly that many digits.
-/

namespace DistanceField.Numeral

-- Powers of natural numbers are the built-in ones, also where a monoid is known.
attribute [instance (high)] instPowNat

/-- The number `coefficient / 10 ^ places`. -/
structure Decimal where
  coefficient : Nat
  places : Nat
  deriving DecidableEq

namespace Decimal

/-- The digits of a number, with zeros before them that fill it up to `width` digits. -/
def paddedDigits (width number : Nat) : List Char :=
  let digits := Nat.toDigits 10 number
  List.replicate (width - digits.length) '0' ++ digits

def text (x : Decimal) : String :=
  let whole := Nat.toDigits 10 (x.coefficient / 10 ^ x.places)
  if x.places = 0 then .ofList whole
  else .ofList (whole ++ '.' :: paddedDigits x.places (x.coefficient % 10 ^ x.places))

theorem ofDigitChars_paddedDigits (width number : Nat) :
    Nat.ofDigitChars 10 (paddedDigits width number) 0 = number := by
  simp [paddedDigits, Nat.ofDigitChars_append]

theorem length_paddedDigits {width number : Nat} (pos : 0 < width) (h : number < 10 ^ width) :
    (paddedDigits width number).length = width := by
  have := (Nat.length_toDigits_le_iff (n := number) (by decide) pos).mpr h
  simp only [paddedDigits, List.length_append, List.length_replicate]
  omega

end Decimal

end DistanceField.Numeral
