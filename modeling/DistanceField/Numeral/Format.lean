/-!
# Binary floating-point formats

A format stores a number as a sign and a magnitude pattern: an exponent field above a fraction
field. Read as natural numbers, the patterns of the finite magnitudes are in the order of the
magnitudes themselves, and one pattern more than the largest of them stands for infinity. A finite
pattern denotes `significand * 2 ^ exponent` steps of size `2 ^ (-unit)`, so a decoded number is
never negative in any part. `nearest` goes the other way, from a quotient of natural numbers.
-/

namespace DistanceField.Numeral

-- Powers of natural numbers are the built-in ones, also where a monoid is known.
attribute [instance (high)] instPowNat

structure Format where
  fractionBits : Nat
  exponentBits : Nat
  deriving DecidableEq

def single : Format := ⟨23, 8⟩

def double : Format := ⟨52, 11⟩

/-- The integer nearest to `num / den`; halfway between two, the even one. -/
def divNearestEven (num den : Nat) : Nat :=
  let quotient := num / den
  let twice := 2 * (num % den)
  if twice < den ∨ (twice = den ∧ quotient % 2 = 0) then quotient else quotient + 1

namespace Format

/-- Decoded numbers are counted in steps of size `2 ^ (-unit)`. -/
def unit (format : Format) : Nat := 2 ^ (format.exponentBits - 1) - 1 + format.fractionBits

/-- The pattern of infinity. A pattern above it is not a number. -/
def infinity (format : Format) : Nat := (2 ^ format.exponentBits - 1) * 2 ^ format.fractionBits

def significand (format : Format) (pattern : Nat) : Nat :=
  if pattern < 2 ^ format.fractionBits then pattern
  else 2 ^ format.fractionBits + pattern % 2 ^ format.fractionBits

def exponent (format : Format) (pattern : Nat) : Nat := max 1 (pattern / 2 ^ format.fractionBits)

def steps (format : Format) (pattern : Nat) : Nat :=
  format.significand pattern * 2 ^ format.exponent pattern

/-- The exponent at which `num / den` steps are rounded: the least one whose significands reach. -/
def roundingExponent (format : Format) (num den : Nat) : Nat :=
  max 1 ((num / den).log2 - format.fractionBits)

/-- The pattern of the magnitude nearest to `num / den`, halfway between two the even one. What
rounds beyond the largest finite magnitude is infinity. A significand that rounding carries to the
next power of two turns into the next exponent by itself. -/
def nearest (format : Format) (num den : Nat) : Nat :=
  let scaled := num * 2 ^ format.unit
  let exponent := format.roundingExponent scaled den
  min format.infinity
    ((exponent - 1) * 2 ^ format.fractionBits + divNearestEven scaled (den * 2 ^ exponent))

end Format

end DistanceField.Numeral
