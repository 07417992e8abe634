import DistanceField.Numeral.Binary32

/-!
# Numbers in JSON

A number is kept as it is written. Its value is an integer if it is written as one and fits 64
bits; otherwise it is a double precision number, reached from the leading digits that fit 64 bits
and one scaling by a power of ten, so its last bits need not be those of the nearest double.
-/

namespace DistanceField.Json
open Numeral

/-- A number as it is written. Without a point there are no digits in `fraction`; an exponent has a
flag for the minus sign before its digits. -/
structure Number where
  negative : Bool
  whole : List Nat
  fraction : List Nat
  exponent : Option (Bool × List Nat)
  deriving DecidableEq

/-- The value of a number. A negative integer is given by its size, and a double by its sign and
its magnitude pattern. -/
inductive Numeric where
  | natural (value : Nat)
  | negative (size : Nat)
  | double (sign : Bool) (pattern : Nat)
  deriving DecidableEq

def ofDigits (digits : List Nat) : Nat := digits.foldl (fun value digit => value * 10 + digit) 0

/-- Appends digits to a significand as long as it fits 64 bits; gives the digits left over, too. -/
def gather (significand : Nat) : List Nat → Nat × List Nat
  | [] => (significand, [])
  | digit :: digits =>
    if significand * 10 + digit < 2 ^ (64 : Nat) then gather (significand * 10 + digit) digits
    else (significand, digit :: digits)

/-- The double nearest to a power of ten. -/
def powerOfTen (exponent : Nat) : Nat := double.nearest (10 ^ exponent) 1

def maxPower : Nat := 308

def scaleUp (pattern exponent : Nat) : Option Nat :=
  if exponent ≤ maxPower then
    let product := double.nearest (double.steps pattern * double.steps (powerOfTen exponent))
      (2 ^ (2 * double.unit))
    if product < double.infinity then some product else none
  else if pattern = 0 then some 0 else none

/-- A double divided by a power of ten, in steps of `10 ^ 308` while the power is greater. -/
def scaleDown (pattern exponent : Nat) : Nat :=
  if exponent ≤ maxPower then
    double.nearest (double.steps pattern) (double.steps (powerOfTen exponent))
  else if pattern = 0 then 0
  else
    scaleDown (double.nearest (double.steps pattern) (double.steps (powerOfTen maxPower)))
      (exponent - maxPower)
termination_by exponent
decreasing_by simp only [maxPower] at *; omega

def scale (significand : Nat) (exponent : Int) : Option Nat :=
  let pattern := double.nearest significand 1
  if 0 ≤ exponent then scaleUp pattern exponent.toNat
  else some (scaleDown pattern (-exponent).toNat)

namespace Number

def isInteger (number : Number) : Bool := number.fraction.isEmpty && number.exponent.isNone

def written (number : Number) : Int :=
  match number.exponent with
  | none => 0
  | some (true, digits) => -(ofDigits digits : Int)
  | some (false, digits) => ofDigits digits

/-- The value of a number, unless it is too large for a double. Minus zero is a double. -/
def value? (number : Number) : Option Numeric :=
  let (significand, left) := gather 0 number.whole
  if number.isInteger && left.isEmpty then
    if !number.negative then some (.natural significand)
    else if 0 < significand ∧ significand ≤ 2 ^ (63 : Nat) then some (.negative significand)
    else some (.double true (double.nearest significand 1))
  else
    let (significand, ignored) := gather significand number.fraction
    let places := number.fraction.length - ignored.length
    (scale significand (left.length - places + number.written)).map (.double number.negative)

end Number

namespace Numeric

def toBinary32 : Numeric → Binary32
  | natural value => .nearest false value 1
  | negative size => .nearest true size 1
  | double sign pattern =>
    .nearest sign (Numeral.double.steps pattern) (2 ^ Numeral.double.unit)

def toUInt32? : Numeric → Option UInt32
  | natural value => if value < 2 ^ (32 : Nat) then some (.ofNat value) else none
  | _ => none

end Numeric

end DistanceField.Json
