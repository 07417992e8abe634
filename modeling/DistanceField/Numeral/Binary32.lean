import DistanceField.Numeral.Format

/-!
# Single precision numbers

A number is its bit pattern, so two zeros and every kind of not-a-number are told apart. Comparison
of values, where both zeros are one and a not-a-number equals nothing, is `same`.
-/

namespace DistanceField.Numeral

/-- A single precision number: a sign above a magnitude pattern of 31 bits. -/
structure Binary32 where
  bits : UInt32
  deriving DecidableEq, Inhabited

namespace Binary32

def negative (x : Binary32) : Bool := 0x80000000 ≤ x.bits.toNat

def magnitude (x : Binary32) : Nat := x.bits.toNat % 0x80000000

def ofMagnitude (negative : Bool) (magnitude : Nat) : Binary32 :=
  ⟨UInt32.ofNat ((if negative then 0x80000000 else 0) + magnitude)⟩

def nearest (negative : Bool) (num den : Nat) : Binary32 :=
  ofMagnitude negative (single.nearest num den)

instance : OfNat Binary32 n := ⟨nearest false n 1⟩

def ratio (num den : Nat) : Binary32 := nearest false num den

instance : Neg Binary32 := ⟨fun x => ofMagnitude (!x.negative) x.magnitude⟩

def isFinite (x : Binary32) : Bool := x.magnitude < single.infinity

def isNaN (x : Binary32) : Bool := single.infinity < x.magnitude

def isZero (x : Binary32) : Bool := x.magnitude = 0

def isPositive (x : Binary32) : Bool := x.isFinite && !x.negative && !x.isZero

/-- Whether two numbers have one value. -/
def same (x y : Binary32) : Bool := !x.isNaN && !y.isNaN && (x = y || (x.isZero && y.isZero))

/-- The integer that a finite number equals, if it is one. -/
def toInt? (x : Binary32) : Option Int :=
  let steps := single.steps x.magnitude
  if x.isFinite && steps % 2 ^ single.unit = 0 then
    let size : Int := steps / 2 ^ single.unit
    some (if x.negative then -size else size)
  else none

theorem ofMagnitude_negative_magnitude (x : Binary32) :
    ofMagnitude x.negative x.magnitude = x := by
  obtain ⟨bits⟩ := x
  have small : bits.toNat < 0x100000000 := bits.toNat_lt
  simp only [ofMagnitude, negative, magnitude, decide_eq_true_eq, mk.injEq]
  rw [← UInt32.toNat_inj, UInt32.toNat_ofNat']
  split <;> omega

end Binary32

end DistanceField.Numeral
