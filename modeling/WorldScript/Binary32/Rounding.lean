import WorldScript.Binary32.Basic

/-!
Rounding to the nearest number, a half going to the neighbour with an even magnitude.

Every result of arithmetic is given as an exact quotient of naturals, in units. Keeping 24
significant bits means dropping the `excess` ones; since a magnitude is the exponent field
followed by the fraction, the rounded significand is added to `excess * leadingOne`, and a
carry out of the significand lands in the exponent by itself.
-/
set_option autoImplicit false

namespace WorldScript

/-- The whole number nearest to `num / den`; a half goes to the even one. -/
def roundDiv (num den : Nat) : Nat :=
  let q := num / den
  let r := num % den
  if 2 * r < den then q
  else if den < 2 * r then q + 1
  else q + q % 2

namespace Binary32

/-- How many low bits of a whole number of units do not fit in 24 significant ones. -/
def excess (n : Nat) : Nat := n.log2 - 23

/-- The magnitude nearest to `num / den` units; infinite when the exponent does not fit. -/
def magnitudeOfRatio (num den : Nat) : Nat :=
  let dropped := excess (num / den)
  min (dropped * leadingOne + roundDiv num (den <<< dropped)) infiniteMagnitude

def ofRatio (negative : Bool) (num den : Nat) : Binary32 :=
  ofMagnitude negative (magnitudeOfRatio num den)

def ofUnits (n : Int) : Binary32 := ofRatio (decide (n < 0)) n.natAbs 1

def ofInt (n : Int) : Binary32 := ofUnits (n * unitsPerOne)

theorem magnitudeOfRatio_le (num den : Nat) : magnitudeOfRatio num den ≤ infiniteMagnitude :=
  Nat.min_le_right _ _

theorem isNaN_ofRatio (negative : Bool) (num den : Nat) : (ofRatio negative num den).isNaN = false := by
  have h := magnitudeOfRatio_le num den
  have hb : infiniteMagnitude < signBit := by decide
  simp only [isNaN, ofRatio, magnitude_ofMagnitude (Nat.lt_of_le_of_lt h hb)]
  simp; omega

end Binary32

end WorldScript
