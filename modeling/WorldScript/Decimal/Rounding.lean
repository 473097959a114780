import WorldScript.Decimal.Digits
import WorldScript.Binary32.Rounding

/-!
Decimal values `coefficient * 10 ^ exponent`, and the binary number nearest to one.

The nearest number is found from the exact quotient. Exponents far out of range are decided
first, from the order of magnitude, so that no power of ten is larger than it has to be.
-/
set_option autoImplicit false

namespace WorldScript

structure Decimal where
  coefficient : Nat
  exponent : Int
deriving DecidableEq

namespace Decimal

def ratio (d : Decimal) (scale : Nat) : Nat × Nat :=
  if 0 ≤ d.exponent then (d.coefficient * tenTo d.exponent.toNat * scale, 1)
  else (d.coefficient * scale, tenTo (-d.exponent).toNat)

/-- For a positive value, the least power of ten above it. -/
def order (d : Decimal) : Int := (digits d.coefficient).length + d.exponent

/-- The magnitude of the 32-bit number nearest to the value. From 10 ^ 40 on it is infinite,
and below 10 ^ -50 it is zero. -/
def magnitude (d : Decimal) : Nat :=
  if d.coefficient = 0 || d.order < -50 then 0
  else if 40 < d.order then Binary32.infiniteMagnitude
  else
    let r := d.ratio Binary32.unitsPerOne
    Binary32.magnitudeOfRatio r.1 r.2

/-- A whole number of units nearest to `num / den` that has at most `bits` significant bits. -/
def roundSignificant (bits num den : Nat) : Nat :=
  let dropped := (num / den).log2 + 1 - bits
  roundDiv num (den <<< dropped) <<< dropped

/-- The least positive number of 64 bits is 2 ^ -1074; this many of it make 1. -/
def units64PerOne : Nat := 1 <<< 1074

def units64Limit : Nat := 1 <<< 2098

/-- The 64-bit number nearest to the value, in units; `none` when it is infinite. -/
def units64? (d : Decimal) : Option Nat :=
  if d.coefficient = 0 || d.order < -340 then some 0
  else if 320 < d.order then none
  else
    let r := d.ratio units64PerOne
    let n := roundSignificant 53 r.1 r.2
    if n < units64Limit then some n else none

theorem magnitude_le (d : Decimal) : d.magnitude ≤ Binary32.infiniteMagnitude := by
  unfold magnitude
  split
  · exact Nat.zero_le _
  · split
    · exact Nat.le_refl _
    · exact Binary32.magnitudeOfRatio_le _ _

end Decimal

end WorldScript
