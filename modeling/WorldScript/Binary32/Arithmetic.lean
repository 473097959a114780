import WorldScript.Binary32.Rounding

/-!
Arithmetic, correctly rounded: the exact result of each operation, in units, is rounded once.
Remainders are exact. Conversions to integers drop the fraction and stop at the ends of the
target's range.
-/
set_option autoImplicit false

namespace WorldScript.Binary32

def add (x y : Binary32) : Binary32 :=
  if x.isNaN || y.isNaN then nan
  else if x.isInfinite then
    if y.isInfinite && x.isNegative != y.isNegative then nan else x
  else if y.isInfinite then y
  else
    let sum := x.units + y.units
    if sum = 0 then ofMagnitude (x.isNegative && y.isNegative) 0 else ofUnits sum

def sub (x y : Binary32) : Binary32 := x.add y.neg

def mul (x y : Binary32) : Binary32 :=
  let negative := x.isNegative != y.isNegative
  if x.isNaN || y.isNaN then nan
  else if x.isInfinite || y.isInfinite then
    if x.isZero || y.isZero then nan else infinity negative
  else ofRatio negative (x.absUnits * y.absUnits) unitsPerOne

def div (x y : Binary32) : Binary32 :=
  let negative := x.isNegative != y.isNegative
  if x.isNaN || y.isNaN then nan
  else if x.isInfinite then if y.isInfinite then nan else infinity negative
  else if y.isInfinite then ofMagnitude negative 0
  else if y.isZero then if x.isZero then nan else infinity negative
  else ofRatio negative (x.absUnits * unitsPerOne) y.absUnits

/-- What is left of `x` after taking `y` away as often as it fits, toward zero; the sign is
that of `x`. -/
def rem (x y : Binary32) : Binary32 :=
  if x.isNaN || y.isNaN || x.isInfinite || y.isZero then nan
  else if y.isInfinite then x
  else ofRatio x.isNegative (x.absUnits % y.absUnits) 1

def floorSqrt (n : Nat) : Nat :=
  if h : n = 0 then 0
  else
    have : n / 4 < n := Nat.div_lt_self (Nat.pos_of_ne_zero h) (by decide)
    let r := 2 * floorSqrt (n / 4)
    if (r + 1) * (r + 1) ≤ n then r + 1 else r
termination_by n

/-- The square root. An inexact root lies strictly between two whole numbers of units, and is
rounded as the half between them: roots have far more than 24 bits, so no half is a tie. -/
def sqrt (x : Binary32) : Binary32 :=
  if x.isNaN then nan
  else if x.isZero then x
  else if x.isNegative then nan
  else if x.isInfinite then x
  else
    let square := x.absUnits * unitsPerOne
    let root := floorSqrt square
    ofRatio false (2 * root + if root * root = square then 0 else 1) 2

def isIntegral (x : Binary32) : Bool := x.isFinite && x.absUnits % unitsPerOne == 0

def truncate (x : Binary32) : Int := x.units.tdiv unitsPerOne

/-- The integer in `[low, high]` nearest to the value without its fraction; 0 for
not-a-number. -/
def clamp (x : Binary32) (low high : Int) : Int :=
  if x.isNaN then 0
  else if x.isInfinite then if x.isNegative then low else high
  else max low (min high x.truncate)

def toUInt32 (x : Binary32) : UInt32 := UInt32.ofNat (x.clamp 0 (UInt32.size - 1)).toNat

def toInt32 (x : Binary32) : Int32 := Int32.ofInt (x.clamp Int32.minValue.toInt Int32.maxValue.toInt)

def orZero (x : Binary32) : Binary32 := if zero.less x then x else zero

end WorldScript.Binary32
