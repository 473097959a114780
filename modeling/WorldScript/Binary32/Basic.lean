/-!
Binary floating-point numbers of 32 bits: one sign bit, 8 exponent bits, 23 fraction bits.

A number is kept as its bits, so not-a-number patterns survive being stored and written.
The value of a finite number is a whole number of units, a unit being 2 ^ -149, the least
positive number. All arithmetic on finite numbers is integer arithmetic on units.
-/
set_option autoImplicit false

namespace WorldScript

structure Binary32 where
  bits : UInt32
deriving DecidableEq, Inhabited

namespace Binary32

def signBit : Nat := 0x80000000

/-- The lowest bit of the exponent field. Significands of numbers that have an exponent begin
with a one in this place, which is not stored. -/
def leadingOne : Nat := 0x800000

/-- The bits below the sign. Numbers of one sign are ordered as their magnitudes are. -/
def magnitude (x : Binary32) : Nat := x.bits.toNat % signBit

def isNegative (x : Binary32) : Bool := decide (signBit ≤ x.bits.toNat)

/-- The magnitude of the two infinities; larger ones are not numbers. -/
def infiniteMagnitude : Nat := 255 * leadingOne

def ofMagnitude (negative : Bool) (magnitude : Nat) : Binary32 :=
  ⟨UInt32.ofNat (magnitude + if negative then signBit else 0)⟩

theorem magnitude_ofMagnitude {negative : Bool} {m : Nat} (h : m < signBit) :
    (ofMagnitude negative m).magnitude = m := by
  unfold signBit at h
  unfold magnitude ofMagnitude signBit
  rw [UInt32.toNat_ofNat']
  cases negative <;> simp <;> omega

theorem isNegative_ofMagnitude {negative : Bool} {m : Nat} (h : m < signBit) :
    (ofMagnitude negative m).isNegative = negative := by
  unfold signBit at h
  unfold isNegative ofMagnitude signBit
  rw [UInt32.toNat_ofNat']
  cases negative <;> simp <;> omega

theorem ofMagnitude_magnitude (x : Binary32) : ofMagnitude x.isNegative x.magnitude = x := by
  obtain ⟨b⟩ := x
  have hb : b.toNat < 4294967296 := b.toNat_lt
  unfold ofMagnitude isNegative magnitude signBit
  congr 1
  apply UInt32.toNat_inj.1
  rw [UInt32.toNat_ofNat']
  by_cases h : 0x80000000 ≤ b.toNat
  · simp only [h, decide_true, if_true]; omega
  · simp only [h, decide_false, Bool.false_eq_true, if_false]; omega

def zero : Binary32 := ⟨0⟩

def one : Binary32 := ⟨0x3f800000⟩

def nan : Binary32 := ⟨0x7fc00000⟩

def infinity (negative : Bool) : Binary32 := ofMagnitude negative infiniteMagnitude

def ofBool (b : Bool) : Binary32 := if b then one else zero

def isNaN (x : Binary32) : Bool := decide (infiniteMagnitude < x.magnitude)

def isInfinite (x : Binary32) : Bool := decide (x.magnitude = infiniteMagnitude)

def isFinite (x : Binary32) : Bool := decide (x.magnitude < infiniteMagnitude)

def isZero (x : Binary32) : Bool := decide (x.magnitude = 0)

def unitsPerOne : Nat := 1 <<< 149

/-- How many units a finite magnitude stands for. Without an exponent the magnitude counts
units; otherwise the low 23 bits, with the leading one, are shifted by the exponent field. -/
def unitsOfMagnitude (m : Nat) : Nat :=
  if m < leadingOne then m else (leadingOne + m % leadingOne) <<< (m / leadingOne - 1)

def absUnits (x : Binary32) : Nat := unitsOfMagnitude x.magnitude

def units (x : Binary32) : Int :=
  if x.isNegative then -(x.absUnits : Int) else (x.absUnits : Int)

def neg (x : Binary32) : Binary32 := ofMagnitude (!x.isNegative) x.magnitude

/-- A number that orders as the value does, infinities included; both zeros have 0. -/
def rank (x : Binary32) : Int :=
  if x.isNegative then -(x.magnitude : Int) else (x.magnitude : Int)

def compare? (x y : Binary32) : Option Ordering :=
  if x.isNaN || y.isNaN then none else some (compare x.rank y.rank)

def equals (x y : Binary32) : Bool := x.compare? y == some .eq

def less (x y : Binary32) : Bool := x.compare? y == some .lt

def atMost (x y : Binary32) : Bool := x.less y || x.equals y

theorem equals_nan_left {x y : Binary32} (h : x.isNaN = true) : x.equals y = false := by
  simp [equals, compare?, h]

theorem less_nan_left {x y : Binary32} (h : x.isNaN = true) : x.less y = false := by
  simp [less, compare?, h]

theorem atMost_nan_right {x y : Binary32} (h : y.isNaN = true) : x.atMost y = false := by
  simp [atMost, less, equals, compare?, h]

end Binary32

end WorldScript
