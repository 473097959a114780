import Mathlib.Order.Compare
import WorldScript.Proofs.Binary32.Rounding

/-!
The order of numbers. Whatever is a number has a place in it, and finite numbers are ordered as the
whole numbers of units that they are.

Main statements: `less_iff`, `atMost_iff` and `equals_iff`.
-/
set_option autoImplicit false

namespace WorldScript.Binary32

variable {x y : Binary32}

/-! ### Ranks -/

theorem compare?_eq (hx : x.isNaN = false) (hy : y.isNaN = false) :
    x.compare? y = some (compare x.rank y.rank) := by
  simp [compare?, hx, hy]

theorem less_iff_rank (hx : x.isNaN = false) (hy : y.isNaN = false) :
    x.less y = true ↔ x.rank < y.rank := by
  simp [less, compare?_eq hx hy, compare_lt_iff_lt]

theorem equals_iff_rank (hx : x.isNaN = false) (hy : y.isNaN = false) :
    x.equals y = true ↔ x.rank = y.rank := by
  simp [equals, compare?_eq hx hy]

theorem atMost_iff_rank (hx : x.isNaN = false) (hy : y.isNaN = false) :
    x.atMost y = true ↔ x.rank ≤ y.rank := by
  rw [atMost, Bool.or_eq_true, less_iff_rank hx hy, equals_iff_rank hx hy]
  omega

theorem less_eq_not_atMost (hx : x.isNaN = false) (hy : y.isNaN = false) :
    x.less y = !y.atMost x := by
  rw [Bool.eq_iff_iff, Bool.not_eq_true', ← Bool.not_eq_true, less_iff_rank hx hy,
    atMost_iff_rank hy hx, Int.not_le]

/-! ### Units -/

theorem isNaN_of_isFinite (h : x.isFinite = true) : x.isNaN = false := by
  simp [isFinite, isNaN] at h ⊢
  omega

theorem unitsOfMagnitude_eq_zero_iff (m : Nat) : unitsOfMagnitude m = 0 ↔ m = 0 := by
  have hzero : unitsOfMagnitude 0 = 0 := rfl
  have hpos := @strictMono_unitsOfMagnitude 0 m
  constructor
  · intro h
    omega
  · rintro rfl
    rfl

theorem rank_lt_iff (x y : Binary32) : x.rank < y.rank ↔ x.units < y.units := by
  have hlt := strictMono_unitsOfMagnitude.lt_iff_lt (a := x.magnitude) (b := y.magnitude)
  have hgt := strictMono_unitsOfMagnitude.lt_iff_lt (a := y.magnitude) (b := x.magnitude)
  have hx := unitsOfMagnitude_eq_zero_iff x.magnitude
  have hy := unitsOfMagnitude_eq_zero_iff y.magnitude
  simp only [rank, units, absUnits]
  split <;> split <;> omega

section

variable (hx : x.isFinite = true) (hy : y.isFinite = true)
include hx hy

theorem less_iff : x.less y = true ↔ x.units < y.units := by
  rw [less_iff_rank (isNaN_of_isFinite hx) (isNaN_of_isFinite hy), rank_lt_iff]

theorem atMost_iff : x.atMost y = true ↔ x.units ≤ y.units := by
  rw [atMost_iff_rank (isNaN_of_isFinite hx) (isNaN_of_isFinite hy), ← Int.not_lt, rank_lt_iff,
    Int.not_lt]

theorem equals_iff : x.equals y = true ↔ x.units = y.units := by
  have hlt := rank_lt_iff x y
  have hgt := rank_lt_iff y x
  rw [equals_iff_rank (isNaN_of_isFinite hx) (isNaN_of_isFinite hy)]
  omega

end

end WorldScript.Binary32
