import Mathlib.Algebra.Order.Field.Rat
import Mathlib.Tactic.FieldSimp
import Mathlib.Tactic.Linarith
import Mathlib.Tactic.NormNum
import Mathlib.Tactic.Positivity
import WorldScript.Proofs.Decimal.Shortest

/-!
Decimals are rounded to the nearest number. The numbers are measured as exact quotients, with the
infinite one where the next exponent would begin, and a decimal in the middle of two of them goes to
the one with the even magnitude.

Main statement: `isNearest_magnitude`.
-/
set_option autoImplicit false

namespace WorldScript

namespace Binary32

variable {q : ℚ} {m k : Nat}

/-- The value of a magnitude. The infinite one stands for 2 ^ 128. -/
def valueOfMagnitude (m : Nat) : ℚ := unitsOfMagnitude m / unitsPerOne

def toRat (x : Binary32) : ℚ := x.units / unitsPerOne

/-- Is no magnitude nearer to `q`, and no other one as near if `m` is odd? -/
structure IsNearest (q : ℚ) (m : Nat) : Prop where
  inRange : m ≤ infiniteMagnitude
  nearest : ∀ k ≤ infiniteMagnitude, |q - valueOfMagnitude m| ≤ |q - valueOfMagnitude k|
  even : ∀ k ≤ infiniteMagnitude, k ≠ m → |q - valueOfMagnitude m| = |q - valueOfMagnitude k| →
    m % 2 = 0

/-- Does `q` lie below the middle between the magnitude and the next one, or in the middle if the
magnitude is even? -/
def RoundsDown (q : ℚ) (m : Nat) : Prop :=
  2 * q < valueOfMagnitude m + valueOfMagnitude (m + 1) ∨
    2 * q = valueOfMagnitude m + valueOfMagnitude (m + 1) ∧ m % 2 = 0

theorem unitsPerOne_pos_rat : (0 : ℚ) < unitsPerOne := by exact_mod_cast unitsPerOne_pos

theorem strictMono_valueOfMagnitude : StrictMono valueOfMagnitude := fun m k h =>
  (div_lt_div_iff_of_pos_right unitsPerOne_pos_rat).2
    (by exact_mod_cast strictMono_unitsOfMagnitude h)

theorem valueOfMagnitude_nonneg (m : Nat) : 0 ≤ valueOfMagnitude m := by
  unfold valueOfMagnitude
  positivity

theorem valueOfMagnitude_infinite : valueOfMagnitude infiniteMagnitude = 2 ^ 128 := by
  have hunits : unitsOfMagnitude infiniteMagnitude = 2 ^ 128 * unitsPerOne := by decide
  have hpos := unitsPerOne_pos_rat
  rw [valueOfMagnitude, hunits, Nat.cast_mul, mul_div_cancel_right₀ _ (ne_of_gt hpos)]
  norm_num

theorem valueOfMagnitude_mul (m : Nat) : valueOfMagnitude m * unitsPerOne = unitsOfMagnitude m :=
  div_mul_cancel₀ _ (ne_of_gt unitsPerOne_pos_rat)

theorem roundsDown_iff {num den : Nat} (hden : 0 < den) (hq : (num : ℚ) = q * unitsPerOne * den) :
    RoundsDown q m ↔
      2 * num < (unitsOfMagnitude m + unitsOfMagnitude (m + 1)) * den ∨
        2 * num = (unitsOfMagnitude m + unitsOfMagnitude (m + 1)) * den ∧ m % 2 = 0 := by
  have hscale : (0 : ℚ) < unitsPerOne * den :=
    mul_pos unitsPerOne_pos_rat (by exact_mod_cast hden)
  have hnum : 2 * q * (unitsPerOne * den) = (2 * num : Nat) := by
    push_cast
    rw [hq]
    ring
  have hunits : (valueOfMagnitude m + valueOfMagnitude (m + 1)) * (unitsPerOne * den) =
      ((unitsOfMagnitude m + unitsOfMagnitude (m + 1)) * den : Nat) := by
    push_cast
    rw [← valueOfMagnitude_mul, ← valueOfMagnitude_mul]
    ring
  rw [RoundsDown, ← mul_lt_mul_iff_left₀ hscale, ← mul_left_inj' (ne_of_gt hscale), hnum, hunits,
    Nat.cast_lt, Nat.cast_inj]

theorem abs_sub_lt_of_middle_lt {a b : ℚ} (hab : b < a) (h : b + a < 2 * q) :
    |q - a| < |q - b| := by
  refine sq_lt_sq.1 ?_
  have hfactors : (q - b) ^ 2 - (q - a) ^ 2 = (a - b) * (2 * q - (b + a)) := by ring
  have hpos : 0 < (a - b) * (2 * q - (b + a)) := mul_pos (sub_pos.2 hab) (sub_pos.2 h)
  linarith

theorem abs_sub_lt_of_lt_middle {a b : ℚ} (hab : a < b) (h : 2 * q < a + b) :
    |q - a| < |q - b| := by
  refine sq_lt_sq.1 ?_
  have hfactors : (q - b) ^ 2 - (q - a) ^ 2 = (b - a) * (a + b - 2 * q) := by ring
  have hpos : 0 < (b - a) * (a + b - 2 * q) := mul_pos (sub_pos.2 hab) (sub_pos.2 h)
  linarith

theorem abs_sub_eq_of_middle {a b : ℚ} (h : 2 * q = a + b) : |q - a| = |q - b| := by
  have hsides : q - a = -(q - b) := by linarith
  rw [hsides, abs_neg]

/-- What tells the magnitudes below from the others tells which one is nearest. -/
theorem isNearest_of_le_iff (hm : m ≤ infiniteMagnitude)
    (h : ∀ k < infiniteMagnitude, m ≤ k ↔ RoundsDown q k) : IsNearest q m := by
  have hmono := strictMono_valueOfMagnitude
  have hother : ∀ k ≤ infiniteMagnitude, k ≠ m →
      |q - valueOfMagnitude m| < |q - valueOfMagnitude k| ∨
        |q - valueOfMagnitude m| = |q - valueOfMagnitude k| ∧ m % 2 = 0 := by
    intro k hk hne
    obtain hlt | hgt := Nat.lt_or_gt_of_ne hne
    · -- `q` has passed the middle before `m`
      obtain ⟨j, rfl⟩ := Nat.exists_eq_add_one_of_ne_zero (Nat.ne_zero_of_lt hlt)
      have hpassed : ¬RoundsDown q j := mt (h j hm).2 (Nat.not_succ_le_self j)
      simp only [RoundsDown, not_or, not_and, not_lt] at hpassed
      obtain ⟨hmiddle, htie⟩ := hpassed
      have hk : valueOfMagnitude k ≤ valueOfMagnitude j := hmono.monotone (Nat.le_of_lt_succ hlt)
      obtain hmore | hequal := lt_or_eq_of_le
        (show valueOfMagnitude k + valueOfMagnitude (j + 1) ≤ 2 * q by linarith)
      · exact .inl (abs_sub_lt_of_middle_lt (hmono hlt) hmore)
      · have hodd := htie (by linarith)
        exact .inr ⟨abs_sub_eq_of_middle (by linarith), by omega⟩
    · -- `q` has not passed the middle after `m`
      have hdown : RoundsDown q m := (h m (Nat.lt_of_lt_of_le hgt hk)).1 (Nat.le_refl m)
      have hk : valueOfMagnitude (m + 1) ≤ valueOfMagnitude k := hmono.monotone hgt
      obtain hless | ⟨hequal, heven⟩ := hdown
      · exact .inl (abs_sub_lt_of_lt_middle (hmono hgt) (by linarith))
      · obtain hless | hsame := lt_or_eq_of_le
          (show 2 * q ≤ valueOfMagnitude m + valueOfMagnitude k by linarith)
        · exact .inl (abs_sub_lt_of_lt_middle (hmono hgt) hless)
        · exact .inr ⟨abs_sub_eq_of_middle hsame, heven⟩
  refine ⟨hm, fun k hk => ?_, fun k hk hne heq => ?_⟩
  · by_cases hne : k = m
    · rw [hne]
    · obtain hlt | ⟨heq, -⟩ := hother k hk hne
      · exact hlt.le
      · exact heq.le
  · obtain hlt | ⟨-, heven⟩ := hother k hk hne
    · exact absurd heq hlt.ne
    · exact heven

end Binary32

namespace Decimal

open Binary32

variable {d : Decimal} {m : Nat}

def toRat (d : Decimal) : ℚ := d.coefficient * 10 ^ d.exponent

theorem cast_tenTo (k : Nat) : (tenTo k : ℚ) = 10 ^ (k : Int) := by
  rw [zpow_natCast, tenTo]
  exact Nat.cast_pow 10 k

theorem ratio_eq (d : Decimal) (scale : Nat) :
    ((d.ratio scale).1 : ℚ) = d.toRat * scale * (d.ratio scale).2 := by
  unfold ratio toRat
  by_cases he : 0 ≤ d.exponent
  · rw [if_pos he]
    push_cast
    rw [cast_tenTo, Int.toNat_of_nonneg he]
    ring
  · have hplaces : ((-d.exponent).toNat : Int) = -d.exponent := Int.toNat_of_nonneg (by omega)
    rw [if_neg he]
    push_cast
    rw [cast_tenTo, hplaces, zpow_neg]
    field_simp

theorem toRat_lt (d : Decimal) : d.toRat < 10 ^ d.order := by
  have hdigits : (d.coefficient : ℚ) < tenTo (digits d.coefficient).length := by
    exact_mod_cast lt_tenTo_length_digits d.coefficient
  rw [order, zpow_add₀ (by norm_num), ← cast_tenTo]
  exact mul_lt_mul_of_pos_right hdigits (zpow_pos (by norm_num) _)

theorem le_toRat (hd : 0 < d.coefficient) : 10 ^ (d.order - 1) ≤ d.toRat := by
  have hpos := length_digits_pos d.coefficient
  have hdigits : (tenTo ((digits d.coefficient).length - 1) : ℚ) ≤ d.coefficient := by
    exact_mod_cast tenTo_le_of_length_digits hd
  have hsplit : d.order - 1 = ((digits d.coefficient).length - 1 : Nat) + d.exponent := by
    rw [order]
    omega
  rw [hsplit, zpow_add₀ (by norm_num), ← cast_tenTo]
  exact mul_le_mul_of_nonneg_right hdigits (zpow_nonneg (by norm_num) _)

theorem magnitude_le_iff (hm : m < infiniteMagnitude) : d.magnitude ≤ m ↔ RoundsDown d.toRat m := by
  have hmono := strictMono_valueOfMagnitude
  have hnonneg := valueOfMagnitude_nonneg m
  have hnext : valueOfMagnitude m < valueOfMagnitude (m + 1) := hmono (Nat.lt_succ_self m)
  unfold magnitude
  by_cases hzero : d.coefficient = 0
  · have hvalue : d.toRat = 0 := by simp [toRat, hzero]
    rw [if_pos (by simp [hzero])]
    exact iff_of_true (Nat.zero_le m) (.inl (by linarith))
  have hpos : 0 < d.coefficient := Nat.pos_of_ne_zero hzero
  by_cases hsmall : d.order < -50
  · -- less than half of the least positive number
    have hleast : valueOfMagnitude 1 = 1 / 2 ^ 149 := by
      have hunits : unitsOfMagnitude 1 = 1 := rfl
      have hone : (unitsPerOne : ℚ) = 2 ^ 149 := by
        rw [unitsPerOne, Nat.shiftLeft_eq]
        norm_num
      rw [valueOfMagnitude, hunits, hone, Nat.cast_one]
    have hfirst : valueOfMagnitude 1 ≤ valueOfMagnitude (m + 1) :=
      hmono.monotone (Nat.le_add_left 1 m)
    have htiny : d.toRat < 1 / 10 ^ 50 := by
      refine lt_of_lt_of_le (toRat_lt d) ?_
      rw [one_div, ← zpow_natCast, ← zpow_neg]
      exact zpow_le_zpow_right₀ (by norm_num) (by push_cast; omega)
    rw [if_pos (by simp [hsmall])]
    refine iff_of_true (Nat.zero_le m) (.inl ?_)
    have hhalf : (2 : ℚ) * (1 / 10 ^ 50) < 1 / 2 ^ 149 := by norm_num
    linarith
  rw [if_neg (by simp [hzero, hsmall])]
  by_cases hlarge : 40 < d.order
  · -- more than where the numbers end
    have hlast : valueOfMagnitude (m + 1) ≤ 2 ^ 128 := by
      rw [← valueOfMagnitude_infinite]
      exact hmono.monotone hm
    have hhuge : (10 : ℚ) ^ 40 ≤ d.toRat := by
      refine le_trans ?_ (le_toRat hpos)
      rw [← zpow_natCast]
      exact zpow_le_zpow_right₀ (by norm_num) (by push_cast; omega)
    have hend : (2 : ℚ) ^ 128 < 10 ^ 40 := by norm_num
    rw [if_pos hlarge]
    refine iff_of_false (Nat.not_le.2 hm) ?_
    rintro (hless | ⟨hequal, -⟩) <;> linarith
  · rw [if_neg hlarge]
    exact (magnitudeOfRatio_le_iff (ratio_pos d unitsPerOne) hm).trans
      (roundsDown_iff (ratio_pos d unitsPerOne) (ratio_eq d unitsPerOne)).symm

/-- A decimal is rounded to the nearest number. -/
theorem isNearest_magnitude (d : Decimal) : IsNearest d.toRat d.magnitude :=
  isNearest_of_le_iff d.magnitude_le fun _ hk => magnitude_le_iff hk

end Decimal

end WorldScript
