import Mathlib.Tactic.Ring
import WorldScript.Decimal.Shortest
import WorldScript.Proofs.Binary32.Whole

/-!
The shortest decimal of a number reads back. The search over the grids only takes what reads back,
and the exact value, which it falls back on, does so because rounding does not move a number.

A decimal is read by its value alone: zeros that are moved from its digits to its exponent change
nothing.

Main statements: `magnitude_mul_tenTo` and `magnitude_shortest`.
-/
set_option autoImplicit false

namespace WorldScript

/-! ### Equal quotients -/

theorem roundDiv_mul_mul {k : Nat} (num den : Nat) (hk : 0 < k) :
    roundDiv (num * k) (den * k) = roundDiv num den := by
  have hless : 2 * (num % den * k) < den * k ↔ 2 * (num % den) < den := by
    rw [← Nat.mul_assoc, Nat.mul_lt_mul_right hk]
  have hmore : den * k < 2 * (num % den * k) ↔ den < 2 * (num % den) := by
    rw [← Nat.mul_assoc, Nat.mul_lt_mul_right hk]
  simp only [roundDiv, Nat.mul_div_mul_right _ _ hk, Nat.mul_mod_mul_right, hless, hmore]

namespace Binary32

theorem magnitudeOfRatio_mul_mul {k : Nat} (num den : Nat) (hk : 0 < k) :
    magnitudeOfRatio (num * k) (den * k) = magnitudeOfRatio num den := by
  have hshift : ∀ d, (den * k) <<< d = den <<< d * k := by
    intro d
    rw [Nat.shiftLeft_eq, Nat.shiftLeft_eq, Nat.mul_right_comm]
  simp only [magnitudeOfRatio, Nat.mul_div_mul_right _ _ hk, hshift, roundDiv_mul_mul _ _ hk]

theorem magnitudeOfRatio_congr {num den num' den' : Nat} (hden : 0 < den) (hden' : 0 < den')
    (h : num * den' = num' * den) : magnitudeOfRatio num den = magnitudeOfRatio num' den' := by
  rw [← magnitudeOfRatio_mul_mul num den hden', ← magnitudeOfRatio_mul_mul num' den' hden, h,
    Nat.mul_comm den']

theorem unitsOfMagnitude_lt {m : Nat} (h : m < infiniteMagnitude) :
    unitsOfMagnitude m < 1 <<< 277 :=
  Nat.lt_of_lt_of_eq (strictMono_unitsOfMagnitude h) (by decide)

end Binary32

namespace Decimal

open Binary32

/-! ### Digits -/

theorem tenTo_pos (k : Nat) : 0 < tenTo k := Nat.pow_pos (by decide)

theorem tenTo_succ (k : Nat) : tenTo (k + 1) = tenTo k * 10 := Nat.pow_succ ..

theorem tenTo_add (j k : Nat) : tenTo (j + k) = tenTo j * tenTo k := Nat.pow_add ..

theorem tenTo_le_tenTo {j k : Nat} (h : j ≤ k) : tenTo j ≤ tenTo k :=
  Nat.pow_le_pow_right (by decide) h

theorem length_digits_pos (n : Nat) : 0 < (digits n).length :=
  List.length_pos_iff.2 (digits_ne_nil n)

theorem digits_mul_ten {n : Nat} (hn : 0 < n) : digits (n * 10) = digits n ++ ['0'] := by
  have hlarge : ¬n * 10 < 10 := by omega
  have hdiv : n * 10 / 10 = n := by omega
  have hmod : n * 10 % 10 = 0 := by omega
  rw [digits, dif_neg hlarge]
  simp only [hdiv, hmod]
  rfl

theorem digits_mul_tenTo {n : Nat} (hn : 0 < n) (k : Nat) :
    digits (n * tenTo k) = digits n ++ List.replicate k '0' := by
  induction k with
  | zero => simp [tenTo]
  | succ k ih =>
    rw [tenTo_succ, ← Nat.mul_assoc, digits_mul_ten (Nat.mul_pos hn (tenTo_pos k)), ih,
      List.append_assoc, List.replicate_succ']

theorem lt_tenTo_length_digits (n : Nat) : n < tenTo (digits n).length := by
  induction n using digits.induct with
  | case1 n hn =>
    rw [digits, dif_pos hn]
    exact hn
  | case2 n hn _ ih =>
    rw [digits, dif_neg hn, List.length_append, List.length_singleton, tenTo_succ]
    omega

theorem tenTo_le_of_length_digits {n : Nat} (hn : 0 < n) :
    tenTo ((digits n).length - 1) ≤ n := by
  induction n using digits.induct with
  | case1 n hsmall =>
    rw [digits, dif_pos hsmall]
    exact hn
  | case2 n hlarge _ ih =>
    have hrest := ih (by omega)
    have hpos := length_digits_pos (n / 10)
    rw [digits, dif_neg hlarge, List.length_append, List.length_singleton, Nat.add_sub_cancel,
      ← Nat.succ_pred_eq_of_pos hpos, Nat.pred_eq_sub_one, Nat.succ_eq_add_one, tenTo_succ]
    omega

theorem length_digits_le {n k : Nat} (hk : 0 < k) (h : n < tenTo k) : (digits n).length ≤ k := by
  by_contra hlong
  cases n with
  | zero => exact absurd hk (by simp [digits] at hlong; omega)
  | succ n =>
    have hlow := tenTo_le_of_length_digits (n := n + 1) (by omega)
    have hmono := tenTo_le_tenTo (j := k) (k := (digits (n + 1)).length - 1) (by omega)
    omega

theorem lt_length_digits {n k : Nat} (h : tenTo k ≤ n) : k < (digits n).length := by
  by_contra hshort
  have hhigh := lt_tenTo_length_digits n
  have hmono := tenTo_le_tenTo (Nat.not_lt.1 hshort)
  omega

theorem ofDigits_append_zeros (cs : List Char) (k : Nat) :
    ofDigits (cs ++ List.replicate k '0') = ofDigits cs * tenTo k := by
  induction k with
  | zero => simp [tenTo]
  | succ k ih =>
    have hzero : digitValue '0' = 0 := rfl
    rw [List.replicate_succ', ← List.append_assoc, ofDigits_append_singleton, ih, tenTo_succ,
      hzero, Nat.add_zero, Nat.mul_assoc]

theorem ofDigits_zeros_append (k : Nat) (cs : List Char) :
    ofDigits (List.replicate k '0' ++ cs) = ofDigits cs := by
  have hzeros : ofDigits (List.replicate k '0') = 0 := by
    simpa [ofDigits] using ofDigits_append_zeros [] k
  unfold ofDigits at *
  rw [List.foldl_append, hzeros]

/-! ### Reading by value -/

theorem ratio_pos (d : Decimal) (scale : Nat) : 0 < (d.ratio scale).2 := by
  unfold ratio
  split
  · exact Nat.one_pos
  · exact tenTo_pos _

theorem ratio_mul_tenTo (c k : Nat) (e : Int) (scale : Nat) :
    ((Decimal.mk (c * tenTo k) e).ratio scale).1 * ((Decimal.mk c (e + k)).ratio scale).2 =
      ((Decimal.mk c (e + k)).ratio scale).1 * ((Decimal.mk (c * tenTo k) e).ratio scale).2 := by
  simp only [ratio]
  by_cases he : 0 ≤ e
  · have hsum : (e + k).toNat = k + e.toNat := by omega
    rw [if_pos he, if_pos (by omega), hsum, tenTo_add]
    ring
  · rw [if_neg he]
    by_cases hle : 0 ≤ e + k
    · have hsum : k = (e + k).toNat + (-e).toNat := by omega
      have hparts : tenTo k = tenTo (e + k).toNat * tenTo (-e).toNat := by
        rw [← tenTo_add, ← hsum]
      rw [if_pos hle, hparts]
      ring
    · have hsum : (-e).toNat = k + (-(e + k)).toNat := by omega
      rw [if_neg hle, hsum, tenTo_add]
      ring

theorem magnitude_mul_tenTo (c k : Nat) (e : Int) :
    (Decimal.mk (c * tenTo k) e).magnitude = (Decimal.mk c (e + k)).magnitude := by
  rcases Nat.eq_zero_or_pos c with rfl | hc
  · simp [magnitude]
  have hpos : 0 < c * tenTo k := Nat.mul_pos hc (tenTo_pos k)
  have horder : (Decimal.mk (c * tenTo k) e).order = (Decimal.mk c (e + k)).order := by
    simp only [order, digits_mul_tenTo hc, List.length_append, List.length_replicate]
    omega
  have hvalue := magnitudeOfRatio_congr (ratio_pos _ unitsPerOne) (ratio_pos _ unitsPerOne)
    (ratio_mul_tenTo c k e unitsPerOne)
  unfold magnitude
  simp only [horder, hvalue, Nat.ne_of_gt hpos, Nat.ne_of_gt hc]

theorem magnitude_exact {m : Nat} (hpos : 0 < m) (hm : m < infiniteMagnitude) :
    (exact m).magnitude = m := by
  have hunits : 0 < unitsOfMagnitude m :=
    Nat.pos_of_ne_zero fun hzero => Nat.ne_of_gt hpos ((unitsOfMagnitude_eq_zero_iff m).1 hzero)
  have hlimit := unitsOfMagnitude_lt hm
  have hvalue : (exact m).ratio unitsPerOne =
      (unitsOfMagnitude m * Nat.pow 5 149 * unitsPerOne, tenTo 149) := rfl
  have hexact : magnitudeOfRatio (unitsOfMagnitude m * Nat.pow 5 149 * unitsPerOne) (tenTo 149) =
      magnitudeOfRatio (unitsOfMagnitude m) 1 := by
    have hunit : Nat.pow 5 149 * unitsPerOne = tenTo 149 := by decide
    refine magnitudeOfRatio_congr (tenTo_pos 149) Nat.one_pos ?_
    rw [Nat.mul_one, Nat.mul_assoc, hunit]
  have hcoefficient : (exact m).coefficient = unitsOfMagnitude m * Nat.pow 5 149 := rfl
  have hlong : 98 < (digits (exact m).coefficient).length := by
    have hsmallest : tenTo 98 ≤ Nat.pow 5 149 := by decide
    refine lt_length_digits (Nat.le_trans hsmallest ?_)
    rw [hcoefficient]
    exact Nat.le_mul_of_pos_left _ hunits
  have hshort : (digits (exact m).coefficient).length ≤ 188 := by
    have hlargest : 1 <<< 277 * Nat.pow 5 149 ≤ tenTo 188 := by decide
    refine length_digits_le (by decide) (Nat.lt_of_lt_of_le ?_ hlargest)
    rw [hcoefficient]
    exact Nat.mul_lt_mul_of_pos_right hlimit (by decide)
  have hexponent : (exact m).exponent = -149 := rfl
  have hsome : (exact m).coefficient ≠ 0 := by
    rw [hcoefficient]
    exact Nat.ne_of_gt (Nat.mul_pos hunits (by decide))
  rw [magnitude, if_neg, if_neg, hvalue]
  · exact hexact.trans (magnitudeOfRatio_units hm)
  · rw [order, hexponent]
    omega
  · rw [order, hexponent, Bool.or_eq_true, decide_eq_true_eq, decide_eq_true_eq]
    omega

theorem magnitude_whole {n m : Nat} (hpos : 0 < n) (hm : m < infiniteMagnitude)
    (h : n * unitsPerOne = unitsOfMagnitude m) : (Decimal.mk n 0).magnitude = m := by
  have hshort : (digits n).length ≤ 39 := by
    have hlimit := unitsOfMagnitude_lt hm
    have hlargest : 1 <<< 277 ≤ tenTo 39 * unitsPerOne := by decide
    refine length_digits_le (by decide) (Nat.lt_of_mul_lt_mul_right (a := unitsPerOne) ?_)
    omega
  have hvalue : (Decimal.mk n 0).ratio unitsPerOne = (n * tenTo 0 * unitsPerOne, 1) := rfl
  have hone : n * tenTo 0 = n := Nat.mul_one n
  rw [magnitude, if_neg, if_neg, hvalue, hone, h]
  · exact magnitudeOfRatio_units hm
  · rw [order]
    dsimp only
    omega
  · rw [order, Bool.or_eq_true, decide_eq_true_eq, decide_eq_true_eq]
    dsimp only
    omega

theorem unitsPerOne_dvd_magnitude {d : Decimal} (he : 0 ≤ d.exponent)
    (hd : d.magnitude < infiniteMagnitude) : unitsPerOne ∣ unitsOfMagnitude d.magnitude := by
  unfold magnitude at hd ⊢
  split
  · exact Nat.dvd_zero _
  · rename_i hsize
    rw [if_neg hsize] at hd
    split
    · rename_i hlarge
      rw [if_pos hlarge] at hd
      exact absurd hd (Nat.lt_irrefl _)
    · rw [ratio, if_pos he]
      exact unitsPerOne_dvd_magnitudeOfRatio _

/-- The shortest decimal of a number reads back as the number. -/
theorem magnitude_shortest {m : Nat} (hpos : 0 < m) (hm : m < infiniteMagnitude) :
    (shortest m).magnitude = m := by
  unfold shortest
  dsimp only
  cases hgrid : (List.range 9).findSome? fun (k : Nat) => onGrid? m (orderOf m - 1 - k) with
  | none => exact magnitude_exact hpos hm
  | some d =>
    rw [Option.getD_some]
    obtain ⟨k, -, hk⟩ := List.exists_of_findSome?_eq_some hgrid
    exact magnitude_of_onGrid? hk

end Decimal

end WorldScript
