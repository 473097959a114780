import Mathlib.Order.MinMax
import Mathlib.Order.Monotone.Basic
import WorldScript.Binary32.Arithmetic

/-!
Rounding to the nearest number. The value of a magnitude grows with it, and a quotient is rounded
down to a magnitude or below just when it lies below the middle between this magnitude and the next
one, or in the middle if the magnitude is even. That rounding keeps the order, and does not move
what is a number already, follows from this.

Main statement: `magnitudeOfRatio_le_iff`.
-/
set_option autoImplicit false

namespace WorldScript.Binary32

/-! ### The units of a magnitude -/

/-- A significand of up to 24 bits that is shifted by `d` places. The magnitude after the largest one
of these is the first of the next exponent, and stands for as many units as if it were not. -/
theorem unitsOfMagnitude_add {d q : Nat} (hd : d = 0 ∨ leadingOne ≤ q)
    (hq : q ≤ 2 * leadingOne) : unitsOfMagnitude (d * leadingOne + q) = q <<< d := by
  unfold unitsOfMagnitude leadingOne
  unfold leadingOne at hd hq
  by_cases hsmall : q < 0x800000
  · obtain rfl : d = 0 := by omega
    rw [if_pos (by omega)]
    simp
  · rw [if_neg (by omega)]
    by_cases htop : q = 2 * 0x800000
    · have hmod : (d * 0x800000 + q) % 0x800000 = 0 := by omega
      have hdiv : (d * 0x800000 + q) / 0x800000 - 1 = d + 1 := by omega
      rw [hmod, hdiv, htop, Nat.shiftLeft_succ_inside]
    · have hmod : 0x800000 + (d * 0x800000 + q) % 0x800000 = q := by omega
      have hdiv : (d * 0x800000 + q) / 0x800000 - 1 = d := by omega
      rw [hmod, hdiv]

theorem exists_significand (m : Nat) :
    ∃ d q, m = d * leadingOne + q ∧ (d = 0 ∨ leadingOne ≤ q) ∧ q < 2 * leadingOne := by
  refine ⟨m / leadingOne - 1, m - (m / leadingOne - 1) * leadingOne, ?_⟩
  unfold leadingOne
  omega

theorem unitsOfMagnitude_lt_succ (m : Nat) : unitsOfMagnitude m < unitsOfMagnitude (m + 1) := by
  obtain ⟨d, q, rfl, hd, hq⟩ := exists_significand m
  rw [Nat.add_assoc, unitsOfMagnitude_add hd (by omega), unitsOfMagnitude_add (by omega) (by omega),
    Nat.shiftLeft_eq, Nat.shiftLeft_eq]
  exact Nat.mul_lt_mul_of_pos_right (Nat.lt_succ_self q) (Nat.two_pow_pos d)

theorem strictMono_unitsOfMagnitude : StrictMono unitsOfMagnitude :=
  strictMono_nat_of_lt_succ unitsOfMagnitude_lt_succ

/-! ### The nearest magnitude -/

theorem roundDiv_bounds (num den : Nat) :
    num / den ≤ roundDiv num den ∧ roundDiv num den ≤ num / den + 1 := by
  simp only [roundDiv]
  split
  · omega
  · split <;> omega

/-- Rounded down to `q` or below is what lies below the middle between `q` and the next number, or in
the middle if `q` is even. -/
theorem roundDiv_le_iff {num den q : Nat} (hden : 0 < den) :
    roundDiv num den ≤ q ↔
      2 * num < (2 * q + 1) * den ∨ 2 * num = (2 * q + 1) * den ∧ q % 2 = 0 := by
  obtain ⟨hlow, hhigh⟩ := roundDiv_bounds num den
  have hnum := Nat.div_add_mod' num den
  have hrest := Nat.mod_lt num hden
  rw [Nat.add_mul, Nat.one_mul, Nat.mul_assoc]
  obtain h | rfl | h := Nat.lt_trichotomy (num / den) q
  · have hle : (num / den + 1) * den ≤ q * den := Nat.mul_le_mul_right den h
    rw [Nat.add_mul, Nat.one_mul] at hle
    omega
  · simp only [roundDiv]
    split
    · omega
    · split <;> omega
  · have hle : (q + 1) * den ≤ num / den * den := Nat.mul_le_mul_right den h
    rw [Nat.add_mul, Nat.one_mul] at hle
    omega

theorem excess_bounds (n : Nat) :
    (excess n = 0 ∨ leadingOne <<< excess n ≤ n) ∧ n < (2 * leadingOne) <<< excess n := by
  have hlow : n ≠ 0 → 2 ^ n.log2 ≤ n := Nat.log2_self_le
  have hhigh : n < 2 ^ (n.log2 + 1) := Nat.lt_log2_self
  have hone : leadingOne = 2 ^ 23 := rfl
  unfold excess
  rw [Nat.shiftLeft_eq, Nat.shiftLeft_eq]
  by_cases h : n.log2 ≤ 23
  · have hpow : 2 ^ (n.log2 + 1) ≤ 2 ^ 24 := Nat.pow_le_pow_right (by decide) (by omega)
    rw [Nat.sub_eq_zero_of_le h]
    exact ⟨.inl rfl, by omega⟩
  · have hsplit : 2 ^ n.log2 = leadingOne * 2 ^ (n.log2 - 23) := by
      rw [hone, ← Nat.pow_add]
      congr 1
      omega
    have hn : n ≠ 0 := by
      rintro rfl
      exact h (by decide)
    rw [Nat.pow_succ, hsplit] at hhigh
    rw [hsplit] at hlow
    exact ⟨.inr (hlow hn), by rw [Nat.mul_assoc]; omega⟩

theorem shiftLeft_mul (n d den : Nat) : n <<< d * den = n * (den <<< d) := by
  rw [Nat.shiftLeft_eq, Nat.shiftLeft_eq, Nat.mul_assoc, Nat.mul_comm den]

theorem excess_bounds_div {num den : Nat} (hden : 0 < den) :
    (excess (num / den) = 0 ∨ leadingOne * (den <<< excess (num / den)) ≤ num) ∧
      num < 2 * leadingOne * (den <<< excess (num / den)) := by
  obtain ⟨hlow, hhigh⟩ := excess_bounds (num / den)
  rw [Nat.le_div_iff_mul_le hden, shiftLeft_mul] at hlow
  rw [Nat.div_lt_iff_lt_mul hden, shiftLeft_mul] at hhigh
  exact ⟨hlow, hhigh⟩

/-- Rounding is to the nearest magnitude, and from the middle between two of them to the even one. -/
theorem magnitudeOfRatio_le_iff {num den m : Nat} (hden : 0 < den) (hm : m < infiniteMagnitude) :
    magnitudeOfRatio num den ≤ m ↔
      2 * num < (unitsOfMagnitude m + unitsOfMagnitude (m + 1)) * den ∨
        2 * num = (unitsOfMagnitude m + unitsOfMagnitude (m + 1)) * den ∧ m % 2 = 0 := by
  obtain ⟨hlow, hhigh⟩ := @excess_bounds_div num den hden
  simp only [magnitudeOfRatio]
  generalize excess (num / den) = d at hlow hhigh ⊢
  have hpos : 0 < den <<< d := by
    rw [Nat.shiftLeft_eq]
    exact Nat.mul_pos hden (Nat.two_pow_pos d)
  obtain ⟨hdown, hup⟩ := roundDiv_bounds num (den <<< d)
  have hmono := strictMono_unitsOfMagnitude.monotone
  have hnext := unitsOfMagnitude_lt_succ m
  rw [min_le_iff, or_iff_left (Nat.not_le.2 hm)]
  by_cases hbefore : d ≠ 0 ∧ m < d * leadingOne + leadingOne
  · -- the magnitude has a smaller exponent than the quotient
    obtain ⟨hd, hbefore⟩ := hbefore
    have hnum : leadingOne * (den <<< d) ≤ num := hlow.resolve_left hd
    have hkept : leadingOne ≤ num / (den <<< d) := (Nat.le_div_iff_mul_le hpos).2 hnum
    have hunits : unitsOfMagnitude (m + 1) ≤ leadingOne <<< d := by
      rw [← unitsOfMagnitude_add (.inr (Nat.le_refl _)) (by omega)]
      exact hmono hbefore
    have hsum : (unitsOfMagnitude m + unitsOfMagnitude (m + 1)) * den <
        (leadingOne <<< d + leadingOne <<< d) * den :=
      Nat.mul_lt_mul_of_pos_right (by omega) hden
    rw [Nat.add_mul (leadingOne <<< d), shiftLeft_mul] at hsum
    exact iff_of_false (by omega) (by omega)
  · by_cases hafter : d * leadingOne + 2 * leadingOne ≤ m
    · -- the magnitude has a larger exponent than the quotient
      have hkept : num / (den <<< d) < 2 * leadingOne := (Nat.div_lt_iff_lt_mul hpos).2 hhigh
      have hunits : (2 * leadingOne) <<< d ≤ unitsOfMagnitude m := by
        rw [← unitsOfMagnitude_add (.inr (by omega)) (Nat.le_refl _)]
        exact hmono hafter
      have hsum : ((2 * leadingOne) <<< d + (2 * leadingOne) <<< d) * den <
          (unitsOfMagnitude m + unitsOfMagnitude (m + 1)) * den :=
        Nat.mul_lt_mul_of_pos_right (by omega) hden
      rw [Nat.add_mul ((2 * leadingOne) <<< d), shiftLeft_mul] at hsum
      exact iff_of_true (by omega) (by omega)
    · have hstart : d * leadingOne ≤ m := by
        unfold leadingOne at hbefore ⊢
        omega
      obtain ⟨k, rfl⟩ := Nat.exists_eq_add_of_le hstart
      have hsum : (unitsOfMagnitude (d * leadingOne + k) +
          unitsOfMagnitude (d * leadingOne + k + 1)) * den = (2 * k + 1) * (den <<< d) := by
        rw [Nat.add_assoc, unitsOfMagnitude_add (by omega) (by omega),
          unitsOfMagnitude_add (by omega) (by omega), Nat.add_mul, shiftLeft_mul, shiftLeft_mul,
          ← Nat.add_mul]
        congr 1
        omega
      have hparity : (d * leadingOne + k) % 2 = k % 2 := by
        unfold leadingOne
        omega
      rw [hsum, hparity, Nat.add_le_add_iff_left]
      exact roundDiv_le_iff hpos

/-! ### What follows for numbers -/

variable {num num' den m : Nat}

theorem magnitudeOfRatio_mono (hden : 0 < den) (h : num ≤ num') :
    magnitudeOfRatio num den ≤ magnitudeOfRatio num' den := by
  by_cases hm : magnitudeOfRatio num' den < infiniteMagnitude
  · rw [magnitudeOfRatio_le_iff hden hm]
    have hself := (magnitudeOfRatio_le_iff hden hm).1 (Nat.le_refl _)
    omega
  · exact Nat.le_trans (magnitudeOfRatio_le num den) (Nat.not_lt.1 hm)

theorem magnitudeOfRatio_units (hm : m < infiniteMagnitude) :
    magnitudeOfRatio (unitsOfMagnitude m) 1 = m := by
  refine Nat.le_antisymm ?_ ?_
  · have hnext := unitsOfMagnitude_lt_succ m
    rw [magnitudeOfRatio_le_iff Nat.one_pos hm]
    omega
  · cases m with
    | zero => exact Nat.zero_le _
    | succ k =>
      have hprev := unitsOfMagnitude_lt_succ k
      have habove : ¬magnitudeOfRatio (unitsOfMagnitude (k + 1)) 1 ≤ k := by
        rw [magnitudeOfRatio_le_iff Nat.one_pos (by omega)]
        omega
      omega

end WorldScript.Binary32
