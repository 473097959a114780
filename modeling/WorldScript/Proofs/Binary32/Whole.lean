import WorldScript.Proofs.Binary32.Order

/-!
Whole numbers. A number without a fraction is the one that its integer is rounded to, integers of up
to 24 bits are numbers as they are, and no natural number of up to 32 bits has a fraction after it is
rounded. Which natural numbers are below a number is told by the middle between this number and the
one before it.

Main statements: `equals_ofInt_truncate`, `units_ofInt`, `isIntegral_ofInt` and `ofInt_less_iff`.
-/
set_option autoImplicit false

namespace WorldScript.Binary32

variable {x : Binary32}

theorem unitsPerOne_pos : 0 < unitsPerOne := by decide

theorem mul_unitsPerOne (n : Nat) : n * unitsPerOne = n <<< 149 := by
  rw [unitsPerOne, Nat.shiftLeft_eq, Nat.shiftLeft_eq, Nat.one_mul]

theorem infiniteMagnitude_lt_signBit : infiniteMagnitude < signBit := by decide

theorem magnitudeOfRatio_lt_signBit (num den : Nat) : magnitudeOfRatio num den < signBit :=
  Nat.lt_of_le_of_lt (magnitudeOfRatio_le _ _) infiniteMagnitude_lt_signBit

/-! ### Units that are those of a number -/

theorem natAbs_units (x : Binary32) : x.units.natAbs = x.absUnits := by
  unfold units
  split <;> omega

theorem units_ofUnits {n : Int} {m : Nat} (hm : m < infiniteMagnitude)
    (h : unitsOfMagnitude m = n.natAbs) : (ofUnits n).isFinite = true ∧ (ofUnits n).units = n := by
  have hsign : m < signBit := Nat.lt_trans hm infiniteMagnitude_lt_signBit
  have heq : ofUnits n = ofMagnitude (decide (n < 0)) m := by
    rw [ofUnits, ofRatio, ← h, magnitudeOfRatio_units hm]
  have hmagnitude : (ofUnits n).magnitude = m := by rw [heq, magnitude_ofMagnitude hsign]
  have hnegative : (ofUnits n).isNegative = decide (n < 0) := by
    rw [heq, isNegative_ofMagnitude hsign]
  constructor
  · simpa [isFinite, hmagnitude] using hm
  · simp only [units, absUnits, hmagnitude, hnegative, h, decide_eq_true_eq]
    split <;> omega

theorem isFinite_iff : x.isFinite = true ↔ x.magnitude < infiniteMagnitude := by
  simp [isFinite]

theorem equals_ofUnits_units (h : x.isFinite = true) : (ofUnits x.units).equals x = true := by
  obtain ⟨hfinite, hunits⟩ := units_ofUnits (isFinite_iff.1 h) (natAbs_units x).symm
  exact (equals_iff hfinite h).2 hunits

/-! ### Numbers without a fraction -/

theorem isIntegral_iff :
    x.isIntegral = true ↔ x.isFinite = true ∧ unitsPerOne ∣ x.absUnits := by
  simp [isIntegral, Nat.dvd_iff_mod_eq_zero]

theorem truncate_mul_unitsPerOne (h : x.isIntegral = true) :
    x.truncate * unitsPerOne = x.units := by
  have hdvd : (unitsPerOne : Int) ∣ x.units := by
    rw [Int.ofNat_dvd_left, natAbs_units]
    exact (isIntegral_iff.1 h).2
  exact Int.tdiv_mul_cancel hdvd

theorem equals_ofInt_truncate (h : x.isIntegral = true) :
    (ofInt x.truncate).equals x = true := by
  rw [ofInt, truncate_mul_unitsPerOne h]
  exact equals_ofUnits_units (isIntegral_iff.1 h).1

theorem clamp_of_isFinite (h : x.isFinite = true) (low high : Int) :
    x.clamp low high = max low (min high x.truncate) := by
  have hinfinite : x.isInfinite = false := by
    simp [isFinite] at h
    simp [isInfinite]
    omega
  rw [clamp, isNaN_of_isFinite h, hinfinite, if_neg Bool.false_ne_true, if_neg Bool.false_ne_true]

theorem toNat_toUInt32 (h : x.isFinite = true) :
    (x.toUInt32.toNat : Int) = max 0 (min 0xffffffff x.truncate) := by
  have hsize : UInt32.size = 0x100000000 := rfl
  rw [toUInt32, clamp_of_isFinite h, hsize, UInt32.toNat_ofNat']
  omega

theorem toInt_toInt32 (h : x.isFinite = true) :
    x.toInt32.toInt = max (-0x80000000) (min 0x7fffffff x.truncate) := by
  have hmin : Int32.minValue.toInt = -0x80000000 := rfl
  have hmax : Int32.maxValue.toInt = 0x7fffffff := rfl
  rw [toInt32, clamp_of_isFinite h, hmin, hmax]
  exact Int32.toInt_ofInt_of_le (by omega) (by omega)

/-! ### Natural numbers as numbers -/

theorem unitsPerOne_dvd {m : Nat} (h : 150 * leadingOne ≤ m) : unitsPerOne ∣ unitsOfMagnitude m := by
  obtain ⟨d, q, rfl, hd, hq⟩ := exists_significand m
  have hle : 149 ≤ d := by
    unfold leadingOne at h hq
    omega
  obtain ⟨k, rfl⟩ := Nat.exists_eq_add_of_le hle
  rw [unitsOfMagnitude_add hd (Nat.le_of_lt hq), Nat.add_comm, Nat.shiftLeft_add, ← mul_unitsPerOne]
  exact Nat.dvd_mul_left _ _

theorem exists_magnitude {n : Nat} (h : n < 2 * leadingOne) :
    ∃ m < infiniteMagnitude, unitsOfMagnitude m = n * unitsPerOne := by
  obtain ⟨hlow, hhigh⟩ := excess_bounds (n * unitsPerOne)
  generalize excess (n * unitsPerOne) = d at hlow hhigh
  rw [mul_unitsPerOne, Nat.shiftLeft_eq] at hlow hhigh
  rw [Nat.shiftLeft_eq] at hlow hhigh
  have hle : d ≤ 149 := by
    by_contra hgt
    have hd : 2 ^ 150 ≤ 2 ^ d := Nat.pow_le_pow_right (by decide) (by omega)
    have hpow : leadingOne * 2 ^ 150 ≤ leadingOne * 2 ^ d := Nat.mul_le_mul_left _ hd
    have hn : n * 2 ^ 149 < 2 * leadingOne * 2 ^ 149 :=
      Nat.mul_lt_mul_of_pos_right h (Nat.two_pow_pos 149)
    omega
  obtain ⟨k, hk⟩ := Nat.exists_eq_add_of_le hle
  have hsplit : n * 2 ^ 149 = n <<< k * 2 ^ d := by
    rw [hk, Nat.shiftLeft_eq, Nat.mul_assoc, ← Nat.pow_add, Nat.add_comm k]
  rw [hsplit] at hlow hhigh
  have hbits : d = 0 ∨ leadingOne ≤ n <<< k :=
    hlow.imp_right fun hle => Nat.le_of_mul_le_mul_right hle (Nat.two_pow_pos d)
  have htop : n <<< k < 2 * leadingOne := Nat.lt_of_mul_lt_mul_right hhigh
  refine ⟨d * leadingOne + n <<< k, ?_, ?_⟩
  · unfold infiniteMagnitude
    unfold leadingOne at htop ⊢
    omega
  · rw [unitsOfMagnitude_add hbits (Nat.le_of_lt htop), mul_unitsPerOne, hk, Nat.add_comm d,
      Nat.shiftLeft_add]

section

variable (n : Nat)

theorem ofInt_natCast : ofInt n = ofMagnitude false (magnitudeOfRatio (n * unitsPerOne) 1) := by
  have hsign : ¬(n : Int) * unitsPerOne < 0 := by
    rw [← Int.natCast_mul]
    exact Int.not_lt.2 (Int.natCast_nonneg _)
  have hunits : ((n : Int) * unitsPerOne).natAbs = n * unitsPerOne := by
    rw [← Int.natCast_mul, Int.natAbs_natCast]
  rw [ofInt, ofUnits, ofRatio, hunits, decide_eq_false hsign]

theorem magnitude_ofInt : (ofInt n).magnitude = magnitudeOfRatio (n * unitsPerOne) 1 := by
  rw [ofInt_natCast, magnitude_ofMagnitude (magnitudeOfRatio_lt_signBit _ _)]

theorem isNegative_ofInt : (ofInt n).isNegative = false := by
  rw [ofInt_natCast, isNegative_ofMagnitude (magnitudeOfRatio_lt_signBit _ _)]

theorem isNaN_ofInt : (ofInt n).isNaN = false := isNaN_ofRatio _ _ _

end

theorem magnitude_ofInt_mono {n k : Nat} (h : n ≤ k) :
    (ofInt n).magnitude ≤ (ofInt k).magnitude := by
  rw [magnitude_ofInt, magnitude_ofInt]
  exact magnitudeOfRatio_mono Nat.one_pos (Nat.mul_le_mul_right _ h)

theorem units_ofInt {n : Nat} (h : n < 2 * leadingOne) :
    (ofInt n).isFinite = true ∧ (ofInt n).units = n * unitsPerOne := by
  obtain ⟨m, hm, hunits⟩ := exists_magnitude h
  refine units_ofUnits hm ?_
  rw [hunits, ← Int.natCast_mul, Int.natAbs_natCast]

theorem unitsOfMagnitude_whole {j q : Nat} (hq : leadingOne ≤ q) (htop : q ≤ 2 * leadingOne) :
    unitsOfMagnitude ((149 + j) * leadingOne + q) = q <<< j * unitsPerOne := by
  rw [unitsOfMagnitude_add (.inr hq) htop, mul_unitsPerOne, Nat.add_comm, Nat.shiftLeft_add]

theorem magnitude_ofInt_shiftLeft {j : Nat} (h : j < 105) :
    (ofInt ((leadingOne <<< j : Nat) : Int)).magnitude = (150 + j) * leadingOne := by
  have hunits : unitsOfMagnitude ((150 + j) * leadingOne) = leadingOne <<< j * unitsPerOne := by
    have hsplit : (150 + j) * leadingOne = (149 + j) * leadingOne + leadingOne := by
      unfold leadingOne
      omega
    rw [hsplit, unitsOfMagnitude_whole (Nat.le_refl _) (by omega)]
  rw [magnitude_ofInt, ← hunits]
  refine magnitudeOfRatio_units ?_
  unfold infiniteMagnitude leadingOne
  omega

theorem unitsPerOne_dvd_magnitudeOfRatio (n : Nat) :
    unitsPerOne ∣ unitsOfMagnitude (magnitudeOfRatio (n * unitsPerOne) 1) := by
  by_cases hn : n < 2 * leadingOne
  · obtain ⟨m, hm, hunits⟩ := exists_magnitude hn
    rw [← hunits, magnitudeOfRatio_units hm, hunits]
    exact Nat.dvd_mul_left _ _
  · refine unitsPerOne_dvd ?_
    have hlarge : leadingOne <<< 0 ≤ n := by
      rw [Nat.shiftLeft_zero]
      omega
    have hle := magnitude_ofInt_mono hlarge
    rwa [magnitude_ofInt_shiftLeft (by decide), magnitude_ofInt] at hle

theorem isIntegral_ofInt {n : Nat} (h : n ≤ 0x100000000) : (ofInt n).isIntegral = true := by
  rw [isIntegral_iff]
  have hfinite : (ofInt n).isFinite = true := by
    have hle := magnitude_ofInt_mono (k := leadingOne <<< 9) h
    rw [magnitude_ofInt_shiftLeft (by decide)] at hle
    rw [isFinite_iff]
    unfold infiniteMagnitude
    unfold leadingOne at hle ⊢
    omega
  refine ⟨hfinite, ?_⟩
  rw [absUnits, magnitude_ofInt]
  exact unitsPerOne_dvd_magnitudeOfRatio n

/-! ### Natural numbers below a number -/

theorem truncate_of_nonneg (hsign : x.isNegative = false) :
    x.truncate = ((x.absUnits / unitsPerOne : Nat) : Int) := by
  rw [truncate, units, hsign, if_neg Bool.false_ne_true, Int.ofNat_tdiv]

theorem isNegative_of_one_atMost (hx : x.isFinite = true) (hone : one.atMost x = true) :
    x.isNegative = false ∧ unitsPerOne ≤ x.absUnits := by
  have hle := (atMost_iff rfl hx).1 hone
  have hunits : one.units = unitsPerOne := by decide
  have hpos := unitsPerOne_pos
  rw [hunits, units] at hle
  split at hle
  · omega
  · simp_all

theorem ofInt_less_of_lt {n : Nat} (hx : x.isFinite = true) (hsign : x.isNegative = false)
    (hn : n < 2 * leadingOne) (h : n < x.absUnits / unitsPerOne) : (ofInt n).less x = true := by
  obtain ⟨hfinite, hunits⟩ := units_ofInt hn
  rw [less_iff hfinite hx, hunits, units, hsign, if_neg Bool.false_ne_true, ← Int.natCast_mul,
    Int.ofNat_lt]
  have hpos := unitsPerOne_pos
  have hle : (n + 1) * unitsPerOne ≤ x.absUnits := (Nat.le_div_iff_mul_le hpos).1 h
  rw [Nat.add_mul] at hle
  omega

/-- A natural number is rounded to less than `x`, the number after the magnitude `m`, just if it lies
below the middle between the two, or in the middle if `m` is even. -/
theorem ofInt_less_iff {n m : Nat} (hx : x.isFinite = true) (hsign : x.isNegative = false)
    (hm : x.magnitude = m + 1) :
    (ofInt n).less x = true ↔
      2 * (n * unitsPerOne) < unitsOfMagnitude m + unitsOfMagnitude (m + 1) ∨
        2 * (n * unitsPerOne) = unitsOfMagnitude m + unitsOfMagnitude (m + 1) ∧ m % 2 = 0 := by
  have hlt : m < infiniteMagnitude := by
    have hmagnitude := isFinite_iff.1 hx
    omega
  have hround := @magnitudeOfRatio_le_iff (n * unitsPerOne) 1 m Nat.one_pos hlt
  rw [Nat.mul_one] at hround
  rw [← hround, less_iff_rank (isNaN_ofInt n) (isNaN_of_isFinite hx), rank, rank, isNegative_ofInt,
    hsign, if_neg Bool.false_ne_true, if_neg Bool.false_ne_true, Int.ofNat_lt, hm, Nat.lt_succ_iff,
    magnitude_ofInt]

theorem ofInt_less_iff_of_whole {n j q : Nat} (hx : x.isFinite = true)
    (hsign : x.isNegative = false) (hm : x.magnitude = (149 + j) * leadingOne + q + 1)
    (hq : leadingOne ≤ q) (htop : q < 2 * leadingOne) :
    (ofInt n).less x = true ↔
      2 * n < (2 * q + 1) <<< j ∨ 2 * n = (2 * q + 1) <<< j ∧ q % 2 = 0 := by
  have hsum : unitsOfMagnitude ((149 + j) * leadingOne + q) +
      unitsOfMagnitude ((149 + j) * leadingOne + q + 1) = (2 * q + 1) <<< j * unitsPerOne := by
    rw [Nat.add_assoc, unitsOfMagnitude_whole hq (by omega), unitsOfMagnitude_whole (by omega) htop,
      ← Nat.add_mul, Nat.shiftLeft_eq, Nat.shiftLeft_eq, Nat.shiftLeft_eq, ← Nat.add_mul]
    congr 2
    omega
  have hparity : ((149 + j) * leadingOne + q) % 2 = q % 2 := by
    unfold leadingOne
    omega
  rw [ofInt_less_iff hx hsign hm, hsum, hparity, ← Nat.mul_assoc,
    Nat.mul_lt_mul_right unitsPerOne_pos, Nat.mul_left_inj (Nat.ne_of_gt unitsPerOne_pos)]

/-- A number of more than 2 ^ 24 comes right after a significand of 24 bits that is shifted by a place
or more. -/
theorem exists_whole_significand (hx : 2 * leadingOne < x.absUnits / unitsPerOne) :
    ∃ j q, x.magnitude = (149 + (j + 1)) * leadingOne + q + 1 ∧ leadingOne ≤ q ∧
      q < 2 * leadingOne ∧ x.absUnits / unitsPerOne = (q + 1) <<< (j + 1) := by
  have hpos := unitsPerOne_pos
  have hstart : unitsOfMagnitude ((149 + 1) * leadingOne + leadingOne) =
      2 * leadingOne * unitsPerOne := by
    rw [unitsOfMagnitude_whole (Nat.le_refl _) (by omega), Nat.shiftLeft_eq, Nat.pow_one,
      Nat.mul_comm leadingOne]
  have hlarge : unitsOfMagnitude ((149 + 1) * leadingOne + leadingOne) <
      unitsOfMagnitude x.magnitude := by
    have hle : (2 * leadingOne + 1) * unitsPerOne ≤ x.absUnits := (Nat.le_div_iff_mul_le hpos).1 hx
    rw [Nat.add_mul] at hle
    unfold absUnits at hle
    omega
  have hmagnitude := strictMono_unitsOfMagnitude.lt_iff_lt.1 hlarge
  obtain ⟨m, hm⟩ := Nat.exists_eq_add_one_of_ne_zero (Nat.ne_of_gt (Nat.zero_lt_of_lt hmagnitude))
  obtain ⟨d, q, rfl, hd, hq⟩ := exists_significand m
  have hle : 150 ≤ d := by
    unfold leadingOne at hmagnitude hm hq
    omega
  obtain ⟨j, rfl⟩ := Nat.exists_eq_add_of_le hle
  have hq' : leadingOne ≤ q := hd.resolve_left (by omega)
  have hshift : 149 + (j + 1) = 150 + j := by omega
  refine ⟨j, q, by rw [hshift, hm], hq', hq, ?_⟩
  rw [absUnits, hm, ← hshift, Nat.add_assoc, unitsOfMagnitude_whole (by omega) hq,
    Nat.mul_div_cancel _ hpos]

end WorldScript.Binary32
