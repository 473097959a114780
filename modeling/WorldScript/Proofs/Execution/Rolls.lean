import WorldScript.Proofs.Binary32.Whole
import WorldScript.Proofs.Execution.Jumps

/-!
Rolls of the dice. The number that bounds a roll is cut to an integer of 32 bits, and the integer
rolled is rounded to a number. Both lose digits, and a roll can come out as the bound itself.

Main statement: `Scene.random_stays_in_range_but_for_rounding`.
-/
set_option autoImplicit false

namespace WorldScript

namespace Binary32

def boundsRoll (n : Binary32) : Bool := one.atMost n && n.isFinite

/-- Whether some roll below the bound is rounded to the number that the bound was cut from. From 2 ^
24 on the odd integers are halfway between numbers, and go to the multiples of 4. -/
def IsReached (n : Binary32) : Prop :=
  0x1000000 < n.truncate ∧ n.truncate ≤ 0x100000000 ∧ 4 ∣ n.truncate

instance (n : Binary32) : Decidable n.IsReached := inferInstanceAs (Decidable (_ ∧ _ ∧ _))

variable {n : Binary32}

/-- All integers below `t` are rounded to less than `t`, just if `t` is no multiple of 4. -/
theorem every_below_iff {j q t : Nat} (ht : t = (q + 1) <<< (j + 1)) (hq : leadingOne ≤ q)
    (htop : q < 2 * leadingOne) (hbits : t ≤ 0x100000000) :
    (∀ r < min t 0xffffffff,
        2 * r < (2 * q + 1) <<< (j + 1) ∨ 2 * r = (2 * q + 1) <<< (j + 1) ∧ q % 2 = 0) ↔
      ¬4 ∣ t := by
  rw [Nat.shiftLeft_eq] at ht
  rw [Nat.shiftLeft_eq]
  cases j with
  | zero =>
    -- the last integer is halfway, and goes to an even significand
    unfold leadingOne at hq htop
    constructor
    · intro hevery
      have hlast := hevery (2 * q + 1) (by omega)
      omega
    · intro hodd r hr
      omega
  | succ j =>
    -- the last integer is nearer to `t`
    have hstep : 2 ^ (j + 1 + 1) = 4 * 2 ^ j := by
      rw [Nat.pow_succ, Nat.pow_succ]
      omega
    have hpos : 0 < 2 ^ j := Nat.two_pow_pos j
    have hlarge : (q + 1) * 2 ^ j ≤ 2 * leadingOne * 2 ^ j := Nat.mul_le_mul_right _ htop
    have hdouble : (2 * q + 1) * 2 ^ j = 2 * (q * 2 ^ j) + 2 ^ j := by
      rw [Nat.add_mul, Nat.mul_assoc, Nat.one_mul]
    rw [hstep, Nat.mul_left_comm] at ht ⊢
    rw [Nat.add_mul, Nat.one_mul] at ht hlarge
    unfold leadingOne at hlarge
    refine iff_of_false (fun hevery => ?_) (by omega)
    have hlast := hevery (min t 0xffffffff - 1) (by omega)
    omega

section

variable (hn : n.boundsRoll = true)
include hn

theorem boundsRoll_isFinite : n.isFinite = true := by
  simp only [boundsRoll, Bool.and_eq_true] at hn
  exact hn.2

theorem boundsRoll_positive : n.isNegative = false ∧ unitsPerOne ≤ n.absUnits := by
  simp only [boundsRoll, Bool.and_eq_true] at hn
  exact isNegative_of_one_atMost hn.2 hn.1

theorem toNat_toUInt32_of_boundsRoll :
    n.toUInt32.toNat = min (n.absUnits / unitsPerOne) 0xffffffff := by
  have hcut := toNat_toUInt32 (boundsRoll_isFinite hn)
  rw [truncate_of_nonneg (boundsRoll_positive hn).1] at hcut
  generalize n.absUnits / unitsPerOne = t at hcut ⊢
  omega

theorem one_le_toUInt32 : 1 ≤ n.toUInt32.toNat := by
  have hone : 1 ≤ n.absUnits / unitsPerOne :=
    (Nat.one_le_div_iff unitsPerOne_pos).2 (boundsRoll_positive hn).2
  rw [toNat_toUInt32_of_boundsRoll hn]
  omega

theorem ofInt_in_range {r : Nat} (hr : r < n.toUInt32.toNat) :
    (ofInt r).isIntegral = true ∧ zero.atMost (ofInt r) = true ∧ (ofInt r).atMost n = true := by
  have hfinite := boundsRoll_isFinite hn
  have hsign := (boundsRoll_positive hn).1
  rw [toNat_toUInt32_of_boundsRoll hn] at hr
  have hintegral : (ofInt r).isIntegral = true := isIntegral_ofInt (by omega)
  have hrank : (ofInt r).rank = ((ofInt r).magnitude : Int) := by
    rw [rank, isNegative_ofInt, if_neg Bool.false_ne_true]
  refine ⟨hintegral, ?_, ?_⟩
  · rw [atMost_iff_rank rfl (isNaN_ofInt r), hrank]
    exact Int.natCast_nonneg _
  · have hle : r * unitsPerOne ≤ unitsOfMagnitude n.magnitude :=
      (Nat.le_div_iff_mul_le unitsPerOne_pos).1 (by unfold absUnits at hr; omega)
    have hround := magnitudeOfRatio_mono Nat.one_pos hle
    rw [magnitudeOfRatio_units (isFinite_iff.1 hfinite), ← magnitude_ofInt] at hround
    rw [atMost_iff_rank (isNaN_ofInt r) (isNaN_of_isFinite hfinite), hrank, rank, hsign,
      if_neg Bool.false_ne_true]
    exact Int.ofNat_le.2 hround

theorem ofInt_less_of_large {r : Nat} (h : 0x100000000 < n.absUnits / unitsPerOne)
    (hr : r ≤ 0x100000000) : (ofInt r).less n = true := by
  have hround := magnitude_ofInt_mono (k := leadingOne <<< 9) hr
  rw [magnitude_ofInt_shiftLeft (by decide)] at hround
  have hunits : unitsOfMagnitude ((149 + 9) * leadingOne + leadingOne) =
      leadingOne <<< 9 * unitsPerOne := unitsOfMagnitude_whole (Nat.le_refl _) (by omega)
  have habove : unitsOfMagnitude ((149 + 9) * leadingOne + leadingOne) <
      unitsOfMagnitude n.magnitude := by
    rw [hunits]
    exact Nat.lt_of_lt_of_le (Nat.mul_lt_mul_of_pos_right h unitsPerOne_pos)
      (Nat.div_mul_le_self _ _)
  have hlt := strictMono_unitsOfMagnitude.lt_iff_lt.1 habove
  rw [less_iff_rank (isNaN_ofInt r) (isNaN_of_isFinite (boundsRoll_isFinite hn)), rank, rank,
    isNegative_ofInt, (boundsRoll_positive hn).1, if_neg Bool.false_ne_true,
    if_neg Bool.false_ne_true, Int.ofNat_lt]
  unfold leadingOne at hround hlt
  omega

/-- No roll comes out as its bound, unless the bound is reached by rounding. -/
theorem every_roll_less_iff :
    (∀ r < n.toUInt32.toNat, (ofInt r).less n = true) ↔ ¬n.IsReached := by
  have hfinite := boundsRoll_isFinite hn
  have hsign := (boundsRoll_positive hn).1
  rw [toNat_toUInt32_of_boundsRoll hn, IsReached, truncate_of_nonneg hsign]
  by_cases hsmall : n.absUnits / unitsPerOne ≤ 0x1000000
  · refine iff_of_true (fun r hr => ofInt_less_of_lt hfinite hsign ?_ (by omega)) (by omega)
    unfold leadingOne
    omega
  · by_cases hlarge : 0x100000000 < n.absUnits / unitsPerOne
    · exact iff_of_true (fun r hr => ofInt_less_of_large hn hlarge (by omega)) (by omega)
    · obtain ⟨j, q, hmagnitude, hq, htop, ht⟩ :=
        exists_whole_significand (x := n) (by unfold leadingOne; omega)
      simp only [ofInt_less_iff_of_whole hfinite hsign hmagnitude hq htop]
      rw [every_below_iff ht hq htop (Nat.not_lt.1 hlarge)]
      omega

end

end Binary32

namespace Scene

open Taking

variable {s : Scene} {n : Binary32} {rest : List Value}

theorem run_random (operand : Operand) (offset : Nat)
    (hstack : s.script.stack = .number n :: rest) :
    ((⟨.random, operand, offset⟩ : Instruction).action s.script s.world).run s.script.stack =
      (if n.boundsRoll then .ok (.roll n.toUInt32.toNat) else .error (.outOfRange "random range" n),
        rest) := by
  rw [hstack]
  change ((if !n.boundsRoll then throw (.outOfRange "random range" n) else
    pure (.roll n.toUInt32.toNat)) : Taking Action).run rest = _
  cases n.boundsRoll <;> rfl

/-- A roll has no fraction, is at least 0, and is at most the number given. It is below that in all
cases just if the number is not reached by rounding. -/
theorem random_stays_in_range_but_for_rounding {id : ScriptId} {unit : CodeUnit}
    {owner : Option Handle} {settings : MachineSettings} (s : Scene)
    (hs : (Script.start id unit owner settings).Leads s.script) {n : Binary32} {rest : List Value}
    (hstack : s.script.stack = .number n :: rest) (operand : Operand) (offset : Nat) :
    let bound := n.toUInt32.toNat
    let random := s.execute ⟨.random, operand, offset⟩
    (n.boundsRoll = false → random = (.error (.outOfRange "random range" n), s.withStack rest)) ∧
    (n.boundsRoll = true →
      1 ≤ bound ∧
      (∃ r < bound, random = (.ok .continued,
        { s.withStack (.number (Binary32.ofInt r) :: rest) with dice := (s.dice.roll bound).2 })) ∧
      (∀ r < bound, (Binary32.ofInt r).isIntegral = true ∧
        Binary32.zero.atMost (Binary32.ofInt r) = true ∧ (Binary32.ofInt r).atMost n = true) ∧
      ((∀ r < bound, (Binary32.ofInt r).less n = true) ↔ ¬n.IsReached)) := by
  intro bound random
  have hroom : rest.length < s.script.maxStackDepth := hs.room hstack
  have hrun := run_random operand offset hstack
  constructor
  · intro hn
    rw [hn, if_neg Bool.false_ne_true] at hrun
    exact execute_eq hrun
  · intro hn
    rw [hn, if_pos rfl] at hrun
    have hone : 1 ≤ bound := Binary32.one_le_toUInt32 hn
    refine ⟨hone, ⟨(s.dice.roll bound).1, s.dice.roll_lt hone, (execute_eq hrun).trans ?_⟩,
      fun r hr => Binary32.ofInt_in_range hn hr, Binary32.every_roll_less_iff hn⟩
    simp [perform, roll, withStack, withScript, Script.push, hroom, bound]

theorem random_stays_in_range_but_for_rounding_die :
    (Script.start ⟨0⟩ ⟨0, #[], #[], rfl⟩ none {}).Leads
        (holding (.number ⟨0x40c00000⟩) Value.zero).script ∧
      (holding (.number ⟨0x40c00000⟩) Value.zero).script.stack =
        [.number ⟨0x40c00000⟩, Value.zero] ∧
      (⟨0x40c00000⟩ : Binary32).boundsRoll = true ∧
      (⟨0x40c00000⟩ : Binary32).toUInt32.toNat = 6 ∧
      (∀ r < (⟨0x40c00000⟩ : Binary32).toUInt32.toNat,
        (Binary32.ofInt r).less ⟨0x40c00000⟩ = true) ∧
      Binary32.nan.boundsRoll = false ∧
      (holding (.number Binary32.nan) Value.zero).execute ⟨.random, .none, 0⟩ =
        (.error (.outOfRange "random range" Binary32.nan),
          (holding (.number Binary32.nan) Value.zero).withStack [Value.zero]) := by
  have haccepts : (⟨0x40c00000⟩ : Binary32).boundsRoll = true := by decide
  have hnan : Binary32.nan.boundsRoll = false := by decide
  obtain ⟨-, -, -, hless⟩ := (random_stays_in_range_but_for_rounding _
    (leads_holding (.number ⟨0x40c00000⟩) Value.zero) rfl .none 0).2 haccepts
  have hunreached : ¬(⟨0x40c00000⟩ : Binary32).IsReached := by decide
  have hrefused := (random_stays_in_range_but_for_rounding _
    (leads_holding (.number Binary32.nan) Value.zero) rfl .none 0).1 hnan
  exact ⟨leads_holding _ _, rfl, haccepts, by decide, hless.2 hunreached, hnan, hrefused⟩

/-- Below 16777220 the integer 16777219 may be rolled, which is rounded to 16777220. -/
theorem a_roll_reaches_its_bound :
    (⟨0x4b800002⟩ : Binary32).boundsRoll = true ∧
      16777219 < (⟨0x4b800002⟩ : Binary32).toUInt32.toNat ∧
      Binary32.ofInt 16777219 = ⟨0x4b800002⟩ ∧
      (Binary32.ofInt 16777219).less ⟨0x4b800002⟩ = false := by
  decide

end Scene

end WorldScript
