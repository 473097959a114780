import WorldScript.Proofs.Execution.Effects

/-!
Faults of instructions. If a unit has no defects, its instructions find none. And a fault comes
before anything has changed outside the script: what an action changes there, it changes once
nothing can fail any more, but for the dice, which move on before there is room on the stack for
what they show.

Main statements: `Scene.execute_blameless` and `Scene.execute_error_keeps`.
-/
set_option autoImplicit false

namespace WorldScript

namespace Script

variable {s s' : Script} {e : Fault}

theorem blameless_push (s : Script) (v : Value) : Blameless (s.push v) := blameless_ite rfl

theorem blameless_setSlot (s : Script) (index : Nat) (v : Value) : Blameless (s.setSlot index v) :=
  blameless_ite rfl

/-- A jump to a target in the code or at its end. -/
theorem blameless_moveTo {target : Nat} (h : target ≤ s.unit.size) :
    Blameless (s.moveTo target) := by
  simp only [moveTo, h, if_true]
  exact blameless_ok _

theorem blameless_enter {target : Nat} (h : target ≤ s.unit.size) : Blameless (s.enter target) := by
  unfold enter
  split
  · exact blameless_error rfl
  · exact (blameless_moveTo h).map _

end Script

namespace Scene

variable {s s' : Scene} {i : Instruction} {e : Fault}

theorem withScript_blameless {outcome : Outcome} {r : Except Fault Script} (hr : Blameless r)
    (h : s.withScript outcome r = (.error e, s')) : e.isDefect = false :=
  hr e (withScript_eq_error h).1

theorem await_blameless {task : Task} (h : s.await task = (.error e, s')) : e.isDefect = false := by
  unfold await Waits.register at h
  dsimp only at h
  split at h
  case h_1 => cases h
  case h_2 hr =>
    cases h
    split at hr
    · cases hr
      rfl
    · cases hr

theorem perform_blameless {a : Action} (ha : a.Of i.opcode i.operand)
    (htarget : ∀ t, i.operand.target? = some t → t ≤ s.script.unit.size)
    (h : s.perform a = (.error e, s')) : e.isDefect = false := by
  cases ha with
  | proceed | ret | change | issue => cases h
  | push v => exact withScript_blameless (s.script.blameless_push v) h
  | store slot v => exact withScript_blameless (s.script.blameless_setSlot _ v) h
  | jump target hop hoperand =>
    have hle := htarget target.toNat (by rw [hoperand]; rfl)
    exact withScript_blameless (Script.blameless_moveTo hle) h
  | call target hop hoperand =>
    have hle := htarget target.toNat (by rw [hoperand]; rfl)
    exact withScript_blameless (Script.blameless_enter hle) h
  | roll bound hop =>
    obtain ⟨n, dice, hroll⟩ := s.roll_eq bound
    rw [perform, hroll] at h
    exact withScript_blameless (Script.blameless_push _ _) h
  | await task => exact await_blameless h

/-- An instruction of a unit whose operands fit finds no defect of the code. -/
theorem execute_blameless (hfits : s.script.unit.Fits) (hi : i ∈ s.script.unit.code.toList)
    (h : s.execute i = (.error e, s')) : e.isDefect = false := by
  have htakes := i.takes_action s.script s.world (hfits i hi)
    fun _ => s.script.unit.stringIndex_lt hi
  obtain ⟨rest, ⟨hr, -⟩ | ⟨a, hr, hp⟩⟩ := execute_error h
  · exact (htakes.error hr).1
  · exact perform_blameless (s := s.withStack rest) (htakes.ok hr).2.2
      (fun _ => s.script.unit.target_le_size hi) hp

/-- With the stack within its limit a fault changes nothing but the stack: a roll takes its argument
first, so that there is room for what the dice show. -/
theorem execute_error_keeps (hstack : s.script.stack.length ≤ s.script.maxStackDepth)
    (h : s.execute i = (.error e, s')) : ∃ stack, s' = s.withStack stack := by
  obtain ⟨rest, ⟨-, rfl⟩ | ⟨a, hr, hp⟩⟩ := execute_error h
  · exact ⟨rest, rfl⟩
  · obtain rfl | ⟨bound, dice, rfl, hfull, -⟩ := perform_error hp
    · exact ⟨rest, rfl⟩
    · have hapi : i.opcode.isApi = true := ((i.draws_action s.script s.world) _ _ _ hr).2 _ rfl
      obtain ⟨hlength, rfl, ha⟩ := (Instruction.takes_action_of_isApi s.script s.world hapi).ok hr
      have htaken : i.opcode.taken = 1 := by
        cases ha with
        | roll _ hop => rw [hop]; rfl
      simp only [withStack, List.length_drop] at hfull
      omega

theorem settle_interrupted (h : s.settle i = (.interrupted, s')) :
    ∃ e scene, s.execute i = (.error e, scene) ∧
      s' = { scene with script := scene.script.interrupt e } := by
  rcases hx : s.execute i with ⟨e | outcome, scene⟩
  · rw [settle_of_error hx] at h
    cases h
    exact ⟨e, scene, rfl, rfl⟩
  · rw [settle_of_ok hx] at h
    cases h
    obtain ⟨a, rest, -, hp⟩ := execute_ok hx
    have houtcome := perform_outcome hp
    cases a <;> simp [Action.outcomes] at houtcome

end Scene

end WorldScript
