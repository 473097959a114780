import WorldScript.Proofs.Script.Calls

/-!
The limits of a script. It stays inside its code, or at the end of it, with all the calls it will
return from, its stack and its open calls are as deep as the settings allow at most, and it has the
memory slots it was started with.

Main statements: `Script.WithinLimits.call` and `Script.Leads.withinLimits`.
-/
set_option autoImplicit false

namespace WorldScript.Script

structure WithinLimits (settings : MachineSettings) (s : Script) : Prop where
  stackLimit : s.maxStackDepth = settings.maxStackDepth
  callLimit : s.maxCallDepth = settings.maxCallDepth
  position : s.position ≤ s.unit.size
  returns : ∀ f ∈ s.frames, f.returnTo ≤ s.unit.size
  calls : s.frames.length ≤ settings.maxCallDepth
  stack : s.stack.length ≤ settings.maxStackDepth
  slots : s.slots.size = s.unit.slotCount.toNat

section

variable {settings : MachineSettings} {s t : Script}

theorem withinLimits_start (id : ScriptId) (u : CodeUnit) (owner : Option Handle)
    (settings : MachineSettings) : (start id u owner settings).WithinLimits settings where
  stackLimit := rfl
  callLimit := rfl
  position := Nat.zero_le _
  returns := by simp [start]
  calls := Nat.zero_le _
  stack := Nat.zero_le _
  slots := by simp [start]

theorem WithinLimits.reset (h : s.WithinLimits settings) : s.reset.WithinLimits settings where
  stackLimit := h.stackLimit
  callLimit := h.callLimit
  position := Nat.zero_le _
  returns := by simp [Script.reset]
  calls := Nat.zero_le _
  stack := Nat.zero_le _
  slots := by simp [Script.reset]

/-! ### Changes of one part -/

theorem WithinLimits.withState (h : s.WithinLimits settings) (state : ScriptState) :
    ({ s with state } : Script).WithinLimits settings :=
  ⟨h.stackLimit, h.callLimit, h.position, h.returns, h.calls, h.stack, h.slots⟩

theorem WithinLimits.withStack (h : s.WithinLimits settings) {stack : List Value}
    (hstack : stack.length ≤ settings.maxStackDepth) :
    ({ s with stack } : Script).WithinLimits settings :=
  ⟨h.stackLimit, h.callLimit, h.position, h.returns, h.calls, hstack, h.slots⟩

theorem WithinLimits.take {α : Type} {P : α → Prop} {taking : Taking α}
    (h : s.WithinLimits settings) (ht : taking.Draws P) :
    (s.take taking).2.WithinLimits settings := by
  obtain ⟨k, hk⟩ := take_of_draws ht s
  rw [hk]
  apply h.withStack
  have := h.stack
  rw [List.length_drop]
  omega

theorem WithinLimits.fetch {i : Instruction} (h : s.WithinLimits settings)
    (hf : s.fetch? = some (i, t)) : t.WithinLimits settings := by
  obtain ⟨hi, rfl⟩ := fetch?_eq_some_iff.1 hf
  obtain ⟨hlt, -⟩ := Array.getElem?_eq_some_iff.1 hi
  exact ⟨h.stackLimit, h.callLimit, hlt, h.returns, h.calls, h.stack, h.slots⟩

theorem WithinLimits.push {v : Value} (h : s.WithinLimits settings) (hp : s.push v = .ok t) :
    t.WithinLimits settings := by
  obtain ⟨hroom, rfl⟩ := push_eq_ok hp
  rw [h.stackLimit] at hroom
  exact h.withStack hroom

theorem WithinLimits.setSlot {index : Nat} {v : Value} (h : s.WithinLimits settings)
    (hs : s.setSlot index v = .ok t) : t.WithinLimits settings := by
  obtain rfl := setSlot_eq_ok hs
  exact ⟨h.stackLimit, h.callLimit, h.position, h.returns, h.calls, h.stack,
    Array.size_setIfInBounds.trans h.slots⟩

theorem WithinLimits.moveTo {target : Nat} (h : s.WithinLimits settings)
    (hm : s.moveTo target = .ok t) : t.WithinLimits settings := by
  obtain ⟨hle, rfl⟩ := moveTo_eq_ok hm
  exact ⟨h.stackLimit, h.callLimit, hle, h.returns, h.calls, h.stack, h.slots⟩

theorem WithinLimits.enter {target : Nat} (h : s.WithinLimits settings)
    (he : s.enter target = .ok t) : t.WithinLimits settings := by
  obtain ⟨hdepth, hle, rfl⟩ := enter_eq_ok he
  rw [h.callLimit] at hdepth
  refine ⟨h.stackLimit, h.callLimit, hle, ?_, hdepth, h.stack, h.slots⟩
  intro f hf
  obtain rfl | hf := List.mem_cons.1 hf
  · exact h.position
  · exact h.returns f hf

theorem WithinLimits.leave {f : Frame} (h : s.WithinLimits settings)
    (hl : s.leave? = some (f, t)) : t.WithinLimits settings := by
  obtain ⟨rest, hframes, rfl⟩ := leave?_eq_some hl
  have hcalls := h.calls
  have hreturns := h.returns
  simp only [hframes, List.length_cons, List.mem_cons, forall_eq_or_imp] at hcalls hreturns
  exact ⟨h.stackLimit, h.callLimit, hreturns.1, hreturns.2, by dsimp only; omega, h.stack, h.slots⟩

/-! ### Calls -/

theorem WithinLimits.call (h : s.WithinLimits settings) (c : Call) :
    (s.call c).WithinLimits settings := by
  cases c with
  | reset => exact h.reset
  | fetch =>
    simp only [Script.call]
    cases hf : s.fetch? with
    | none => exact h
    | some r => exact h.fetch hf
  | push v => exact getD_toOption h fun _ => h.push
  | pop => exact h.take Taking.takes_pop.draws
  | popNumber => exact h.take Taking.takes_number.draws
  | popEntity => exact h.take Taking.takes_entity.draws
  | popString => exact h.take Taking.takes_string.draws
  | setSlot index v => exact getD_toOption h fun _ => h.setSlot
  | moveTo target => exact getD_toOption h fun _ => h.moveTo
  | enter target => exact getD_toOption h fun _ => h.enter
  | leave =>
    simp only [Script.call]
    cases hl : s.leave? with
    | none => exact h
    | some r => exact h.leave hl
  | pause =>
    obtain ⟨state, he⟩ := s.pause_eq
    simpa only [Script.call, he] using h.withState state
  | resume =>
    by_cases hs : s.state = .paused
    · simpa [Script.call, resume?_of_paused hs] using h.withState .running
    · simpa [Script.call, resume?_eq_none hs] using h
  | stop =>
    obtain ⟨state, he⟩ := s.stop_eq
    simpa only [Script.call, he] using h.withState state
  | interrupt reason =>
    obtain ⟨state, he⟩ := s.interrupt_eq reason
    simpa only [Script.call, he] using h.withState state

variable {id : ScriptId} {u : CodeUnit} {owner : Option Handle}

theorem Leads.withinLimits (hs : (start id u owner settings).Leads s) : s.WithinLimits settings :=
  hs.keeps (fun _ c h => h.call c) (withinLimits_start id u owner settings)

theorem Leads.stack_le (hs : (start id u owner settings).Leads s) :
    s.stack.length ≤ s.maxStackDepth :=
  hs.withinLimits.stackLimit ▸ hs.withinLimits.stack

/-- What has been on the stack has left its room there. -/
theorem Leads.room {v : Value} {rest : List Value} (hs : (start id u owner settings).Leads s)
    (hstack : s.stack = v :: rest) : rest.length < s.maxStackDepth := by
  have hle := hs.stack_le
  rw [hstack] at hle
  exact hle

end

end WorldScript.Script
