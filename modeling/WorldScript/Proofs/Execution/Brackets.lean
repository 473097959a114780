import WorldScript.Proofs.Execution.Effects

/-!
What an instruction does with the open calls of its script. Whatever operand it comes with, a call
opens one, a return closes the innermost one, and no other opcode touches them.

Main statement: `Scene.brackets_settle`.
-/
set_option autoImplicit false

namespace WorldScript

def Action.Brackets (op : Opcode) : Action → Prop
  | .call _ => op = .call
  | .ret => op = .return
  | .proceed | .push _ | .store _ _ | .jump _ | .roll _ | .change _ | .issue _ | .await _ => True

theorem Action.Of.brackets {op : Opcode} {operand : Operand} {a : Action} (h : a.Of op operand) :
    a.Brackets op := by
  cases h with
  | call target hop => exact hop
  | ret hop => exact hop
  | proceed | push | store | jump | roll | change | issue | await => trivial

theorem Instruction.draws_brackets (i : Instruction) (s : Script) (w : World) :
    (i.action s w).Draws (Action.Brackets i.opcode) := by
  have hof : ∀ a : Action, a.Of i.opcode i.operand → a.Brackets i.opcode := fun _ h => h.brackets
  unfold action
  split
  case h_1 h => exact (Opcode.takes_mathAction h).draws.mono hof
  case h_2 => exact i.opcode.draws_flowAction i.operand trivial fun _ => trivial
  case h_3 =>
    exact i.opcode.draws_memoryAction i.operand s (fun _ => trivial) fun _ _ => trivial
  case h_4 =>
    exact i.opcode.draws_stackAction i.operand trivial (fun _ => trivial) (fun h _ => h) id
  case h_5 h => exact (Opcode.takes_worldAction s w h).draws.mono hof
  case h_6 h => exact (Opcode.takes_guiAction w h).draws.mono hof
  case h_7 h => exact (Opcode.takes_combatAction w h).draws.mono hof

/-- The open calls of a script after an instruction, by how it ended. -/
inductive Script.Brackets (op : Opcode) (s s' : Script) : Outcome → Prop
  | opened : op = .call → s'.frames = ⟨s.position, s.current⟩ :: s.frames →
      Brackets op s s' .called
  | closed (f : Frame) : op = .return → s.isGlobal = false → s.frames = f :: s'.frames →
      s'.position = f.returnTo → Brackets op s s' .returned
  | kept {outcome : Outcome} : outcome ≠ .called → outcome ≠ .returned →
      s'.frames = s.frames → Brackets op s s' outcome

namespace Scene

variable {s s' : Scene} {i : Instruction} {outcome : Outcome}

theorem brackets_ret {op : Opcode} (hop : op = .return) :
    s.script.Brackets op s.ret.2.script s.ret.1 := by
  have hstop : s.script.Brackets op s.script.stop .stopped := by
    obtain ⟨state, he⟩ := s.script.stop_eq
    exact .kept (by simp) (by simp) (by rw [he])
  unfold ret
  split
  case isTrue => exact hstop
  case isFalse hglobal =>
    cases hl : s.script.leave? with
    | none => exact hstop
    | some r =>
      obtain ⟨f, script⟩ := r
      obtain ⟨rest, hframes, rfl⟩ := Script.leave?_eq_some hl
      exact .closed f hop (by simpa using hglobal) hframes rfl

theorem brackets_perform {op : Opcode} {a : Action} (ha : a.Brackets op)
    (h : s.perform a = (.ok outcome, s')) : s.script.Brackets op s'.script outcome := by
  cases a with
  | proceed | change c | issue r =>
    cases h
    exact .kept (by simp) (by simp) rfl
  | push v =>
    obtain ⟨rfl, hr⟩ := withScript_eq_ok h
    exact .kept (by simp) (by simp) (by rw [(Script.push_eq_ok hr).2])
  | store slot v =>
    obtain ⟨rfl, hr⟩ := withScript_eq_ok h
    exact .kept (by simp) (by simp) (by rw [Script.setSlot_eq_ok hr])
  | jump target =>
    obtain ⟨rfl, hr⟩ := withScript_eq_ok h
    exact .kept (by simp) (by simp) (by rw [(Script.moveTo_eq_ok hr).2])
  | call target =>
    obtain ⟨rfl, hr⟩ := withScript_eq_ok h
    exact .opened ha (by rw [(Script.enter_eq_ok hr).2.2])
  | ret =>
    cases h
    exact brackets_ret ha
  | roll bound =>
    obtain ⟨n, dice, hroll⟩ := s.roll_eq bound
    rw [perform, hroll] at h
    obtain ⟨rfl, hr⟩ := withScript_eq_ok h
    exact .kept (by simp) (by simp) (by rw [(Script.push_eq_ok hr).2])
  | await task =>
    simp only [perform, await] at h
    split at h
    · cases h
      obtain ⟨state, he⟩ := s.script.pause_eq
      exact .kept (by simp) (by simp) (by rw [he])
    · cases h

/-- An instruction opens a call, or closes one, or leaves the open calls as they were. -/
theorem brackets_settle (h : s.settle i = (outcome, s')) :
    s.script.Brackets i.opcode s'.script outcome := by
  rcases hx : s.execute i with ⟨e | o, s₁⟩
  · obtain ⟨stack, dice, rfl⟩ := execute_error_eq hx
    rw [settle_of_error hx] at h
    cases h
    obtain ⟨state, he⟩ := Script.interrupt_eq { s.script with stack } e
    refine .kept (by simp) (by simp) ?_
    simp only [withStack, he]
  · obtain ⟨a, rest, hr, hp⟩ := execute_ok hx
    have ha : a.Brackets i.opcode := (i.draws_brackets s.script s.world _ _ _ hr).2 a rfl
    rw [settle_of_ok hx] at h
    cases h
    cases brackets_perform ha hp with
    | opened hop hframes => exact .opened hop hframes
    | closed f hop hglobal hframes hposition => exact .closed f hop hglobal hframes hposition
    | kept hcalled hreturned hframes => exact .kept hcalled hreturned hframes

theorem settle_return_of_global (hop : i.opcode = .return) (hglobal : s.script.isGlobal = true) :
    s.settle i = (.stopped, { s with script := s.script.stop }) := by
  obtain ⟨op, operand, offset⟩ := i
  cases hop
  have hret : s.settle ⟨.return, operand, offset⟩ = s.ret := rfl
  rw [hret, ret, if_pos hglobal]

end Scene

end WorldScript
