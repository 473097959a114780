import WorldScript.Proofs.Code.Containers
import WorldScript.Proofs.Script.Calls

/-!
Where the instructions of a unit stand in its bytes does not matter. A script that runs another unit
with the same slots, strings, opcodes and operands is changed in the same way by every instruction.

Main statement: `Scene.settle_reload`.
-/
set_option autoImplicit false

namespace WorldScript

/-! ### Units -/

/-- All of an instruction but its place in the bytes. -/
def Instruction.meaning (i : Instruction) : Opcode × Operand := (i.opcode, i.operand)

namespace CodeUnit

/-- The units differ in the places of their instructions only. -/
structure Alike (u v : CodeUnit) : Prop where
  slots : v.slotCount = u.slotCount
  strings : v.strings = u.strings
  code : v.code.toList.map Instruction.meaning = u.code.toList.map Instruction.meaning

theorem Alike.refl (u : CodeUnit) : Alike u u := ⟨rfl, rfl, rfl⟩

theorem alike_placed (u : CodeUnit) : Alike u u.placed :=
  ⟨rfl, rfl, map_placed Instruction.meaning (fun _ _ => rfl) 0 _⟩

variable {u v : CodeUnit}

theorem Alike.size (h : Alike u v) : v.size = u.size := by
  simpa [CodeUnit.size] using congrArg List.length h.code

theorem Alike.meaning (h : Alike u v) (k : Nat) :
    v.code[k]?.map Instruction.meaning = u.code[k]?.map Instruction.meaning := by
  rw [← Array.getElem?_toList, ← Array.getElem?_toList, ← List.getElem?_map, ← List.getElem?_map,
    h.code]

end CodeUnit

/-! ### Scripts -/

namespace Script

def reload (f : CodeUnit → CodeUnit) (s : Script) : Script := { s with unit := f s.unit }

variable {f : CodeUnit → CodeUnit} (hf : ∀ u : CodeUnit, u.Alike (f u)) (s : Script)

theorem push_reload (v : Value) : (s.reload f).push v = (s.push v).map (reload f) := by
  by_cases h : s.stack.length < s.maxStackDepth <;> simp [push, reload, h, Except.map]

theorem setSlot_reload (index : Nat) (v : Value) :
    (s.reload f).setSlot index v = (s.setSlot index v).map (reload f) := by
  by_cases h : index < s.slots.size <;> simp [setSlot, reload, h, Except.map]

theorem leave?_reload : (s.reload f).leave? = s.leave?.map fun r => (r.1, r.2.reload f) := by
  cases h : s.frames <;> simp [leave?, reload, h]

theorem stop_reload : (s.reload f).stop = s.stop.reload f := by
  cases h : s.state.isFinished <;> simp [stop, reload, h]

theorem interrupt_reload (reason : Fault) :
    (s.reload f).interrupt reason = (s.interrupt reason).reload f := by
  cases h : s.state.isFinished <;> simp [interrupt, reload, h]

theorem pause_reload : (s.reload f).pause = s.pause.reload f := by
  cases h : s.state <;> simp [pause, reload, h]

theorem resume?_reload : (s.reload f).resume? = s.resume?.map (reload f) := by
  cases h : s.state <;> simp [resume?, reload, h]

include hf

theorem start_reload (id : ScriptId) (u : CodeUnit) (owner : Option Handle)
    (settings : MachineSettings) :
    start id (f u) owner settings = (start id u owner settings).reload f := by
  simp [start, reload, (hf u).slots]

theorem reset_reload : (s.reload f).reset = s.reset.reload f := by
  simp [reset, reload, (hf s.unit).slots]

theorem moveTo_reload (target : Nat) :
    (s.reload f).moveTo target = (s.moveTo target).map (reload f) := by
  by_cases h : target ≤ s.unit.size <;> simp [moveTo, reload, (hf s.unit).size, h, Except.map]

theorem enter_reload (target : Nat) :
    (s.reload f).enter target = (s.enter target).map (reload f) := by
  unfold enter
  rw [moveTo_reload hf]
  by_cases h : s.maxCallDepth ≤ s.frames.length <;>
    cases s.moveTo target <;> simp [reload, h, Except.map]

theorem string_reload (index : Nat) : (s.reload f).string index = s.string index := by
  simp only [string, reload, (hf s.unit).strings]

theorem fetch?_reload :
    s.fetch? = none ∧ (s.reload f).fetch? = none ∨
      ∃ i j s₁, s.fetch? = some (i, s₁) ∧ (s.reload f).fetch? = some (j, s₁.reload f) ∧
        j.meaning = i.meaning := by
  have hmeaning := (hf s.unit).meaning s.position
  simp only [fetch?, reload]
  cases hi : s.unit.code[s.position]? with
  | none =>
    rw [hi, Option.map_none, Option.map_eq_none_iff] at hmeaning
    exact .inl ⟨rfl, by rw [hmeaning]; rfl⟩
  | some i =>
    rw [hi, Option.map_some, Option.map_eq_some_iff] at hmeaning
    obtain ⟨j, hj, hsame⟩ := hmeaning
    exact .inr ⟨i, j, _, rfl, by rw [hj]; rfl, hsame⟩

theorem call_reload (c : Call) : (s.reload f).call c = (s.call c).reload f := by
  have hresult : ∀ r : Except Fault Script,
      (r.map (reload f)).toOption.getD (s.reload f) = (r.toOption.getD s).reload f := by
    intro r
    cases r <;> rfl
  cases c with
  | reset => exact reset_reload hf s
  | fetch =>
    simp only [call]
    obtain ⟨hs, hs'⟩ | ⟨i, j, s₁, hs, hs', -⟩ := fetch?_reload hf s <;> rw [hs, hs'] <;> rfl
  | push v =>
    simp only [call, push_reload]
    exact hresult _
  | pop | popNumber | popEntity | popString => rfl
  | setSlot index v =>
    simp only [call, setSlot_reload]
    exact hresult _
  | moveTo target =>
    simp only [call, moveTo_reload hf]
    exact hresult _
  | enter target =>
    simp only [call, enter_reload hf]
    exact hresult _
  | leave =>
    simp only [call, leave?_reload]
    cases s.leave? <;> rfl
  | pause => exact s.pause_reload
  | resume =>
    simp only [call, resume?_reload]
    cases s.resume? <;> rfl
  | stop => exact s.stop_reload
  | interrupt reason => exact s.interrupt_reload reason

end Script

/-! ### Instructions -/

/-- What an instruction does with its arguments depends on the owner, the slots and the strings. -/
theorem Instruction.action_reload {f : CodeUnit → CodeUnit} (hf : ∀ u : CodeUnit, u.Alike (f u))
    {i j : Instruction} (hj : j.meaning = i.meaning) (s : Script) (w : World) :
    j.action (s.reload f) w = i.action s w := by
  obtain ⟨hopcode, hoperand⟩ := Prod.mk.inj hj
  have hmemory : i.opcode.memoryAction i.operand (s.reload f) =
      i.opcode.memoryAction i.operand s := by
    cases i.operand with
    | stringIndex k => simp only [Opcode.memoryAction, Script.string_reload hf]
    | _ => rfl
  unfold action
  rw [hopcode, hoperand, hmemory]
  rfl

namespace Scene

def reload (f : CodeUnit → CodeUnit) (s : Scene) : Scene := { s with script := s.script.reload f }

variable {f : CodeUnit → CodeUnit} (s : Scene)

theorem withScript_reload (outcome : Outcome) (r : Except Fault Script) :
    (s.reload f).withScript outcome (r.map (Script.reload f)) =
      ((s.withScript outcome r).1, (s.withScript outcome r).2.reload f) := by
  cases r <;> rfl

theorem ret_reload : (s.reload f).ret = (s.ret.1, s.ret.2.reload f) := by
  have hglobal : (s.reload f).script.isGlobal = s.script.isGlobal := rfl
  have hstop : (s.reload f).script.stop = s.script.stop.reload f := s.script.stop_reload
  have hleave : (s.reload f).script.leave? = s.script.leave?.map fun r => (r.1, r.2.reload f) :=
    s.script.leave?_reload
  simp only [ret, hglobal, hstop, hleave]
  split
  · rfl
  · cases s.script.leave? <;> rfl

theorem await_reload (task : Task) :
    (s.reload f).await task = ((s.await task).1, (s.await task).2.reload f) := by
  have hpause : (s.reload f).script.pause = s.script.pause.reload f := s.script.pause_reload
  have hregister : (s.reload f).waits.register
      ⟨(s.reload f).script.id, (s.reload f).script.current⟩ task.kind task.watched
        task.pushesResult =
      s.waits.register ⟨s.script.id, s.script.current⟩ task.kind task.watched
        task.pushesResult := rfl
  simp only [await, hpause, hregister]
  cases s.waits.register ⟨s.script.id, s.script.current⟩ task.kind task.watched
    task.pushesResult <;> rfl

variable (hf : ∀ u : CodeUnit, u.Alike (f u))

include hf

theorem perform_reload (a : Action) :
    (s.reload f).perform a = ((s.perform a).1, (s.perform a).2.reload f) := by
  cases a with
  | proceed | change c | issue r => rfl
  | push v =>
    have hpush : (s.reload f).script.push v = (s.script.push v).map (Script.reload f) :=
      s.script.push_reload v
    simp only [perform, hpush]
    exact s.withScript_reload _ _
  | store slot v =>
    have hstore : (s.reload f).script.setSlot slot v =
        (s.script.setSlot slot v).map (Script.reload f) := s.script.setSlot_reload slot v
    simp only [perform, hstore]
    exact s.withScript_reload _ _
  | jump target =>
    have hjump : (s.reload f).script.moveTo target =
        (s.script.moveTo target).map (Script.reload f) := Script.moveTo_reload hf s.script target
    simp only [perform, hjump]
    exact s.withScript_reload _ _
  | call target =>
    have hcall : (s.reload f).script.enter target =
        (s.script.enter target).map (Script.reload f) := Script.enter_reload hf s.script target
    simp only [perform, hcall]
    exact s.withScript_reload _ _
  | ret => simp only [perform, ret_reload]
  | roll bound =>
    have hpush : ∀ v, (s.reload f).script.push v = (s.script.push v).map (Script.reload f) :=
      s.script.push_reload
    simp only [perform, roll, hpush]
    exact withScript_reload { s with dice := (s.dice.roll bound).2 } _ _
  | await task => exact s.await_reload task

theorem execute_reload {i j : Instruction} (hj : j.meaning = i.meaning) :
    (s.reload f).execute j = ((s.execute i).1, (s.execute i).2.reload f) := by
  have htake : (s.reload f).script.take (j.action (s.reload f).script (s.reload f).world) =
      ((s.script.take (i.action s.script s.world)).1,
        (s.script.take (i.action s.script s.world)).2.reload f) := by
    have haction := Instruction.action_reload hf hj s.script s.world
    rw [← haction]
    rfl
  simp only [execute, htake]
  rcases s.script.take (i.action s.script s.world) with ⟨e | a, script⟩
  · rfl
  · exact perform_reload { s with script } hf a

theorem settle_reload {i j : Instruction} (hj : j.meaning = i.meaning) :
    (s.reload f).settle j = ((s.settle i).1, (s.settle i).2.reload f) := by
  simp only [settle, execute_reload s hf hj]
  rcases s.execute i with ⟨e | outcome, s'⟩
  · have hinterrupt : (s'.reload f).script.interrupt e = (s'.script.interrupt e).reload f :=
      s'.script.interrupt_reload e
    simp only [hinterrupt]
    rfl
  · rfl

end Scene

end WorldScript
