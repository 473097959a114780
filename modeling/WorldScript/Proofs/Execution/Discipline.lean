import WorldScript.Proofs.Execution.Effects

/-!
What an instruction does to its script. On the stack it takes and places just as many values as the
table of its opcode says, and leaves everything below untouched. Slots change by a store, open calls
by a call or a return, and the position by these two and by jumps.

Main statement: `Scene.stack_discipline`.
-/
set_option autoImplicit false

namespace WorldScript

namespace Script

/-- Where a script goes on, and with which open calls, by how its instruction ended. -/
def Follows (op : Opcode) (operand : Operand) (s s' : Script) : Outcome → Prop
  | .continued | .paused => s'.position = s.position ∧ s'.frames = s.frames
  | .branched => op.family = .flow ∧ operand.target? = some s'.position ∧ s'.frames = s.frames
  | .called =>
    op = .call ∧ operand.target? = some s'.position ∧
      s'.frames = ⟨s.position, s.current⟩ :: s.frames
  | .returned => op = .return ∧ ∃ f, s.frames = f :: s'.frames ∧ s'.position = f.returnTo
  | .stopped =>
    op = .return ∧ (s.isGlobal = true ∨ s.frames = []) ∧ s'.position = s.position ∧
      s'.frames = s.frames
  | .interrupted => False

def StoresOnly (op : Opcode) (operand : Operand) (s s' : Script) : Prop :=
  s'.slots.size = s.slots.size ∧ ∀ k, s'.slots[k]? ≠ s.slots[k]? →
    op = .store ∧ ∃ slot, operand = .slot slot ∧ slot.toNat = k

/-- An action has put some values on the stack of a script, which goes on by the outcome. -/
structure Disciplined (op : Opcode) (operand : Operand) (pushes : Nat) (outcome : Outcome)
    (s s' : Script) : Prop where
  stack : ∃ placed : List Value, placed.length = pushes ∧ s'.stack = placed ++ s.stack
  slots : s.StoresOnly op operand s'
  follows : s.Follows op operand s' outcome

section

variable {op : Opcode} {operand : Operand} {s s' : Script}

theorem storesOnly_of_eq (h : s'.slots = s.slots) : s.StoresOnly op operand s' := by
  simp [StoresOnly, h]

theorem disciplined_refl : s.Disciplined op operand 0 .continued s :=
  ⟨⟨[], rfl, rfl⟩, storesOnly_of_eq rfl, rfl, rfl⟩

theorem disciplined_push {v : Value} (h : s.push v = .ok s') :
    s.Disciplined op operand 1 .continued s' := by
  obtain ⟨-, rfl⟩ := push_eq_ok h
  exact ⟨⟨[v], rfl, rfl⟩, storesOnly_of_eq rfl, rfl, rfl⟩

theorem disciplined_setSlot {slot : UInt16} {v : Value} (hop : op = .store)
    (hoperand : operand = .slot slot) (h : s.setSlot slot.toNat v = .ok s') :
    s.Disciplined op operand 0 .continued s' := by
  obtain rfl := setSlot_eq_ok h
  refine ⟨⟨[], rfl, rfl⟩, ⟨Array.size_setIfInBounds, ?_⟩, rfl, rfl⟩
  intro k hk
  rw [Array.getElem?_setIfInBounds] at hk
  split at hk
  case isTrue he => exact ⟨hop, slot, hoperand, he⟩
  case isFalse => exact absurd rfl hk

theorem disciplined_moveTo {target : Nat} (hop : op.family = .flow)
    (hoperand : operand.target? = some target) (h : s.moveTo target = .ok s') :
    s.Disciplined op operand 0 .branched s' := by
  obtain ⟨-, rfl⟩ := moveTo_eq_ok h
  exact ⟨⟨[], rfl, rfl⟩, storesOnly_of_eq rfl, hop, hoperand, rfl⟩

theorem disciplined_enter {target : Nat} (hop : op = .call)
    (hoperand : operand.target? = some target) (h : s.enter target = .ok s') :
    s.Disciplined op operand 0 .called s' := by
  obtain ⟨-, -, rfl⟩ := enter_eq_ok h
  exact ⟨⟨[], rfl, rfl⟩, storesOnly_of_eq rfl, hop, hoperand, rfl⟩

theorem disciplined_stop (hop : op = .return) (h : s.isGlobal = true ∨ s.frames = []) :
    s.Disciplined op operand 0 .stopped s.stop := by
  obtain ⟨state, he⟩ := s.stop_eq
  rw [he]
  exact ⟨⟨[], rfl, rfl⟩, storesOnly_of_eq rfl, hop, h, rfl, rfl⟩

end

end Script

namespace Scene

variable {op : Opcode} {operand : Operand} {s s' : Scene} {outcome : Outcome}

theorem disciplined_ret (hop : op = .return) (h : s.ret = (outcome, s')) :
    s.script.Disciplined op operand 0 outcome s'.script := by
  unfold ret at h
  split at h
  case isTrue hglobal =>
    cases h
    exact Script.disciplined_stop hop (.inl hglobal)
  case isFalse =>
    split at h
    case h_1 f script hl =>
      obtain ⟨rest, hframes, rfl⟩ := Script.leave?_eq_some hl
      cases h
      exact ⟨⟨[], rfl, rfl⟩, Script.storesOnly_of_eq rfl, hop, f, hframes, rfl⟩
    case h_2 hl =>
      cases h
      exact Script.disciplined_stop hop (.inr (Script.leave?_eq_none hl))

theorem disciplined_await {task : Task} (h : s.await task = (.ok outcome, s')) :
    s.script.Disciplined op operand 0 outcome s'.script := by
  unfold await at h
  dsimp only at h
  split at h
  · cases h
    obtain ⟨state, he⟩ := s.script.pause_eq
    dsimp only
    rw [he]
    exact ⟨⟨[], rfl, rfl⟩, Script.storesOnly_of_eq rfl, rfl, rfl⟩
  · cases h

theorem disciplined_perform {a : Action} (ha : a.Of op operand)
    (h : s.perform a = (.ok outcome, s')) :
    s.script.Disciplined op operand a.pushes outcome s'.script := by
  cases ha with
  | proceed | change | issue =>
    cases h
    exact Script.disciplined_refl
  | push v =>
    obtain ⟨rfl, hr⟩ := withScript_eq_ok h
    exact Script.disciplined_push hr
  | store slot v hop hoperand =>
    obtain ⟨rfl, hr⟩ := withScript_eq_ok h
    exact Script.disciplined_setSlot hop hoperand hr
  | jump target hop hoperand =>
    obtain ⟨rfl, hr⟩ := withScript_eq_ok h
    exact Script.disciplined_moveTo hop (by rw [hoperand]; rfl) hr
  | call target hop hoperand =>
    obtain ⟨rfl, hr⟩ := withScript_eq_ok h
    exact Script.disciplined_enter hop (by rw [hoperand]; rfl) hr
  | ret hop =>
    cases h
    exact disciplined_ret hop rfl
  | roll bound hop =>
    obtain ⟨n, dice, hroll⟩ := s.roll_eq bound
    rw [perform, hroll] at h
    obtain ⟨rfl, hr⟩ := withScript_eq_ok h
    exact Script.disciplined_push hr
  | await task => exact disciplined_await h

end Scene

/-! ### Arguments -/

namespace Instruction

variable {i : Instruction} {s : Script} {w : World} {stack rest : List Value}

theorem action_of_missing_string {k : Nat} (hfits : i.Fits)
    (hk : i.operand.stringIndex? = some k) (hmissing : s.unit.strings.size ≤ k) :
    (i.action s w).run stack = (.error (.stringOutOfRange k s.unit.strings.size), stack) := by
  obtain ⟨op, operand, offset⟩ := i
  cases operand with
  | stringIndex j =>
    cases hk
    obtain rfl := Opcode.eq_pushString hfits.symm
    have hstring : s.string j.toNat = .error (.stringOutOfRange j.toNat s.unit.strings.size) := by
      simp only [Script.string, Array.getElem?_eq_none hmissing]
    change (Opcode.memoryAction .pushString (.stringIndex j) s).run stack = _
    simp only [Opcode.memoryAction, hstring]
    rfl
  | _ => cases hk

/-- What an instruction that fits takes off the stack, if its strings are in the table or not. -/
theorem takes_action_or_error (s : Script) (w : World) (hfits : i.Fits) :
    (∀ stack a rest, (i.action s w).run stack = (.ok a, rest) →
        i.opcode.taken ≤ stack.length ∧ rest = stack.drop i.opcode.taken ∧
          a.Of i.opcode i.operand) ∧
      ∀ stack e rest, (i.action s w).run stack = (.error e, rest) →
        ∃ k ≤ i.opcode.taken, rest = stack.drop k := by
  by_cases hstring : ∀ k, i.operand.stringIndex? = some k → k < s.unit.strings.size
  · have htakes := takes_action s w hfits hstring
    exact ⟨fun _ _ _ => htakes.ok, fun _ _ _ hr => (htakes.error hr).2⟩
  · simp only [Classical.not_forall, Nat.not_lt] at hstring
    obtain ⟨k, hk, hmissing⟩ := hstring
    constructor
    · intro stack a rest hr
      rw [action_of_missing_string hfits hk hmissing] at hr
      cases hr
    · intro stack e rest hr
      rw [action_of_missing_string hfits hk hmissing] at hr
      cases hr
      exact ⟨0, Nat.zero_le _, rfl⟩

theorem ne_nil_of_dup {a : Action} (hop : i.opcode = .dup)
    (hr : (i.action s w).run stack = (.ok a, rest)) : stack ≠ [] := by
  rintro rfl
  obtain ⟨op, operand, offset⟩ := i
  cases hop
  cases hr

end Instruction

theorem Opcode.stackEffect_eq {op : Opcode} (h : op ≠ .dup) :
    op.stackEffect = (op.taken, op.placed) := by
  cases op <;> first | rfl | exact absurd rfl h

theorem Opcode.taken_le (op : Opcode) : op.taken ≤ op.stackEffect.1 := by
  cases op <;> first | exact Nat.le_refl _ | exact Nat.zero_le _

namespace Scene

variable {i : Instruction} {s s' : Scene}

theorem execute_ok_script {outcome : Outcome} (hfits : i.Fits)
    (h : s.execute i = (.ok outcome, s')) :
    i.opcode.stackEffect.1 ≤ s.script.stack.length ∧
      (s.withStack (s.script.stack.drop i.opcode.taken)).script.Disciplined i.opcode i.operand
        i.opcode.placed outcome s'.script := by
  obtain ⟨a, rest, hr, hp⟩ := execute_ok h
  obtain ⟨hlength, rfl, ha⟩ := (i.takes_action_or_error s.script s.world hfits).1 _ _ _ hr
  refine ⟨?_, ha.placed_eq ▸ disciplined_perform ha hp⟩
  by_cases hop : i.opcode = .dup
  · rw [hop]
    exact List.length_pos_iff.2 (Instruction.ne_nil_of_dup hop hr)
  · rw [Opcode.stackEffect_eq hop]
    exact hlength

/-- An instruction that fits takes and places as many values as its opcode says, touches nothing
below them, stores at most in its slot, and goes on where its outcome says. -/
theorem stack_discipline (i : Instruction) (hfits : i.Fits) (s : Scene) :
    (∀ outcome s', s.execute i = (.ok outcome, s') →
        i.opcode.stackEffect.1 ≤ s.script.stack.length ∧
          (∃ placed : List Value, placed.length = i.opcode.stackEffect.2 ∧
            s'.script.stack = placed ++ s.script.stack.drop i.opcode.stackEffect.1) ∧
          s.script.StoresOnly i.opcode i.operand s'.script ∧
          s.script.Follows i.opcode i.operand s'.script outcome) ∧
      ∀ e s', s.execute i = (.error e, s') → ∃ k ≤ i.opcode.stackEffect.1,
        s'.script = { s.script with stack := s.script.stack.drop k } := by
  constructor
  · intro outcome s' h
    obtain ⟨hlength, ⟨placed, hplaced, hstack⟩, hslots, hfollows⟩ := execute_ok_script hfits h
    refine ⟨hlength, ?_, hslots, hfollows⟩
    by_cases hop : i.opcode = .dup
    · -- the value that is copied counts as taken and placed again
      have hdup : Opcode.dup.stackEffect = (1, 2) := rfl
      rw [hop] at hlength hplaced hstack
      rw [hop, hdup]
      cases hs : s.script.stack with
      | nil =>
        rw [hs] at hlength
        cases hlength
      | cons v below =>
        rw [withStack, hs] at hstack
        refine ⟨placed ++ [v], by rw [List.length_append, hplaced]; rfl, ?_⟩
        rw [hstack, List.append_assoc]
        rfl
    · rw [Opcode.stackEffect_eq hop]
      exact ⟨placed, hplaced, hstack⟩
  · intro e s' h
    obtain ⟨rest, ⟨hr, rfl⟩ | ⟨a, hr, hp⟩⟩ := execute_error h
    · obtain ⟨k, hk, rfl⟩ := (i.takes_action_or_error s.script s.world hfits).2 _ _ _ hr
      exact ⟨k, Nat.le_trans hk i.opcode.taken_le, rfl⟩
    · obtain ⟨-, rfl, -⟩ := (i.takes_action_or_error s.script s.world hfits).1 _ _ _ hr
      refine ⟨i.opcode.taken, i.opcode.taken_le, ?_⟩
      obtain rfl | ⟨bound, dice, -, -, rfl⟩ := perform_error hp <;> rfl

def joining : Scene where
  script :=
    { Script.start ⟨1⟩ ⟨0, #[], #[⟨.concat, .none, 0⟩], rfl⟩ none {} with
      position := 1, stack := [.string "up", .string "on", .string "below"] }
  world := World.start {} []
  waits := {}
  dice := Dice.ofSeed 0

theorem stack_discipline_joining :
    (⟨.concat, .none, 0⟩ : Instruction).Fits ∧
      (joining.execute ⟨.concat, .none, 0⟩).2.script.stack = [.string "upon", .string "below"] ∧
      2 ≤ joining.script.stack.length ∧
      (∃ placed : List Value, placed.length = 1 ∧
        (joining.execute ⟨.concat, .none, 0⟩).2.script.stack = placed ++ [.string "below"]) ∧
      ∃ k ≤ 2,
        ((joining.withStack [.string "up", Value.zero]).execute ⟨.concat, .none, 0⟩).2.script =
          { joining.script with stack := [.string "up", Value.zero].drop k } := by
  have hfits : (⟨.concat, .none, 0⟩ : Instruction).Fits := by decide
  obtain ⟨hlength, hstack, -⟩ :=
    (stack_discipline ⟨.concat, .none, 0⟩ hfits joining).1 .continued _ rfl
  obtain ⟨k, hk, hscript⟩ := (stack_discipline ⟨.concat, .none, 0⟩ hfits
    (joining.withStack [.string "up", Value.zero])).2 (.typeMismatch .string .number) _ rfl
  exact ⟨hfits, by decide, hlength, hstack, k, hk, hscript⟩

end Scene

end WorldScript
