import WorldScript.Proofs.Execution.Mismatches

/-!
Operands that do not fit. A code unit may hold instructions whose operand is for another opcode. A
jump and a call refuse such an operand, and so does an instruction that moves values if the operand is
for none of its kind. A jump takes its values first, and finds what is wrong with them before it looks
at its operand.

Main statement: `Scene.misfits_are_refused`.
-/
set_option autoImplicit false

namespace WorldScript

namespace Opcode

def jumpKinds : Opcode → List ValueKind
  | jumpIfFalse | jumpIfTrue => [.number]
  | jumpIfEqual | jumpIfNotEqual | jumpIfGreaterEqual | jumpIfGreater | jumpIfLess
  | jumpIfLessEqual => [.number, .number]
  | jumpIfStrEqual | jumpIfStrNotEqual => [.string, .string]
  | jumpIfEntityEqual | jumpIfEntityNotEqual => [.entity, .entity]
  | _ => []

/-- The fault of an instruction that cannot use its operand: the operand, if the values that the
opcode takes are there, and are of the right kinds. -/
inductive Refusal (op : Opcode) (stack : List Value) : Fault → Prop
  | operand (hkinds : op.jumpKinds <+: stack.map Value.kind) : Refusal op stack (.unhandledOpcode op)
  | short (hshort : stack.length < op.jumpKinds.length) : Refusal op stack .stackUnderflow
  | kind (henough : op.jumpKinds.length ≤ stack.length)
    (hkinds : ¬op.jumpKinds <+: stack.map Value.kind) (expected found : ValueKind) :
    Refusal op stack (.typeMismatch expected found)

end Opcode

/-! ### Jumps -/

namespace Taking

variable {op : Opcode} {operand : Operand}

theorem run_branch_of_misfit (h : operand.layout ≠ .codeOffset) (taken : Bool)
    (stack : List Value) :
    (branch op operand taken).run stack = (.error (.unhandledOpcode op), stack) := by
  cases operand with
  | codeOffset t => exact absurd rfl h
  | _ => rfl

/-- A test that two values of one kind pass or not, and that finds a mismatch in others. -/
def Sorts (kind : ValueKind) (f : Value → Value → Except Fault Bool) : Prop :=
  ∀ a b, (a.kind = kind ∧ b.kind = kind ∧ ∃ taken, f a b = .ok taken) ∨
    (¬(a.kind = kind ∧ b.kind = kind) ∧ ∃ expected found, f a b = .error (.typeMismatch expected found))

theorem sorts_equalAs (kind : ValueKind) : Sorts kind (Value.equalAs kind) := by
  intro a b
  cases kind <;> cases a <;> cases b <;>
    simp [Value.equalAs, Value.equals, Value.kind, Value.mismatch]

theorem Sorts.map {kind : ValueKind} {f : Value → Value → Except Fault Bool} (h : Sorts kind f)
    (g : Bool → Bool) : Sorts kind fun a b => (f a b).map g := by
  intro a b
  obtain ⟨ha, hb, taken, hf⟩ | ⟨hkinds, expected, found, hf⟩ := h a b
  · exact .inl ⟨ha, hb, g taken, by simp only [hf, Except.map]⟩
  · exact .inr ⟨hkinds, expected, found, by simp only [hf, Except.map]⟩

theorem sorts_orderedNumbers (p : Ordering → Bool) : Sorts .number (Value.orderedNumbers p) := by
  intro a b
  cases a <;> cases b <;>
    simp [Value.orderedNumbers, Value.asNumber, Value.kind, Value.mismatch, bind, Except.bind, pure,
      Except.pure]

/-- A taking that ends with such a fault, and has taken no more than the opcode takes. -/
def Refuses (t : Taking Action) (op : Opcode) : Prop :=
  ∀ stack, ∃ e, op.Refusal stack e ∧
    ∃ k ≤ op.jumpKinds.length, t.run stack = (.error e, stack.drop k)

theorem refuses_branch (h : operand.layout ≠ .codeOffset) (hop : op.jumpKinds = []) (taken : Bool) :
    (branch op operand taken).Refuses op := fun stack =>
  ⟨_, .operand (hop ▸ List.nil_prefix), 0, Nat.zero_le _, run_branch_of_misfit h taken stack⟩

theorem refuses_branchIf (h : operand.layout ≠ .codeOffset) (hop : op.jumpKinds = [.number])
    (p : Binary32 → Bool) : (branchIf op operand p).Refuses op := by
  intro stack
  match stack with
  | [] => exact ⟨_, .short (by simp [hop]), 0, Nat.zero_le _, rfl⟩
  | .number n :: rest =>
    exact ⟨_, .operand (by simp [hop, Value.kind]), 1, by simp [hop],
      run_branch_of_misfit h (p n) rest⟩
  | .string _ :: rest | .entity _ :: rest =>
    exact ⟨_, .kind (by simp [hop]) (by simp [hop, Value.kind]) _ _, 1, by simp [hop], rfl⟩

theorem refuses_branchOn {kind : ValueKind} {f : Value → Value → Except Fault Bool}
    (h : operand.layout ≠ .codeOffset) (hop : op.jumpKinds = [kind, kind]) (hf : Sorts kind f) :
    (branchOn op operand f).Refuses op := by
  intro stack
  match stack with
  | [] => exact ⟨_, .short (by simp [hop]), 0, Nat.zero_le _, rfl⟩
  | [_] => exact ⟨_, .short (by simp [hop]), 1, by simp [hop], rfl⟩
  | a :: b :: rest =>
    have hrun : (branchOn op operand f).run (a :: b :: rest) =
        (check (f a b) >>= branch op operand).run rest := rfl
    rw [hrun]
    obtain ⟨ha, hb, taken, hok⟩ | ⟨hkinds, expected, found, herror⟩ := hf a b
    · refine ⟨_, .operand (by simp [hop, ha, hb]), 2, by simp [hop], ?_⟩
      rw [hok]
      exact run_branch_of_misfit h taken rest
    · refine ⟨_, .kind (by simp [hop]) ?_ expected found, 2, by simp [hop], ?_⟩
      · simpa [hop, eq_comm] using hkinds
      · rw [herror]
        rfl

theorem refuses_flowAction (hfamily : op.family = .flow) (h : operand.layout ≠ .codeOffset) :
    (op.flowAction operand).Refuses op := by
  cases op with
  | jump => exact refuses_branch h rfl true
  | jumpIfFalse | jumpIfTrue => exact refuses_branchIf h rfl _
  | jumpIfEqual | jumpIfStrEqual | jumpIfEntityEqual =>
    exact refuses_branchOn h rfl (sorts_equalAs _)
  | jumpIfNotEqual | jumpIfStrNotEqual | jumpIfEntityNotEqual =>
    exact refuses_branchOn h rfl ((sorts_equalAs _).map Bool.not)
  | jumpIfGreaterEqual | jumpIfGreater | jumpIfLess | jumpIfLessEqual =>
    exact refuses_branchOn h rfl (sorts_orderedNumbers _)
  | _ => cases hfamily

/-! ### Calls and moves -/

theorem refuses_throw (hop : op.jumpKinds = []) :
    Refuses (throw (.unhandledOpcode op)) op := fun _ =>
  ⟨_, .operand (hop ▸ List.nil_prefix), 0, Nat.zero_le _, rfl⟩

theorem refuses_call (h : operand.layout ≠ .callTarget) :
    (Opcode.call.stackAction operand).Refuses .call := by
  cases operand with
  | callTarget t => exact absurd rfl h
  | _ => exact refuses_throw rfl

theorem refuses_memoryAction (hfamily : op.family = .memory)
    (h : ∀ other : Opcode, other.family = .memory → other.layout ≠ operand.layout)
    (s : Script) : (op.memoryAction operand s).Refuses op := by
  have hop : op.jumpKinds = [] := by
    cases op <;> first | rfl | cases hfamily
  cases operand with
  | none | codeOffset t | callTarget t => exact refuses_throw hop
  | slot i => exact absurd rfl (h .load rfl)
  | number n => exact absurd rfl (h .pushNumber rfl)
  | stringIndex i => exact absurd rfl (h .pushString rfl)
  | entity e => exact absurd rfl (h .pushEntity rfl)

end Taking

namespace Instruction

variable {i : Instruction}

/-- The operand is for another opcode that moves values, as its own opcode does. -/
def Masquerades (i : Instruction) : Prop :=
  i.opcode.family = .memory ∧ ∃ op : Opcode, op.family = .memory ∧ op.layout = i.operand.layout

theorem refuses_action (htakes : i.opcode.layout ≠ .none) (hmisfit : ¬i.Fits)
    (hplain : ¬i.Masquerades) (s : Script) (w : World) : (i.action s w).Refuses i.opcode := by
  obtain ⟨op, operand, line⟩ := i
  have hfamily : op.family = .flow ∧ op.layout = .codeOffset ∨ op.family = .memory ∨ op = .call := by
    cases op <;> first | exact absurd rfl htakes | simp [Opcode.family, Opcode.layout]
  obtain ⟨hflow, hlayout⟩ | hmemory | rfl := hfamily
  · simp only [action, hflow]
    refine Taking.refuses_flowAction hflow ?_
    rwa [← hlayout]
  · simp only [action, hmemory]
    exact Taking.refuses_memoryAction hmemory (fun other hother he =>
      hplain ⟨hmemory, other, hother, he⟩) s
  · exact Taking.refuses_call hmisfit

end Instruction

namespace Scene

variable {s : Scene} {i : Instruction}

theorem settle_memory (hfamily : i.opcode.family = .memory) (s : Scene) :
    (s.settle i).2.script.frames = s.script.frames ∧
      (s.settle i).2.script.position = s.script.position := by
  rcases hx : s.execute i with ⟨e | outcome, s'⟩
  · obtain ⟨stack, dice, rfl⟩ := execute_error_eq hx
    obtain ⟨state, hinterrupt⟩ := Script.interrupt_eq { s.script with stack } e
    rw [settle_of_error hx]
    change (Script.interrupt { s.script with stack } e).frames = _ ∧
      (Script.interrupt { s.script with stack } e).position = _
    rw [hinterrupt]
    exact ⟨rfl, rfl⟩
  · obtain ⟨a, rest, hrun, hperform⟩ := execute_ok hx
    have haction : i.action s.script s.world = i.opcode.memoryAction i.operand s.script := by
      simp only [Instruction.action, hfamily]
    rw [haction] at hrun
    have hmoves := (i.opcode.draws_memoryAction i.operand s.script
      (P := fun a => (∃ v, a = .push v) ∨ ∃ slot v, a = .store slot v)
      (fun v => .inl ⟨v, rfl⟩) (fun slot v => .inr ⟨slot, v, rfl⟩) _ _ _ hrun).2 a rfl
    rw [settle_of_ok hx]
    obtain ⟨v, rfl⟩ | ⟨slot, v, rfl⟩ := hmoves
    · obtain ⟨-, hpush⟩ := withScript_eq_ok hperform
      obtain ⟨-, hscript⟩ := Script.push_eq_ok hpush
      rw [hscript]
      exact ⟨rfl, rfl⟩
    · obtain ⟨-, hstore⟩ := withScript_eq_ok hperform
      rw [Script.setSlot_eq_ok hstore]
      exact ⟨rfl, rfl⟩

theorem settle_misfit (hstate : s.script.state = .running) (htakes : i.opcode.layout ≠ .none)
    (hmisfit : ¬i.Fits) (hplain : ¬i.Masquerades) :
    ∃ e, i.opcode.Refusal s.script.stack e ∧ ∃ k ≤ i.opcode.jumpKinds.length,
      s.settle i = (.interrupted, { s with script :=
        { s.script with stack := s.script.stack.drop k, state := .interrupted e } }) := by
  obtain ⟨e, he, k, hk, hrun⟩ :=
    i.refuses_action htakes hmisfit hplain s.script s.world s.script.stack
  exact ⟨e, he, k, hk, settle_of_fault hstate hrun⟩

/-- An operand for another opcode makes an instruction fail, with nothing done but that values are
taken, unless both opcodes move values. -/
theorem misfits_are_refused (s : Scene) (hstate : s.script.state = .running) (i : Instruction)
    (htakes : i.opcode.layout ≠ .none) (hmisfit : ¬i.Fits) :
    ((s.settle i).2.script.frames = s.script.frames ∧
      (s.settle i).2.script.position = s.script.position) ∧
    (¬i.Masquerades → ∃ e, i.opcode.Refusal s.script.stack e ∧ ∃ k ≤ i.opcode.jumpKinds.length,
      s.settle i = (.interrupted, { s with script :=
        { s.script with stack := s.script.stack.drop k, state := .interrupted e } })) := by
  refine ⟨?_, settle_misfit hstate htakes hmisfit⟩
  by_cases hplain : i.Masquerades
  · exact settle_memory hplain.1 s
  · obtain ⟨e, -, k, -, hsettle⟩ := settle_misfit hstate htakes hmisfit hplain
    rw [hsettle]
    exact ⟨rfl, rfl⟩

theorem misfits_are_refused_jump :
    let i : Instruction := ⟨.jumpIfFalse, .none, 0⟩
    let s := holding Value.zero Value.zero
    s.script.state = .running ∧ i.opcode.layout ≠ .none ∧ ¬i.Fits ∧
      ∃ e, Opcode.Refusal .jumpIfFalse [Value.zero, Value.zero] e ∧ ∃ k ≤ 1,
        s.settle i = (.interrupted, { s with script :=
          { s.script with stack := [Value.zero, Value.zero].drop k, state := .interrupted e } }) := by
  intro i s
  have htakes : i.opcode.layout ≠ .none := by decide
  have hmisfit : ¬i.Fits := by decide
  have hplain : ¬i.Masquerades := fun h => absurd h.1 (by decide)
  exact ⟨rfl, htakes, hmisfit, (misfits_are_refused s rfl i htakes hmisfit).2 hplain⟩

/-- An operand that does not fit is found to be unhandled, and nothing is pushed. -/
def FindsUnhandled (s : Scene) (i : Instruction) : Prop :=
  ∃ k, s.settle i = (.interrupted, { s with script := { s.script with
    stack := s.script.stack.drop k, state := .interrupted (.unhandledOpcode i.opcode) } })

def atOnly (i : Instruction) (sound : unitDefect? [i] [] = none) : Scene :=
  { holding Value.zero Value.zero with
    script := { Script.start ⟨0⟩ ⟨0, #[], #[i], sound⟩ none {} with position := 1 } }

/-- The first instruction of a unit may push a number under the name of a load, or be a jump that
misses its value and does not get to its operand. -/
theorem misfits_pass_or_fault :
    (¬∀ (unit : CodeUnit) (s : Scene) (i : Instruction),
      (Script.start ⟨0⟩ unit none {}).fetch? = some (i, s.script) → i.opcode.family = .memory →
        ¬i.Fits → s.FindsUnhandled i) ∧
    ¬∀ (unit : CodeUnit) (s : Scene) (i : Instruction),
      (Script.start ⟨0⟩ unit none {}).fetch? = some (i, s.script) → i.opcode.family = .flow →
        ¬i.Fits → s.FindsUnhandled i := by
  constructor <;> intro h
  · let load : Instruction := ⟨.load, .number Binary32.one, 0⟩
    obtain ⟨k, hk⟩ := h ⟨0, #[], #[load], rfl⟩ (atOnly load rfl) load rfl rfl (by decide)
    have hinterrupted : ((atOnly load rfl).settle load).1 = .interrupted := congrArg Prod.fst hk
    exact absurd hinterrupted (by decide)
  · let jump : Instruction := ⟨.jumpIfFalse, .none, 0⟩
    obtain ⟨k, hk⟩ := h ⟨0, #[], #[jump], rfl⟩ (atOnly jump rfl) jump rfl rfl (by decide)
    have hunhandled : ((atOnly jump rfl).settle jump).2.script.state =
        .interrupted (.unhandledOpcode .jumpIfFalse) := congrArg (fun r => r.2.script.state) hk
    exact absurd hunhandled (by decide)

end Scene

end WorldScript
