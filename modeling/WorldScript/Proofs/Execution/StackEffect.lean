import WorldScript.Proofs.Execution.Taking

/-!
The instruction set as a table: how many values each opcode takes off the stack and puts on it, and
which action it can have. An instruction with an operand of the right kind takes just as many values
as the table says, and if it finds a fault, that is none of the code.

Main statement: `Instruction.takes_action`.
-/
set_option autoImplicit false

namespace WorldScript

namespace Opcode

def stackEffect : Opcode → Nat × Nat
  | nop | jump | call | .return | startCombat | endCombat => (0, 0)
  | load | pushNumber | pushString | pushEntity | getSelf | getInterfaceState | inCombat => (0, 1)
  | negate | not | numberToString | stringToNumber | random | entityExists | getName
  | getHitPoints | isWallOpen | getAlignment | getActionPoints => (1, 1)
  | jumpIfFalse | jumpIfTrue | store | pop | print | showMessage | destroyEntity | wait
  | dialog => (1, 0)
  | dup => (1, 2)
  | multiply | add | modulo | divide | subtract | concat | and | or
  | equal | notEqual | less | lessEqual | greater | greaterEqual
  | strEqual | strNotEqual | entityEqual | entityNotEqual | getDistance | getEquipped => (2, 1)
  | jumpIfEqual | jumpIfNotEqual | jumpIfStrEqual | jumpIfStrNotEqual | jumpIfEntityEqual
  | jumpIfEntityNotEqual | jumpIfGreaterEqual | jumpIfGreater | jumpIfLess | jumpIfLessEqual
  | setHitPoints | setWallOpen | setAlignment => (2, 0)
  | speak | fadeScreen | attack => (3, 0)
  | moveTo => (4, 0)

/-- The values that really leave the stack: the one that `dup` copies stays in place. -/
def taken : Opcode → Nat
  | dup => 0
  | op => op.stackEffect.1

def placed : Opcode → Nat
  | dup => 1
  | op => op.stackEffect.2

def answers : Opcode → Bool
  | attack | dialog => true
  | _ => false

def waitKind? : Opcode → Option WaitKind
  | wait => some .alarm
  | moveTo | speak | attack => some .command
  | dialog | fadeScreen => some .window
  | _ => none

theorem isApi_of_waitKind? {op : Opcode} {kind : WaitKind} (h : op.waitKind? = some kind) :
    op.isApi = true := by
  cases op <;> first | rfl | cases h

theorem placed_of_waitKind? {op : Opcode} {kind : WaitKind} (h : op.waitKind? = some kind) :
    op.placed = 0 := by
  cases op <;> first | rfl | cases h

theorem taken_pos_of_answers {op : Opcode} (h : op.answers = true) : 0 < op.taken := by
  cases op <;> first | decide | cases h

theorem placed_of_flow {op : Opcode} (h : op.family = .flow) : op.placed = 0 := by
  cases op <;> first | rfl | cases h

theorem layout_of_flow {op : Opcode} (h : op.family = .flow) : op.layout = .codeOffset := by
  cases op <;> first | rfl | cases h

theorem eq_pushString {op : Opcode} (h : op.layout = .stringIndex) : op = .pushString := by
  cases op <;> first | rfl | cases h

end Opcode

/-! ### The actions of an opcode -/

inductive Action.Of (op : Opcode) (operand : Operand) : Action → Prop
  | proceed : op.placed = 0 → Of op operand .proceed
  | push (v : Value) : op.placed = 1 → Of op operand (.push v)
  | store (slot : UInt16) (v : Value) : op = .store → operand = .slot slot →
    Of op operand (.store slot.toNat v)
  | jump (target : UInt32) : op.family = .flow → operand = .codeOffset target →
    Of op operand (.jump target.toNat)
  | call (target : UInt16) : op = .call → operand = .callTarget target →
    Of op operand (.call target.toNat)
  | ret : op = .return → Of op operand .ret
  | roll (bound : Nat) : op = .random → Of op operand (.roll bound)
  | change (c : Change) : op.isApi = true → op.placed = 0 → Of op operand (.change c)
  | issue (r : Request) : op.waitKind? = some (Task.request r).kind →
    op.answers = (Task.request r).pushesResult → Of op operand (.issue r)
  | await (task : Task) : op.waitKind? = some task.kind → op.answers = task.pushesResult →
    Of op operand (.await task)

def Action.pushes : Action → Nat
  | push _ | roll _ => 1
  | proceed | store _ _ | jump _ | call _ | ret | change _ | issue _ | await _ => 0

theorem Action.Of.placed_eq {op : Opcode} {operand : Operand} {a : Action} (h : a.Of op operand) :
    op.placed = a.pushes := by
  cases h with
  | proceed hz => exact hz
  | push v ho => exact ho
  | store slot v hop => rw [hop]; rfl
  | jump target hop => exact Opcode.placed_of_flow hop
  | call target hop => rw [hop]; rfl
  | ret hop => rw [hop]; rfl
  | roll bound hop => rw [hop]; rfl
  | change c _ hz => exact hz
  | issue r hk => exact Opcode.placed_of_waitKind? hk
  | await task hk => exact Opcode.placed_of_waitKind? hk

namespace Opcode

open Taking

variable {op : Opcode} {operand : Operand}

theorem of_ask {r : Request} (wait : Bool) (h : op.waitKind? = some (Task.request r).kind)
    (ha : op.answers = (Task.request r).pushesResult) : (ask wait r).Of op operand := by
  cases wait with
  | true => exact .await _ h ha
  | false => exact .issue _ h ha

theorem takes_unary {f : Value → Except Fault Value} (hf : ∀ v, Blameless (f v))
    (h : op.placed = 1) : (unary f).Takes 1 (Action.Of op operand) :=
  takes_pop.one fun v => (takes_check (hf v)).look fun _ => takes_pure (.push _ h)

theorem takes_binary {f : Value → Value → Except Fault Value} (hf : ∀ a b, Blameless (f a b))
    (h : op.placed = 1) : (binary f).Takes 2 (Action.Of op operand) :=
  takes_pop.one fun a => takes_pop.one fun b =>
    (takes_check (hf a b)).look fun _ => takes_pure (.push _ h)

theorem takes_relation {f : Value → Value → Except Fault Bool} (hf : ∀ a b, Blameless (f a b))
    (h : op.placed = 1) : (relation f).Takes 2 (Action.Of op operand) :=
  takes_binary (fun a b => (hf a b).map _) h

theorem takes_mathAction (h : op.family = .math) :
    op.mathAction.Takes op.taken (Action.Of op operand) := by
  cases op with
  | negate => exact takes_unary Value.blameless_neg rfl
  | not => exact takes_unary Value.blameless_not rfl
  | numberToString => exact takes_unary Value.blameless_numberToString rfl
  | stringToNumber => exact takes_unary Value.blameless_stringToNumber rfl
  | add => exact takes_binary Value.blameless_add rfl
  | subtract | multiply => exact takes_binary (Value.blameless_arithmetic _) rfl
  | divide | modulo =>
    exact takes_binary (Value.blameless_divided (Value.blameless_arithmetic _)) rfl
  | concat =>
    exact takes_string.one fun _ => takes_string.one fun _ => takes_pure (.push _ rfl)
  | and => exact takes_binary Value.blameless_and rfl
  | or => exact takes_binary Value.blameless_or rfl
  | equal | strEqual | entityEqual => exact takes_relation (Value.blameless_equalAs _) rfl
  | notEqual | strNotEqual | entityNotEqual =>
    exact takes_relation (Value.blameless_notEqualAs _) rfl
  | less | lessEqual | greater | greaterEqual =>
    exact takes_relation (Value.blameless_ordered _) rfl
  | _ => cases h

theorem takes_branch (hop : op.family = .flow) (hfits : operand.layout = op.layout) (b : Bool) :
    (branch op operand b).Takes 0 (Action.Of op operand) := by
  rw [layout_of_flow hop] at hfits
  cases operand with
  | codeOffset target =>
    cases b with
    | true => exact takes_pure (.jump target hop rfl)
    | false => exact takes_pure (.proceed (placed_of_flow hop))
  | _ => cases hfits

theorem takes_branchIf (hop : op.family = .flow) (hfits : operand.layout = op.layout)
    (p : Binary32 → Bool) : (branchIf op operand p).Takes 1 (Action.Of op operand) :=
  takes_number.one fun _ => takes_branch hop hfits _

theorem takes_branchOn (hop : op.family = .flow) (hfits : operand.layout = op.layout)
    {f : Value → Value → Except Fault Bool} (hf : ∀ a b, Blameless (f a b)) :
    (branchOn op operand f).Takes 2 (Action.Of op operand) :=
  takes_pop.one fun a => takes_pop.one fun b =>
    (takes_check (hf a b)).look fun _ => takes_branch hop hfits _

theorem takes_flowAction (h : op.family = .flow) (hfits : operand.layout = op.layout) :
    (op.flowAction operand).Takes op.taken (Action.Of op operand) := by
  cases op with
  | jump => exact takes_branch h hfits true
  | jumpIfFalse | jumpIfTrue => exact takes_branchIf h hfits _
  | jumpIfEqual | jumpIfStrEqual | jumpIfEntityEqual =>
    exact takes_branchOn h hfits (Value.blameless_equalAs _)
  | jumpIfNotEqual | jumpIfStrNotEqual | jumpIfEntityNotEqual =>
    exact takes_branchOn h hfits (Value.blameless_notEqualAs _)
  | jumpIfGreaterEqual | jumpIfGreater | jumpIfLess | jumpIfLessEqual =>
    exact takes_branchOn h hfits (Value.blameless_orderedNumbers _)
  | _ => cases h

theorem takes_memoryAction (s : Script) (h : op.family = .memory)
    (hfits : operand.layout = op.layout)
    (hstring : ∀ k, operand.stringIndex? = some k → k < s.unit.strings.size) :
    (op.memoryAction operand s).Takes op.taken (Action.Of op operand) := by
  cases op with
  | load =>
    cases operand with
    | slot k => exact (takes_check (s.blameless_slot _)).look fun _ => takes_pure (.push _ rfl)
    | _ => cases hfits
  | store =>
    cases operand with
    | slot k =>
      exact (takes_check (s.blameless_slot _)).look fun _ => takes_pop.one fun _ =>
        takes_pure (.store k _ rfl rfl)
    | _ => cases hfits
  | pushNumber =>
    cases operand with
    | number n => exact takes_pure (.push _ rfl)
    | _ => cases hfits
  | pushString =>
    cases operand with
    | stringIndex k =>
      have hs := s.blameless_string (hstring k.toNat rfl)
      exact (takes_check hs).look fun _ => takes_pure (.push _ rfl)
    | _ => cases hfits
  | pushEntity =>
    cases operand with
    | entity h => exact takes_pure (.push _ rfl)
    | _ => cases hfits
  | _ => cases h

theorem takes_stackAction (h : op.family = .stack) (hfits : operand.layout = op.layout) :
    (op.stackAction operand).Takes op.taken (Action.Of op operand) := by
  cases op with
  | nop => exact takes_pure (.proceed rfl)
  | pop => exact takes_pop.one fun _ => takes_pure (.proceed rfl)
  | dup => exact takes_peek.look fun _ => takes_pure (.push _ rfl)
  | call =>
    cases operand with
    | callTarget target => exact takes_pure (.call target rfl rfl)
    | _ => cases hfits
  | «return» => exact takes_pure (.ret rfl)
  | _ => cases h

theorem takes_ofCreature (w : World) (f : Entity → Binary32) (h : op.placed = 1) :
    (ofCreature w f).Takes 1 (Action.Of op operand) :=
  takes_entity.one fun _ => (takes_check (w.blameless_requireKind _ _)).look fun _ =>
    (takes_check (w.blameless_entity _)).look fun _ => takes_pure (.push _ h)

theorem takes_worldAction (s : Script) (w : World) (h : op.family = .world) :
    (op.worldAction s w).Takes op.taken (Action.Of op operand) := by
  cases op with
  | random =>
    refine takes_number.one fun n => ?_
    split
    · exact takes_throw rfl
    · exact takes_pure (.roll _ rfl)
  | getSelf =>
    simp only [worldAction]
    split
    · exact takes_throw rfl
    · exact (takes_check (w.blameless_requireEntity _)).look fun _ => takes_pure (.push _ rfl)
  | entityExists => exact takes_entity.one fun _ => takes_pure (.push _ rfl)
  | getName =>
    exact takes_entity.one fun _ => (takes_check (w.blameless_entity _)).look fun _ =>
      takes_pure (.push _ rfl)
  | getHitPoints | getAlignment => exact takes_ofCreature w _ rfl
  | getDistance =>
    exact takes_entity.one fun _ => takes_entity.one fun _ =>
      (takes_check (w.blameless_entity _)).look fun _ =>
        (takes_check (w.blameless_entity _)).look fun _ => takes_pure (.push _ rfl)
  | isWallOpen =>
    exact takes_entity.one fun _ => (takes_check (w.blameless_requireKind _ _)).look fun _ =>
      (takes_check (w.blameless_entity _)).look fun _ => takes_pure (.push _ rfl)
  | getEquipped =>
    refine takes_entity.one fun _ => (takes_index _ _).one fun i =>
      (takes_check (w.blameless_requireKind _ _)).look fun _ => ?_
    split
    · exact takes_throw rfl
    · exact (takes_check (w.blameless_entity _)).look fun _ => takes_pure (.push _ rfl)
  | setHitPoints =>
    refine takes_entity.one fun _ => takes_number.one fun _ =>
      (takes_check (w.blameless_requireKind _ _)).look fun _ => ?_
    split
    · exact takes_throw rfl
    · exact takes_pure (.change _ rfl rfl)
  | setWallOpen =>
    exact takes_entity.one fun _ => takes_flag.one fun _ =>
      (takes_check (w.blameless_requireKind _ _)).look fun _ => takes_pure (.change _ rfl rfl)
  | setAlignment =>
    refine takes_entity.one fun _ => (takes_index _ _).one fun i =>
      (takes_check (w.blameless_requireKind _ _)).look fun _ => ?_
    split
    · exact takes_throw rfl
    · exact takes_pure (.change _ rfl rfl)
  | destroyEntity =>
    exact takes_entity.one fun _ => (takes_check (w.blameless_requireEntity _)).look fun _ =>
      takes_pure (.change _ rfl rfl)
  | wait => exact takes_seconds.one fun _ => takes_pure (.await _ rfl rfl)
  | moveTo =>
    refine takes_entity.one fun _ => takes_number.one fun _ => takes_number.one fun _ =>
      takes_flag.one fun _ => (takes_check (w.blameless_requireKind _ _)).look fun _ => ?_
    split
    · exact takes_throw rfl
    · exact takes_pure (of_ask _ rfl rfl)
  | speak =>
    exact takes_entity.one fun _ => takes_string.one fun _ => takes_flag.one fun _ =>
      (takes_check (w.blameless_requireEntity _)).look fun _ => takes_pure (of_ask _ rfl rfl)
  | _ => cases h

theorem takes_guiAction (w : World) (h : op.family = .gui) :
    (op.guiAction w).Takes op.taken (Action.Of op operand) := by
  cases op with
  | print => exact takes_string.one fun _ => takes_pure (.change _ rfl rfl)
  | showMessage =>
    exact takes_string.one fun _ => (takes_check (w.blameless_requireMain _)).look fun _ =>
      takes_pure (.change _ rfl rfl)
  | dialog =>
    exact takes_string.one fun _ => (takes_check (w.blameless_requireMain _)).look fun _ =>
      takes_pure (.await _ rfl rfl)
  | fadeScreen =>
    exact takes_flag.one fun _ => takes_seconds.one fun _ => takes_flag.one fun _ =>
      takes_pure (of_ask _ rfl rfl)
  | getInterfaceState => exact takes_pure (.push _ rfl)
  | _ => cases h

theorem takes_combatAction (w : World) (h : op.family = .combat) :
    (op.combatAction w).Takes op.taken (Action.Of op operand) := by
  cases op with
  | inCombat => exact takes_pure (.push _ rfl)
  | startCombat =>
    refine (takes_check (w.blameless_requireMain _)).look fun _ => ?_
    split
    · exact takes_throw rfl
    · exact takes_pure (.change _ rfl rfl)
  | endCombat =>
    simp only [combatAction]
    split
    · exact takes_throw rfl
    · exact takes_pure (.change _ rfl rfl)
  | attack =>
    refine takes_entity.one fun _ => takes_entity.one fun _ => takes_flag.one fun _ => ?_
    split
    · exact takes_throw rfl
    · refine (takes_check (w.blameless_requireKind _ _)).look fun _ =>
        (takes_check (w.blameless_requireKind _ _)).look fun _ =>
          (takes_check (w.blameless_entity _)).look fun _ => ?_
      split
      · exact takes_throw rfl
      · exact takes_pure (of_ask _ rfl rfl)
  | getActionPoints => exact takes_ofCreature w _ rfl
  | _ => cases h

end Opcode

namespace Instruction

variable {i : Instruction}

/-- An instruction that fits takes just what its opcode takes, and finds an action of its opcode.
With a fault, which is none of the code, it has taken at most as much. -/
theorem takes_action (s : Script) (w : World) (hfits : i.Fits)
    (hstring : ∀ k, i.operand.stringIndex? = some k → k < s.unit.strings.size) :
    (i.action s w).Takes i.opcode.taken (Action.Of i.opcode i.operand) := by
  unfold action
  split
  case h_1 h => exact Opcode.takes_mathAction h
  case h_2 h => exact Opcode.takes_flowAction h hfits
  case h_3 h => exact Opcode.takes_memoryAction s h hfits hstring
  case h_4 h => exact Opcode.takes_stackAction h hfits
  case h_5 h => exact Opcode.takes_worldAction s w h
  case h_6 h => exact Opcode.takes_guiAction w h
  case h_7 h => exact Opcode.takes_combatAction w h

theorem takes_action_of_isApi (s : Script) (w : World) (hapi : i.opcode.isApi = true) :
    (i.action s w).Takes i.opcode.taken (Action.Of i.opcode i.operand) := by
  have hfamily : i.opcode.family = .world ∨ i.opcode.family = .gui ∨
      i.opcode.family = .combat := by
    revert hapi
    cases i.opcode <;> decide
  unfold action
  obtain h | h | h := hfamily
  · simp only [h]
    exact Opcode.takes_worldAction s w h
  · simp only [h]
    exact Opcode.takes_guiAction w h
  · simp only [h]
    exact Opcode.takes_combatAction w h

end Instruction

end WorldScript
