import WorldScript.Proofs.Execution.Jumps

/-!
Operators of two values, and operands of the wrong kind. Such operands are a type mismatch, whatever
their values are, unless one operand alone makes the answer: a left operand of `and` that does not
hold, or a divisor that is zero. The other operand is then not looked at.

Main statement: `Scene.mismatches_surface_unless_foregone`.
-/
set_option autoImplicit false

namespace WorldScript

namespace Opcode

def operandKinds? : Opcode → Option (List ValueKind)
  | add | less | lessEqual | greater | greaterEqual => some [.number, .string]
  | subtract | multiply | divide | modulo | and | or | equal | notEqual => some [.number]
  | concat | strEqual | strNotEqual => some [.string]
  | entityEqual | entityNotEqual => some [.entity]
  | _ => none

theorem family_of_operandKinds? {op : Opcode} {kinds : List ValueKind}
    (h : op.operandKinds? = some kinds) : op.family = .math := by
  cases op <;> first | rfl | cases h

/-- The answer of an operator that one operand makes alone. -/
def foregone? : Opcode → Value → Value → Option (Except Fault Value)
  | and, .number n, _ => if Value.holds n then none else some (.ok (Value.ofBool false))
  | divide, _, .number n | modulo, _, .number n =>
    if n.isZero then some (.error .divisionByZero) else none
  | _, _, _ => none

end Opcode

namespace Value

/-- An answer to two values is a type mismatch just if they are not both of one of the kinds and the
answer is not foregone, and a foregone answer is the answer. -/
def Minded (kinds : List ValueKind) (a b : Value) (foregone : Option (Except Fault Value))
    (answer : Except Fault Value) : Prop :=
  ((∃ expected found, answer = .error (.typeMismatch expected found)) ↔
    ¬(a.kind ∈ kinds ∧ b.kind = a.kind) ∧ foregone = none) ∧
  ∀ r, foregone = some r → answer = r

def Minds (kinds : List ValueKind) (foregone? : Value → Value → Option (Except Fault Value))
    (f : Value → Value → Except Fault Value) : Prop :=
  ∀ a b, Minded kinds a b (foregone? a b) (f a b)

def undecided (_ _ : Value) : Option (Except Fault Value) := none

theorem minds_add : Minds [.number, .string] undecided add := by
  intro a b
  cases a <;> cases b <;> simp [Minded, undecided, add, kind, mismatch]

theorem minds_arithmetic (f : Binary32 → Binary32 → Binary32) :
    Minds [.number] undecided (arithmetic f) := by
  intro a b
  cases a <;> cases b <;>
    simp [Minded, undecided, arithmetic, asNumber, kind, mismatch, bind, Except.bind, pure, Except.pure]

/-- The divisor is looked at first, and the dividend only if the divisor is not zero. -/
theorem minds_divided {op : Opcode} (hop : op = .divide ∨ op = .modulo)
    (f : Binary32 → Binary32 → Binary32) :
    Minds [.number] op.foregone? (divided (arithmetic f)) := by
  intro a b
  obtain rfl | rfl := hop <;> cases b with
  | number m =>
    cases hm : m.isZero <;> cases a <;>
      simp [Minded, Opcode.foregone?, divided, arithmetic, asNumber, kind, mismatch, hm, bind, Except.bind,
        pure, Except.pure, throw, throwThe, MonadExceptOf.throw]
  | string | entity =>
    cases a <;>
      simp [Minded, Opcode.foregone?, divided, asNumber, kind, mismatch, bind, Except.bind]

theorem minds_and : Minds [.number] (Opcode.foregone? .and) and := by
  intro a b
  cases a with
  | number n =>
    cases hn : holds n <;> cases b <;>
      simp [Minded, Opcode.foregone?, and, isTrue, asNumber, Except.map, kind, mismatch, hn, bind,
        Except.bind, pure, Except.pure]
  | string | entity =>
    cases b <;>
      simp [Minded, Opcode.foregone?, and, isTrue, asNumber, Except.map, kind, mismatch, bind, Except.bind]

theorem minds_or : Minds [.number] undecided or := by
  intro a b
  cases a <;> cases b <;>
    simp [Minded, undecided, or, isTrue, asNumber, Except.map, kind, mismatch, bind, Except.bind, pure,
      Except.pure]

theorem minds_equalAs (k : ValueKind) (f : Bool → Value) :
    Minds [k] undecided fun a b => (equalAs k a b).map f := by
  intro a b
  cases k <;> cases a <;> cases b <;> simp [Minded, undecided, equalAs, equals, Except.map, kind, mismatch]

theorem minds_ordered (p : Ordering → Bool) (f : Bool → Value) :
    Minds [.number, .string] undecided fun a b => (ordered p a b).map f := by
  intro a b
  cases a <;> cases b <;>
    simp [Minded, undecided, ordered, compare, Except.map, kind, mismatch, bind, Except.bind, pure,
      Except.pure]

end Value

namespace Taking

theorem run_binary (f : Value → Value → Except Fault Value) (a b : Value) (rest : List Value) :
    (binary f).run (a :: b :: rest) = ((f a b).map .push, rest) := by
  change (check (f a b) >>= fun v => pure (Action.push v)).run rest = _
  cases f a b <;> rfl

end Taking

open Taking in
/-- The answer of an operator of two values, and what it leaves on the stack. Only `concat` takes its
operands one by one, and leaves the right one where the left one is no string. -/
theorem Opcode.run_mathAction {op : Opcode} {kinds : List ValueKind}
    (hop : op.operandKinds? = some kinds) (a b : Value) (rest : List Value) :
    ∃ answer left, op.mathAction.run (a :: b :: rest) = (answer.map .push, left) ∧
      Value.Minded kinds a b (op.foregone? a b) answer ∧
      (left = rest ∨ op = .concat ∧ left = b :: rest) := by
  have hbinary : ∀ f, op.mathAction = binary f → Value.Minds kinds op.foregone? f →
      ∃ answer left, op.mathAction.run (a :: b :: rest) = (answer.map .push, left) ∧
        Value.Minded kinds a b (op.foregone? a b) answer ∧
        (left = rest ∨ op = .concat ∧ left = b :: rest) := by
    intro f hf hminds
    exact ⟨f a b, rest, by rw [hf, run_binary], hminds a b, .inl rfl⟩
  cases op <;> cases hop
  case add => exact hbinary _ rfl Value.minds_add
  case subtract | multiply => exact hbinary _ rfl (Value.minds_arithmetic _)
  case divide => exact hbinary _ rfl (Value.minds_divided (.inl rfl) _)
  case modulo => exact hbinary _ rfl (Value.minds_divided (.inr rfl) _)
  case and => exact hbinary _ rfl Value.minds_and
  case or => exact hbinary _ rfl Value.minds_or
  case equal | strEqual | entityEqual => exact hbinary _ rfl (Value.minds_equalAs _ _)
  case notEqual | strNotEqual | entityNotEqual =>
    refine hbinary _ rfl ?_
    have hmap : ∀ r : Except Fault Bool,
        (r.map Bool.not).map Value.ofBool = r.map fun same => Value.ofBool !same := by
      rintro (e | same) <;> rfl
    simp only [hmap]
    exact Value.minds_equalAs _ _
  case less | lessEqual | greater | greaterEqual => exact hbinary _ rfl (Value.minds_ordered _ _)
  case concat =>
    cases a with
    | string s =>
      refine ⟨b.asString.map fun t => .string (s ++ t), rest, ?_, ?_, .inl rfl⟩
      · cases b <;> rfl
      · cases b <;> simp [Value.Minded, foregone?, Value.asString, Value.kind, Value.mismatch, Except.map]
    | number n =>
      exact ⟨.error (.typeMismatch .string .number), b :: rest, rfl,
        by simp [Value.Minded, foregone?, Value.kind], .inr ⟨rfl, rfl⟩⟩
    | entity h =>
      exact ⟨.error (.typeMismatch .string .entity), b :: rest, rfl,
        by simp [Value.Minded, foregone?, Value.kind], .inr ⟨rfl, rfl⟩⟩

namespace Scene

variable {s : Scene} {i : Instruction}

theorem settle_of_fault {e : Fault} {left : List Value} (hstate : s.script.state = .running)
    (hrun : (i.action s.script s.world).run s.script.stack = (.error e, left)) :
    s.settle i = (.interrupted,
      { s with script := { s.script with stack := left, state := .interrupted e } }) := by
  have hinterrupt : (s.withStack left).script.interrupt e =
      { s.script with stack := left, state := .interrupted e } := by
    simp [withStack, Script.interrupt, hstate, ScriptState.isFinished]
  rw [settle_of_error (execute_eq hrun), hinterrupt]
  rfl

theorem settle_of_answer {answer : Except Fault Value} {left : List Value}
    (hstate : s.script.state = .running) (hroom : left.length < s.script.maxStackDepth)
    (hrun : (i.action s.script s.world).run s.script.stack = (answer.map .push, left)) :
    s.settle i =
      match answer with
      | .ok v => (.continued, s.withStack (v :: left))
      | .error e =>
        (.interrupted, { s with script := { s.script with stack := left, state := .interrupted e } }) := by
  cases answer with
  | ok v =>
    have hpush : (s.withStack left).perform (.push v) = (.ok .continued, s.withStack (v :: left)) :=
      perform_push_of_room hroom
    have hx := execute_eq hrun
    simp only [Except.map, hpush] at hx
    exact settle_of_ok hx
  | error e => exact settle_of_fault hstate hrun

/-- An operator of two values finds a type mismatch just if the values are not both of one of its
kinds, unless one of them makes the answer alone. -/
theorem mismatches_surface_unless_foregone {id : ScriptId} {unit : CodeUnit}
    {owner : Option Handle} {settings : MachineSettings} (s : Scene)
    (hs : (Script.start id unit owner settings).Leads s.script)
    (hstate : s.script.state = .running) {op : Opcode} {kinds : List ValueKind}
    (hop : op.operandKinds? = some kinds) (operand : Operand) (offset : Nat) {a b : Value}
    {rest : List Value} (hstack : s.script.stack = a :: b :: rest) :
    ((∃ expected found, (s.settle ⟨op, operand, offset⟩).2.script.state =
        .interrupted (.typeMismatch expected found)) ↔
      ¬(a.kind ∈ kinds ∧ b.kind = a.kind) ∧ op.foregone? a b = none) ∧
    (∀ v, op.foregone? a b = some (.ok v) →
      s.settle ⟨op, operand, offset⟩ = (.continued, s.withStack (v :: rest))) ∧
    ∀ e, op.foregone? a b = some (.error e) → s.settle ⟨op, operand, offset⟩ =
      (.interrupted, { s with script := { s.script with stack := rest, state := .interrupted e } }) := by
  obtain ⟨answer, left, hrun, ⟨hmismatch, hforegone⟩, hleft⟩ := Opcode.run_mathAction hop a b rest
  have haction : ((⟨op, operand, offset⟩ : Instruction).action s.script s.world).run s.script.stack =
      (answer.map .push, left) := by
    simp only [Instruction.action, Opcode.family_of_operandKinds? hop, hstack]
    exact hrun
  have hroom : (b :: rest).length < s.script.maxStackDepth := hs.room hstack
  have hlength : left.length < s.script.maxStackDepth := by
    obtain rfl | ⟨-, rfl⟩ := hleft
    · exact Nat.lt_of_succ_lt hroom
    · exact hroom
  have hsettle := settle_of_answer hstate hlength haction
  refine ⟨?_, ?_, ?_⟩
  · rw [hsettle, ← hmismatch]
    cases answer with
    | ok v => simp [withStack, hstate]
    | error e => simp
  · intro v hv
    obtain rfl := hforegone _ hv
    obtain rfl | ⟨rfl, -⟩ := hleft
    · exact hsettle
    · cases hv
  · intro e he
    obtain rfl := hforegone _ he
    obtain rfl | ⟨rfl, -⟩ := hleft
    · exact hsettle
    · cases he

theorem mismatches_surface_unless_foregone_holding :
    (Script.start ⟨0⟩ ⟨0, #[], #[], rfl⟩ none {}).Leads
        (holding Value.zero (.string "key")).script ∧
      (holding Value.zero (.string "key")).script.state = .running ∧
      (holding Value.zero (.string "key")).script.stack = [Value.zero, .string "key"] ∧
      (∃ expected found, ((holding Value.zero (.string "key")).settle
        ⟨.or, .none, 0⟩).2.script.state = .interrupted (.typeMismatch expected found)) ∧
      (holding Value.zero (.string "key")).settle ⟨.and, .none, 0⟩ =
        (.continued, (holding Value.zero (.string "key")).withStack [Value.zero]) := by
  have hleads := leads_holding Value.zero (.string "key")
  have hkinds : Opcode.operandKinds? .or = some [.number] ∧
      Opcode.operandKinds? .and = some [.number] := ⟨rfl, rfl⟩
  obtain ⟨hor, -⟩ := mismatches_surface_unless_foregone _ hleads rfl hkinds.1 .none 0 rfl
  obtain ⟨-, hand, -⟩ := mismatches_surface_unless_foregone _ hleads rfl hkinds.2 .none 0 rfl
  exact ⟨hleads, rfl, rfl, hor.2 (by decide), hand _ rfl⟩

/-- A string to the right of a zero goes unnoticed by `and`, and one that is divided by zero goes
unnoticed as a string. -/
theorem and_and_divide_overlook_a_string :
    (Opcode.operandKinds? .and = some [.number] ∧
      ¬((∃ expected found, ((holding Value.zero (.string "key")).settle
          ⟨.and, .none, 0⟩).2.script.state = .interrupted (.typeMismatch expected found)) ↔
        ¬(Value.zero.kind ∈ [ValueKind.number] ∧ (Value.string "key").kind = Value.zero.kind))) ∧
    Opcode.operandKinds? .divide = some [.number] ∧
      ¬((∃ expected found, ((holding (.string "key") Value.zero).settle
          ⟨.divide, .none, 0⟩).2.script.state = .interrupted (.typeMismatch expected found)) ↔
        ¬((Value.string "key").kind ∈ [ValueKind.number] ∧
          Value.zero.kind = (Value.string "key").kind)) := by
  have hand : ((holding Value.zero (.string "key")).settle ⟨.and, .none, 0⟩).2.script.state =
      .running := rfl
  have hdivide : ((holding (.string "key") Value.zero).settle ⟨.divide, .none, 0⟩).2.script.state =
      .interrupted .divisionByZero := rfl
  rw [hand, hdivide]
  exact ⟨⟨rfl, by simp [Value.kind, Value.zero]⟩, rfl, by simp [Value.kind]⟩

end Scene

end WorldScript
