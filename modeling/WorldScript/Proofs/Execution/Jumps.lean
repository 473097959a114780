import WorldScript.Proofs.Script.Limits

/-!
Jumps on two values. Each of them does what the test of the same name and a jump on its answer do
together: it goes the same way and leaves the same stack, or finds the same fault with the same
values taken. Tests of order also compare strings, which the jumps on order refuse, so that these
agree on numbers.

Main statement: `Scene.jumps_agree_with_tests`.
-/
set_option autoImplicit false

namespace WorldScript

namespace Opcode

def equalityTest? : Opcode → Option Opcode
  | jumpIfEqual => some equal
  | jumpIfNotEqual => some notEqual
  | jumpIfStrEqual => some strEqual
  | jumpIfStrNotEqual => some strNotEqual
  | jumpIfEntityEqual => some entityEqual
  | jumpIfEntityNotEqual => some entityNotEqual
  | _ => none

def orderTest? : Opcode → Option Opcode
  | jumpIfGreaterEqual => some greaterEqual
  | jumpIfGreater => some greater
  | jumpIfLess => some less
  | jumpIfLessEqual => some lessEqual
  | _ => none

end Opcode

theorem Value.holds_ofBool (b : Bool) : holds (Binary32.ofBool b) = b := by
  cases b <;> decide

/-! ### Taking two operands -/

namespace Taking

def onward (target : UInt32) (taken : Bool) : Action :=
  if taken then .jump target.toNat else .proceed

section

variable {op : Opcode} {target : UInt32} {stack : List Value}

theorem run_branchOn (f : Value → Value → Except Fault Bool) (a b : Value) (rest : List Value) :
    (branchOn op (.codeOffset target) f).run (a :: b :: rest) =
      ((f a b).map (onward target), rest) := by
  change (check (f a b) >>= branch op (.codeOffset target)).run rest = _
  cases f a b with
  | error e => rfl
  | ok taken => cases taken <;> rfl

theorem run_relation (f : Value → Value → Except Fault Bool) (a b : Value) (rest : List Value) :
    (relation f).run (a :: b :: rest) =
      ((f a b).map fun answer => .push (Value.ofBool answer), rest) := by
  change (check ((f a b).map Value.ofBool) >>= fun v => pure (Action.push v)).run rest = _
  cases f a b <;> rfl

/-- A value that there is still counts as taken when the other one is missing. -/
theorem run_branchOn_of_short (f : Value → Value → Except Fault Bool) (h : stack.length < 2) :
    (branchOn op (.codeOffset target) f).run stack = (.error .stackUnderflow, []) := by
  match stack, h with
  | [], _ => rfl
  | [_], _ => rfl

theorem run_relation_of_short (f : Value → Value → Except Fault Bool) (h : stack.length < 2) :
    (relation f).run stack = (.error .stackUnderflow, []) := by
  match stack, h with
  | [], _ => rfl
  | [_], _ => rfl

theorem run_branchIf_holds (answer : Bool) (rest : List Value) :
    (branchIf op (.codeOffset target) Value.holds).run (Value.ofBool answer :: rest) =
      (.ok (onward target answer), rest) := by
  change (branch op (.codeOffset target) (Value.holds (Binary32.ofBool answer))).run rest = _
  rw [Value.holds_ofBool]
  cases answer <;> rfl

end

end Taking

/-! ### A jump in place of a test and a jump -/

namespace Scene

open Taking

/-- Execute two instructions, the second one if the first goes on to it. -/
def executeBoth (s : Scene) (i j : Instruction) : Except Fault Outcome × Scene :=
  match s.execute i with
  | (.ok .continued, s) => s.execute j
  | r => r

variable {s : Scene} {target : UInt32} {i j k : Instruction}

/-- The answer of the test has room: two values were taken before. -/
theorem perform_push_of_room {v : Value} (h : s.script.stack.length < s.script.maxStackDepth) :
    s.perform (.push v) = (.ok .continued, s.withStack (v :: s.script.stack)) := by
  simp only [perform, Script.push, h, if_true]
  rfl

/-- A jump and a test that find the same in the two values do the same, with a jump on the answer
after the test. -/
theorem execute_eq_executeBoth {f g : Value → Value → Except Fault Bool}
    (hroom : s.script.stack.length ≤ s.script.maxStackDepth)
    (hi : i.action s.script s.world = branchOn i.opcode (.codeOffset target) f)
    (hj : j.action s.script s.world = relation g)
    (hk : ∀ script world, k.action script world =
      branchIf k.opcode (.codeOffset target) Value.holds)
    (hfg : ∀ a b rest, s.script.stack = a :: b :: rest → f a b = g a b) :
    s.execute i = s.executeBoth j k := by
  unfold executeBoth
  match hstack : s.script.stack with
  | a :: b :: rest =>
    have hfirst : (i.action s.script s.world).run s.script.stack =
        ((g a b).map (onward target), rest) := by
      rw [hi, hstack, run_branchOn, hfg a b rest hstack]
    have htest : (j.action s.script s.world).run s.script.stack =
        ((g a b).map fun answer => .push (Value.ofBool answer), rest) := by
      rw [hj, hstack, run_relation]
    cases hanswer : g a b with
    | error e =>
      rw [hanswer] at hfirst htest
      rw [execute_eq hfirst, execute_eq htest]
      rfl
    | ok answer =>
      rw [hanswer] at hfirst htest
      have hleft : (s.withStack rest).script.stack.length < s.script.maxStackDepth := by
        rw [hstack, List.length_cons, List.length_cons] at hroom
        exact Nat.lt_of_succ_lt hroom
      have hjump : (k.action { s.script with stack := Value.ofBool answer :: rest } s.world).run
          (Value.ofBool answer :: rest) = (.ok (onward target answer), rest) := by
        rw [hk, run_branchIf_holds]
      rw [execute_eq hfirst, execute_eq htest]
      simp only [Except.map, perform_push_of_room hleft]
      exact (execute_eq (s := s.withStack (Value.ofBool answer :: rest)) hjump).symm
  | [] | [_] =>
    -- one value is taken before the other one is missed
    have hfirst : (i.action s.script s.world).run s.script.stack = (.error .stackUnderflow, []) := by
      rw [hi, hstack, run_branchOn_of_short f (by simp)]
    have htest : (j.action s.script s.world).run s.script.stack = (.error .stackUnderflow, []) := by
      rw [hj, hstack, run_relation_of_short g (by simp)]
    rw [execute_eq hfirst, execute_eq htest]

/-- A jump on two values does what its test and a jump on the answer do together: on equality for
any values, on order for any two numbers. -/
theorem jumps_agree_with_tests {id : ScriptId} {unit : CodeUnit} {owner : Option Handle}
    {settings : MachineSettings} (s : Scene)
    (hs : (Script.start id unit owner settings).Leads s.script) (op test : Opcode)
    (target : UInt32) (operand : Operand) (a b c : Nat) :
    (op.equalityTest? = some test →
      s.execute ⟨op, .codeOffset target, a⟩ =
        s.executeBoth ⟨test, operand, b⟩ ⟨.jumpIfTrue, .codeOffset target, c⟩) ∧
    (op.orderTest? = some test →
      ∀ x y rest, s.script.stack = .number x :: .number y :: rest →
        s.execute ⟨op, .codeOffset target, a⟩ =
          s.executeBoth ⟨test, operand, b⟩ ⟨.jumpIfTrue, .codeOffset target, c⟩) := by
  have hlimits : s.script.WithinLimits settings :=
    hs.keeps (fun _ c h => h.call c) (Script.withinLimits_start id unit owner settings)
  have hroom : s.script.stack.length ≤ s.script.maxStackDepth :=
    hlimits.stackLimit ▸ hlimits.stack
  constructor
  · intro htest
    cases op <;> cases htest <;>
      exact execute_eq_executeBoth hroom rfl rfl (fun _ _ => rfl) fun _ _ _ _ => rfl
  · intro htest x y rest hstack
    have hnumbers : ∀ (p : Ordering → Bool) (v w : Value) (below : List Value),
        s.script.stack = v :: w :: below → Value.orderedNumbers p v w = Value.ordered p v w := by
      intro p v w below h
      rw [hstack] at h
      cases h
      rfl
    cases op <;> cases htest <;>
      exact execute_eq_executeBoth hroom rfl rfl (fun _ _ => rfl) (hnumbers _)

def holding (v w : Value) : Scene where
  script := ((Script.start ⟨0⟩ ⟨0, #[], #[], rfl⟩ none {}).call (.push w)).call (.push v)
  world := World.start {} []
  waits := {}
  dice := Dice.ofSeed 0

theorem leads_holding (v w : Value) :
    (Script.start ⟨0⟩ ⟨0, #[], #[], rfl⟩ none {}).Leads (holding v w).script :=
  (Script.leads_call _ (.push w)).trans (Script.leads_call _ (.push v))

theorem jumps_agree_with_tests_holding :
    (holding (.string "Door") (.string "DOOR")).execute ⟨.jumpIfStrEqual, .codeOffset 0, 0⟩ =
      (holding (.string "Door") (.string "DOOR")).executeBoth ⟨.strEqual, .none, 0⟩
        ⟨.jumpIfTrue, .codeOffset 0, 1⟩ ∧
    (holding (.number Binary32.nan) Value.zero).execute ⟨.jumpIfLess, .codeOffset 0, 0⟩ =
      (holding (.number Binary32.nan) Value.zero).executeBoth ⟨.less, .none, 0⟩
        ⟨.jumpIfTrue, .codeOffset 0, 1⟩ := by
  have hleads : ∀ v w, (Script.start ⟨0⟩ ⟨0, #[], #[], rfl⟩ none {}).Leads (holding v w).script :=
    fun v w => (Script.leads_call _ (.push w)).trans (Script.leads_call _ (.push v))
  exact ⟨(jumps_agree_with_tests _ (hleads _ _) .jumpIfStrEqual .strEqual 0 .none 0 0 1).1 rfl,
    (jumps_agree_with_tests _ (hleads _ _) .jumpIfLess .less 0 .none 0 0 1).2 rfl
      Binary32.nan Binary32.zero [] rfl⟩

end Scene

end WorldScript
