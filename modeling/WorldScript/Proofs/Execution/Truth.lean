import WorldScript.Proofs.Binary32.Order
import WorldScript.Proofs.Execution.Jumps

/-!
What numbers say about truth. A jump if true goes by what `not`, `and`, `or` and the flags go by: a
number that is at least 1 holds. A jump if false goes by the number being below 1, which is the
opposite for all that are numbers at all.

Main statement: `Scene.jumps_agree_with_truth`.
-/
set_option autoImplicit false

namespace WorldScript

/-- What is below 1 does not hold, and what is not below 1 does. -/
theorem Value.less_one_eq {n : Binary32} (h : n.isNaN = false) :
    n.less Binary32.one = !holds n :=
  Binary32.less_eq_not_atMost h rfl

namespace Scene

open Taking

variable {s : Scene} {target : UInt32} {i j : Instruction} {n : Binary32} {rest : List Value}

def jumped (s : Scene) (target : UInt32) : Scene :=
  { s with script := { s.script with position := target.toNat } }

theorem perform_onward (ht : target.toNat ≤ s.script.unit.size) (taken : Bool) :
    s.perform (onward target taken) =
      if taken then (.ok .branched, s.jumped target) else (.ok .continued, s) := by
  cases taken with
  | true => simp only [onward, if_true, perform, Script.moveTo, ht, withScript, jumped]
  | false => rfl

theorem execute_branchIf {p : Binary32 → Bool} (ht : target.toNat ≤ s.script.unit.size)
    (hi : i.action s.script s.world = branchIf i.opcode (.codeOffset target) p)
    (hstack : s.script.stack = .number n :: rest) :
    s.execute i = if p n then (.ok .branched, (s.withStack rest).jumped target)
      else (.ok .continued, s.withStack rest) := by
  have hrun : (i.action s.script s.world).run s.script.stack = (.ok (onward target (p n)), rest) := by
    rw [hi, hstack]
    change (branch i.opcode (.codeOffset target) (p n)).run rest = _
    cases p n <;> rfl
  rw [execute_eq hrun]
  exact perform_onward (s := s.withStack rest) ht _

theorem execute_not {operand : Operand} {offset : Nat} (hroom : rest.length < s.script.maxStackDepth)
    (hstack : s.script.stack = .number n :: rest) :
    s.execute ⟨.not, operand, offset⟩ =
      (.ok .continued, s.withStack (Value.ofBool (!Value.holds n) :: rest)) := by
  have hrun : ((⟨.not, operand, offset⟩ : Instruction).action s.script s.world).run s.script.stack =
      (.ok (.push (Value.ofBool (!Value.holds n))), rest) := by
    rw [hstack]
    rfl
  rw [execute_eq hrun]
  exact perform_push_of_room (s := s.withStack rest) hroom

/-- A number holds if it is 1 or more. The jumps on truth follow this, and are opposites but for
what is no number, on which neither is taken. -/
theorem jumps_agree_with_truth {id : ScriptId} {unit : CodeUnit} {owner : Option Handle}
    {settings : MachineSettings} (s : Scene)
    (hs : (Script.start id unit owner settings).Leads s.script) {target : UInt32}
    (htarget : target.toNat ≤ s.script.unit.size) {n : Binary32} {rest : List Value}
    (hstack : s.script.stack = .number n :: rest) (operand : Operand) (a b c d : Nat) :
    let ifFalse := s.execute ⟨.jumpIfFalse, .codeOffset target, a⟩
    let ifTrue := s.execute ⟨.jumpIfTrue, .codeOffset target, b⟩
    let notIfTrue := s.executeBoth ⟨.not, operand, c⟩ ⟨.jumpIfTrue, .codeOffset target, d⟩
    let taken := (.ok .branched, (s.withStack rest).jumped target)
    let goesOn := (.ok .continued, s.withStack rest)
    ((Value.number n).isTrue = .ok true ∧ ifTrue = taken ∨
      (Value.number n).isTrue = .ok false ∧ ifTrue = goesOn) ∧
    (n.isNaN = false →
      (ifTrue = taken ∧ ifFalse = goesOn ∨ ifTrue = goesOn ∧ ifFalse = taken) ∧
        ifFalse = notIfTrue) ∧
    (n.isNaN = true → ifTrue = goesOn ∧ ifFalse = goesOn ∧ notIfTrue = taken) := by
  intro ifFalse ifTrue notIfTrue taken goesOn
  have hroom : rest.length < s.script.maxStackDepth := hs.room hstack
  have htrue : ifTrue = if Value.holds n then taken else goesOn :=
    execute_branchIf htarget rfl hstack
  have hfalse : ifFalse = if n.less Binary32.one then taken else goesOn :=
    execute_branchIf (p := fun n => n.less Binary32.one) htarget rfl hstack
  have hnot : notIfTrue = if !Value.holds n then taken else goesOn := by
    have hboth : notIfTrue = (s.withStack (Value.ofBool (!Value.holds n) :: rest)).execute
        ⟨.jumpIfTrue, .codeOffset target, d⟩ := by
      simp only [notIfTrue, executeBoth, execute_not hroom hstack]
    have hjump := execute_branchIf (s := s.withStack (Value.ofBool (!Value.holds n) :: rest))
      (i := ⟨.jumpIfTrue, .codeOffset target, d⟩) (p := Value.holds)
      (n := Binary32.ofBool (!Value.holds n)) htarget rfl rfl
    rw [Value.holds_ofBool] at hjump
    exact hboth.trans hjump
  have hisTrue : (Value.number n).isTrue = .ok (Value.holds n) := rfl
  refine ⟨?_, ?_, ?_⟩
  · rw [htrue, hisTrue]
    cases Value.holds n <;> simp
  · intro hn
    rw [htrue, hfalse, hnot, Value.less_one_eq hn]
    cases Value.holds n <;> simp
  · intro hn
    have hholds : Value.holds n = false := Binary32.atMost_nan_right hn
    rw [htrue, hfalse, hnot, hholds, Binary32.less_nan_left hn]
    simp

theorem jumps_agree_with_truth_holding :
    (∀ v, (Script.start ⟨0⟩ ⟨0, #[], #[], rfl⟩ none {}).Leads (holding v Value.zero).script) ∧
      (∀ v, (0 : UInt32).toNat ≤ (holding v Value.zero).script.unit.size) ∧
      (∀ v, (holding v Value.zero).script.stack = [v, Value.zero]) ∧
      (holding (.number Binary32.one) Value.zero).execute ⟨.jumpIfFalse, .codeOffset 0, 0⟩ =
        (holding (.number Binary32.one) Value.zero).executeBoth ⟨.not, .none, 0⟩
          ⟨.jumpIfTrue, .codeOffset 0, 1⟩ ∧
      ((Binary32.infinity false).sub (Binary32.infinity false)).isNaN = true ∧
      (holding (.number ((Binary32.infinity false).sub (Binary32.infinity false)))
          Value.zero).execute ⟨.jumpIfFalse, .codeOffset 0, 0⟩ =
        (.ok .continued, (holding (.number ((Binary32.infinity false).sub
          (Binary32.infinity false))) Value.zero).withStack [Value.zero]) := by
  have hleads : ∀ v,
      (Script.start ⟨0⟩ ⟨0, #[], #[], rfl⟩ none {}).Leads (holding v Value.zero).script :=
    fun v => leads_holding v Value.zero
  have htarget : ∀ v, (0 : UInt32).toNat ≤ (holding v Value.zero).script.unit.size :=
    fun _ => Nat.zero_le _
  have hnan : ((Binary32.infinity false).sub (Binary32.infinity false)).isNaN = true := by decide
  exact ⟨hleads, htarget, fun _ => rfl,
    ((jumps_agree_with_truth _ (hleads _) (htarget _) rfl .none 0 0 0 1).2.1 rfl).2, hnan,
    ((jumps_agree_with_truth _ (hleads _) (htarget _) rfl .none 0 0 0 1).2.2 hnan).2.1⟩

/-- On what is no number neither of the two jumps is taken, and the jump if false does not do what
`not` and the jump if true do. -/
theorem neither_jump_is_taken_on_nan :
    ¬(((holding (.number Binary32.nan) Value.zero).execute
          ⟨.jumpIfFalse, .codeOffset 0, 0⟩).1 = .ok .branched ↔
        ¬((holding (.number Binary32.nan) Value.zero).execute
          ⟨.jumpIfTrue, .codeOffset 0, 0⟩).1 = .ok .branched) ∧
      (holding (.number Binary32.nan) Value.zero).execute ⟨.jumpIfFalse, .codeOffset 0, 0⟩ ≠
        (holding (.number Binary32.nan) Value.zero).executeBoth ⟨.not, .none, 0⟩
          ⟨.jumpIfTrue, .codeOffset 0, 1⟩ := by
  have hfalse : ((holding (.number Binary32.nan) Value.zero).execute
      ⟨.jumpIfFalse, .codeOffset 0, 0⟩).1 = .ok .continued := rfl
  have htrue : ((holding (.number Binary32.nan) Value.zero).execute
      ⟨.jumpIfTrue, .codeOffset 0, 0⟩).1 = .ok .continued := rfl
  have hnot : ((holding (.number Binary32.nan) Value.zero).executeBoth ⟨.not, .none, 0⟩
      ⟨.jumpIfTrue, .codeOffset 0, 1⟩).1 = .ok .branched := rfl
  rw [hfalse, htrue]
  refine ⟨by simp, fun h => ?_⟩
  rw [h, hnot] at hfalse
  cases hfalse

end Scene

end WorldScript
