import WorldScript.Execution.Action

/-!
The actions of instructions that stay within their script: arithmetic, comparison, jumps,
memory, stack and calls. Binary operators take the left operand from the top of the stack and
the right one from below it.
-/
set_option autoImplicit false

namespace WorldScript

namespace Value

/-- Division where a zero divisor is a fault; the divisor is looked at first. -/
def divided (f : Value → Value → Except Fault Value) (lhs rhs : Value) : Except Fault Value := do
  if (← rhs.asNumber).isZero then throw .divisionByZero
  f lhs rhs

def not (v : Value) : Except Fault Value := do return ofBool (!(← v.isTrue))

/-- The right operand is looked at only if the left one is true. -/
def and (lhs rhs : Value) : Except Fault Value := do
  if ← lhs.isTrue then return ofBool (← rhs.isTrue) else return ofBool false

def or (lhs rhs : Value) : Except Fault Value := do
  let a ← lhs.isTrue
  let b ← rhs.isTrue
  return ofBool (a || b)

def equalAs (kind : ValueKind) (lhs rhs : Value) : Except Fault Bool :=
  if lhs.kind = kind then lhs.equals rhs else .error (lhs.mismatch kind)

/-- Does the order of two values satisfy a condition? Where there is no order, none does. -/
def ordered (p : Ordering → Bool) (lhs rhs : Value) : Except Fault Bool := do
  return (← lhs.compare rhs).any p

def orderedNumbers (p : Ordering → Bool) (lhs rhs : Value) : Except Fault Bool := do
  let a ← lhs.asNumber
  let b ← rhs.asNumber
  return (a.compare? b).any p

end Value

namespace Taking

def unary (f : Value → Except Fault Value) : Taking Action := do
  let v ← pop
  return .push (← check (f v))

def binary (f : Value → Value → Except Fault Value) : Taking Action := do
  let lhs ← pop
  let rhs ← pop
  return .push (← check (f lhs rhs))

def relation (f : Value → Value → Except Fault Bool) : Taking Action :=
  binary fun lhs rhs => (f lhs rhs).map Value.ofBool

def branch (op : Opcode) (operand : Operand) (taken : Bool) : Taking Action :=
  match operand with
  | .codeOffset t => return if taken then .jump t.toNat else .proceed
  | _ => throw (.unhandledOpcode op)

def branchIf (op : Opcode) (operand : Operand) (p : Binary32 → Bool) : Taking Action := do
  let n ← number
  branch op operand (p n)

def branchOn (op : Opcode) (operand : Operand) (f : Value → Value → Except Fault Bool) :
    Taking Action := do
  let lhs ← pop
  let rhs ← pop
  branch op operand (← check (f lhs rhs))

end Taking

namespace Opcode

open Taking

def mathAction : Opcode → Taking Action
  | negate => unary Value.neg
  | add => binary Value.add
  | subtract => binary Value.sub
  | multiply => binary Value.mul
  | divide => binary (Value.divided Value.div)
  | modulo => binary (Value.divided Value.rem)
  | concat => do
    let lhs ← string
    let rhs ← string
    return .push (.string (lhs ++ rhs))
  | not => unary Value.not
  | and => binary Value.and
  | or => binary Value.or
  | equal => relation (Value.equalAs .number)
  | notEqual => relation fun a b => (Value.equalAs .number a b).map Bool.not
  | strEqual => relation (Value.equalAs .string)
  | strNotEqual => relation fun a b => (Value.equalAs .string a b).map Bool.not
  | entityEqual => relation (Value.equalAs .entity)
  | entityNotEqual => relation fun a b => (Value.equalAs .entity a b).map Bool.not
  | less => relation (Value.ordered Ordering.isLT)
  | lessEqual => relation (Value.ordered Ordering.isLE)
  | greater => relation (Value.ordered Ordering.isGT)
  | greaterEqual => relation (Value.ordered Ordering.isGE)
  | numberToString => unary Value.numberToString
  | stringToNumber => unary Value.stringToNumber
  | op => throw (.unhandledOpcode op)

def flowAction (op : Opcode) (operand : Operand) : Taking Action :=
  match op with
  | jump => branch op operand true
  | jumpIfFalse => branchIf op operand fun n => n.less Binary32.one
  | jumpIfTrue => branchIf op operand Value.holds
  | jumpIfEqual => branchOn op operand (Value.equalAs .number)
  | jumpIfNotEqual => branchOn op operand fun a b => (Value.equalAs .number a b).map Bool.not
  | jumpIfStrEqual => branchOn op operand (Value.equalAs .string)
  | jumpIfStrNotEqual => branchOn op operand fun a b => (Value.equalAs .string a b).map Bool.not
  | jumpIfEntityEqual => branchOn op operand (Value.equalAs .entity)
  | jumpIfEntityNotEqual =>
    branchOn op operand fun a b => (Value.equalAs .entity a b).map Bool.not
  | jumpIfGreaterEqual => branchOn op operand (Value.orderedNumbers Ordering.isGE)
  | jumpIfGreater => branchOn op operand (Value.orderedNumbers Ordering.isGT)
  | jumpIfLess => branchOn op operand (Value.orderedNumbers Ordering.isLT)
  | jumpIfLessEqual => branchOn op operand (Value.orderedNumbers Ordering.isLE)
  | op => throw (.unhandledOpcode op)

/-- What moves is decided by the operand; of the two opcodes with a slot, one loads and the
other stores. A store finds its slot before it takes a value. -/
def memoryAction (op : Opcode) (operand : Operand) (s : Script) : Taking Action :=
  match operand with
  | .slot i =>
    if op = load then do
      let v ← check (s.slot i.toNat)
      return .push v
    else do
      let _ ← check (s.slot i.toNat)
      let v ← Taking.pop
      return .store i.toNat v
  | .number n => return .push (.number n)
  | .stringIndex i => do
    let t ← check (s.string i.toNat)
    return .push (.string t)
  | .entity h => return .push (.entity h)
  | _ => throw (.unhandledOpcode op)

def stackAction (op : Opcode) (operand : Operand) : Taking Action :=
  match op with
  | nop => return .proceed
  | pop => do
    let _ ← Taking.pop
    return .proceed
  | dup => do
    let v ← peek
    return .push v
  | call =>
    match operand with
    | .callTarget t => return .call t.toNat
    | _ => throw (.unhandledOpcode op)
  | .return => return .ret
  | op => throw (.unhandledOpcode op)

end Opcode

end WorldScript
