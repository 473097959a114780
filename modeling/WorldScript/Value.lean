import WorldScript.Decimal.Leading
import WorldScript.Fault
import WorldScript.Text.Blank
import WorldScript.Text.LowerCase

/-!
Values on the stack and in memory slots: a number, a string or an entity. Operators are defined
between values of like kind, and answer a type mismatch between others. A number stands for
truth when it is at least 1.
-/
set_option autoImplicit false

namespace WorldScript

inductive Value
  | number (n : Binary32)
  | string (s : String)
  | entity (h : Handle)
deriving DecidableEq, Inhabited

namespace Value

def kind : Value → ValueKind
  | number _ => .number
  | string _ => .string
  | entity _ => .entity

def ofBool (b : Bool) : Value := number (Binary32.ofBool b)

/-- The value of memory slots at the start, and of results that were not given. -/
def zero : Value := number Binary32.zero

def mismatch (expected : ValueKind) (v : Value) : Fault := .typeMismatch expected v.kind

def asNumber : Value → Except Fault Binary32
  | number n => .ok n
  | v => .error (v.mismatch .number)

def asString : Value → Except Fault String
  | string s => .ok s
  | v => .error (v.mismatch .string)

def asEntity : Value → Except Fault Handle
  | entity h => .ok h
  | v => .error (v.mismatch .entity)

theorem asNumber_eq_ok_iff {v : Value} {n : Binary32} : v.asNumber = .ok n ↔ v = number n := by
  cases v <;> simp [asNumber]

theorem asString_eq_ok_iff {v : Value} {s : String} : v.asString = .ok s ↔ v = string s := by
  cases v <;> simp [asString]

theorem asEntity_eq_ok_iff {v : Value} {h : Handle} : v.asEntity = .ok h ↔ v = entity h := by
  cases v <;> simp [asEntity]

/-- Is a number at least 1? -/
def holds (n : Binary32) : Bool := Binary32.one.atMost n

def isTrue (v : Value) : Except Fault Bool := v.asNumber.map holds

def arithmetic (f : Binary32 → Binary32 → Binary32) (lhs rhs : Value) : Except Fault Value := do
  let a ← lhs.asNumber
  let b ← rhs.asNumber
  return number (f a b)

def add : Value → Value → Except Fault Value
  | number a, number b => .ok (number (a.add b))
  | number _, rhs => .error (rhs.mismatch .number)
  | string a, string b => .ok (string (a ++ b))
  | string _, rhs => .error (rhs.mismatch .string)
  | lhs, _ => .error (lhs.mismatch .number)

def sub : Value → Value → Except Fault Value := arithmetic Binary32.sub

def mul : Value → Value → Except Fault Value := arithmetic Binary32.mul

/-- Division as numbers divide: a zero divisor is no fault here. -/
def div : Value → Value → Except Fault Value := arithmetic Binary32.div

def rem : Value → Value → Except Fault Value := arithmetic Binary32.rem

def neg (v : Value) : Except Fault Value := v.asNumber.map fun n => number n.neg

def numberToString (v : Value) : Except Fault Value := v.asNumber.map fun n => string n.text

def leadingNumber (s : String) : Binary32 :=
  Decimal.leadingNumber (String.ofList (Text.trimStart s.toList))

def stringToNumber (v : Value) : Except Fault Value :=
  v.asString.map fun s => number (leadingNumber s)

/-- Equality of like kinds: numbers by value, strings letter case aside, entities by handle. -/
def same : Value → Value → Bool
  | number a, number b => a.equals b
  | string a, string b => Text.sameLetters a b
  | entity a, entity b => a == b
  | _, _ => false

def order? : Value → Value → Option Ordering
  | number a, number b => a.compare? b
  | string a, string b => some (Text.compareLetters a b)
  | _, _ => none

def equals (lhs rhs : Value) : Except Fault Bool :=
  if lhs.kind = rhs.kind then .ok (lhs.same rhs) else .error (rhs.mismatch lhs.kind)

/-- Order that refuses entities, and values of unlike kind. -/
def compare (lhs rhs : Value) : Except Fault (Option Ordering) :=
  match lhs, rhs with
  | entity _, _ => .error (lhs.mismatch .number)
  | _, _ => if lhs.kind = rhs.kind then .ok (lhs.order? rhs) else .error (rhs.mismatch lhs.kind)

def text : Value → String
  | number n => n.text
  | string s => Text.quote s
  | entity h => h.text

end Value

end WorldScript
