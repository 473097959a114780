import WorldScript.Script

/-!
Taking arguments from the value stack. What has been taken stays taken when a later argument
turns out to be wrong.
-/
set_option autoImplicit false

namespace WorldScript

/-- Works on the stack, top first, and may find a fault. -/
abbrev Taking (α : Type) : Type := ExceptT Fault (StateM (List Value)) α

namespace Taking

def run {α : Type} (t : Taking α) (stack : List Value) : Except Fault α × List Value :=
  StateT.run (ExceptT.run t) stack

def check {α : Type} : Except Fault α → Taking α
  | .ok a => pure a
  | .error e => throw e

def pop : Taking Value := do
  match ← get with
  | [] => throw .stackUnderflow
  | v :: rest =>
    set rest
    return v

def peek : Taking Value := do
  match ← get with
  | [] => throw .stackUnderflow
  | v :: _ => return v

def number : Taking Binary32 := do check (← pop).asNumber

def string : Taking String := do check (← pop).asString

def entity : Taking Handle := do check (← pop).asEntity

def flag : Taking Bool := do check (← pop).isTrue

def index (what : String) (limit : Nat) : Taking Nat := do
  let n ← number
  if n.less Binary32.zero || !n.isIntegral || (Binary32.ofInt limit).atMost n then
    throw (.outOfRange what n)
  else return n.toUInt32.toNat

def seconds : Taking Binary32 := do
  let n ← number
  if Binary32.zero.atMost n && n.isFinite then return n else throw (.outOfRange "seconds" n)

end Taking

def Script.take {α : Type} (s : Script) (t : Taking α) : Except Fault α × Script :=
  let (r, stack) := t.run s.stack
  (r, { s with stack })

end WorldScript
