import WorldScript.Code.Unit
import WorldScript.Settings
import WorldScript.Value

/-!
One running script: its place in the code, its value stack, its memory slots and its open
calls. Slots are shared by all calls, so a recursive call sees those of its caller.
-/
set_option autoImplicit false

namespace WorldScript

structure ScriptId where
  index : Nat
deriving DecidableEq

def ScriptId.text (id : ScriptId) : String := "script-" ++ Decimal.text id.index

inductive ScriptState
  | running
  | paused
  | stopped
  | interrupted (reason : Fault)
deriving DecidableEq

namespace ScriptState

def isFinished : ScriptState → Bool
  | stopped | interrupted _ => true
  | running | paused => false

def detail : ScriptState → String
  | running => "Running"
  | paused => "Paused"
  | stopped => "Stopped"
  | interrupted reason => Fault.tuple "Interrupted" reason.detail

end ScriptState

structure Frame where
  returnTo : Nat
  callSite : Nat
deriving DecidableEq

structure Script where
  id : ScriptId
  unit : CodeUnit
  /-- The entity the script belongs to; a global script has none. -/
  owner : Option Handle
  maxStackDepth : Nat
  maxCallDepth : Nat
  position : Nat := 0
  current : Nat := 0
  /-- Top of the stack first. -/
  stack : List Value := []
  slots : Array Value := Array.replicate unit.slotCount.toNat Value.zero
  /-- Innermost call first. -/
  frames : List Frame := []
  state : ScriptState := .running

namespace Script

def start (id : ScriptId) (unit : CodeUnit) (owner : Option Handle) (settings : MachineSettings) :
    Script :=
  { id, unit, owner, maxStackDepth := settings.maxStackDepth, maxCallDepth := settings.maxCallDepth }

def reset (s : Script) : Script :=
  { id := s.id, unit := s.unit, owner := s.owner, maxStackDepth := s.maxStackDepth,
    maxCallDepth := s.maxCallDepth }

def isRunning (s : Script) : Bool := s.state == .running

def isGlobal (s : Script) : Bool := s.owner.isNone

/-- The next instruction, and the script past it; `none` at the end of the code. -/
def fetch? (s : Script) : Option (Instruction × Script) :=
  s.unit.code[s.position]?.map fun i => (i, { s with position := s.position + 1, current := s.position })

def push (s : Script) (v : Value) : Except Fault Script :=
  if s.stack.length < s.maxStackDepth then .ok { s with stack := v :: s.stack }
  else .error (.stackOverflow s.maxStackDepth)

def slot (s : Script) (index : Nat) : Except Fault Value :=
  match s.slots[index]? with
  | some v => .ok v
  | none => .error (.slotOutOfRange index s.slots.size)

def setSlot (s : Script) (index : Nat) (v : Value) : Except Fault Script :=
  if index < s.slots.size then .ok { s with slots := s.slots.setIfInBounds index v }
  else .error (.slotOutOfRange index s.slots.size)

def moveTo (s : Script) (target : Nat) : Except Fault Script :=
  if target ≤ s.unit.size then .ok { s with position := target }
  else .error (.positionOutOfRange target s.unit.size)

def enter (s : Script) (target : Nat) : Except Fault Script :=
  if s.maxCallDepth ≤ s.frames.length then .error (.callDepthExceeded s.maxCallDepth)
  else (s.moveTo target).map fun t => { t with frames := ⟨s.position, s.current⟩ :: s.frames }

def leave? (s : Script) : Option (Frame × Script) :=
  match s.frames with
  | f :: rest => some (f, { s with frames := rest, position := f.returnTo })
  | [] => none

def string (s : Script) (index : Nat) : Except Fault String :=
  match s.unit.strings[index]? with
  | some t => .ok t
  | none => .error (.stringOutOfRange index s.unit.strings.size)

def pause (s : Script) : Script :=
  match s.state with
  | .running => { s with state := .paused }
  | _ => s

def resume? (s : Script) : Option Script :=
  match s.state with
  | .paused => some { s with state := .running }
  | _ => none

/-- Finishing is final: a finished script does not change its state again. -/
def stop (s : Script) : Script :=
  if s.state.isFinished then s else { s with state := .stopped }

def interrupt (s : Script) (reason : Fault) : Script :=
  if s.state.isFinished then s else { s with state := .interrupted reason }

def report (s : Script) : String :=
  s.id.text ++ " (" ++ s.state.detail ++ ")\n  ip: " ++ Decimal.text s.position ++ "  frames: "
    ++ Decimal.text s.frames.length ++ "\n  stack: ["
    ++ ", ".intercalate (s.stack.reverse.map Value.text) ++ "]"

end Script

end WorldScript
