import WorldScript.Execution.Taking
import WorldScript.Dice
import WorldScript.Waits
import WorldScript.World.Request

/-!
What an instruction does once its arguments are off the stack and all its conditions hold. The
meaning of an instruction comes in two parts: finding its action, which only takes arguments and
looks, and performing the action, which changes things.
-/
set_option autoImplicit false

namespace WorldScript

inductive Task
  | alarm (seconds : Binary32)
  | request (r : Request)
deriving DecidableEq

namespace Task

def kind : Task → WaitKind
  | alarm _ => .alarm
  | request (.walk ..) | request (.talk ..) | request (.strike ..) => .command
  | request (.dialog _) | request (.fade _) => .window

/-- Commands are over when the one who acts is destroyed. -/
def watched : Task → Option Handle
  | request (.walk actor _ _) | request (.talk actor _) | request (.strike actor _) => some actor
  | alarm _ | request (.dialog _) | request (.fade _) => none

def pushesResult : Task → Bool
  | request (.strike ..) | request (.dialog _) => true
  | alarm _ | request (.walk ..) | request (.talk ..) | request (.fade _) => false

def start (task : Task) (w : World) (t : Token) : World :=
  match task with
  | alarm seconds => w.setAlarm t seconds
  | request r => w.issue r (some t)

end Task

inductive Action
  | proceed
  | push (v : Value)
  | store (slot : Nat) (v : Value)
  | jump (target : Nat)
  | call (target : Nat)
  | ret
  | roll (bound : Nat)
  | change (c : Change)
  | issue (r : Request)
  | await (task : Task)

inductive Outcome
  | continued
  | branched
  | called
  | returned
  | paused
  | stopped
  | interrupted
deriving DecidableEq, Repr

/-- A script, and all that its instructions may touch. -/
structure Scene where
  script : Script
  world : World
  waits : Waits
  dice : Dice

namespace Scene

def withScript (s : Scene) (outcome : Outcome) : Except Fault Script → Except Fault Outcome × Scene
  | .ok script => (.ok outcome, { s with script })
  | .error e => (.error e, s)

/-- A global script ends with its first return. Another script ends with the return that finds
no open call. -/
def ret (s : Scene) : Outcome × Scene :=
  if s.script.isGlobal then (.stopped, { s with script := s.script.stop })
  else
    match s.script.leave? with
    | some (_, script) => (.returned, { s with script })
    | none => (.stopped, { s with script := s.script.stop })

/-- The dice move on even if there is no room for what they show. -/
def roll (s : Scene) (bound : Nat) : Except Fault Outcome × Scene :=
  let (n, dice) := s.dice.roll bound
  { s with dice }.withScript .continued (s.script.push (.number (Binary32.ofInt n)))

/-- Register the wait, then start the task under its token and pause. -/
def await (s : Scene) (task : Task) : Except Fault Outcome × Scene :=
  let site : Site := ⟨s.script.id, s.script.current⟩
  match s.waits.register site task.kind task.watched task.pushesResult with
  | .ok (t, waits) =>
    (.ok .paused, { s with script := s.script.pause, world := task.start s.world t, waits })
  | .error e => (.error e, s)

def perform (s : Scene) : Action → Except Fault Outcome × Scene
  | .proceed => (.ok .continued, s)
  | .push v => s.withScript .continued (s.script.push v)
  | .store slot v => s.withScript .continued (s.script.setSlot slot v)
  | .jump target => s.withScript .branched (s.script.moveTo target)
  | .call target => s.withScript .called (s.script.enter target)
  | .ret =>
    let (outcome, s) := s.ret
    (.ok outcome, s)
  | .roll bound => s.roll bound
  | .change c => (.ok .continued, { s with world := s.world.change c })
  | .issue r => (.ok .continued, { s with world := s.world.issue r none })
  | .await task => s.await task

end Scene

end WorldScript
