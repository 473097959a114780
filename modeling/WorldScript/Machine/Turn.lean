import WorldScript.Machine.Basic

/-!
Turns of the machine: notices of the world wake the scripts that wait for them, and then every
running script gets one slice, in the order the scripts were started.
-/
set_option autoImplicit false

namespace WorldScript.Machine

/-- Resume or interrupt a paused script. Any other script is left alone. The value of a
resumption is pushed; if there is no room for it, that interrupts the script. -/
def wake (m : Machine) (wakeup : Wakeup) : Option Machine :=
  match wakeup with
  | .resume id value => do
    let s ← m.script? id
    let s ← s.resume?
    match value with
    | none => return m.withScript s
    | some v =>
      match s.push v with
      | .ok s => return m.withScript s
      | .error e => return m.withScript (s.interrupt e)
  | .interrupt id reason => do
    let s ← m.script? id
    if s.state = .paused then return m.withScript (s.interrupt reason) else none

def wakeEach : List Wakeup → Nat → Machine → Nat × Machine
  | [], woken, m => (woken, m)
  | wakeup :: rest, woken, m =>
    match m.wake wakeup with
    | some m => wakeEach rest (woken + 1) m
    | none => wakeEach rest woken m

def deliverEach : List Notice → Nat → Machine → Nat × Machine
  | [], woken, m => (woken, m)
  | n :: rest, woken, m =>
    let (wakeups, waits) := m.waits.deliver n
    let (woken, m) := wakeEach wakeups woken { m with waits }
    deliverEach rest woken m

/-- Take the notices of the world and deliver them; how many scripts were woken. -/
def pump (m : Machine) : Nat × Machine :=
  let (notices, world) := m.world.drain
  deliverEach notices 0 { m with world }

def runEach : List ScriptId → Nat → Machine → Nat × Machine
  | [], ran, m => (ran, m)
  | id :: rest, ran, m =>
    if m.isRunning id then runEach rest (ran + 1) (m.run id) else runEach rest ran m

def tick (m : Machine) : Nat × Machine :=
  let (_, m) := m.pump
  runEach m.scripts.keys 0 m

/-- Let time pass and tick until all scripts are finished, for a number of rounds at most; how
many there were. -/
def loop (dt : Binary32) : Nat → Nat → Machine → Except Panic Nat × Machine
  | 0, rounds, m => (.ok rounds, m)
  | limit + 1, rounds, m =>
    if m.allFinished then (.ok rounds, m)
    else
      match m.world.advance dt with
      | (.error p, world) => (.error p, { m with world })
      | (.ok (), world) =>
        let (_, m) := { m with world }.tick
        loop dt limit (rounds + 1) m

end WorldScript.Machine
