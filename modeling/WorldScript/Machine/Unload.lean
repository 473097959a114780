import WorldScript.Machine.Basic

/-!
Taking scripts out of the machine. The wait of a script goes with it, and so does what the world
would have reported to it.
-/
set_option autoImplicit false

namespace WorldScript.Machine

/-- Withdraw what a wait has asked for: its alarm, or the report on its request. -/
def withdraw (w : World) (t : Token) (kind : WaitKind) : World :=
  match kind with
  | .alarm => w.cancelAlarm t
  | .command | .window => w.forget t

/-- Take out a script, and its wait even if the script is not there. -/
def unload (m : Machine) (id : ScriptId) : Option Script × Machine :=
  let m := match m.waits.releaseScript? id with
    | some ((t, w), waits) => { m with waits, world := withdraw m.world t w.kind }
    | none => m
  match m.script? id with
  | some s => (some s, { m with scripts := m.scripts.erase id })
  | none => (none, m)

def unloadOwner (m : Machine) (owner : Handle) : Nat × Machine :=
  let ids := (m.scripts.values.filter fun s => s.owner == some owner).map Script.id
  (ids.length, ids.foldl (fun m id => (m.unload id).2) m)

def reap (m : Machine) : Nat × Machine :=
  let left := m.scripts.filter fun _ s => !s.state.isFinished
  (m.scripts.size - left.size, { m with scripts := left })

def shutdown (m : Machine) : Machine :=
  let (released, waits) := m.waits.releaseAll
  let world := released.foldl (fun w e => withdraw w e.1 e.2.kind) m.world
  { m with waits, world, scripts := OrderedMap.empty }

end WorldScript.Machine
