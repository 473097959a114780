import WorldScript.World.Request
import WorldScript.World.Time

/-!
Everything a host can ask of the world.
-/
set_option autoImplicit false

namespace WorldScript.World

inductive Call
  | add (s : EntitySpec)
  | equip (h : Handle) (slot : EquipSlot) (item : Handle)
  | setActionPoints (h : Handle) (points : Int32)
  | setInterface (state : InterfaceState)
  | setPaused (paused : Bool)
  | setAutoAnswer (choice : Option Binary32)
  | answer (choice : Binary32)
  | advance (dt : Binary32)
  | change (c : Change)
  | issue (r : Request) (notify : Option Token)
  | setAlarm (t : Token) (seconds : Binary32)
  | cancelAlarm (t : Token)
  | forget (t : Token)
  | drain

/-- A call that panics leaves the world to a host that goes on with it. -/
def call (w : World) : Call → World
  | .add s => w.add s
  | .equip h slot item => (w.equip? h slot item).getD w
  | .setActionPoints h points => w.setActionPoints h points
  | .setInterface state => { w with interface := state }
  | .setPaused paused => w.setPaused paused
  | .setAutoAnswer choice => { w with autoAnswer := choice }
  | .answer choice => (w.answer? choice).getD w
  | .advance dt => (w.advance dt).2
  | .change c => w.change c
  | .issue r notify => w.issue r notify
  | .setAlarm t seconds => w.setAlarm t seconds
  | .cancelAlarm t => w.cancelAlarm t
  | .forget t => w.forget t
  | .drain => w.drain.2

/-- A call that leaves tokens and notices to the scripts. -/
def Call.IsPlain : Call → Prop
  | add _ | equip .. | setActionPoints .. | setInterface _ | setPaused _ | setAutoAnswer _
  | answer _ | advance _ | change _ => True
  | issue _ notify => notify = none
  | setAlarm .. | cancelAlarm _ | forget _ | drain => False

end WorldScript.World
