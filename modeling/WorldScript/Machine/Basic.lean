import WorldScript.Execution.Step
import WorldScript.World.Time

/-!
The machine: scripts in the order they were started, the world they act on, their waits and the
dice. One script runs at a time, instruction by instruction; others get their turn when its
slice ends.
-/
set_option autoImplicit false

namespace WorldScript

structure Machine where
  settings : MachineSettings
  world : World
  dice : Dice
  scripts : OrderedMap ScriptId Script := OrderedMap.empty
  waits : Waits := {}
  lastScript : Nat := 0
  executed : Nat := 0

namespace Machine

/-- A machine without scripts. Dice without a seed of their own take the one given here. -/
def start (world : World) (settings : MachineSettings) (seed : UInt64) : Machine :=
  { settings, world, dice := Dice.ofSeed (settings.randomSeed.getD seed) }

def spawn (m : Machine) (u : CodeUnit) (owner : Option Handle) : ScriptId × Machine :=
  let id : ScriptId := ⟨m.lastScript + 1⟩
  (id,
    { m with
      lastScript := m.lastScript + 1
      scripts := m.scripts.insert id (Script.start id u owner m.settings) })

def script? (m : Machine) (id : ScriptId) : Option Script := m.scripts.get? id

def state? (m : Machine) (id : ScriptId) : Option ScriptState := (m.script? id).map Script.state

def isRunning (m : Machine) (id : ScriptId) : Bool := m.state? id == some .running

def allFinished (m : Machine) : Bool := m.scripts.values.all fun s => s.state.isFinished

def withScript (m : Machine) (s : Script) : Machine :=
  { m with scripts := m.scripts.insert s.id s }

def withScene (m : Machine) (s : Scene) : Machine :=
  { m with
    scripts := m.scripts.insert s.script.id s.script
    world := s.world
    waits := s.waits
    dice := s.dice }

/-- Execute one instruction of a running script. Running off the end of the code finishes the
script, and is not counted. -/
def step (m : Machine) (id : ScriptId) : Option Outcome × Machine :=
  match m.script? id with
  | none => (none, m)
  | some s =>
    if s.isRunning then
      match s.fetch? with
      | none => (some .stopped, m.withScript s.stop)
      | some (i, s) =>
        let (outcome, scene) := Scene.settle ⟨s, m.world, m.waits, m.dice⟩ i
        (some outcome, { m.withScene scene with executed := m.executed + 1 })
    else (none, m)

def endsSlice : Outcome → Bool
  | .paused | .stopped | .interrupted => true
  | .continued | .branched | .called | .returned => false

def runFor (id : ScriptId) : Nat → Machine → Machine
  | 0, m => m
  | budget + 1, m =>
    match m.step id with
    | (none, m) => m
    | (some outcome, m) => if endsSlice outcome then m else runFor id budget m

def run (m : Machine) (id : ScriptId) : Machine := runFor id m.settings.instructionBudget m

end Machine

end WorldScript
