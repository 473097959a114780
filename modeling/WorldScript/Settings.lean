import WorldScript.Binary32.Basic
import WorldScript.Entity

/-!
What can be set from outside: the limits of the machine, the behaviour of the simulated world,
and the entities that are in it at the start.
-/
set_option autoImplicit false

namespace WorldScript

structure MachineSettings where
  maxStackDepth : Nat := 1024
  maxCallDepth : Nat := 256
  instructionBudget : Nat := 10000
  trace : Bool := false
  randomSeed : Option UInt64 := none
deriving DecidableEq

structure WorldSettings where
  /-- Simulated seconds in a tick; 0.1. -/
  tickSeconds : Binary32 := ⟨0x3dcccccd⟩
  maxTicks : Nat := 10000
  /-- The choice that closes a dialog; 1. -/
  dialogChoice : Binary32 := Binary32.one
  /-- Distance walked in a second; 4. -/
  moveSpeed : Binary32 := ⟨0x40800000⟩
  /-- How long a spoken line lasts; 2. -/
  speechSeconds : Binary32 := ⟨0x40000000⟩
  attackCost : Int32 := 2
deriving DecidableEq

structure EntitySpec where
  handle : Handle := Handle.null
  name : String := ""
  kind : EntityKind := .scenery
  hitPoints : Int32 := 10
  x : Binary32 := Binary32.zero
  y : Binary32 := Binary32.zero
  alignment : Alignment := .neutral
  actionPoints : Int32 := 6
  isOpen : Bool := false
deriving DecidableEq

structure Settings where
  machine : MachineSettings := {}
  world : WorldSettings := {}
  entities : List EntitySpec := []
deriving DecidableEq

end WorldScript
