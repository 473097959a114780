import WorldScript.OrderedMap
import WorldScript.Settings
import WorldScript.World.Notice

/-!
A small simulated world: entities with their attributes, one command for each acting entity,
alarms, dialogs and fades in progress, and the notices nobody has taken yet. Everything shown
or spoken is collected as lines of output.
-/
set_option autoImplicit false

namespace WorldScript

structure Entity where
  name : String
  kind : EntityKind
  hitPoints : Int32
  x : Binary32
  y : Binary32
  alignment : Alignment
  actionPoints : Int32
  isOpen : Bool
  /-- What is worn in each slot; the null handle where nothing is. -/
  equipment : Vector Handle 6 := Vector.replicate 6 Handle.null
deriving DecidableEq

namespace Entity

def ofSpec (s : EntitySpec) : Entity :=
  { name := s.name, kind := s.kind, hitPoints := s.hitPoints, x := s.x, y := s.y,
    alignment := s.alignment, actionPoints := s.actionPoints, isOpen := s.isOpen }

def worn (e : Entity) (slot : EquipSlot) : Handle := e.equipment[slot.index]

def wear (slot : EquipSlot) (item : Handle) (e : Entity) : Entity :=
  { e with equipment := e.equipment.set slot.index item }

def takeOff (item : Handle) (e : Entity) : Entity :=
  { e with equipment := e.equipment.map fun h => if h = item then Handle.null else h }

end Entity

inductive Errand
  | walk (x y : Binary32)
  | talk (remaining : Binary32)
  | strike (target : Handle)
deriving DecidableEq

structure Command where
  errand : Errand
  notify : Option Token
deriving DecidableEq

structure Dialog where
  text : String
  notify : Option Token
deriving DecidableEq

structure Fade where
  remaining : Binary32
  notify : Option Token
deriving DecidableEq

structure World where
  settings : WorldSettings
  entities : OrderedMap Handle Entity
  commands : OrderedMap Handle Command := OrderedMap.empty
  alarms : OrderedMap Token Binary32 := OrderedMap.empty
  /-- Oldest first. -/
  dialogs : List Dialog := []
  fades : List Fade := []
  notices : List Notice := []
  interface : InterfaceState := .main
  inCombat : Bool := false
  isPaused : Bool := false
  /-- The choice that closes dialogs as time passes; without one they stay open. -/
  autoAnswer : Option Binary32
  clock : Binary32 := Binary32.zero
  output : Array String := #[]

namespace World

/-- The world at the start. An entity without a handle is left out, and a later entity replaces
an earlier one with the same handle, in its place. -/
def start (settings : WorldSettings) (specs : List EntitySpec) : World :=
  { settings
    entities := OrderedMap.ofList
      ((specs.filter fun s => !s.handle.isNull).map fun s => (s.handle, Entity.ofSpec s))
    autoAnswer := some settings.dialogChoice }

def emit (w : World) (n : Notice) : World := { w with notices := w.notices ++ [n] }

def notify (w : World) (token : Option Token) (n : Token → Notice) : World :=
  match token with
  | some t => w.emit (n t)
  | none => w

def print (w : World) (line : String) : World := { w with output := w.output.push line }

def drain (w : World) : List Notice × World := (w.notices, { w with notices := [] })

def kind? (w : World) (h : Handle) : Option EntityKind := (w.entities.get? h).map Entity.kind

def wallIsOpen? (w : World) (h : Handle) : Option Bool :=
  (w.entities.get? h).bind fun e => if e.kind = .wall then some e.isOpen else none

def equipped? (w : World) (h : Handle) (slot : EquipSlot) : Option Handle :=
  (w.entities.get? h).map fun e => e.worn slot

def modify (w : World) (h : Handle) (f : Entity → Entity) : World :=
  { w with entities := w.entities.modify h f }

def add (w : World) (s : EntitySpec) : World :=
  { w with entities := w.entities.insert s.handle (Entity.ofSpec s) }

/-- Put an item into a slot; refused if nobody is there to wear it. -/
def equip? (w : World) (h : Handle) (slot : EquipSlot) (item : Handle) : Option World :=
  if w.entities.contains h then
    some (w.modify h (Entity.wear slot item))
  else none

def setActionPoints (w : World) (h : Handle) (points : Int32) : World :=
  w.modify h fun e => { e with actionPoints := points }

/-- Only a change is reported. -/
def setPaused (w : World) (paused : Bool) : World :=
  if w.isPaused = paused then w else { w with isPaused := paused }.emit (.worldPaused paused)

/-- Take an entity out of the world, with its command and wherever it was worn. -/
def destroy (w : World) (h : Handle) : World :=
  if w.entities.contains h then
    { w with
      entities := (w.entities.erase h).map fun _ e => e.takeOff h
      commands := w.commands.erase h }.emit (.entityDestroyed h)
  else w

end World

end WorldScript
