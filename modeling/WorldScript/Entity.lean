import WorldScript.Decimal.Digits

/-!
Names and small encodings of the things a script can speak of: handles, kinds of entity,
equipment slots, alignments and the states of the interface. The numbered ones are read from
and pushed as whole numbers.
-/
set_option autoImplicit false

namespace WorldScript

/-- Names an entity of the world. Handle 0 names none. -/
structure Handle where
  id : UInt16
deriving DecidableEq, Inhabited

namespace Handle

def null : Handle := ⟨0⟩

def isNull (h : Handle) : Bool := h == null

def text (h : Handle) : String := "#" ++ Decimal.text h.id.toNat

end Handle

inductive EntityKind
  | creature | wall | item | scenery
deriving DecidableEq, Repr

def EntityKind.name : EntityKind → String
  | .creature => "creature"
  | .wall => "wall"
  | .item => "item"
  | .scenery => "scenery"

def EntityKind.ofName? : String → Option EntityKind
  | "creature" => some .creature
  | "wall" => some .wall
  | "item" => some .item
  | "scenery" => some .scenery
  | _ => none

inductive EquipSlot
  | head | body | leftHand | rightHand | feet | ring
deriving DecidableEq, Repr

namespace EquipSlot

def all : List EquipSlot := [head, body, leftHand, rightHand, feet, ring]

def index : EquipSlot → Fin 6
  | head => 0 | body => 1 | leftHand => 2 | rightHand => 3 | feet => 4 | ring => 5

def ofIndex? (n : Nat) : Option EquipSlot := all[n]?

end EquipSlot

inductive Alignment
  | lawful | neutral | chaotic
deriving DecidableEq, Repr

namespace Alignment

def all : List Alignment := [lawful, neutral, chaotic]

def index : Alignment → Nat
  | lawful => 0 | neutral => 1 | chaotic => 2

def ofIndex? (n : Nat) : Option Alignment := all[n]?

def ofName? : String → Option Alignment
  | "lawful" => some .lawful
  | "neutral" => some .neutral
  | "chaotic" => some .chaotic
  | _ => none

end Alignment

inductive InterfaceState
  | main | inventory | dialog | worldMap | menu
deriving DecidableEq, Repr

namespace InterfaceState

def all : List InterfaceState := [main, inventory, dialog, worldMap, menu]

def index : InterfaceState → Nat
  | main => 0 | inventory => 1 | dialog => 2 | worldMap => 3 | menu => 4

def ofIndex? (n : Nat) : Option InterfaceState := all[n]?

end InterfaceState

end WorldScript
