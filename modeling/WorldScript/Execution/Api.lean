import WorldScript.Execution.Local

/-!
The actions of instructions that reach beyond their script. Arguments are taken first, the first
argument from the top of the stack; then the conditions are checked in order.
-/
set_option autoImplicit false

namespace WorldScript

namespace World

def requireKind (w : World) (h : Handle) (kind : EntityKind) : Except Fault Unit :=
  match w.kind? h with
  | none => .error (.invalidHandle h)
  | some k => if k = kind then .ok () else .error (.wrongEntityKind h kind)

def requireCreature (w : World) (h : Handle) : Except Fault Unit := w.requireKind h .creature

def requireEntity (w : World) (h : Handle) : Except Fault Unit :=
  if h.isNull || !w.entities.contains h then .error (.invalidHandle h) else .ok ()

def requireMain (w : World) (refusal : Refusal) : Except Fault Unit :=
  if w.interface = .main then .ok () else .error (.disallowed refusal)

def entity (w : World) (h : Handle) : Except Fault Entity :=
  match w.entities.get? h with
  | some e => .ok e
  | none => .error (.invalidHandle h)

end World

namespace Taking

/-- Ask for something, and wait for it if the flag is set. -/
def ask (wait : Bool) (r : Request) : Action := if wait then .await (.request r) else .issue r

def ofCreature (w : World) (f : Entity → Binary32) : Taking Action := do
  let h ← entity
  check (w.requireCreature h)
  let e ← check (w.entity h)
  return .push (.number (f e))

end Taking

namespace Opcode

open Taking

/-- The largest number of hit points, rounded to a number; it is rounded up by one. -/
def hitPointLimit : Binary32 := Binary32.ofInt Int32.maxValue.toInt

def worldAction (op : Opcode) (s : Script) (w : World) : Taking Action :=
  match op with
  | random => do
    let n ← number
    if !(Binary32.one.atMost n && n.isFinite) then throw (.outOfRange "random range" n)
    return .roll n.toUInt32.toNat
  | getSelf =>
    match s.owner with
    | none => throw (.disallowed .selfWithoutOwner)
    | some h => do
      check (w.requireEntity h)
      return .push (.entity h)
  | entityExists => do
    let h ← entity
    return .push (Value.ofBool (!h.isNull && w.entities.contains h))
  | getName => do
    let h ← entity
    let e ← check (w.entity h)
    return .push (.string e.name)
  | getHitPoints => ofCreature w fun e => Binary32.ofInt e.hitPoints.toInt
  | getDistance => do
    let a ← entity
    let b ← entity
    let p ← check (w.entity a)
    let q ← check (w.entity b)
    let dx := p.x.sub q.x
    let dy := p.y.sub q.y
    return .push (.number ((dx.mul dx).add (dy.mul dy)).sqrt)
  | isWallOpen => do
    let h ← entity
    check (w.requireKind h .wall)
    let e ← check (w.entity h)
    return .push (Value.ofBool e.isOpen)
  | getEquipped => do
    let h ← entity
    let i ← index "equip slot" 6
    check (w.requireCreature h)
    match EquipSlot.ofIndex? i with
    | none => throw (.outOfRange "equip slot" (Binary32.ofInt i))
    | some slot =>
      let e ← check (w.entity h)
      return .push (.entity (e.worn slot))
  | getAlignment => ofCreature w fun e => Binary32.ofInt e.alignment.index
  | setHitPoints => do
    let h ← entity
    let n ← number
    check (w.requireCreature h)
    if n.less Binary32.zero || !n.isIntegral || hitPointLimit.less n then
      throw (.outOfRange "hit points" n)
    return .change (.setHitPoints h n.toInt32)
  | setWallOpen => do
    let h ← entity
    let isOpen ← flag
    check (w.requireKind h .wall)
    return .change (.setWallOpen h isOpen)
  | setAlignment => do
    let h ← entity
    let i ← index "alignment" 3
    check (w.requireCreature h)
    match Alignment.ofIndex? i with
    | none => throw (.outOfRange "alignment" (Binary32.ofInt i))
    | some a => return .change (.setAlignment h a)
  | destroyEntity => do
    let h ← entity
    check (w.requireEntity h)
    return .change (.destroy h)
  | wait => do
    let seconds ← seconds
    return .await (.alarm seconds)
  | moveTo => do
    let h ← entity
    let x ← number
    let y ← number
    let waits ← flag
    check (w.requireCreature h)
    if !x.isFinite || !y.isFinite then
      throw (.outOfRange "coordinate" (if x.isFinite then y else x))
    return ask waits (.walk h x y)
  | speak => do
    let h ← entity
    let text ← string
    let waits ← flag
    check (w.requireEntity h)
    return ask waits (.talk h text)
  | op => throw (.unhandledOpcode op)

def guiAction (op : Opcode) (w : World) : Taking Action :=
  match op with
  | print => do
    let text ← string
    return .change (.print text)
  | showMessage => do
    let text ← string
    check (w.requireMain .messageOutsideMain)
    return .change (.message text)
  | dialog => do
    let text ← string
    check (w.requireMain .dialogOutsideMain)
    return .await (.request (.dialog text))
  | fadeScreen => do
    -- the direction of a fade makes no difference to a world without a screen
    let _ ← flag
    let seconds ← seconds
    let waits ← flag
    return ask waits (.fade seconds)
  | getInterfaceState => return .push (.number (Binary32.ofInt w.interface.index))
  | op => throw (.unhandledOpcode op)

def combatAction (op : Opcode) (w : World) : Taking Action :=
  match op with
  | inCombat => return .push (Value.ofBool w.inCombat)
  | startCombat => do
    check (w.requireMain .combatOutsideMain)
    if w.inCombat then throw (.disallowed .combatActive)
    return .change .startCombat
  | endCombat => do
    if !w.inCombat then throw (.disallowed .noCombat)
    return .change .endCombat
  | attack => do
    let attacker ← entity
    let target ← entity
    let waits ← flag
    if !w.inCombat then throw (.disallowed .attackOutsideCombat)
    check (w.requireCreature attacker)
    check (w.requireCreature target)
    let e ← check (w.entity attacker)
    if e.actionPoints < w.settings.attackCost then throw (.disallowed .tooFewActionPoints)
    return ask waits (.strike attacker target)
  | getActionPoints => ofCreature w fun e => Binary32.ofInt e.actionPoints.toInt
  | op => throw (.unhandledOpcode op)

end Opcode

end WorldScript
