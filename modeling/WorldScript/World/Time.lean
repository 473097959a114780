import WorldScript.Binary32.Arithmetic
import WorldScript.World.Basic

/-!
Time passes in the world. Dialogs are answered and fades go on even while the world is paused;
the clock, alarms and commands stand still then.

Points are words, and a difference that is no word is a panic. It ends the call, and leaves the
world as it is at that moment.
-/
set_option autoImplicit false

namespace WorldScript

def FitsInt32 (n : Int) : Prop := Int32.minValue.toInt ≤ n ∧ n ≤ Int32.maxValue.toInt

instance (n : Int) : Decidable (FitsInt32 n) := inferInstanceAs (Decidable (_ ∧ _))

inductive Panic
  | subtraction
deriving DecidableEq

def Panic.message : Panic → String
  | subtraction => "attempt to subtract with overflow"

def subtract (a b : Int32) : Except Panic Int32 :=
  if FitsInt32 (a.toInt - b.toInt) then .ok (a - b) else .error .subtraction

def isSpent (remaining : Binary32) : Bool := remaining.atMost Binary32.zero

namespace World

def answer? (w : World) (choice : Binary32) : Option World :=
  match w.dialogs with
  | [] => none
  | d :: rest =>
    let closed := { w with dialogs := rest }.notify d.notify
      fun t => .windowClosed t (some (.number choice))
    some (if rest.isEmpty && closed.interface == .dialog then { closed with interface := .main }
      else closed)

def answerEach (choice : Binary32) : Nat → World → World
  | 0, w => w
  | n + 1, w =>
    match w.answer? choice with
    | some w => answerEach choice n w
    | none => w

def answerAll (w : World) : World :=
  match w.autoAnswer with
  | some choice => answerEach choice w.dialogs.length w
  | none => w

def fadeAfter (dt : Binary32) (f : Fade) : Fade := { f with remaining := f.remaining.sub dt }

def passFades (w : World) (dt : Binary32) : World :=
  let later := w.fades.map (fadeAfter dt)
  let done := (later.filter fun f => isSpent f.remaining).filterMap Fade.notify
  { w with
    fades := later.filter fun f => !isSpent f.remaining
    notices := w.notices ++ done.map fun t => .windowClosed t none }

def passAlarms (w : World) (dt : Binary32) : World :=
  let later := w.alarms.map fun _ seconds => seconds.sub dt
  { w with
    alarms := later.filter fun _ seconds => !isSpent seconds
    notices := w.notices ++
      (later.filter fun _ seconds => isSpent seconds).keys.map Notice.alarmFired }

inductive Ending
  | finished (result : Option Value)
  | disqualified (reason : String)

def Ending.notice : Ending → Token → Notice
  | .finished result, t => .commandFinished t result
  | .disqualified reason, t => .commandDisqualified t reason

/-- Walk toward a point, and stand on it once the step reaches that far. -/
def walk (w : World) (actor : Handle) (x y dt : Binary32) : Option Ending × World :=
  match w.entities.get? actor with
  | none => (none, w)
  | some e =>
    let speed := w.settings.moveSpeed
    let dx := x.sub e.x
    let dy := y.sub e.y
    let remaining := ((dx.mul dx).add (dy.mul dy)).sqrt
    let step := speed.mul dt
    if remaining.atMost step.orZero then
      (some (.finished none), w.modify actor fun e => { e with x, y })
    else if isSpent speed then (none, w)
    else
      (none, w.modify actor fun e =>
        { e with
          x := e.x.add ((dx.div remaining).mul step)
          y := e.y.add ((dy.div remaining).mul step) })

def talk (w : World) (actor : Handle) (remaining dt : Binary32) : Option Ending × World :=
  let left := remaining.sub dt
  if isSpent left then (some (.finished none), w)
  else (none, { w with commands := w.commands.modify actor fun c => { c with errand := .talk left } })

/-- An attack costs action points, and one hit point of a target that has any left. -/
def strike (w : World) (attacker target : Handle) : Except Panic Ending × World :=
  let cost := w.settings.attackCost
  match w.entities.get? attacker with
  | none => (.ok (.disqualified ("attacker " ++ attacker.text ++ " is gone")), w)
  | some e =>
    if e.actionPoints < cost then
      (.ok (.disqualified ("attacker " ++ attacker.text ++ " has "
        ++ Decimal.intText e.actionPoints.toInt ++ " action points, needs "
        ++ Decimal.intText cost.toInt)), w)
    else
      match subtract e.actionPoints cost with
      | .error p => (.error p, w)
      | .ok left =>
        let w := w.setActionPoints attacker left
        match w.entities.get? target with
        | none => (.ok (.finished (some (Value.ofBool false))), w)
        | some victim =>
          if 0 < victim.hitPoints then
            match subtract victim.hitPoints 1 with
            | .error p => (.error p, w)
            | .ok left =>
              (.ok (.finished (some (Value.ofBool true))),
                w.modify target fun e => { e with hitPoints := left })
          else (.ok (.finished (some (Value.ofBool false))), w)

def progress (w : World) (actor : Handle) (errand : Errand) (dt : Binary32) :
    Except Panic (Option Ending) × World :=
  match errand with
  | .walk x y =>
    let (ending, w) := w.walk actor x y dt
    (.ok ending, w)
  | .talk remaining =>
    let (ending, w) := w.talk actor remaining dt
    (.ok ending, w)
  | .strike target =>
    let (ending, w) := w.strike actor target
    (ending.map some, w)

def passCommand (dt : Binary32) (w : World) (actor : Handle) : Except Panic Unit × World :=
  match w.commands.get? actor with
  | none => (.ok (), w)
  | some c =>
    match w.progress actor c.errand dt with
    | (.error p, w) => (.error p, w)
    | (.ok none, w) => (.ok (), w)
    | (.ok (some ending), w) =>
      (.ok (), { w with commands := w.commands.erase actor }.notify c.notify ending.notice)

/-- One command after the other, until one panics. -/
def passEach (dt : Binary32) : List Handle → World → Except Panic Unit × World
  | [], w => (.ok (), w)
  | actor :: actors, w =>
    match passCommand dt w actor with
    | (.error p, w) => (.error p, w)
    | (.ok (), w) => passEach dt actors w

def passCommands (w : World) (dt : Binary32) : Except Panic Unit × World :=
  passEach dt w.commands.keys w

def advance (w : World) (dt : Binary32) : Except Panic Unit × World :=
  let w := w.answerAll.passFades dt
  if w.isPaused then (.ok (), w)
  else ({ w with clock := w.clock.add dt }.passAlarms dt).passCommands dt

end World

end WorldScript
