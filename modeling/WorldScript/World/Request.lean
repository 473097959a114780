import WorldScript.World.Basic

/-!
What scripts ask of the world. Changes happen at once. Requests take time, and may carry the
token of a wait under which their outcome is reported.
-/
set_option autoImplicit false

namespace WorldScript

inductive Change
  | setHitPoints (h : Handle) (points : Int32)
  | setWallOpen (h : Handle) (isOpen : Bool)
  | setAlignment (h : Handle) (alignment : Alignment)
  | destroy (h : Handle)
  | startCombat
  | endCombat
  | print (text : String)
  | message (text : String)
deriving DecidableEq

inductive Request
  | walk (actor : Handle) (x y : Binary32)
  | talk (actor : Handle) (text : String)
  | strike (actor target : Handle)
  | dialog (text : String)
  | fade (seconds : Binary32)
deriving DecidableEq

namespace World

def change (w : World) : Change → World
  | .setHitPoints h points => w.modify h fun e => { e with hitPoints := points }
  | .setWallOpen h isOpen => w.modify h fun e => { e with isOpen }
  | .setAlignment h alignment => w.modify h fun e => { e with alignment }
  | .destroy h => w.destroy h
  | .startCombat => { w with inCombat := true }
  | .endCombat => { w with inCombat := false }
  | .print text => w.print text
  | .message text => w.print ("[MESSAGE: " ++ text ++ "]")

/-- Give an entity a command. The one it replaces is disqualified. -/
def command (w : World) (actor : Handle) (c : Command) : World :=
  let previous := w.commands.get? actor
  { w with commands := w.commands.insert actor c }.notify (previous.bind Command.notify)
    fun t => .commandDisqualified t (actor.text ++ " received a new command")

/-- The name that stands before a spoken line; an unknown speaker has none. -/
def speakerName (w : World) (h : Handle) : String :=
  match w.entities.get? h with
  | some e => e.name
  | none => ""

def issue (w : World) (r : Request) (notify : Option Token) : World :=
  match r with
  | .walk actor x y => w.command actor ⟨.walk x y, notify⟩
  | .talk actor text =>
    (w.print (w.speakerName actor ++ ": " ++ text)).command actor
      ⟨.talk w.settings.speechSeconds, notify⟩
  | .strike actor target => w.command actor ⟨.strike target, notify⟩
  | .dialog text =>
    { w.print ("[DIALOG: " ++ text ++ "]") with
      interface := .dialog, dialogs := w.dialogs ++ [⟨text, notify⟩] }
  | .fade seconds => { w with fades := w.fades ++ [⟨seconds, notify⟩] }

def setAlarm (w : World) (t : Token) (seconds : Binary32) : World :=
  { w with alarms := w.alarms.insert t seconds }

def cancelAlarm (w : World) (t : Token) : World := { w with alarms := w.alarms.erase t }

def withoutToken (t : Token) (notify : Option Token) : Option Token :=
  if notify = some t then none else notify

/-- Report nothing under this token any more. What it was given for still goes on. -/
def forget (w : World) (t : Token) : World :=
  { w with
    commands := w.commands.map fun _ c => { c with notify := withoutToken t c.notify }
    dialogs := w.dialogs.map fun d => { d with notify := withoutToken t d.notify }
    fades := w.fades.map fun f => { f with notify := withoutToken t f.notify } }

end World

end WorldScript
