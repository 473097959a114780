import WorldScript.OrderedMap
import WorldScript.Script
import WorldScript.World.Notice

/-!
The waits of paused scripts. A wait is registered under a fresh token, which goes to the world
with the request; a notice under that token ends the wait and says what is to be done with the
script. A wait may also watch an entity, whose destruction ends it early.

Beside the waits themselves the registry keeps three ways to find them: by the entity they
watch, by the instruction they belong to, and by their script.
-/
set_option autoImplicit false

namespace WorldScript

inductive WaitKind
  | alarm | command | window
deriving DecidableEq, Repr

structure Site where
  script : ScriptId
  position : Nat
deriving DecidableEq

structure Wait where
  script : ScriptId
  site : Site
  kind : WaitKind
  /-- The entity whose destruction ends the wait early. -/
  watched : Option Handle
  /-- Does the script get the result on its stack? -/
  pushesResult : Bool
deriving DecidableEq

inductive Wakeup
  | resume (script : ScriptId) (value : Option Value)
  | interrupt (script : ScriptId) (reason : Fault)
deriving DecidableEq

def Wakeup.script : Wakeup → ScriptId
  | resume s _ => s
  | interrupt s _ => s

structure Waits where
  lastToken : Nat := 0
  pending : OrderedMap Token Wait := OrderedMap.empty
  /-- For each watched entity the waits that watch it, oldest first; never an empty list. -/
  watchers : OrderedMap Handle (List Token) := OrderedMap.empty
  bySite : OrderedMap Site Token := OrderedMap.empty
  byScript : OrderedMap ScriptId Token := OrderedMap.empty
  worldPaused : Bool := false

namespace Waits

def addWatcher (watchers : OrderedMap Handle (List Token)) (watched : Option Handle) (t : Token) :
    OrderedMap Handle (List Token) :=
  match watched with
  | none => watchers
  | some h => watchers.insert h ((watchers.get? h).getD [] ++ [t])

def dropWatcher (watchers : OrderedMap Handle (List Token)) (watched : Option Handle)
    (t : Token) : OrderedMap Handle (List Token) :=
  match watched with
  | none => watchers
  | some h =>
    match watchers.get? h with
    | none => watchers
    | some tokens =>
      let left := tokens.filter fun u => decide (u ≠ t)
      if left.isEmpty then watchers.erase h else watchers.insert h left

/-- A new wait under a fresh token. Refused while the instruction or the script has one. -/
def register (ws : Waits) (site : Site) (kind : WaitKind) (watched : Option Handle)
    (pushesResult : Bool) : Except Fault (Token × Waits) :=
  if ws.bySite.contains site || ws.byScript.contains site.script then
    .error (.waitPending site.position)
  else
    let t : Token := ⟨ws.lastToken + 1⟩
    .ok (t,
      { ws with
        lastToken := ws.lastToken + 1
        pending := ws.pending.insert t ⟨site.script, site, kind, watched, pushesResult⟩
        watchers := addWatcher ws.watchers watched t
        bySite := ws.bySite.insert site t
        byScript := ws.byScript.insert site.script t })

def release? (ws : Waits) (t : Token) : Option (Wait × Waits) :=
  (ws.pending.get? t).map fun w =>
    (w,
      { ws with
        pending := ws.pending.erase t
        watchers := dropWatcher ws.watchers w.watched t
        bySite := ws.bySite.erase w.site
        byScript := ws.byScript.erase w.script })

def releaseScript? (ws : Waits) (id : ScriptId) : Option ((Token × Wait) × Waits) := do
  let t ← ws.byScript.get? id
  let (w, ws) ← ws.release? t
  return ((t, w), ws)

def releaseEach : List Token → Waits → List (Token × Wait) × Waits
  | [], ws => ([], ws)
  | t :: rest, ws =>
    match ws.release? t with
    | some (w, ws) =>
      let (more, ws) := releaseEach rest ws
      ((t, w) :: more, ws)
    | none => releaseEach rest ws

def releaseAll (ws : Waits) : List (Token × Wait) × Waits := releaseEach ws.pending.keys ws

def finish (ws : Waits) (t : Token) (kind : WaitKind) (wake : Wait → Wakeup) :
    List Wakeup × Waits :=
  match ws.pending.get? t with
  | none => ([], ws)
  | some w =>
    if w.kind = kind then
      match ws.release? t with
      | some (w, ws) => ([wake w], ws)
      | none => ([], ws)
    else ([], ws)

/-- Resume after a normal end: a wait that pushes gets the result, 0 if there is none. -/
def resumption (result : Option Value) (w : Wait) : Wakeup :=
  .resume w.script (if w.pushesResult then some (result.getD Value.zero) else none)

def deliver (ws : Waits) : Notice → List Wakeup × Waits
  | .alarmFired t => ws.finish t .alarm (resumption none)
  | .commandFinished t result => ws.finish t .command (resumption result)
  | .windowClosed t result => ws.finish t .window (resumption result)
  | .commandDisqualified t reason =>
    ws.finish t .command fun w => .interrupt w.script (.disqualified reason)
  | .entityDestroyed h =>
    let tokens := (ws.watchers.get? h).getD []
    let (ended, ws) := releaseEach tokens { ws with watchers := ws.watchers.erase h }
    (ended.map fun (_, w) => .resume w.script none, ws)
  | .worldPaused paused => ([], { ws with worldPaused := paused })

def pendingFor? (ws : Waits) (id : ScriptId) : Option Token := ws.byScript.get? id

def wait? (ws : Waits) (t : Token) : Option Wait := ws.pending.get? t

def isBusy (ws : Waits) (site : Site) : Bool := ws.bySite.contains site

def watcherCount (ws : Waits) (h : Handle) : Nat := ((ws.watchers.get? h).getD []).length

def size (ws : Waits) : Nat := ws.pending.size

end Waits

end WorldScript
