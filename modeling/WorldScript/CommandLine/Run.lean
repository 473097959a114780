import WorldScript.Code.Listing
import WorldScript.CommandLine.Loading
import WorldScript.CommandLine.Options
import WorldScript.Machine.Turn

/-!
A run of the command: load the settings and then the unit, list it and write it if asked, let
the script play in the world of the settings, and report what the world has shown and how the
script ended.
-/
set_option autoImplicit false

namespace WorldScript.CommandLine

/-- Play one script: a slice at once, and then ticks, until it is finished or there were as many
ticks as the settings allow. -/
def play (settings : Settings) (seed : UInt64) (u : CodeUnit) (owner : Option Handle) :
    Except Panic (ScriptId × Machine) :=
  let start := Machine.start (World.start settings.world settings.entities) settings.machine seed
  let (id, m) := start.spawn u owner
  match Machine.loop settings.world.tickSeconds settings.world.maxTicks 0 (m.run id) with
  | (.error p, _) => .error p
  | (.ok _, m) => .ok (id, m)

def withLineEnd (line : String) : String := line ++ "\n"

def outcome (id : ScriptId) (m : Machine) : String :=
  String.join (m.world.output.toList.map withLineEnd)
    ++ match m.script? id with
      | some s => withLineEnd s.report
      | none => ""

inductive Failure
  | usage (e : UsageError)
  | settings (e : SettingsError)
  | unit (path : String) (e : UnitError)
  | container (path : String) (e : FileError)
  | panic (p : Panic)
deriving DecidableEq

def Failure.message : Failure → String
  | usage e => "Error: " ++ e.message ++ "\n\n"
  | settings e => "Error: " ++ e.message ++ "\n"
  | unit path e => "Error: cannot load '" ++ path ++ "': " ++ e.message ++ "\n"
  | container path e => "Error: cannot write '" ++ path ++ "': " ++ e.message ++ "\n"
  | panic p => p.message ++ "\n"

structure Report where
  output : String
  failure : Option Failure := none
deriving DecidableEq

def Report.status (r : Report) : Nat :=
  match r.failure with
  | none => 0
  | some (.usage _) => 2
  | some (.panic _) => 101
  | some _ => 1

section Effects

variable {m : Type → Type} [Monad m]

def orFail {ε α : Type} (failure : ε → Failure) (result : m (Except ε α)) : ExceptT Failure m α :=
  ExceptT.mk do return (← result).mapError failure

def settingsAt (files : Files m) : Option String → ExceptT Failure m Settings
  | none => return {}
  | some path => orFail .settings (loadSettings files path)

def writeUnit (files : Files m) (u : CodeUnit) : Option String → ExceptT Failure m Unit
  | none => return ()
  | some path => orFail (.container path) (files.write path u.toBytes)

/-- The settings come first, so a fault in them hides one in the script. -/
def load (files : Files m) (o : Options) : ExceptT Failure m (Settings × CodeUnit) := do
  let settings ← settingsAt files o.settings
  let u ← orFail (.unit o.script) (loadUnit files o.script)
  return (settings, u)

/-- A run with its options. The listing is shown even if the container cannot be written. -/
def runWith (files : Files m) (seed : UInt64) (o : Options) : m Report := do
  match ← (load files o).run with
  | .error e => return { output := "", failure := some e }
  | .ok (settings, u) =>
    let listing := if o.listing then u.listing else ""
    match ← (writeUnit files u o.container).run with
    | .error e => return { output := listing, failure := some e }
    | .ok () =>
      match play settings seed u o.owner with
      | .error p => return { output := listing, failure := some (.panic p) }
      | .ok (id, machine) => return { output := listing ++ outcome id machine }

/-- The command with its arguments. Without any it explains its use. Dice without a seed in the
settings take the one given here. -/
def run (files : Files m) (seed : UInt64) : List String → m Report
  | [] => return { output := usage }
  | script :: arguments =>
    match Options.read { script } arguments with
    | .error e => return { output := usage, failure := some (.usage e) }
    | .ok o => runWith files seed o

end Effects

end WorldScript.CommandLine
