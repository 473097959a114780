import WorldScript.Entity

/-!
The options of the command line. The path of the script stands first; of an option that is given
twice the later value counts.
-/
set_option autoImplicit false

namespace WorldScript.CommandLine

structure Options where
  script : String
  settings : Option String := none
  listing : Bool := false
  owner : Option Handle := none
  container : Option String := none
deriving DecidableEq

inductive UsageError
  | unknownOption (argument : String)
  | missingValue (option : String)
  | invalidOwner (value : String)
deriving DecidableEq

def UsageError.message : UsageError → String
  | unknownOption argument => "Unknown option: " ++ argument
  | missingValue option => option ++ " needs a value"
  | invalidOwner value => "Invalid owner handle: " ++ value

inductive ValueOption
  | config | owner | emit
deriving DecidableEq

def ValueOption.ofName? : String → Option ValueOption
  | "--config" => some .config
  | "--owner" => some .owner
  | "--emit" => some .emit
  | _ => none

def Options.set (o : Options) (value : String) : ValueOption → Except UsageError Options
  | .config => .ok { o with settings := some value }
  | .emit => .ok { o with container := some value }
  | .owner =>
    match Decimal.readBounded? 65535 value.toList with
    | some n => .ok { o with owner := some ⟨UInt16.ofNat n⟩ }
    | none => .error (.invalidOwner value)

def Options.read (o : Options) : List String → Except UsageError Options
  | [] => .ok o
  | argument :: rest =>
    if argument = "--disasm" then ({ o with listing := true } : Options).read rest
    else
      match ValueOption.ofName? argument, rest with
      | none, _ => .error (.unknownOption argument)
      | some _, [] => .error (.missingValue argument)
      | some option, value :: rest => do (← o.set value option).read rest

def usageLines : List String := [
  "grimoire - script VM runner with a headless engine",
  "",
  "Usage: grimoire <script.grim|script.gasm> [--config cfg.toml] [--disasm] [--owner N] "
    ++ "[--emit out.grim]",
  "",
  "  --config   load VM limits and the headless world from a TOML file",
  "  --disasm   print the code unit listing before running",
  "  --owner    attach the script to entity N (default: global script)",
  "  --emit     write the loaded code unit as a .grim container"]

def usage : String := String.join (usageLines.map (· ++ "\n"))

end WorldScript.CommandLine
