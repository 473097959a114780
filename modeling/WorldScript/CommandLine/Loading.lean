import WorldScript.Code.Source.Assembly
import WorldScript.CommandLine.Files
import WorldScript.Settings.Reading

/-!
Settings and code units from files. A file whose name ends in `.gasm` is source; every other file
is a container.
-/
set_option autoImplicit false

namespace WorldScript.CommandLine

inductive SettingsError
  | unreadable (path : String) (e : FileError)
  | malformed
deriving DecidableEq

def SettingsError.message : SettingsError → String
  | unreadable path e => "cannot read config file '" ++ path ++ "': " ++ e.message
  | malformed => "invalid config"

inductive UnitError
  | unreadable (e : FileError)
  | source (e : Source.Error)
  | container (e : DecodeError)
deriving DecidableEq

def UnitError.message : UnitError → String
  | unreadable e => e.message
  | source e => e.message
  | container e => e.message

def fileName? (path : String) : Option String := do
  let names := (path.splitOn "/").filter fun name => name ≠ "" && name ≠ "."
  let name ← names.getLast?
  if name = ".." then none else some name

/-- What follows the last point of a name, unless nothing stands before that point. -/
def extension? (name : String) : Option (List Char) :=
  let reversed := name.toList.reverse
  match reversed.dropWhile (· != '.') with
  | [] => none
  | [_] => none
  | _ => some (reversed.takeWhile (· != '.')).reverse

def isSource (path : String) : Bool :=
  match fileName? path with
  | none => false
  | some name =>
    match extension? name with
    | none => false
    | some letters => letters.map Char.toLower == ['g', 'a', 's', 'm']

section Effects

variable {m : Type → Type} [Monad m]

def loadSettings (files : Files m) (path : String) : m (Except SettingsError Settings) := do
  match ← files.readText path with
  | .error e => return .error (.unreadable path e)
  | .ok text =>
    match Settings.ofToml? text with
    | some settings => return .ok settings
    | none => return .error .malformed

def loadUnit (files : Files m) (path : String) : m (Except UnitError CodeUnit) := do
  if isSource path then
    match ← files.readText path with
    | .error e => return .error (.unreadable e)
    | .ok text => return (Source.assemble text).mapError .source
  else
    match ← files.read path with
    | .error e => return .error (.unreadable e)
    | .ok bytes => return (CodeUnit.ofBytes bytes).mapError .container

end Effects

end WorldScript.CommandLine
