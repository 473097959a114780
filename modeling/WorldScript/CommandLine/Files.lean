import WorldScript.OrderedMap
import WorldScript.Code.Container

/-!
Named files, as the command line uses them: read whole or written whole. What is done with them
does not depend on where they are kept, so a directory in memory serves as well as a disk.
-/
set_option autoImplicit false

namespace WorldScript.CommandLine

inductive FileError
  | missing
  | isDirectory
  | notText
  | other (description : String)
deriving DecidableEq

def FileError.message : FileError → String
  | missing => "No such file or directory (os error 2)"
  | isDirectory => "Is a directory (os error 21)"
  | notText => "stream did not contain valid UTF-8"
  | other description => description

structure Files (m : Type → Type) where
  read : String → m (Except FileError (List UInt8))
  write : String → List UInt8 → m (Except FileError Unit)

def Files.readText {m : Type → Type} [Monad m] (files : Files m) (path : String) :
    m (Except FileError String) := do
  match ← files.read path with
  | .error e => return .error e
  | .ok bytes =>
    match Container.ofUtf8? bytes with
    | some text => return .ok text
    | none => return .error .notText

abbrev Directory : Type := OrderedMap String (List UInt8)

namespace Directory

def refused? (name : String) : Option FileError :=
  if name = "" then some .missing
  else if name = "." ∨ name = ".." then some .isDirectory
  else none

def read (d : Directory) (name : String) : Except FileError (List UInt8) :=
  match refused? name with
  | some e => .error e
  | none =>
    match d.get? name with
    | some bytes => .ok bytes
    | none => .error .missing

def write (d : Directory) (name : String) (bytes : List UInt8) : Except FileError Directory :=
  match refused? name with
  | some e => .error e
  | none => .ok (d.insert name bytes)

def files : Files (StateM Directory) where
  read name := do return (← get).read name
  write name bytes := do
    match (← get).write name bytes with
    | .ok d =>
      set d
      return .ok ()
    | .error e => return .error e

end Directory

end WorldScript.CommandLine
