import WorldScript.CommandLine.Run

/-!
The command on the files of the system.
-/
set_option autoImplicit false

open WorldScript

namespace WorldScript.CommandLine

def fileError : IO.Error → FileError
  | .noFileOrDirectory _ _ _ => .missing
  | e => .other (toString e)

def attempt {α : Type} (act : IO α) : IO (Except FileError α) := do
  try
    return .ok (← act)
  catch e =>
    return .error (fileError e)

def systemFiles : Files IO where
  read path := attempt do return (← IO.FS.readBinFile path).toList
  write path bytes := attempt (IO.FS.writeBinFile path ⟨bytes.toArray⟩)

end WorldScript.CommandLine

def main (arguments : List String) : IO UInt32 := do
  let seed ← IO.rand 0 (UInt64.size - 1)
  let report ← CommandLine.run CommandLine.systemFiles (UInt64.ofNat seed) arguments
  IO.print report.output
  if let some failure := report.failure then IO.eprint failure.message
  return UInt32.ofNat report.status
