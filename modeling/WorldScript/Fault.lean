import WorldScript.Decimal.Written
import WorldScript.Entity
import WorldScript.Opcode
import WorldScript.Text.Quoted

/-!
Why a script was interrupted. Each cause has a one-line message, and a detailed form in which
the state of a script shows it.
-/
set_option autoImplicit false

namespace WorldScript

inductive ValueKind
  | number | string | entity
deriving DecidableEq

def ValueKind.name : ValueKind → String
  | .number => "number"
  | .string => "string"
  | .entity => "entity"

inductive Refusal
  | selfWithoutOwner
  | messageOutsideMain
  | dialogOutsideMain
  | combatOutsideMain
  | combatActive
  | noCombat
  | attackOutsideCombat
  | tooFewActionPoints
deriving DecidableEq

def Refusal.reason : Refusal → String
  | .selfWithoutOwner => "self in a global script"
  | .messageOutsideMain => "message outside the main interface"
  | .dialogOutsideMain => "dialog outside the main interface"
  | .combatOutsideMain => "combat start outside the main interface"
  | .combatActive => "combat already active"
  | .noCombat => "no combat to end"
  | .attackOutsideCombat => "attack outside combat"
  | .tooFewActionPoints => "not enough action points"

inductive Fault
  | stackUnderflow
  | stackOverflow (limit : Nat)
  | callDepthExceeded (limit : Nat)
  | typeMismatch (expected found : ValueKind)
  | divisionByZero
  | slotOutOfRange (slot count : Nat)
  | stringOutOfRange (index count : Nat)
  | positionOutOfRange (target length : Nat)
  | invalidHandle (handle : Handle)
  | wrongEntityKind (handle : Handle) (expected : EntityKind)
  | outOfRange (what : String) (value : Binary32)
  | disallowed (refusal : Refusal)
  | waitPending (position : Nat)
  | disqualified (reason : String)
  | unhandledOpcode (op : Opcode)
deriving DecidableEq

namespace Fault

def message : Fault → String
  | stackUnderflow => "value stack underflow"
  | stackOverflow limit => "value stack overflow (limit " ++ Decimal.text limit ++ ")"
  | callDepthExceeded limit => "call depth limit " ++ Decimal.text limit ++ " exceeded"
  | typeMismatch expected found =>
    "type mismatch: expected " ++ expected.name ++ ", found " ++ found.name
  | divisionByZero => "division by zero"
  | slotOutOfRange slot count =>
    "memory slot " ++ Decimal.text slot ++ " out of range (" ++ Decimal.text count ++ " slots)"
  | stringOutOfRange index count =>
    "string index " ++ Decimal.text index ++ " out of range (" ++ Decimal.text count ++ " strings)"
  | positionOutOfRange target length =>
    "code position " ++ Decimal.text target ++ " out of range (" ++ Decimal.text length
      ++ " instructions)"
  | invalidHandle handle => "invalid entity handle " ++ handle.text
  | wrongEntityKind handle expected =>
    "entity " ++ handle.text ++ " is not a " ++ expected.name
  | outOfRange what value => what ++ " value " ++ value.plainText ++ " out of range"
  | disallowed refusal => "operation not allowed: " ++ refusal.reason
  | waitPending position =>
    "instruction at code position " ++ Decimal.text position
      ++ " already has an outstanding wait"
  | disqualified reason => "wait disqualified: " ++ reason
  | unhandledOpcode op => "unhandled opcode " ++ op.mnemonic

def tuple (name value : String) : String := name ++ "(" ++ value ++ ")"

def record (name : String) (fields : List (String × String)) : String :=
  name ++ " \x7b " ++ ", ".intercalate (fields.map fun f => f.1 ++ ": " ++ f.2) ++ " \x7d"

def handleDetail (h : Handle) : String := tuple "EntityHandle" (Decimal.text h.id.toNat)

def detail : Fault → String
  | stackUnderflow => "StackUnderflow"
  | stackOverflow limit => tuple "StackOverflow" (Decimal.text limit)
  | callDepthExceeded limit => tuple "CallDepthExceeded" (Decimal.text limit)
  | typeMismatch expected found =>
    record "TypeMismatch"
      [("expected", Text.quote expected.name), ("found", Text.quote found.name)]
  | divisionByZero => "DivisionByZero"
  | slotOutOfRange slot count =>
    record "SlotOutOfRange" [("slot", Decimal.text slot), ("count", Decimal.text count)]
  | stringOutOfRange index count =>
    record "StringOutOfRange" [("index", Decimal.text index), ("count", Decimal.text count)]
  | positionOutOfRange target length =>
    record "CodePositionOutOfRange"
      [("target", Decimal.text target), ("len", Decimal.text length)]
  | invalidHandle handle => tuple "InvalidHandle" (handleDetail handle)
  | wrongEntityKind handle expected =>
    record "WrongEntityKind"
      [("handle", handleDetail handle), ("expected", Text.quote expected.name)]
  | outOfRange what value =>
    record "OutOfRange" [("what", Text.quote what), ("value", value.detail)]
  | disallowed refusal => tuple "Disallowed" (Text.quote refusal.reason)
  | waitPending position => tuple "WaitAlreadyPending" (Decimal.text position)
  | disqualified reason => tuple "Disqualified" (Text.quote reason)
  | unhandledOpcode op => tuple "UnhandledOpcode" (Text.quote op.mnemonic)

end Fault

end WorldScript
