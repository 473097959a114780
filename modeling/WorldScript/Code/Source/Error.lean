import WorldScript.Code.DecodeError
import WorldScript.Opcode

/-!
What can be wrong with script source. Every error but a defect of the finished unit names the
line it is on.
-/
set_option autoImplicit false

namespace WorldScript.Source

inductive OperandError
  | invalidLabel (name : String)
  | slotsWithoutCount
  | badSlotCount (text : String)
  | unexpected (op : Opcode) (text : String)
  | missing (op : Opcode)
  | callTooFar (target : Nat)
  | badSlot (text : String)
  | badNumber (text : String)
  | entityWithoutMark (text : String)
  | badHandle (text : String)
  | badString (text : String)
deriving DecidableEq

def OperandError.message : OperandError → String
  | invalidLabel name => "invalid label name '" ++ name ++ "'"
  | slotsWithoutCount => ".slots needs a count"
  | badSlotCount text => "bad slot count '" ++ text ++ "'"
  | unexpected op text => op.mnemonic ++ " takes no operand, got '" ++ text ++ "'"
  | missing op => op.mnemonic ++ " needs an operand"
  | callTooFar target => "call target " ++ Decimal.text target ++ " does not fit in 16 bits"
  | badSlot text => "bad slot '" ++ text ++ "'"
  | badNumber text => "bad number '" ++ text ++ "'"
  | entityWithoutMark text => "entity literal must look like #N, got '" ++ text ++ "'"
  | badHandle text => "bad entity handle '" ++ text ++ "'"
  | badString text => "bad string literal " ++ text

inductive Error
  | unknownMnemonic (line : Nat) (mnemonic : String)
  | badOperand (line : Nat) (cause : OperandError)
  | undefinedLabel (line : Nat) (label : String)
  | duplicateLabel (line : Nat) (label : String)
  | defect (e : DecodeError)
deriving DecidableEq

def Error.message : Error → String
  | unknownMnemonic line mnemonic =>
    "line " ++ Decimal.text line ++ ": unknown mnemonic '" ++ mnemonic ++ "'"
  | badOperand line cause => "line " ++ Decimal.text line ++ ": " ++ cause.message
  | undefinedLabel line label =>
    "line " ++ Decimal.text line ++ ": undefined label '" ++ label ++ "'"
  | duplicateLabel line label =>
    "line " ++ Decimal.text line ++ ": duplicate label '" ++ label ++ "'"
  | defect e => e.message

end WorldScript.Source
