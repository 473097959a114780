import WorldScript.Decimal.Digits
import WorldScript.Text.Quoted

/-!
What can be wrong with a code unit, in its bytes or in the way its parts refer to each other.
-/
set_option autoImplicit false

namespace WorldScript

inductive DecodeError
  | underrun (offset needed remaining : Nat)
  | unknownOpcode (byte : UInt8) (offset : Nat)
  | badMagic (found : List UInt8)
  | unsupportedVersion (version : Nat)
  | invalidString (index : Nat)
  | targetOutOfRange (index target length : Nat)
  | stringOutOfRange (index entry count : Nat)
  | stringTooLong (index length : Nat)
  | trailingBytes (count : Nat)
deriving DecidableEq

namespace DecodeError

def hexByte (b : UInt8) : String := String.ofList (Text.paddedHex 2 b.toNat)

def message : DecodeError → String
  | underrun offset needed remaining =>
    "bytecode underrun at offset " ++ Decimal.text offset ++ ": needed " ++ Decimal.text needed
      ++ " bytes, " ++ Decimal.text remaining ++ " left"
  | unknownOpcode byte offset =>
    "unknown opcode 0x" ++ hexByte byte ++ " at offset " ++ Decimal.text offset
  | badMagic found =>
    "bad container magic [" ++ ", ".intercalate (found.map hexByte) ++ "]"
  | unsupportedVersion version => "unsupported container version " ++ Decimal.text version
  | invalidString index =>
    "string table entry " ++ Decimal.text index ++ " is not valid UTF-8"
  | targetOutOfRange index target length =>
    "instruction " ++ Decimal.text index ++ " targets code position " ++ Decimal.text target
      ++ ", but the unit has " ++ Decimal.text length ++ " instructions"
  | stringOutOfRange index entry count =>
    "instruction " ++ Decimal.text index ++ " references string " ++ Decimal.text entry
      ++ ", but the table has " ++ Decimal.text count ++ " entries"
  | stringTooLong index length =>
    "string table entry " ++ Decimal.text index ++ " is " ++ Decimal.text length
      ++ " bytes, over the 65535 byte limit"
  | trailingBytes count => Decimal.text count ++ " trailing bytes after code stream"

end DecodeError

end WorldScript
