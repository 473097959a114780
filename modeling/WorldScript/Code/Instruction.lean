import WorldScript.Code.Bytes
import WorldScript.Decimal.Written
import WorldScript.Entity
import WorldScript.Opcode

/-!
Instructions: an opcode with an operand, as values, as bytes and as text.

The bytes of an instruction are written from its operand and read by the layout of its opcode.
The two agree on instructions whose operand fits the opcode.
-/
set_option autoImplicit false

namespace WorldScript

inductive Operand
  | none
  | codeOffset (target : UInt32)
  | slot (index : UInt16)
  | number (n : Binary32)
  | stringIndex (index : UInt32)
  | entity (h : Handle)
  | callTarget (target : UInt16)
deriving DecidableEq, Inhabited

namespace Operand

def layout : Operand → Layout
  | none => .none
  | codeOffset _ => .codeOffset
  | slot _ => .slot
  | number _ => .number
  | stringIndex _ => .stringIndex
  | entity _ => .entity
  | callTarget _ => .callTarget

def bytes : Operand → List UInt8
  | none => []
  | codeOffset t => littleEndian 4 t.toNat
  | slot i => littleEndian 2 i.toNat
  | number n => littleEndian 4 n.bits.toNat
  | stringIndex i => littleEndian 4 i.toNat
  | entity h => littleEndian 2 h.id.toNat
  | callTarget t => littleEndian 2 t.toNat

def read : Layout → Reader Operand
  | .none => return none
  | .codeOffset => return codeOffset (← Reader.word32)
  | .slot => return slot (← Reader.word16)
  | .number => return number (← Reader.number)
  | .stringIndex => return stringIndex (← Reader.word32)
  | .entity => return entity ⟨← Reader.word16⟩
  | .callTarget => return callTarget (← Reader.word16)

def target? : Operand → Option Nat
  | codeOffset t => some t.toNat
  | callTarget t => some t.toNat
  | _ => Option.none

def stringIndex? : Operand → Option Nat
  | stringIndex i => some i.toNat
  | _ => Option.none

def text : Operand → String
  | none => ""
  | codeOffset t => " @" ++ Decimal.text t.toNat
  | slot i => " $" ++ Decimal.text i.toNat
  | number n => " " ++ n.text
  | stringIndex i => " str[" ++ Decimal.text i.toNat ++ "]"
  | entity h => " " ++ h.text
  | callTarget t => " @" ++ Decimal.text t.toNat

theorem length_bytes (o : Operand) : o.bytes.length = o.layout.size := by
  cases o <;> simp [bytes, layout, Layout.size]

end Operand

structure Instruction where
  opcode : Opcode
  operand : Operand
  /-- Where the instruction stood in the bytes it was read from. -/
  offset : Nat := 0
deriving DecidableEq

namespace Instruction

def Fits (i : Instruction) : Prop := i.operand.layout = i.opcode.layout

instance (i : Instruction) : Decidable i.Fits := inferInstanceAs (Decidable (_ = _))

def bytes (i : Instruction) : List UInt8 := i.opcode.byte :: i.operand.bytes

def size (i : Instruction) : Nat := 1 + i.opcode.layout.size

def text (i : Instruction) : String := i.opcode.mnemonic ++ i.operand.text

def read : Reader Instruction := do
  let offset ← Reader.offset
  let byte ← Reader.byte
  match Opcode.ofByte? byte with
  | none => throw (.unknownOpcode byte offset)
  | some opcode => return ⟨opcode, ← Operand.read opcode.layout, offset⟩

/-- Read instructions until no byte is left. Each takes at least one byte, so the number of
bytes bounds the number of instructions. -/
def readUpTo : Nat → Reader (List Instruction)
  | 0 => return []
  | n + 1 => do
    if ← Reader.atEnd then return []
    else
      let i ← read
      let more ← readUpTo n
      return i :: more

def decodeAll (code : List UInt8) : Except DecodeError (List Instruction) :=
  (readUpTo code.length).answer code

theorem length_bytes_of_fits {i : Instruction} (h : i.Fits) : i.bytes.length = i.size := by
  have h : i.operand.layout = i.opcode.layout := h
  simp [bytes, size, Operand.length_bytes, h, Nat.add_comm]

end Instruction

end WorldScript
