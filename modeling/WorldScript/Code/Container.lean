import WorldScript.Code.Unit

/-!
The binary container of a code unit. All integers are little-endian: the magic, the version and
the slot count; the number of strings, and each with its length before it; the length of the
code, and the code. Nothing may follow.
-/
set_option autoImplicit false

namespace WorldScript

namespace Container

def magic : List UInt8 := [0x47, 0x52, 0x49, 0x4D]

def version : Nat := 1

def utf8 (s : String) : List UInt8 := s.toUTF8.toList

def ofUtf8? (bytes : List UInt8) : Option String := String.fromUTF8? ⟨bytes.toArray⟩

def stringBytes (s : String) : List UInt8 := littleEndian 2 s.utf8ByteSize ++ utf8 s

def readStrings : Nat → Nat → Reader (List String)
  | 0, _ => return []
  | count + 1, index => do
    let length ← Reader.natural 2
    let raw ← Reader.bytes length
    match ofUtf8? raw with
    | none => throw (.invalidString index)
    | some s =>
      let more ← readStrings count (index + 1)
      return s :: more

def readParts : Reader (UInt16 × List String × List UInt8) := do
  let found ← Reader.bytes 4
  if found ≠ magic then throw (.badMagic found)
  let v ← Reader.natural 2
  if v ≠ version then throw (.unsupportedVersion v)
  let slotCount ← Reader.word16
  let stringCount ← Reader.natural 4
  let strings ← readStrings stringCount 0
  let codeLength ← Reader.natural 4
  let code ← Reader.bytes codeLength
  let left ← Reader.remaining
  if left ≠ 0 then throw (.trailingBytes left)
  return (slotCount, strings, code)

end Container

namespace CodeUnit

def codeBytes (u : CodeUnit) : List UInt8 := u.code.toList.flatMap Instruction.bytes

def toBytes (u : CodeUnit) : List UInt8 :=
  Container.magic ++ littleEndian 2 Container.version ++ littleEndian 2 u.slotCount.toNat
    ++ littleEndian 4 u.strings.size ++ u.strings.toList.flatMap Container.stringBytes
    ++ littleEndian 4 u.codeBytes.length ++ u.codeBytes

def ofBytes (bytes : List UInt8) : Except DecodeError CodeUnit := do
  let (slotCount, strings, code) ← Container.readParts.answer bytes
  let instructions ← Instruction.decodeAll code
  ofParts slotCount strings.toArray instructions.toArray

end CodeUnit

end WorldScript
