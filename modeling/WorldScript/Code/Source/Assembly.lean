import WorldScript.Code.Source.Error
import WorldScript.Code.Source.Line
import WorldScript.Code.Source.Literal
import WorldScript.Code.Unit
import WorldScript.Decimal.Literal
import WorldScript.OrderedMap

/-!
From source text to a code unit. The first pass over the lines collects labels, the slot count
and the statements; the second reads the operands, which may name labels defined further down.
An error of the first pass is reported before any of the second.
-/
set_option autoImplicit false

namespace WorldScript.Source

structure Pending where
  line : Nat
  opcode : Opcode
  operand : Option (List Char)
deriving DecidableEq

/-- What the first pass has collected. A label stands for the number of statements before it. -/
structure Outline where
  labels : OrderedMap String Nat
  statements : Array Pending
  slotCount : UInt16

def Outline.empty : Outline := ⟨OrderedMap.empty, #[], 0⟩

def Outline.addLabel (o : Outline) (line : Nat) (name : List Char) : Except Error Outline :=
  let label := String.ofList name
  if !isName name then .error (.badOperand line (.invalidLabel label))
  else if o.labels.contains label then .error (.duplicateLabel line label)
  else .ok { o with labels := o.labels.insert label o.statements.size }

def Outline.setSlots (o : Outline) (line : Nat) : Option (List Char) → Except Error Outline
  | none => .error (.badOperand line .slotsWithoutCount)
  | some text =>
    match Decimal.readBounded? 65535 text with
    | some n => .ok { o with slotCount := UInt16.ofNat n }
    | none => .error (.badOperand line (.badSlotCount (String.ofList text)))

def Outline.addText (o : Outline) (line : Nat) (text : List Char) : Except Error Outline :=
  if text.isEmpty then .ok o
  else
    let s := Statement.ofText text
    if isSlotsDirective s.mnemonic then o.setSlots line s.operand
    else
      match s.opcode? with
      | some op => .ok { o with statements := o.statements.push ⟨line, op, s.operand⟩ }
      | none => .error (.unknownMnemonic line (String.ofList s.mnemonic))

def Outline.addLine (o : Outline) (line : Nat) (raw : List Char) : Except Error Outline :=
  let text := Text.trim (stripComment raw)
  match splitLabel? text with
  | some (label, rest) => do
    let o ← o.addLabel line label
    o.addText line (Text.trim rest)
  | none => o.addText line text

def Outline.addLines : Outline → Nat → List (List Char) → Except Error Outline
  | o, _, [] => .ok o
  | o, line, raw :: rest => do
    let o ← o.addLine line raw
    o.addLines (line + 1) rest

def readTarget (labels : OrderedMap String Nat) (line : Nat) (text : List Char) :
    Except Error Nat :=
  let name := match text with
    | '@' :: rest => rest
    | rest => rest
  match Decimal.readBounded? (UInt32.size - 1) name with
  | some n => .ok n
  | none =>
    match labels.get? (String.ofList name) with
    | some n => .ok n
    | none => .error (.undefinedLabel line (String.ofList name))

/-- The place of a string in the table, at the end if it is new. -/
def intern (table : Array String) (s : String) : Array String × Nat :=
  match table.idxOf? s with
  | some k => (table, k)
  | none => (table.push s, table.size)

def readPlain (labels : OrderedMap String Nat) (line : Nat) (layout : Layout)
    (text : List Char) : Except Error Operand :=
  let shown := String.ofList text
  match layout with
  | .none | .stringIndex => .ok .none
  | .codeOffset => do
    let n ← readTarget labels line text
    return .codeOffset (UInt32.ofNat n)
  | .callTarget => do
    let n ← readTarget labels line text
    if n ≤ 65535 then return .callTarget (UInt16.ofNat n)
    else throw (.badOperand line (.callTooFar n))
  | .slot =>
    let digits := match text with
      | '$' :: rest => rest
      | rest => rest
    match Decimal.readBounded? 65535 digits with
    | some n => .ok (.slot (UInt16.ofNat n))
    | none => .error (.badOperand line (.badSlot shown))
  | .number =>
    match Decimal.readNumber? text with
    | some n => .ok (.number n)
    | none => .error (.badOperand line (.badNumber shown))
  | .entity =>
    match text with
    | '#' :: digits =>
      match Decimal.readBounded? 65535 digits with
      | some n => .ok (.entity ⟨UInt16.ofNat n⟩)
      | none => .error (.badOperand line (.badHandle shown))
    | _ => .error (.badOperand line (.entityWithoutMark shown))

def Pending.instruction (p : Pending) (labels : OrderedMap String Nat) (table : Array String) :
    Except Error (Instruction × Array String) :=
  let fail (cause : OperandError) : Except Error (Instruction × Array String) :=
    .error (.badOperand p.line cause)
  match p.opcode.layout, p.operand with
  | .none, none => .ok (⟨p.opcode, .none, 0⟩, table)
  | .none, some text => fail (.unexpected p.opcode (String.ofList text))
  | _, none => fail (.missing p.opcode)
  | .stringIndex, some text =>
    match readString? text with
    | some s =>
      let (table, k) := intern table (String.ofList s)
      .ok (⟨p.opcode, .stringIndex (UInt32.ofNat k), 0⟩, table)
    | none => fail (.badString (String.ofList text))
  | layout, some text => do
    let operand ← readPlain labels p.line layout text
    return (⟨p.opcode, operand, 0⟩, table)

def readOperands (labels : OrderedMap String Nat) :
    Array Instruction → Array String → List Pending → Except Error (Array Instruction × Array String)
  | code, table, [] => .ok (code, table)
  | code, table, p :: rest => do
    let (i, table) ← p.instruction labels table
    readOperands labels (code.push i) table rest

def assembleLines (lines : List (List Char)) : Except Error CodeUnit := do
  let outline ← Outline.empty.addLines 1 lines
  let (code, strings) ← readOperands outline.labels #[] #[] outline.statements.toList
  match CodeUnit.ofParts outline.slotCount strings code with
  | .ok u => return u
  | .error e => throw (.defect e)

def assemble (source : String) : Except Error CodeUnit := assembleLines (Text.lines source.toList)

end WorldScript.Source
