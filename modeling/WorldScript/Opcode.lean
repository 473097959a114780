/-!
The instruction set: for each opcode its byte, its mnemonic, the operand that follows it in the
code, and the family it belongs to. Bytes and mnemonics are distinct, so both can be read back.
-/
set_option autoImplicit false

namespace WorldScript

inductive Layout
  /-- Nothing: arguments travel on the value stack. -/
  | none
  | codeOffset
  | slot
  | number
  | stringIndex
  | entity
  | callTarget
deriving DecidableEq, Repr

def Layout.size : Layout → Nat
  | .none => 0
  | .codeOffset | .number | .stringIndex => 4
  | .slot | .entity | .callTarget => 2

inductive Family
  | math | flow | memory | stack | world | gui | combat
deriving DecidableEq, Repr

inductive Opcode
  | nop
  | negate | multiply | add | modulo | divide | subtract | concat
  | not | and | or
  | equal | notEqual | less | lessEqual | greater | greaterEqual
  | strEqual | strNotEqual | entityEqual | entityNotEqual
  | jump | jumpIfFalse | jumpIfTrue | jumpIfEqual | jumpIfNotEqual
  | jumpIfStrEqual | jumpIfStrNotEqual | jumpIfEntityEqual | jumpIfEntityNotEqual
  | jumpIfGreaterEqual | jumpIfGreater | jumpIfLess | jumpIfLessEqual
  | load | store
  | pushNumber | pushString | pushEntity
  | pop | dup
  | call | return
  | numberToString | stringToNumber
  | print | random | getSelf | entityExists | getName | getHitPoints | setHitPoints
  | getDistance | isWallOpen | setWallOpen | getEquipped | getAlignment | setAlignment
  | destroyEntity
  | wait | moveTo | speak
  | showMessage | dialog | fadeScreen | getInterfaceState
  | inCombat | startCombat | endCombat | attack | getActionPoints
deriving DecidableEq, Repr

namespace Opcode

def all : List Opcode :=
  [nop, negate, multiply, add, modulo, divide, subtract, concat, not, and, or, equal, notEqual,
   less, lessEqual, greater, greaterEqual, strEqual, strNotEqual, entityEqual, entityNotEqual,
   jump, jumpIfFalse, jumpIfTrue, jumpIfEqual, jumpIfNotEqual, jumpIfStrEqual,
   jumpIfStrNotEqual, jumpIfEntityEqual, jumpIfEntityNotEqual, jumpIfGreaterEqual,
   jumpIfGreater, jumpIfLess, jumpIfLessEqual, load, store, pushNumber, pushString, pushEntity,
   pop, dup, call, .return, numberToString, stringToNumber, print, random, getSelf,
   entityExists, getName, getHitPoints, setHitPoints, getDistance, isWallOpen, setWallOpen,
   getEquipped, getAlignment, setAlignment, destroyEntity, wait, moveTo, speak, showMessage,
   dialog, fadeScreen, getInterfaceState, inCombat, startCombat, endCombat, attack,
   getActionPoints]

def byte : Opcode → UInt8
  | nop => 0x00
  | negate => 0x01 | multiply => 0x02 | add => 0x03 | modulo => 0x04 | divide => 0x05
  | subtract => 0x06 | concat => 0x07
  | not => 0x08 | and => 0x09 | or => 0x0A
  | equal => 0x0B | notEqual => 0x0C | less => 0x0D | lessEqual => 0x0E | greater => 0x0F
  | greaterEqual => 0x10 | strEqual => 0x11 | strNotEqual => 0x12 | entityEqual => 0x13
  | entityNotEqual => 0x14
  | jump => 0x20 | jumpIfFalse => 0x21 | jumpIfTrue => 0x22 | jumpIfEqual => 0x23
  | jumpIfNotEqual => 0x24 | jumpIfStrEqual => 0x25 | jumpIfStrNotEqual => 0x26
  | jumpIfEntityEqual => 0x27 | jumpIfEntityNotEqual => 0x28 | jumpIfGreaterEqual => 0x29
  | jumpIfGreater => 0x2A | jumpIfLess => 0x2B | jumpIfLessEqual => 0x2C
  | load => 0x30 | store => 0x31
  | pushNumber => 0x38 | pushString => 0x39 | pushEntity => 0x3A
  | pop => 0x40 | dup => 0x41
  | call => 0x48 | .return => 0x49
  | numberToString => 0x50 | stringToNumber => 0x51
  | print => 0x80 | random => 0x81 | getSelf => 0x82 | entityExists => 0x83 | getName => 0x84
  | getHitPoints => 0x85 | setHitPoints => 0x86 | getDistance => 0x87 | isWallOpen => 0x88
  | setWallOpen => 0x89 | getEquipped => 0x8A | getAlignment => 0x8B | setAlignment => 0x8C
  | destroyEntity => 0x8D
  | wait => 0x90 | moveTo => 0x91 | speak => 0x92
  | showMessage => 0x98 | dialog => 0x99 | fadeScreen => 0x9A | getInterfaceState => 0x9B
  | inCombat => 0xA0 | startCombat => 0xA1 | endCombat => 0xA2 | attack => 0xA3
  | getActionPoints => 0xA4

def mnemonic : Opcode → String
  | nop => "nop"
  | negate => "neg" | multiply => "mul" | add => "add" | modulo => "mod" | divide => "div"
  | subtract => "sub" | concat => "concat"
  | not => "not" | and => "and" | or => "or"
  | equal => "eq" | notEqual => "ne" | less => "lt" | lessEqual => "le" | greater => "gt"
  | greaterEqual => "ge" | strEqual => "str_eq" | strNotEqual => "str_ne"
  | entityEqual => "ent_eq" | entityNotEqual => "ent_ne"
  | jump => "jmp" | jumpIfFalse => "jf" | jumpIfTrue => "jt" | jumpIfEqual => "jeq"
  | jumpIfNotEqual => "jne" | jumpIfStrEqual => "jstr_eq" | jumpIfStrNotEqual => "jstr_ne"
  | jumpIfEntityEqual => "jent_eq" | jumpIfEntityNotEqual => "jent_ne"
  | jumpIfGreaterEqual => "jge" | jumpIfGreater => "jgt" | jumpIfLess => "jlt"
  | jumpIfLessEqual => "jle"
  | load => "load" | store => "store"
  | pushNumber => "push" | pushString => "push_str" | pushEntity => "push_ent"
  | pop => "pop" | dup => "dup"
  | call => "call" | .return => "ret"
  | numberToString => "num2str" | stringToNumber => "str2num"
  | print => "print" | random => "random" | getSelf => "self" | entityExists => "exists"
  | getName => "name" | getHitPoints => "get_hp" | setHitPoints => "set_hp"
  | getDistance => "distance" | isWallOpen => "wall_open" | setWallOpen => "set_wall_open"
  | getEquipped => "equipped" | getAlignment => "alignment" | setAlignment => "set_alignment"
  | destroyEntity => "destroy"
  | wait => "wait" | moveTo => "move_to" | speak => "speak"
  | showMessage => "message" | dialog => "dialog" | fadeScreen => "fade"
  | getInterfaceState => "ui_state"
  | inCombat => "in_combat" | startCombat => "start_combat" | endCombat => "end_combat"
  | attack => "attack" | getActionPoints => "action_points"

def layout : Opcode → Layout
  | jump | jumpIfFalse | jumpIfTrue | jumpIfEqual | jumpIfNotEqual | jumpIfStrEqual
  | jumpIfStrNotEqual | jumpIfEntityEqual | jumpIfEntityNotEqual | jumpIfGreaterEqual
  | jumpIfGreater | jumpIfLess | jumpIfLessEqual => .codeOffset
  | load | store => .slot
  | pushNumber => .number
  | pushString => .stringIndex
  | pushEntity => .entity
  | call => .callTarget
  | _ => .none

def family : Opcode → Family
  | nop | pop | dup | call | .return => .stack
  | jump | jumpIfFalse | jumpIfTrue | jumpIfEqual | jumpIfNotEqual | jumpIfStrEqual
  | jumpIfStrNotEqual | jumpIfEntityEqual | jumpIfEntityNotEqual | jumpIfGreaterEqual
  | jumpIfGreater | jumpIfLess | jumpIfLessEqual => .flow
  | load | store | pushNumber | pushString | pushEntity => .memory
  | print | showMessage | dialog | fadeScreen | getInterfaceState => .gui
  | inCombat | startCombat | endCombat | attack | getActionPoints => .combat
  | random | getSelf | entityExists | getName | getHitPoints | setHitPoints | getDistance
  | isWallOpen | setWallOpen | getEquipped | getAlignment | setAlignment | destroyEntity
  | wait | moveTo | speak => .world
  | _ => .math

def isApi (op : Opcode) : Bool := decide (0x80 ≤ op.byte)

def ofByte? (b : UInt8) : Option Opcode := all.find? fun op => op.byte == b

def ofMnemonic? (name : List Char) : Option Opcode :=
  let lower := name.map Char.toLower
  all.find? fun op => op.mnemonic.toList == lower

theorem ofByte?_byte (op : Opcode) : ofByte? op.byte = some op := by
  cases op <;> decide

theorem byte_of_ofByte? {b : UInt8} {op : Opcode} (h : ofByte? b = some op) : op.byte = b := by
  simpa using List.find?_some h

theorem byte_injective {a b : Opcode} (h : a.byte = b.byte) : a = b := by
  have := ofByte?_byte a
  rw [h, ofByte?_byte b] at this
  exact (Option.some.inj this).symm

end Opcode

end WorldScript
