import WorldScript.Opcode
import WorldScript.Text.Blank

/-!
One line of script source: an optional label with a colon, an optional mnemonic with an
operand, and an optional comment from a semicolon on. A semicolon inside a string literal
starts no comment.
-/
set_option autoImplicit false

namespace WorldScript.Source

inductive Scan
  | outside | inside | afterBackslash
deriving DecidableEq

def Scan.next : Scan → Char → Scan
  | .afterBackslash, _ => .inside
  | .inside, '\\' => .afterBackslash
  | .inside, '"' => .outside
  | .inside, _ => .inside
  | .outside, '"' => .inside
  | .outside, _ => .outside

def stripCommentFrom : Scan → List Char → List Char
  | _, [] => []
  | state, c :: rest =>
    if state = .outside ∧ c = ';' then [] else c :: stripCommentFrom (state.next c) rest

def stripComment (line : List Char) : List Char := stripCommentFrom .outside line

/-- The label a text begins with, without its colon, and what follows it. -/
def splitLabel? (text : List Char) : Option (List Char × List Char) :=
  if text.head? = some '"' then none
  else
    match (Text.firstWord text).reverse with
    | ':' :: label => some (label.reverse, Text.afterFirstWord text)
    | _ => none

def isNameStart (c : Char) : Bool := c.isAlpha || c == '_'

def isNameChar (c : Char) : Bool := c.isAlphanum || c == '_'

def isName : List Char → Bool
  | [] => false
  | c :: rest => isNameStart c && rest.all isNameChar

structure Statement where
  mnemonic : List Char
  operand : Option (List Char)
deriving DecidableEq

def Statement.ofText (text : List Char) : Statement :=
  let operand := Text.trim (Text.afterFirstWord text)
  ⟨Text.firstWord text, if operand.isEmpty then none else some operand⟩

def isSlotsDirective (mnemonic : List Char) : Bool :=
  mnemonic.map Char.toLower == ".slots".toList

/-- The opcode of a statement. A plain `push` of a string or an entity is the opcode for that
kind of value. -/
def Statement.opcode? (s : Statement) : Option Opcode :=
  (Opcode.ofMnemonic? s.mnemonic).map fun op =>
    if op = .pushNumber then
      match s.operand with
      | some ('"' :: _) => .pushString
      | some ('#' :: _) => .pushEntity
      | _ => op
    else op

end WorldScript.Source
