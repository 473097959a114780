import WorldScript.Code.Source.Assembly

/-!
The grammar of script source. A program is a list of lines, and a line is put together of its parts
and the blanks between them, so that only what is well formed can be built. What a program means is
said by its parts, without a look at its text.
-/
set_option autoImplicit false

namespace WorldScript.Source.Grammar

/-! ### Words -/

structure Gap where
  chars : List Char
  blank : ∀ c ∈ chars, Text.isBlank c = true ∧ c ≠ '\n'

structure Name where
  first : Char
  rest : List Char
  starts : first.isAlpha = true ∨ first = '_'
  continues : ∀ c ∈ rest, c.isAlphanum = true ∨ c = '_'
deriving DecidableEq

def Name.chars (n : Name) : List Char := n.first :: n.rest

def Name.text (n : Name) : String := String.ofList n.chars

structure Digits where
  first : Char
  rest : List Char
  digits : ∀ c ∈ first :: rest, c.isDigit = true

def Digits.chars (d : Digits) : List Char := d.first :: d.rest

def Digits.value (d : Digits) : Nat := Decimal.ofDigits d.chars

/-- The word, in any letter case. -/
def Spells (word : List Char) (s : String) : Prop := word.map Char.toLower = s.toList

instance (word : List Char) (s : String) : Decidable (Spells word s) :=
  inferInstanceAs (Decidable (_ = _))

/-! ### Numbers -/

inductive Sign
  | none
  | plus
  | minus

namespace Sign

def chars : Sign → List Char
  | none => []
  | plus => ['+']
  | minus => ['-']

def negative : Sign → Bool
  | minus => true
  | none | plus => false

end Sign

structure Exponent where
  mark : Char
  sign : Sign
  digits : Digits
  marks : mark = 'e' ∨ mark = 'E'

namespace Exponent

def chars (e : Exponent) : List Char := e.mark :: (e.sign.chars ++ e.digits.chars)

def value (e : Exponent) : Int := if e.sign.negative then -e.digits.value else e.digits.value

end Exponent

/-- Digits, with at most one point among or beside them. -/
structure Figures where
  whole : List Char
  fraction : Option (List Char)
  digits : ∀ c ∈ whole ++ fraction.getD [], c.isDigit = true
  nonempty : whole ++ fraction.getD [] ≠ []

def Figures.chars (f : Figures) : List Char :=
  f.whole ++ (f.fraction.map fun ds => '.' :: ds).getD []

inductive Numeral
  | figures (sign : Sign) (f : Figures) (exponent : Option Exponent)
  | infinite (sign : Sign) (word : List Char)
    (spelled : Spells word "inf" ∨ Spells word "infinity")
  | nan (sign : Sign) (word : List Char) (spelled : Spells word "nan")

namespace Numeral

def chars : Numeral → List Char
  | figures sign f exponent => sign.chars ++ f.chars ++ (exponent.map Exponent.chars).getD []
  | infinite sign word _ | nan sign word _ => sign.chars ++ word

def value : Numeral → Binary32
  | figures sign f exponent =>
    Decimal.Literal.value ⟨sign.negative, f.whole, f.fraction.getD [],
      (exponent.map Exponent.value).getD 0⟩
  | infinite sign _ _ => Binary32.ofMagnitude sign.negative Binary32.infiniteMagnitude
  | nan sign _ _ => Binary32.ofMagnitude sign.negative Binary32.nan.magnitude

end Numeral

/-! ### Strings -/

inductive Piece
  | plain (c : Char) (bare : c ≠ '"' ∧ c ≠ '\\' ∧ c ≠ '\n')
  | newline
  | tab
  | quote
  | backslash

namespace Piece

def chars : Piece → List Char
  | plain c _ => [c]
  | newline => ['\\', 'n']
  | tab => ['\\', 't']
  | quote => ['\\', '"']
  | backslash => ['\\', '\\']

def value : Piece → Char
  | plain c _ => c
  | newline => '\n'
  | tab => '\t'
  | quote => '"'
  | backslash => '\\'

end Piece

def stringOf (pieces : List Piece) : String := String.ofList (pieces.map Piece.value)

/-! ### Statements -/

inductive Target
  | label (n : Name)
  | index (d : Digits)

def Target.chars : Target → List Char
  | label n => n.chars
  | index d => d.chars

inductive Argument
  | target (marked : Bool) (t : Target)
  | slot (marked : Bool) (d : Digits)
  | number (n : Numeral)
  | entity (d : Digits)
  | string (pieces : List Piece)

namespace Argument

def optional (c : Char) (marked : Bool) : List Char := if marked then [c] else []

def chars : Argument → List Char
  | target marked t => optional '@' marked ++ t.chars
  | slot marked d => optional '$' marked ++ d.chars
  | number n => n.chars
  | entity d => '#' :: d.chars
  | string pieces => '"' :: (pieces.flatMap Piece.chars ++ ['"'])

def layouts : Argument → List Layout
  | target _ _ => [.codeOffset, .callTarget]
  | slot _ _ => [.slot]
  | number _ => [.number]
  | entity _ => [.entity]
  | string _ => [.stringIndex]

end Argument

/-- A mnemonic and, after a gap, its argument. A plain `push` may stand for the opcodes that push
strings and entities. -/
structure Phrase where
  opcode : Opcode
  word : List Char
  argument : Option (Gap × Argument)
  spelled : Spells word opcode.mnemonic ∨
    Spells word "push" ∧ (opcode = .pushString ∨ opcode = .pushEntity)
  bare : argument = none → opcode.layout = .none
  fits : ∀ x ∈ argument, x.1.chars ≠ [] ∧ opcode.layout ∈ x.2.layouts

def Phrase.chars (ph : Phrase) : List Char :=
  ph.word ++ (ph.argument.map fun (g, a) => g.chars ++ a.chars).getD []

def Phrase.string? (ph : Phrase) : Option String :=
  match ph.argument with
  | some (_, .string pieces) => some (stringOf pieces)
  | _ => none

/-! ### Lines -/

inductive Content
  | slots (word : List Char) (gap : Gap) (count : Digits) (spelled : Spells word ".slots")
    (apart : gap.chars ≠ [])
  | phrase (ph : Phrase)

def Content.chars : Content → List Char
  | slots word gap count _ _ => word ++ (gap.chars ++ count.chars)
  | phrase ph => ph.chars

/-- All parts of a line may be missing. A label is followed by white space or by the end of the
line, which a comment does not count to. -/
structure Line where
  indent : Gap
  label : Option Name
  between : Gap
  content : Option Content
  trailing : Gap
  comment : Option (List Char)
  apart : label.isSome → content.isSome → between.chars ≠ []
  single : ∀ cs ∈ comment, '\n' ∉ cs

namespace Line

def chars (l : Line) : List Char :=
  l.indent.chars ++ (l.label.map fun n => n.chars ++ [':']).getD [] ++ l.between.chars ++
    (l.content.map Content.chars).getD [] ++ l.trailing.chars ++
    (l.comment.map fun cs => ';' :: cs).getD []

def phrase? (l : Line) : Option Phrase :=
  match l.content with
  | some (.phrase ph) => some ph
  | _ => none

def slots? (l : Line) : Option Digits :=
  match l.content with
  | some (.slots _ _ count _ _) => some count
  | _ => none

end Line

/-! ### Programs -/

abbrev Program := List Line

namespace Program

variable (p : Program)

/-- The text of a program. A line feed at its end makes one more line, which is empty. -/
def source : String := String.ofList (['\n'].intercalate (p.map Line.chars))

def labels : List Name := p.filterMap Line.label

def phrases : List Phrase := p.filterMap Line.phrase?

def slotCount : Nat := ((p.filterMap Line.slots?).getLast?.map Digits.value).getD 0

/-- How many statements stand on the lines before a label. -/
def address (n : Name) : Nat := (phrases (p.takeWhile fun l => decide (l.label ≠ some n))).length

def stringsOf (phs : List Phrase) : List String := (phs.filterMap Phrase.string?).eraseDups

def strings : List String := stringsOf p.phrases

def position : Target → Nat
  | .label n => p.address n
  | .index d => d.value

def operand (layout : Layout) : Argument → Operand
  | .target _ t =>
    if layout = .callTarget then .callTarget (UInt16.ofNat (p.position t))
    else .codeOffset (UInt32.ofNat (p.position t))
  | .slot _ d => .slot (UInt16.ofNat d.value)
  | .number n => .number n.value
  | .entity d => .entity ⟨UInt16.ofNat d.value⟩
  | .string pieces => .stringIndex (UInt32.ofNat (p.strings.idxOf (stringOf pieces)))

def instruction (ph : Phrase) : Instruction :=
  match ph.argument with
  | none => ⟨ph.opcode, .none, 0⟩
  | some (_, a) => ⟨ph.opcode, p.operand ph.opcode.layout a, 0⟩

def code : List Instruction := p.phrases.map p.instruction

def lastPosition (layout : Layout) : Nat := if layout = .callTarget then 65535 else 4294967295

def InRange (layout : Layout) : Argument → Prop
  | .target _ (.label n) => n ∈ p.labels ∧ p.address n ≤ lastPosition layout
  | .target _ (.index d) => d.value ≤ p.phrases.length ∧ d.value ≤ lastPosition layout
  | .slot _ d | .entity d => d.value ≤ 65535
  | .number _ => True
  | .string pieces =>
    (stringOf pieces).utf8ByteSize ≤ 65535 ∧ p.strings.idxOf (stringOf pieces) ≤ 4294967295

instance (layout : Layout) : (a : Argument) → Decidable (p.InRange layout a)
  | .target _ (.label n) => inferInstanceAs (Decidable (n ∈ p.labels ∧ _ ≤ _))
  | .target _ (.index d) => inferInstanceAs (Decidable (d.value ≤ _ ∧ _ ≤ _))
  | .slot _ d | .entity d => inferInstanceAs (Decidable (d.value ≤ _))
  | .number _ => inferInstanceAs (Decidable True)
  | .string pieces => inferInstanceAs (Decidable ((stringOf pieces).utf8ByteSize ≤ _ ∧ _ ≤ _))

/-- The conditions on a program that are not those of one line. -/
structure WellFormed : Prop where
  distinct : p.labels.Nodup
  slots : ∀ d ∈ p.filterMap Line.slots?, d.value ≤ 65535
  arguments : ∀ ph ∈ p.phrases, ∀ x ∈ ph.argument, p.InRange ph.opcode.layout x.2

instance : Decidable p.WellFormed :=
  decidable_of_iff (p.labels.Nodup ∧ (∀ d ∈ p.filterMap Line.slots?, d.value ≤ 65535) ∧
      ∀ ph ∈ p.phrases, ∀ x ∈ ph.argument, p.InRange ph.opcode.layout x.2)
    ⟨fun h => ⟨h.1, h.2.1, h.2.2⟩, fun h => ⟨h.distinct, h.slots, h.arguments⟩⟩

end Program

end WorldScript.Source.Grammar
