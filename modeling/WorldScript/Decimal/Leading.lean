import WorldScript.Decimal.Literal

/-!
The number that stands at the beginning of a text. How far it reaches is found from the bytes of the
text: a sign, digits with at most one point among or beside them, and an exponent. What reaches so
far is cut off and read by itself.
-/
set_option autoImplicit false

namespace WorldScript.Decimal

def isDigitByte (b : UInt8) : Bool := 0x30 ≤ b && b ≤ 0x39

def digitCount (bytes : List UInt8) : Nat := (bytes.takeWhile isDigitByte).length

def signSize : List UInt8 → Nat
  | [] => 0
  | b :: _ => if b = 0x2B ∨ b = 0x2D then 1 else 0

/-- How many bytes of a point and the digits after it stand first. The point counts only with a
digit on one of its sides. -/
def fractionSize (whole : Nat) : List UInt8 → Nat
  | [] => 0
  | b :: rest =>
    let digits := digitCount rest
    if b = 0x2E ∧ 0 < whole + digits then 1 + digits else 0

/-- How many bytes of an exponent stand first. It counts only with a digit after its mark. -/
def exponentSize : List UInt8 → Nat
  | [] => 0
  | b :: rest =>
    let sign := signSize rest
    let digits := digitCount (rest.drop sign)
    if (b = 0x65 ∨ b = 0x45) ∧ 0 < digits then 1 + sign + digits else 0

def numeralSize? (bytes : List UInt8) : Option Nat :=
  let sign := signSize bytes
  let whole := digitCount (bytes.drop sign)
  let fraction := fractionSize whole (bytes.drop (sign + whole))
  let size := sign + whole + fraction
  if whole + fraction = 0 then none else some (size + exponentSize (bytes.drop size))

/-- The first bytes of a text, as a text; `none` if they end within a character. -/
def front? (text : String) (size : Nat) : Option String :=
  String.fromUTF8? (text.toUTF8.extract 0 size)

/-- The number that stands at the beginning of a text; 0 if none does, or if what stands there
cannot be cut off or read. -/
def leadingNumber (text : String) : Binary32 :=
  match numeralSize? text.toUTF8.toList with
  | none => Binary32.zero
  | some size => ((front? text size).bind fun front => readNumber? front.toList).getD Binary32.zero

end WorldScript.Decimal
