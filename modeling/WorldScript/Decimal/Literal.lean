import WorldScript.Decimal.Rounding

/-!
Decimal literals: an optional sign, digits with at most one point among or beside them, and
an optional exponent. `scan` finds the longest literal a text begins with. A point with no
digit on either side is not a literal, and an exponent mark with no digit after it is left
alone.
-/
set_option autoImplicit false

namespace WorldScript.Decimal

structure Literal where
  negative : Bool
  whole : List Char
  fraction : List Char
  exponent : Int
deriving DecidableEq

def takeSign : List Char → Bool × List Char
  | '-' :: rest => (true, rest)
  | '+' :: rest => (false, rest)
  | rest => (false, rest)

def scanExponent : List Char → Int × List Char
  | [] => (0, [])
  | c :: rest =>
    if c = 'e' ∨ c = 'E' then
      let (negative, after) := takeSign rest
      let ds := after.takeWhile Char.isDigit
      if ds.isEmpty then (0, c :: rest)
      else
        let n : Int := ofDigits ds
        (if negative then -n else n, after.dropWhile Char.isDigit)
    else (0, c :: rest)

def scanFraction : List Char → List Char × List Char
  | '.' :: rest => (rest.takeWhile Char.isDigit, rest.dropWhile Char.isDigit)
  | rest => ([], rest)

/-- The longest literal a text begins with, and the rest of the text. -/
def Literal.scan (text : List Char) : Option (Literal × List Char) :=
  let (negative, body) := takeSign text
  let whole := body.takeWhile Char.isDigit
  let (fraction, rest) := scanFraction (body.dropWhile Char.isDigit)
  if whole.isEmpty && fraction.isEmpty then none
  else
    let (exponent, rest) := scanExponent rest
    some (⟨negative, whole, fraction, exponent⟩, rest)

def Literal.decimal (l : Literal) : Decimal :=
  ⟨ofDigits (l.whole ++ l.fraction), l.exponent - l.fraction.length⟩

def Literal.value (l : Literal) : Binary32 := Binary32.ofMagnitude l.negative l.decimal.magnitude

/-- The literal's value as the nearest 64-bit number, rounded once more to 32 bits; `none` when
the 64-bit number is infinite. -/
def Literal.valueThrough64? (l : Literal) : Option Binary32 :=
  l.decimal.units64?.map fun n => Binary32.ofRatio l.negative (n * Binary32.unitsPerOne) units64PerOne

def wordMagnitude? (word : List Char) : Option Nat :=
  let lower := word.map Char.toLower
  if lower = "inf".toList || lower = "infinity".toList then some Binary32.infiniteMagnitude
  else if lower = "nan".toList then some Binary32.nan.magnitude
  else none

def readNumber? (text : List Char) : Option Binary32 :=
  let (negative, body) := takeSign text
  match wordMagnitude? body with
  | some m => some (Binary32.ofMagnitude negative m)
  | none =>
    match Literal.scan text with
    | some (l, []) => some l.value
    | _ => none

end WorldScript.Decimal
