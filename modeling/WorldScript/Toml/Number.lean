import WorldScript.Decimal.Literal
import WorldScript.Toml.Datum
import WorldScript.Toml.Reading

/-!
Numbers. Integers have 64 bits and can be written in four bases, floats are decimal, and an
underscore may stand between two digits. A float is read with 64 bits and held with 32.
-/
set_option autoImplicit false

namespace WorldScript.Toml

def hexValue (c : Char) : Nat :=
  if c.isDigit then c.toNat - 48
  else if 'a' ≤ c ∧ c ≤ 'f' then c.toNat - 87
  else if 'A' ≤ c ∧ c ≤ 'F' then c.toNat - 55
  else 16

def digitIn? (base : Nat) (c : Char) : Option Nat :=
  if hexValue c < base then some (hexValue c) else none

def naturalIn? (base : Nat) (ds : List Char) : Option Nat :=
  ds.foldlM (fun n c => (digitIn? base c).map (n * base + ·)) 0

/-- Digits without the underscores, each of which must stand between two of them. -/
def ungroup? (isDigit : Char → Bool) : List Char → Option (List Char)
  | [] => none
  | [c] => if isDigit c then some [c] else none
  | c :: '_' :: rest => if isDigit c then (ungroup? isDigit rest).map (c :: ·) else none
  | c :: rest => if isDigit c then (ungroup? isDigit rest).map (c :: ·) else none

def integer? (n : Int) : Option Datum :=
  if Int64.minValue.toInt ≤ n ∧ n ≤ Int64.maxValue.toInt then some (.integer n) else none

def based? (base : Nat) (ds : List Char) : Option Datum := do
  let ds ← ungroup? (fun c => (digitIn? base c).isSome) ds
  integer? (← naturalIn? base ds)

/-- A literal past the largest number is refused; one below the least is minus infinity. -/
def float? (l : Decimal.Literal) : Option Datum :=
  match l.valueThrough64? with
  | some x => some (.float x)
  | none => if l.negative then some (.float (Binary32.infinity true)) else none

def isExponentMark (c : Char) : Bool := c == 'e' || c == 'E'

/-- The digits before a fraction or an exponent. No zero stands before another digit. -/
def wholePart? (ds : List Char) : Option (List Char) := do
  let ds ← ungroup? Char.isDigit ds
  if ds.head? = some '0' ∧ ds.length ≠ 1 then none else some ds

def exponentPart? : List Char → Option Int
  | [] => some 0
  | mark :: rest => do
    let (negative, ds) := Decimal.takeSign rest
    let ds ← ungroup? Char.isDigit ds
    let n : Int := Decimal.ofDigits ds
    if isExponentMark mark then some (if negative then -n else n) else none

def decimal? (word : List Char) : Option Datum := do
  let (negative, body) := Decimal.takeSign word
  let whole ← wholePart? (body.takeWhile fun c => c != '.' && !isExponentMark c)
  match body.dropWhile fun c => c != '.' && !isExponentMark c with
  | [] =>
    let n : Int := Decimal.ofDigits whole
    integer? (if negative then -n else n)
  | '.' :: rest =>
    let fraction ← ungroup? Char.isDigit (rest.takeWhile fun c => !isExponentMark c)
    let exponent ← exponentPart? (rest.dropWhile fun c => !isExponentMark c)
    float? ⟨negative, whole, fraction, exponent⟩
  | rest =>
    let exponent ← exponentPart? rest
    float? ⟨negative, whole, [], exponent⟩

def special? (word : List Char) : Option Datum :=
  let (negative, body) := Decimal.takeSign word
  if body = ['i', 'n', 'f'] then some (.float (Binary32.infinity negative))
  else if body = ['n', 'a', 'n'] then
    some (.float (Binary32.ofMagnitude negative Binary32.nan.magnitude))
  else none

def number? : List Char → Option Datum
  | '0' :: 'x' :: ds => based? 16 ds
  | '0' :: 'o' :: ds => based? 8 ds
  | '0' :: 'b' :: ds => based? 2 ds
  | word => special? word <|> decimal? word

end WorldScript.Toml
