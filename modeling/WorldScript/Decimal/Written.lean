import WorldScript.Decimal.Shortest
import WorldScript.Binary32.Arithmetic

/-!
How numbers are written. Values on the stack print integral numbers in full and all others
with the fewest digits that read back, never with an exponent. Fault messages use the fewest
digits throughout. The detailed form in a script's state always has a fraction or an exponent.
-/
set_option autoImplicit false

namespace WorldScript

namespace Decimal

def stripZeros (d : Decimal) : List Char × Int :=
  let ds := (digits d.coefficient).reverse
  let kept := ds.dropWhile (· == '0')
  (kept.reverse, d.exponent + (ds.length - kept.length : Int))

def positional (d : Decimal) : List Char :=
  let (ds, exponent) := d.stripZeros
  if 0 ≤ exponent then ds ++ List.replicate exponent.toNat '0'
  else
    let places := (-exponent).toNat
    if places < ds.length then
      ds.take (ds.length - places) ++ '.' :: ds.drop (ds.length - places)
    else '0' :: '.' :: List.replicate (places - ds.length) '0' ++ ds

def scientific (d : Decimal) : List Char :=
  let (ds, exponent) := d.stripZeros
  let power := exponent + (ds.length - 1 : Int)
  let mantissa := match ds with
    | [] => ['0']
    | [c] => [c]
    | c :: rest => c :: '.' :: rest
  mantissa ++ 'e' :: (intText power).toList

end Decimal

namespace Binary32

def signed (x : Binary32) (body : List Char) : String :=
  String.ofList (if x.isNegative then '-' :: body else body)

def plainText (x : Binary32) : String :=
  if x.isNaN then "NaN"
  else if x.isInfinite then x.signed "inf".toList
  else if x.isZero then x.signed ['0']
  else x.signed (Decimal.shortest x.magnitude).positional

/-- Integral numbers in full, zero without a sign, all others with the fewest digits. -/
def text (x : Binary32) : String :=
  if x.isIntegral then
    if x.isZero then "0" else x.signed (Decimal.digits (x.absUnits / unitsPerOne))
  else x.plainText

/-- Detailed form: with an exponent from 10 ^ 16 on and below 10 ^ -4, and otherwise with at
least one digit after the point. -/
def detail (x : Binary32) : String :=
  let large := (Decimal.mk 1 16).magnitude
  let small := (Decimal.mk 1 (-4)).magnitude
  if !x.isFinite || x.isZero then
    if x.isZero then x.signed "0.0".toList else x.plainText
  else
    let d := Decimal.shortest x.magnitude
    if large ≤ x.magnitude || x.magnitude < small then x.signed d.scientific
    else if x.isIntegral then x.signed (d.positional ++ ".0".toList)
    else x.signed d.positional

end Binary32

end WorldScript
