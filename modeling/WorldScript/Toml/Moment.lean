import WorldScript.Toml.Reading
import WorldScript.Decimal.Digits

/-!
Dates and times of the Gregorian calendar: a date, a time of day, or both with an optional
distance from universal time.
-/
set_option autoImplicit false

namespace WorldScript.Toml

def fixedDigits (count : Nat) : Reading Nat := fun cs =>
  let ds := cs.take count
  if ds.length = count ∧ ds.all Char.isDigit then some (Decimal.ofDigits ds, cs.drop count)
  else none

def pairWithin (least greatest : Nat) : Reading Nat := do
  let n ← fixedDigits 2
  if least ≤ n ∧ n ≤ greatest then return n else failure

def isLeapYear (year : Nat) : Bool := year % 4 == 0 && (year % 100 != 0 || year % 400 == 0)

def daysIn (year month : Nat) : Nat :=
  if month = 2 then if isLeapYear year then 29 else 28
  else if month = 4 ∨ month = 6 ∨ month = 9 ∨ month = 11 then 30
  else 31

def date : Reading Unit := do
  let year ← fixedDigits 4
  Reading.expect '-'
  let month ← pairWithin 1 12
  Reading.expect '-'
  let _ ← pairWithin 1 (daysIn year month)

/-- Hours, minutes and seconds, with a place for a leap second, and a fraction if a point
follows. -/
def timeOfDay : Reading Unit := do
  let _ ← pairWithin 0 23
  Reading.expect ':'
  let _ ← pairWithin 0 59
  Reading.expect ':'
  let _ ← pairWithin 0 60
  if ← Reading.accept '.' then
    let ds ← Reading.run Char.isDigit
    if ds.isEmpty then failure

def zone : Reading Unit := do
  match ← Reading.peek with
  | some 'Z' => Reading.expect 'Z'
  | some 'z' => Reading.expect 'z'
  | some '+' => Reading.expect '+'; hoursAndMinutes
  | some '-' => Reading.expect '-'; hoursAndMinutes
  | _ => return ()
where
  hoursAndMinutes : Reading Unit := do
    let _ ← pairWithin 0 23
    Reading.expect ':'
    let _ ← pairWithin 0 59

def zonedTime : Reading Unit := do
  timeOfDay
  zone

def isDate (word : List Char) : Bool := (Reading.whole date word).isSome

def isTime (word : List Char) : Bool := (Reading.whole timeOfDay word).isSome

def isZonedTime (word : List Char) : Bool := (Reading.whole zonedTime word).isSome

def isMoment (word : List Char) : Bool :=
  isDate word || isTime word
    || (isDate (word.take 10) && (word[10]? == some 'T' || word[10]? == some 't')
      && isZonedTime (word.drop 11))

end WorldScript.Toml
