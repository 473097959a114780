import WorldScript.Decimal.Rounding

/-!
The shortest decimal that reads back as a given number: the fewest digits, and among those the
value nearest to the number. Numbers half way between two such values take the larger one.

For each count of digits only the two neighbours of the number on that grid are tried, since
if any point of the grid reads back then so does one of them.
-/
set_option autoImplicit false

namespace WorldScript.Decimal

/-- The order of a positive magnitude: the least power of ten above its value. No value is
below 10 ^ -45, so scaling by 10 ^ 45 leaves at least one digit before the point. -/
def orderOf (m : Nat) : Int :=
  (digits (Binary32.unitsOfMagnitude m * tenTo 45 / Binary32.unitsPerOne)).length - 45

def gridRatio (m : Nat) (exponent : Int) : Nat × Nat :=
  let n := Binary32.unitsOfMagnitude m
  if 0 ≤ exponent then (n, Binary32.unitsPerOne * tenTo exponent.toNat)
  else (n * tenTo (-exponent).toNat, Binary32.unitsPerOne)

def readsAs (m : Nat) (d : Decimal) : Bool := d.magnitude == m

/-- Of the two neighbours on a grid, those that read back being given: the nearer one. -/
def nearer (lowerIsNearer : Bool) : Option Decimal → Option Decimal → Option Decimal
  | some lower, some upper => some (if lowerIsNearer then lower else upper)
  | some lower, none => some lower
  | none, upper => upper

def onGrid? (m : Nat) (exponent : Int) : Option Decimal :=
  let (num, den) := gridRatio m exponent
  nearer (decide (2 * (num % den) < den))
    ((some ⟨num / den, exponent⟩).filter (readsAs m))
    ((some ⟨num / den + 1, exponent⟩).filter (readsAs m))

/-- The exact value of a magnitude, a unit being 5 ^ 149 times 10 ^ -149. -/
def exact (m : Nat) : Decimal := ⟨Binary32.unitsOfMagnitude m * Nat.pow 5 149, -149⟩

/-- The grids with 1, 2, … 9 digits in turn; nine digits are enough for every number. -/
def shortest (m : Nat) : Decimal :=
  let order := orderOf m
  ((List.range 9).findSome? fun (k : Nat) => onGrid? m (order - 1 - k)).getD (exact m)

theorem nearer_eq_some {b : Bool} {lower upper : Option Decimal} {d : Decimal}
    (h : nearer b lower upper = some d) : lower = some d ∨ upper = some d := by
  cases lower <;> cases upper <;> cases b <;> simp_all [nearer]

theorem magnitude_of_onGrid? {m : Nat} {e : Int} {d : Decimal} (h : onGrid? m e = some d) :
    d.magnitude = m := by
  have := nearer_eq_some h
  rcases this with h | h <;>
  · rw [Option.filter_eq_some_iff] at h
    simpa [readsAs] using h.2

end WorldScript.Decimal
