/-!
Decimal digits of natural numbers. `digits` writes without leading zeros, `ofDigits` reads any
string of digits, and reading what was written gives the number back.
-/
set_option autoImplicit false

namespace WorldScript.Decimal

def digits (n : Nat) : List Char :=
  if h : n < 10 then [Nat.digitChar n]
  else
    have : n / 10 < n := Nat.div_lt_self (by omega) (by decide)
    digits (n / 10) ++ [Nat.digitChar (n % 10)]
termination_by n

def tenTo (n : Nat) : Nat := Nat.pow 10 n

def digitValue (c : Char) : Nat := c.toNat - 48

def ofDigits (cs : List Char) : Nat := cs.foldl (fun n c => n * 10 + digitValue c) 0

theorem isDigit_digitChar : ∀ d : Nat, d < 10 → (Nat.digitChar d).isDigit = true := by decide

theorem digitValue_digitChar : ∀ d : Nat, d < 10 → digitValue (Nat.digitChar d) = d := by decide

theorem digits_ne_nil (n : Nat) : digits n ≠ [] := by
  unfold digits; split <;> simp

theorem isDigit_of_mem_digits {n : Nat} {c : Char} (h : c ∈ digits n) : c.isDigit = true := by
  induction n using digits.induct with
  | case1 n hn =>
    rw [digits, dif_pos hn, List.mem_singleton] at h
    exact h ▸ isDigit_digitChar n hn
  | case2 n hn _ ih =>
    rw [digits, dif_neg hn, List.mem_append, List.mem_singleton] at h
    rcases h with h | h
    · exact ih h
    · exact h ▸ isDigit_digitChar _ (Nat.mod_lt _ (by decide))

theorem ofDigits_append_singleton (cs : List Char) (c : Char) :
    ofDigits (cs ++ [c]) = ofDigits cs * 10 + digitValue c := by
  simp [ofDigits]

theorem ofDigits_digits (n : Nat) : ofDigits (digits n) = n := by
  induction n using digits.induct with
  | case1 n hn =>
    rw [digits, dif_pos hn]
    simpa [ofDigits] using digitValue_digitChar n hn
  | case2 n hn _ ih =>
    rw [digits, dif_neg hn, ofDigits_append_singleton, ih,
      digitValue_digitChar _ (Nat.mod_lt _ (by decide))]
    omega

theorem digits_injective {m n : Nat} (h : digits m = digits n) : m = n := by
  rw [← ofDigits_digits m, ← ofDigits_digits n, h]

/-- A whole text as a number of at most `bound`: digits only, with at most one `+` before. -/
def readBounded? (bound : Nat) (text : List Char) : Option Nat :=
  let ds := match text with
    | '+' :: rest => rest
    | rest => rest
  if ds.isEmpty || !ds.all Char.isDigit then none
  else
    let n := ofDigits ds
    if n ≤ bound then some n else none

def text (n : Nat) : String := String.ofList (digits n)

def intText (n : Int) : String := (if n < 0 then "-" else "") ++ text n.natAbs

end WorldScript.Decimal
