/-!
Sets of characters given by the code points at which membership changes: a character belongs
to the set when an odd number of boundaries lie at or below it. The sets of this library are
those of Unicode 17.
-/
set_option autoImplicit false

namespace WorldScript.Text

structure CharSet where
  boundaries : List Nat

def CharSet.contains (s : CharSet) (c : Char) : Bool :=
  s.boundaries.countP (fun b => decide (b ≤ c.toNat)) % 2 == 1

end WorldScript.Text
