import WorldScript.Text.LetterCase

/-!
Lower-casing of whole texts, which is how texts are compared. Each character is replaced by its
lower-case form; a capital sigma that ends a word takes the form for that place.
-/
set_option autoImplicit false

namespace WorldScript.Text

/-- Does a cased letter come first, after any characters that are passed over? -/
def startsCased (cs : List Char) : Bool :=
  match cs.dropWhile isCaseIgnorable with
  | c :: _ => isCased c
  | [] => false

/-- The sigma for a place between `before`, read backwards, and `after`. -/
def sigma (before after : List Char) : Char :=
  if startsCased before && !startsCased after then Char.ofNat 0x3C2 else Char.ofNat 0x3C3

/-- Lower-case forms of the characters that follow `before`, which is read backwards. -/
def lowerAfter (before : List Char) : List Char → List Char
  | [] => []
  | c :: rest =>
    (if c.toNat = 0x3A3 then [sigma before rest] else lowerForms c) ++ lowerAfter (c :: before) rest

def lower (cs : List Char) : List Char := lowerAfter [] cs

def sameLetters (a b : String) : Bool := lower a.toList == lower b.toList

def compareChars : List Char → List Char → Ordering
  | [], [] => .eq
  | [], _ :: _ => .lt
  | _ :: _, [] => .gt
  | a :: as, b :: bs => (compare a.toNat b.toNat).then (compareChars as bs)

def compareLetters (a b : String) : Ordering := compareChars (lower a.toList) (lower b.toList)

end WorldScript.Text
