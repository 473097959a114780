/-!
Readings of a text from the left, character by character, and the characters that TOML
distinguishes.
-/
set_option autoImplicit false

namespace WorldScript.Toml

/-- Reads what a text begins with and leaves the rest, or refuses the text. -/
abbrev Reading (α : Type) : Type := StateT (List Char) Option α

def isBlank (c : Char) : Bool := c == ' ' || c == '\t'

def isPlain (c : Char) : Bool := c == '\t' || (32 ≤ c.toNat && c.toNat ≠ 127)

namespace Reading

def peek : Reading (Option Char) := fun cs => some (cs.head?, cs)

def expect (c : Char) : Reading Unit
  | [] => none
  | d :: rest => if d = c then some ((), rest) else none

def accept (c : Char) : Reading Bool
  | [] => some (false, [])
  | d :: rest => if d = c then some (true, rest) else some (false, d :: rest)

def run (kind : Char → Bool) : Reading (List Char) :=
  fun cs => some (cs.takeWhile kind, cs.dropWhile kind)

def blanks : Reading Unit := do let _ ← run isBlank

/-- The rest of a line: blanks, at most one comment, and the line end unless the text ends. -/
def endOfLine : Reading Unit := fun cs =>
  let rest := match cs.dropWhile isBlank with
    | '#' :: comment => comment.dropWhile isPlain
    | rest => rest
  match rest with
  | [] => some ((), [])
  | '\n' :: rest => some ((), rest)
  | '\r' :: '\n' :: rest => some ((), rest)
  | _ => none

/-- Skip blanks, line ends and comments. A comment that a control character cuts short leaves
that character to be refused by whoever reads on. -/
def skipGap : Bool → List Char → List Char
  | _, [] => []
  | _, '\n' :: rest => skipGap false rest
  | _, '\r' :: '\n' :: rest => skipGap false rest
  | inComment, c :: rest =>
    if inComment then if isPlain c then skipGap true rest else c :: rest
    else if isBlank c then skipGap false rest
    else if c = '#' then skipGap true rest
    else c :: rest

def gap : Reading Unit := fun cs => some ((), skipGap false cs)

def whole {α : Type} (r : Reading α) (cs : List Char) : Option α :=
  match r cs with
  | some (a, []) => some a
  | _ => none

def eachFor {α : Type} (r : Reading α) : Nat → List Char → Option (List α)
  | _, [] => some []
  | 0, _ :: _ => none
  | fuel + 1, c :: cs => do
    let (a, rest) ← r (c :: cs)
    let more ← eachFor r fuel rest
    return a :: more

def each {α : Type} (r : Reading α) (cs : List Char) : Option (List α) := eachFor r cs.length cs

end Reading

end WorldScript.Toml
