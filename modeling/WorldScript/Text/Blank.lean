import WorldScript.Text.CharSet

/-!
White space, in the sense of the Unicode property of that name, and what is defined by it:
trimming, the first word of a line, and the lines of a text.
-/
set_option autoImplicit false

namespace WorldScript.Text

def blanks : CharSet where
  boundaries := [
  0x9, 0xE, 0x20, 0x21, 0x85, 0x86, 0xA0, 0xA1, 0x1680, 0x1681, 0x2000, 0x200B, 0x2028, 0x202A,
  0x202F, 0x2030, 0x205F, 0x2060, 0x3000, 0x3001]

def isBlank (c : Char) : Bool := blanks.contains c

def trimStart (cs : List Char) : List Char := cs.dropWhile isBlank

def trimEnd (cs : List Char) : List Char := (cs.reverse.dropWhile isBlank).reverse

def trim (cs : List Char) : List Char := trimEnd (trimStart cs)

def firstWord (cs : List Char) : List Char := cs.takeWhile (fun c => !isBlank c)

def afterFirstWord (cs : List Char) : List Char := cs.dropWhile (fun c => !isBlank c)

theorem firstWord_append_afterFirstWord (cs : List Char) :
    firstWord cs ++ afterFirstWord cs = cs := List.takeWhile_append_dropWhile

def dropReturn (line : List Char) : List Char :=
  match line.reverse with
  | '\r' :: rest => rest.reverse
  | _ => line

def splitLines : List Char → List (List Char)
  | [] => [[]]
  | c :: rest =>
    match splitLines rest with
    | [] => [[c]]
    | line :: more => if c = '\n' then [] :: line :: more else (c :: line) :: more

/-- The lines of a text. A line feed ends a line, with at most one carriage return before it;
text after the last line feed is a line too, and is taken as it stands. -/
def lines (text : List Char) : List (List Char) :=
  let pieces := splitLines text
  let last := pieces.getLastD []
  pieces.dropLast.map dropReturn ++ if last.isEmpty then [] else [last]

end WorldScript.Text
