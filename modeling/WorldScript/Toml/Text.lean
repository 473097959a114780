import WorldScript.Toml.Number
import WorldScript.Toml.Reading

/-!
Quoted texts. Single quotes take every character as it stands, double quotes know escapes, and
either kind can be tripled for a text of several lines, whose line ends are then line feeds.
-/
set_option autoImplicit false

namespace WorldScript.Toml

def shortEscape? : Char → Option Char
  | 'b' => some '\x08'
  | 't' => some '\t'
  | 'n' => some '\n'
  | 'f' => some '\x0c'
  | 'r' => some '\r'
  | '"' => some '"'
  | '\\' => some '\\'
  | _ => none

def codePoint? (ds : List Char) : Option Char := do
  let n ← naturalIn? 16 ds
  if n.isValidChar then some (Char.ofNat n) else none

def continuation : Reading (List Char) := fun cs =>
  match cs.dropWhile isBlank with
  | '\n' :: rest => some ([], rest.dropWhile fun c => isBlank c || c == '\n')
  | _ => none

def escapedPiece (severalLines : Bool) : Reading (List Char)
  | [] => none
  | '\\' :: 'u' :: a :: b :: c :: d :: rest => do
    let x ← codePoint? [a, b, c, d]
    return ([x], rest)
  | '\\' :: 'U' :: a :: b :: c :: d :: e :: f :: g :: h :: rest => do
    let x ← codePoint? [a, b, c, d, e, f, g, h]
    return ([x], rest)
  | '\\' :: c :: rest =>
    match shortEscape? c with
    | some x => some ([x], rest)
    | none => if severalLines then continuation (c :: rest) else none
  | c :: rest =>
    if c ≠ '\\' && (isPlain c || (severalLines && c == '\n')) then some ([c], rest) else none

def literalPiece (severalLines : Bool) : Reading (List Char)
  | [] => none
  | c :: rest => if isPlain c || (severalLines && c == '\n') then some ([c], rest) else none

def pieces (escapes severalLines : Bool) (body : List Char) : Option (List Char) :=
  (Reading.each (if escapes then escapedPiece severalLines else literalPiece severalLines) body).map
    List.flatten

def closedBySingle? (q : Char) : List Char → Option (List Char × List Char)
  | [] => none
  | c :: rest => if c = q then some ([], rest) else none

/-- Three closing quotes. One or two quotes before them belong to the text. -/
def closedByTriple? (q : Char) (cs : List Char) : Option (List Char × List Char) :=
  match (cs.takeWhile (· == q)).length with
  | 0 | 1 | 2 => none
  | 3 => some ([], cs.drop 3)
  | 4 => some ([q], cs.drop 4)
  | _ => some ([q, q], cs.drop 5)

/-- The text up to the closing quotes, and what follows them. With escapes, the character after a
backslash closes nothing; `skipping` tells that one stands before. -/
def untilClosed (closed? : List Char → Option (List Char × List Char)) (escapes : Bool) :
    Bool → List Char → Option (List Char × List Char)
  | _, [] => none
  | skipping, c :: rest =>
    match if skipping then none else closed? (c :: rest) with
    | some found => some found
    | none => do
      let (body, after) ← untilClosed closed? escapes (!skipping && escapes && c == '\\') rest
      return (c :: body, after)

def unifyLineEnds : List Char → List Char
  | [] => []
  | '\r' :: '\n' :: rest => '\n' :: unifyLineEnds rest
  | c :: rest => c :: unifyLineEnds rest

def dropFirstLineEnd : List Char → List Char
  | '\n' :: rest => rest
  | cs => cs

def hasEscapes (quote : Char) : Bool := quote == '"'

def shortText (q : Char) : Reading String := do
  Reading.expect q
  let body ← untilClosed (closedBySingle? q) (hasEscapes q) false
  let cs ← pieces (hasEscapes q) false body
  return String.ofList cs

def longText (q : Char) : Reading String := do
  let body ← untilClosed (closedByTriple? q) (hasEscapes q) false
  let cs ← pieces (hasEscapes q) true (dropFirstLineEnd (unifyLineEnds body))
  return String.ofList cs

def quotedText (q : Char) : Reading String := fun cs =>
  if [q, q, q].isPrefixOf cs then longText q (cs.drop 3) else shortText q cs

end WorldScript.Toml
