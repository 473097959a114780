/-!
String literals in script source: text between double quotes, in which a backslash escapes the
line feed, the tab, the quote and itself.
-/
set_option autoImplicit false

namespace WorldScript.Source

def unescape? : Char → Option Char
  | 'n' => some '\n'
  | 't' => some '\t'
  | '"' => some '"'
  | '\\' => some '\\'
  | _ => none

/-- What stands between the quotes, as text. A bare quote is refused. -/
def readEscaped? : List Char → Option (List Char)
  | [] => some []
  | '\\' :: c :: rest => do
    let d ← unescape? c
    let more ← readEscaped? rest
    return d :: more
  | c :: rest =>
    if c = '\\' ∨ c = '"' then none else (readEscaped? rest).map (c :: ·)

def readString? : List Char → Option (List Char)
  | '"' :: rest =>
    match rest.reverse with
    | '"' :: inner => readEscaped? inner.reverse
    | _ => none
  | _ => none

def escape : List Char → List Char
  | [] => []
  | c :: rest =>
    match c with
    | '\n' => '\\' :: 'n' :: escape rest
    | '\t' => '\\' :: 't' :: escape rest
    | '"' => '\\' :: '"' :: escape rest
    | '\\' => '\\' :: '\\' :: escape rest
    | c => c :: escape rest

def writeString (text : List Char) : List Char := '"' :: escape text ++ ['"']

theorem readEscaped?_escape (text : List Char) : readEscaped? (escape text) = some text := by
  induction text with
  | nil => rfl
  | cons c rest ih =>
    unfold escape
    split <;> simp_all [readEscaped?, unescape?]

theorem readString?_writeString (text : List Char) :
    readString? (writeString text) = some text := by
  simp [readString?, writeString, readEscaped?_escape]

end WorldScript.Source
