import WorldScript.Toml.Moment
import WorldScript.Toml.Text

/-!
The lines of a document: assignments of data to keys, and the headers of tables.
-/
set_option autoImplicit false

namespace WorldScript.Toml

/-- Brackets may be nested less deep than this, and keys have fewer parts. -/
def depthLimit : Nat := 80

structure Key where
  path : List String
  name : String
deriving DecidableEq

def Key.ofParts? (parts : List String) : Option Key :=
  if parts.length < depthLimit then parts.getLast?.map fun name => ⟨parts.dropLast, name⟩
  else none

def isKeyChar (c : Char) : Bool := c.isAlphanum || c == '_' || c == '-'

def keyPart : Reading String := do
  Reading.blanks
  let part ← match ← Reading.peek with
    | some '"' => shortText '"'
    | some '\'' => shortText '\''
    | _ => do
      let cs ← Reading.run isKeyChar
      if cs.isEmpty then failure else pure (String.ofList cs)
  Reading.blanks
  return part

def keyParts : Nat → Reading (List String)
  | 0 => failure
  | fuel + 1 => do
    let part ← keyPart
    if ← Reading.accept '.' then
      let more ← keyParts fuel
      return part :: more
    else return [part]

def key : Reading Key := do
  let parts ← keyParts depthLimit
  Key.ofParts? parts

def isWordChar (c : Char) : Bool := c.isAlphanum || ['+', '-', '_', '.', ':'].contains c

/-- The time of day that may follow a date after one space. -/
def laterTime : Reading Unit := fun cs =>
  match cs with
  | ' ' :: rest =>
    let word := rest.takeWhile isWordChar
    if word.isEmpty then some ((), cs)
    else if isZonedTime word then some ((), rest.dropWhile isWordChar)
    else none
  | _ => some ((), cs)

def word : Reading Datum := do
  let cs ← Reading.run isWordChar
  if cs = ['t', 'r', 'u', 'e'] then return .boolean true
  else if cs = ['f', 'a', 'l', 's', 'e'] then return .boolean false
  else if isDate cs then
    laterTime
    return .moment
  else if isMoment cs then return .moment
  else number? cs

def plainDatum : Reading Datum := do
  match ← Reading.peek with
  | some '"' => Datum.text <$> quotedText '"'
  | some '\'' => Datum.text <$> quotedText '\''
  | _ => word

def items (item : Reading Datum) : Nat → Reading (List Datum)
  | 0 => failure
  | fuel + 1 => do
    Reading.gap
    if ← Reading.accept ']' then return []
    let d ← item
    Reading.gap
    if ← Reading.accept ']' then return [d]
    Reading.expect ','
    let more ← items item fuel
    return d :: more

def assignment (value : Reading Datum) : Reading (Key × Datum) := do
  let k ← key
  Reading.expect '='
  Reading.blanks
  let d ← value
  return (k, d)

def assignments (value : Reading Datum) : Nat → Reading (List (Key × Datum))
  | 0 => failure
  | fuel + 1 => do
    let a ← assignment value
    Reading.blanks
    if ← Reading.accept '\x7d' then return [a]
    Reading.expect ','
    let more ← assignments value fuel
    return a :: more

def bracedFields (value : Reading Datum) : Reading Fields := do
  Reading.blanks
  if ← Reading.accept '\x7d' then return []
  let list ← assignments value (← get).length
  list.foldlM (fun fields a => fields.assign a.1.name a.2 a.1.path) ([] : Fields)

def datum : Nat → Reading Datum
  | 0 => plainDatum
  | room + 1 => do
    if ← Reading.accept '[' then
      Datum.array <$> items (datum room) ((← get).length + 1)
    else if ← Reading.accept '\x7b' then
      Datum.table .braces <$> bracedFields (datum room)
    else plainDatum

inductive Statement
  | nothing
  | assign (key : Key) (value : Datum)
  | table (key : Key)
  | element (key : Key)

/-- One line, or more if a datum goes on over line ends. -/
def statement : Reading Statement := do
  Reading.blanks
  let s ← match ← Reading.peek with
    | none | some '#' | some '\n' | some '\r' => pure .nothing
    | some '[' => do
      Reading.expect '['
      if ← Reading.accept '[' then
        let k ← key
        Reading.expect ']'
        Reading.expect ']'
        pure (.element k)
      else
        let k ← key
        Reading.expect ']'
        pure (.table k)
    | some _ => do
      let (k, d) ← assignment (datum (depthLimit - 1))
      pure (.assign k d)
  Reading.endOfLine
  return s

end WorldScript.Toml
