import WorldScript.Binary32.Basic

/-!
The data of a TOML document. A table remembers how it came about, because that decides what may
still be added to it.
-/
set_option autoImplicit false

namespace WorldScript.Toml

inductive Origin
  | braces
  | header
  /-- Named on the way to the table of a header. -/
  | implied
  /-- Named on the way to the last part of a dotted key. -/
  | dotted
deriving DecidableEq

inductive Datum
  | text (s : String)
  | integer (n : Int)
  | float (x : Binary32)
  | boolean (b : Bool)
  /-- A date or a time. No setting reads one, so it is not kept. -/
  | moment
  | array (items : List Datum)
  | table (origin : Origin) (fields : List (String × Datum))
  | tables (items : List (List (String × Datum)))

abbrev Fields : Type := List (String × Datum)

namespace Fields

def get? : Fields → String → Option Datum
  | [], _ => none
  | (other, d) :: rest, name => if name = other then some d else get? rest name

def put (name : String) (d : Datum) : Fields → Fields
  | [] => [(name, d)]
  | (other, e) :: rest =>
    if name = other then (name, d) :: rest else (other, e) :: put name d rest

def add? (name : String) (d : Datum) (fields : Fields) : Option Fields :=
  match fields.get? name with
  | none => some (fields.put name d)
  | some _ => none

def inLast (f : Fields → Option Fields) (items : List Fields) : Option (List Fields) := do
  let last ← items.getLast?
  let changed ← f last
  return items.dropLast ++ [changed]

/-- Write a datum under a dotted key, and make the tables that are missing on the way. Tables with a
header of their own, or in braces, are closed to it. -/
def assign (name : String) (d : Datum) : List String → Fields → Option Fields
  | [], fields => fields.add? name d
  | step :: path, fields =>
    match fields.get? step with
    | none => (assign name d path []).map fun sub => fields.put step (.table .dotted sub)
    | some (.table .dotted sub) =>
      (assign name d path sub).map fun sub => fields.put step (.table .dotted sub)
    | some (.table .implied sub) =>
      if path.isEmpty then none
      else (assign name d path sub).map fun sub => fields.put step (.table .implied sub)
    | some (.tables items) =>
      if path.isEmpty then none
      else (inLast (assign name d path) items).map fun items => fields.put step (.tables items)
    | some _ => none

/-- Change the table that a header names. Tables that are missing on the way are made; of tables
added one by one the last is meant; a table in braces is closed to headers. -/
def inside (f : Fields → Option Fields) : List String → Fields → Option Fields
  | [], fields => f fields
  | step :: path, fields =>
    match fields.get? step with
    | none => (inside f path []).map fun sub => fields.put step (.table .implied sub)
    | some (.table .braces _) => none
    | some (.table origin sub) =>
      (inside f path sub).map fun sub => fields.put step (.table origin sub)
    | some (.tables items) =>
      (inLast (inside f path) items).map fun items => fields.put step (.tables items)
    | some _ => none

/-- Open the table of a header. It may have been implied before, but not written to. -/
def openTable (name : String) (fields : Fields) : Option Fields :=
  match fields.get? name with
  | none => some (fields.put name (.table .header []))
  | some (.table .implied sub) => some (fields.put name (.table .header sub))
  | some _ => none

def addTable (name : String) (fields : Fields) : Option Fields :=
  match fields.get? name with
  | none => some (fields.put name (.tables [[]]))
  | some (.tables items) => some (fields.put name (.tables (items ++ [[]])))
  | some _ => none

end Fields

end WorldScript.Toml
