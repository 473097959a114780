import WorldScript.Binary32.Rounding
import WorldScript.Settings
import WorldScript.Toml.Document

/-!
Settings from a TOML document. Every field may be missing, names that no field has are ignored,
and a field that is there has to hold a datum of its type.
-/
set_option autoImplicit false

namespace WorldScript.Settings

open Toml

/-- How the fields of a record are found: by name in a table, by place in an array. -/
structure RecordView where
  find? : Nat → String → Option Datum

/-- A datum as a record. A date or a time is a record in which no field is found. -/
def record? : Datum → Option RecordView
  | .table _ fields => some ⟨fun _ name => Fields.get? fields name⟩
  | .array items => some ⟨fun place _ => items[place]?⟩
  | .tables items => some ⟨fun place _ => items[place]?.map (.table .header)⟩
  | .moment => some ⟨fun _ _ => none⟩
  | _ => none

def RecordView.field {α : Type} (r : RecordView) (place : Nat) (name : String)
    (read? : Datum → Option α) (default : α) : Option α :=
  match r.find? place name with
  | none => some default
  | some d => read? d

def text? : Datum → Option String
  | .text s => some s
  | _ => none

def boolean? : Datum → Option Bool
  | .boolean b => some b
  | _ => none

def integerWithin? (least greatest : Int) : Datum → Option Int
  | .integer n => if least ≤ n ∧ n ≤ greatest then some n else none
  | _ => none

def natural? (d : Datum) : Option Nat := (integerWithin? 0 (UInt64.size - 1) d).map Int.toNat

def seed? (d : Datum) : Option (Option UInt64) := (natural? d).map fun n => some (UInt64.ofNat n)

def word32? (d : Datum) : Option Int32 :=
  (integerWithin? Int32.minValue.toInt Int32.maxValue.toInt d).map Int32.ofInt

def handle? (d : Datum) : Option Handle :=
  (integerWithin? 0 (UInt16.size - 1) d).map fun n => ⟨UInt16.ofNat n.toNat⟩

/-- A float, or an integer rounded to one. -/
def number? : Datum → Option Binary32
  | .float x => some x
  | .integer n => some (Binary32.ofInt n)
  | _ => none

def isVoid : Datum → Bool
  | .array items => items.isEmpty
  | .table _ fields => fields.isEmpty
  | .tables items => items.isEmpty
  | _ => false

/-- A name out of a fixed choice, as a text or as the one field, without content, of a table. -/
def choice? {α : Type} (ofName? : String → Option α) : Datum → Option α
  | .text s => ofName? s
  | .table _ [(name, content)] => if isVoid content then ofName? name else none
  | _ => none

def list? {α : Type} (read? : Datum → Option α) : Datum → Option (List α)
  | .array items => items.mapM read?
  | .tables items => items.mapM fun fields => read? (.table .header fields)
  | _ => none

def machine? (d : Datum) : Option MachineSettings := do
  let r ← record? d
  let default : MachineSettings := {}
  return {
    maxStackDepth := ← r.field 0 "max_stack_depth" natural? default.maxStackDepth
    maxCallDepth := ← r.field 1 "max_call_depth" natural? default.maxCallDepth
    instructionBudget := ← r.field 2 "instruction_budget" natural? default.instructionBudget
    trace := ← r.field 3 "trace" boolean? default.trace
    randomSeed := ← r.field 4 "random_seed" seed? default.randomSeed }

def world? (d : Datum) : Option WorldSettings := do
  let r ← record? d
  let default : WorldSettings := {}
  return {
    tickSeconds := ← r.field 0 "tick_seconds" number? default.tickSeconds
    maxTicks := ← r.field 1 "max_ticks" natural? default.maxTicks
    dialogChoice := ← r.field 2 "dialog_choice" number? default.dialogChoice
    moveSpeed := ← r.field 3 "move_speed" number? default.moveSpeed
    speechSeconds := ← r.field 4 "speech_seconds" number? default.speechSeconds
    attackCost := ← r.field 5 "attack_cost" word32? default.attackCost }

def entity? (d : Datum) : Option EntitySpec := do
  let r ← record? d
  let default : EntitySpec := {}
  return {
    handle := ← r.field 0 "handle" handle? default.handle
    name := ← r.field 1 "name" text? default.name
    kind := ← r.field 2 "kind" (choice? EntityKind.ofName?) default.kind
    hitPoints := ← r.field 3 "hit_points" word32? default.hitPoints
    x := ← r.field 4 "x" number? default.x
    y := ← r.field 5 "y" number? default.y
    alignment := ← r.field 6 "alignment" (choice? Alignment.ofName?) default.alignment
    actionPoints := ← r.field 7 "action_points" word32? default.actionPoints
    isOpen := ← r.field 8 "open" boolean? default.isOpen }

def entities? (d : Datum) : Option (List EntitySpec) := do
  let r ← record? d
  r.field 0 "entities" (list? entity?) []

def ofToml? (document : String) : Option Settings := do
  let fields ← Toml.read? document
  let r ← record? (.table .header fields)
  return {
    machine := ← r.field 0 "vm" machine? {}
    world := ← r.field 1 "headless" world? {}
    entities := ← r.field 2 "world" entities? [] }

end WorldScript.Settings
