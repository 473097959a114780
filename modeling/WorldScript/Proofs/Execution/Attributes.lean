import WorldScript.Proofs.Binary32.Whole
import WorldScript.Proofs.Code.Fitting
import WorldScript.Proofs.Execution.Jumps

/-!
Attributes of entities that scripts set and get. What is set is shown afterwards: hit points and
alignments as the number that was given, whether a wall is open as the truth of this number. Nothing
else of the world changes with it, and what is refused changes nothing.

The range of hit points ends at 2 ^ 31, which is one more than the most hit points there are. Hit
points of 2 ^ 31 are stored as one less, which is rounded to 2 ^ 31 when they are shown.

Main statement: `Scene.getter_shows_what_was_set`.
-/
set_option autoImplicit false

namespace WorldScript

inductive Attribute
  | hitPoints | wallOpen | alignment
deriving DecidableEq, Repr

namespace Attribute

open Binary32 Taking

def setter : Attribute → Opcode
  | hitPoints => .setHitPoints
  | wallOpen => .setWallOpen
  | alignment => .setAlignment

def getter : Attribute → Opcode
  | hitPoints => .getHitPoints
  | wallOpen => .isWallOpen
  | alignment => .getAlignment

def kind : Attribute → EntityKind
  | hitPoints | alignment => .creature
  | wallOpen => .wall

def value (e : Entity) : Attribute → Binary32
  | hitPoints => ofInt e.hitPoints.toInt
  | wallOpen => ofBool e.isOpen
  | alignment => ofInt e.alignment.index

/-- An entity with the attribute of another one, and all others as they are. -/
def copy (source e : Entity) : Attribute → Entity
  | hitPoints => { e with hitPoints := source.hitPoints }
  | wallOpen => { e with isOpen := source.isOpen }
  | alignment => { e with alignment := source.alignment }

def accepts (n : Binary32) : Attribute → Bool
  | hitPoints => !(n.less zero || !n.isIntegral || Opcode.hitPointLimit.less n)
  | wallOpen => true
  | alignment => !(n.less zero || !n.isIntegral || (ofInt (3 : Nat)).atMost n)

def assign (n : Binary32) (e : Entity) : Attribute → Entity
  | hitPoints => { e with hitPoints := n.toInt32 }
  | wallOpen => { e with isOpen := Value.holds n }
  | alignment =>
    { e with alignment := (Alignment.ofIndex? n.toUInt32.toNat).getD e.alignment }

/-- Whether `x` is the answer of a getter after its attribute was set to `n`. -/
def Shows (n x : Binary32) : Attribute → Prop
  | hitPoints | alignment => x.equals n = true
  | wallOpen => x = ofBool (Value.holds n)

variable {a : Attribute} {n : Binary32}

theorem copy_assign (n : Binary32) (e : Entity) : a.copy (a.assign n e) e = a.assign n e := by
  cases a <;> rfl

/-! ### Numbers that come back -/

theorem truncate_nonneg (hzero : n.less zero = false) (hn : n.isIntegral = true) :
    0 ≤ n.truncate := by
  have hunits : zero.units = 0 := rfl
  have hless := less_iff (isIntegral_iff.1 hn).1 (y := zero) rfl
  rw [hzero, hunits] at hless
  exact Int.tdiv_nonneg (by simpa using hless) (Int.natCast_nonneg _)

/-- The limit of hit points is 2 ^ 31, and is what the most hit points are rounded to. -/
theorem hitPointLimit_units :
    Opcode.hitPointLimit.isFinite = true ∧
      Opcode.hitPointLimit.units = 0x80000000 * (unitsPerOne : Int) := by
  have heq : Opcode.hitPointLimit = ⟨0x4f000000⟩ := by decide
  rw [heq]
  decide

theorem shows_hitPoints (hn : hitPoints.accepts n = true) :
    (ofInt n.toInt32.toInt).equals n = true := by
  simp only [accepts, Bool.not_eq_true', Bool.or_eq_false_iff, Bool.not_eq_false'] at hn
  obtain ⟨⟨hzero, hintegral⟩, hlimit⟩ := hn
  have hfinite := (isIntegral_iff.1 hintegral).1
  have hlow := truncate_nonneg hzero hintegral
  have hunits := truncate_mul_unitsPerOne hintegral
  obtain ⟨hlimitFinite, hlimitUnits⟩ := hitPointLimit_units
  have hhigh : n.truncate ≤ 0x80000000 := by
    have hless := less_iff hlimitFinite hfinite
    rw [hlimit, hlimitUnits, ← hunits] at hless
    have hle : n.truncate * unitsPerOne ≤ 0x80000000 * (unitsPerOne : Int) := by
      simpa using hless
    exact Int.le_of_mul_le_mul_right hle (Int.natCast_pos.2 unitsPerOne_pos)
  have hstored : n.toInt32.toInt = min 0x7fffffff n.truncate := by
    have hcut := toInt_toInt32 hfinite
    omega
  rw [hstored]
  by_cases hmost : n.truncate = 0x80000000
  · -- one less than 2 ^ 31 is stored, and rounded up again
    rw [hmost]
    rw [hmost, ← hlimitUnits] at hunits
    exact (equals_iff hlimitFinite hfinite).2 hunits
  · rw [Int.min_eq_right (by omega)]
    exact equals_ofInt_truncate hintegral

theorem equals_ofInt_index {limit : Nat} (hbits : limit < 2 * leadingOne)
    (hzero : n.less zero = false) (hintegral : n.isIntegral = true)
    (hlimit : (ofInt limit).atMost n = false) :
    n.toUInt32.toNat < limit ∧ (ofInt n.toUInt32.toNat).equals n = true := by
  have hfinite := (isIntegral_iff.1 hintegral).1
  have hlow := truncate_nonneg hzero hintegral
  have hunits := truncate_mul_unitsPerOne hintegral
  have hhigh : n.truncate < limit := by
    obtain ⟨hlimitFinite, hlimitUnits⟩ := units_ofInt hbits
    have hless := less_iff hfinite hlimitFinite
    rw [less_eq_not_atMost (isNaN_of_isFinite hfinite) (isNaN_ofInt limit), hlimit, hlimitUnits,
      ← hunits] at hless
    exact Int.lt_of_mul_lt_mul_right (hless.1 rfl) (Int.natCast_nonneg _)
  have hindex : (n.toUInt32.toNat : Int) = n.truncate := by
    have hcut := toNat_toUInt32 hfinite
    unfold leadingOne at hbits
    omega
  refine ⟨by omega, ?_⟩
  rw [hindex]
  exact equals_ofInt_truncate hintegral

theorem shows_assign (hn : a.accepts n = true) (e : Entity) :
    a.Shows n (a.value (a.assign n e)) := by
  cases a with
  | hitPoints => exact shows_hitPoints hn
  | wallOpen => rfl
  | alignment =>
    simp only [accepts, Bool.not_eq_true', Bool.or_eq_false_iff, Bool.not_eq_false'] at hn
    obtain ⟨hlt, hequals⟩ := equals_ofInt_index (by decide) hn.1.1 hn.1.2 hn.2
    obtain ⟨a, ha, hindex⟩ : ∃ a, Alignment.ofIndex? n.toUInt32.toNat = some a ∧
        a.index = n.toUInt32.toNat := by
      generalize n.toUInt32.toNat = i at hlt
      match i, hlt with
      | 0, _ => exact ⟨.lawful, rfl, rfl⟩
      | 1, _ => exact ⟨.neutral, rfl, rfl⟩
      | 2, _ => exact ⟨.chaotic, rfl, rfl⟩
    simpa only [Shows, value, assign, ha, Option.getD_some, hindex] using hequals

/-! ### Setters and getters -/

section

variable {script : Script} {w : World} {h : Handle} {rest : List Value} {operand : Operand}
  {offset : Nat}

theorem requireKind_eq_ok_iff {k : EntityKind} :
    w.requireKind h k = .ok () ↔ w.kind? h = some k := by
  unfold World.requireKind
  cases w.kind? h with
  | none => simp
  | some k' => by_cases hk : k' = k <;> simp [hk]

/-- What a setter asks of the world, after its arguments are taken. -/
def setting (w : World) (h : Handle) (n : Binary32) : Attribute → Except Fault Change
  | hitPoints => do
    w.requireCreature h
    if hitPoints.accepts n then return .setHitPoints h n.toInt32
    else throw (.outOfRange "hit points" n)
  | wallOpen => do
    w.requireKind h .wall
    return .setWallOpen h (Value.holds n)
  | alignment =>
    if alignment.accepts n then do
      w.requireCreature h
      match Alignment.ofIndex? n.toUInt32.toNat with
      | none => throw (.outOfRange "alignment" (ofInt n.toUInt32.toNat))
      | some a => return .setAlignment h a
    else throw (.outOfRange "alignment" n)

/-- A setter takes both of its arguments, whether it refuses them or not. -/
theorem run_setter (a : Attribute) (n : Binary32) :
    ((⟨a.setter, operand, offset⟩ : Instruction).action script w).run
      (.entity h :: .number n :: rest) = ((a.setting w h n).map .change, rest) := by
  cases a with
  | hitPoints =>
    change (check (w.requireCreature h) >>= fun _ =>
      (if n.less zero || !n.isIntegral || Opcode.hitPointLimit.less n then
        throw (.outOfRange "hit points" n) else pure (.change (.setHitPoints h n.toInt32)) :
        Taking Action)).run rest = _
    unfold setting accepts
    cases w.requireCreature h with
    | error e => rfl
    | ok u => cases n.less zero || !n.isIntegral || Opcode.hitPointLimit.less n <;> rfl
  | wallOpen =>
    change (check (w.requireKind h .wall) >>= fun _ =>
      (pure (.change (.setWallOpen h (Value.holds n))) : Taking Action)).run rest = _
    unfold setting
    cases w.requireKind h .wall <;> rfl
  | alignment =>
    change ((if n.less zero || !n.isIntegral || (ofInt (3 : Nat)).atMost n then
      throw (.outOfRange "alignment" n) else pure n.toUInt32.toNat : Taking Nat) >>= fun i =>
        check (w.requireCreature h) >>= fun _ =>
          (match Alignment.ofIndex? i with
          | none => throw (.outOfRange "alignment" (ofInt i))
          | some a => pure (.change (.setAlignment h a)) : Taking Action)).run rest = _
    unfold setting accepts
    cases n.less zero || !n.isIntegral || (ofInt (3 : Nat)).atMost n with
    | true => rfl
    | false =>
      cases w.requireCreature h with
      | error e => rfl
      | ok u =>
        change (match Alignment.ofIndex? n.toUInt32.toNat with
          | none => throw (.outOfRange "alignment" (ofInt n.toUInt32.toNat))
          | some a => pure (.change (.setAlignment h a)) : Taking Action).run rest =
            ((match Alignment.ofIndex? n.toUInt32.toNat with
              | none => throw (.outOfRange "alignment" (ofInt n.toUInt32.toNat))
              | some a => return .setAlignment h a : Except Fault Change).map .change, rest)
        cases Alignment.ofIndex? n.toUInt32.toNat <;> rfl

open Source (bind_eq_ok) in
theorem setting_eq_ok {c : Change} (hset : a.setting w h n = .ok c) :
    w.kind? h = some a.kind ∧ a.accepts n = true ∧
      w.change c = w.modify h fun e => a.assign n e := by
  cases a with
  | hitPoints =>
    obtain ⟨_, hcreature, hset⟩ := bind_eq_ok hset
    split at hset
    · cases hset
      exact ⟨requireKind_eq_ok_iff.1 hcreature, ‹_›, rfl⟩
    · cases hset
  | wallOpen =>
    obtain ⟨_, hwall, hset⟩ := bind_eq_ok hset
    cases hset
    exact ⟨requireKind_eq_ok_iff.1 hwall, rfl, rfl⟩
  | alignment =>
    simp only [setting] at hset
    split at hset
    · obtain ⟨_, hcreature, hset⟩ := bind_eq_ok hset
      cases hindex : Alignment.ofIndex? n.toUInt32.toNat with
      | none =>
        rw [hindex] at hset
        cases hset
      | some a =>
        rw [hindex] at hset
        cases hset
        refine ⟨requireKind_eq_ok_iff.1 hcreature, ‹_›, ?_⟩
        simp only [assign, hindex, Option.getD_some]
        rfl
    · cases hset

theorem run_getter {e : Entity} (he : w.entities.get? h = some e) (hkind : e.kind = a.kind) :
    ((⟨a.getter, operand, offset⟩ : Instruction).action script w).run (.entity h :: rest) =
      (.ok (.push (.number (a.value e))), rest) := by
  have hrequired : w.requireKind h a.kind = .ok () :=
    requireKind_eq_ok_iff.2 (by rw [World.kind?, he, Option.map_some, hkind])
  have hentity : w.entity h = .ok e := by simp only [World.entity, he]
  have hshown : ((⟨a.getter, operand, offset⟩ : Instruction).action script w).run
      (.entity h :: rest) = (check (w.requireKind h a.kind) >>= fun _ => check (w.entity h) >>=
        fun e => (pure (.push (.number (a.value e))) : Taking Action)).run rest := by
    cases a <;> rfl
  rw [hshown, hrequired, hentity]
  rfl

end

end Attribute

namespace Scene

variable {s : Scene} {a : Attribute} {h : Handle} {n : Binary32} {rest : List Value}
  {operand : Operand} {offset : Nat}

theorem execute_setter (hstack : s.script.stack = .entity h :: .number n :: rest) :
    s.execute ⟨a.setter, operand, offset⟩ =
      match a.setting s.world h n with
      | .ok c => (.ok .continued, { s.withStack rest with world := s.world.change c })
      | .error e => (.error e, s.withStack rest) := by
  have hrun : ((⟨a.setter, operand, offset⟩ : Instruction).action s.script s.world).run
      s.script.stack = ((a.setting s.world h n).map .change, rest) := by
    rw [hstack]
    exact Attribute.run_setter a n
  cases hset : a.setting s.world h n <;> rw [hset] at hrun <;> exact execute_eq hrun

theorem execute_getter {e : Entity} {below : List Value}
    (hroom : below.length < s.script.maxStackDepth) (hstack : s.script.stack = .entity h :: below)
    (he : s.world.entities.get? h = some e) (hkind : e.kind = a.kind) :
    s.execute ⟨a.getter, operand, offset⟩ =
      (.ok .continued, s.withStack (.number (a.value e) :: below)) := by
  have hrun : ((⟨a.getter, operand, offset⟩ : Instruction).action s.script s.world).run
      s.script.stack = (.ok (.push (.number (a.value e))), below) := by
    rw [hstack]
    exact Attribute.run_getter he hkind
  rw [execute_eq hrun]
  exact perform_push_of_room (s := s.withStack below) hroom

/-- What a setter has stored, the getter shows, as a truth value for walls, and nothing else has
changed in the world. A setter that is refused changes the stack alone. -/
theorem getter_shows_what_was_set (s : Scene) (a : Attribute) {h : Handle} {n : Binary32}
    {rest : List Value} (hstack : s.script.stack = .entity h :: .number n :: rest)
    (operand : Operand) (offset : Nat) :
    (∀ outcome s', s.execute ⟨a.setter, operand, offset⟩ = (.ok outcome, s') →
      outcome = .continued ∧
      s' = { s.withStack rest with world := { s.world with entities := s'.world.entities } } ∧
      s'.world.entities.keys = s.world.entities.keys ∧
      (∀ k, k ≠ h → s'.world.entities.get? k = s.world.entities.get? k) ∧
      (∃ e e', s.world.entities.get? h = some e ∧ s'.world.entities.get? h = some e' ∧
        e' = a.copy e' e) ∧
      ∀ (id : ScriptId) (unit : CodeUnit) (owner : Option Handle) (settings : MachineSettings)
        (t : Scene) (below : List Value) (operand : Operand) (offset : Nat),
        (Script.start id unit owner settings).Leads t.script → t.world = s'.world →
        t.script.stack = .entity h :: below →
        ∃ x, t.execute ⟨a.getter, operand, offset⟩ =
          (.ok .continued, t.withStack (.number x :: below)) ∧ a.Shows n x) ∧
    ∀ fault s', s.execute ⟨a.setter, operand, offset⟩ = (.error fault, s') →
      s' = s.withStack rest := by
  rw [execute_setter hstack]
  cases hset : a.setting s.world h n with
  | error e =>
    refine ⟨fun _ _ hexecute => ?_, fun _ _ hexecute => ?_⟩ <;> cases hexecute
    rfl
  | ok c =>
    refine ⟨fun _ _ hexecute => ?_, fun _ _ hexecute => ?_⟩ <;> cases hexecute
    obtain ⟨hkind, haccepts, hchange⟩ := Attribute.setting_eq_ok hset
    obtain ⟨e, he, hkind⟩ := Option.map_eq_some_iff.1 hkind
    have hchanged : (s.world.change c).entities.get? h = some (a.assign n e) := by
      rw [hchange, World.modify, OrderedMap.get?_modify, if_pos rfl, he, Option.map_some]
    refine ⟨rfl, ?_, ?_, ?_, ⟨e, a.assign n e, he, hchanged, (a.copy_assign n e).symm⟩, ?_⟩
    · rw [hchange]
      rfl
    · rw [hchange]
      exact OrderedMap.keys_modify _ _ _
    · intro k hk
      rw [hchange, World.modify, OrderedMap.get?_modify, if_neg hk]
    · intro id unit owner settings t below operand offset ht hworld htop
      have hkind' : (a.assign n e).kind = a.kind := by
        cases a <;> exact hkind
      have hfound : t.world.entities.get? h = some (a.assign n e) := by
        rw [hworld]
        exact hchanged
      exact ⟨_, execute_getter (ht.room htop) htop hfound hkind', Attribute.shows_assign haccepts e⟩

def besideCreature (v w : Value) : Scene :=
  { holding v w with
    world := World.start {} [{ handle := ⟨1⟩, name := "Guard", kind := .creature }] }

theorem getter_shows_what_was_set_guard :
    let setting := besideCreature (.entity ⟨1⟩) (.number ⟨0x4f000000⟩)
    let set := (setting.execute ⟨.setHitPoints, .none, 0⟩).2
    let getting := { besideCreature (.entity ⟨1⟩) Value.zero with world := set.world }
    let refused := besideCreature (.entity ⟨1⟩) (.number ⟨0x40400000⟩)
    setting.script.stack = [.entity ⟨1⟩, .number ⟨0x4f000000⟩] ∧
      setting.execute ⟨.setHitPoints, .none, 0⟩ = (.ok .continued, set) ∧
      (∃ x, getting.execute ⟨.getHitPoints, .none, 1⟩ =
        (.ok .continued, getting.withStack [.number x, Value.zero]) ∧
          x.equals ⟨0x4f000000⟩ = true) ∧
      refused.execute ⟨.setAlignment, .none, 0⟩ =
        (.error (.outOfRange "alignment" ⟨0x40400000⟩), refused.withStack []) := by
  intro setting set getting refused
  have hexecute : setting.execute ⟨.setHitPoints, .none, 0⟩ = (.ok .continued, set) := rfl
  have hrefused : refused.execute ⟨.setAlignment, .none, 0⟩ =
      (.error (.outOfRange "alignment" ⟨0x40400000⟩), refused.withStack []) := rfl
  have hleads : (Script.start ⟨0⟩ ⟨0, #[], #[], rfl⟩ none {}).Leads getting.script :=
    leads_holding (.entity ⟨1⟩) Value.zero
  obtain ⟨-, -, -, -, -, hreaders⟩ :=
    (getter_shows_what_was_set setting .hitPoints rfl .none 0).1 _ _ hexecute
  exact ⟨rfl, hexecute, hreaders _ _ _ _ getting [Value.zero] .none 1 hleads rfl rfl, hrefused⟩

end Scene

end WorldScript
