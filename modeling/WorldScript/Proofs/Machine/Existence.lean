import WorldScript.Proofs.Execution.Attributes
import WorldScript.Proofs.Execution.Mismatches
import WorldScript.Proofs.Machine.Deeds

/-!
Who exists. A script can ask whether an entity exists, and all other instructions find a fault in a
handle that names none. Both look into the same table, but the question also looks whether the handle
is null. No entity has the null handle at the start, so that the two answers agree until a host puts
one in under it.

Main statement: `Machine.exists_agrees_unless_null`.
-/
set_option autoImplicit false

namespace WorldScript

namespace Taking

variable {α : Type} (rest : List Value)

theorem run_pure (a : α) : (pure a : Taking α).run rest = (.ok a, rest) := rfl

theorem run_check (r : Except Fault α) : (check r).run rest = (r, rest) := by
  cases r <;> rfl

theorem run_entity (h : Handle) : entity.run (.entity h :: rest) = (.ok h, rest) := rfl

theorem run_number (n : Binary32) : number.run (.number n :: rest) = (.ok n, rest) := rfl

theorem run_string (text : String) : string.run (.string text :: rest) = (.ok text, rest) := rfl

theorem run_flag (n : Binary32) : flag.run (.number n :: rest) = (.ok (Value.holds n), rest) := rfl

def isIndex (n : Binary32) (limit : Nat) : Bool :=
  n.isIntegral && Binary32.zero.atMost n && n.less (Binary32.ofInt limit)

theorem run_index {n : Binary32} {limit : Nat} (hn : isIndex n limit = true) (what : String) :
    (index what limit).run (.number n :: rest) = (.ok n.toUInt32.toNat, rest) := by
  simp only [isIndex, Bool.and_eq_true] at hn
  obtain ⟨⟨hintegral, hzero⟩, hlimit⟩ := hn
  have hnan := Binary32.isNaN_of_isFinite (Binary32.isIntegral_iff.1 hintegral).1
  have hlow : n.less Binary32.zero = false := by
    rw [Binary32.less_eq_not_atMost hnan rfl, hzero, Bool.not_true]
  have hhigh : (Binary32.ofInt limit).atMost n = false := by
    rwa [Binary32.less_eq_not_atMost hnan (Binary32.isNaN_ofInt limit), Bool.not_eq_true'] at hlimit
  have hrun : (index what limit).run (.number n :: rest) =
      (if n.less Binary32.zero || !n.isIntegral || (Binary32.ofInt limit).atMost n then
        throw (.outOfRange what n) else pure n.toUInt32.toNat : Taking Nat).run rest := rfl
  rw [hrun, hlow, hintegral, hhigh]
  rfl

end Taking

/-! ### Handles that name nobody -/

namespace World

variable {w : World} {h : Handle}

theorem entity_of_not_contains (hw : w.entities.contains h = false) :
    w.entity h = .error (.invalidHandle h) := by
  have hget : w.entities.get? h = none := by simpa [OrderedMap.contains] using hw
  simp only [entity, hget]

theorem entity_of_kind? {kind : EntityKind} (hk : w.kind? h = some kind) :
    ∃ e, w.entity h = .ok e := by
  obtain ⟨e, he, -⟩ := Option.map_eq_some_iff.1 hk
  exact ⟨e, by simp only [entity, he]⟩

theorem requireKind_of_not_contains (hw : w.entities.contains h = false) (kind : EntityKind) :
    w.requireKind h kind = .error (.invalidHandle h) := by
  have hget : w.entities.get? h = none := by simpa [OrderedMap.contains] using hw
  simp only [requireKind, kind?, hget, Option.map_none]

theorem requireEntity_of_not_contains (hw : w.entities.contains h = false) :
    w.requireEntity h = .error (.invalidHandle h) := by
  simp [requireEntity, hw]

/-- An instruction with these arguments on the stack is about the entity of a handle. Its other
arguments are what it asks for, and another handle is that of a creature. -/
inductive Concerns (w : World) (h : Handle) : Opcode → List Value → Prop
  | shown {op : Opcode} (hop : op ∈ [.getName, .getHitPoints, .isWallOpen, .getAlignment,
      .getActionPoints, .destroyEntity]) : Concerns w h op [.entity h]
  | setHitPoints (n : Binary32) : Concerns w h .setHitPoints [.entity h, .number n]
  | setWallOpen (n : Binary32) : Concerns w h .setWallOpen [.entity h, .number n]
  | setAlignment {n : Binary32} (hn : Taking.isIndex n 3 = true) :
    Concerns w h .setAlignment [.entity h, .number n]
  | getEquipped {n : Binary32} (hn : Taking.isIndex n 6 = true) :
    Concerns w h .getEquipped [.entity h, .number n]
  | distanceFrom {k : Handle} (hk : w.kind? k = some .creature) :
    Concerns w h .getDistance [.entity h, .entity k]
  | distanceTo {k : Handle} (hk : w.kind? k = some .creature) :
    Concerns w h .getDistance [.entity k, .entity h]
  | moveTo (x y flag : Binary32) :
    Concerns w h .moveTo [.entity h, .number x, .number y, .number flag]
  | speak (text : String) (flag : Binary32) :
    Concerns w h .speak [.entity h, .string text, .number flag]
  | attacking {k : Handle} (hk : w.kind? k = some .creature) (flag : Binary32)
    (hcombat : w.inCombat = true) : Concerns w h .attack [.entity h, .entity k, .number flag]
  | attacked {k : Handle} (hk : w.kind? k = some .creature) (flag : Binary32)
    (hcombat : w.inCombat = true) : Concerns w h .attack [.entity k, .entity h, .number flag]

open Taking in
theorem Concerns.run {op : Opcode} {args : List Value} (hop : w.Concerns h op args)
    (hw : w.entities.contains h = false) (script : Script) (operand : Operand) (line : Nat)
    (rest : List Value) :
    ((⟨op, operand, line⟩ : Instruction).action script w).run (args ++ rest) =
      (.error (.invalidHandle h), rest) := by
  have hentity := entity_of_not_contains hw
  have hkind := requireKind_of_not_contains hw
  have hexists := requireEntity_of_not_contains hw
  have hcreature : w.requireCreature h = .error (.invalidHandle h) := hkind .creature
  cases hop with
  | shown hop =>
    simp only [List.mem_cons, List.not_mem_nil, or_false] at hop
    obtain rfl | rfl | rfl | rfl | rfl | rfl := hop <;>
      simp only [Instruction.action, Opcode.family, Opcode.worldAction, Opcode.combatAction,
        ofCreature, List.cons_append, List.nil_append, run_bind, run_entity, run_check, hentity,
        hkind, hcreature, hexists]
  | setHitPoints n | setWallOpen n =>
    simp only [Instruction.action, Opcode.family, Opcode.worldAction, List.cons_append,
      List.nil_append, run_bind, run_entity, run_number, run_flag, run_check, hkind, hcreature]
  | setAlignment hn | getEquipped hn =>
    simp only [Instruction.action, Opcode.family, Opcode.worldAction, List.cons_append,
      List.nil_append, run_bind, run_entity, run_index _ hn, run_check, hcreature]
  | distanceFrom hk =>
    simp only [Instruction.action, Opcode.family, Opcode.worldAction, List.cons_append,
      List.nil_append, run_bind, run_entity, run_check, hentity]
  | distanceTo hk =>
    obtain ⟨e, he⟩ := entity_of_kind? hk
    simp only [Instruction.action, Opcode.family, Opcode.worldAction, List.cons_append,
      List.nil_append, run_bind, run_entity, run_check, he, hentity]
  | moveTo x y flag | speak text flag =>
    simp only [Instruction.action, Opcode.family, Opcode.worldAction, List.cons_append,
      List.nil_append, run_bind, run_entity, run_number, run_string, run_flag, run_check, hcreature,
      hexists]
  | attacking hk flag hcombat =>
    simp only [Instruction.action, Opcode.family, Opcode.combatAction, List.cons_append,
      List.nil_append, run_bind, run_entity, run_flag, hcombat, Bool.not_true, Bool.false_eq_true,
      if_false, run_check, hcreature]
  | attacked hk flag hcombat =>
    have hother := Attribute.requireKind_eq_ok_iff.2 hk
    simp only [Instruction.action, Opcode.family, Opcode.combatAction, List.cons_append,
      List.nil_append, run_bind, run_entity, run_flag, hcombat, Bool.not_true, Bool.false_eq_true,
      if_false, run_check, requireCreature, hother, hkind]

end World

/-! ### Asking and naming -/

namespace Scene

section

variable {s : Scene} {h : Handle} {rest : List Value}

theorem settle_of_concerns {op : Opcode} {args : List Value} (hstate : s.script.state = .running)
    (hop : s.world.Concerns h op args) (hnobody : s.world.entities.contains h = false)
    (hstack : s.script.stack = args ++ rest) (operand : Operand) (line : Nat) :
    s.settle ⟨op, operand, line⟩ = (.interrupted, { s with
      script := { s.script with stack := rest, state := .interrupted (.invalidHandle h) } }) := by
  have hrun := hop.run hnobody s.script operand line rest
  rw [← hstack] at hrun
  exact settle_of_fault hstate hrun

theorem settle_exists (hstate : s.script.state = .running)
    (hroom : rest.length < s.script.maxStackDepth) (hstack : s.script.stack = .entity h :: rest)
    (operand : Operand) (line : Nat) :
    s.settle ⟨.entityExists, operand, line⟩ = (.continued, s.withStack
      (Value.ofBool (!h.isNull && s.world.entities.contains h) :: rest)) := by
  have hrun : ((⟨.entityExists, operand, line⟩ : Instruction).action s.script s.world).run
      s.script.stack = ((Except.ok (Value.ofBool (!h.isNull && s.world.entities.contains h))).map
        Action.push, rest) := by
    rw [hstack]
    rfl
  exact settle_of_answer hstate hroom hrun

theorem settle_name_interrupted_iff (hstate : s.script.state = .running)
    (hroom : rest.length < s.script.maxStackDepth) (hstack : s.script.stack = .entity h :: rest)
    (operand : Operand) (line : Nat) :
    (s.settle ⟨.getName, operand, line⟩).1 = .interrupted ↔
      s.world.entities.contains h = false := by
  cases hget : s.world.entities.get? h with
  | none =>
    have hnobody : s.world.entities.contains h = false := by simp [OrderedMap.contains, hget]
    have hname : s.world.Concerns h .getName [.entity h] := .shown (by simp)
    rw [settle_of_concerns hstate hname hnobody hstack operand line]
    exact iff_of_true rfl hnobody
  | some e =>
    have hentity : s.world.entity h = .ok e := by simp only [World.entity, hget]
    have hrun : ((⟨.getName, operand, line⟩ : Instruction).action s.script s.world).run
        s.script.stack = ((Except.ok (Value.string e.name)).map Action.push, rest) := by
      rw [hstack]
      simp only [Instruction.action, Opcode.family, Opcode.worldAction, Taking.run_bind,
        Taking.run_entity, Taking.run_check, hentity]
      rfl
    have hsettle : s.settle ⟨.getName, operand, line⟩ =
        (.continued, s.withStack (.string e.name :: rest)) := settle_of_answer hstate hroom hrun
    rw [hsettle]
    simp [OrderedMap.contains, hget]

end

end Scene

/-! ### The null handle -/

/-- A host that does what it likes to scripts and calls the world as it likes, but gives a handle to
every entity that it puts in. -/
def Host.naming : Host where
  world w w' := ∃ c : World.Call, (∀ spec, c = .add spec → spec.handle.isNull = false) ∧ w' = w.call c
  script _ _ := True

namespace OrderedMap

variable {κ α : Type} [DecidableEq κ]

theorem mem_keys_insert {m : OrderedMap κ α} {k j : κ} {a : α} (h : j ∈ (m.insert k a).keys) :
    j = k ∨ j ∈ m.keys := by
  obtain ⟨b, hb⟩ := mem_keys_iff.1 h
  rw [get?_insert] at hb
  split at hb
  case isTrue heq => exact .inl heq.symm
  case isFalse => exact .inr (mem_keys_iff.2 ⟨b, hb⟩)

theorem mem_keys_ofList {l : List (κ × α)} {k : κ} (h : k ∈ (ofList l).keys) :
    k ∈ l.map Prod.fst := by
  have hfold : ∀ (l : List (κ × α)) (m : OrderedMap κ α),
      k ∈ (l.foldl (fun m e => m.insert e.1 e.2) m).keys → k ∈ m.keys ∨ k ∈ l.map Prod.fst := by
    intro l
    induction l with
    | nil => exact fun m hk => .inl hk
    | cons e l ih =>
      intro m hk
      obtain hk | hk := ih _ hk
      · obtain rfl | hk := mem_keys_insert hk
        · exact .inr List.mem_cons_self
        · exact .inl hk
      · exact .inr (List.mem_cons_of_mem _ hk)
  obtain hk | hk := hfold l empty h
  · cases hk
  · exact hk

end OrderedMap

namespace Machine

variable {m : Machine} {d : Deed} {ds : List Deed}

def Nameless (m : Machine) : Prop := m.world.entities.contains Handle.null = false

theorem nameless_start (worldSettings : WorldSettings) (specs : List EntitySpec)
    (settings : MachineSettings) (seed : UInt64) :
    Nameless (start (World.start worldSettings specs) settings seed) := by
  rw [Nameless, ← Bool.not_eq_true]
  intro hnull
  have hmem := OrderedMap.mem_keys_ofList (OrderedMap.contains_iff_mem_keys.1 hnull)
  simp only [List.map_map, List.mem_map, List.mem_filter, Function.comp_apply] at hmem
  obtain ⟨spec, ⟨-, hhandle⟩, heq⟩ := hmem
  rw [heq] at hhandle
  exact absurd hhandle (by decide)

theorem Nameless.does (h : Nameless m)
    (hadd : ∀ spec, d = .call (.add spec) → spec.handle.isNull = false) : Nameless (m.does d) := by
  unfold Nameless at *
  cases m.touches d with
  | took _ world =>
    rw [world]
    exact h
  | added spec hd world =>
    have hne : spec.handle ≠ Handle.null := by
      intro he
      have hnull := hadd spec hd
      rw [he] at hnull
      exact absurd hnull (by decide)
    rw [world, World.contains_add, h, decide_eq_false hne]
    rfl
  | destroyed g _ hg world =>
    rw [world, (World.destroy_of_contains hg).2, h, Bool.and_false]
  | calm hcalm => rw [hcalm.contains, h]

theorem keep_nameless : Keep Nameless where
  spawn _ u owner h := h.does (d := .spawn u owner) nofun
  step _ id h := h.does (d := .step id) nofun
  pump _ h := h.does (d := .pump) nofun
  reap _ h := h.does (d := .reap) nofun
  unload _ id h := h.does (d := .unload id) nofun
  shutdown _ h := h.does (d := .shutdown) nofun

theorem Reachable.nameless (h : Reachable .naming m) : Nameless m := by
  refine keep_nameless.reachable nameless_start ?_ (fun _ _ _ _ _ _ h => h) h
  rintro m _ ⟨c, hc, rfl⟩ h
  refine h.does (d := .call c) ?_
  rintro spec he
  cases he
  exact hc spec rfl

/-- Whether an entity exists is answered as all other instructions find it, but for the null handle,
which nobody has unless a host puts an entity in without one. -/
theorem exists_agrees_unless_null {id : ScriptId} {unit : CodeUnit} {owner : Option Handle}
    {settings : MachineSettings} (s : Scene)
    (hs : (Script.start id unit owner settings).Leads s.script)
    (hstate : s.script.state = .running) (h : Handle) (operand : Operand) (line : Nat) :
    let asked := s.settle ⟨.entityExists, operand, line⟩
    let named := s.settle ⟨.getName, operand, line⟩
    (∀ rest, s.script.stack = .entity h :: rest →
      asked = (.continued, s.withStack
        (Value.ofBool (!h.isNull && s.world.entities.contains h) :: rest)) ∧
      (named.1 = .interrupted ↔ s.world.entities.contains h = false) ∧
      ((asked.2.script.stack = Value.ofBool true :: rest ↔ named.1 ≠ .interrupted) ↔
        ¬(h.isNull = true ∧ s.world.entities.contains h = true))) ∧
    (∀ op args rest, s.world.Concerns h op args → s.script.stack = args ++ rest →
      s.world.entities.contains h = false →
      s.settle ⟨op, operand, line⟩ = (.interrupted, { s with
        script := { s.script with stack := rest, state := .interrupted (.invalidHandle h) } })) ∧
    (∀ m, Reachable .naming m → m.world.entities.contains Handle.null = false) ∧
    ∀ (w : World) (spec : EntitySpec), spec.handle.isNull = true →
      (w.call (.add spec)).entities.contains Handle.null = true := by
  refine ⟨fun rest hstack => ?_, fun op args rest hop hstack hnobody => ?_,
    fun m hm => hm.nameless, fun w spec hspec => ?_⟩
  · have hroom := hs.room hstack
    have hasked := Scene.settle_exists hstate hroom hstack operand line
    have hnamed := Scene.settle_name_interrupted_iff hstate hroom hstack operand line
    refine ⟨hasked, hnamed, ?_⟩
    have hyes : ∀ b : Bool, Value.ofBool b :: rest = Value.ofBool true :: rest ↔ b = true := by
      intro b
      cases b <;> simp [Value.ofBool, Binary32.ofBool]
      decide
    rw [hasked, Ne, hnamed]
    change (_ :: rest = _ ↔ _) ↔ _
    rw [hyes]
    cases h.isNull <;> cases s.world.entities.contains h <;> decide
  · exact Scene.settle_of_concerns hstate hop hnobody hstack operand line
  · obtain hnull : spec.handle = Handle.null := by simpa [Handle.isNull] using hspec
    rw [World.call, World.contains_add, hnull, decide_eq_true rfl, Bool.true_or]

def haunted : Machine :=
  { start (World.start {} []) {} 0 with
    world := (World.start {} []).add { handle := Handle.null, name := "Ghost", kind := .creature } }

theorem reachable_haunted : Reachable .plain haunted :=
  (reachable_start .plain {} [] {} 0).move (.world _ _ ⟨.add _, trivial, rfl⟩)

theorem exists_agrees_unless_null_guard :
    let s := Scene.besideCreature (.entity ⟨2⟩) Value.zero
    s.script.state = .running ∧
      (s.settle ⟨.entityExists, .none, 0⟩).2.script.stack = [Value.ofBool false, Value.zero] ∧
      (s.settle ⟨.getName, .none, 0⟩).1 = .interrupted ∧
      s.settle ⟨.setHitPoints, .none, 0⟩ = (.interrupted, { s with
        script := { s.script with stack := [], state := .interrupted (.invalidHandle ⟨2⟩) } }) := by
  intro s
  have hleads : (Script.start ⟨0⟩ ⟨0, #[], #[], rfl⟩ none {}).Leads s.script :=
    Scene.leads_holding (.entity ⟨2⟩) Value.zero
  have hagrees := exists_agrees_unless_null s hleads rfl ⟨2⟩ .none 0
  obtain ⟨hasked, hnamed, -⟩ := hagrees.1 [Value.zero] rfl
  exact ⟨rfl, by rw [hasked]; rfl, hnamed.2 rfl,
    hagrees.2.1 _ _ [] (.setHitPoints Binary32.zero) rfl rfl⟩

/-- A script is told no about an entity that has a name. -/
theorem null_has_a_name :
    ¬∀ (m : Machine) (s : Scene) (h : Handle) (rest : List Value), Reachable .plain m →
      s.world = m.world → s.script.state = .running → s.script.stack = .entity h :: rest →
      ((s.settle ⟨.entityExists, .none, 0⟩).2.script.stack = Value.ofBool true :: rest ↔
        (s.settle ⟨.getName, .none, 0⟩).1 ≠ .interrupted) := by
  intro h
  have hagree := h haunted { Scene.holding (.entity Handle.null) Value.zero with world := haunted.world }
    Handle.null [Value.zero] reachable_haunted rfl rfl rfl
  exact absurd (hagree.2 (by decide)) (by decide)

end Machine

end WorldScript
