import Mathlib.Logic.Function.Basic
import WorldScript.Proofs.Code.Fitting
import WorldScript.Proofs.Execution.Reloading
import WorldScript.Proofs.Machine.Scripts

/-!
Loading a container preserves behaviour. Two machines that differ in where the instructions of their
units stand in the bytes stay the same in everything else, and give the same answers, whatever is
done with both of them.

Main statements: `operate_reload`, `enacts_reload` and `loading_preserves_behaviour`.
-/
set_option autoImplicit false

namespace WorldScript

deriving instance DecidableEq for CodeUnit

namespace Script

theorem woken_reload (f : CodeUnit → CodeUnit) (s : Script) (k : Wakeup) :
    (s.reload f).woken k = (s.woken k).reload f := by
  cases k with
  | interrupt id reason => exact s.interrupt_reload reason
  | resume id value =>
    cases value with
    | none => rfl
    | some v =>
      have hpush : ({ s.reload f with state := .running } : Script).push v =
          (({ s with state := .running } : Script).push v).map (reload f) :=
        push_reload { s with state := .running } v
      simp only [woken, hpush]
      cases ({ s with state := .running } : Script).push v with
      | ok t => rfl
      | error e => exact interrupt_reload { s with state := .running } e

end Script

namespace Machine

/-! ### Answers -/

inductive Answer
  | nothing
  | started (id : ScriptId)
  | outcome (o : Option Outcome)
  | state (s : Option ScriptState)
  | count (n : Nat)
  | removed (s : Option Script)

def answer (m : Machine) : Operation → Answer
  | .spawn u owner => .started (m.spawn u owner).1
  | .step id => .outcome (m.step id).1
  | .run id => .state ((m.run id).state? id)
  | .pump => .count m.pump.1
  | .tick => .count m.tick.1
  | .reap => .count m.reap.1
  | .unload id => .removed (m.unload id).1
  | .unloadOwner owner => .count (m.unloadOwner owner).1
  | .shutdown => .nothing

/-- What is done with a machine: its operations, what the host does to the world, and what it does
to a script by its calls. -/
inductive Act
  | operate (op : Operation)
  | world (g : World → World)
  | script (id : ScriptId) (c : Script.Call)

def enact (m : Machine) : Act → Machine
  | .operate op => m.operate op
  | .world g => { m with world := g m.world }
  | .script id c =>
    match m.script? id with
    | some s => { m with scripts := m.scripts.insert id (s.call c) }
    | none => m

def enacts (m : Machine) (acts : List Act) : Machine := acts.foldl enact m

/-! ### Other units -/

def reload (f : CodeUnit → CodeUnit) (m : Machine) : Machine :=
  { m with scripts := m.scripts.map fun _ => Script.reload f }

def Operation.reload (f : CodeUnit → CodeUnit) : Operation → Operation
  | .spawn u owner => .spawn (f u) owner
  | op => op

def Answer.reload (f : CodeUnit → CodeUnit) : Answer → Answer
  | .removed s => .removed (s.map (Script.reload f))
  | a => a

def Act.reload (f : CodeUnit → CodeUnit) : Act → Act
  | .operate op => .operate (op.reload f)
  | a => a

variable {f : CodeUnit → CodeUnit} (m : Machine)

theorem script?_reload (id : ScriptId) :
    (m.reload f).script? id = (m.script? id).map (Script.reload f) :=
  OrderedMap.get?_map _ m.scripts id

theorem state?_reload (id : ScriptId) : (m.reload f).state? id = m.state? id := by
  rw [state?, script?_reload, Option.map_map]
  rfl

theorem isRunning_reload (id : ScriptId) : (m.reload f).isRunning id = m.isRunning id := by
  rw [isRunning, state?_reload, isRunning]

theorem withScript_reload (s : Script) :
    (m.reload f).withScript (s.reload f) = (m.withScript s).reload f := by
  simp only [withScript, reload]
  congr 1
  exact OrderedMap.insert_map (fun _ => Script.reload f) m.scripts s.id s

theorem withScene_reload (s : Scene) :
    (m.reload f).withScene (s.reload f) = (m.withScene s).reload f := by
  simp only [withScene, reload]
  congr 1
  exact OrderedMap.insert_map (fun _ => Script.reload f) m.scripts s.script.id s.script

/-! ### Notices -/

theorem wake_reload (k : Wakeup) : (m.reload f).wake k = (m.wake k).map (reload f) := by
  rw [wake_eq, wake_eq, script?_reload]
  cases m.script? k.script with
  | none => rfl
  | some s =>
    have hstate : (s.reload f).state = s.state := rfl
    simp only [Option.map_some, Option.bind_some, hstate, Script.woken_reload, withScript_reload]
    split <;> rfl

theorem wakeEach_reload (ks : List Wakeup) (woken : Nat) :
    wakeEach ks woken (m.reload f) =
      ((wakeEach ks woken m).1, (wakeEach ks woken m).2.reload f) := by
  induction ks generalizing woken m with
  | nil => rfl
  | cons k ks ih =>
    simp only [wakeEach, wake_reload]
    cases m.wake k with
    | none => exact ih m woken
    | some m₁ => exact ih m₁ (woken + 1)

theorem deliverEach_reload (notices : List Notice) (woken : Nat) :
    deliverEach notices woken (m.reload f) =
      ((deliverEach notices woken m).1, (deliverEach notices woken m).2.reload f) := by
  induction notices generalizing woken m with
  | nil => rfl
  | cons n notices ih =>
    have hwake := wakeEach_reload (f := f) { m with waits := (m.waits.deliver n).2 }
      (m.waits.deliver n).1 woken
    simp only [deliverEach]
    exact (congrArg (fun r => deliverEach notices r.1 r.2) hwake).trans (ih _ _)

theorem pump_reload : (m.reload f).pump = (m.pump.1, m.pump.2.reload f) :=
  deliverEach_reload { m with world := m.world.drain.2 } m.world.notices 0

/-! ### Loading and unloading -/

theorem reap_reload : (m.reload f).reap = (m.reap.1, m.reap.2.reload f) := by
  have hleft : (m.reload f).scripts.filter (fun _ s => !s.state.isFinished) =
      (m.scripts.filter fun _ s => !s.state.isFinished).map fun _ => Script.reload f :=
    OrderedMap.filter_map (fun _ => Script.reload f) (fun _ s => !s.state.isFinished) m.scripts
  have hsize : ∀ scripts : OrderedMap ScriptId Script,
      (scripts.map fun _ => Script.reload f).size = scripts.size := by
    intro scripts
    rw [OrderedMap.size_eq_length_keys, OrderedMap.keys_map, OrderedMap.size_eq_length_keys]
  simp only [reap, hleft, hsize]
  rw [reload, hsize]
  rfl

theorem unload_reload (id : ScriptId) :
    (m.reload f).unload id =
      ((m.unload id).1.map (Script.reload f), (m.unload id).2.reload f) := by
  have hscript : ∀ m' : Machine,
      (match (m'.reload f).script? id with
        | some s => (some s, { m'.reload f with scripts := (m'.reload f).scripts.erase id })
        | none => (none, m'.reload f)) =
      ((match m'.script? id with
        | some s => (some s, { m' with scripts := m'.scripts.erase id })
        | none => (none, m')).1.map (Script.reload f),
       (match m'.script? id with
        | some s => (some s, { m' with scripts := m'.scripts.erase id })
        | none => (none, m')).2.reload f) := by
    intro m'
    rw [script?_reload]
    cases m'.script? id with
    | none => rfl
    | some s =>
      simp only [Option.map_some, reload, OrderedMap.erase_map]
  unfold unload
  cases hr : m.waits.releaseScript? id with
  | none =>
    have hr' : (m.reload f).waits.releaseScript? id = none := hr
    simp only [hr']
    exact hscript m
  | some r =>
    have hr' : (m.reload f).waits.releaseScript? id = some r := hr
    simp only [hr']
    exact hscript { m with waits := r.2, world := withdraw m.world r.1.1 r.1.2.kind }

theorem unloadEach_reload (ids : List ScriptId) :
    ids.foldl (fun m id => (m.unload id).2) (m.reload f) =
      (ids.foldl (fun m id => (m.unload id).2) m).reload f := by
  induction ids generalizing m with
  | nil => rfl
  | cons id ids ih =>
    simp only [List.foldl_cons, unload_reload]
    exact ih _

theorem unloadOwner_reload (owner : Handle) :
    (m.reload f).unloadOwner owner =
      ((m.unloadOwner owner).1, (m.unloadOwner owner).2.reload f) := by
  have hids : ((m.reload f).scripts.values.filter fun s => s.owner == some owner).map Script.id =
      (m.scripts.values.filter fun s => s.owner == some owner).map Script.id := by
    have hvalues : (m.reload f).scripts.values = m.scripts.values.map (Script.reload f) := by
      simp [reload, OrderedMap.values, OrderedMap.map, Function.comp_def]
    rw [hvalues, List.filter_map, List.map_map]
    rfl
  simp only [unloadOwner, hids, unloadEach_reload]

/-! ### Instructions -/

section Alike

variable (hf : ∀ u : CodeUnit, u.Alike (f u))

include hf

theorem spawn_reload (u : CodeUnit) (owner : Option Handle) :
    (m.reload f).spawn (f u) owner = ((m.spawn u owner).1, (m.spawn u owner).2.reload f) := by
  have hstart := Script.start_reload hf ⟨m.lastScript + 1⟩ u owner m.settings
  simp only [spawn, reload, hstart]
  rw [OrderedMap.insert_map (fun _ => Script.reload f)]

theorem step_reload (id : ScriptId) :
    (m.reload f).step id = ((m.step id).1, (m.step id).2.reload f) := by
  unfold step
  rw [script?_reload]
  cases m.script? id with
  | none => rfl
  | some s =>
    have hrunning : (s.reload f).isRunning = s.isRunning := rfl
    simp only [Option.map_some, hrunning]
    split
    · obtain ⟨hs, hs'⟩ | ⟨i, j, s₁, hs, hs', hmeaning⟩ := Script.fetch?_reload hf s
      · simp only [hs, hs', Script.stop_reload, withScript_reload]
      · have hsettle : Scene.settle
            ⟨s₁.reload f, (m.reload f).world, (m.reload f).waits, (m.reload f).dice⟩ j = _ :=
          Scene.settle_reload ⟨s₁, m.world, m.waits, m.dice⟩ hf hmeaning
        simp only [hs, hs', hsettle, withScene_reload]
        rfl
    · rfl

theorem runFor_reload (id : ScriptId) (budget : Nat) :
    runFor id budget (m.reload f) = (runFor id budget m).reload f := by
  induction budget generalizing m with
  | zero => rfl
  | succ budget ih =>
    simp only [runFor, step_reload m hf]
    rcases m.step id with ⟨none | outcome, m₁⟩
    · rfl
    · simp only
      split
      · rfl
      · exact ih m₁

theorem run_reload (id : ScriptId) : (m.reload f).run id = (m.run id).reload f :=
  runFor_reload m hf id m.settings.instructionBudget

theorem runEach_reload (ids : List ScriptId) (ran : Nat) :
    runEach ids ran (m.reload f) = ((runEach ids ran m).1, (runEach ids ran m).2.reload f) := by
  induction ids generalizing ran m with
  | nil => rfl
  | cons id ids ih =>
    simp only [runEach, isRunning_reload, run_reload m hf]
    split
    · exact ih _ _
    · exact ih _ _

theorem tick_reload : (m.reload f).tick = (m.tick.1, m.tick.2.reload f) := by
  have hkeys : ∀ m' : Machine, (m'.reload f).scripts.keys = m'.scripts.keys :=
    fun m' => OrderedMap.keys_map _ m'.scripts
  simp only [tick, pump_reload, hkeys]
  exact runEach_reload m.pump.2 hf _ 0

/-! ### Operations -/

theorem operate_reload (op : Operation) :
    (m.reload f).operate (op.reload f) = (m.operate op).reload f ∧
      (m.reload f).answer (op.reload f) = (m.answer op).reload f := by
  cases op with
  | spawn u owner =>
    obtain ⟨hanswer, hm⟩ := Prod.ext_iff.1 (m.spawn_reload hf u owner)
    exact ⟨hm, congrArg Answer.started hanswer⟩
  | step id =>
    obtain ⟨hanswer, hm⟩ := Prod.ext_iff.1 (m.step_reload hf id)
    exact ⟨hm, congrArg Answer.outcome hanswer⟩
  | run id =>
    have h := m.run_reload hf id
    have hstate : ((m.reload f).run id).state? id = (m.run id).state? id := by
      rw [h, state?_reload]
    exact ⟨h, congrArg Answer.state hstate⟩
  | pump =>
    obtain ⟨hanswer, hm⟩ := Prod.ext_iff.1 (m.pump_reload (f := f))
    exact ⟨hm, congrArg Answer.count hanswer⟩
  | tick =>
    obtain ⟨hanswer, hm⟩ := Prod.ext_iff.1 (m.tick_reload hf)
    exact ⟨hm, congrArg Answer.count hanswer⟩
  | reap =>
    obtain ⟨hanswer, hm⟩ := Prod.ext_iff.1 (m.reap_reload (f := f))
    exact ⟨hm, congrArg Answer.count hanswer⟩
  | unload id =>
    obtain ⟨hanswer, hm⟩ := Prod.ext_iff.1 (m.unload_reload (f := f) id)
    exact ⟨hm, congrArg Answer.removed hanswer⟩
  | unloadOwner owner =>
    obtain ⟨hanswer, hm⟩ := Prod.ext_iff.1 (m.unloadOwner_reload (f := f) owner)
    exact ⟨hm, congrArg Answer.count hanswer⟩
  | shutdown => exact ⟨rfl, rfl⟩

theorem enact_reload (a : Act) : (m.reload f).enact (a.reload f) = (m.enact a).reload f := by
  cases a with
  | operate op => exact (m.operate_reload hf op).1
  | world g => rfl
  | script id c =>
    simp only [enact, Act.reload, script?_reload]
    cases m.script? id with
    | none => rfl
    | some s =>
      simp only [Option.map_some, Script.call_reload hf, reload]
      rw [OrderedMap.insert_map (fun _ => Script.reload f)]

theorem enacts_reload (acts : List Act) :
    (m.reload f).enacts (acts.map (Act.reload f)) = (m.enacts acts).reload f := by
  induction acts generalizing m with
  | nil => rfl
  | cons a acts ih =>
    have hfirst := m.enact_reload hf a
    simp only [enacts, List.map_cons, List.foldl_cons, hfirst]
    exact ih (m.enact a)

end Alike

/-! ### Loaded units -/

/-- Machines that differ only in that the one has assembled units, and the other has loaded them
from containers, go the same way. -/
theorem loading_preserves_behaviour {source : String} {u : CodeUnit}
    (hu : Source.assemble source = .ok u) (hcount : u.strings.size < UInt32.size)
    (hlength : u.codeBytes.length < UInt32.size) :
    ∃ v, CodeUnit.ofBytes u.toBytes = .ok v ∧ u.Alike v ∧
      ∀ (w : World) (settings : MachineSettings), settings.randomSeed.isSome →
      ∀ (seed seed' : UInt64) (acts : List Act),
        let loaded := Function.update id u v
        let m := (start w settings seed).enacts acts
        let n := (start w settings seed').enacts (acts.map (Act.reload loaded))
        n.scripts = m.scripts.map (fun _ => Script.reload loaded) ∧
          n.waits = m.waits ∧ n.world = m.world ∧ n.dice = m.dice ∧
          n.executed = m.executed ∧ n.lastScript = m.lastScript ∧
          ∀ op, n.answer (op.reload loaded) = (m.answer op).reload loaded := by
  rw [← CodeUnit.pow_256_4] at hcount hlength
  refine ⟨u.placed, CodeUnit.ofBytes_toBytes (Source.fits_of_assemble hu) hcount hlength,
    u.alike_placed, ?_⟩
  intro w settings hseed seed seed' acts loaded m n
  have hloaded : ∀ v : CodeUnit, v.Alike (loaded v) := by
    intro v
    by_cases hv : v = u
    · simpa [loaded, hv] using u.alike_placed
    · simpa [loaded, hv] using CodeUnit.Alike.refl v
  have hstart : start w settings seed' = (start w settings seed).reload loaded := by
    obtain ⟨x, hx⟩ := Option.isSome_iff_exists.1 hseed
    simp only [start, hx]
    rfl
  have hsame : n = m.reload loaded := by
    rw [← enacts_reload (start w settings seed) hloaded acts, ← hstart]
  rw [hsame]
  exact ⟨rfl, rfl, rfl, rfl, rfl, rfl, fun op => (m.operate_reload hloaded op).2⟩

def dawdling : String := "push 6\nrandom\nwait"

theorem loading_preserves_behaviour_dawdling :
    ∃ u v, Source.assemble dawdling = .ok u ∧ u.strings.size < UInt32.size ∧
      u.codeBytes.length < UInt32.size ∧ CodeUnit.ofBytes u.toBytes = .ok v ∧ v ≠ u ∧
      (some 11).isSome ∧
        let loaded := Function.update id u v
        let m := (start (World.start {} []) { randomSeed := some 11 } 0).enacts
          [.operate (.spawn u none), .operate .tick, .world fun w => (w.advance Binary32.one).2]
        let n := (start (World.start {} []) { randomSeed := some 11 } 1).enacts
          [.operate (.spawn v none), .operate .tick, .world fun w => (w.advance Binary32.one).2]
        n.scripts = m.scripts.map (fun _ => Script.reload loaded) ∧
          n.waits = m.waits ∧ n.world = m.world ∧ n.dice = m.dice ∧
          n.answer .pump = m.answer .pump := by
  obtain ⟨u, hu, hcount, hlength, hplaces⟩ :
      ∃ u, Source.assemble dawdling = .ok u ∧ u.strings.size < UInt32.size ∧
        u.codeBytes.length < UInt32.size ∧ u ≠ u.placed := by
    refine ⟨_, rfl, ?_, ?_, ?_⟩ <;> decide
  obtain ⟨v, hv, -, hsame⟩ := loading_preserves_behaviour hu hcount hlength
  have hplaced : v = u.placed := by
    have hloads := CodeUnit.ofBytes_toBytes (Source.fits_of_assemble hu) hcount hlength
    exact Except.ok.inj (hv.symm.trans hloads)
  refine ⟨u, v, hu, hcount, hlength, hv, hplaced ▸ hplaces.symm, rfl, ?_⟩
  obtain ⟨hscripts, hwaits, hworld, hdice, -, -, hanswer⟩ :=
    hsame (World.start {} []) { randomSeed := some 11 } rfl 0 1
      [.operate (.spawn u none), .operate .tick, .world fun w => (w.advance Binary32.one).2]
  simp only [List.map_cons, List.map_nil, Act.reload, Operation.reload, Function.update_self] at *
  exact ⟨hscripts, hwaits, hworld, hdice, hanswer .pump⟩

end Machine

end WorldScript
