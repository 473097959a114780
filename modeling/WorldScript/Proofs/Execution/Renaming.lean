import Mathlib.Logic.Function.Basic
import WorldScript.Proofs.Waits.Registry
import WorldScript.Execution.Step

/-!
The numbers of scripts do not matter. An instruction does the same for a script under another
number, as long as the waits of all scripts are renamed with it.

Main statements: `Waits.Renamed.deliver` and `Scene.Renamed.settle`.
-/
set_option autoImplicit false

namespace WorldScript

/-! ### Scripts -/

namespace Script

def rename (ρ : ScriptId → ScriptId) (s : Script) : Script := { s with id := ρ s.id }

variable (ρ : ScriptId → ScriptId) (s : Script)

theorem push_rename (v : Value) : (s.rename ρ).push v = (s.push v).map (rename ρ) := by
  by_cases h : s.stack.length < s.maxStackDepth <;> simp [push, rename, h, Except.map]

theorem setSlot_rename (index : Nat) (v : Value) :
    (s.rename ρ).setSlot index v = (s.setSlot index v).map (rename ρ) := by
  by_cases h : index < s.slots.size <;> simp [setSlot, rename, h, Except.map]

theorem moveTo_rename (target : Nat) :
    (s.rename ρ).moveTo target = (s.moveTo target).map (rename ρ) := by
  by_cases h : target ≤ s.unit.size <;> simp [moveTo, rename, h, Except.map]

theorem enter_rename (target : Nat) :
    (s.rename ρ).enter target = (s.enter target).map (rename ρ) := by
  unfold enter
  rw [moveTo_rename]
  by_cases h : s.maxCallDepth ≤ s.frames.length <;>
    cases s.moveTo target <;> simp [rename, h, Except.map]

theorem leave?_rename : (s.rename ρ).leave? = s.leave?.map fun r => (r.1, r.2.rename ρ) := by
  cases h : s.frames <;> simp [leave?, rename, h]

theorem fetch?_rename : (s.rename ρ).fetch? = s.fetch?.map fun r => (r.1, r.2.rename ρ) := by
  simp only [fetch?, Option.map_map]
  rfl

theorem stop_rename : (s.rename ρ).stop = s.stop.rename ρ := by
  cases h : s.state.isFinished <;> simp [stop, rename, h]

theorem interrupt_rename (reason : Fault) :
    (s.rename ρ).interrupt reason = (s.interrupt reason).rename ρ := by
  cases h : s.state.isFinished <;> simp [interrupt, rename, h]

theorem pause_rename : (s.rename ρ).pause = s.pause.rename ρ := by
  cases h : s.state <;> simp [pause, rename, h]

end Script

theorem Instruction.action_rename (ρ : ScriptId → ScriptId) (i : Instruction) (s : Script)
    (w : World) : i.action (s.rename ρ) w = i.action s w := rfl

/-! ### Waits -/

def Wait.rename (ρ : ScriptId → ScriptId) (x : Wait) : Wait :=
  { x with script := ρ x.script, site := ⟨ρ x.site.script, x.site.position⟩ }

def Wakeup.rename (ρ : ScriptId → ScriptId) : Wakeup → Wakeup
  | resume id value => resume (ρ id) value
  | interrupt id reason => interrupt (ρ id) reason

theorem Notice.wakeup?_rename (ρ : ScriptId → ScriptId) (n : Notice) (t : Token) (x : Wait) :
    n.wakeup? t (x.rename ρ) = (n.wakeup? t x).map (Wakeup.rename ρ) := by
  cases n with
  | alarmFired u | commandFinished u result | windowClosed u result
  | commandDisqualified u reason =>
    simp only [wakeup?]
    split
    · change (if x.kind = _ then _ else _) = _
      split <;> rfl
    · rfl
  | entityDestroyed h =>
    change (if x.watched = some h then _ else _) = Option.map _ (if x.watched = some h then _ else _)
    split <;> rfl
  | worldPaused paused => rfl

namespace Waits

/-- The same waits under the same tokens, of scripts that have other numbers. -/
structure Renamed (ρ : ScriptId → ScriptId) (ws us : Waits) : Prop where
  indexed : ws.Indexed
  indexed' : us.Indexed
  last : us.lastToken = ws.lastToken
  pending : us.pending = ws.pending.map fun _ => Wait.rename ρ

variable {ρ : ScriptId → ScriptId} {ws us : Waits}

theorem Renamed.wait? (h : Renamed ρ ws us) (t : Token) :
    us.wait? t = (ws.wait? t).map (Wait.rename ρ) := by
  rw [Waits.wait?, h.pending, OrderedMap.get?_map, Waits.wait?]

theorem Renamed.pendingFor? (hρ : ρ.Injective) (h : Renamed ρ ws us) (id : ScriptId) :
    us.pendingFor? (ρ id) = ws.pendingFor? id := by
  apply Option.ext
  intro t
  rw [Waits.pendingFor?, Waits.pendingFor?, h.indexed'.byScript, h.indexed.byScript]
  constructor
  · rintro ⟨y, hy, hid⟩
    rw [h.pending, OrderedMap.get?_map, Option.map_eq_some_iff] at hy
    obtain ⟨x, hx, rfl⟩ := hy
    exact ⟨x, hx, hρ hid⟩
  · rintro ⟨x, hx, rfl⟩
    exact ⟨x.rename ρ, by rw [h.pending, OrderedMap.get?_map, hx]; rfl, rfl⟩

theorem register_of_pendingFor? {site : Site} {t : Token} (hp : ws.pendingFor? site.script = some t)
    (kind : WaitKind) (watched : Option Handle) (pushesResult : Bool) :
    ws.register site kind watched pushesResult = .error (.waitPending site.position) := by
  have hscript : ws.byScript.get? site.script = some t := hp
  simp [Waits.register, OrderedMap.contains, hscript]

theorem Renamed.register (hρ : ρ.Injective) (h : Renamed ρ ws us) (site : Site) (kind : WaitKind)
    (watched : Option Handle) (pushesResult : Bool) :
    (∃ e, ws.register site kind watched pushesResult = .error e ∧
        us.register ⟨ρ site.script, site.position⟩ kind watched pushesResult = .error e) ∨
      ∃ t ws' us', ws.register site kind watched pushesResult = .ok (t, ws') ∧
        us.register ⟨ρ site.script, site.position⟩ kind watched pushesResult = .ok (t, us') ∧
          Renamed ρ ws' us' := by
  have hp := h.pendingFor? hρ site.script
  cases hs : ws.pendingFor? site.script with
  | some t =>
    rw [hs] at hp
    exact .inl ⟨_, register_of_pendingFor? hs _ _ _, register_of_pendingFor? hp _ _ _⟩
  | none =>
    rw [hs] at hp
    obtain ⟨t, ws', hr⟩ := h.indexed.register_isOk site hs kind watched pushesResult
    obtain ⟨u, us', hr'⟩ := h.indexed'.register_isOk ⟨ρ site.script, site.position⟩ hp kind watched
      pushesResult
    obtain ⟨ht, hlast, hfresh, hpending, hindexed⟩ := h.indexed.register hr
    obtain ⟨hu, hlast', hfresh', hpending', hindexed'⟩ := h.indexed'.register hr'
    obtain rfl : u = t := congrArg Token.mk (by rw [hu, ht, h.last])
    refine .inr ⟨u, ws', us', hr, hr', hindexed, hindexed', ?_, ?_⟩
    · rw [hlast', hlast, h.last]
    · apply OrderedMap.ext
      rw [hpending', hpending, OrderedMap.entries_insert_of_notMem hfresh', h.pending]
      simp only [OrderedMap.map, OrderedMap.entries_insert_of_notMem hfresh, List.map_append]
      rfl

theorem Renamed.deliver (h : Renamed ρ ws us) (n : Notice) :
    (us.deliver n).1 = (ws.deliver n).1.map (Wakeup.rename ρ) ∧
      Renamed ρ (ws.deliver n).2 (us.deliver n).2 := by
  obtain ⟨hfst, hpending, hlast, hindexed⟩ := h.indexed.deliver n
  obtain ⟨hfst', hpending', hlast', hindexed'⟩ := h.indexed'.deliver n
  refine ⟨?_, hindexed, hindexed', ?_, ?_⟩
  · rw [hfst', hfst, h.pending, OrderedMap.map, List.filterMap_map, List.map_filterMap]
    simp only [Function.comp_def, Notice.wakeup?_rename]
  · rw [hlast', hlast, h.last]
  · apply OrderedMap.ext
    rw [hpending', hpending, h.pending]
    simp [OrderedMap.map, OrderedMap.filter, List.filter_map, Function.comp_def,
      Notice.wakeup?_rename]

theorem Renamed.without (h : Renamed ρ ws us) {t : Token} {x : Wait} (hx : ws.wait? t = some x) :
    Renamed ρ (ws.without t x) (us.without t (x.rename ρ)) := by
  have hx' : us.wait? t = some (x.rename ρ) := by rw [h.wait?, hx, Option.map_some]
  refine ⟨h.indexed.without hx, h.indexed'.without hx', h.last, ?_⟩
  apply OrderedMap.ext
  simp only [Waits.without, h.pending]
  simp [OrderedMap.map, OrderedMap.erase, List.filter_map, Function.comp_def]

end Waits

/-! ### Scenes -/

namespace Scene

structure Renamed (ρ : ScriptId → ScriptId) (s t : Scene) : Prop where
  script : t.script = s.script.rename ρ
  world : t.world = s.world
  waits : s.waits.Renamed ρ t.waits
  dice : t.dice = s.dice

variable {ρ : ScriptId → ScriptId} {s t : Scene}

theorem Renamed.put (h : Renamed ρ s t) (script : Script) :
    Renamed ρ { s with script } { t with script := script.rename ρ } :=
  ⟨rfl, h.world, h.waits, h.dice⟩

theorem Renamed.withScript (h : Renamed ρ s t) (outcome : Outcome) (r : Except Fault Script) :
    (t.withScript outcome (r.map (Script.rename ρ))).1 = (s.withScript outcome r).1 ∧
      Renamed ρ (s.withScript outcome r).2
        (t.withScript outcome (r.map (Script.rename ρ))).2 := by
  cases r with
  | ok script => exact ⟨rfl, h.put script⟩
  | error e => exact ⟨rfl, h⟩

theorem Renamed.ret (h : Renamed ρ s t) : t.ret.1 = s.ret.1 ∧ Renamed ρ s.ret.2 t.ret.2 := by
  have hglobal : t.script.isGlobal = s.script.isGlobal := by rw [h.script]; rfl
  have hstop : t.script.stop = s.script.stop.rename ρ := by rw [h.script, Script.stop_rename]
  have hleave : t.script.leave? = s.script.leave?.map fun r => (r.1, r.2.rename ρ) := by
    rw [h.script, Script.leave?_rename]
  simp only [Scene.ret, hglobal, hstop, hleave]
  split
  · exact ⟨rfl, h.put s.script.stop⟩
  · cases s.script.leave? with
    | none => exact ⟨rfl, h.put s.script.stop⟩
    | some r => exact ⟨rfl, h.put r.2⟩

theorem Renamed.await (hρ : ρ.Injective) (h : Renamed ρ s t) (task : Task) :
    (t.await task).1 = (s.await task).1 ∧ Renamed ρ (s.await task).2 (t.await task).2 := by
  have hsite : (⟨t.script.id, t.script.current⟩ : Site) =
      ⟨ρ (⟨s.script.id, s.script.current⟩ : Site).script, s.script.current⟩ := by
    rw [h.script]
    rfl
  simp only [Scene.await]
  rw [hsite]
  obtain ⟨e, hr, hr'⟩ | ⟨u, ws', us', hr, hr', hwaits⟩ :=
    h.waits.register hρ ⟨s.script.id, s.script.current⟩ task.kind task.watched task.pushesResult
  · rw [hr, hr']
    exact ⟨rfl, h⟩
  · rw [hr, hr']
    refine ⟨rfl, ?_, ?_, hwaits, h.dice⟩
    · rw [h.script]
      exact s.script.pause_rename ρ
    · rw [h.world]

theorem Renamed.perform (hρ : ρ.Injective) (h : Renamed ρ s t) (a : Action) :
    (t.perform a).1 = (s.perform a).1 ∧ Renamed ρ (s.perform a).2 (t.perform a).2 := by
  cases a with
  | proceed => exact ⟨rfl, h⟩
  | push v =>
    simp only [Scene.perform]
    rw [h.script, Script.push_rename]
    exact h.withScript _ _
  | store slot v =>
    simp only [Scene.perform]
    rw [h.script, Script.setSlot_rename]
    exact h.withScript _ _
  | jump target =>
    simp only [Scene.perform]
    rw [h.script, Script.moveTo_rename]
    exact h.withScript _ _
  | call target =>
    simp only [Scene.perform]
    rw [h.script, Script.enter_rename]
    exact h.withScript _ _
  | ret =>
    obtain ⟨houtcome, hrest⟩ := h.ret
    exact ⟨congrArg Except.ok houtcome, hrest⟩
  | roll bound =>
    have hrolled : Renamed ρ { s with dice := (s.dice.roll bound).2 }
        { t with dice := (s.dice.roll bound).2 } := ⟨h.script, h.world, h.waits, rfl⟩
    have hpush : ∀ v, t.script.push v = (s.script.push v).map (Script.rename ρ) := fun v => by
      rw [h.script, Script.push_rename]
    simp only [Scene.perform, Scene.roll, h.dice, hpush]
    exact hrolled.withScript _ _
  | change c => exact ⟨rfl, h.script, congrArg (World.change · c) h.world, h.waits, h.dice⟩
  | issue r => exact ⟨rfl, h.script, congrArg (World.issue · r none) h.world, h.waits, h.dice⟩
  | await task => exact h.await hρ task

theorem Renamed.execute (hρ : ρ.Injective) (h : Renamed ρ s t) (i : Instruction) :
    (t.execute i).1 = (s.execute i).1 ∧ Renamed ρ (s.execute i).2 (t.execute i).2 := by
  have htake : t.script.take (i.action t.script t.world) =
      ((s.script.take (i.action s.script s.world)).1,
        (s.script.take (i.action s.script s.world)).2.rename ρ) := by
    rw [h.script, h.world, Instruction.action_rename]
    rfl
  simp only [Scene.execute]
  rw [htake]
  rcases s.script.take (i.action s.script s.world) with ⟨e | a, script⟩
  · exact ⟨rfl, h.put script⟩
  · exact (h.put script).perform hρ a

theorem Renamed.settle (hρ : ρ.Injective) (h : Renamed ρ s t) (i : Instruction) :
    (t.settle i).1 = (s.settle i).1 ∧ Renamed ρ (s.settle i).2 (t.settle i).2 := by
  obtain ⟨hresult, hrest⟩ := h.execute hρ i
  simp only [Scene.settle]
  rcases hs : s.execute i with ⟨r, s'⟩
  rcases ht : t.execute i with ⟨r', t'⟩
  rw [hs, ht] at hresult hrest
  obtain rfl : r' = r := hresult
  cases r' with
  | ok outcome => exact ⟨rfl, hrest⟩
  | error e =>
    have hscene : Renamed ρ s' t' := hrest
    have hinterrupt : t'.script.interrupt e = (s'.script.interrupt e).rename ρ := by
      rw [hscene.script, Script.interrupt_rename]
    refine ⟨rfl, ?_⟩
    simp only [hinterrupt]
    exact hscene.put _

end Scene

end WorldScript
