import Mathlib.Logic.Relation
import WorldScript.Machine.Turn
import WorldScript.Machine.Unload
import WorldScript.Proofs.Execution.Effects

/-!
Runs of a machine. Its operations come in any order, and in between a host may reach for the world
or for a script, as far as it is allowed to.

A property of machines that a few operations keep is kept by all of them: the others only repeat
these.
-/
set_option autoImplicit false

namespace WorldScript

/-- What a host may do between the operations of a machine. -/
structure Host where
  world : World → World → Prop
  script : Script → Script → Prop := fun _ _ => False

/-- A host that does what it likes to the world, and leaves scripts alone. -/
def Host.worldOnly : Host where
  world _ _ := True

namespace Machine

inductive Operation
  | spawn (u : CodeUnit) (owner : Option Handle)
  | step (id : ScriptId)
  | run (id : ScriptId)
  | pump
  | tick
  | reap
  | unload (id : ScriptId)
  | unloadOwner (owner : Handle)
  | shutdown

def operate (m : Machine) : Operation → Machine
  | .spawn u owner => (m.spawn u owner).2
  | .step id => (m.step id).2
  | .run id => m.run id
  | .pump => m.pump.2
  | .tick => m.tick.2
  | .reap => m.reap.2
  | .unload id => (m.unload id).2
  | .unloadOwner owner => (m.unloadOwner owner).2
  | .shutdown => m.shutdown

inductive Move (host : Host) : Machine → Machine → Prop
  | operate (m : Machine) (op : Operation) : Move host m (m.operate op)
  | world (m : Machine) (w : World) : host.world m.world w → Move host m { m with world := w }
  | script (m : Machine) (id : ScriptId) (s t : Script) : m.script? id = some s →
      host.script s t → Move host m { m with scripts := m.scripts.insert id t }

/-- The machines that some run from the start leads to. -/
def Reachable (host : Host) (m : Machine) : Prop :=
  ∃ worldSettings specs settings seed,
    Relation.ReflTransGen (Move host) (start (World.start worldSettings specs) settings seed) m

theorem reachable_start (host : Host) (worldSettings : WorldSettings) (specs : List EntitySpec)
    (settings : MachineSettings) (seed : UInt64) :
    Reachable host (start (World.start worldSettings specs) settings seed) :=
  ⟨worldSettings, specs, settings, seed, .refl⟩

theorem Reachable.move {host : Host} {m m' : Machine} (h : Reachable host m)
    (hm : Move host m m') : Reachable host m' := by
  obtain ⟨worldSettings, specs, settings, seed, hrun⟩ := h
  exact ⟨worldSettings, specs, settings, seed, hrun.tail hm⟩

theorem Reachable.operate {host : Host} {m : Machine} (h : Reachable host m) (op : Operation) :
    Reachable host (m.operate op) :=
  h.move (.operate m op)

/-- A step finds no running script, or finishes one at the end of its code, or executes an
instruction. -/
theorem step_outcome_cases (m : Machine) (id : ScriptId) :
    m.step id = (none, m) ∨
      ∃ s, m.script? id = some s ∧ s.state = .running ∧
        ((s.fetch? = none ∧ m.step id = (some .stopped, m.withScript s.stop)) ∨
          ∃ i s₁ outcome scene, s.fetch? = some (i, s₁) ∧
            Scene.settle ⟨s₁, m.world, m.waits, m.dice⟩ i = (outcome, scene) ∧
            m.step id =
              (some outcome, { m.withScene scene with executed := m.executed + 1 })) := by
  unfold step
  cases hs : m.script? id with
  | none => exact .inl rfl
  | some s =>
    by_cases hrunning : s.isRunning
    · refine .inr ⟨s, rfl, by simpa [Script.isRunning] using hrunning, ?_⟩
      simp only [hrunning, if_true]
      cases hf : s.fetch? with
      | none => exact .inl ⟨rfl, rfl⟩
      | some r => exact .inr ⟨r.1, r.2, _, _, rfl, rfl, rfl⟩
    · exact .inl (by simp [hrunning])

theorem step_of_ne_running {m : Machine} {id : ScriptId}
    (h : ∀ s, m.script? id = some s → s.state ≠ .running) : m.step id = (none, m) := by
  obtain he | ⟨s, hs, hrunning, -⟩ := m.step_outcome_cases id
  · exact he
  · exact absurd hrunning (h s hs)

theorem eq_of_step_none {m m' : Machine} {id : ScriptId} (h : m.step id = (none, m')) : m' = m := by
  obtain he | ⟨s, -, -, ⟨-, he⟩ | ⟨i, s₁, outcome, scene, -, -, he⟩⟩ := m.step_outcome_cases id <;>
    rw [he] at h <;> cases h
  rfl

theorem step_cases (m : Machine) (id : ScriptId) :
    (m.step id).2 = m ∨
      ∃ s, m.script? id = some s ∧ s.state = .running ∧
        ((m.step id).2 = m.withScript s.stop ∨
          ∃ i s₁ scene, s.fetch? = some (i, s₁) ∧ s₁.Stays scene.script ∧
            Scene.Effect i ⟨s₁, m.world, m.waits, m.dice⟩ scene ∧
            (m.step id).2 = { m.withScene scene with executed := m.executed + 1 }) := by
  obtain he | ⟨s, hs, hstate, ⟨-, he⟩ | ⟨i, s₁, outcome, scene, hf, hsettle, he⟩⟩ :=
    m.step_outcome_cases id
  · exact .inl (by rw [he])
  · exact .inr ⟨s, hs, hstate, .inl (by rw [he])⟩
  · have hstate₁ : s₁.state = .running := (Script.fetch?_eq_some hf).2.2.2.1.trans hstate
    obtain ⟨hstays, heffect⟩ :=
      Scene.effect_settle (s := ⟨s₁, m.world, m.waits, m.dice⟩) hstate₁ i
    rw [hsettle] at hstays heffect
    exact .inr ⟨s, hs, hstate, .inr ⟨i, s₁, scene, hf, hstays, heffect, by rw [he]⟩⟩

theorem runFor_of_step_none {m : Machine} {id : ScriptId} (h : m.step id = (none, m))
    (budget : Nat) : runFor id budget m = m := by
  cases budget with
  | zero => rfl
  | succ budget => simp only [runFor, h]

/-- What can be done to the world and to the waits at once: nothing, a change, a request that nobody
waits for, or a task that is started with the wait for it. -/
inductive Effect (m m' : Machine) : Prop
  | kept (waits : m'.waits = m.waits) (world : m'.world = m.world)
  | changed (c : Change) (waits : m'.waits = m.waits) (world : m'.world = m.world.change c)
  | issued (r : Request) (waits : m'.waits = m.waits) (world : m'.world = m.world.issue r none)
  | awaited (site : Site) (task : Task) (t : Token)
    (waits : m.waits.register site task.kind task.watched task.pushesResult = .ok (t, m'.waits))
    (world : m'.world = task.start m.world t)
    (heeds : ∀ h, task.watched = some h → m.world.entities.contains h = true)

theorem effect_step (m : Machine) (id : ScriptId) : Effect m (m.step id).2 := by
  obtain he | ⟨s, -, -, he | ⟨i, s₁, scene, -, -, heffect, he⟩⟩ := m.step_cases id
  · rw [he]
    exact .kept rfl rfl
  · rw [he]
    exact .kept rfl rfl
  · rw [he]
    cases heffect with
    | kept waits world => exact .kept waits world
    | changed c waits world => exact .changed c waits world
    | issued r waits world => exact .issued r waits world
    | awaited task t _ waits world _ heeds => exact .awaited _ task t waits world heeds

/-- The operations that the others repeat keep a property. -/
structure Keep (P : Machine → Prop) : Prop where
  spawn : ∀ m u owner, P m → P (m.spawn u owner).2
  step : ∀ m id, P m → P (m.step id).2
  pump : ∀ m, P m → P m.pump.2
  reap : ∀ m, P m → P m.reap.2
  unload : ∀ m id, P m → P (m.unload id).2
  shutdown : ∀ m, P m → P m.shutdown

section Keep

variable {P : Machine → Prop}

theorem Keep.runFor (k : Keep P) (id : ScriptId) (budget : Nat) (m : Machine) (h : P m) :
    P (Machine.runFor id budget m) := by
  induction budget generalizing m with
  | zero => exact h
  | succ budget ih =>
    have hstep := k.step m id h
    unfold Machine.runFor
    split
    · simp_all
    · split
      · simp_all
      · exact ih _ (by simp_all)

theorem Keep.runEach (k : Keep P) (ids : List ScriptId) (ran : Nat) (m : Machine) (h : P m) :
    P (Machine.runEach ids ran m).2 := by
  induction ids generalizing ran m with
  | nil => exact h
  | cons id ids ih =>
    unfold Machine.runEach
    split
    · exact ih _ _ (k.runFor id _ m h)
    · exact ih _ _ h

theorem Keep.operate (k : Keep P) (m : Machine) (op : Operation) (h : P m) : P (m.operate op) := by
  cases op with
  | spawn u owner => exact k.spawn m u owner h
  | step id => exact k.step m id h
  | run id => exact k.runFor id _ m h
  | pump => exact k.pump m h
  | tick => exact k.runEach _ _ _ (k.pump m h)
  | reap => exact k.reap m h
  | unload id => exact k.unload m id h
  | unloadOwner owner =>
    simp only [Machine.operate, Machine.unloadOwner]
    generalize (m.scripts.values.filter fun s => s.owner == some owner).map Script.id = ids
    induction ids generalizing m with
    | nil => exact h
    | cons id ids ih => exact ih _ (k.unload m id h)
  | shutdown => exact k.shutdown m h

theorem Keep.reachable (k : Keep P) {host : Host}
    (hstart : ∀ worldSettings specs settings seed,
      P (start (World.start worldSettings specs) settings seed))
    (hworld : ∀ m w, host.world m.world w → P m → P { m with world := w })
    (hscript : ∀ m id s t, m.script? id = some s → host.script s t → P m →
      P { m with scripts := m.scripts.insert id t })
    {m : Machine} (h : Reachable host m) : P m := by
  obtain ⟨worldSettings, specs, settings, seed, hrun⟩ := h
  induction hrun with
  | refl => exact hstart worldSettings specs settings seed
  | tail _ hm ih =>
    cases hm with
    | operate op => exact k.operate _ op ih
    | world w hw => exact hworld _ w hw ih
    | script id s t hs ht => exact hscript _ id s t hs ht ih

end Keep

end Machine

end WorldScript
