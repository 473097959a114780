import WorldScript.Proofs.Machine.Runs
import WorldScript.Proofs.Script.Calls

/-!
The scripts of a machine. Every operation starts scripts, takes some out, or changes them by their
calls, so that whatever holds of a script that is started and is kept by each call holds of every
loaded script in every run.

Main statement: `Reachable.scripts`.
-/
set_option autoImplicit false

namespace WorldScript

/-! ### Wakeups -/

namespace Script

/-- What a wakeup makes of a paused script. -/
def woken (s : Script) : Wakeup → Script
  | .resume _ none => { s with state := .running }
  | .resume _ (some v) =>
    let s : Script := { s with state := .running }
    match s.push v with
    | .ok t => t
    | .error e => s.interrupt e
  | .interrupt _ reason => s.interrupt reason

theorem woken_eq (s : Script) (k : Wakeup) :
    ∃ state stack, s.woken k = { s with state, stack } := by
  cases k with
  | interrupt id reason =>
    obtain ⟨state, he⟩ := s.interrupt_eq reason
    exact ⟨state, s.stack, he⟩
  | resume id value =>
    cases value with
    | none => exact ⟨.running, s.stack, rfl⟩
    | some v =>
      simp only [woken]
      split
      case h_1 t hpush =>
        obtain ⟨-, rfl⟩ := push_eq_ok hpush
        exact ⟨.running, v :: s.stack, rfl⟩
      case h_2 e _ =>
        obtain ⟨state, he⟩ := interrupt_eq { s with state := .running } e
        exact ⟨state, s.stack, he⟩

theorem stays_woken {s : Script} (h : s.state = .paused) (k : Wakeup) :
    Stays s (s.woken k) ∧ (s.woken k).state ≠ .paused := by
  have hrunning : ({ s with state := .running } : Script).state.isFinished = false := rfl
  have hresumed : Stays s { s with state := .running } := ⟨rfl, rfl, rfl, rfl⟩
  cases k with
  | interrupt id reason =>
    have hstate := state_interrupt (s := s) (by simp [h, ScriptState.isFinished]) reason
    exact ⟨s.stays_interrupt reason, by simp [woken, hstate]⟩
  | resume id value =>
    cases value with
    | none => exact ⟨hresumed, by simp [woken]⟩
    | some v =>
      simp only [woken]
      split
      · rename_i t hv
        obtain ⟨hstays, hstate⟩ := stays_push hv
        exact ⟨hresumed.trans hstays, by simp [hstate]⟩
      · rename_i e hv
        exact ⟨hresumed.trans (stays_interrupt _ e), by simp [state_interrupt hrunning]⟩

theorem leads_woken {s : Script} (h : s.state = .paused) (k : Wakeup) : Leads s (s.woken k) := by
  have hresumed : Leads s { s with state := .running } := by
    simpa [call, resume?_of_paused h] using s.leads_call .resume
  cases k with
  | interrupt id reason => exact s.leads_call (.interrupt reason)
  | resume id value =>
    cases value with
    | none => exact hresumed
    | some v =>
      refine hresumed.trans ?_
      have hpush := leads_call { s with state := .running } (.push v)
      simp only [call] at hpush
      simp only [woken]
      split
      · rename_i t hv
        rw [hv] at hpush
        exact hpush
      · rename_i e hv
        exact leads_call _ (.interrupt e)

end Script

namespace Machine

variable {m m' : Machine} {id : ScriptId} {s s' : Script}

theorem wake_eq (m : Machine) (k : Wakeup) :
    m.wake k = (m.script? k.script).bind fun s =>
      if s.state = .paused then some (m.withScript (s.woken k)) else none := by
  cases k with
  | interrupt id reason => rfl
  | resume id value =>
    simp only [wake, Wakeup.script, Option.bind_eq_bind]
    congr 1
    funext s
    by_cases hs : s.state = .paused
    · rw [Script.resume?_of_paused hs, if_pos hs]
      cases value with
      | none => rfl
      | some v =>
        simp only [Option.bind_some, Script.woken]
        split <;> simp_all
    · rw [Script.resume?_eq_none hs, if_neg hs]
      rfl

theorem wake_eq_some {k : Wakeup} (h : m.wake k = some m') :
    ∃ s, m.script? k.script = some s ∧ s.state = .paused ∧ m' = m.withScript (s.woken k) := by
  rw [wake_eq, Option.bind_eq_some_iff] at h
  obtain ⟨s, hs, h⟩ := h
  rw [Option.ite_none_right_eq_some] at h
  exact ⟨s, hs, h.1, (Option.some.inj h.2).symm⟩

/-- What holds of a machine, and is kept by each wakeup of a paused script, is kept by any number of
wakeups. -/
theorem wakeEach_keeps {P : Machine → Prop}
    (hwake : ∀ m k s, m.script? k.script = some s → s.state = .paused → P m →
      P (m.withScript (s.woken k)))
    (ks : List Wakeup) (woken : Nat) (m : Machine) (h : P m) : P (wakeEach ks woken m).2 := by
  induction ks generalizing woken m with
  | nil => exact h
  | cons k ks ih =>
    unfold wakeEach
    split
    · rename_i m₁ hk
      obtain ⟨s, hs, hpaused, rfl⟩ := wake_eq_some hk
      exact ih _ _ (hwake m k s hs hpaused h)
    · exact ih _ m h

/-! ### Loading and unloading -/

theorem script?_of_insert (hscripts : m'.scripts = m.scripts.insert id s') (j : ScriptId) :
    m'.script? j = if id = j then some s' else m.script? j := by
  rw [script?, hscripts, OrderedMap.get?_insert, script?]

theorem unload_of_none (h : m.waits.releaseScript? id = none) :
    (m.unload id).2 = { m with scripts := m.scripts.erase id } := by
  unfold unload
  rw [h]
  dsimp only
  cases hs : m.script? id with
  | none => rw [OrderedMap.erase_eq_self hs]
  | some s => rfl

theorem unload_of_some {t : Token} {x : Wait} {waits : Waits}
    (h : m.waits.releaseScript? id = some ((t, x), waits)) :
    (m.unload id).2 =
      { m with scripts := m.scripts.erase id, waits, world := withdraw m.world t x.kind } := by
  have hsame : script? { m with waits, world := withdraw m.world t x.kind } id = m.script? id := rfl
  unfold unload
  rw [h]
  dsimp only
  rw [hsame]
  cases hs : m.script? id with
  | none => rw [OrderedMap.erase_eq_self hs]
  | some s => rfl

theorem unload_eq (m : Machine) (id : ScriptId) :
    ∃ waits world, (m.unload id).2 = { m with scripts := m.scripts.erase id, waits, world } := by
  cases hr : m.waits.releaseScript? id with
  | none => exact ⟨_, _, unload_of_none hr⟩
  | some r => exact ⟨_, _, unload_of_some hr⟩

theorem script?_unload (m : Machine) (id j : ScriptId) :
    (m.unload id).2.script? j = if id = j then none else m.script? j := by
  obtain ⟨waits, world, he⟩ := m.unload_eq id
  rw [he, script?, OrderedMap.get?_erase, script?]

theorem script?_reap (m : Machine) (id : ScriptId) :
    m.reap.2.script? id = (m.script? id).filter fun s => !s.state.isFinished := by
  simp only [reap, script?, OrderedMap.get?_filter]

/-! ### Steps and places -/

def Named (m : Machine) : Prop := ∀ id s, m.script? id = some s → s.id = id

theorem Named.put (h : m.Named) (s : Script) : (m.withScript s).Named := by
  intro j t ht
  rw [script?_of_insert rfl] at ht
  split at ht
  case isTrue hj =>
    cases ht
    exact hj
  case isFalse => exact h j t ht

theorem Named.step_scripts (h : m.Named) (id : ScriptId) :
    (m.step id).2 = m ∨ ∃ t, t.id = id ∧ (m.step id).2.scripts = m.scripts.insert id t := by
  obtain he | ⟨s, hs, -, he | ⟨i, s₁, scene, hf, hstays, -, he⟩⟩ := m.step_cases id
  · exact .inl he
  · have hid : s.stop.id = id := s.stays_stop.id.trans (h id s hs)
    exact .inr ⟨s.stop, hid, by rw [he, withScript, hid]⟩
  · have hid : scene.script.id = id :=
      hstays.id.trans ((Script.fetch?_eq_some hf).1.trans (h id s hs))
    exact .inr ⟨scene.script, hid, by rw [he]; simp only [withScene, hid]⟩

theorem Named.step (h : m.Named) (id : ScriptId) : (m.step id).2.Named := by
  obtain he | ⟨t, hid, hscripts⟩ := h.step_scripts id
  · rw [he]
    exact h
  · intro j s hs
    rw [script?_of_insert hscripts] at hs
    split at hs
    case isTrue he =>
      cases hs
      exact hid.trans he
    case isFalse => exact h j s hs

theorem Named.script?_step (h : m.Named) {j : ScriptId} (hj : j ≠ id) :
    (m.step j).2.script? id = m.script? id := by
  obtain he | ⟨t, -, hscripts⟩ := h.step_scripts j
  · rw [he]
  · rw [script?_of_insert hscripts, if_neg hj]

theorem Named.step_settle (h : m.Named) (hs : m.script? id = some s) (hstate : s.state = .running)
    {i : Instruction} {s₁ : Script} (hf : s.fetch? = some (i, s₁)) {outcome : Outcome}
    {scene : Scene}
    (hsettle : Scene.settle ⟨s₁, m.world, m.waits, m.dice⟩ i = (outcome, scene)) :
    m.step id = (some outcome, { m.withScene scene with executed := m.executed + 1 }) ∧
      (m.step id).2.script? id = some scene.script := by
  have hstep : m.step id =
      (some outcome, { m.withScene scene with executed := m.executed + 1 }) := by
    simp [Machine.step, hs, Script.isRunning, hstate, hf, hsettle]
  obtain ⟨hid₁, -, -, hstate₁, -⟩ := Script.fetch?_eq_some hf
  have hstays := (Scene.effect_settle (s := ⟨s₁, m.world, m.waits, m.dice⟩)
    (hstate₁.trans hstate) i).1
  rw [hsettle] at hstays
  have hid : scene.script.id = id := hstays.id.trans (hid₁.trans (h id s hs))
  refine ⟨hstep, ?_⟩
  rw [hstep, script?_of_insert rfl, if_pos hid]

theorem Named.script?_wakeEach {ks : List Wakeup} (woken : Nat) (h : m.Named)
    (hid : id ∉ ks.map Wakeup.script) : (wakeEach ks woken m).2.script? id = m.script? id := by
  induction ks generalizing woken m with
  | nil => rfl
  | cons k ks ih =>
    simp only [List.map_cons, List.mem_cons, not_or] at hid
    simp only [wakeEach]
    cases hk : m.wake k with
    | none => exact ih woken h hid.2
    | some m₁ =>
      obtain ⟨s, hs, hpaused, rfl⟩ := wake_eq_some hk
      have hname : (s.woken k).id = k.script :=
        (Script.stays_woken hpaused k).1.id.trans (h _ s hs)
      have hscript : ∀ j, (m.withScript (s.woken k)).script? j =
          if k.script = j then some (s.woken k) else m.script? j :=
        script?_of_insert (by simp [withScript, hname])
      refine (ih (woken + 1) (h.put _) hid.2).trans ?_
      rw [hscript, if_neg (Ne.symm hid.1)]

/-! ### What holds of every script -/

/-- Every loaded script is in its place, and has a property under the settings of the machine. -/
def Scripts (P : MachineSettings → Script → Prop) (m : Machine) : Prop :=
  ∀ id s, m.script? id = some s → s.id = id ∧ P m.settings s

section Scripts

variable {P : MachineSettings → Script → Prop}

theorem Scripts.put (h : Scripts P m) (hid : s'.id = id) (hP : P m.settings s')
    (hscripts : m'.scripts = m.scripts.insert id s') (hsettings : m'.settings = m.settings) :
    Scripts P m' := by
  intro j t hj
  rw [script?_of_insert hscripts] at hj
  rw [hsettings]
  split at hj
  case isTrue he =>
    cases hj
    exact ⟨hid.trans he, hP⟩
  case isFalse => exact h j t hj

theorem Scripts.of_subset (h : Scripts P m)
    (hscripts : ∀ j t, m'.script? j = some t → m.script? j = some t)
    (hsettings : m'.settings = m.settings) : Scripts P m' := by
  intro j t hj
  rw [hsettings]
  exact h j t (hscripts j t hj)

variable (hcall : ∀ settings s c, P settings s → P settings (s.call c))

include hcall

theorem Scripts.step (h : Scripts P m) (id : ScriptId) : Scripts P (m.step id).2 := by
  obtain he | ⟨s, hs, -, ⟨-, he⟩ | ⟨i, s₁, outcome, scene, hf, hsettle, he⟩⟩ :=
    m.step_outcome_cases id
  · rw [he]
    exact h
  · rw [he]
    obtain ⟨-, hP⟩ := h id s hs
    exact h.put rfl (hcall _ s .stop hP) rfl rfl
  · rw [he]
    obtain ⟨-, hP⟩ := h id s hs
    have hleads := (Script.leads_fetch hf).trans
      (Scene.leads_settle ⟨s₁, m.world, m.waits, m.dice⟩ i)
    rw [hsettle] at hleads
    exact h.put rfl (hleads.keeps (hcall _) hP) rfl rfl

theorem Scripts.wakeEach (ks : List Wakeup) (woken : Nat) (m : Machine) (h : Scripts P m) :
    Scripts P (Machine.wakeEach ks woken m).2 := by
  refine wakeEach_keeps ?_ ks woken m h
  intro m k s hs hpaused h
  obtain ⟨-, hP⟩ := h _ s hs
  exact h.put rfl ((Script.leads_woken hpaused k).keeps (hcall _) hP) rfl rfl

theorem Scripts.deliverEach (notices : List Notice) (woken : Nat) (m : Machine)
    (h : Scripts P m) : Scripts P (Machine.deliverEach notices woken m).2 := by
  induction notices generalizing woken m with
  | nil => exact h
  | cons n notices ih =>
    exact ih _ _ (Scripts.wakeEach hcall _ woken { m with waits := (m.waits.deliver n).2 } h)

theorem keep_scripts
    (hstart : ∀ id u owner settings, P settings (Script.start id u owner settings)) :
    Keep (Scripts P) where
  spawn m u owner h := h.put rfl (hstart _ u owner m.settings) rfl rfl
  step _ id h := h.step hcall id
  pump m h := Scripts.deliverEach hcall m.world.notices 0 { m with world := m.world.drain.2 } h
  reap m h := by
    refine h.of_subset ?_ rfl
    intro j t hj
    rw [script?_reap, Option.filter_eq_some_iff] at hj
    exact hj.1
  unload m id h := by
    refine h.of_subset ?_ ?_
    · intro j t hj
      rw [script?_unload, Option.ite_none_left_eq_some] at hj
      exact hj.2
    · obtain ⟨waits, world, he⟩ := m.unload_eq id
      rw [he]
  shutdown m h := by
    intro j t hj
    simp [Machine.shutdown, script?] at hj

/-- What holds of a script at its start, and is kept by its calls, holds of every script in a run,
whatever the host does to the world, and to the scripts by their calls. -/
theorem Reachable.scripts {host : Host}
    (hstart : ∀ id u owner settings, P settings (Script.start id u owner settings))
    (hhost : ∀ s t, host.script s t → ∃ c, t = s.call c) (h : Reachable host m) :
    Scripts P m := by
  refine (keep_scripts hcall hstart).reachable ?_ (fun _ _ _ h => h) ?_ h
  · intro worldSettings specs settings seed id s hs
    simp [Machine.start, script?] at hs
  · intro m id s t hs ht h
    obtain ⟨c, rfl⟩ := hhost s t ht
    obtain ⟨hid, hP⟩ := h id s hs
    exact h.put ((Script.id_call s c).trans hid) (hcall _ s c hP) rfl rfl

end Scripts

end Machine

end WorldScript
