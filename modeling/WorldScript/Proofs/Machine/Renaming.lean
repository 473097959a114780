import WorldScript.Proofs.Execution.Renaming
import WorldScript.Proofs.Machine.Beats

/-!
Machines that differ in the numbers of their scripts. Such machines stay alike: whatever happens to
both, their worlds, their dice and the outcomes of their steps are the same, and so are their
scripts. One of them may have scripts that the other does not have.

Main statements: `Renamed.step` and `Renamed.play`.
-/
set_option autoImplicit false

namespace WorldScript

theorem Script.woken_rename (ρ : ScriptId → ScriptId) (s : Script) (k : Wakeup) :
    (s.rename ρ).woken (k.rename ρ) = (s.woken k).rename ρ := by
  cases k with
  | interrupt id reason => exact s.interrupt_rename ρ reason
  | resume id value =>
    cases value with
    | none => rfl
    | some v =>
      have hrunning : { s.rename ρ with state := .running } =
          Script.rename ρ { s with state := .running } := rfl
      simp only [woken, Wakeup.rename, hrunning, push_rename]
      cases Script.push { s with state := .running } v with
      | ok t => rfl
      | error e => exact interrupt_rename ρ _ e

namespace Machine

/-- The second machine has the scripts of the first one under other numbers, and the same waits for
them. Scripts that are started later are alike too. -/
structure Renamed (ρ : ScriptId → ScriptId) (m n : Machine) : Prop where
  settings : n.settings = m.settings
  world : n.world = m.world
  dice : n.dice = m.dice
  executed : n.executed = m.executed
  waits : m.waits.Renamed ρ n.waits
  named : m.Named
  script? : ∀ id, n.script? (ρ id) = (m.script? id).map (Script.rename ρ)
  next : ∀ k, ρ ⟨m.lastScript + k + 1⟩ = ⟨n.lastScript + k + 1⟩

variable {ρ : ScriptId → ScriptId} {m m' n n' : Machine} {id : ScriptId}

theorem Renamed.put (hρ : ρ.Injective) (h : Renamed ρ m n) (s : Script)
    (hscripts : m'.scripts = m.scripts.insert s.id s)
    (hscripts' : n'.scripts = n.scripts.insert (ρ s.id) (s.rename ρ))
    (hsettings : n'.settings = m'.settings) (hworld : n'.world = m'.world)
    (hdice : n'.dice = m'.dice) (hexecuted : n'.executed = m'.executed)
    (hwaits : m'.waits.Renamed ρ n'.waits)
    (hnext : ∀ k, ρ ⟨m'.lastScript + k + 1⟩ = ⟨n'.lastScript + k + 1⟩) : Renamed ρ m' n' := by
  refine ⟨hsettings, hworld, hdice, hexecuted, hwaits, ?_, ?_, hnext⟩
  · intro j s' hs'
    rw [script?_of_insert hscripts] at hs'
    split at hs'
    case isTrue hj =>
      cases hs'
      exact hj
    case isFalse => exact h.named j s' hs'
  · intro j
    rw [script?_of_insert hscripts, script?_of_insert hscripts']
    by_cases hj : s.id = j
    · simp [hj]
    · rw [if_neg hj, if_neg fun he => hj (hρ he)]
      exact h.script? j

theorem Renamed.withScript (hρ : ρ.Injective) (h : Renamed ρ m n) (s : Script) :
    Renamed ρ (m.withScript s) (n.withScript (s.rename ρ)) :=
  h.put hρ s rfl rfl h.settings h.world h.dice h.executed h.waits h.next

theorem Renamed.step (hρ : ρ.Injective) (h : Renamed ρ m n) (id : ScriptId) :
    (n.step (ρ id)).1 = (m.step id).1 ∧ Renamed ρ (m.step id).2 (n.step (ρ id)).2 := by
  unfold Machine.step
  rw [h.script?]
  cases hs : m.script? id with
  | none => exact ⟨rfl, h⟩
  | some s =>
    have hrunning : (s.rename ρ).isRunning = s.isRunning := rfl
    simp only [Option.map_some, hrunning, Script.fetch?_rename]
    split
    case isFalse => exact ⟨rfl, h⟩
    case isTrue =>
      cases hf : s.fetch? with
      | none =>
        refine ⟨rfl, ?_⟩
        simp only [Option.map_none, Script.stop_rename]
        exact h.withScript hρ s.stop
      | some r =>
        obtain ⟨i, s₁⟩ := r
        have hscene : Scene.Renamed ρ ⟨s₁, m.world, m.waits, m.dice⟩
            ⟨s₁.rename ρ, n.world, n.waits, n.dice⟩ := ⟨rfl, h.world, h.waits, h.dice⟩
        obtain ⟨houtcome, hafter⟩ := hscene.settle hρ i
        refine ⟨congrArg some houtcome, ?_⟩
        refine h.put hρ (Scene.settle ⟨s₁, m.world, m.waits, m.dice⟩ i).2.script rfl ?_ h.settings
          hafter.world hafter.dice (congrArg (· + 1) h.executed) hafter.waits h.next
        simp only [Option.map_some, withScene, hafter.script]
        rfl

/-! ### Notices -/

theorem Renamed.wakeEach (hρ : ρ.Injective) (h : Renamed ρ m n) (ks : List Wakeup) (woken : Nat) :
    Renamed ρ (Machine.wakeEach ks woken m).2
      (Machine.wakeEach (ks.map (Wakeup.rename ρ)) woken n).2 := by
  induction ks generalizing woken m n with
  | nil => exact h
  | cons k ks ih =>
    have hscript : (k.rename ρ).script = ρ k.script := by cases k <;> rfl
    simp only [List.map_cons, Machine.wakeEach, wake_eq, hscript, h.script?]
    cases hs : m.script? k.script with
    | none => exact ih h woken
    | some s =>
      have hstate : (s.rename ρ).state = s.state := rfl
      simp only [Option.map_some, Option.bind_some, hstate, Script.woken_rename]
      by_cases hpaused : s.state = .paused
      · simp only [hpaused, if_true]
        exact ih (h.withScript hρ (s.woken k)) (woken + 1)
      · simp only [hpaused, if_false]
        exact ih h woken

theorem Renamed.deliver (hρ : ρ.Injective) (h : Renamed ρ m n) (notice : Notice) :
    Renamed ρ (m.deliver notice) (n.deliver notice) := by
  obtain ⟨hwakeups, hwaits⟩ := h.waits.deliver notice
  have hafter : Renamed ρ { m with waits := (m.waits.deliver notice).2 }
      { n with waits := (n.waits.deliver notice).2 } :=
    { h with waits := hwaits }
  simp only [Machine.deliver, hwakeups]
  exact hafter.wakeEach hρ _ 0

/-! ### Loading and unloading -/

theorem Renamed.spawn (hρ : ρ.Injective) (h : Renamed ρ m n) (u : CodeUnit)
    (owner : Option Handle) : Renamed ρ (m.spawn u owner).2 (n.spawn u owner).2 := by
  have hid : ρ ⟨m.lastScript + 1⟩ = ⟨n.lastScript + 1⟩ := h.next 0
  have hscripts : (n.spawn u owner).2.scripts = n.scripts.insert (ρ ⟨m.lastScript + 1⟩)
      ((Script.start ⟨m.lastScript + 1⟩ u owner m.settings).rename ρ) := by
    simp only [Machine.spawn, Script.rename, Script.start, hid, h.settings]
  refine h.put hρ (Script.start ⟨m.lastScript + 1⟩ u owner m.settings) rfl hscripts h.settings
    h.world h.dice h.executed h.waits fun k => ?_
  have hnext := h.next (k + 1)
  simp only [Machine.spawn, Nat.add_right_comm _ 1 k]
  exact hnext

theorem Renamed.unload_rest (hρ : ρ.Injective) (h : Renamed ρ m n) (id : ScriptId) :
    (m.unload id).2.waits.Renamed ρ (n.unload (ρ id)).2.waits ∧
      (n.unload (ρ id)).2.world = (m.unload id).2.world := by
  have hp := h.waits.pendingFor? hρ id
  obtain ⟨hnone, hwaits, hworld⟩ | ⟨t, x, hx, hid, hwaits, hworld⟩ :=
      unload_cases h.waits.indexed id <;>
    obtain ⟨hnone', hwaits', hworld'⟩ | ⟨u, y, hy, hid', hwaits', hworld'⟩ :=
      unload_cases h.waits.indexed' (ρ id)
  case inl.inl =>
    rw [hwaits, hwaits', hworld, hworld']
    exact ⟨h.waits, h.world⟩
  case inl.inr =>
    exact absurd hid' (h.waits.indexed'.script_ne (hp.trans hnone) hy)
  case inr.inl =>
    exact absurd hid (h.waits.indexed.script_ne (hp.symm.trans hnone') hx)
  case inr.inr =>
    have hsame : some u = some t := by
      rw [← h.waits.indexed'.pendingFor?_script hy, ← h.waits.indexed.pendingFor?_script hx, hid,
        hid']
      exact hp
    obtain rfl := Option.some.inj hsame
    rw [h.waits.wait?, hx] at hy
    obtain rfl := Option.some.inj hy
    rw [hwaits, hwaits', hworld, hworld', h.world]
    exact ⟨h.waits.without hx, rfl⟩

theorem Renamed.unload (hρ : ρ.Injective) (h : Renamed ρ m n) (id : ScriptId) :
    Renamed ρ (m.unload id).2 (n.unload (ρ id)).2 := by
  obtain ⟨hwaits, hworld⟩ := h.unload_rest hρ id
  obtain ⟨waits, world, he⟩ := m.unload_eq id
  obtain ⟨waits', world', he'⟩ := n.unload_eq (ρ id)
  refine ⟨?_, hworld, ?_, ?_, hwaits, ?_, ?_, ?_⟩
  · rw [he, he']
    exact h.settings
  · rw [he, he']
    exact h.dice
  · rw [he, he']
    exact h.executed
  · intro j s hs
    rw [script?_unload, Option.ite_none_left_eq_some] at hs
    exact h.named j s hs.2
  · intro j
    rw [script?_unload, script?_unload]
    by_cases hj : id = j
    · simp [hj]
    · rw [if_neg hj, if_neg fun hs => hj (hρ hs)]
      exact h.script? j
  · rw [he, he']
    exact h.next

theorem Renamed.reap (h : Renamed ρ m n) : Renamed ρ m.reap.2 n.reap.2 := by
  refine { h with named := ?_, script? := ?_ }
  · intro id s hs
    rw [script?_reap, Option.filter_eq_some_iff] at hs
    exact h.named id s hs.1
  · intro id
    rw [script?_reap, script?_reap, h.script?]
    cases m.script? id with
    | none => rfl
    | some s => cases hf : s.state.isFinished <;> simp [Option.filter, Script.rename, hf]

theorem Renamed.shutdown (h : Renamed ρ m n) : Renamed ρ m.shutdown n.shutdown := by
  obtain ⟨hreleased, hpending, hlast, hindexed⟩ := h.waits.indexed.releaseAll
  obtain ⟨hreleased', hpending', hlast', hindexed'⟩ := h.waits.indexed'.releaseAll
  refine { h with world := ?_, waits := ?_, named := ?_, script? := fun _ => rfl }
  · simp only [Machine.shutdown, hreleased, hreleased', h.waits.pending, h.world, OrderedMap.map,
      List.foldl_map]
    rfl
  · refine ⟨hindexed, hindexed', ?_, ?_⟩
    · simp only [Machine.shutdown, hlast, hlast', h.waits.last]
    · simp only [Machine.shutdown, hpending, hpending']
      rfl
  · intro id s hs
    simp [Machine.shutdown, Machine.script?] at hs

/-! ### Beats -/

def Beat.rename (ρ : ScriptId → ScriptId) : Beat → Beat
  | step id => step (ρ id)
  | unload id => unload (ρ id)
  | spawn u owner => spawn u owner
  | deliver notice => deliver notice
  | reap => reap
  | shutdown => shutdown
  | world w => world w

theorem Renamed.beat (hρ : ρ.Injective) (h : Renamed ρ m n) (b : Beat) :
    Renamed ρ (m.beat b) (n.beat (b.rename ρ)) := by
  cases b with
  | spawn u owner => exact h.spawn hρ u owner
  | step id => exact (h.step hρ id).2
  | deliver notice => exact h.deliver hρ notice
  | reap => exact h.reap
  | unload id => exact h.unload hρ id
  | shutdown => exact h.shutdown
  | world w => exact { h with world := rfl }

theorem Renamed.play (hρ : ρ.Injective) (h : Renamed ρ m n) (bs : List Beat) :
    Renamed ρ (m.play bs) (n.play (bs.map (Beat.rename ρ))) := by
  induction bs generalizing m n with
  | nil => exact h
  | cons b bs ih => exact ih (h.beat hρ b)

end Machine

end WorldScript
