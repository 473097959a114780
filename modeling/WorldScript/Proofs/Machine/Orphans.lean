import WorldScript.Proofs.Machine.Order
import WorldScript.Proofs.Machine.Wakeups

/-!
Waits without a script. Whatever is done with scripts by their calls, a wait is left behind only
where a script that was finished over its wait is reaped; all else that takes out scripts takes out
their waits.

Main statements: `operate_eq_play_of_ne_reap` and `InOrder.orphaned_beat`.
-/
set_option autoImplicit false

namespace WorldScript

def Script.Call.IsLifecycle : Script.Call → Prop
  | reset | pause | resume | stop | interrupt _ => True
  | fetch | push _ | pop | popNumber | popEntity | popString | setSlot .. | moveTo _ | enter _
  | leave => False

/-- A host that leaves tokens and notices alone, and changes the state of scripts. -/
def Host.lifecycle : Host where
  world w w' := ∃ c : World.Call, c.IsPlain ∧ w' = w.call c
  script s t := ∃ c : Script.Call, c.IsLifecycle ∧ t = s.call c

namespace Machine

variable {m m' : Machine} {id : ScriptId} {t : Token} {x : Wait}

/-! ### Operations are made of beats -/

theorem operate_eq_play_of_ne_reap (m : Machine) {op : Operation} (hop : op ≠ .reap) :
    ∃ bs, (∀ b ∈ bs, b ≠ .reap) ∧ m.operate op = m.play bs := by
  obtain ⟨bs, hbs, he⟩ := m.operate_eq_play_of_has op
  refine ⟨bs, ?_, he⟩
  rintro b hb rfl
  have hhas := hbs .reap hb
  cases op with
  | reap => exact hop rfl
  | _ => simp [Operation.Has] at hhas

/-! ### Orphans -/

/-- A pending wait whose script is not loaded. -/
def Orphaned (m : Machine) (t : Token) (x : Wait) : Prop :=
  m.waits.wait? t = some x ∧ m.script? x.script = none

theorem script?_eq_none_of_insert {s : Script} (hscripts : m'.scripts = m.scripts.insert id s)
    {j : ScriptId} (hj : m'.script? j = none) : m.script? j = none := by
  rw [script?_of_insert hscripts] at hj
  split at hj
  case isTrue => cases hj
  case isFalse => exact hj

theorem InOrder.orphaned_step (h : InOrder m) (ho : (m.step id).2.Orphaned t x) :
    m.Orphaned t x := by
  obtain he | ⟨s, hs, -, he | ⟨i, s₁, scene, hf, hstays, heffect, he⟩⟩ := m.step_cases id
  · exact he ▸ ho
  · rw [he] at ho
    exact ⟨ho.1, script?_eq_none_of_insert rfl ho.2⟩
  · have hid₁ : s₁.id = id := (Script.fetch?_eq_some hf).1.trans (h.named id s hs)
    rw [he] at ho
    obtain ⟨hx, hnone⟩ := ho
    have hnone : m.script? x.script = none := script?_eq_none_of_insert rfl hnone
    refine ⟨?_, hnone⟩
    change scene.waits.wait? t = some x at hx
    cases heffect with
    | kept waits | changed _ waits | issued _ waits =>
      rw [waits] at hx
      exact hx
    | awaited task u kind waits =>
      obtain ⟨-, -, -, hpending, -⟩ := h.indexed.register waits
      rw [Waits.wait?, hpending, OrderedMap.get?_insert] at hx
      split at hx
      case isTrue =>
        -- the new wait belongs to the script that was executed
        cases hx
        rw [hid₁, hs] at hnone
        cases hnone
      case isFalse => exact hx

/-- Nothing but reaping leaves a wait behind. -/
theorem InOrder.orphaned_beat (h : InOrder m) {b : Beat} (hb : b ≠ .reap)
    (ho : (m.beat b).Orphaned t x) : m.Orphaned t x := by
  cases b with
  | spawn u owner => exact ⟨ho.1, script?_eq_none_of_insert rfl ho.2⟩
  | step id => exact h.orphaned_step ho
  | deliver n =>
    obtain ⟨hx, hnone⟩ := ho
    have hscripts : ∀ j, (m.deliver n).script? j = none → m.script? j = none :=
      wakeEach_keeps (P := fun m' => ∀ j, m'.script? j = none → m.script? j = none)
        (fun _ _ _ _ _ hP j hj => hP j (script?_eq_none_of_insert rfl hj)) _ 0 _ fun _ hj => hj
    have hwaits : (m.deliver n).waits = (m.waits.deliver n).2 := (wakeEach_waits _ 0 _).1
    rw [Machine.beat, hwaits] at hx
    exact ⟨((h.indexed.get?_deliver n t x).1 hx).1, hscripts _ hnone⟩
  | reap => exact absurd rfl hb
  | unload id =>
    obtain ⟨hx, hnone⟩ := ho
    rw [Machine.beat, wait?_unload h.indexed, Option.filter_eq_some_iff, decide_eq_true_iff] at hx
    rw [Machine.beat, script?_unload, if_neg hx.2.symm] at hnone
    exact ⟨hx.1, hnone⟩
  | shutdown =>
    obtain ⟨-, hpending, -⟩ := h.indexed.releaseAll
    obtain ⟨hx, -⟩ := ho
    simp [Machine.beat, Machine.shutdown, Waits.wait?, hpending] at hx
  | world w => exact ho

theorem InOrder.orphaned_play {bs : List Beat} (hbs : ∀ b ∈ bs, b ≠ .reap) (h : InOrder m)
    (ho : (m.play bs).Orphaned t x) : m.Orphaned t x := by
  induction bs generalizing m with
  | nil => exact ho
  | cons b bs ih =>
    rw [List.forall_mem_cons] at hbs
    exact h.orphaned_beat hbs.1 (ih hbs.2 (h.beat b) ho)

theorem orphaned_reap {s : Script} (hx : m.waits.wait? t = some x)
    (hs : m.script? x.script = some s) (hfinished : s.state.isFinished = true) :
    m.reap.2.Orphaned t x := by
  refine ⟨hx, ?_⟩
  rw [script?_reap, hs]
  simp [Option.filter, hfinished]

/-- A wait is left behind in a move only where its finished script is reaped. -/
theorem InOrder.orphaned_move {host : Host} (h : InOrder m) (hm : Move host m m')
    (ho : m'.Orphaned t x) :
    m.Orphaned t x ∨ m' = m.reap.2 ∧ m.waits.wait? t = some x ∧
      ∃ s, m.script? x.script = some s ∧ s.state.isFinished = true := by
  cases hm with
  | operate op =>
    by_cases hop : op = .reap
    case pos =>
      subst hop
      obtain ⟨hx, hnone⟩ := ho
      cases hs : m.script? x.script with
      | none => exact .inl ⟨hx, hs⟩
      | some s =>
        rw [operate, script?_reap, hs] at hnone
        exact .inr ⟨rfl, hx, s, rfl, by simpa [Option.filter] using hnone⟩
    case neg =>
      obtain ⟨bs, hbs, he⟩ := m.operate_eq_play_of_ne_reap hop
      exact .inl (h.orphaned_play hbs (he ▸ ho))
  | world w => exact .inl ho
  | script id s u hs => exact .inl ⟨ho.1, script?_eq_none_of_insert rfl ho.2⟩

/-- A wait whose script is not loaded comes of reaping a finished script that still had it.
Unloading never leaves one. -/
theorem orphans_come_of_reaping {host : Host}
    (hhost : ∀ s t, host.script s t → ∃ c, t = s.call c) :
    (∀ m t x, Reachable host m → m.Orphaned t x →
        ∃ m₁ s, Reachable host m₁ ∧ m₁.waits.wait? t = some x ∧
          m₁.script? x.script = some s ∧ s.state.isFinished = true ∧
            Relation.ReflTransGen (Move host) m₁.reap.2 m) ∧
      (∀ (m : Machine) t x s, m.waits.wait? t = some x → m.script? x.script = some s →
        s.state.isFinished = true → m.reap.2.Orphaned t x ∧ m.reap.2.world = m.world) ∧
      ∀ m id t x, Reachable host m → (m.unload id).2.waits.wait? t = some x → x.script ≠ id := by
  refine ⟨?_, fun m t x s hx hs hfinished => ⟨orphaned_reap hx hs hfinished, rfl⟩, ?_⟩
  · rintro m t x ⟨worldSettings, specs, settings, seed, hrun⟩ ho
    induction hrun with
    | refl => exact absurd ho.1 (by simp [start, Waits.wait?])
    | tail hrun hm ih =>
      have hreachable : Reachable host _ := ⟨worldSettings, specs, settings, seed, hrun⟩
      obtain ho | ⟨rfl, hx, s, hs, hfinished⟩ :=
        (Reachable.inOrder hhost hreachable).orphaned_move hm ho
      · obtain ⟨m₁, s, hm₁, hx, hs, hfinished, hlater⟩ := ih ho
        exact ⟨m₁, s, hm₁, hx, hs, hfinished, hlater.tail hm⟩
      · exact ⟨_, s, hreachable, hx, hs, hfinished, .refl⟩
  · intro m id t x h hx
    rw [wait?_unload (h.inOrder hhost).indexed, Option.filter_eq_some_iff, decide_eq_true_iff] at hx
    exact hx.2

def asleep : Machine :=
  ((start (World.start {} []) {} 0).spawn (nap Binary32.one) none).2.run ⟨1⟩

def halted : Machine :=
  match asleep.script? ⟨1⟩ with
  | some s => { asleep with scripts := asleep.scripts.insert ⟨1⟩ s.stop }
  | none => asleep

theorem reachable_asleep (host : Host) : Reachable host asleep :=
  ((reachable_start host {} [] {} 0).operate (.spawn (nap Binary32.one) none)).operate (.run ⟨1⟩)

theorem reachable_halted : Reachable .lifecycle halted := by
  unfold halted
  split
  case h_1 s hs =>
    exact (reachable_asleep _).move (.script _ ⟨1⟩ s s.stop hs ⟨.stop, trivial, rfl⟩)
  case h_2 => exact reachable_asleep _

/-- The wait is still pending when the script is gone, and its alarm is still set. -/
theorem reaping_leaves_a_wait :
    ¬∀ m, Reachable .lifecycle m → ∀ t x, m.waits.wait? t = some x →
      (m.script? x.script).isSome = true := by
  intro h
  have hreaped := h _ (reachable_halted.operate .reap) ⟨1⟩ ⟨⟨1⟩, ⟨⟨1⟩, 1⟩, .alarm, none, false⟩
    (by decide)
  exact absurd hreaped (by decide)

theorem orphans_come_of_reaping_halted :
    (∀ s t, Host.lifecycle.script s t → ∃ c, t = s.call c) ∧
      (∃ s, halted.script? ⟨1⟩ = some s ∧ s.state.isFinished = true) ∧
      halted.reap.2.Orphaned ⟨1⟩ ⟨⟨1⟩, ⟨⟨1⟩, 1⟩, .alarm, none, false⟩ ∧
      ⟨1⟩ ∈ halted.reap.2.world.alarms.keys ∧
      ∃ m₁ s, Reachable .lifecycle m₁ ∧ m₁.script? ⟨1⟩ = some s ∧ s.state.isFinished = true ∧
        Relation.ReflTransGen (Move .lifecycle) m₁.reap.2 halted.reap.2 := by
  have hhost : ∀ s t, Host.lifecycle.script s t → ∃ c, t = s.call c :=
    fun _ _ ⟨c, _, ht⟩ => ⟨c, ht⟩
  obtain ⟨s, hs⟩ : ∃ s, halted.script? ⟨1⟩ = some s := ⟨_, rfl⟩
  have hfinished : s.state.isFinished = true := by
    obtain rfl := Option.some.inj hs
    rfl
  have hx : halted.waits.wait? ⟨1⟩ = some ⟨⟨1⟩, ⟨⟨1⟩, 1⟩, .alarm, none, false⟩ := by decide
  obtain ⟨horphan, hworld⟩ := (orphans_come_of_reaping hhost).2.1 halted _ _ s hx hs hfinished
  obtain ⟨m₁, s₁, hm₁, -, hs₁, hfinished₁, hlater⟩ :=
    (orphans_come_of_reaping hhost).1 _ _ _ (reachable_halted.operate .reap) horphan
  exact ⟨hhost, ⟨s, hs, hfinished⟩, horphan, by rw [hworld]; decide, m₁, s₁, hm₁, hs₁, hfinished₁,
    hlater⟩

end Machine

end WorldScript
