import WorldScript.Proofs.Execution.Outcomes
import WorldScript.Proofs.Machine.Destruction

/-!
What a delivery does to a script that waits. The first notice that ends its wait decides, and if it
brings an answer, then there is room for the answer, because the question has been taken off the
stack.

Main statements: `Reachable.roomy`, `Suspended.woken_pump` and `Agrees.wake_deliver`.
-/
set_option autoImplicit false

namespace WorldScript

/-! ### Wakeups with room -/

/-- With room for its value a wakeup does what it says: the script runs, with the value on its stack,
or it is given up because its command was. Nothing else of it changes. -/
theorem Script.woken_of_wakeup? {s : Script} {n : Notice} {t : Token} {x : Wait} {k : Wakeup}
    (hs : s.state = .paused) (hroom : x.pushesResult = true → s.stack.length < s.maxStackDepth)
    (hk : n.wakeup? t x = some k) :
    (∃ value, k = .resume x.script value ∧ (value ≠ none → s.stack.length < s.maxStackDepth) ∧
        s.woken k = { s with state := .running, stack := value.toList ++ s.stack }) ∨
      ∃ reason, k = .interrupt x.script (.disqualified reason) ∧
        s.woken k = { s with state := .interrupted (.disqualified reason) } := by
  cases n with
  | alarmFired u | commandFinished u result | windowClosed u result =>
    simp only [Notice.wakeup?, Option.ite_none_right_eq_some, Option.some.injEq] at hk
    obtain ⟨-, -, rfl⟩ := hk
    left
    rw [woken_resumption hroom]
    cases hpush : x.pushesResult with
    | true => exact ⟨_, rfl, fun _ => hroom hpush, by simp [hpush]⟩
    | false => exact ⟨_, rfl, by simp [hpush], by simp [hpush]⟩
  | commandDisqualified u reason =>
    simp only [Notice.wakeup?, Option.ite_none_right_eq_some, Option.some.injEq] at hk
    obtain ⟨-, -, rfl⟩ := hk
    exact .inr ⟨reason, rfl, by simp [woken, interrupt, hs, ScriptState.isFinished]⟩
  | entityDestroyed h =>
    simp only [Notice.wakeup?, Option.ite_none_right_eq_some, Option.some.injEq] at hk
    obtain ⟨-, rfl⟩ := hk
    exact .inl ⟨none, rfl, by simp, rfl⟩
  | worldPaused paused => cases hk

/-! ### Room for an answer -/

namespace Machine

variable {m : Machine} {id : ScriptId} {t : Token} {x : Wait} {s : Script} {b : Beat}

/-- A script that waits for an answer has room for it on its stack. -/
def Room (m : Machine) : Prop :=
  ∀ t x s, m.waits.wait? t = some x → m.script? x.script = some s → x.pushesResult = true →
    s.stack.length < s.maxStackDepth

theorem Agrees.registered (h : Agrees m) (hold : m.waits.wait? t ≠ some x)
    (hx : (m.beat b).waits.wait? t = some x) :
    b = .step x.script ∧ (m.step x.script).1 = some .paused := by
  have hafter := h.beat b
  obtain ⟨s, -, hs, -⟩ := hafter.owned t x hx
  have hpaused : s.state = .paused := hafter.paused_of_wait hx hs
  obtain ⟨-, u, owner, -, rfl⟩ | ⟨s₀, hs₀, hcomes⟩ := h.comes_beat b hs
  · cases hpaused
  cases hcomes with
  | kept he =>
    -- if the script was paused before, then with a wait, which would still be the one it has
    subst he
    obtain hpending | hdue := (h.paused x.script s hs₀).1 hpaused
    · obtain ⟨u, hu⟩ := Option.isSome_iff_exists.1 hpending
      obtain ⟨y, hy, hname⟩ := (h.indexed.byScript x.script u).1 hu
      have hsuspended : Suspended x.script u y s m := ⟨h, hs₀, hy, hname⟩
      obtain hstays | ⟨-, hends⟩ := hsuspended.beat b
      · obtain rfl := hafter.indexed.byScript.injective hstays.wait hx hname
        obtain rfl := Option.some.inj (hstays.wait.symm.trans hx)
        exact absurd hy hold
      · cases hends with
        | removed _ hnone =>
          rw [hnone] at hs
          cases hs
        | woken n k _ _ hwoken =>
          have hsame : s = s.woken k := Option.some.inj (hs.symm.trans hwoken)
          have hstate := (Script.stays_woken hpaused k).2
          rw [← hsame] at hstate
          exact absurd hpaused hstate
    · simp at hdue
  | woken k hbefore he =>
    subst he
    exact absurd hpaused (Script.stays_woken hbefore k).2
  | finished _ hrunning _ he =>
    have hstop := Script.state_stop (s := s₀) (by simp [hrunning, ScriptState.isFinished])
    rw [he, hstop] at hpaused
    cases hpaused
  | executed i s₁ outcome scene hb hrunning hf hsettle hstep he =>
    have hstate₁ : s₁.state = .running := (Script.fetch?_eq_some hf).2.2.2.1.trans hrunning
    obtain rfl := Scene.outcome_of_paused hstate₁ hsettle (he ▸ hpaused)
    exact ⟨hb, hstep⟩

theorem Room.beat (hroom : Room m) (h : Agrees m)
    (hlimits : Scripts (fun settings s => s.WithinLimits settings) m) (b : Beat) :
    Room (m.beat b) := by
  intro t x s hx hs hpush
  by_cases hold : m.waits.wait? t = some x
  case pos =>
    obtain ⟨s₀, -, hs₀, -⟩ := h.owned t x hold
    have hsuspended : Suspended x.script t x s₀ m := ⟨h, hs₀, hold, rfl⟩
    obtain hstays | ⟨hgone, -⟩ := hsuspended.beat b
    · obtain rfl := Option.some.inj (hstays.script.symm.trans hs)
      exact hroom t x s₀ hold hs₀ hpush
    · rw [hgone] at hx
      cases hx
  case neg =>
    obtain ⟨rfl, hstep⟩ := h.registered hold hx
    obtain ⟨s₀, hs₀, -⟩ : ∃ s₀, m.script? x.script = some s₀ ∧ s₀.state = .running := by
      obtain he | ⟨s₀, hs₀, hrunning, -⟩ := m.step_outcome_cases x.script
      · rw [he] at hstep
        cases hstep
      · exact ⟨s₀, hs₀, hrunning⟩
    have hstack : s₀.stack.length ≤ s₀.maxStackDepth := by
      obtain ⟨-, hlimits⟩ := hlimits _ _ hs₀
      rw [hlimits.stackLimit]
      exact hlimits.stack
    obtain ⟨-, u, y, s₁, -, -, -, -, -, hfits, hsuspended⟩ := h.suspended hs₀ hstack hstep
    obtain rfl := hsuspended.agrees.indexed.byScript.injective hsuspended.wait hx hsuspended.owner
    obtain rfl := Option.some.inj (hsuspended.wait.symm.trans hx)
    obtain rfl := Option.some.inj (hsuspended.script.symm.trans hs)
    exact hfits hpush

theorem Scripts.beat {P : MachineSettings → Script → Prop}
    (hcall : ∀ settings s c, P settings s → P settings (s.call c))
    (hstart : ∀ id u owner settings, P settings (Script.start id u owner settings))
    (h : Scripts P m) (b : Beat) : Scripts P (m.beat b) := by
  have hkeep := keep_scripts hcall hstart
  cases b with
  | spawn u owner => exact hkeep.spawn m u owner h
  | step id => exact hkeep.step m id h
  | deliver n => exact Scripts.wakeEach hcall _ 0 { m with waits := (m.waits.deliver n).2 } h
  | reap => exact hkeep.reap m h
  | unload id => exact hkeep.unload m id h
  | shutdown => exact hkeep.shutdown m h
  | world w => exact h

structure Roomy (m : Machine) : Prop where
  agrees : Agrees m
  limits : Scripts (fun settings s => s.WithinLimits settings) m
  room : Room m

theorem Roomy.beat (h : Roomy m) (b : Beat) : Roomy (m.beat b) where
  agrees := h.agrees.beat b
  limits := h.limits.beat (fun _ _ c hs => hs.call c)
    (fun _ _ _ _ => Script.withinLimits_start _ _ _ _) b
  room := h.room.beat h.agrees h.limits b

theorem Roomy.play (h : Roomy m) (bs : List Beat) : Roomy (m.play bs) := by
  induction bs generalizing m with
  | nil => exact h
  | cons b bs ih => exact ih (h.beat b)

theorem Reachable.roomy {host : Host} (hscript : ∀ s t, ¬host.script s t) (h : Reachable host m) :
    Roomy m := by
  refine Reachable.keeps hscript ?_ (fun _ b _ hm => hm.beat b) h
  intro worldSettings specs settings seed
  exact ⟨agrees_start _ _ _, by simp [Scripts, start, script?], by simp [Room, start, Waits.wait?]⟩

/-! ### Deliveries -/

/-- If the first notices leave a wait alone and the next one ends it, then that one wakes its script,
and the wait is over. -/
theorem Suspended.woken_pump (h : Suspended id t x s m) {earlier later : List Notice} {n : Notice}
    {k : Wakeup} (hnotices : m.world.notices = earlier ++ n :: later)
    (hearlier : ∀ n ∈ earlier, n.wakeup? t x = none) (hn : n.wakeup? t x = some k) :
    m.pump.2.script? id = some (s.woken k) ∧ m.pump.2.waits.wait? t = none := by
  constructor
  · have hdrained : Suspended id t x s { m with world := m.world.drain.2 } :=
      ⟨h.agrees.withWorld _, h.script, h.wait, h.owner⟩
    rw [pump_eq_play, hnotices]
    clear hnotices
    change (Machine.play { m with world := m.world.drain.2 }
      ((earlier ++ n :: later).map .deliver)).script? id = some (s.woken k)
    generalize ({ m with world := m.world.drain.2 } : Machine) = m₀ at hdrained
    induction earlier generalizing m₀ with
    | nil => exact hdrained.woken_first hn later
    | cons a earlier ih =>
      rw [List.forall_mem_cons] at hearlier
      exact ih hearlier.2 _ (hdrained.deliver hearlier.1)
  · rw [Option.eq_none_iff_forall_ne_some]
    intro y hy
    obtain ⟨hy, hnone⟩ := (h.agrees.wait?_pump t y).1 hy
    obtain rfl := Option.some.inj (h.wait.symm.trans hy)
    rw [hnone n (by simp [hnotices])] at hn
    cases hn

theorem Suspended.stays_pump (h : Suspended id t x s m)
    (hnone : ∀ n ∈ m.world.notices, n.wakeup? t x = none) : Suspended id t x s m.pump.2 := by
  have hdrained : Suspended id t x s { m with world := m.world.drain.2 } :=
    ⟨h.agrees.withWorld _, h.script, h.wait, h.owner⟩
  rw [pump_eq_play]
  refine hdrained.play ?_
  have hagrees := hdrained.agrees.play (m.world.notices.map .deliver)
  rw [← h.owner]
  exact hagrees.indexed.pendingFor?_script
    ((hdrained.agrees.wait?_delivers m.world.notices t x).2 ⟨h.wait, hnone⟩)

/-! ### Wakeups one after the other -/

/-- When its turn comes, the script that a wakeup is for is still paused as it was before the notice.
So the wakeup reaches it. -/
theorem Agrees.wake_deliver (h : Agrees m) {n : Notice} {before after : List Wakeup} {k : Wakeup}
    (hks : (m.waits.deliver n).1 = before ++ k :: after) {m₂ : Machine}
    (hm₂ : m₂ = (wakeEach before 0 { m with waits := (m.waits.deliver n).2 }).2) :
    ∃ t x s, m.waits.wait? t = some x ∧ n.wakeup? t x = some k ∧ m.script? k.script = some s ∧
      m₂.script? k.script = some s ∧ s.state = .paused ∧
      m₂.wake k = some (m₂.withScript (s.woken k)) := by
  subst hm₂
  have hdue := h.deliver n
  rw [hks] at hdue
  obtain ⟨s, hs, hpaused, -, hwake, -⟩ := (hdue.wakeFirst 0).wake
  have hnot : k.script ∉ before.map Wakeup.script := by
    have hnodup := hdue.nodup
    rw [List.map_append, List.map_cons] at hnodup
    exact fun hmem => List.disjoint_of_nodup_append hnodup hmem (List.mem_cons_self ..)
  obtain ⟨⟨t, x⟩, hx, hk⟩ : ∃ e ∈ m.waits.pending.entries, n.wakeup? e.1 e.2 = some k := by
    rw [← List.mem_filterMap, ← (h.indexed.deliver n).1, hks]
    simp
  exact ⟨t, x, s, OrderedMap.get?_eq_some_iff.2 hx, hk,
    (hdue.isNamed.script?_wakeEach 0 hnot).symm.trans hs, hs, hpaused, hwake⟩

theorem Roomy.not_overflown (h : Roomy m) (ns : List Notice) {limit : Nat}
    (hs : (m.play (ns.map .deliver)).script? id = some s)
    (hstate : s.state = .interrupted (.stackOverflow limit)) : m.script? id = some s := by
  induction ns generalizing m with
  | nil => exact hs
  | cons n ns ih =>
    have hfirst : (m.deliver n).script? id = some s := ih (h.beat (.deliver n)) hs
    by_cases hends : ∃ t x k, m.waits.wait? t = some x ∧ x.script = id ∧ n.wakeup? t x = some k
    case pos =>
      obtain ⟨t, x, k, hx, rfl, hk⟩ := hends
      obtain ⟨s₀, -, hs₀, -⟩ := h.agrees.owned t x hx
      rw [h.agrees.script?_deliver_of_wakeup? hx hk hs₀] at hfirst
      obtain rfl := Option.some.inj hfirst
      obtain ⟨value, -, -, he⟩ | ⟨reason, -, he⟩ :=
        Script.woken_of_wakeup? (h.agrees.paused_of_wait hx hs₀) (h.room t x s₀ hx hs₀) hk
      · rw [he] at hstate
        cases hstate
      · rw [he] at hstate
        cases hstate
    case neg =>
      rw [← hfirst]
      refine (h.agrees.script?_deliver n fun t x hx hid => ?_).symm
      rw [Option.eq_none_iff_forall_ne_some]
      exact fun k hk => hends ⟨t, x, k, hx, hid, hk⟩

/-- A script that waits for a result is below the limit of its stack, so that every wakeup finds
room for its value. -/
theorem results_have_room {host : Host} (hscript : ∀ s t, ¬host.script s t)
    (h : Reachable host m) :
    (∀ t x, m.waits.wait? t = some x → x.pushesResult = true →
      ∃ s, m.script? x.script = some s ∧ s.state = .paused ∧
        s.maxStackDepth = m.settings.maxStackDepth ∧
        s.stack.length < m.settings.maxStackDepth) ∧
    (∀ earlier n later m₁, m.world.notices = earlier ++ n :: later →
      m₁ = (deliverEach earlier 0 { m with world := m.world.drain.2 }).2 →
        ∀ before k after m₂, (m₁.waits.deliver n).1 = before ++ k :: after →
          m₂ = (wakeEach before 0 { m₁ with waits := (m₁.waits.deliver n).2 }).2 →
            ∃ s s', m₂.script? k.script = some s ∧ s.state = .paused ∧
              m₂.wake k = some (m₂.withScript s') ∧
              ((∃ value, k = .resume k.script value ∧
                  (value ≠ none → s.stack.length < s.maxStackDepth) ∧
                  s' = { s with state := .running, stack := value.toList ++ s.stack }) ∨
                ∃ reason, k = .interrupt k.script (.disqualified reason) ∧
                  s' = { s with state := .interrupted (.disqualified reason) })) ∧
    ∀ id s limit, m.pump.2.script? id = some s → s.state = .interrupted (.stackOverflow limit) →
      m.script? id = some s := by
  have hm := h.roomy hscript
  have hdrained : Roomy { m with world := m.world.drain.2 } := hm.beat (.world _)
  refine ⟨?_, ?_, ?_⟩
  · intro t x hx hpush
    obtain ⟨s, -, hs, -⟩ := hm.agrees.owned t x hx
    obtain ⟨-, hlimits⟩ := hm.limits _ s hs
    refine ⟨s, hs, hm.agrees.paused_of_wait hx hs, hlimits.stackLimit, ?_⟩
    rw [← hlimits.stackLimit]
    exact hm.room t x s hx hs hpush
  · rintro earlier n later m₁ - hm₁ before k after m₂ hks hm₂
    have h₁ : Roomy m₁ := by
      rw [hm₁, deliverEach_eq_play]
      exact hdrained.play _
    obtain ⟨t, x, s, hx, hk, hs, hs₂, hpaused, hwake⟩ := h₁.agrees.wake_deliver hks hm₂
    have hname : k.script = x.script := Notice.script_of_wakeup? hk
    rw [hname] at hs
    have hwoken := Script.woken_of_wakeup? hpaused (h₁.room t x s hx hs) hk
    rw [← hname] at hwoken
    exact ⟨s, s.woken k, hs₂, hpaused, hwake, hwoken⟩
  · intro id s limit hs hstate
    rw [pump_eq_play] at hs
    exact hdrained.not_overflown _ hs hstate

/-- A script whose stack has room for one value has asked, and was answered, which is unnoticed so
far. -/
def cramped : Machine :=
  let m := ((start (World.start {} []) { maxStackDepth := 1 } 0).spawn question none).2.tick.2
  { m with world := m.world.answerAll }

def crampedDue : Machine :=
  { cramped with
    world := cramped.world.drain.2
    waits := (cramped.waits.deliver (.windowClosed ⟨1⟩ (some (.number Binary32.one)))).2 }

theorem results_have_room_cramped :
    (∀ s t, ¬Host.worldOnly.script s t) ∧ Reachable .worldOnly cramped ∧
      (∃ s, cramped.script? ⟨1⟩ = some s ∧ s.state = .paused ∧ s.stack.length < 1) ∧
      (∃ s, crampedDue.script? ⟨1⟩ = some s ∧
        crampedDue.wake (.resume ⟨1⟩ (some (.number Binary32.one))) =
          some (crampedDue.withScript
            { s with state := .running, stack := .number Binary32.one :: s.stack })) ∧
      ∀ s, cramped.pump.2.script? ⟨1⟩ = some s → s.state ≠ .interrupted (.stackOverflow 1) := by
  have hscript : ∀ s t, ¬Host.worldOnly.script s t := fun _ _ h => h
  have hreachable : Reachable .worldOnly cramped :=
    (((reachable_start .worldOnly {} [] { maxStackDepth := 1 } 0).operate
      (.spawn question none)).operate .tick).move (.world _ _ trivial)
  obtain ⟨hwaits, hwakes, hpump⟩ := results_have_room hscript hreachable
  have hx : cramped.waits.wait? ⟨1⟩ = some ⟨⟨1⟩, ⟨⟨1⟩, 1⟩, .window, none, true⟩ := by decide
  obtain ⟨s, hs, hpaused, -, hroom⟩ := hwaits ⟨1⟩ _ hx rfl
  refine ⟨hscript, hreachable, ⟨s, hs, hpaused, hroom⟩, ?_, ?_⟩
  · have hnotices : cramped.world.notices =
        [] ++ .windowClosed ⟨1⟩ (some (.number Binary32.one)) :: [] := by decide
    have hdelivered :
        (cramped.waits.deliver (.windowClosed ⟨1⟩ (some (.number Binary32.one)))).1 =
          [] ++ .resume ⟨1⟩ (some (.number Binary32.one)) :: [] := by decide
    obtain ⟨s₂, s', hs₂, -, hwake, ⟨value, hvalue, -, rfl⟩ | ⟨reason, hreason, -⟩⟩ :=
      hwakes [] _ [] _ hnotices rfl [] _ [] crampedDue hdelivered rfl
    · cases hvalue
      exact ⟨s₂, hs₂, hwake⟩
    · cases hreason
  · intro s₁ hs₁ hstate
    obtain rfl := Option.some.inj (hs.symm.trans (hpump ⟨1⟩ s₁ 1 hs₁ hstate))
    rw [hpaused] at hstate
    cases hstate

end Machine

end WorldScript
