import WorldScript.Proofs.Machine.Agreement
import WorldScript.Proofs.World.CarriersInTime

/-!
No wakeup is lost. As long as the host leaves tokens and notices to the scripts, every pending wait
has something in the world that will end it or has ended it unnoticed, and every alarm of the
world is waited for.

Main statement: `keep_kept`.
-/
set_option autoImplicit false

namespace WorldScript

/-- A host that leaves tokens, notices and scripts alone. -/
def Host.plain : Host where
  world w w' := ∃ c : World.Call, c.IsPlain ∧ w' = w.call c

/-- The waits and the world agree on the tokens in use. An alarm is set as long as its wait is
pending and no longer, for no destruction ends the wait for one. -/
structure Kept (ws : Waits) (w : World) : Prop where
  indexed : ws.Indexed
  carried : ∀ t x, ws.wait? t = some x → w.Carries t x
  alarms : ∀ t ∈ w.alarms.keys, .alarmFired t ∉ w.notices ∧
    ∃ x, ws.wait? t = some x ∧ x.kind = .alarm ∧ x.watched = none
  windows : ∀ t ∈ w.windowTokens, t.index ≤ ws.lastToken
  fired : ∀ t, .alarmFired t ∈ w.notices → t.index ≤ ws.lastToken

section

variable {ws ws' : Waits} {w w' : World} {t : Token} {x : Wait}

theorem Kept.alarm_le (h : Kept ws w) (ht : t ∈ w.alarms.keys) : t.index ≤ ws.lastToken := by
  obtain ⟨-, x, hx, -⟩ := h.alarms t ht
  exact h.indexed.issued t (OrderedMap.mem_keys_iff.2 ⟨x, hx⟩)

theorem Kept.keeps (h : Kept ws w) (k : World.Keeps w w') : Kept ws w' where
  indexed := h.indexed
  carried t x hx := k.carries (by simp) (h.carried t x hx)
  alarms t ht := by
    obtain ⟨ht, hfired⟩ := k.alarms t (by simp) ht
    obtain ⟨hnot, hwait⟩ := h.alarms t ht
    exact ⟨fun hn => hnot (hfired hn), hwait⟩
  windows t ht := h.windows t (k.windows t (by simp) ht)
  fired t ht := (k.fired t ht).elim (h.fired t) h.alarm_le

theorem Kept.start (h : Kept ws w) {site : Site} {task : Task}
    (hr : ws.register site task.kind task.watched task.pushesResult = .ok (t, ws')) :
    Kept ws' (task.start w t) := by
  obtain ⟨ht, hlast, -, hpending, hindexed⟩ := h.indexed.register hr
  have k := w.keeps_start task t
  have hget : ∀ u, ws'.wait? u =
      if t = u then some ⟨site.script, site, task.kind, task.watched, task.pushesResult⟩
      else ws.wait? u := by
    intro u
    rw [Waits.wait?, hpending, OrderedMap.get?_insert, Waits.wait?]
  -- the new token is later than all that the world has had, so no alarm has fired under it
  have hfired : ∀ u, .alarmFired u ∈ (task.start w t).notices → u.index ≤ ws.lastToken :=
    fun u hu => (k.fired u hu).elim (h.fired u) h.alarm_le
  refine ⟨hindexed, ?_, ?_, ?_, ?_⟩
  · intro u x hx
    rw [hget] at hx
    by_cases hu : t = u
    · subst hu
      simp only [if_true, Option.some.injEq] at hx
      rw [← hx]
      apply World.carries_start
      intro hm
      have := h.windows t hm
      omega
    · simp only [hu, if_false] at hx
      exact k.carries (by simpa using hu) (h.carried u x hx)
  · intro u hu
    rw [hget]
    by_cases he : t = u
    · subst he
      have hnew : ¬t.index ≤ ws.lastToken := by omega
      rcases World.mem_alarms_start hu with hk | hm
      · exact ⟨fun hn => hnew (hfired t hn), _, if_pos rfl, hk⟩
      · exact absurd (h.alarm_le hm) hnew
    · obtain ⟨hm, hf⟩ := k.alarms u (by simpa using he) hu
      obtain ⟨hnot, x, hx⟩ := h.alarms u hm
      exact ⟨fun hn => hnot (hf hn), x, by rw [if_neg he]; exact hx⟩
  · intro u hu
    by_cases he : t = u
    · subst he
      omega
    · have := h.windows u (k.windows u (by simpa using he) hu)
      omega
  · intro u hu
    have := hfired u hu
    omega

theorem Kept.withdraw (h : Kept ws w) (hx : ws.wait? t = some x) :
    Kept (ws.without t x) (Machine.withdraw w t x.kind) := by
  have k := w.keeps_withdraw t x.kind
  refine ⟨h.indexed.without hx, ?_, ?_, ?_, ?_⟩
  · intro u y hy
    rw [Waits.wait?_without, Option.ite_none_left_eq_some] at hy
    exact k.carries (by simpa using hy.1) (h.carried u y hy.2)
  · intro u hu
    have hne : t ≠ u := by
      rintro rfl
      cases hkind : x.kind with
      | alarm =>
        rw [hkind] at hu
        simp [Machine.withdraw, World.cancelAlarm, OrderedMap.keys_erase] at hu
      | command | window =>
        rw [hkind] at hu
        obtain ⟨-, y, hy, hk, -⟩ := h.alarms t hu
        obtain rfl := Option.some.inj (hx.symm.trans hy)
        rw [hkind] at hk
        cases hk
    obtain ⟨hm, hf⟩ := k.alarms u (by simpa using hne) hu
    obtain ⟨hnot, y, hy⟩ := h.alarms u hm
    exact ⟨fun hn => hnot (hf hn), y, by rw [Waits.wait?_without, if_neg hne]; exact hy⟩
  · intro u hu
    exact h.windows u (World.mem_windowTokens_withdraw hu)
  · intro u hu
    exact (k.fired u hu).elim (h.fired u) h.alarm_le

/-! ### Notices -/

/-- A wait that the first notice does not end has its carrier elsewhere. -/
theorem carries_rest {n : Notice} {rest : List Notice} (hn : w.notices = n :: rest)
    (hk : n.wakeup? t x = none) (h : w.Carries t x) :
    ({ w with notices := rest } : World).Carries t x := by
  have hrest : ∀ n' ∈ w.notices, n'.wakeup? t x ≠ none → n' ∈ rest := by
    intro n' hn' hk'
    rw [hn] at hn'
    rcases List.mem_cons.1 hn' with rfl | hn'
    · exact absurd hk hk'
    · exact hn'
  unfold World.Carries at h ⊢
  cases hx : x.kind with
  | alarm =>
    simp only [hx] at h ⊢
    rcases h with h | h
    · exact .inl h
    · exact .inr (hrest _ h (by simp [Notice.wakeup?, hx]))
  | command =>
    simp only [hx] at h ⊢
    obtain ⟨g, hg, h | ⟨result, h⟩ | ⟨reason, h⟩ | h⟩ := h
    · exact ⟨g, hg, .inl h⟩
    · exact ⟨g, hg, .inr (.inl ⟨result, hrest _ h (by simp [Notice.wakeup?, hx])⟩)⟩
    · exact ⟨g, hg, .inr (.inr (.inl ⟨reason, hrest _ h (by simp [Notice.wakeup?, hx])⟩))⟩
    · exact ⟨g, hg, .inr (.inr (.inr (hrest _ h (by simp [Notice.wakeup?, hg]))))⟩
  | window =>
    simp only [hx] at h ⊢
    rcases h with h | ⟨result, h⟩
    · exact .inl h
    · exact .inr ⟨result, hrest _ h (by simp [Notice.wakeup?, hx])⟩

theorem Kept.deliver {n : Notice} {rest : List Notice} (h : Kept ws w)
    (hn : w.notices = n :: rest) : Kept (ws.deliver n).2 { w with notices := rest } := by
  obtain ⟨-, -, hlast, hindexed⟩ := h.indexed.deliver n
  have hget : ∀ t x, (ws.deliver n).2.wait? t = some x ↔
      ws.wait? t = some x ∧ n.wakeup? t x = none := h.indexed.get?_deliver n
  have hrest : ∀ n' ∈ rest, n' ∈ w.notices := by
    intro n' hn'
    rw [hn]
    exact List.mem_cons_of_mem n hn'
  refine ⟨hindexed, ?_, ?_, ?_, ?_⟩
  · intro t x hx
    obtain ⟨hx, hk⟩ := (hget t x).1 hx
    exact carries_rest hn hk (h.carried t x hx)
  · intro t ht
    obtain ⟨hnot, x, hx, hkind, hwatched⟩ := h.alarms t ht
    refine ⟨fun hm => hnot (hrest _ hm), x, (hget t x).2 ⟨hx, ?_⟩, hkind, hwatched⟩
    cases n with
    | alarmFired u =>
      have hne : ¬u = t := by
        rintro rfl
        exact hnot (by simp [hn])
      simp [Notice.wakeup?, hne]
    | commandFinished | windowClosed | commandDisqualified => simp [Notice.wakeup?, hkind]
    | entityDestroyed => simp [Notice.wakeup?, hwatched]
    | worldPaused => rfl
  · intro t ht
    rw [hlast]
    exact h.windows t ht
  · intro t ht
    rw [hlast]
    exact h.fired t (hrest _ ht)

end

namespace Machine

variable {m m' : Machine}

theorem wakeEach_waits (ks : List Wakeup) (woken : Nat) (m : Machine) :
    (wakeEach ks woken m).2.waits = m.waits ∧ (wakeEach ks woken m).2.world = m.world := by
  exact wakeEach_keeps (P := fun m' => m'.waits = m.waits ∧ m'.world = m.world)
    (fun _ _ _ _ _ h => h) ks woken m ⟨rfl, rfl⟩

theorem kept_deliverEach (notices : List Notice) (woken : Nat) (m : Machine)
    (hm : m.world.notices = []) (h : Kept m.waits { m.world with notices := notices }) :
    Kept (deliverEach notices woken m).2.waits (deliverEach notices woken m).2.world := by
  induction notices generalizing woken m with
  | nil =>
    rw [← hm] at h
    exact h
  | cons n notices ih =>
    have hdeliver := h.deliver (n := n) rfl
    simp only [deliverEach]
    have hsame := wakeEach_waits (m.waits.deliver n).1 woken
      { m with waits := (m.waits.deliver n).2 }
    generalize wakeEach (m.waits.deliver n).1 woken { m with waits := (m.waits.deliver n).2 } = r
      at hsame
    obtain ⟨woken', m'⟩ := r
    obtain ⟨hwaits, hworld⟩ := hsame
    simp only at hwaits hworld
    refine ih woken' m' (hworld ▸ hm) ?_
    rw [hwaits, hworld]
    exact hdeliver

theorem kept_releaseEach (tokens : List Token) {ws : Waits} {w : World} (h : Kept ws w) :
    Kept (Waits.releaseEach tokens ws).2
      ((Waits.releaseEach tokens ws).1.foldl (fun w e => withdraw w e.1 e.2.kind) w) := by
  induction tokens generalizing ws w with
  | nil => exact h
  | cons t tokens ih =>
    unfold Waits.releaseEach
    cases hx : ws.pending.get? t with
    | none => simpa [Waits.release?, hx] using ih h
    | some x => simpa [Waits.release?_of_get? hx] using ih (h.withdraw hx)

theorem kept_step (id : ScriptId) (h : Kept m.waits m.world) :
    Kept (m.step id).2.waits (m.step id).2.world := by
  cases m.effect_step id with
  | kept waits world =>
    rw [waits, world]
    exact h
  | changed c waits world =>
    rw [waits, world]
    exact h.keeps (World.keeps_change m.world c)
  | issued r waits world =>
    rw [waits, world]
    exact h.keeps (World.keeps_issue m.world r none)
  | awaited site task t waits world =>
    rw [world]
    exact h.start waits

theorem keep_kept : Keep fun m => Kept m.waits m.world where
  spawn _ _ _ h := h
  step _ id h := kept_step id h
  pump m h := kept_deliverEach m.world.notices 0 _ rfl h
  reap _ h := h
  unload m id h := by
    obtain ⟨-, hwaits, hworld⟩ | ⟨t, x, hx, -, hwaits, hworld⟩ := unload_cases h.indexed id
    · rw [hwaits, hworld]
      exact h
    · rw [hwaits, hworld]
      exact h.withdraw hx
  shutdown m h := kept_releaseEach m.waits.pending.keys h

theorem kept_start (worldSettings : WorldSettings) (specs : List EntitySpec)
    (settings : MachineSettings) (seed : UInt64) :
    Kept (start (World.start worldSettings specs) settings seed).waits
      (start (World.start worldSettings specs) settings seed).world := by
  refine ⟨Waits.indexed_empty, ?_, ?_, ?_, ?_⟩
  · simp [start, Waits.wait?]
  · simp [start, World.start]
  · simp [start, World.start, World.windowTokens]
  · simp [start, World.start]

/-- In a run whose host leaves tokens, notices and scripts alone, every pending wait has something
in the world that will end it, or a notice that does. -/
theorem no_wakeup_is_lost (h : Reachable .plain m) :
    (∀ t x, m.waits.wait? t = some x → m.world.Carries t x) ∧
      ∀ t ∈ m.world.alarms.keys, ∃ x, m.waits.wait? t = some x ∧ x.kind = .alarm := by
  have hkept : Kept m.waits m.world := by
    refine keep_kept.reachable kept_start ?_ ?_ h
    · rintro m w ⟨c, hc, rfl⟩ hm
      exact hm.keeps (World.keeps_call m.world hc)
    · rintro m id s t - ht -
      exact False.elim ht
  refine ⟨hkept.carried, ?_⟩
  intro t ht
  obtain ⟨-, x, hx, hkind, -⟩ := hkept.alarms t ht
  exact ⟨x, hx, hkind⟩

theorem no_wakeup_is_lost_overdue :
    Reachable .plain overdue ∧
      (overdue.waits.wait? ⟨1⟩ = some ⟨⟨1⟩, ⟨⟨1⟩, 1⟩, .alarm, none, false⟩ ∧
        overdue.world.Carries ⟨1⟩ ⟨⟨1⟩, ⟨⟨1⟩, 1⟩, .alarm, none, false⟩) ∧
      ⟨2⟩ ∈ overdue.world.alarms.keys ∧
      ∃ x, overdue.waits.wait? ⟨2⟩ = some x ∧ x.kind = .alarm := by
  have hreachable : Reachable .plain overdue :=
    reachable_overdue fun _ => ⟨.advance Binary32.one, trivial, rfl⟩
  obtain ⟨hcarried, halarms⟩ := no_wakeup_is_lost hreachable
  have hfirst : overdue.waits.wait? ⟨1⟩ = some ⟨⟨1⟩, ⟨⟨1⟩, 1⟩, .alarm, none, false⟩ := by decide
  have hsecond : ⟨2⟩ ∈ overdue.world.alarms.keys := by decide
  exact ⟨hreachable, ⟨hfirst, hcarried _ _ hfirst⟩, hsecond, halarms _ hsecond⟩

end Machine

end WorldScript
