import WorldScript.Proofs.Machine.Beats
import WorldScript.Proofs.Machine.Wakeups
import WorldScript.Proofs.World.Withdrawals

/-!
Taking scripts out of a machine. A script goes with its wait and with all that this wait has asked
for; everything else stays as it was, and nothing is heard of the script again.

Main statements: `keep_issued`, `tornDown_operate` and `Agrees.gone_play`.
-/
set_option autoImplicit false

namespace WorldScript

/-- A host that gives no tokens of its own to the world, and leaves scripts alone. -/
def Host.tokenless : Host where
  world w w' := ∃ c : World.Call, c.passes = [] ∧ w' = w.call c

/-! ### Tokens of the registry -/

namespace Waits

def Lists (ws : Waits) (t : Token) : Prop :=
  t ∈ ws.pending.keys ∨ (∃ h tokens, ws.watchers.get? h = some tokens ∧ t ∈ tokens) ∨
    (∃ site, ws.bySite.get? site = some t) ∨ ∃ id, ws.byScript.get? id = some t

theorem Indexed.wait?_of_lists {ws : Waits} {t : Token} (h : ws.Indexed) (ht : ws.Lists t) :
    ∃ x, ws.wait? t = some x := by
  obtain ht | ⟨g, tokens, hg, ht⟩ | ⟨site, hs⟩ | ⟨id, hs⟩ := ht
  · exact OrderedMap.mem_keys_iff.1 ht
  · have hw := h.watchers g
    rw [hg] at hw
    split at hw
    case isTrue => cases hw
    case isFalse =>
      obtain ⟨x, hx, -⟩ := mem_watching.1 (Option.some.inj hw ▸ ht)
      exact ⟨x, hx⟩
  · obtain ⟨x, hx, -⟩ := (h.bySite site t).1 hs
    exact ⟨x, hx⟩
  · obtain ⟨x, hx, -⟩ := (h.byScript id t).1 hs
    exact ⟨x, hx⟩

end Waits

/-! ### Tokens of the world -/

namespace World

theorem standing_call_subset (w : World) (c : Call)
    (hfresh : ∀ t seconds, c = .setAlarm t seconds → t ∉ w.alarms.keys) {e : WaitKind × Token}
    (he : e ∈ (w.call c).standing) : e ∈ c.passes ∨ e ∈ w.standing :=
  List.mem_append.1 ((w.standing_call c hfresh).mem_iff.2 (List.mem_append_right _ he))

theorem standing_call_of_passes (w : World) {c : Call} (hc : c.passes = []) {e : WaitKind × Token}
    (he : e ∈ (w.call c).standing) : e ∈ w.standing := by
  refine (w.standing_call_subset c ?_ he).resolve_left (by simp [hc])
  rintro t seconds rfl
  cases hc

end World

/-- The tokens that the world knows were issued with waits. While a wait is pending, the world
knows its token only by requests of its kind. -/
structure Issued (ws : Waits) (w : World) : Prop where
  indexed : ws.Indexed
  issued : ∀ k t, (k, t) ∈ w.standing → t.index ≤ ws.lastToken
  kind : ∀ k t x, (k, t) ∈ w.standing → ws.wait? t = some x → x.kind = k

namespace Issued

variable {ws ws' : Waits} {w w' : World} {t : Token} {x : Wait}

theorem call (h : Issued ws w) {c : World.Call} (hc : c.passes = []) : Issued ws (w.call c) where
  indexed := h.indexed
  issued k t ht := h.issued k t (w.standing_call_of_passes hc ht)
  kind k t x ht := h.kind k t x (w.standing_call_of_passes hc ht)

theorem fewer (h : Issued ws w) (hindexed : ws'.Indexed) (hlast : ws'.lastToken = ws.lastToken)
    (hwaits : ∀ t x, ws'.wait? t = some x → ws.wait? t = some x) : Issued ws' w where
  indexed := hindexed
  issued k t ht := hlast ▸ h.issued k t ht
  kind k t x ht hx := h.kind k t x ht (hwaits t x hx)

theorem standing_start (h : Issued ws w) (task : Task) (ht : ws.lastToken < t.index)
    {e : WaitKind × Token} (he : e ∈ (task.start w t).standing) :
    e = (task.kind, t) ∨ e ∈ w.standing := by
  have hfresh : t ∉ w.alarms.keys := by
    intro hmem
    have hstanding : (WaitKind.alarm, t) ∈ w.standing :=
      List.mem_append_left _ (World.mem_promised.2 hmem)
    have := h.issued .alarm t hstanding
    omega
  cases task with
  | alarm seconds =>
    have hset := w.standing_call_subset (.setAlarm t seconds) (by rintro _ _ ⟨⟩; exact hfresh) he
    simpa [World.Call.passes, Task.kind] using hset
  | request r =>
    have hissue := w.standing_call_subset (.issue r (some t)) (by simp) he
    simpa [World.Call.passes] using hissue

theorem start (h : Issued ws w) {site : Site} {task : Task}
    (hr : ws.register site task.kind task.watched task.pushesResult = .ok (t, ws')) :
    Issued ws' (task.start w t) := by
  obtain ⟨ht, hlast, -, hpending, hindexed⟩ := h.indexed.register hr
  have hnew := fun e he => h.standing_start task (t := t) (e := e) (by omega) he
  refine ⟨hindexed, ?_, ?_⟩
  · intro k u hu
    obtain he | hold := hnew _ hu
    · cases he
      omega
    · have := h.issued k u hold
      omega
  · intro k u x hu hx
    rw [Waits.wait?, hpending, OrderedMap.get?_insert] at hx
    obtain he | hold := hnew _ hu
    · cases he
      simp only [if_true, Option.some.injEq] at hx
      rw [← hx]
    · have hne : ¬t = u := by
        rintro rfl
        have := h.issued k t hold
        omega
      rw [if_neg hne] at hx
      exact h.kind k u x hold hx

theorem withdraw (h : Issued ws w) (hx : ws.wait? t = some x) :
    Issued (ws.without t x) (Machine.withdraw w t x.kind) := by
  have hwithdrawn : Issued ws (Machine.withdraw w t x.kind) := by
    cases x.kind with
    | alarm => exact h.call (c := .cancelAlarm t) rfl
    | command | window => exact h.call (c := .forget t) rfl
  refine hwithdrawn.fewer (h.indexed.without hx) rfl ?_
  intro u y hy
  rw [Waits.wait?_without, Option.ite_none_left_eq_some] at hy
  exact hy.2

theorem releaseEach (h : Issued ws w) (tokens : List Token) :
    Issued (Waits.releaseEach tokens ws).2
      ((Waits.releaseEach tokens ws).1.foldl (fun w e => Machine.withdraw w e.1 e.2.kind) w) := by
  induction tokens generalizing ws w with
  | nil => exact h
  | cons t tokens ih =>
    unfold Waits.releaseEach
    cases hx : ws.pending.get? t with
    | none => simpa [Waits.release?, hx] using ih h
    | some x => simpa [Waits.release?_of_get? hx] using ih (h.withdraw hx)

/-- While a wait is pending, withdrawing what it has asked for takes its token out of the world. -/
theorem withdraw_eq (h : Issued ws w) (hx : ws.wait? t = some x) :
    Machine.withdraw w t x.kind = w.without fun _ u => decide (u = t) :=
  World.withdraw_eq fun k ht =>
    (h.kind k t x (List.mem_append_left _ (World.mem_promised.2 ht)) hx).symm

end Issued

namespace Machine

variable {m m' m₁ : Machine} {id : ScriptId}

theorem issued_deliverEach (notices : List Notice) (woken : Nat) (m : Machine)
    (h : Issued m.waits m.world) :
    Issued (deliverEach notices woken m).2.waits (deliverEach notices woken m).2.world := by
  induction notices generalizing woken m with
  | nil => exact h
  | cons n notices ih =>
    simp only [deliverEach]
    obtain ⟨hwaits, hworld⟩ := wakeEach_waits (m.waits.deliver n).1 woken
      { m with waits := (m.waits.deliver n).2 }
    refine ih _ _ ?_
    rw [hwaits, hworld]
    obtain ⟨-, -, hlast, hindexed⟩ := h.indexed.deliver n
    exact h.fewer hindexed hlast fun t x hx => ((h.indexed.get?_deliver n t x).1 hx).1

theorem issued_step (id : ScriptId) (h : Issued m.waits m.world) :
    Issued (m.step id).2.waits (m.step id).2.world := by
  cases m.effect_step id with
  | kept waits world =>
    rw [waits, world]
    exact h
  | changed c waits world =>
    rw [waits, world]
    exact h.call (c := .change c) rfl
  | issued r waits world =>
    rw [waits, world]
    exact h.call (c := .issue r none) rfl
  | awaited site task t waits world =>
    rw [world]
    exact h.start waits

theorem keep_issued : Keep fun m => Issued m.waits m.world where
  spawn _ _ _ h := h
  step _ id h := issued_step id h
  pump m h := issued_deliverEach m.world.notices 0 _ (h.call (c := .drain) rfl)
  reap _ h := h
  unload m id h := by
    obtain ⟨-, hwaits, hworld⟩ | ⟨t, x, hx, -, hwaits, hworld⟩ := unload_cases h.indexed id
    · rw [hwaits, hworld]
      exact h
    · rw [hwaits, hworld]
      exact h.withdraw hx
  shutdown m h := h.releaseEach m.waits.pending.keys

theorem Reachable.issued (h : Reachable .tokenless m) : Issued m.waits m.world := by
  refine keep_issued.reachable ?_ ?_ ?_ h
  · intro worldSettings specs settings seed
    have hnone : (start (World.start worldSettings specs) settings seed).world.standing = [] := rfl
    exact ⟨Waits.indexed_empty, by simp [hnone], by simp [hnone]⟩
  · rintro m w ⟨c, hc, rfl⟩ hm
    exact hm.call hc
  · rintro m id s t - ht -
    exact False.elim ht

/-! ### Teardown -/

/-- Some scripts are gone with their waits, and the world is without the tokens of these waits. -/
structure TornDown (gone : ScriptId → Bool) (m m' : Machine) : Prop where
  script? : ∀ id, m'.script? id = if gone id then none else m.script? id
  wait? : ∀ t, m'.waits.wait? t = (m.waits.wait? t).filter fun x => !gone x.script
  world : m'.world = m.world.without fun _ t => (m.waits.wait? t).any fun x => gone x.script

theorem TornDown.refl (m : Machine) : TornDown (fun _ => false) m m where
  script? _ := rfl
  wait? t := by cases m.waits.wait? t <;> rfl
  world := by
    have hnone : (fun (_ : WaitKind) t => (m.waits.wait? t).any fun _ => false) =
        fun _ _ => false := by
      funext _ t
      cases m.waits.wait? t <;> rfl
    rw [hnone, World.without_none]

theorem TornDown.trans {p q : ScriptId → Bool} (h : TornDown p m m₁) (h' : TornDown q m₁ m') :
    TornDown (fun id => p id || q id) m m' where
  script? id := by
    rw [h'.script?, h.script?]
    cases p id <;> cases q id <;> rfl
  wait? t := by
    rw [h'.wait?, h.wait?, Option.filter_filter]
    simp only [Bool.not_or]
  world := by
    rw [h'.world, h.world, World.without_without]
    congr 1
    funext _ t
    rw [h.wait?]
    cases hx : m.waits.wait? t with
    | none => rfl
    | some x => cases hp : p x.script <;> simp [Option.filter, hp]

theorem tornDown_unload (h : Issued m.waits m.world) (id : ScriptId) :
    TornDown (fun j => decide (j = id)) m (m.unload id).2 where
  script? j := by
    rw [script?_unload]
    simp [eq_comm]
  wait? t := by
    rw [wait?_unload h.indexed]
    simp only [ne_eq, decide_not]
  world := by
    obtain ⟨hp, -, hworld⟩ | ⟨t, x, hx, hid, -, hworld⟩ := unload_cases h.indexed id
    · rw [hworld]
      refine (World.without_eq_self fun k t _ => ?_).symm
      rw [Option.any_eq_false]
      intro x hx
      rw [decide_eq_false_iff_not]
      exact h.indexed.script_ne hp hx
    · rw [hworld, h.withdraw_eq hx]
      congr 1
      funext _ u
      rw [Bool.eq_iff_iff, decide_eq_true_iff, Option.any_eq_true]
      constructor
      · rintro rfl
        exact ⟨x, hx, by simp [hid]⟩
      · rintro ⟨y, hy, hscript⟩
        rw [decide_eq_true_iff] at hscript
        exact h.indexed.byScript.injective hy hx (hscript.trans hid.symm)

theorem tornDown_unloadEach (ids : List ScriptId) (h : Issued m.waits m.world) :
    TornDown (fun id => decide (id ∈ ids)) m (ids.foldl (fun m id => (m.unload id).2) m) := by
  induction ids generalizing m with
  | nil => simpa using TornDown.refl m
  | cons id ids ih =>
    have hrest := ih (keep_issued.unload m id h)
    simpa [Bool.decide_or] using (tornDown_unload h id).trans hrest

theorem tornDown_shutdown (h : Issued m.waits m.world) :
    TornDown (fun _ => true) m m.shutdown := by
  obtain ⟨hreleased, hpending, -, -⟩ := h.indexed.releaseAll
  refine ⟨fun _ => rfl, ?_, ?_⟩
  · intro t
    have hnone : m.shutdown.waits.wait? t = none := by
      simp [shutdown, Waits.wait?, hpending]
    rw [hnone]
    cases m.waits.wait? t <;> rfl
  · simp only [shutdown, hreleased]
    rw [World.withdrawEach_eq]
    · congr 1
      funext _ t
      have hkeys : t ∈ m.waits.pending.entries.map Prod.fst ↔ (m.waits.wait? t).isSome :=
        OrderedMap.contains_iff_mem_keys.symm
      simp only [hkeys]
      cases m.waits.wait? t <;> rfl
    · intro e he k hk
      exact (h.kind k e.1 e.2 (List.mem_append_left _ (World.mem_promised.2 hk))
        (OrderedMap.get?_eq_some_iff.2 he)).symm

inductive Teardown
  | unload (id : ScriptId)
  | unloadOwner (owner : Handle)
  | shutdown

namespace Teardown

def operation : Teardown → Operation
  | unload id => .unload id
  | unloadOwner owner => .unloadOwner owner
  | shutdown => .shutdown

def takes (m : Machine) : Teardown → ScriptId → Bool
  | unload id, j => decide (j = id)
  | unloadOwner owner, j => (m.script? j).any fun s => s.owner == some owner
  | shutdown, _ => true

end Teardown

theorem Named.mem_values (hm : m.Named) {s : Script} :
    s ∈ m.scripts.values ↔ m.script? s.id = some s := by
  constructor
  · intro hs
    obtain ⟨⟨j, s'⟩, he, rfl⟩ := List.mem_map.1 hs
    have hj : m.script? j = some s' := OrderedMap.get?_eq_some_iff.2 he
    rw [hm j s' hj]
    exact hj
  · exact fun hs => List.mem_map.2 ⟨(s.id, s), OrderedMap.get?_eq_some_iff.1 hs, rfl⟩

theorem tornDown_operate (h : Issued m.waits m.world) (hm : m.Named) (d : Teardown) :
    TornDown (d.takes m) m (m.operate d.operation) := by
  cases d with
  | unload id => exact tornDown_unload h id
  | unloadOwner owner =>
    have hids : Teardown.takes m (.unloadOwner owner) = fun id =>
        decide (id ∈ (m.scripts.values.filter fun s => s.owner == some owner).map Script.id) := by
      funext id
      rw [Bool.eq_iff_iff, decide_eq_true_iff, List.mem_map, Teardown.takes, Option.any_eq_true]
      constructor
      · rintro ⟨s, hs, howner⟩
        have hid := hm id s hs
        exact ⟨s, List.mem_filter.2 ⟨hm.mem_values.2 (hid ▸ hs), howner⟩, hid⟩
      · rintro ⟨s, hs, rfl⟩
        obtain ⟨hs, howner⟩ := List.mem_filter.1 hs
        exact ⟨s, hm.mem_values.1 hs, howner⟩
    rw [hids]
    exact tornDown_unloadEach _ h
  | shutdown => exact tornDown_shutdown h

/-! ### Afterwards -/

theorem Agrees.gone_play (h : Agrees m) (hlast : id.index ≤ m.lastScript)
    (hgone : m.script? id = none) (bs : List Beat) : (m.play bs).script? id = none := by
  induction bs generalizing m with
  | nil => exact hgone
  | cons b bs ih =>
    refine ih (h.beat b) (Nat.le_trans hlast (m.lastScript_beat b)) ?_
    rw [Option.eq_none_iff_forall_ne_some]
    intro s hs
    obtain ⟨hnew, -⟩ | ⟨s₀, hs₀, -⟩ := h.comes_beat b hs
    · omega
    · rw [hgone] at hs₀
      cases hs₀

theorem Agrees.wakeup_ne (h : Agrees m) (hgone : m.script? id = none) {n : Notice} {k : Wakeup}
    (hk : k ∈ (m.waits.deliver n).1) : k.script ≠ id := by
  intro hid
  obtain ⟨t, x, hx, hscript, -⟩ :=
    h.indexed.mem_scripts_deliver.1 (List.mem_map.2 ⟨k, hk, hid⟩)
  obtain ⟨s, i, hs, -⟩ := h.owned t x hx
  rw [hscript, hgone] at hs
  cases hs

/-- A notice about a token under which nobody waits does nothing. -/
theorem deliver_of_account? {ws : Waits} {n : Notice} {k : WaitKind} {t : Token}
    (hn : n.account? = some (k, t)) (ht : ws.wait? t = none) : ws.deliver n = ([], ws) := by
  have hnone : ws.pending.get? t = none := ht
  cases n <;> cases hn <;> simp [Waits.deliver, Waits.finish, hnone]

/-- Scripts that are taken out take their waits and the tokens of these with them. All else is left,
and nothing that follows wakes them. -/
theorem teardown_is_complete_and_local (h : Reachable .tokenless m) (d : Teardown)
    (hm' : m' = m.operate d.operation) :
    TornDown (d.takes m) m m' ∧
      (∀ t x, m.waits.wait? t = some x → d.takes m x.script = true →
        ¬m'.waits.Lists t ∧ ∀ k, t ∉ m'.world.carried k) ∧
      (∀ (n : Machine) op, ∃ bs, n.operate op = n.play bs) ∧
      ∀ bs,
        (∀ id s, m.script? id = some s → d.takes m id = true →
          (m'.play bs).script? id = none ∧
            ∀ n, ∀ k ∈ ((m'.play bs).waits.deliver n).1, k.script ≠ id) ∧
        ∀ t x n k, m.waits.wait? t = some x → d.takes m x.script = true →
          n.account? = some (k, t) →
            (m'.play bs).waits.deliver n = ([], (m'.play bs).waits) := by
  subst hm'
  have hagrees : Agrees m := h.agrees fun _ _ ht => ht
  have htorn := tornDown_operate h.issued hagrees.isNamed d
  have hindexed := (keep_issued.operate m d.operation h.issued).indexed
  obtain ⟨bs₀, hbs₀⟩ := operate_eq_play m d.operation
  have hagrees' : Agrees (m.operate d.operation) := hbs₀ ▸ hagrees.play bs₀
  have hgone : ∀ t x, m.waits.wait? t = some x → d.takes m x.script = true →
      (m.operate d.operation).waits.wait? t = none := by
    intro t x hx htakes
    rw [htorn.wait?, hx]
    simp [Option.filter, htakes]
  refine ⟨htorn, ?_, operate_eq_play, fun bs => ⟨?_, ?_⟩⟩
  · intro t x hx htakes
    refine ⟨fun hlists => ?_, fun k hk => ?_⟩
    · obtain ⟨y, hy⟩ := hindexed.wait?_of_lists hlists
      rw [hgone t x hx htakes] at hy
      cases hy
    · rw [htorn.world, World.carried_without] at hk
      simp [hx, htakes] at hk
  · intro id s hs htakes
    have hlast : id.index ≤ (m.operate d.operation).lastScript :=
      Nat.le_trans (hagrees.named id s hs).2 (hbs₀ ▸ m.lastScript_play bs₀)
    have hnone : (m.operate d.operation).script? id = none := by rw [htorn.script?, if_pos htakes]
    have hnever := hagrees'.gone_play hlast hnone bs
    exact ⟨hnever, fun n k hk => (hagrees'.play bs).wakeup_ne hnever hk⟩
  · intro t x n k hx htakes hn
    have hlast : t.index ≤ (m.operate d.operation).waits.lastToken :=
      Nat.le_trans (hagrees.indexed.issued t (OrderedMap.mem_keys_iff.2 ⟨x, hx⟩))
        (hbs₀ ▸ (hagrees.ages_play bs₀).last)
    exact deliver_of_account? hn (hagrees'.wait?_play hlast (hgone t x hx htakes) bs)

theorem teardown_is_complete_and_local_overdue :
    Reachable .tokenless overdue ∧
      overdue.waits.wait? ⟨1⟩ = some ⟨⟨1⟩, ⟨⟨1⟩, 1⟩, .alarm, none, false⟩ ∧
      overdue.world.notices = [.alarmFired ⟨1⟩] ∧
      (overdue.unload ⟨1⟩).2.script? ⟨1⟩ = none ∧
      (overdue.unload ⟨1⟩).2.script? ⟨2⟩ = overdue.script? ⟨2⟩ ∧
      (overdue.unload ⟨1⟩).2.waits.wait? ⟨2⟩ = overdue.waits.wait? ⟨2⟩ ∧
      ¬(overdue.unload ⟨1⟩).2.waits.Lists ⟨1⟩ ∧
      ((overdue.unload ⟨1⟩).2.play
          [.spawn (nap Binary32.one) none, .step ⟨3⟩, .step ⟨3⟩]).waits.deliver
        (.alarmFired ⟨1⟩) =
          ([], ((overdue.unload ⟨1⟩).2.play
            [.spawn (nap Binary32.one) none, .step ⟨3⟩, .step ⟨3⟩]).waits) := by
  have hreachable : Reachable .tokenless overdue :=
    reachable_overdue fun _ => ⟨.advance Binary32.one, rfl, rfl⟩
  have hx : overdue.waits.wait? ⟨1⟩ = some ⟨⟨1⟩, ⟨⟨1⟩, 1⟩, .alarm, none, false⟩ := by decide
  obtain ⟨htorn, hlists, -, hafter⟩ :=
    teardown_is_complete_and_local hreachable (.unload ⟨1⟩) rfl
  refine ⟨hreachable, hx, by decide, htorn.script? ⟨1⟩, htorn.script? ⟨2⟩, ?_,
    (hlists _ _ hx rfl).1, (hafter _).2 _ _ _ .alarm hx rfl rfl⟩
  have hsecond : overdue.waits.wait? ⟨2⟩ = some ⟨⟨2⟩, ⟨⟨2⟩, 1⟩, .alarm, none, false⟩ := by decide
  have hkept := htorn.wait? ⟨2⟩
  rw [hsecond] at hkept ⊢
  exact hkept

end Machine

end WorldScript
