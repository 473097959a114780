import WorldScript.Proofs.Machine.Deeds
import WorldScript.Proofs.Machine.Order
import WorldScript.Proofs.Machine.Teardown
import WorldScript.Proofs.World.Pauses

/-!
A paused world and its machine. The registry hears of the pause by the notices that are delivered to
it, and knows of it after each delivery. As long as the world is paused, time passes for dialogs and
fades alone, and a paused script has little to wait for.

Main statement: `world_pause`.
-/
set_option autoImplicit false

namespace WorldScript

/-- A host that does to the world what it likes, except that it does not take the notices, and to
scripts what it can by their calls. -/
def Host.undrained : Host where
  world w w' := ∃ c : World.Call, c ≠ .drain ∧ w' = w.call c
  script s t := ∃ c : Script.Call, t = s.call c

/-- The same, as long as it does not let a paused world go on. -/
def Host.holding : Host where
  world w w' := ∃ c : World.Call, c ≠ .drain ∧ c ≠ .setPaused false ∧ w' = w.call c
  script s t := ∃ c : Script.Call, t = s.call c

/-! ### What the registry hears -/

/-- What will be known once these notices are delivered. -/
def heard (paused : Bool) (notices : List Notice) : Bool := notices.foldl Notice.hears paused

theorem heard_append_of_silent (paused : Bool) (notices : List Notice) {more : List Notice}
    (h : ∀ b, .worldPaused b ∉ more) : heard paused (notices ++ more) = heard paused notices := by
  rw [heard, List.foldl_append]
  change more.foldl Notice.hears (heard paused notices) = heard paused notices
  generalize heard paused notices = known
  induction more with
  | nil => rfl
  | cons n more ih =>
    have hn : Notice.hears known n = known := by
      cases n with
      | worldPaused b => exact absurd (by simp) (h b)
      | _ => rfl
    rw [List.foldl_cons, hn]
    exact ih fun b hb => h b (List.mem_cons_of_mem n hb)

namespace Machine

variable {m m' : Machine} {id : ScriptId} {s : Script} {wait : Option Token}

theorem worldPaused_beat (m : Machine) {b : Beat} (hb : ∀ n, b ≠ .deliver n) :
    (m.beat b).waits.worldPaused = m.waits.worldPaused := by
  cases b with
  | deliver n => exact absurd rfl (hb n)
  | spawn | reap | world => rfl
  | shutdown => exact Waits.worldPaused_releaseEach _ _
  | step id =>
    rw [beat]
    cases m.effect_step id with
    | kept waits | changed _ waits | issued _ waits => rw [waits]
    | awaited site task t waits => rw [(Waits.register_eq_ok waits).2.2.2]
  | unload id =>
    cases hr : m.waits.releaseScript? id with
    | none => rw [beat, unload_of_none hr]
    | some r =>
      obtain ⟨t, -, hrelease⟩ := Option.bind_eq_some_iff.1 hr
      obtain ⟨⟨x, ws⟩, hx, he⟩ := Option.bind_eq_some_iff.1 hrelease
      cases he
      rw [beat, unload_of_some hr]
      exact Waits.worldPaused_release? hx

theorem steady_withdrawEach (released : List (Token × Wait)) (w : World) :
    w.Steady (released.foldl (fun w e => withdraw w e.1 e.2.kind) w) := by
  induction released generalizing w with
  | nil => exact .refl w
  | cons e released ih => exact (w.steady_withdraw e.1 e.2.kind).trans (ih _)

theorem steady_beat (m : Machine) {b : Beat} (hb : ∀ w, b ≠ .world w) :
    m.world.Steady (m.beat b).world := by
  cases b with
  | world w => exact absurd rfl (hb w)
  | spawn | reap => exact .refl _
  | deliver n =>
    have hworld : (m.deliver n).world = m.world := (wakeEach_waits _ 0 _).2
    rw [beat, hworld]
    exact .refl _
  | step id =>
    rw [beat]
    cases m.effect_step id with
    | kept _ world => exact world ▸ .refl _
    | changed c _ world => exact world ▸ World.steady_change _ c
    | issued r _ world => exact world ▸ World.steady_issue _ r none
    | awaited site task t _ world => exact world ▸ World.steady_start _ task t
  | unload id =>
    cases hr : m.waits.releaseScript? id with
    | none =>
      rw [beat, unload_of_none hr]
      exact .refl _
    | some r =>
      rw [beat, unload_of_some hr]
      exact World.steady_withdraw m.world _ _
  | shutdown => exact steady_withdrawEach _ _

/-- The registry will know of the pause once all notices are delivered. -/
def InStep (m : Machine) : Prop :=
  heard m.waits.worldPaused m.world.notices = m.world.isPaused

theorem InStep.steady (h : InStep m) (hwaits : m'.waits.worldPaused = m.waits.worldPaused)
    (hworld : m.world.Steady m'.world) : InStep m' := by
  obtain ⟨more, hmore, hsilent, -⟩ := hworld.notices
  rw [InStep, hwaits, hmore, heard_append_of_silent _ _ hsilent, hworld.paused]
  exact h

theorem InStep.beat (h : InStep m) {b : Beat} (hdeliver : ∀ n, b ≠ .deliver n)
    (hworld : ∀ w, b ≠ .world w) : InStep (m.beat b) :=
  h.steady (m.worldPaused_beat hdeliver) (m.steady_beat hworld)

theorem worldPaused_delivers (m : Machine) (ns : List Notice) :
    (m.play (ns.map .deliver)).waits.worldPaused = heard m.waits.worldPaused ns := by
  induction ns generalizing m with
  | nil => rfl
  | cons n ns ih =>
    have hwaits : (m.deliver n).waits = (m.waits.deliver n).2 := (wakeEach_waits _ 0 _).1
    refine (ih (m.deliver n)).trans ?_
    rw [hwaits, Waits.worldPaused_deliver]
    rfl

/-- After a delivery of all notices the registry knows whether the world is paused. -/
theorem InStep.pump (h : InStep m) : m.pump.2.waits.worldPaused = m.pump.2.world.isPaused := by
  rw [world_pump, pump_eq_play]
  exact (worldPaused_delivers { m with world := m.world.drain.2 } m.world.notices).trans h

theorem InStep.call (h : InStep m) {c : World.Call} (hc : c ≠ .drain) :
    InStep { m with world := m.world.call c } := by
  by_cases hpause : ∃ b, c = .setPaused b
  case pos =>
    obtain ⟨b, rfl⟩ := hpause
    rw [World.call]
    obtain ⟨-, he⟩ | he := m.world.setPaused_cases b
    · rw [he]
      exact h
    · rw [he, InStep, heard, List.foldl_append]
      rfl
  case neg =>
    exact h.steady rfl (m.world.steady_call (fun b hb => hpause ⟨b, hb⟩) hc)

/-- A script is paused as it is, with the wait it has, if any. -/
structure Halted (id : ScriptId) (s : Script) (wait : Option Token) (m : Machine) : Prop where
  inOrder : InOrder m
  script : m.script? id = some s
  paused : s.state = .paused
  wait : m.waits.pendingFor? id = wait

theorem pendingFor?_congr {ws ws' : Waits} (h : ws.Indexed) (h' : ws'.Indexed)
    (hwaits : ∀ t x, x.script = id → (ws'.wait? t = some x ↔ ws.wait? t = some x)) :
    ws'.pendingFor? id = ws.pendingFor? id := by
  apply Option.ext
  intro t
  rw [Waits.pendingFor?, Waits.pendingFor?, h'.byScript id t, h.byScript id t]
  constructor
  · rintro ⟨x, hx, hid⟩
    exact ⟨x, (hwaits t x hid).1 hx, hid⟩
  · rintro ⟨x, hx, hid⟩
    exact ⟨x, (hwaits t x hid).2 hx, hid⟩

theorem InOrder.pendingFor?_step (h : InOrder m) {j : ScriptId} (hj : j ≠ id) :
    (m.step j).2.waits.pendingFor? id = m.waits.pendingFor? id := by
  obtain he | ⟨s, hs, -, he | ⟨i, s₁, scene, hf, -, heffect, he⟩⟩ := m.step_cases j
  · rw [he]
  · rw [he]
    rfl
  · have hid : s₁.id = j := (Script.fetch?_eq_some hf).1.trans (h.named j s hs)
    rw [he]
    change scene.waits.pendingFor? id = m.waits.pendingFor? id
    cases heffect with
    | kept waits | changed _ waits | issued _ waits => rw [waits]
    | awaited task t kind waits =>
      rw [(Waits.register_eq_ok waits).2.2.2]
      simp only [Waits.pendingFor?, OrderedMap.get?_insert, hid, hj, if_false]

/-- A paused script is reached only by what takes it out, and by a notice that ends its wait. -/
theorem Halted.beat (h : Halted id s wait m) {b : Beat} (hunload : b ≠ .unload id)
    (hshutdown : b ≠ .shutdown)
    (hdeliver : ∀ n, b = .deliver n → ∀ t x, m.waits.wait? t = some x → x.script = id →
      n.wakeup? t x = none) : Halted id s wait (m.beat b) := by
  have hinOrder := h.inOrder.beat b
  suffices hsame : (m.beat b).script? id = m.script? id ∧
      (m.beat b).waits.pendingFor? id = m.waits.pendingFor? id from
    ⟨hinOrder, hsame.1.trans h.script, h.paused, hsame.2.trans h.wait⟩
  cases b with
  | spawn u owner => exact ⟨script?_spawn m u owner (h.inOrder.loaded id s h.script), rfl⟩
  | step j =>
    by_cases hj : j = id
    · have hnone : m.step j = (none, m) := by
        refine step_of_ne_running fun s' hs' => ?_
        rw [hj, h.script] at hs'
        cases hs'
        rw [h.paused]
        exact ScriptState.noConfusion
      rw [Machine.beat, hnone]
      exact ⟨rfl, rfl⟩
    · exact ⟨h.inOrder.named.script?_step hj, h.inOrder.pendingFor?_step hj⟩
  | deliver n =>
    have hnot : id ∉ (m.waits.deliver n).1.map Wakeup.script := by
      rw [h.inOrder.indexed.mem_scripts_deliver]
      rintro ⟨t, x, hx, hid, hk⟩
      rw [hdeliver n rfl t x hx hid] at hk
      cases hk
    have hnamed : ({ m with waits := (m.waits.deliver n).2 } : Machine).Named := h.inOrder.named
    have hwaits : (m.deliver n).waits = (m.waits.deliver n).2 := (wakeEach_waits _ 0 _).1
    refine ⟨hnamed.script?_wakeEach 0 hnot, ?_⟩
    rw [Machine.beat, hwaits, h.inOrder.indexed.pendingFor?_deliver, if_neg hnot]
  | reap =>
    refine ⟨?_, rfl⟩
    rw [Machine.beat, script?_reap, h.script]
    simp [h.paused, ScriptState.isFinished]
  | unload j =>
    have hj : j ≠ id := fun hj => hunload (by rw [hj])
    refine ⟨(script?_unload m j id).trans (if_neg hj), ?_⟩
    refine pendingFor?_congr h.inOrder.indexed hinOrder.indexed fun t x hid => ?_
    rw [Machine.beat, wait?_unload h.inOrder.indexed, Option.filter_eq_some_iff]
    simp [hid, Ne.symm hj]
  | shutdown => exact absurd rfl hshutdown
  | world w => exact ⟨rfl, rfl⟩

theorem Halted.play (h : Halted id s wait m) {bs : List Beat}
    (hbs : ∀ b ∈ bs, b ≠ .unload id ∧ b ≠ .shutdown ∧ ∀ n, b ≠ .deliver n) :
    Halted id s wait (m.play bs) := by
  induction bs generalizing m with
  | nil => exact h
  | cons b bs ih =>
    rw [List.forall_mem_cons] at hbs
    obtain ⟨⟨hunload, hshutdown, hdeliver⟩, hbs⟩ := hbs
    exact ih (h.beat hunload hshutdown fun n hn => absurd hn (hdeliver n)) hbs

theorem Halted.delivers (h : Halted id s wait m) (ns : List Notice) :
    Halted id s wait (m.play (ns.map .deliver)) ∨
      ∃ n ∈ ns, ∃ t x, m.waits.wait? t = some x ∧ x.script = id ∧ n.wakeup? t x ≠ none := by
  induction ns generalizing m with
  | nil => exact .inl h
  | cons n ns ih =>
    by_cases hn : ∃ t x, m.waits.wait? t = some x ∧ x.script = id ∧ n.wakeup? t x ≠ none
    case pos => exact .inr ⟨n, by simp, hn⟩
    case neg =>
      have hfirst : Halted id s wait (m.deliver n) := by
        refine h.beat (b := .deliver n) (by simp) (by simp) ?_
        rintro _ ⟨⟩ t x hx hid
        by_contra hk
        exact hn ⟨t, x, hx, hid, hk⟩
      obtain hstays | ⟨n', hn', t, x, hx, hid, hk⟩ := ih hfirst
      · exact .inl hstays
      · have hwaits : (m.deliver n).waits = (m.waits.deliver n).2 := (wakeEach_waits _ 0 _).1
        rw [hwaits] at hx
        have hold := ((h.inOrder.indexed.get?_deliver n t x).1 hx).1
        exact .inr ⟨n', List.mem_cons_of_mem n hn', t, x, hold, hid, hk⟩

/-- How an operation can end the pause of a script, when nothing has been completed but what was
reported before. -/
inductive Departs (before : List Notice) (m : Machine) (id : ScriptId) (s : Script) :
    Operation → Prop
  | unloaded : Departs before m id s (.unload id)
  | unloadedWith (owner : Handle) : s.owner = some owner → Departs before m id s (.unloadOwner owner)
  | shutDown : Departs before m id s .shutdown
  | woken (op : Operation) (n : Notice) (t : Token) (x : Wait) : op = .pump ∨ op = .tick →
      n ∈ m.world.notices → m.waits.wait? t = some x → x.script = id →
      (∃ result, n = .windowClosed t result ∧ x.kind = .window) ∨
        (∃ reason, n = .commandDisqualified t reason ∧ x.kind = .command) ∨
        (∃ h, n = .entityDestroyed h ∧ x.watched = some h) ∨
        n.IsCompletion ∧ n ∈ before → Departs before m id s op

theorem departs_of_wakeup? {before : List Notice}
    (hbefore : ∀ n ∈ m.world.notices, n.IsCompletion → n ∈ before) {op : Operation}
    (hop : op = .pump ∨ op = .tick) {n : Notice} (hn : n ∈ m.world.notices) {t : Token} {x : Wait}
    (hx : m.waits.wait? t = some x) (hid : x.script = id) (hk : n.wakeup? t x ≠ none) :
    Departs before m id s op := by
  refine .woken op n t x hop hn hx hid ?_
  obtain ⟨k, hk⟩ := Option.ne_none_iff_exists'.1 hk
  cases n with
  | alarmFired u => exact .inr (.inr (.inr ⟨trivial, hbefore _ hn trivial⟩))
  | commandFinished u result => exact .inr (.inr (.inr ⟨trivial, hbefore _ hn trivial⟩))
  | commandDisqualified u reason =>
    simp only [Notice.wakeup?, Option.ite_none_right_eq_some] at hk
    obtain ⟨rfl, hkind, -⟩ := hk
    exact .inr (.inl ⟨reason, rfl, hkind⟩)
  | windowClosed u result =>
    simp only [Notice.wakeup?, Option.ite_none_right_eq_some] at hk
    obtain ⟨rfl, hkind, -⟩ := hk
    exact .inl ⟨result, rfl, hkind⟩
  | entityDestroyed h =>
    simp only [Notice.wakeup?, Option.ite_none_right_eq_some] at hk
    exact .inr (.inr (.inl ⟨h, rfl, hk.1⟩))
  | worldPaused b => cases hk

theorem Halted.pump (h : Halted id s wait m) {before : List Notice}
    (hbefore : ∀ n ∈ m.world.notices, n.IsCompletion → n ∈ before) {op : Operation}
    (hop : op = .pump ∨ op = .tick) : Halted id s wait m.pump.2 ∨ Departs before m id s op := by
  have hdrained : Halted id s wait { m with world := m.world.drain.2 } :=
    h.beat (b := .world m.world.drain.2) (by simp) (by simp) (by simp)
  rw [pump_eq_play]
  obtain hstays | ⟨n, hn, t, x, hx, hid, hk⟩ := hdrained.delivers m.world.notices
  · exact .inl hstays
  · exact .inr (departs_of_wakeup? hbefore hop hn hx hid hk)

theorem Halted.operate (h : Halted id s wait m) {before : List Notice}
    (hbefore : ∀ n ∈ m.world.notices, n.IsCompletion → n ∈ before) (op : Operation) :
    Halted id s wait (m.operate op) ∨ Departs before m id s op := by
  cases op with
  | pump => exact h.pump hbefore (.inl rfl)
  | tick =>
    -- after the delivery a tick is made of steps, which a paused script does not take
    obtain hstays | hdeparts := h.pump hbefore (.inr rfl)
    · obtain ⟨steps, hsteps⟩ := runEach_eq_play m.pump.2.scripts.keys 0 m.pump.2
      have hleft : ∀ b ∈ steps.map Beat.step,
          b ≠ .unload id ∧ b ≠ .shutdown ∧ ∀ n, b ≠ .deliver n := by simp
      have hplay := hstays.play hleft
      rw [← hsteps] at hplay
      exact .inl hplay
    · exact .inr hdeparts
  | unload j =>
    by_cases hj : j = id
    · exact .inr (hj ▸ .unloaded)
    · exact .inl (h.beat (b := .unload j) (by simpa using hj) (by simp) (by simp))
  | unloadOwner owner =>
    let ids := (m.scripts.values.filter fun s => s.owner == some owner).map Script.id
    by_cases hmem : id ∈ ids
    case pos =>
      obtain ⟨s', hs', hid⟩ := List.mem_map.1 hmem
      obtain ⟨hs', howner⟩ := List.mem_filter.1 hs'
      have hscript := (h.inOrder.named.mem_values).1 hs'
      rw [hid, h.script, Option.some.injEq] at hscript
      subst hscript
      exact .inr (.unloadedWith owner (by simpa using howner))
    case neg =>
      left
      have hleft : ∀ b ∈ ids.map Beat.unload,
          b ≠ .unload id ∧ b ≠ .shutdown ∧ ∀ n, b ≠ .deliver n := by
        rw [List.forall_mem_map]
        intro j hj
        exact ⟨fun he => hmem (by cases he; exact hj), by simp, by simp⟩
      have hplay := h.play hleft
      rw [← unloadEach_eq_play] at hplay
      exact hplay
  | shutdown => exact .inr .shutDown
  | spawn | step | run | reap =>
    left
    obtain ⟨bs, hbs, he⟩ := m.operate_eq_play_of_has _
    rw [he]
    refine h.play fun b hb => ?_
    have hhas := hbs b hb
    simp only [Operation.Has] at hhas
    simp [hhas]

/-! ### Runs -/

theorem Reachable.holding (h : Reachable .undrained m)
    (hrun : Relation.ReflTransGen (Move .holding) m m') : Reachable .undrained m' := by
  induction hrun with
  | refl => exact h
  | tail _ hm ih =>
    cases hm with
    | operate op => exact ih.operate op
    | world w hw =>
      obtain ⟨c, hdrain, -, hw⟩ := hw
      exact ih.move (.world _ w ⟨c, hdrain, hw⟩)
    | script id s t hs ht => exact ih.move (.script _ id s t hs ht)

end Machine

end WorldScript
