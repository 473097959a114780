import WorldScript.Proofs.Machine.Agreement

/-!
The beats of a machine, which its operations are made of: one instruction of a script, or one notice
with those it wakes, or the loading or unloading of scripts, or a change of the world. Between two
beats scripts and waits agree, so that a beat reaches only the script it is for.

Main statements: `operate_eq_play` and `Agrees.beat`.
-/
set_option autoImplicit false

namespace WorldScript.Machine

inductive Beat
  | spawn (u : CodeUnit) (owner : Option Handle)
  | step (id : ScriptId)
  /-- A notice arrives, whether the world has sent it or not. -/
  | deliver (n : Notice)
  | reap
  | unload (id : ScriptId)
  | shutdown
  /-- Time passes, or a host is at work, or notices are taken out to be delivered. -/
  | world (w : World)

def deliver (m : Machine) (n : Notice) : Machine :=
  (wakeEach (m.waits.deliver n).1 0 { m with waits := (m.waits.deliver n).2 }).2

def beat (m : Machine) : Beat → Machine
  | .spawn u owner => (m.spawn u owner).2
  | .step id => (m.step id).2
  | .deliver n => m.deliver n
  | .reap => m.reap.2
  | .unload id => (m.unload id).2
  | .shutdown => m.shutdown
  | .world w => { m with world := w }

def play (m : Machine) (bs : List Beat) : Machine := bs.foldl beat m

variable {m m' : Machine} {id : ScriptId}

/-! ### Operations are made of beats -/

theorem play_append (m : Machine) (bs cs : List Beat) : m.play (bs ++ cs) = (m.play bs).play cs :=
  List.foldl_append

theorem wakeEach_snd (ks : List Wakeup) (woken : Nat) (m : Machine) :
    (wakeEach ks woken m).2 = (wakeEach ks 0 m).2 := by
  induction ks generalizing woken m with
  | nil => rfl
  | cons k ks ih =>
    simp only [wakeEach]
    cases m.wake k with
    | none => exact ih woken m
    | some m₁ => exact (ih (woken + 1) m₁).trans (ih 1 m₁).symm

theorem deliverEach_eq_play (notices : List Notice) (woken : Nat) (m : Machine) :
    (deliverEach notices woken m).2 = m.play (notices.map .deliver) := by
  induction notices generalizing woken m with
  | nil => rfl
  | cons n notices ih =>
    simp only [deliverEach, List.map_cons]
    rw [ih, wakeEach_snd]
    rfl

theorem pump_eq_play (m : Machine) :
    m.pump.2 = m.play (.world m.world.drain.2 :: m.world.notices.map .deliver) :=
  deliverEach_eq_play _ 0 _

theorem runFor_eq_play (id : ScriptId) (budget : Nat) (m : Machine) :
    ∃ k, runFor id budget m = m.play (List.replicate k (.step id)) := by
  induction budget generalizing m with
  | zero => exact ⟨0, rfl⟩
  | succ budget ih =>
    have hfirst : m.play [.step id] = (m.step id).2 := rfl
    unfold runFor
    split
    case h_1 m₁ hstep =>
      refine ⟨1, ?_⟩
      rw [List.replicate_one, hfirst, hstep]
    case h_2 outcome m₁ hstep =>
      split
      · refine ⟨1, ?_⟩
        rw [List.replicate_one, hfirst, hstep]
      · obtain ⟨k, hk⟩ := ih m₁
        refine ⟨k + 1, ?_⟩
        rw [hk, List.replicate_succ, ← List.singleton_append, play_append, hfirst, hstep]

theorem runEach_eq_play (ids : List ScriptId) (ran : Nat) (m : Machine) :
    ∃ steps : List ScriptId, (runEach ids ran m).2 = m.play (steps.map .step) := by
  induction ids generalizing ran m with
  | nil => exact ⟨[], rfl⟩
  | cons id ids ih =>
    unfold runEach
    split
    · obtain ⟨k, hk⟩ := runFor_eq_play id m.settings.instructionBudget m
      obtain ⟨steps, hsteps⟩ := ih (ran + 1) (m.run id)
      refine ⟨List.replicate k id ++ steps, ?_⟩
      rw [hsteps, run, hk, List.map_append, List.map_replicate, play_append]
    · exact ih ran m

theorem unloadEach_eq_play (ids : List ScriptId) (m : Machine) :
    ids.foldl (fun m id => (m.unload id).2) m = m.play (ids.map .unload) := by
  rw [play, List.foldl_map]
  rfl

def Operation.Has (b : Beat) : Operation → Prop
  | .spawn u owner => b = .spawn u owner
  | .step id | .run id => b = .step id
  | .pump => (∃ w, b = .world w) ∨ ∃ n, b = .deliver n
  | .tick => (∃ w, b = .world w) ∨ (∃ n, b = .deliver n) ∨ ∃ id, b = .step id
  | .reap => b = .reap
  | .unload id => b = .unload id
  | .unloadOwner _ => ∃ id, b = .unload id
  | .shutdown => b = .shutdown

theorem operate_eq_play_of_has (m : Machine) (op : Operation) :
    ∃ bs, (∀ b ∈ bs, op.Has b) ∧ m.operate op = m.play bs := by
  obtain ⟨bs, hbs, hpump⟩ : ∃ bs, (∀ b ∈ bs, Operation.pump.Has b) ∧ m.pump.2 = m.play bs := by
    refine ⟨_, ?_, m.pump_eq_play⟩
    rw [List.forall_mem_cons, List.forall_mem_map]
    exact ⟨.inl ⟨_, rfl⟩, fun n _ => .inr ⟨n, rfl⟩⟩
  cases op with
  | spawn u owner => exact ⟨[.spawn u owner], by simp [Operation.Has], rfl⟩
  | step id => exact ⟨[.step id], by simp [Operation.Has], rfl⟩
  | run id =>
    obtain ⟨k, hk⟩ := runFor_eq_play id m.settings.instructionBudget m
    exact ⟨_, fun b hb => List.eq_of_mem_replicate hb, hk⟩
  | pump => exact ⟨bs, hbs, hpump⟩
  | tick =>
    obtain ⟨steps, hsteps⟩ := runEach_eq_play m.pump.2.scripts.keys 0 m.pump.2
    refine ⟨bs ++ steps.map .step, ?_, ?_⟩
    · rw [List.forall_mem_append, List.forall_mem_map]
      exact ⟨fun b hb => (hbs b hb).imp_right .inl, fun id _ => .inr (.inr ⟨id, rfl⟩)⟩
    · rw [play_append, ← hpump]
      exact hsteps
  | reap => exact ⟨[.reap], by simp [Operation.Has], rfl⟩
  | unload id => exact ⟨[.unload id], by simp [Operation.Has], rfl⟩
  | unloadOwner owner =>
    exact ⟨_, List.forall_mem_map.2 fun id _ => ⟨id, rfl⟩, unloadEach_eq_play _ m⟩
  | shutdown => exact ⟨[.shutdown], by simp [Operation.Has], rfl⟩

theorem operate_eq_play (m : Machine) (op : Operation) : ∃ bs, m.operate op = m.play bs :=
  (m.operate_eq_play_of_has op).imp fun _ => And.right

/-! ### Agreement -/

theorem Agrees.afterNotice (h : Agrees m) (n : Notice) :
    (m.deliver n).waits = (m.waits.deliver n).2 ∧ Agrees (m.deliver n) := by
  obtain ⟨m', -, heach, hwaits, h'⟩ := (h.deliver n).wakeAll
  simp only [Machine.deliver, heach]
  exact ⟨hwaits, h'⟩

theorem Agrees.beat (h : Agrees m) (b : Beat) : Agrees (m.beat b) := by
  cases b with
  | spawn u owner => exact h.spawn u owner
  | step id => exact h.step id
  | deliver n => exact (h.afterNotice n).2
  | reap => exact h.reap
  | unload id => exact h.unload id
  | shutdown => exact h.shutdown
  | world w => exact h.withWorld w

theorem Agrees.play (h : Agrees m) (bs : List Beat) : Agrees (m.play bs) := by
  induction bs generalizing m with
  | nil => exact h
  | cons b bs ih => exact ih (h.beat b)

/-! ### What a beat does to waits -/

/-- Some waits may have ended, and new ones have fresh tokens. -/
structure Ages (ws ws' : Waits) : Prop where
  last : ws.lastToken ≤ ws'.lastToken
  old : ∀ t x, ws'.wait? t = some x → ws.wait? t = some x ∨ ws.lastToken < t.index

theorem ages_of_subset {ws ws' : Waits} (hlast : ws'.lastToken = ws.lastToken)
    (h : ∀ t x, ws'.wait? t = some x → ws.wait? t = some x) : Ages ws ws' :=
  ⟨Nat.le_of_eq hlast.symm, fun t x hx => .inl (h t x hx)⟩

theorem ages_of_eq {ws ws' : Waits} (h : ws' = ws) : Ages ws ws' := by
  rw [h]
  exact ages_of_subset rfl fun _ _ => id

theorem Ages.trans {ws ws₁ ws' : Waits} (h : Ages ws ws₁) (h' : Ages ws₁ ws') : Ages ws ws' where
  last := Nat.le_trans h.last h'.last
  old t x hx := by
    obtain hx | hfresh := h'.old t x hx
    · exact h.old t x hx
    · exact .inr (Nat.lt_of_le_of_lt h.last hfresh)

theorem Agrees.ages_step (h : Agrees m) (id : ScriptId) : Ages m.waits (m.step id).2.waits := by
  cases m.effect_step id with
  | kept waits | changed _ waits | issued _ waits => exact ages_of_eq waits
  | awaited site task t waits =>
    obtain ⟨ht, hlast, -, hpending, -⟩ := h.indexed.register waits
    refine ⟨by omega, ?_⟩
    intro u x hx
    rw [Waits.wait?, hpending, OrderedMap.get?_insert] at hx
    split at hx
    case isTrue he =>
      subst he
      exact .inr (by omega)
    case isFalse => exact .inl hx

/-- No wait is ended by an instruction. -/
theorem Agrees.wait?_step (h : Agrees m) {t : Token} {x : Wait} (hx : m.waits.wait? t = some x)
    (id : ScriptId) : (m.step id).2.waits.wait? t = some x := by
  cases m.effect_step id with
  | kept waits | changed _ waits | issued _ waits =>
    rw [waits]
    exact hx
  | awaited site task u waits =>
    obtain ⟨-, -, hfresh, hpending, -⟩ := h.indexed.register waits
    have hne : ¬u = t := by
      rintro rfl
      exact hfresh (OrderedMap.mem_keys_iff.2 ⟨x, hx⟩)
    rw [Waits.wait?, hpending, OrderedMap.get?_insert, if_neg hne]
    exact hx

theorem Agrees.ages_beat (h : Agrees m) (b : Beat) : Ages m.waits (m.beat b).waits := by
  cases b with
  | spawn u owner => exact ages_of_eq rfl
  | step id => exact h.ages_step id
  | deliver n =>
    obtain ⟨-, -, hlast, -⟩ := h.indexed.deliver n
    simp only [Machine.beat, (h.afterNotice n).1]
    exact ages_of_subset hlast fun t x hx => ((h.indexed.get?_deliver n t x).1 hx).1
  | reap => exact ages_of_eq rfl
  | unload id =>
    obtain ⟨-, hwaits, -⟩ | ⟨t, x, -, -, hwaits, -⟩ := unload_cases h.indexed id
    · exact ages_of_eq hwaits
    · simp only [Machine.beat, hwaits]
      refine ages_of_subset rfl fun u y hy => ?_
      rw [Waits.wait?_without, Option.ite_none_left_eq_some] at hy
      exact hy.2
  | shutdown =>
    obtain ⟨-, hpending, hlast, -⟩ := h.indexed.releaseAll
    refine ages_of_subset hlast fun t x hx => ?_
    simp [Machine.beat, Machine.shutdown, Waits.wait?, hpending] at hx
  | world w => exact ages_of_eq rfl

theorem Agrees.ages_play (h : Agrees m) (bs : List Beat) : Ages m.waits (m.play bs).waits := by
  induction bs generalizing m with
  | nil => exact ages_of_eq rfl
  | cons b bs ih => exact (h.ages_beat b).trans (ih (h.beat b))

/-- A wait that has ended is not registered again. -/
theorem Agrees.wait?_play (h : Agrees m) {t : Token} (hlast : t.index ≤ m.waits.lastToken)
    (hgone : m.waits.wait? t = none) (bs : List Beat) : (m.play bs).waits.wait? t = none := by
  rw [Option.eq_none_iff_forall_ne_some]
  intro x hx
  obtain hold | hfresh := (h.ages_play bs).old t x hx
  · rw [hgone] at hold
    cases hold
  · exact absurd hlast (Nat.not_le_of_gt hfresh)

/-! ### What a beat does to a script -/

theorem lastScript_beat (m : Machine) (b : Beat) : m.lastScript ≤ (m.beat b).lastScript := by
  cases b with
  | spawn u owner => exact Nat.le_succ _
  | step id =>
    obtain he | ⟨s, -, -, he | ⟨i, s₁, scene, -, -, -, he⟩⟩ := m.step_cases id <;>
      exact Nat.le_of_eq (by simp only [beat, he, withScript, withScene])
  | deliver n =>
    have hsame : (m.deliver n).lastScript = m.lastScript :=
      wakeEach_keeps (P := fun m' => m'.lastScript = m.lastScript) (fun _ _ _ _ _ h => h) _ 0 _ rfl
    exact Nat.le_of_eq hsame.symm
  | unload id =>
    obtain ⟨waits, world, he⟩ := m.unload_eq id
    simp only [beat, he, Nat.le_refl]
  | reap | shutdown | world w => exact Nat.le_refl _

theorem lastScript_play (m : Machine) (bs : List Beat) :
    m.lastScript ≤ (m.play bs).lastScript := by
  induction bs generalizing m with
  | nil => exact Nat.le_refl _
  | cons b bs ih => exact Nat.le_trans (m.lastScript_beat b) (ih (m.beat b))

theorem script?_spawn (m : Machine) (u : CodeUnit) (owner : Option Handle)
    (hid : id.index ≤ m.lastScript) : (m.spawn u owner).2.script? id = m.script? id := by
  have hne : ¬(⟨m.lastScript + 1⟩ : ScriptId) = id := by
    rintro rfl
    simp only at hid
    omega
  simp only [spawn, script?, OrderedMap.get?_insert, hne, if_false]

theorem AgreesBut.isNamed {due : List ScriptId} (h : AgreesBut due m) : m.Named :=
  fun id s hs => (h.named id s hs).1

theorem Agrees.script?_step (h : Agrees m) {j : ScriptId} (hj : j ≠ id) :
    (m.step j).2.script? id = m.script? id :=
  h.isNamed.script?_step hj

theorem AgreesBut.script?_wakeEach {ks : List Wakeup} (woken : Nat)
    (h : AgreesBut (ks.map Wakeup.script) m) {k : Wakeup} (hk : k ∈ ks) {s : Script}
    (hs : m.script? k.script = some s) :
    (wakeEach ks woken m).2.script? k.script = some (s.woken k) := by
  induction ks generalizing woken m with
  | nil => cases hk
  | cons k₁ ks ih =>
    obtain ⟨s₁, hs₁, -, hid, hwake, h₁⟩ := h.wake
    have hnot := (List.nodup_cons.1 h.nodup).1
    have hscript : ∀ j, (m.withScript (s₁.woken k₁)).script? j =
        if k₁.script = j then some (s₁.woken k₁) else m.script? j :=
      script?_of_insert (by simp [withScript, hid])
    simp only [Machine.wakeEach, hwake]
    obtain rfl | hk := List.mem_cons.1 hk
    · obtain rfl := Option.some.inj (hs₁.symm.trans hs)
      rw [h₁.isNamed.script?_wakeEach (woken + 1) hnot, hscript, if_pos rfl]
    · have hne : k₁.script ≠ k.script := fun he => hnot (List.mem_map.2 ⟨k, hk, he.symm⟩)
      exact ih (woken + 1) h₁ hk (by rw [hscript, if_neg hne, hs])

theorem Agrees.script?_deliver (h : Agrees m) (n : Notice)
    (hnot : ∀ t x, m.waits.wait? t = some x → x.script = id → n.wakeup? t x = none) :
    (m.deliver n).script? id = m.script? id := by
  refine (h.deliver n).isNamed.script?_wakeEach 0 fun hmem => ?_
  obtain ⟨t, x, hx, hid, hsome⟩ := h.indexed.mem_scripts_deliver.1 hmem
  rw [hnot t x hx hid] at hsome
  cases hsome

/-- The notice that ends the wait of a script wakes it. -/
theorem Agrees.script?_deliver_of_wakeup? (h : Agrees m) {n : Notice} {t : Token} {x : Wait}
    {k : Wakeup} {s : Script} (hx : m.waits.wait? t = some x) (hk : n.wakeup? t x = some k)
    (hs : m.script? x.script = some s) :
    (m.deliver n).script? x.script = some (s.woken k) := by
  rw [← Notice.script_of_wakeup? hk] at hs ⊢
  refine (h.deliver n).script?_wakeEach 0 ?_ hs
  rw [(h.indexed.deliver n).1]
  exact List.mem_filterMap.2 ⟨(t, x), OrderedMap.get?_eq_some_iff.1 hx, hk⟩

/-- How a loaded script can have come through a beat. -/
inductive Comes (m : Machine) (id : ScriptId) (b : Beat) (s s' : Script) : Prop
  | kept : s' = s → Comes m id b s s'
  | woken (k : Wakeup) : s.state = .paused → s' = s.woken k → Comes m id b s s'
  | finished : b = .step id → s.state = .running → s.fetch? = none → s' = s.stop → Comes m id b s s'
  | executed (i : Instruction) (s₁ : Script) (outcome : Outcome) (scene : Scene) :
      b = .step id → s.state = .running → s.fetch? = some (i, s₁) →
      Scene.settle ⟨s₁, m.world, m.waits, m.dice⟩ i = (outcome, scene) →
      (m.step id).1 = some outcome → s' = scene.script → Comes m id b s s'

theorem Agrees.comes_step (h : Agrees m) {s' : Script} (hs' : (m.step id).2.script? id = some s') :
    ∃ s, m.script? id = some s ∧ Comes m id (.step id) s s' := by
  obtain he | ⟨s, hs, hstate, ⟨hf, he⟩ | ⟨i, s₁, outcome, scene, hf, hsettle, he⟩⟩ :=
    m.step_outcome_cases id
  · rw [he] at hs'
    exact ⟨s', hs', .kept rfl⟩
  · have hid := s.stays_stop.id.trans (h.isNamed id s hs)
    rw [he, script?_of_insert rfl, if_pos hid] at hs'
    exact ⟨s, hs, .finished rfl hstate hf (Option.some.inj hs').symm⟩
  · obtain ⟨hstep, hscript⟩ := h.isNamed.step_settle hs hstate hf hsettle
    have hscene := Option.some.inj (hs'.symm.trans hscript)
    exact ⟨s, hs, .executed i s₁ outcome scene rfl hstate hf hsettle (by rw [hstep]) hscene⟩

theorem Agrees.comes_beat (h : Agrees m) (b : Beat) {s' : Script}
    (hs' : (m.beat b).script? id = some s') :
    (m.lastScript < id.index ∧
        ∃ u owner, b = .spawn u owner ∧ s' = Script.start id u owner m.settings) ∨
      ∃ s, m.script? id = some s ∧ Comes m id b s s' := by
  cases b with
  | spawn u owner =>
    have hspawn : (m.spawn u owner).2.script? id =
        if (⟨m.lastScript + 1⟩ : ScriptId) = id then
          some (Script.start ⟨m.lastScript + 1⟩ u owner m.settings)
        else m.script? id := script?_of_insert rfl id
    rw [Machine.beat, hspawn] at hs'
    split at hs'
    case isTrue hid =>
      subst hid
      exact .inl ⟨Nat.lt_succ_self _, u, owner, rfl, (Option.some.inj hs').symm⟩
    case isFalse => exact .inr ⟨s', hs', .kept rfl⟩
  | step j =>
    by_cases hj : j = id
    · subst hj
      exact .inr (h.comes_step hs')
    · rw [Machine.beat, h.script?_step hj] at hs'
      exact .inr ⟨s', hs', .kept rfl⟩
  | deliver n =>
    have hdue := h.deliver n
    by_cases hmem : id ∈ (m.waits.deliver n).1.map Wakeup.script
    · obtain ⟨-, s, hs⟩ := hdue.waiting id hmem
      have hpaused : s.state = .paused := (hdue.paused id s hs).2 (.inr hmem)
      obtain ⟨k, hk, rfl⟩ := List.mem_map.1 hmem
      have hafter := hdue.script?_wakeEach 0 hk hs
      exact .inr ⟨s, hs, .woken k hpaused (Option.some.inj (hs'.symm.trans hafter))⟩
    · have hsame := hdue.isNamed.script?_wakeEach 0 hmem
      exact .inr ⟨s', hsame.symm.trans hs', .kept rfl⟩
  | reap =>
    rw [Machine.beat, script?_reap, Option.filter_eq_some_iff] at hs'
    exact .inr ⟨s', hs'.1, .kept rfl⟩
  | unload j =>
    rw [Machine.beat, script?_unload, Option.ite_none_left_eq_some] at hs'
    exact .inr ⟨s', hs'.2, .kept rfl⟩
  | shutdown => simp [Machine.beat, Machine.shutdown, script?] at hs'
  | world w => exact .inr ⟨s', hs', .kept rfl⟩

/-- A script that is not paused is changed by its own steps only. It may be taken out. -/
theorem Agrees.script?_beat (h : Agrees m) (hlast : id.index ≤ m.lastScript)
    (hpending : m.waits.pendingFor? id = none) {b : Beat} (hb : b ≠ .step id) {s : Script}
    (hs : (m.beat b).script? id = some s) : m.script? id = some s := by
  obtain ⟨hnew, -⟩ | ⟨s₀, hs₀, hcomes⟩ := h.comes_beat b hs
  · omega
  · cases hcomes with
    | kept he => rw [hs₀, he]
    | woken k hpaused =>
      have hwaits := (h.paused id s₀ hs₀).1 hpaused
      simp [hpending] at hwaits
    | finished he | executed _ _ _ _ he => exact absurd he hb

theorem Agrees.pendingFor?_of_not_paused (h : Agrees m)
    (hs : ∀ s, m.script? id = some s → s.state ≠ .paused) : m.waits.pendingFor? id = none := by
  rw [Option.eq_none_iff_forall_ne_some]
  intro t ht
  obtain ⟨x, hx, rfl⟩ := (h.indexed.byScript id t).1 ht
  obtain ⟨s, i, hscript, -⟩ := h.owned t x hx
  exact hs s hscript (h.paused_of_wait hx hscript)

theorem Agrees.script?_play (h : Agrees m) (hlast : id.index ≤ m.lastScript) {s : Script}
    (hs : ∀ s', m.script? id = some s' → s' = s) (hstate : s.state ≠ .paused) {bs : List Beat}
    (hbs : .step id ∉ bs) : ∀ s', (m.play bs).script? id = some s' → s' = s := by
  induction bs generalizing m with
  | nil => exact hs
  | cons b bs ih =>
    simp only [List.mem_cons, not_or] at hbs
    have hpending : m.waits.pendingFor? id = none :=
      h.pendingFor?_of_not_paused fun s' hs' => by rwa [hs s' hs']
    refine ih (h.beat b) (Nat.le_trans hlast (m.lastScript_beat b)) ?_ hbs.2
    exact fun s' hs' => hs s' (h.script?_beat hlast hpending (Ne.symm hbs.1) hs')

/-! ### Runs -/

/-- What holds at the start and is kept by each beat holds in every run. -/
theorem Reachable.keeps {P : Machine → Prop} {host : Host} (hscript : ∀ s t, ¬host.script s t)
    (hstart : ∀ worldSettings specs settings seed,
      P (start (World.start worldSettings specs) settings seed))
    (hbeat : ∀ m b, Agrees m → P m → P (m.beat b)) (h : Reachable host m) : P m := by
  have hplay : ∀ bs m, Agrees m → P m → P (m.play bs) := by
    intro bs
    induction bs with
    | nil => exact fun _ _ hP => hP
    | cons b bs ih => exact fun m hm hP => ih _ (hm.beat b) (hbeat m b hm hP)
  obtain ⟨worldSettings, specs, settings, seed, hrun⟩ := h
  have hboth : Agrees m ∧ P m := by
    induction hrun with
    | refl => exact ⟨agrees_start _ _ _, hstart worldSettings specs settings seed⟩
    | tail _ hmove ih =>
      obtain ⟨hm, hP⟩ := ih
      cases hmove with
      | operate op =>
        obtain ⟨bs, he⟩ := operate_eq_play _ op
        rw [he]
        exact ⟨hm.play bs, hplay bs _ hm hP⟩
      | world w _ => exact ⟨hm.withWorld w, hbeat _ (.world w) hm hP⟩
      | script id s t _ ht => exact absurd ht (hscript s t)
  exact hboth.2

end WorldScript.Machine
