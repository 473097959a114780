import WorldScript.Proofs.Machine.Scripts
import WorldScript.Proofs.Waits.Registry

/-!
Scripts and waits agree. A script is paused just when it has a pending wait, which belongs to the
instruction it paused at. Between a notice and the wakeups it returned this fails for the scripts
that are still due to be woken, and for no others.

Main statement: `Reachable.agrees`.
-/
set_option autoImplicit false

namespace WorldScript.Machine

/-- Scripts and waits agree, but for paused scripts that have lost their wait and are due to be
woken. -/
structure AgreesBut (due : List ScriptId) (m : Machine) : Prop where
  indexed : m.waits.Indexed
  named : ∀ id s, m.script? id = some s → s.id = id ∧ id.index ≤ m.lastScript
  paused : ∀ id s, m.script? id = some s →
    (s.state = .paused ↔ (m.waits.pendingFor? id).isSome ∨ id ∈ due)
  nodup : due.Nodup
  waiting : ∀ id ∈ due, m.waits.pendingFor? id = none ∧ ∃ s, m.script? id = some s
  owned : ∀ t x, m.waits.wait? t = some x → ∃ s i, m.script? x.script = some s ∧
    x.site = ⟨s.id, s.current⟩ ∧ s.unit.code[s.current]? = some i ∧
      i.opcode.waitKind? = some x.kind

abbrev Agrees (m : Machine) : Prop := AgreesBut [] m

section

variable {due : List ScriptId} {m m' : Machine} {id : ScriptId} {s s' : Script}

theorem AgreesBut.paused_of_wait (h : AgreesBut due m) {t : Token} {x : Wait}
    (hx : m.waits.wait? t = some x) (hs : m.script? x.script = some s) : s.state = .paused := by
  rw [h.paused x.script s hs, h.indexed.pendingFor?_script hx]
  exact .inl rfl

/-- A script without a wait is put back, and not as a paused one. If it was due, it no longer
is. -/
theorem AgreesBut.put {rest : List ScriptId} (h : AgreesBut due m)
    (hp : m.waits.pendingFor? id = none) (hid : s'.id = id ∧ id.index ≤ m'.lastScript)
    (hlast : m.lastScript ≤ m'.lastScript) (hs' : s'.state ≠ .paused)
    (hrest : ∀ j, j ∈ rest ↔ j ∈ due ∧ id ≠ j) (hnodup : rest.Nodup)
    (hscripts : m'.scripts = m.scripts.insert id s') (hwaits : m'.waits = m.waits) :
    AgreesBut rest m' := by
  have hscript := script?_of_insert hscripts
  refine ⟨hwaits ▸ h.indexed, ?_, ?_, hnodup, ?_, ?_⟩
  · intro j t hj
    rw [hscript] at hj
    by_cases he : id = j
    · simp only [he, if_true, Option.some.injEq] at hj
      exact ⟨hj ▸ he ▸ hid.1, he ▸ hid.2⟩
    · simp only [he, if_false] at hj
      have := h.named j t hj
      exact ⟨this.1, Nat.le_trans this.2 hlast⟩
  · intro j t hj
    rw [hscript] at hj
    rw [hwaits, hrest]
    by_cases he : id = j
    · subst he
      simp only [if_true, Option.some.injEq] at hj
      simp [hp, ← hj, hs']
    · simp only [he, if_false] at hj
      simpa [he] using h.paused j t hj
  · intro j hj
    rw [hrest] at hj
    rw [hwaits, hscript, if_neg hj.2]
    exact h.waiting j hj.1
  · intro t x hx
    rw [hwaits] at hx
    rw [hscript, if_neg (h.indexed.script_ne hp hx).symm]
    exact h.owned t x hx

theorem Agrees.pendingFor?_eq_none (h : Agrees m) (hs : m.script? id = some s)
    (hstate : s.state ≠ .paused) : m.waits.pendingFor? id = none := by
  rw [ne_eq, h.paused id s hs] at hstate
  simpa using hstate

/-! ### Instructions -/

theorem Agrees.replace (h : Agrees m) (hs : m.script? id = some s) (hstate : s.state ≠ .paused)
    (hid : s'.id = id) (hs' : s'.state ≠ .paused)
    (hscripts : m'.scripts = m.scripts.insert id s') (hwaits : m'.waits = m.waits)
    (hlast : m'.lastScript = m.lastScript) : Agrees m' :=
  AgreesBut.put h (h.pendingFor?_eq_none hs hstate)
    ⟨hid, hlast ▸ (h.named id s hs).2⟩ (Nat.le_of_eq hlast.symm) hs' (by simp) List.nodup_nil
    hscripts hwaits

theorem Agrees.pause (h : Agrees m) (hs : m.script? id = some s) (hid : s'.id = id)
    {i : Instruction} (hi : s'.unit.code[s'.current]? = some i) {kind : WaitKind}
    (hkind : i.opcode.waitKind? = some kind) {watched : Option Handle} {pushesResult : Bool}
    {t : Token}
    (hr : m.waits.register ⟨id, s'.current⟩ kind watched pushesResult = .ok (t, m'.waits))
    (hs' : s'.state = .paused) (hscripts : m'.scripts = m.scripts.insert id s')
    (hlast : m'.lastScript = m.lastScript) : Agrees m' := by
  obtain ⟨-, -, hfresh, hpending, hindexed⟩ := h.indexed.register hr
  obtain ⟨-, -, -, hwaits⟩ := Waits.register_eq_ok hr
  have hscript := script?_of_insert hscripts
  have hfor : ∀ j, m'.waits.pendingFor? j = if id = j then some t else m.waits.pendingFor? j := by
    intro j
    simp only [hwaits, Waits.pendingFor?, OrderedMap.get?_insert]
  refine ⟨hindexed, ?_, ?_, List.nodup_nil, by simp, ?_⟩
  · intro j r hj
    rw [hscript] at hj
    by_cases he : id = j
    · simp only [he, if_true, Option.some.injEq] at hj
      exact ⟨hj ▸ he ▸ hid, hlast ▸ he ▸ (h.named id s hs).2⟩
    · simp only [he, if_false] at hj
      exact hlast ▸ h.named j r hj
  · intro j r hj
    rw [hscript] at hj
    rw [hfor]
    by_cases he : id = j
    · simp only [he, if_true, Option.some.injEq] at hj
      simp [he, ← hj, hs']
    · simp only [he, if_false] at hj
      simpa [he] using h.paused j r hj
  · intro u x hx
    rw [Waits.wait?, hpending, OrderedMap.get?_insert] at hx
    by_cases he : t = u
    · simp only [he, if_true, Option.some.injEq] at hx
      subst hx
      exact ⟨s', i, by simp [hscript], by simp [hid], hi, hkind⟩
    · simp only [he, if_false] at hx
      have hfree : m.waits.pendingFor? id = none := (Waits.register_eq_ok hr).2.1
      rw [hscript, if_neg (h.indexed.script_ne hfree hx).symm]
      exact h.owned u x hx

theorem Agrees.step (h : Agrees m) (id : ScriptId) : Agrees (m.step id).2 := by
  obtain he | ⟨s, hs, hstate, he | ⟨i, s₁, scene, hf, hstays, heffect, he⟩⟩ := m.step_cases id
  · rw [he]
    exact h
  · rw [he]
    have hid : s.stop.id = id := (Script.stays_stop s).id.trans (h.named id s hs).1
    have hstop : s.stop.state ≠ .paused := by
      simp [Script.state_stop (s := s) (by simp [hstate, ScriptState.isFinished])]
    exact h.replace hs (by simp [hstate]) hid hstop (by simp [withScript, hid]) rfl rfl
  · rw [he]
    obtain ⟨hid₁, hunit₁, -, -, hcode⟩ := Script.fetch?_eq_some hf
    have hid₁ : s₁.id = id := hid₁.trans (h.named id s hs).1
    have hid : scene.script.id = id := hstays.id.trans hid₁
    have hscripts : (m.withScene scene).scripts = m.scripts.insert id scene.script := by
      simp [withScene, hid]
    cases heffect with
    | kept waits world state | changed c waits world state | issued r waits world state =>
      exact h.replace hs (by simp [hstate]) hid state hscripts waits rfl
    | awaited task t kind waits world state =>
      simp only [hid₁, ← hstays.current] at waits
      have hi : scene.script.unit.code[scene.script.current]? = some i := by
        rw [hstays.unit, hstays.current, hunit₁]
        exact hcode
      exact h.pause hs hid hi kind waits state hscripts rfl

theorem Agrees.spawn (h : Agrees m) (u : CodeUnit) (owner : Option Handle) :
    Agrees (m.spawn u owner).2 := by
  have hnew : m.script? ⟨m.lastScript + 1⟩ = none := by
    cases hs : m.script? ⟨m.lastScript + 1⟩ with
    | none => rfl
    | some s =>
      have hlast := (h.named _ s hs).2
      simp only at hlast
      omega
  have hp : m.waits.pendingFor? ⟨m.lastScript + 1⟩ = none := by
    cases ht : m.waits.pendingFor? ⟨m.lastScript + 1⟩ with
    | none => rfl
    | some t =>
      obtain ⟨x, hx, hid⟩ := (h.indexed.byScript _ t).1 ht
      obtain ⟨s, i, hs, -⟩ := h.owned t x hx
      rw [hid, hnew] at hs
      cases hs
  have hrunning : (Script.start ⟨m.lastScript + 1⟩ u owner m.settings).state ≠ .paused := by
    simp [Script.start]
  exact AgreesBut.put h hp ⟨rfl, Nat.le_refl _⟩ (Nat.le_succ _) hrunning (by simp)
    List.nodup_nil rfl rfl

/-! ### Notices -/

/-- A notice leaves those due whose wakeups it returned. -/
theorem Agrees.deliver (h : Agrees m) (n : Notice) :
    AgreesBut ((m.waits.deliver n).1.map Wakeup.script)
      { m with waits := (m.waits.deliver n).2 } := by
  have hfor := h.indexed.pendingFor?_deliver n
  refine ⟨(h.indexed.deliver n).2.2.2, h.named, ?_, h.indexed.nodup_scripts_deliver n, ?_, ?_⟩
  · intro id s hs
    rw [hfor id, h.paused id s hs]
    by_cases hdue : id ∈ (m.waits.deliver n).1.map Wakeup.script
    · obtain ⟨t, x, hx, rfl, -⟩ := h.indexed.mem_scripts_deliver.1 hdue
      simp only [hdue, if_true, or_true, iff_true]
      exact .inl (by rw [h.indexed.pendingFor?_script hx]; rfl)
    · simp [hdue]
  · intro id hdue
    obtain ⟨t, x, hx, rfl, -⟩ := h.indexed.mem_scripts_deliver.1 hdue
    obtain ⟨s, i, hs, -⟩ := h.owned t x hx
    exact ⟨by rw [hfor, if_pos hdue], s, hs⟩
  · intro t x hx
    exact h.owned t x ((h.indexed.get?_deliver n t x).1 hx).1

/-- A script that is due is paused, so that no wakeup is refused. -/
theorem AgreesBut.wake {k : Wakeup} (h : AgreesBut (k.script :: due) m) :
    ∃ s, m.script? k.script = some s ∧ s.state = .paused ∧ (s.woken k).id = k.script ∧
      m.wake k = some (m.withScript (s.woken k)) ∧ AgreesBut due (m.withScript (s.woken k)) := by
  obtain ⟨hp, s, hs⟩ := h.waiting k.script (by simp)
  obtain ⟨hid, hlast⟩ := h.named k.script s hs
  have hstate : s.state = .paused := (h.paused k.script s hs).2 (by simp)
  obtain ⟨hstays, hwoken⟩ := Script.stays_woken hstate k
  have hid' := hstays.id.trans hid
  refine ⟨s, hs, hstate, hid', by simp [wake_eq, hs, hstate], ?_⟩
  obtain ⟨hnot, hnodup⟩ := List.nodup_cons.1 h.nodup
  refine h.put hp ⟨hid', hlast⟩ (Nat.le_refl _) hwoken ?_ hnodup (by simp [withScript, hid']) rfl
  intro j
  by_cases hj : k.script = j
  · subst hj
    simp [hnot]
  · simp [hj, Ne.symm hj]

theorem AgreesBut.wakeFirst {ks rest : List Wakeup} (woken : Nat)
    (h : AgreesBut ((ks ++ rest).map Wakeup.script) m) :
    AgreesBut (rest.map Wakeup.script) (wakeEach ks woken m).2 := by
  induction ks generalizing woken m with
  | nil => exact h
  | cons k ks ih =>
    obtain ⟨s, -, -, -, hk, h₁⟩ := h.wake
    simp only [wakeEach, hk]
    exact ih (woken + 1) h₁

theorem AgreesBut.wakeAll {ks : List Wakeup} (h : AgreesBut (ks.map Wakeup.script) m) :
    ∃ m', ks.foldlM Machine.wake m = some m' ∧
      (∀ woken, wakeEach ks woken m = (woken + ks.length, m')) ∧ m'.waits = m.waits ∧
        Agrees m' := by
  induction ks generalizing m with
  | nil => exact ⟨m, rfl, fun _ => rfl, rfl, h⟩
  | cons k ks ih =>
    obtain ⟨s, -, -, -, hk, h₁⟩ := h.wake
    obtain ⟨m', hfold, heach, hwaits', h'⟩ := ih h₁
    refine ⟨m', by simp [hk, hfold], ?_, hwaits', h'⟩
    intro woken
    simp only [wakeEach, hk, heach, List.length_cons]
    congr 1
    omega

/-- The scripts woken and the waits that are left are the waits there were. -/
theorem Agrees.deliverEach (h : Agrees m) (notices : List Notice) (woken : Nat) :
    (Machine.deliverEach notices woken m).1 + (Machine.deliverEach notices woken m).2.waits.size =
        woken + m.waits.size ∧
      Agrees (Machine.deliverEach notices woken m).2 := by
  induction notices generalizing woken m with
  | nil => exact ⟨rfl, h⟩
  | cons n notices ih =>
    obtain ⟨m', -, heach, hwaits, h'⟩ := (h.deliver n).wakeAll
    obtain ⟨hsize, hagrees⟩ := ih h' (woken + (m.waits.deliver n).1.length)
    have hlength := h.indexed.length_deliver n
    rw [hwaits] at hsize
    simp only [Machine.deliverEach, heach]
    refine ⟨?_, hagrees⟩
    rw [hsize]
    dsimp only
    omega

theorem Agrees.withWorld (h : Agrees m) (w : World) : Agrees { m with world := w } :=
  ⟨h.indexed, h.named, h.paused, h.nodup, h.waiting, h.owned⟩

theorem Agrees.pump (h : Agrees m) :
    m.pump.1 + m.pump.2.waits.size = m.waits.size ∧ Agrees m.pump.2 := by
  have hdeliver := (h.withWorld m.world.drain.2).deliverEach m.world.notices 0
  rw [Nat.zero_add] at hdeliver
  exact hdeliver

/-! ### Taking scripts out -/

theorem Agrees.restrict (h : Agrees m) (p : ScriptId → Prop) (hindexed : m'.waits.Indexed)
    (hwaits : ∀ t x, m'.waits.wait? t = some x ↔ m.waits.wait? t = some x ∧ p x.script)
    (hscripts : ∀ id s, m'.script? id = some s → m.script? id = some s)
    (hkept : ∀ id s, m.script? id = some s → s.state = .paused → p id → m'.script? id = some s)
    (hloaded : ∀ id s, m'.script? id = some s → s.state = .paused → p id)
    (hlast : m'.lastScript = m.lastScript) : Agrees m' := by
  refine ⟨hindexed, ?_, ?_, List.nodup_nil, by simp, ?_⟩
  · intro id s hs
    rw [hlast]
    exact h.named id s (hscripts id s hs)
  · intro id s hs
    have hm := h.paused id s (hscripts id s hs)
    simp only [List.not_mem_nil, or_false, Option.isSome_iff_exists] at hm ⊢
    constructor
    · intro hstate
      obtain ⟨t, ht⟩ := hm.1 hstate
      obtain ⟨x, hx, rfl⟩ := (h.indexed.byScript id t).1 ht
      have hx' := (hwaits t x).2 ⟨hx, hloaded _ s hs hstate⟩
      exact ⟨t, hindexed.byScript.get? hx'⟩
    · intro h
      obtain ⟨t, ht⟩ := h
      obtain ⟨x, hx, rfl⟩ := (hindexed.byScript id t).1 ht
      exact hm.2 ⟨t, h.indexed.pendingFor?_script ((hwaits t x).1 hx).1⟩
  · intro t x hx
    obtain ⟨hx, hp⟩ := (hwaits t x).1 hx
    obtain ⟨s, i, hs, hsite, hi, hkind⟩ := h.owned t x hx
    have hstate := h.paused_of_wait hx hs
    exact ⟨s, i, hkept x.script s hs hstate hp, hsite, hi, hkind⟩

theorem unload_cases (hi : m.waits.Indexed) (id : ScriptId) :
    m.waits.pendingFor? id = none ∧ (m.unload id).2.waits = m.waits ∧
        (m.unload id).2.world = m.world ∨
      ∃ t x, m.waits.wait? t = some x ∧ x.script = id ∧
        (m.unload id).2.waits = m.waits.without t x ∧
        (m.unload id).2.world = withdraw m.world t x.kind := by
  cases hr : m.waits.releaseScript? id with
  | none =>
    rw [unload_of_none hr]
    exact .inl ⟨hi.releaseScript?_eq_none_iff.1 hr, rfl, rfl⟩
  | some r =>
    obtain ⟨⟨t, x⟩, waits⟩ := r
    obtain ⟨hx, hid, rfl⟩ := hi.releaseScript?_eq_some hr
    rw [unload_of_some hr]
    exact .inr ⟨t, x, hx, hid, rfl, rfl⟩

theorem indexed_unload (hi : m.waits.Indexed) (id : ScriptId) : (m.unload id).2.waits.Indexed := by
  obtain ⟨-, hwaits, -⟩ | ⟨t, x, hx, -, hwaits, -⟩ := unload_cases hi id
  · exact hwaits ▸ hi
  · exact hwaits ▸ hi.without hx

theorem wait?_unload (hi : m.waits.Indexed) (id : ScriptId) (t : Token) :
    (m.unload id).2.waits.wait? t =
      (m.waits.wait? t).filter fun x => decide (x.script ≠ id) := by
  obtain ⟨hp, hwaits, -⟩ | ⟨u, y, hy, hid, hwaits, -⟩ := unload_cases hi id
  · rw [hwaits]
    cases hx : m.waits.wait? t with
    | none => rfl
    | some x =>
      simp [Option.filter, hi.script_ne hp hx]
  · rw [hwaits, Waits.wait?_without]
    cases hx : m.waits.wait? t with
    | none => simp
    | some x =>
      by_cases ht : u = t
      · subst ht
        obtain rfl := Option.some.inj (hx.symm.trans hy)
        simp [Option.filter, hid]
      · have hne : x.script ≠ id := fun he => ht (hi.byScript.injective hy hx (hid.trans he.symm))
        simp [Option.filter, ht, hne]

theorem Agrees.unload (h : Agrees m) (id : ScriptId) : Agrees (m.unload id).2 := by
  have hscript := script?_unload m id
  have hwaits : ∀ t x, (m.unload id).2.waits.wait? t = some x ↔
      m.waits.wait? t = some x ∧ x.script ≠ id := by
    intro t x
    rw [wait?_unload h.indexed, Option.filter_eq_some_iff, decide_eq_true_iff]
  obtain ⟨waits, world, he⟩ := m.unload_eq id
  refine h.restrict (fun j => j ≠ id) (indexed_unload h.indexed id) hwaits ?_ ?_ ?_ (by rw [he])
  · intro j s hs
    rw [hscript, Option.ite_none_left_eq_some] at hs
    exact hs.2
  · intro j s hs _ hj
    rw [hscript, if_neg (Ne.symm hj)]
    exact hs
  · intro j s hs _
    rw [hscript, Option.ite_none_left_eq_some] at hs
    exact Ne.symm hs.1

theorem Agrees.reap (h : Agrees m) : Agrees m.reap.2 := by
  refine h.restrict (fun _ => True) h.indexed (by simp [Machine.reap]) ?_ ?_ (by simp) rfl
  · intro id s hs
    rw [script?_reap, Option.filter_eq_some_iff] at hs
    exact hs.1
  · intro id s hs hstate _
    rw [script?_reap, Option.filter_eq_some_iff]
    exact ⟨hs, by simp [hstate, ScriptState.isFinished]⟩

theorem Agrees.shutdown (h : Agrees m) : Agrees m.shutdown := by
  obtain ⟨-, hpending, -, hindexed⟩ := h.indexed.releaseAll
  refine h.restrict (fun _ => False) hindexed ?_ ?_ (by simp) ?_ rfl
  · intro t x
    simp [Machine.shutdown, Waits.wait?, hpending]
  · simp [Machine.shutdown, script?]
  · simp [Machine.shutdown, script?]

theorem keep_agrees : Keep Agrees where
  spawn _ u owner h := h.spawn u owner
  step _ id h := h.step id
  pump _ h := h.pump.2
  reap _ h := h.reap
  unload _ id h := h.unload id
  shutdown _ h := h.shutdown

theorem agrees_start (w : World) (settings : MachineSettings) (seed : UInt64) :
    Agrees (start w settings seed) :=
  ⟨Waits.indexed_empty, by simp [start, script?], by simp [start, script?], List.nodup_nil,
    by simp, by simp [start, Waits.wait?]⟩

theorem Reachable.agrees {host : Host} (hscript : ∀ s t, ¬host.script s t) (h : Reachable host m) :
    Agrees m :=
  keep_agrees.reachable (fun _ _ _ _ => agrees_start _ _ _) (fun _ w _ h => h.withWorld w)
    (fun _ _ s t _ ht => absurd ht (hscript s t)) h

/-! ### Consequences -/

theorem Agrees.await_eq (h : Agrees m) (hs : m.script? id = some s) (hstate : s.state = .running)
    {scene : Scene} (hid : scene.script.id = id) (hwaits : scene.waits = m.waits) (task : Task) :
    ∃ t waits, scene.await task =
        (.ok .paused, ⟨scene.script.pause, task.start scene.world t, waits, scene.dice⟩) ∧
      m.waits.wait? t = none ∧
      (∀ u, waits.wait? u =
        if t = u then
          some ⟨id, ⟨id, scene.script.current⟩, task.kind, task.watched, task.pushesResult⟩
        else m.waits.wait? u) ∧
      waits.size = m.waits.size + 1 := by
  have hp := h.pendingFor?_eq_none hs (by simp [hstate])
  obtain ⟨t, waits, hr⟩ := h.indexed.register_isOk ⟨id, scene.script.current⟩ hp
    task.kind task.watched task.pushesResult
  obtain ⟨-, -, hfresh, hpending, -⟩ := h.indexed.register hr
  refine ⟨t, waits, ?_, OrderedMap.get?_eq_none_iff.2 hfresh, ?_, ?_⟩
  · simp only [Scene.await, hid, hwaits, hr]
  · intro u
    simp only [Waits.wait?, hpending, OrderedMap.get?_insert]
  · rw [Waits.size, hpending, OrderedMap.size, OrderedMap.entries_insert_of_notMem hfresh,
      List.length_append]
    rfl

theorem Agrees.await (h : Agrees m) (hs : m.script? id = some s) (hstate : s.state = .running)
    {scene : Scene} (hid : scene.script.id = id) (hwaits : scene.waits = m.waits) (task : Task) :
    (scene.await task).1 = .ok .paused := by
  obtain ⟨t, waits, he, -⟩ := h.await_eq hs hstate hid hwaits task
  rw [he]

theorem Agrees.size_eq_zero (h : Agrees m) (hfinished : m.allFinished = true) :
    m.waits.size = 0 := by
  rw [Waits.size, OrderedMap.size_eq_length_keys, List.length_eq_zero_iff,
    List.eq_nil_iff_forall_not_mem]
  intro t ht
  obtain ⟨x, hx⟩ := OrderedMap.mem_keys_iff.1 ht
  obtain ⟨s, i, hs, -⟩ := h.owned t x hx
  have hstate := h.paused_of_wait hx hs
  have hmem : s ∈ m.scripts.values :=
    List.mem_map.2 ⟨(x.script, s), OrderedMap.get?_eq_some_iff.1 hs, rfl⟩
  have := List.all_eq_true.1 hfinished s hmem
  simp [hstate, ScriptState.isFinished] at this

/-- A script is paused just when it has a pending wait, which belongs to the instruction it executed
last. So no running script is refused a wait, and no wakeup is refused. -/
theorem scripts_and_waits_agree {host : Host} (hscript : ∀ s t, ¬host.script s t)
    (h : Reachable host m) :
    (∀ id s, m.script? id = some s →
        (s.state = .paused ↔ (m.waits.pendingFor? id).isSome)) ∧
      (∀ t x, m.waits.wait? t = some x → ∃ s i, m.script? x.site.script = some s ∧
        x.site = ⟨s.id, s.current⟩ ∧ s.unit.code[s.current]? = some i ∧
          i.opcode.waitKind? = some x.kind) ∧
      (∀ id s i s₁ stack task, m.script? id = some s → s.state = .running →
        s.fetch? = some (i, s₁) →
          (Scene.await ⟨{ s₁ with stack }, m.world, m.waits, m.dice⟩ task).1 = .ok .paused) ∧
      (∀ earlier n later m₁, m.world.notices = earlier ++ n :: later →
        m₁ = (deliverEach earlier 0 { m with world := m.world.drain.2 }).2 →
          ((m₁.waits.deliver n).1.foldlM wake
            { m₁ with waits := (m₁.waits.deliver n).2 }).isSome) ∧
      m.pump.1 + m.pump.2.waits.size = m.waits.size ∧
      (m.allFinished = true → m.waits.size = 0) := by
  have hm := h.agrees hscript
  refine ⟨fun id s hs => by simpa using hm.paused id s hs, fun t x hx => ?_, ?_, ?_, hm.pump.1,
    hm.size_eq_zero⟩
  · rw [hm.indexed.siteScript t x hx]
    exact hm.owned t x hx
  · intro id s i s₁ stack task hs hstate hf
    have hid := (Script.fetch?_eq_some hf).1.trans (hm.named id s hs).1
    exact hm.await hs hstate hid rfl task
  · rintro earlier n later m₁ - rfl
    have hm₁ := ((hm.withWorld m.world.drain.2).deliverEach earlier 0).2
    obtain ⟨m', hfold, -⟩ := (hm₁.deliver n).wakeAll
    rw [hfold]
    rfl

def nap (seconds : Binary32) : CodeUnit :=
  ⟨0, #[], #[⟨.pushNumber, .number seconds, 0⟩, ⟨.wait, .none, 0⟩], rfl⟩

def overdue : Machine :=
  let m := ((start (World.start {} []) {} 0).spawn (nap Binary32.one) none).2
  let m := (m.spawn (nap (Binary32.ofInt 2)) none).2.tick.2
  { m with world := (m.world.advance Binary32.one).2 }

theorem reachable_overdue {host : Host}
    (hadvance : ∀ w : World, host.world w (w.advance Binary32.one).2) : Reachable host overdue := by
  have hspawned : Reachable host ((start (World.start {} []) {} 0).spawn (nap Binary32.one) none).2 :=
    (reachable_start host {} [] {} 0).operate (.spawn _ none)
  have hwaiting := (hspawned.operate (.spawn (nap (Binary32.ofInt 2)) none)).operate .tick
  exact hwaiting.move (.world _ _ (hadvance _))

theorem scripts_and_waits_agree_overdue :
    (∀ s t, ¬(⟨fun _ _ => True, fun _ _ => False⟩ : Host).script s t) ∧
      Reachable ⟨fun _ _ => True, fun _ _ => False⟩ overdue ∧
      (overdue.script? ⟨1⟩).map Script.state = some .paused ∧
      (overdue.waits.pendingFor? ⟨1⟩).isSome ∧
      overdue.world.notices = [.alarmFired ⟨1⟩] ∧ overdue.pump.1 = 1 ∧
      1 + overdue.pump.2.waits.size = overdue.waits.size := by
  have hscript : ∀ s t, ¬(⟨fun _ _ => True, fun _ _ => False⟩ : Host).script s t :=
    fun _ _ h => h
  have hreachable : Reachable ⟨fun _ _ => True, fun _ _ => False⟩ overdue :=
    reachable_overdue fun _ => trivial
  have hstate : (overdue.script? ⟨1⟩).map Script.state = some .paused := by decide
  have hpump : overdue.pump.1 = 1 := by decide
  obtain ⟨hpaused, -, -, -, hsize, -⟩ := scripts_and_waits_agree hscript hreachable
  obtain ⟨s, hs, hpausedState⟩ := Option.map_eq_some_iff.1 hstate
  rw [hpump] at hsize
  exact ⟨hscript, hreachable, hstate, (hpaused _ s hs).1 hpausedState, by decide, hpump, hsize⟩

end

end WorldScript.Machine
