import WorldScript.Proofs.Machine.Beats
import WorldScript.Proofs.Script.Limits

/-!
Suspension is transparent. A script that pauses goes on, when it is woken, as if the instruction it
paused at had just been executed: until then nothing reaches it, and what wakes it changes its state
alone, except that an answer is pushed.

Main statement: `suspension_is_transparent`.
-/
set_option autoImplicit false

namespace WorldScript

/-! ### Pausing -/

namespace Scene

variable {s s' : Scene} {i : Instruction}

theorem perform_paused {a : Action} (h : s.perform a = (.ok .paused, s')) :
    ∃ (task : Task) (t : Token), a = .await task ∧
      s.waits.register ⟨s.script.id, s.script.current⟩ task.kind task.watched task.pushesResult =
        .ok (t, s'.waits) ∧
      s'.script = s.script.pause := by
  have houtcome := perform_outcome h
  cases a with
  | await task =>
    simp only [perform, await] at h
    split at h
    case h_1 t waits hr =>
      cases h
      exact ⟨task, t, rfl, hr, rfl⟩
    case h_2 => cases h
  | _ => simp [Action.outcomes] at houtcome

theorem settle_paused (hs : s.script.state = .running) (h : s.settle i = (.paused, s')) :
    ∃ (task : Task) (t : Token), i.opcode.waitKind? = some task.kind ∧
      i.opcode.answers = task.pushesResult ∧
      s.waits.register ⟨s.script.id, s.script.current⟩ task.kind task.watched task.pushesResult =
        .ok (t, s'.waits) ∧
      i.opcode.taken ≤ s.script.stack.length ∧
      s'.script =
        { s.script with stack := s.script.stack.drop i.opcode.taken, state := .paused } := by
  rcases hx : s.execute i with ⟨e | outcome, scene⟩
  · rw [settle_of_error hx] at h
    cases h
  · rw [settle_of_ok hx] at h
    cases h
    obtain ⟨a, rest, hr, hp⟩ := execute_ok hx
    obtain ⟨task, t, rfl, hregister, hscript⟩ := perform_paused hp
    have hkind : i.opcode.waitKind? = some task.kind :=
      ((i.draws_action s.script s.world) _ _ _ hr).2 _ rfl
    obtain ⟨hlength, rfl, ha⟩ := (Instruction.takes_action_of_isApi s.script s.world
      (Opcode.isApi_of_waitKind? hkind)).ok hr
    have hanswers : i.opcode.answers = task.pushesResult := by
      cases ha with
      | await _ _ hanswers => exact hanswers
    refine ⟨task, t, hkind, hanswers, hregister, hlength, ?_⟩
    exact hscript.trans (Script.pause_of_running hs)

end Scene

/-! ### Waking -/

namespace Script

/-- A script that has paused at an instruction, after a notice that has ended its wait. The answer
of an attack or a dialog is pushed when it comes to its end, and is 0 if there is none. -/
def after (s : Script) (op : Opcode) : Notice → Script
  | .commandFinished _ result | .windowClosed _ result =>
    if op.answers then
      { s with state := .running, stack := result.getD Value.zero :: s.stack }
    else { s with state := .running }
  | .commandDisqualified _ reason => { s with state := .interrupted (.disqualified reason) }
  | .alarmFired _ | .entityDestroyed _ | .worldPaused _ => { s with state := .running }

theorem woken_resumption {s : Script} {x : Wait} {result : Option Value}
    (hroom : x.pushesResult = true → s.stack.length < s.maxStackDepth) :
    s.woken (Waits.resumption result x) =
      if x.pushesResult then
        { s with state := .running, stack := result.getD Value.zero :: s.stack }
      else { s with state := .running } := by
  cases hpush : x.pushesResult with
  | true => simp [Waits.resumption, hpush, woken, push, hroom hpush]
  | false => simp [Waits.resumption, hpush, woken]

theorem woken_eq_after {s : Script} {op : Opcode} {n : Notice} {t : Token} {x : Wait} {k : Wakeup}
    (hs : s.state = .paused) (hkind : op.waitKind? = some x.kind)
    (hanswers : op.answers = x.pushesResult)
    (hroom : x.pushesResult = true → s.stack.length < s.maxStackDepth)
    (hk : n.wakeup? t x = some k) : s.woken k = s.after op n := by
  cases n with
  | alarmFired u =>
    simp only [Notice.wakeup?, Option.ite_none_right_eq_some, Option.some.injEq] at hk
    obtain ⟨-, halarm, rfl⟩ := hk
    have hnone : x.pushesResult = false := by
      rw [← hanswers]
      rw [halarm] at hkind
      cases op <;> first | rfl | cases hkind
    simp [woken_resumption hroom, hnone, after]
  | commandFinished u result | windowClosed u result =>
    simp only [Notice.wakeup?, Option.ite_none_right_eq_some, Option.some.injEq] at hk
    obtain ⟨-, -, rfl⟩ := hk
    simp [woken_resumption hroom, hanswers, after]
  | commandDisqualified u reason =>
    simp only [Notice.wakeup?, Option.ite_none_right_eq_some, Option.some.injEq] at hk
    obtain ⟨-, -, rfl⟩ := hk
    simp [woken, interrupt, hs, ScriptState.isFinished, after]
  | entityDestroyed h =>
    simp only [Notice.wakeup?, Option.ite_none_right_eq_some, Option.some.injEq] at hk
    obtain ⟨-, rfl⟩ := hk
    rfl
  | worldPaused paused => cases hk

theorem after_same (s : Script) (op : Opcode) (n : Notice) :
    (s.after op n).unit = s.unit ∧ (s.after op n).position = s.position := by
  unfold after
  split <;> first | exact ⟨rfl, rfl⟩ | (split <;> exact ⟨rfl, rfl⟩)

end Script

namespace Machine

variable {m : Machine} {id : ScriptId} {t : Token} {x : Wait} {s : Script}

structure Suspended (id : ScriptId) (t : Token) (x : Wait) (s : Script) (m : Machine) : Prop where
  agrees : Agrees m
  script : m.script? id = some s
  wait : m.waits.wait? t = some x
  owner : x.script = id

theorem Suspended.paused (h : Suspended id t x s m) : s.state = .paused :=
  h.agrees.paused_of_wait h.wait (h.owner ▸ h.script)

/-- What ends a suspension: the script is taken out, or a notice ends its wait. -/
inductive Ends (id : ScriptId) (t : Token) (x : Wait) (s : Script) (m : Machine) (b : Beat) : Prop
  | removed : b = .unload id ∨ b = .shutdown → (m.beat b).script? id = none → Ends id t x s m b
  | woken (n : Notice) (k : Wakeup) : b = .deliver n → n.wakeup? t x = some k →
    (m.beat b).script? id = some (s.woken k) → Ends id t x s m b

/-- A beat leaves a suspended script as it is, or ends the suspension. -/
theorem Suspended.beat (h : Suspended id t x s m) (b : Beat) :
    Suspended id t x s (m.beat b) ∨
      (m.beat b).waits.wait? t = none ∧ Ends id t x s m b := by
  have hagrees := h.agrees.beat b
  have hstate := h.paused
  have hid := h.owner
  have hlast := (h.agrees.named id s h.script).2
  cases b with
  | spawn u owner =>
    exact .inl ⟨hagrees, (script?_spawn m u owner hlast).trans h.script, h.wait, hid⟩
  | step j =>
    by_cases hj : j = id
    · -- a paused script does not step
      have hnone : m.step j = (none, m) := by
        refine step_of_ne_running fun s' hs' => ?_
        rw [hj, h.script] at hs'
        cases hs'
        rw [hstate]
        exact ScriptState.noConfusion
      refine .inl ?_
      simp only [Machine.beat, hnone]
      exact h
    · exact .inl ⟨hagrees, (h.agrees.script?_step hj).trans h.script,
        h.agrees.wait?_step h.wait j, hid⟩
  | deliver n =>
    have hwaits := (h.agrees.afterNotice n).1
    have hget := h.agrees.indexed.get?_deliver n
    cases hk : n.wakeup? t x with
    | none =>
      -- no other wait is for this script, so no wakeup is
      refine .inl ⟨hagrees, (h.agrees.script?_deliver n ?_).trans h.script, ?_, hid⟩
      · intro u y hy hname
        obtain rfl := h.agrees.indexed.byScript.injective h.wait hy (hid.trans hname.symm)
        obtain rfl := Option.some.inj (h.wait.symm.trans hy)
        exact hk
      · rw [Machine.beat, hwaits]
        exact (hget t x).2 ⟨h.wait, hk⟩
    | some k =>
      refine .inr ⟨?_, .woken n k rfl hk ?_⟩
      · rw [Machine.beat, hwaits, Option.eq_none_iff_forall_ne_some]
        intro y hy
        obtain ⟨hy, hnone⟩ := (hget t y).1 hy
        obtain rfl := Option.some.inj (h.wait.symm.trans hy)
        rw [hk] at hnone
        cases hnone
      · have hwoken := h.agrees.script?_deliver_of_wakeup? h.wait hk (hid.symm ▸ h.script)
        rw [hid] at hwoken
        exact hwoken
  | reap =>
    refine .inl ⟨hagrees, ?_, h.wait, hid⟩
    rw [Machine.beat, script?_reap, h.script]
    simp [hstate, ScriptState.isFinished]
  | unload j =>
    have hscript := script?_unload m j id
    by_cases hj : j = id
    · rw [if_pos hj] at hscript
      refine .inr ⟨?_, .removed (.inl (by rw [hj])) hscript⟩
      obtain ⟨hnone, -, -⟩ | ⟨u, y, hy, hname, hwaits, -⟩ := unload_cases h.agrees.indexed j
      · rw [hj, ← hid, h.agrees.indexed.pendingFor?_script h.wait] at hnone
        cases hnone
      · obtain rfl := h.agrees.indexed.byScript.injective h.wait hy
          (hid.trans (hj.symm.trans hname.symm))
        rw [Machine.beat, hwaits, Waits.wait?_without, if_pos rfl]
    · rw [if_neg hj] at hscript
      refine .inl ⟨hagrees, hscript.trans h.script, ?_, hid⟩
      obtain ⟨-, hwaits, -⟩ | ⟨u, y, hy, hname, hwaits, -⟩ := unload_cases h.agrees.indexed j
      · rw [Machine.beat, hwaits]
        exact h.wait
      · have hne : u ≠ t := by
          rintro rfl
          obtain rfl := Option.some.inj (h.wait.symm.trans hy)
          exact hj (hname.symm.trans hid)
        rw [Machine.beat, hwaits, Waits.wait?_without, if_neg hne]
        exact h.wait
  | shutdown =>
    obtain ⟨-, hpending, -⟩ := h.agrees.indexed.releaseAll
    refine .inr ⟨?_, .removed (.inr rfl) ?_⟩
    · simp [Machine.beat, Machine.shutdown, Waits.wait?, hpending]
    · simp [Machine.beat, Machine.shutdown, script?]
  | world w => exact .inl ⟨hagrees, h.script, h.wait, hid⟩

theorem Suspended.pendingFor? (h : Suspended id t x s m) : m.waits.pendingFor? id = some t := by
  rw [← h.owner]
  exact h.agrees.indexed.pendingFor?_script h.wait

/-- Once a suspension has ended, its token does not come back. So it goes on as long as the token is
pending. -/
theorem Suspended.play (h : Suspended id t x s m) {bs : List Beat}
    (hpending : (m.play bs).waits.pendingFor? id = some t) : Suspended id t x s (m.play bs) := by
  induction bs generalizing m with
  | nil => exact h
  | cons b bs ih =>
    obtain hb | ⟨hgone, -⟩ := h.beat b
    · exact ih hb hpending
    · have hissued : t.index ≤ m.waits.lastToken :=
        h.agrees.indexed.issued t (OrderedMap.mem_keys_iff.2 ⟨x, h.wait⟩)
      have hbeat := h.agrees.beat b
      have hnone : ((m.beat b).play bs).waits.pending.get? t = none :=
        hbeat.wait?_play (Nat.le_trans hissued (h.agrees.ages_beat b).last) hgone bs
      obtain ⟨y, hy, -⟩ := ((hbeat.play bs).indexed.byScript id t).1 hpending
      rw [hnone] at hy
      cases hy

/-- A step that ends in a pause suspends its script. If the script gets an answer, then there is
room for it, because the arguments of the question are off the stack. -/
theorem Agrees.suspended (h : Agrees m) (hs : m.script? id = some s)
    (hstack : s.stack.length ≤ s.maxStackDepth) (hstep : (m.step id).1 = some .paused) :
    ∃ i t x s₁, s.unit.code[s.position]? = some i ∧ s₁.unit = s.unit ∧
      s₁.position = s.position + 1 ∧ i.opcode.waitKind? = some x.kind ∧
      i.opcode.answers = x.pushesResult ∧
      (x.pushesResult = true → s₁.stack.length < s₁.maxStackDepth) ∧
      Suspended id t x s₁ (m.step id).2 := by
  have hagrees := h.step id
  obtain he | ⟨s', hs', hstate, ⟨-, he⟩ | ⟨i, s₁, outcome, scene, hf, hsettle, he⟩⟩ :=
    m.step_outcome_cases id
  · rw [he] at hstep
    cases hstep
  · rw [he] at hstep
    cases hstep
  · obtain rfl := Option.some.inj (hs.symm.trans hs')
    obtain ⟨hi, rfl⟩ := Script.fetch?_eq_some_iff.1 hf
    rw [he] at hstep hagrees ⊢
    obtain rfl : outcome = .paused := Option.some.inj hstep
    obtain ⟨task, t, hkind, hanswers, hregister, hlength, hscript⟩ :=
      Scene.settle_paused hstate hsettle
    have hid := (h.named id s hs).1
    obtain ⟨-, -, -, hpending, -⟩ := h.indexed.register hregister
    let x : Wait := ⟨s.id, ⟨s.id, s.position⟩, task.kind, task.watched, task.pushesResult⟩
    refine ⟨i, t, x, scene.script, hi, by rw [hscript], by rw [hscript], hkind, hanswers, ?_,
      hagrees, ?_, ?_, hid⟩
    · intro hpush
      have htaken := Opcode.taken_pos_of_answers (hanswers.trans hpush)
      simp only [hscript, List.length_drop] at hlength ⊢
      omega
    · have hplace : scene.script.id = id := by rw [hscript, hid]
      simp only [withScene, script?, hplace, OrderedMap.get?_insert, if_true]
    · change scene.waits.pending.get? t = some x
      rw [hpending, OrderedMap.get?_insert, if_pos rfl]

/-- A script that pauses stays as it is, with the next position before it, until it is taken out or
a notice ends its wait, which changes its state and may push an answer. -/
theorem suspension_is_transparent {host : Host} (hscript : ∀ s t, ¬host.script s t)
    (h : Reachable host m) (hs : m.script? id = some s)
    (hstep : (m.step id).1 = some .paused) :
    (∀ (m : Machine) op, ∃ bs, m.operate op = m.play bs) ∧
      ∃ i t s₁, s.unit.code[s.position]? = some i ∧ (m.step id).2.script? id = some s₁ ∧
        s₁.position = s.position + 1 ∧ s₁.unit = s.unit ∧
        (m.step id).2.waits.pendingFor? id = some t ∧
        ∀ bs m₁, (m.step id).2.play bs = m₁ → m₁.waits.pendingFor? id = some t →
          m₁.script? id = some s₁ ∧
            ∀ b m₂, m₁.beat b = m₂ → m₂.waits.pendingFor? id ≠ some t →
              (b = .unload id ∨ b = .shutdown) ∧ m₂.script? id = none ∨
                ∃ n, b = .deliver n ∧ m₂.script? id = some (s₁.after i.opcode n) ∧
                  ∀ cs, .step id ∉ cs → ∀ s₂, (m₂.play cs).script? id = some s₂ →
                    s₂ = s₁.after i.opcode n ∧
                      s₂.fetch?.map Prod.fst = s.unit.code[s.position + 1]? := by
  refine ⟨operate_eq_play, ?_⟩
  have hlimits := (h.scripts (P := fun settings s => s.WithinLimits settings)
    (fun _ _ c hs => hs.call c) (fun _ _ _ _ => Script.withinLimits_start _ _ _ _)
    fun s t ht => absurd ht (hscript s t)) id s hs
  have hstack : s.stack.length ≤ s.maxStackDepth := by
    rw [hlimits.2.stackLimit]
    exact hlimits.2.stack
  obtain ⟨i, t, x, s₁, hi, hunit, hposition, hkind, hanswers, hroom, hsuspended⟩ :=
    (h.agrees hscript).suspended hs hstack hstep
  refine ⟨i, t, s₁, hi, hsuspended.script, hposition, hunit, hsuspended.pendingFor?, ?_⟩
  rintro bs m₁ rfl hpending
  have h₁ := hsuspended.play hpending
  refine ⟨h₁.script, ?_⟩
  rintro b m₂ rfl hended
  obtain h₂ | ⟨-, hends⟩ := h₁.beat b
  · exact absurd h₂.pendingFor? hended
  cases hends with
  | removed hb hnone => exact .inl ⟨hb, hnone⟩
  | woken n k hb hk hwoken =>
    have hstate := (Script.stays_woken h₁.paused k).2
    rw [Script.woken_eq_after h₁.paused hkind hanswers hroom hk] at hwoken hstate
    refine .inr ⟨n, hb, hwoken, ?_⟩
    intro cs hcs s₂ hs₂
    have hagrees := h₁.agrees.beat b
    have hlast := (hagrees.named id _ hwoken).2
    have hsame : s₂ = s₁.after i.opcode n :=
      hagrees.script?_play hlast (fun s' hs' => Option.some.inj (hs'.symm.trans hwoken)) hstate
        hcs s₂ hs₂
    refine ⟨hsame, ?_⟩
    obtain ⟨hunit', hposition'⟩ := s₁.after_same i.opcode n
    rw [hsame, Script.fetch?, hunit', hposition', hunit, hposition, Option.map_map]
    exact Option.map_id'

def question : CodeUnit :=
  ⟨0, #["Who?"],
    #[⟨.pushString, .stringIndex 0, 0⟩, ⟨.dialog, .none, 0⟩, ⟨.pop, .none, 0⟩], rfl⟩

def asking : Machine :=
  (((start (World.start {} []) {} 0).spawn question none).2.step ⟨1⟩).2

theorem suspension_is_transparent_asking :
    (∀ s t, ¬Host.worldOnly.script s t) ∧ Reachable .worldOnly asking ∧
      (asking.step ⟨1⟩).1 = some .paused ∧
      ∃ s₁ s₂, (asking.step ⟨1⟩).2.script? ⟨1⟩ = some s₁ ∧ s₁.position = 2 ∧
        ((asking.step ⟨1⟩).2.play [.deliver (.alarmFired ⟨7⟩)]).script? ⟨1⟩ = some s₁ ∧
        ((asking.step ⟨1⟩).2.play
          [.deliver (.alarmFired ⟨7⟩), .deliver (.windowClosed ⟨1⟩ none)]).script? ⟨1⟩ = some s₂ ∧
        s₂ = { s₁ with state := .running, stack := Value.zero :: s₁.stack } ∧
        s₂.fetch?.map Prod.fst = some ⟨.pop, .none, 0⟩ := by
  have hscript : ∀ s t, ¬Host.worldOnly.script s t := fun _ _ h => h
  have hreachable : Reachable .worldOnly asking :=
    ((reachable_start .worldOnly {} [] {} 0).operate (.spawn question none)).operate (.step ⟨1⟩)
  have hstep : (asking.step ⟨1⟩).1 = some .paused := by decide
  obtain ⟨s, hs⟩ : ∃ s, asking.script? ⟨1⟩ = some s := ⟨_, rfl⟩
  obtain ⟨-, i, t, s₁, hi, hs₁, hposition, -, ht, hrest⟩ :=
    suspension_is_transparent hscript hreachable hs hstep
  obtain rfl := Option.some.inj hs
  obtain rfl : t = ⟨1⟩ := Option.some.inj (ht.symm.trans (by decide))
  obtain rfl : i = ⟨.dialog, .none, 0⟩ := Option.some.inj (hi.symm.trans rfl)
  obtain ⟨hkept, hends⟩ := hrest [.deliver (.alarmFired ⟨7⟩)] _ rfl (by decide)
  obtain ⟨hb, -⟩ | ⟨n, hb, hwoken, hnext⟩ :=
    hends (.deliver (.windowClosed ⟨1⟩ none)) _ rfl (by decide)
  · cases hb with
    | inl hb => cases hb
    | inr hb => cases hb
  · cases hb
    obtain ⟨-, hfetch⟩ := hnext [] (by simp) _ hwoken
    exact ⟨hscript, hreachable, hstep, s₁, _, hs₁, hposition, hkept, hwoken, rfl, hfetch⟩

end Machine

end WorldScript
