import WorldScript.Proofs.Machine.Beats

/-!
Finishing is final. A finished script is never due to be woken and never executes an instruction, so
that it stays as it is until it is taken out; and when all scripts are finished, only a new one can
change that.

Main statement: `finished_is_final`.
-/
set_option autoImplicit false

namespace WorldScript.Machine

variable {m : Machine} {id : ScriptId} {s : Script}

/-! ### One finished script -/

/-- A script is finished, if it has not been taken out already. -/
structure Final (id : ScriptId) (s : Script) (m : Machine) : Prop where
  agrees : Agrees m
  finished : s.state.isFinished = true
  issued : id.index ≤ m.lastScript
  only : ∀ s', m.script? id = some s' → s' = s

theorem Agrees.final (h : Agrees m) (hs : m.script? id = some s)
    (hfinished : s.state.isFinished = true) : Final id s m :=
  ⟨h, hfinished, (h.named id s hs).2, fun _ hs' => Option.some.inj (hs'.symm.trans hs)⟩

theorem Final.ne_running (h : Final id s m) : s.state ≠ .running := by
  intro he
  simpa [he, ScriptState.isFinished] using h.finished

theorem Final.ne_paused (h : Final id s m) : s.state ≠ .paused := by
  intro he
  simpa [he, ScriptState.isFinished] using h.finished

theorem Final.beat (h : Final id s m) (b : Beat) : Final id s (m.beat b) := by
  refine ⟨h.agrees.beat b, h.finished, Nat.le_trans h.issued (m.lastScript_beat b), ?_⟩
  intro s' hs'
  obtain ⟨hnew, -⟩ | ⟨s₀, hs₀, hcomes⟩ := h.agrees.comes_beat b hs'
  · exact absurd h.issued (Nat.not_le_of_gt hnew)
  · obtain rfl := h.only s₀ hs₀
    cases hcomes with
    | kept he => exact he
    | woken k hpaused => exact absurd hpaused h.ne_paused
    | finished _ hrunning | executed _ _ _ _ _ hrunning => exact absurd hrunning h.ne_running

theorem Final.play (h : Final id s m) (bs : List Beat) : Final id s (m.play bs) := by
  induction bs generalizing m with
  | nil => exact h
  | cons b bs ih => exact ih (h.beat b)

theorem Final.pendingFor? (h : Final id s m) : m.waits.pendingFor? id = none :=
  h.agrees.pendingFor?_of_not_paused fun s' hs' => h.only s' hs' ▸ h.ne_paused

theorem Final.step (h : Final id s m) : m.step id = (none, m) :=
  step_of_ne_running fun s' hs' => h.only s' hs' ▸ h.ne_running

theorem Final.run (h : Final id s m) : m.run id = m := runFor_of_step_none h.step _

theorem Final.not_due (h : Final id s m) (n : Notice) :
    ∀ k ∈ (m.waits.deliver n).1, k.script ≠ id := by
  rintro k hk rfl
  have hdue : k.script ∈ (m.waits.deliver n).1.map Wakeup.script := List.mem_map_of_mem hk
  have hdeliver := h.agrees.deliver n
  obtain ⟨-, s', hs'⟩ := hdeliver.waiting k.script hdue
  have hpaused : s'.state = .paused := (hdeliver.paused k.script s' hs').2 (.inr hdue)
  exact absurd (h.only s' hs' ▸ hpaused) h.ne_paused

theorem Final.wake (h : Final id s m) {k : Wakeup} (hk : k.script = id) : m.wake k = none := by
  rw [wake_eq, hk]
  cases hs : m.script? id with
  | none => rfl
  | some s' =>
    rw [Option.bind_some, h.only s' hs, if_neg h.ne_paused]

/-! ### No other scripts -/

theorem allFinished_iff : m.allFinished = true ↔
    ∀ id s, m.script? id = some s → s.state.isFinished = true := by
  simp only [allFinished, List.all_eq_true, OrderedMap.values, List.forall_mem_map]
  constructor
  · intro h id s hs
    exact h (id, s) (OrderedMap.get?_eq_some_iff.1 hs)
  · rintro h ⟨id, s⟩ hs
    exact h id s (OrderedMap.get?_eq_some_iff.2 hs)

theorem Agrees.allFinished_beat (h : Agrees m) (hall : m.allFinished = true) {b : Beat}
    (hb : ∀ u owner, b ≠ .spawn u owner) : (m.beat b).allFinished = true := by
  rw [allFinished_iff] at hall ⊢
  intro id s' hs'
  obtain ⟨-, u, owner, he, -⟩ | ⟨s, hs, -⟩ := h.comes_beat b hs'
  · exact absurd he (hb u owner)
  · have hfinal := (h.final hs (hall id s hs)).beat b
    exact hfinal.only s' hs' ▸ hfinal.finished

theorem Agrees.allFinished_play {bs : List Beat} (h : Agrees m) (hall : m.allFinished = true)
    (hbs : ∀ b ∈ bs, ∀ u owner, b ≠ .spawn u owner) : (m.play bs).allFinished = true := by
  induction bs generalizing m with
  | nil => exact hall
  | cons b bs ih =>
    rw [List.forall_mem_cons] at hbs
    exact ih (h.beat b) (h.allFinished_beat hall hbs.1) hbs.2

theorem Agrees.allFinished_operate (h : Agrees m) (hall : m.allFinished = true) {op : Operation}
    (hop : ∀ u owner, op ≠ .spawn u owner) : (m.operate op).allFinished = true := by
  obtain ⟨bs, hbs, he⟩ := m.operate_eq_play_of_has op
  rw [he]
  refine h.allFinished_play hall ?_
  rintro b hb u owner rfl
  have hhas := hbs _ hb
  cases op with
  | spawn u owner => exact hop u owner rfl
  | _ => simp [Operation.Has] at hhas

/-! ### Runs -/

theorem exists_play_of_moves {host : Host} (hscript : ∀ s t, ¬host.script s t) {m' : Machine}
    (h : Relation.ReflTransGen (Move host) m m') : ∃ bs, m' = m.play bs := by
  induction h with
  | refl => exact ⟨[], rfl⟩
  | @tail m₁ m₂ _ hmove ih =>
    obtain ⟨bs, rfl⟩ := ih
    cases hmove with
    | operate op =>
      obtain ⟨cs, he⟩ := operate_eq_play (m.play bs) op
      exact ⟨bs ++ cs, by rw [he, play_append]⟩
    | world w => exact ⟨bs ++ [.world w], by rw [play_append]; rfl⟩
    | script id s t _ ht => exact absurd ht (hscript s t)

/-- Once a script is finished it stays as it is for as long as it is loaded, and has no wait. -/
theorem finished_is_final {host : Host} (hscript : ∀ s t, ¬host.script s t)
    (h : Reachable host m) :
    (∀ m', Relation.ReflTransGen (Move host) m m' → ∃ bs, m' = m.play bs) ∧
      (∀ bs₀ id s, (m.play bs₀).script? id = some s → s.state.isFinished = true →
        ∀ bs m', (m.play bs₀).play bs = m' →
          (∀ s', m'.script? id = some s' → s' = s) ∧ m'.waits.pendingFor? id = none ∧
            m'.step id = (none, m') ∧ m'.run id = m' ∧
            (∀ n, ∀ k ∈ (m'.waits.deliver n).1, k.script ≠ id) ∧
            ∀ k : Wakeup, k.script = id → m'.wake k = none) ∧
      (m.allFinished = true →
        (∀ op : Operation, (∀ u owner, op ≠ .spawn u owner) →
            (m.operate op).allFinished = true) ∧
          ∀ w : World, ({ m with world := w } : Machine).allFinished = true) := by
  have hm := h.agrees hscript
  refine ⟨fun m' => exists_play_of_moves hscript, ?_, fun hall => ⟨?_, fun w => hall⟩⟩
  · rintro bs₀ id s hs hfinished bs m' rfl
    have hfinal := ((hm.play bs₀).final hs hfinished).play bs
    exact ⟨hfinal.only, hfinal.pendingFor?, hfinal.step, hfinal.run, hfinal.not_due,
      fun k => hfinal.wake⟩
  · exact fun op hop => hm.allFinished_operate hall hop

def rested : Machine := { overdue with world := (overdue.world.advance Binary32.one).2 }.tick.2

theorem finished_is_final_rested :
    (∀ s t, ¬Host.worldOnly.script s t) ∧ Reachable .worldOnly rested ∧
      (∃ s, rested.script? ⟨1⟩ = some s ∧ s.state = .stopped ∧
        ∀ m', rested.play [.deliver (.alarmFired ⟨2⟩), .step ⟨1⟩] = m' →
          (∀ s', m'.script? ⟨1⟩ = some s' → s' = s) ∧ m'.step ⟨1⟩ = (none, m')) ∧
      rested.allFinished = true ∧ (rested.operate .tick).allFinished = true := by
  have hscript : ∀ s t, ¬Host.worldOnly.script s t := fun _ _ h => h
  have hoverdue : Reachable .worldOnly overdue := reachable_overdue fun _ => trivial
  have hreachable : Reachable .worldOnly rested :=
    (hoverdue.move (.world _ (overdue.world.advance Binary32.one).2 trivial)).operate .tick
  obtain ⟨-, hfinal, hall⟩ := finished_is_final hscript hreachable
  have hstate : (rested.script? ⟨1⟩).map Script.state = some .stopped := by decide
  have hfinished : rested.allFinished = true := by decide
  obtain ⟨s, hs, hstopped⟩ := Option.map_eq_some_iff.1 hstate
  refine ⟨hscript, hreachable, ⟨s, hs, hstopped, ?_⟩, hfinished,
    (hall hfinished).1 .tick (by simp)⟩
  intro m' hm'
  have hrest := hfinal [] ⟨1⟩ s hs (by rw [hstopped]; rfl) _ m' hm'
  exact ⟨hrest.1, hrest.2.2.1⟩

end WorldScript.Machine
