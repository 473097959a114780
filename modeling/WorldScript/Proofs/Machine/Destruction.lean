import WorldScript.Proofs.Machine.Deeds
import WorldScript.Proofs.Machine.Suspension

/-!
Destruction resumes. The report of a destruction stands before all that is reported later, so that
it reaches those who wait for a command of the one destroyed before any other end of that command
can.

Main statements: `Suspended.resumed` and `Doomed.pump`.
-/
set_option autoImplicit false

namespace WorldScript.Machine

variable {m : Machine} {id : ScriptId} {t : Token} {x : Wait} {s : Script} {d : Deed} {e : Handle}
  {n : Notice}

/-! ### Delivering notices one after the other -/

theorem Agrees.wait?_delivers (h : Agrees m) (ns : List Notice) (t : Token) (x : Wait) :
    (m.play (ns.map .deliver)).waits.wait? t = some x ↔
      m.waits.wait? t = some x ∧ ∀ n ∈ ns, n.wakeup? t x = none := by
  induction ns generalizing m with
  | nil => simp [Machine.play]
  | cons n ns ih =>
    obtain ⟨hwaits, hagrees⟩ := h.afterNotice n
    have hfirst : (m.deliver n).waits.wait? t = some x ↔
        m.waits.wait? t = some x ∧ n.wakeup? t x = none := by
      rw [hwaits]
      exact h.indexed.get?_deliver n t x
    rw [List.forall_mem_cons, ← and_assoc, ← hfirst]
    exact ih hagrees

theorem Agrees.wait?_pump (h : Agrees m) (t : Token) (x : Wait) :
    m.pump.2.waits.wait? t = some x ↔
      m.waits.wait? t = some x ∧ ∀ n ∈ m.world.notices, n.wakeup? t x = none := by
  rw [pump_eq_play]
  exact (h.withWorld m.world.drain.2).wait?_delivers m.world.notices t x

/-- No notice reaches a script that does not wait. -/
theorem Agrees.script?_delivers (h : Agrees m) (hs : m.script? id = some s)
    (hstate : s.state ≠ .paused) (ns : List Notice) :
    (m.play (ns.map .deliver)).script? id = some s := by
  induction ns generalizing m with
  | nil => exact hs
  | cons n ns ih =>
    refine ih (h.afterNotice n).2 ((h.script?_deliver n ?_).trans hs)
    rintro t x hx rfl
    exact absurd (h.paused_of_wait hx hs) hstate

theorem Suspended.deliver (h : Suspended id t x s m) (hn : n.wakeup? t x = none) :
    Suspended id t x s (m.deliver n) := by
  obtain hb | ⟨-, hends⟩ := h.beat (.deliver n)
  · exact hb
  · cases hends with
    | removed hb => simp at hb
    | woken n' k hb hk =>
      cases hb
      rw [hn] at hk
      cases hk

/-- The notice that ends the wait of a script wakes it, and no later one does. -/
theorem Suspended.woken_first {k : Wakeup} (h : Suspended id t x s m)
    (hn : n.wakeup? t x = some k) (later : List Notice) :
    (m.play ((n :: later).map .deliver)).script? id = some (s.woken k) := by
  obtain rfl := h.owner
  have hwoken : (m.deliver n).script? x.script = some (s.woken k) :=
    h.agrees.script?_deliver_of_wakeup? h.wait hn h.script
  have hstate := (Script.stays_woken h.paused k).2
  exact (h.agrees.afterNotice n).2.script?_delivers hwoken hstate later

/-- A notice resumes a script if those before it can do nothing but that, whatever comes later. -/
theorem Suspended.resumed (h : Suspended id t x s m) {earlier : List Notice}
    (hearlier : ∀ n ∈ earlier,
      n.wakeup? t x = none ∨ n.wakeup? t x = some (.resume id none))
    (hn : n.wakeup? t x = some (.resume id none)) (later : List Notice) :
    (m.play ((earlier ++ n :: later).map .deliver)).script? id =
      some { s with state := .running } := by
  induction earlier generalizing m with
  | nil => exact h.woken_first hn later
  | cons a earlier ih =>
    rw [List.forall_mem_cons] at hearlier
    obtain hnone | hresume := hearlier.1
    · exact ih (h.deliver hnone) hearlier.2
    · exact h.woken_first hresume _

/-! ### Before the notices are delivered -/

/-- A deed that leaves a suspended script, and the notices for it, in their places. -/
def Deed.Spares (id : ScriptId) (d : Deed) : Prop :=
  d ≠ .pump ∧ d ≠ .call .drain ∧ d ≠ .unload id ∧ d ≠ .shutdown

theorem Suspended.does (h : Suspended id t x s m) (hd : d.Spares id) :
    Suspended id t x s (m.does d) := by
  obtain ⟨hpump, -, hunload, hshutdown⟩ := hd
  obtain ⟨b, he, hdeliver, hremoves, hclears⟩ := m.does_eq_beat hpump
  rw [he]
  obtain hb | ⟨-, hends⟩ := h.beat b
  · exact hb
  · cases hends with
    | removed hb =>
      obtain hb | hb := hb
      · exact absurd (hremoves id hb) hunload
      · exact absurd (hclears hb) hshutdown
    | woken n k hb => exact absurd hb (hdeliver n)

theorem Suspended.after {ds : List Deed} (h : Suspended id t x s m)
    (hds : ∀ d ∈ ds, d.Spares id) :
    Suspended id t x s (m.after ds) ∧ m.world.notices <+: (m.after ds).world.notices := by
  induction ds generalizing m with
  | nil => exact ⟨h, List.prefix_refl _⟩
  | cons d ds ih =>
    rw [List.forall_mem_cons] at hds
    obtain ⟨hd, hrest⟩ := hds
    obtain ⟨hafter, hnotices⟩ := ih (h.does hd) hrest
    exact ⟨hafter, (m.notices_does hd.1 hd.2.1).trans hnotices⟩

theorem Destroys.spares (h : m.Destroys d e) (id : ScriptId) : d.Spares id := by
  obtain rfl | ⟨j, rfl⟩ := h.cases.1 <;> simp [Deed.Spares]

/-- Before a command ends otherwise, a notice can only resume those who wait for it. -/
theorem wakeup?_of_command (hkind : x.kind = .command)
    (hfinished : ∀ result, n ≠ .commandFinished t result)
    (hdisqualified : ∀ reason, n ≠ .commandDisqualified t reason) :
    n.wakeup? t x = none ∨ n.wakeup? t x = some (.resume x.script none) := by
  cases n with
  | alarmFired u | windowClosed u result => exact .inl (by simp [Notice.wakeup?, hkind])
  | commandFinished u result =>
    have hne : ¬u = t := fun he => hfinished result (he ▸ rfl)
    exact .inl (by simp [Notice.wakeup?, hne])
  | commandDisqualified u reason =>
    have hne : ¬u = t := fun he => hdisqualified reason (he ▸ rfl)
    exact .inl (by simp [Notice.wakeup?, hne])
  | entityDestroyed h =>
    by_cases hh : x.watched = some h
    · exact .inr (by simp [Notice.wakeup?, hh])
    · exact .inl (by simp [Notice.wakeup?, hh])
  | worldPaused paused => exact .inl rfl

/-! ### Waits for somebody who was destroyed -/

/-- A wait that is over, or is about to be: who it watches was destroyed, which is still to be
delivered. -/
structure Doomed (t : Token) (e : Handle) (m : Machine) : Prop where
  agrees : Agrees m
  issued : t.index ≤ m.waits.lastToken
  heard : ∀ x, m.waits.wait? t = some x →
    x.watched = some e ∧ .entityDestroyed e ∈ m.world.notices

theorem Doomed.pump (h : Doomed t e m) : m.pump.2.waits.wait? t = none := by
  rw [Option.eq_none_iff_forall_ne_some]
  intro x hx
  obtain ⟨hx, hnone⟩ := (h.agrees.wait?_pump t x).1 hx
  obtain ⟨hwatched, hmem⟩ := h.heard x hx
  have hended := hnone _ hmem
  simp [Notice.wakeup?, hwatched] at hended

theorem Doomed.does (h : Doomed t e m) (hdrain : d ≠ .call .drain) : Doomed t e (m.does d) := by
  have hages := h.agrees.ages_does d
  refine ⟨h.agrees.does d, Nat.le_trans h.issued hages.last, ?_⟩
  intro x hx
  by_cases hpump : d = .pump
  · subst hpump
    rw [Machine.does, h.pump] at hx
    cases hx
  · obtain hx | hfresh := hages.old t x hx
    · obtain ⟨hwatched, hmem⟩ := h.heard x hx
      exact ⟨hwatched, (m.notices_does hpump hdrain).subset hmem⟩
    · exact absurd h.issued (Nat.not_le_of_gt hfresh)

theorem Doomed.after {ds : List Deed} (h : Doomed t e m) (hds : .call .drain ∉ ds) :
    Doomed t e (m.after ds) := by
  induction ds generalizing m with
  | nil => exact h
  | cons d ds ih =>
    simp only [List.mem_cons, not_or] at hds
    exact ih (h.does (Ne.symm hds.1)) hds.2

/-- Only the destruction can have ended the wait. -/
theorem Agrees.doomed (h : Agrees m) (hx : m.waits.wait? t = some x) (hwatched : x.watched = some e)
    (hd : m.Destroys d e) : Doomed t e (m.does d) := by
  have hages := h.ages_does d
  have hissued : t.index ≤ m.waits.lastToken :=
    h.indexed.issued t (OrderedMap.mem_keys_iff.2 ⟨x, hx⟩)
  refine ⟨h.does d, Nat.le_trans hissued hages.last, ?_⟩
  intro y hy
  obtain hy | hfresh := hages.old t y hy
  · obtain rfl := Option.some.inj (hx.symm.trans hy)
    exact ⟨hwatched, by rw [hd.cases.2]; simp⟩
  · exact absurd hissued (Nat.not_le_of_gt hfresh)

/-- Who waits for somebody that is destroyed runs on after the next delivery, with the stack it has.
Whatever else is done, the wait is over then. -/
theorem destruction_resumes {host : Host} (hscript : ∀ s t, ¬host.script s t)
    (h : Reachable host m) (hx : m.waits.wait? t = some x) (hwatched : x.watched = some e)
    (hd : m.Destroys d e) :
    (∀ (n : Machine) op, ∃ ds, (∀ c, .call c ∉ ds) ∧ n.operate op = n.after ds) ∧
      (∀ s, m.script? x.script = some s → x.kind = .command →
        (∀ result, .commandFinished t result ∉ m.world.notices) →
        (∀ reason, .commandDisqualified t reason ∉ m.world.notices) →
          s.state = .paused ∧
          ∀ ds m', (∀ d' ∈ ds, d'.Spares x.script) → (m.does d).after ds = m' →
            m'.script? x.script = some s ∧
              m'.pump.2.script? x.script = some { s with state := .running } ∧
              m'.pump.2.waits.wait? t = none) ∧
      ∀ ds m', .call .drain ∉ ds → (m.does d).after ds = m' →
        m'.pump.2.waits.wait? t = none ∧ ∀ id, m'.pump.2.waits.pendingFor? id ≠ some t := by
  have hm := h.agrees hscript
  have hdoomed := hm.doomed hx hwatched hd
  refine ⟨operate_eq_after, ?_, ?_⟩
  · intro s hs hkind hfinished hdisqualified
    have hsuspended : Suspended x.script t x s m := ⟨hm, hs, hx, rfl⟩
    refine ⟨hsuspended.paused, ?_⟩
    rintro ds m' hds rfl
    obtain ⟨hafter, later, hnotices⟩ := (hsuspended.does (hd.spares x.script)).after hds
    have hdrain : .call .drain ∉ ds := fun hmem => (hds _ hmem).2.1 rfl
    refine ⟨hafter.script, ?_, (hdoomed.after hdrain).pump⟩
    have hfirst : Suspended x.script t x s
        { (m.does d).after ds with world := ((m.does d).after ds).world.drain.2 } :=
      ⟨hafter.agrees.withWorld _, hafter.script, hafter.wait, rfl⟩
    -- an earlier destruction under the same handle would resume the script as well
    have hearlier : ∀ n ∈ m.world.notices,
        n.wakeup? t x = none ∨ n.wakeup? t x = some (.resume x.script none) := by
      intro n hn
      refine wakeup?_of_command hkind ?_ ?_
      · rintro result rfl
        exact hfinished result hn
      · rintro reason rfl
        exact hdisqualified reason hn
    have hresumes : (Notice.entityDestroyed e).wakeup? t x = some (.resume x.script none) := by
      simp [Notice.wakeup?, hwatched]
    rw [pump_eq_play, ← hnotices, hd.cases.2, List.append_assoc, List.singleton_append]
    exact hfirst.resumed hearlier hresumes later
  · rintro ds m' hds rfl
    have hgone := (hdoomed.after hds).pump
    refine ⟨hgone, fun id hpending => ?_⟩
    obtain ⟨y, hy, -⟩ := (((hm.does d).after ds).pump.2.indexed.byScript id t).1 hpending
    rw [Waits.wait?, hy] at hgone
    cases hgone

def errand : CodeUnit :=
  ⟨0, #[],
    #[⟨.pushNumber, .number Binary32.one, 0⟩, ⟨.pushNumber, .number (Binary32.ofInt 5), 0⟩,
      ⟨.pushNumber, .number Binary32.zero, 0⟩, ⟨.pushEntity, .entity ⟨1⟩, 0⟩,
      ⟨.moveTo, .none, 0⟩], rfl⟩

def murder : CodeUnit :=
  ⟨0, #[], #[⟨.pushEntity, .entity ⟨1⟩, 0⟩, ⟨.destroyEntity, .none, 0⟩], rfl⟩

def lonely : World := World.start {} [{ handle := ⟨1⟩, kind := .creature }]

def threatened : Machine :=
  let m := ((start lonely {} 0).spawn errand none).2
  ((((m.spawn murder none).2).run ⟨1⟩).step ⟨2⟩).2

theorem destruction_resumes_threatened :
    (∀ s t, ¬Host.worldOnly.script s t) ∧ Reachable .worldOnly threatened ∧
      threatened.waits.wait? ⟨1⟩ = some ⟨⟨1⟩, ⟨⟨1⟩, 4⟩, .command, some ⟨1⟩, false⟩ ∧
      threatened.Destroys (.step ⟨2⟩) ⟨1⟩ ∧
      ∃ s, threatened.script? ⟨1⟩ = some s ∧ s.state = .paused ∧
        ∀ m', (threatened.does (.step ⟨2⟩)).after
            [.call (.advance Binary32.one), .step ⟨2⟩] = m' →
          m'.script? ⟨1⟩ = some s ∧
            m'.pump.2.script? ⟨1⟩ = some { s with state := .running } ∧
            m'.pump.2.waits.wait? ⟨1⟩ = none ∧ ∀ id, m'.pump.2.waits.pendingFor? id ≠ some ⟨1⟩ := by
  have hscript : ∀ s t, ¬Host.worldOnly.script s t := fun _ _ h => h
  have hreachable : Reachable .worldOnly threatened := by
    refine ((Reachable.operate ?_ (.spawn murder none)).operate (.run ⟨1⟩)).operate (.step ⟨2⟩)
    exact (reachable_start _ _ _ {} 0).operate (.spawn errand none)
  have hx : threatened.waits.wait? ⟨1⟩ =
      some ⟨⟨1⟩, ⟨⟨1⟩, 4⟩, .command, some ⟨1⟩, false⟩ := by decide
  have hd : threatened.Destroys (.step ⟨2⟩) ⟨1⟩ := by constructor <;> decide
  have hnotices : threatened.world.notices = [] := by decide
  obtain ⟨-, hresumes, hnobody⟩ := destruction_resumes hscript hreachable hx rfl hd
  obtain ⟨s, hs⟩ : ∃ s, threatened.script? ⟨1⟩ = some s := ⟨_, rfl⟩
  obtain ⟨hpaused, hafter⟩ := hresumes s hs rfl (by simp [hnotices]) (by simp [hnotices])
  refine ⟨hscript, hreachable, hx, hd, s, hs, hpaused, ?_⟩
  intro m' hm'
  obtain ⟨hkept, hresumed, hgone⟩ := hafter _ m' (by simp [Deed.Spares]) hm'
  exact ⟨hkept, hresumed, hgone, (hnobody _ m' (by simp) hm').2⟩

end WorldScript.Machine
