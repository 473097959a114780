import WorldScript.Proofs.Execution.Dialogs
import WorldScript.Proofs.Machine.Answers
import WorldScript.Proofs.Machine.Finality
import WorldScript.Proofs.Machine.Tokens

/-!
Dialogs are modal. As long as the host only lets time pass and answers, one dialog is open at a
time, under the token of a script that waits for the answer. A script that waits for the answer to a
dialog which is no longer open has its answer among the notices.

Main statement: `dialogs_are_modal`.
-/
set_option autoImplicit false

namespace WorldScript

/-- A host that lets time pass, answers dialogs, and sets how this is done. -/
def Host.timely : Host where
  world w w' := ∃ c : World.Call, c.IsTimely ∧ w' = w.call c

structure Wait.IsDialog (x : Wait) : Prop where
  kind : x.kind = .window
  answers : x.pushesResult = true

def Script.answered (s : Script) (choice : Binary32) : Script :=
  { s with state := .running, stack := .number choice :: s.stack }

section

variable {ws ws' : Waits} {w w' : World} {t : Token} {x : Wait}

/-! ### Who is asked -/

/-- One dialog is open at a time. It is open for a script that waits for the answer, and a script that
waits for an answer has its dialog open, or the answer is reported. -/
structure Asking (ws : Waits) (w : World) : Prop where
  issued : Issued ws w
  distinct : w.standing.Nodup
  modal : w.Modal
  held : ∀ t, w.Asks t → ∃ x, ws.wait? t = some x ∧ x.IsDialog
  asked : ∀ t x, ws.wait? t = some x → x.IsDialog →
    x.watched = none ∧ (w.Asks t ∨ ∃ choice, w.Answered t choice)

namespace Asking

theorem aside (h : Asking ws w) (hissued : Issued ws w') (hdistinct : w'.standing.Nodup)
    (k : w.Aside w') : Asking ws w' where
  issued := hissued
  distinct := hdistinct
  modal := k.modal h.modal
  held t ht := by
    obtain ⟨text, hd⟩ := ht
    exact h.held t ⟨text, k.dialogs.symm.trans hd⟩
  asked t x hx hdialog := by
    obtain ⟨hwatched, hasks | ⟨choice, hanswered⟩⟩ := h.asked t x hx hdialog
    · exact ⟨hwatched, .inl (hasks.aside k)⟩
    · exact ⟨hwatched, .inr ⟨choice, hanswered.mono k.notices⟩⟩

theorem register (h : Asking ws w) {site : Site} {task : Task}
    (htask : ∀ text, task ≠ .request (.dialog text))
    (hr : ws.register site task.kind task.watched task.pushesResult = .ok (t, ws')) :
    Asking ws' w := by
  obtain ⟨ht, hlast, hfresh, hpending, hindexed⟩ := h.issued.indexed.register hr
  have hget : ∀ u, ws'.wait? u =
      if t = u then some ⟨site.script, site, task.kind, task.watched, task.pushesResult⟩
      else ws.wait? u := by
    intro u
    rw [Waits.wait?, hpending, OrderedMap.get?_insert, Waits.wait?]
  have hold : ∀ k u, (k, u) ∈ w.standing → u.index ≤ ws.lastToken := h.issued.issued
  refine ⟨⟨hindexed, fun k u hu => ?_, fun k u y hu hy => ?_⟩, h.distinct, h.modal, ?_, ?_⟩
  · have := hold k u hu
    omega
  · have hne : ¬t = u := by
      rintro rfl
      have := hold k t hu
      omega
    rw [hget, if_neg hne] at hy
    exact h.issued.kind k u y hu hy
  · intro u hu
    obtain ⟨y, hy, hdialog⟩ := h.held u hu
    have hne : ¬t = u := by
      rintro rfl
      exact hfresh (OrderedMap.mem_keys_iff.2 ⟨y, hy⟩)
    exact ⟨y, by rw [hget, if_neg hne, hy], hdialog⟩
  · intro u y hy hdialog
    rw [hget] at hy
    split at hy
    case isTrue =>
      cases hy
      obtain ⟨hkind, hanswers⟩ := hdialog
      cases task with
      | alarm seconds => cases hkind
      | request r =>
        cases r with
        | dialog text => exact absurd rfl (htask text)
        | fade seconds => cases hanswers
        | walk | talk | strike => cases hkind
    case isFalse => exact h.asked u y hy hdialog

theorem opens (h : Asking ws w) (hmain : w.interface = .main) {site : Site} {text : String}
    (hr : ws.register site .window none true = .ok (t, ws')) :
    Asking ws' (w.issue (.dialog text) (some t)) := by
  obtain ⟨ht, hlast, hfresh, hpending, -⟩ := h.issued.indexed.register hr
  obtain ⟨hnone, hmodal, hasks⟩ := World.modal_open h.modal hmain text t
  have hget : ∀ u, ws'.wait? u =
      if t = u then some ⟨site.script, site, .window, none, true⟩ else ws.wait? u := by
    intro u
    rw [Waits.wait?, hpending, OrderedMap.get?_insert, Waits.wait?]
  have hissued : Issued ws' ((Task.request (.dialog text)).start w t) := h.issued.start hr
  refine ⟨hissued,
    h.issued.nodup_start h.distinct (.request (.dialog text)) (by omega), hmodal, ?_, ?_⟩
  · rintro u ⟨text', hd⟩
    obtain ⟨text'', hd'⟩ := hasks
    rw [hd', List.singleton_inj, Dialog.mk.injEq, Option.some.injEq] at hd
    obtain ⟨-, rfl⟩ := hd
    exact ⟨_, by rw [hget, if_pos rfl], rfl, rfl⟩
  · intro u y hy hdialog
    rw [hget] at hy
    split at hy
    case isTrue hu =>
      cases hy
      exact ⟨rfl, .inl (hu ▸ hasks)⟩
    case isFalse =>
      obtain ⟨hwatched, ⟨text', hd⟩ | ⟨choice, hanswered⟩⟩ := h.asked u y hy hdialog
      · rw [hnone] at hd
        cases hd
      · exact ⟨hwatched, .inr ⟨choice, hanswered.mono (List.prefix_refl _)⟩⟩

theorem withdraw (h : Asking ws w) (hx : ws.wait? t = some x) :
    Asking (ws.without t x) (Machine.withdraw w t x.kind) := by
  have hnot : ¬(Machine.withdraw w t x.kind).Asks t := by
    by_cases hkind : x.kind = .window
    case pos => exact World.not_asks_withdraw w t hkind
    case neg =>
      rintro ⟨text, hd⟩
      have hasks : w.Asks t := by
        cases hk : x.kind with
        | window => exact absurd hk hkind
        | alarm =>
          rw [hk] at hd
          exact ⟨text, hd⟩
        | command =>
          rw [hk] at hd
          exact absurd ⟨text, hd⟩ (World.not_asks_withdraw w t (rfl : WaitKind.window = .window))
      obtain ⟨y, hy, hdialog⟩ := h.held t hasks
      obtain rfl := Option.some.inj (hx.symm.trans hy)
      exact hkind hdialog.kind
  refine ⟨h.issued.withdraw hx, World.nodup_withdraw h.distinct _ _,
    World.modal_withdraw h.modal _ _, ?_, ?_⟩
  · intro u hu
    have hne : t ≠ u := by
      rintro rfl
      exact hnot hu
    obtain ⟨y, hy, hdialog⟩ := h.held u ((World.asks_withdraw hne _).1 hu)
    exact ⟨y, by rw [Waits.wait?_without, if_neg hne, hy], hdialog⟩
  · intro u y hy hdialog
    rw [Waits.wait?_without, Option.ite_none_left_eq_some] at hy
    obtain ⟨hne, hy⟩ := hy
    obtain ⟨hwatched, hasks | ⟨choice, hanswered⟩⟩ := h.asked u y hy hdialog
    · exact ⟨hwatched, .inl ((World.asks_withdraw hne _).2 hasks)⟩
    · have hsame := World.notices_withdraw w t x.kind
      exact ⟨hwatched, .inr ⟨choice, hanswered.mono (hsame ▸ List.prefix_refl _)⟩⟩

theorem releaseEach (h : Asking ws w) (tokens : List Token) :
    Asking (Waits.releaseEach tokens ws).2
      ((Waits.releaseEach tokens ws).1.foldl (fun w e => Machine.withdraw w e.1 e.2.kind) w) := by
  induction tokens generalizing ws w with
  | nil => exact h
  | cons t tokens ih =>
    unfold Waits.releaseEach
    cases hx : ws.pending.get? t with
    | none => simpa [Waits.release?, hx] using ih h
    | some x => simpa [Waits.release?_of_get? hx] using ih (h.withdraw hx)

theorem call (h : Asking ws w) {c : World.Call} (hc : c.IsTimely) : Asking ws (w.call c) := by
  have hpasses : c.passes = [] := by
    cases c with
    | issue | setAlarm => exact hc.elim
    | _ => rfl
  have hissued := h.issued.call hpasses
  have hdistinct := World.nodup_call h.distinct hpasses
  obtain hside | ⟨d, choice, -, hcloses⟩ := World.speech_call h.modal hc
  · exact h.aside hissued hdistinct hside
  · refine ⟨hissued, hdistinct, hcloses.modal, ?_, ?_⟩
    · rintro t ⟨text, hd⟩
      rw [hcloses.dialogs] at hd
      cases hd
    · intro t x hx hdialog
      obtain ⟨hwatched, hasks | ⟨choice', hanswered⟩⟩ := h.asked t x hx hdialog
      · exact ⟨hwatched, .inr ⟨choice, hcloses.answered h.distinct hasks⟩⟩
      · refine ⟨hwatched, .inr ⟨choice', hanswered.mono ?_⟩⟩
        exact (List.prefix_append _ _).trans hcloses.notices

end Asking

theorem World.Answered.first {choice : Binary32} (h : w.Answered t choice) (hx : x.IsDialog)
    (hwatched : x.watched = none) :
    ∃ earlier later n, w.notices = earlier ++ n :: later ∧
      (∀ n ∈ earlier, n.wakeup? t x = none) ∧
      n.wakeup? t x = some (Waits.resumption (some (.number choice)) x) := by
  obtain ⟨earlier, later, hn, hfirst⟩ := h
  refine ⟨earlier, later, _, hn, fun n hmem => ?_, by simp [Notice.wakeup?, hx.kind]⟩
  cases n with
  | windowClosed u result =>
    have hne : ¬u = t := by
      rintro rfl
      exact hfirst result hmem
    simp [Notice.wakeup?, hne]
  | alarmFired | commandFinished | commandDisqualified => simp [Notice.wakeup?, hx.kind]
  | entityDestroyed => simp [Notice.wakeup?, hwatched]
  | worldPaused => rfl

theorem Asking.silent (h : Asking ws w) (ht : w.Asks t) (hx : x.IsDialog)
    (hwatched : x.watched = none) : ∀ n ∈ w.notices, n.wakeup? t x = none := by
  intro n hmem
  cases n with
  | windowClosed u result =>
    have hne : ¬u = t := by
      rintro rfl
      exact World.silent_of_asks h.distinct ht result hmem
    simp [Notice.wakeup?, hne]
  | alarmFired | commandFinished | commandDisqualified => simp [Notice.wakeup?, hx.kind]
  | entityDestroyed => simp [Notice.wakeup?, hwatched]
  | worldPaused => rfl

end

namespace Machine

variable {m m' : Machine} {id : ScriptId} {t : Token} {x : Wait} {s : Script} {choice : Binary32}

theorem asking_step (id : ScriptId) (h : Asking m.waits m.world) :
    Asking (m.step id).2.waits (m.step id).2.world := by
  have hissued := issued_step id h.issued
  have hdistinct := nodup_step id h.issued h.distinct
  obtain he | ⟨s, -, -, ⟨-, he⟩ | ⟨i, s₁, outcome, scene, -, hsettle, he⟩⟩ :=
    m.step_outcome_cases id
  · rw [he]
    exact h
  · rw [he]
    exact h
  · rw [he] at hissued hdistinct ⊢
    change Issued scene.waits scene.world at hissued
    change scene.world.standing.Nodup at hdistinct
    change Asking scene.waits scene.world
    have hspeech := Scene.speech_settle ⟨s₁, m.world, m.waits, m.dice⟩ i
    rw [hsettle] at hspeech
    cases hspeech with
    | opened text u _ main waits world =>
      rw [world]
      exact h.opens main waits
    | aside world waits =>
      obtain hwaits | ⟨task, u, htask, hregister⟩ := waits
      · rw [hwaits] at hissued ⊢
        exact h.aside hissued hdistinct world
      · exact (h.register htask hregister).aside hissued hdistinct world

theorem keep_asking : Keep fun m => Agrees m ∧ Asking m.waits m.world where
  spawn _ u owner := fun ⟨hm, h⟩ => ⟨hm.spawn u owner, h⟩
  step _ id := fun ⟨hm, h⟩ => ⟨hm.step id, asking_step id h⟩
  reap _ := fun ⟨hm, h⟩ => ⟨hm.reap, h⟩
  unload m id := by
    rintro ⟨hm, h⟩
    refine ⟨hm.unload id, ?_⟩
    obtain ⟨-, hwaits, hworld⟩ | ⟨t, x, hx, -, hwaits, hworld⟩ := unload_cases hm.indexed id
    · rw [hwaits, hworld]
      exact h
    · rw [hwaits, hworld]
      exact h.withdraw hx
  shutdown m := fun ⟨hm, h⟩ => ⟨hm.shutdown, h.releaseEach m.waits.pending.keys⟩
  pump m := by
    rintro ⟨hm, h⟩
    have hissued := keep_issued.pump m h.issued
    have hget := hm.wait?_pump
    refine ⟨hm.pump.2, ?_⟩
    rw [world_pump] at hissued ⊢
    refine ⟨hissued, World.nodup_call h.distinct (c := .drain) rfl,
      ⟨h.modal.single, h.modal.interface⟩, ?_, ?_⟩
    · intro t ht
      obtain ⟨x, hx, hdialog⟩ := h.held t ht
      obtain ⟨hwatched, -⟩ := h.asked t x hx hdialog
      exact ⟨x, (hget t x).2 ⟨hx, h.silent ht hdialog hwatched⟩, hdialog⟩
    · intro t x hx hdialog
      obtain ⟨hx, hnone⟩ := (hget t x).1 hx
      obtain ⟨hwatched, hasks | ⟨choice, hanswered⟩⟩ := h.asked t x hx hdialog
      · exact ⟨hwatched, .inl hasks⟩
      · obtain ⟨earlier, later, n, hn, -, hk⟩ := hanswered.first hdialog hwatched
        rw [hnone n (by simp [hn])] at hk
        cases hk

theorem Reachable.run {host : Host} (h : Reachable host m)
    (hrun : Relation.ReflTransGen (Move host) m m') : Reachable host m' := by
  obtain ⟨worldSettings, specs, settings, seed, hbefore⟩ := h
  exact ⟨worldSettings, specs, settings, seed, hbefore.trans hrun⟩

theorem Reachable.asking (h : Reachable .timely m) : Asking m.waits m.world := by
  have hboth : Agrees m ∧ Asking m.waits m.world := by
    refine keep_asking.reachable ?_ ?_ ?_ h
    · intro worldSettings specs settings seed
      have hnone : (start (World.start worldSettings specs) settings seed).world.standing = [] :=
        rfl
      refine ⟨agrees_start _ _ _, ⟨Waits.indexed_empty, by simp [hnone], by simp [hnone]⟩,
        by simp [hnone], ⟨by simp [start, World.start], rfl⟩, ?_, ?_⟩
      · rintro t ⟨text, hd⟩
        cases hd
      · simp [start, Waits.wait?]
    · rintro m w ⟨c, hc, rfl⟩ ⟨hm, h⟩
      exact ⟨hm.withWorld _, h.call hc⟩
    · rintro m id s t - ht -
      exact False.elim ht
  exact hboth.2

/-! ### Answers reach who asked -/

theorem Suspended.answered_pump (h : Suspended id t x s m)
    (hfits : s.stack.length < s.maxStackDepth) (hdialog : x.IsDialog) (hwatched : x.watched = none)
    (hanswered : m.world.Answered t choice) :
    m.pump.2.script? id = some (s.answered choice) ∧ m.pump.2.waits.wait? t = none := by
  obtain ⟨earlier, later, n, hn, hearlier, hk⟩ := hanswered.first hdialog hwatched
  have hpump := h.woken_pump hn hearlier hk
  rw [Script.woken_resumption fun _ => hfits, if_pos hdialog.answers] at hpump
  exact hpump

/-- A call that closes the dialog answers who was asked, which is not forgotten before the notices
are delivered. -/
theorem Suspended.answers (h : Suspended id t x s m) (hasking : Asking m.waits m.world)
    (hasks : m.world.Asks t) {c : World.Call} (hchoice : m.world.choice? c = some choice)
    {ds : List Deed} (hds : ∀ d ∈ ds, d.Spares id) :
    Suspended id t x s ((m.does (.call c)).after ds) ∧
      ((m.does (.call c)).after ds).world.Answered t choice := by
  have hcall : Deed.Spares id (.call c) := by
    refine ⟨by simp, ?_, by simp, by simp⟩
    rintro ⟨⟩
    cases hchoice
  obtain ⟨hafter, hnotices⟩ := (h.does hcall).after hds
  obtain ⟨text, hd⟩ := hasks
  have hcloses := World.closes_call hasking.modal hd hchoice
  exact ⟨hafter, (hcloses.answered hasking.distinct ⟨text, hd⟩).mono hnotices⟩

/-- As long as its dialog is open, a script that has asked stays as it is. -/
theorem Suspended.asks {m₀ : Machine} (h : Suspended id t x s m₀)
    (hrun : Relation.ReflTransGen (Move .timely) m₀ m) (hasking : Asking m.waits m.world)
    (hasks : m.world.Asks t) : Suspended id t x s m ∧ x.IsDialog := by
  obtain ⟨bs, rfl⟩ := exists_play_of_moves (fun _ _ ht => ht) hrun
  obtain ⟨y, hy, hdialog⟩ := hasking.held t hasks
  have hissued : t.index ≤ m₀.waits.lastToken :=
    h.agrees.indexed.issued t (OrderedMap.mem_keys_iff.2 ⟨x, h.wait⟩)
  obtain hold | hfresh := (h.agrees.ages_play bs).old t y hy
  · obtain rfl := Option.some.inj (h.wait.symm.trans hold)
    refine ⟨h.play ?_, hdialog⟩
    rw [← h.owner]
    exact (h.agrees.play bs).indexed.pendingFor?_script hy
  · exact absurd hissued (Nat.not_le_of_gt hfresh)

theorem Agrees.opens (hm : Agrees m) (hmodal : m.world.Modal) (hs : m.script? id = some s)
    {i : Instruction} (hi : s.unit.code[s.position]? = some i) (hop : i.opcode = .dialog)
    (hstep : (m.step id).1 = some .paused) :
    ∃ text t x s₁, m.world.dialogs = [] ∧ (m.step id).2.world.dialogs = [⟨text, some t⟩] ∧
      Suspended id t x s₁ (m.step id).2 := by
  have hagrees := hm.step id
  obtain he | ⟨s', hs', hstate, ⟨-, he⟩ | ⟨i', s₁, outcome, scene, hf, hsettle, he⟩⟩ :=
    m.step_outcome_cases id
  · rw [he] at hstep
    cases hstep
  · rw [he] at hstep
    cases hstep
  · obtain rfl := Option.some.inj (hs.symm.trans hs')
    obtain ⟨hi', -⟩ := Script.fetch?_eq_some_iff.1 hf
    obtain rfl := Option.some.inj (hi.symm.trans hi')
    obtain ⟨-, hscript⟩ := hm.isNamed.step_settle hs hstate hf hsettle
    have hid : s₁.id = id := (Script.fetch?_eq_some hf).1.trans (hm.named id s hs).1
    rw [he] at hstep hagrees hscript ⊢
    obtain rfl : outcome = .paused := Option.some.inj hstep
    obtain ⟨text, t, hmain, hregister, hworld⟩ := Scene.opens_settle hop hsettle
    obtain ⟨hnone, -, -⟩ := World.modal_open hmodal hmain text t
    obtain ⟨-, -, -, hpending, -⟩ := hm.indexed.register hregister
    refine ⟨text, t, ⟨s₁.id, ⟨s₁.id, s₁.current⟩, .window, none, true⟩, scene.script, hnone, ?_,
      hagrees, hscript, ?_, hid⟩
    · change scene.world.dialogs = [⟨text, some t⟩]
      rw [hworld]
      simp [World.issue, World.print, hnone]
    · change scene.waits.pending.get? t = _
      rw [hpending, OrderedMap.get?_insert, if_pos rfl]

/-- At most one dialog is open, which the interface shows. Who waits for the answer stays paused
while its dialog is open, and goes on with the choice once that is closed and delivered. -/
theorem dialogs_are_modal (h : Reachable .timely m) :
    (∀ (n : Machine) op, ∃ ds, (∀ c, .call c ∉ ds) ∧ n.operate op = n.after ds) ∧
      (m.world.dialogs.length ≤ 1 ∧
        m.world.interface = if m.world.dialogs.isEmpty then .main else .dialog) ∧
      (∀ t x, m.waits.wait? t = some x → x.IsDialog →
        ∃ s, m.script? x.script = some s ∧ s.state = .paused ∧
          (m.world.Asks t ∧ m.pump.2.script? x.script = some s ∧
              m.pump.2.waits.wait? t = some x ∨
            ∃ choice, m.world.Answered t choice ∧
              m.pump.2.script? x.script = some (s.answered choice) ∧
              m.pump.2.waits.wait? t = none)) ∧
      ∀ id s i, m.script? id = some s → s.unit.code[s.position]? = some i →
        i.opcode = .dialog → (m.step id).1 = some .paused →
          ∃ text t x s₁, m.world.dialogs = [] ∧
            (m.step id).2.world.dialogs = [⟨text, some t⟩] ∧
            (m.step id).2.waits.wait? t = some x ∧ x.script = id ∧
            (m.step id).2.script? id = some s₁ ∧
            ∀ m', Relation.ReflTransGen (Move .timely) (m.step id).2 m' → m'.world.Asks t →
              (m'.script? id = some s₁ ∧ m'.waits.wait? t = some x) ∧
              ∀ c choice ds m'', m'.world.choice? c = some choice → (∀ d ∈ ds, d.Spares id) →
                (m'.does (.call c)).after ds = m'' →
                  m''.script? id = some s₁ ∧ m''.pump.2.script? id = some (s₁.answered choice) ∧
                    m''.pump.2.waits.wait? t = none := by
  have hscript : ∀ s t, ¬Host.timely.script s t := fun _ _ ht => ht
  have hm := h.agrees hscript
  have hasking := h.asking
  have hroom := (h.roomy hscript).room
  refine ⟨operate_eq_after, ⟨hasking.modal.single, hasking.modal.interface⟩, ?_, ?_⟩
  · intro t x hx hdialog
    obtain ⟨s, -, hs, -⟩ := hm.owned t x hx
    have hsuspended : Suspended x.script t x s m := ⟨hm, hs, hx, rfl⟩
    obtain ⟨hwatched, hasks | ⟨choice, hanswered⟩⟩ := hasking.asked t x hx hdialog
    · have hstays := hsuspended.stays_pump (hasking.silent hasks hdialog hwatched)
      exact ⟨s, hs, hsuspended.paused, .inl ⟨hasks, hstays.script, hstays.wait⟩⟩
    · have hfits := hroom t x s hx hs hdialog.answers
      exact ⟨s, hs, hsuspended.paused, .inr ⟨choice, hanswered,
        hsuspended.answered_pump hfits hdialog hwatched hanswered⟩⟩
  · intro id s i hs hi hop hstep
    obtain ⟨text, t, x, s₁, hnone, hopen, hsuspended⟩ := hm.opens hasking.modal hs hi hop hstep
    have hafter : Reachable .timely (m.step id).2 := h.operate (.step id)
    refine ⟨text, t, x, s₁, hnone, hopen, hsuspended.wait, hsuspended.owner, hsuspended.script, ?_⟩
    intro m' hrun hasks
    have hasking' := (hafter.run hrun).asking
    obtain ⟨hstays, hdialog⟩ := hsuspended.asks hrun hasking' hasks
    refine ⟨⟨hstays.script, hstays.wait⟩, ?_⟩
    rintro c choice ds m'' hchoice hds rfl
    obtain ⟨hwaits, hanswered⟩ := hstays.answers hasking' hasks hchoice hds
    obtain ⟨hwatched, -⟩ := hasking'.asked t x hstays.wait hdialog
    have hfits := ((hafter.run hrun).roomy hscript).room t x s₁ hstays.wait
      (hstays.owner.symm ▸ hstays.script) hdialog.answers
    exact ⟨hwaits.script, hwaits.answered_pump hfits hdialog hwatched hanswered⟩

theorem dialogs_are_modal_asking :
    Reachable .timely asking ∧ (asking.step ⟨1⟩).1 = some .paused ∧ asking.world.dialogs = [] ∧
      ∃ s₁, (asking.step ⟨1⟩).2.script? ⟨1⟩ = some s₁ ∧
        ∀ m', ((asking.step ⟨1⟩).2.does (.call (.answer Binary32.one))).after
            [.step ⟨1⟩, .call (.advance Binary32.one)] = m' →
          m'.script? ⟨1⟩ = some s₁ ∧ m'.pump.2.script? ⟨1⟩ = some (s₁.answered Binary32.one) := by
  have hreachable : Reachable .timely asking :=
    ((reachable_start .timely {} [] {} 0).operate (.spawn question none)).operate (.step ⟨1⟩)
  have hstep : (asking.step ⟨1⟩).1 = some .paused := by decide
  obtain ⟨s, hs⟩ : ∃ s, asking.script? ⟨1⟩ = some s := ⟨_, rfl⟩
  have hi : s.unit.code[s.position]? = some ⟨.dialog, .none, 0⟩ := by
    obtain rfl := Option.some.inj hs
    rfl
  obtain ⟨-, -, -, hopens⟩ := dialogs_are_modal hreachable
  obtain ⟨text, t, x, s₁, hnone, hopen, -, -, hs₁, hlater⟩ := hopens ⟨1⟩ s _ hs hi rfl hstep
  refine ⟨hreachable, hstep, hnone, s₁, hs₁, fun m' hm' => ?_⟩
  obtain ⟨-, hanswers⟩ := hlater _ .refl ⟨text, hopen⟩
  obtain ⟨hwaits, hgoes, -⟩ := hanswers _ Binary32.one _ m' rfl (by simp [Deed.Spares]) hm'
  exact ⟨hwaits, hgoes⟩

def askedTwice : Machine :=
  let m := ((asking.spawn question none).2.step ⟨1⟩).2
  ((({ m with world := m.world.call (.answer Binary32.one) }).step ⟨2⟩).2.step ⟨2⟩).2

/-- The second script is not the only one that goes on when its dialog is answered. -/
theorem earlier_answers_are_delivered_too :
    ¬∀ m t x u y c choice, Reachable .timely m → m.world.Asks t → m.waits.wait? t = some x →
      m.waits.wait? u = some y → y.IsDialog → y.script ≠ x.script →
      m.world.choice? c = some choice →
        (m.does (.call c)).pump.2.state? y.script = some .paused := by
  intro h
  have hasked : Reachable .timely ((asking.spawn question none).2.step ⟨1⟩).2 :=
    ((((reachable_start .timely {} [] {} 0).operate (.spawn question none)).operate
      (.step ⟨1⟩)).operate (.spawn question none)).operate (.step ⟨1⟩)
  have hreachable : Reachable .timely askedTwice :=
    ((hasked.move (.world _ _ ⟨.answer Binary32.one, trivial, rfl⟩)).operate (.step ⟨2⟩)).operate
      (.step ⟨2⟩)
  have hsecond : askedTwice.waits.wait? ⟨2⟩ = some ⟨⟨2⟩, ⟨⟨2⟩, 1⟩, .window, none, true⟩ := by decide
  have hfirst : askedTwice.waits.wait? ⟨1⟩ = some ⟨⟨1⟩, ⟨⟨1⟩, 1⟩, .window, none, true⟩ := by decide
  have hpaused := h askedTwice ⟨2⟩ _ ⟨1⟩ _ (.answer Binary32.one) Binary32.one hreachable
    ⟨"Who?", by decide⟩ hsecond hfirst ⟨rfl, rfl⟩ (by decide) rfl
  have hruns : (askedTwice.does (.call (.answer Binary32.one))).pump.2.state? ⟨1⟩ =
      some .running := by decide
  exact absurd (hruns.symm.trans hpaused) (by decide)

end Machine

end WorldScript
