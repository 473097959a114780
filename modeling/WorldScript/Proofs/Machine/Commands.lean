import WorldScript.Proofs.Execution.Commands
import WorldScript.Proofs.Machine.Answers
import WorldScript.Proofs.Machine.Pursuits

/-!
The last command wins. Between two deliveries of notices, with no time passing, any number of
commands may be given to somebody. Each replaces the one before, so that of all who wait for one of
them only the script that gave the last one goes on waiting.

Main statement: `last_command_wins`.
-/
set_option autoImplicit false

namespace WorldScript

/-- A host that leaves tokens and scripts alone, but may take notices. -/
def Host.curious : Host where
  world w w' := ∃ c : World.Call, (c.IsPlain ∨ c = .drain) ∧ w' = w.call c

namespace Machine

variable {m m₀ : Machine} {id : ScriptId} {t : Token} {x : Wait} {s : Script} {d : Deed}
  {h : Handle} {ds : List Deed}

/-! ### Deeds with which no time passes -/

/-- No time passes, and no script is taken out, and notices are neither delivered nor taken. -/
def Deed.IsQuiet : Deed → Prop
  | .spawn .. | .step _ | .reap => True
  | .call c => c.IsImmediate
  | .pump | .unload _ | .shutdown => False

def Spared (h : Handle) (m : Machine) (d : Deed) : Prop := d.IsQuiet ∧ ¬m.Destroys d h

/-- A deed gives somebody a command: a step of a script that finds no fault, or a call. -/
def Orders (h : Handle) (m : Machine) : Deed → Prop
  | .step id => ∃ s i, m.script? id = some s ∧ s.unit.code[s.position]? = some i ∧
      i.opcode.IsCommand ∧ s.stack.head? = some (.entity h) ∧
      ((m.step id).1 = some .continued ∨ (m.step id).1 = some .paused)
  | .call (.issue r _) => (Task.request r).watched = some h
  | .call _ | .spawn .. | .pump | .reap | .unload _ | .shutdown => False

/-- Every deed has a property in the machine it is done to. -/
def Throughout (P : Machine → Deed → Prop) : Machine → List Deed → Prop
  | _, [] => True
  | m, d :: ds => P m d ∧ Throughout P (m.does d) ds

theorem after_append (m : Machine) (ds ds' : List Deed) :
    m.after (ds ++ ds') = (m.after ds).after ds' := List.foldl_append

theorem throughout_append {P : Machine → Deed → Prop} {ds' : List Deed} :
    Throughout P m (ds ++ ds') ↔ Throughout P m ds ∧ Throughout P (m.after ds) ds' := by
  induction ds generalizing m with
  | nil => simp [Throughout, after]
  | cons d ds ih =>
    simp only [List.cons_append, Throughout, ih, and_assoc]
    rfl

theorem Deed.IsQuiet.spares (hd : d.IsQuiet) (id : ScriptId) : d.Spares id := by
  cases d with
  | pump | unload | shutdown => exact hd.elim
  | call c =>
    refine ⟨by simp, ?_, by simp, by simp⟩
    rintro ⟨⟩
    exact hd.1
  | spawn | step | reap => simp [Deed.Spares]

theorem Throughout.spares (hds : Throughout (Spared h) m ds) (id : ScriptId) :
    ∀ d ∈ ds, d.Spares id := by
  induction ds generalizing m with
  | nil => simp
  | cons d ds ih => exact List.forall_mem_cons.2 ⟨hds.1.1.spares id, ih hds.2⟩

theorem Deed.IsQuiet.passes (hd : d.IsQuiet) : ∀ c, d = .call c → c.passes = [] := by
  rintro c rfl
  exact World.Call.passes_of_isPlain hd.1

theorem atOnce_quiet (m : Machine) (hd : d.IsQuiet) : m.world.AtOnce (m.does d).world := by
  cases d with
  | pump | unload | shutdown => exact hd.elim
  | spawn | reap => exact World.atOnce_of_eq rfl
  | call c => exact m.world.atOnce_call hd
  | step id =>
    rw [does]
    cases m.effect_step id with
    | kept _ world => exact World.atOnce_of_eq (by rw [world])
    | changed c _ world => exact world ▸ m.world.atOnce_change c
    | issued r _ world => exact world ▸ m.world.atOnce_issue r none
    | awaited site task t _ world => exact world ▸ m.world.atOnce_start task t

/-! ### What a deed means for somebody -/

/-- A quiet deed gives somebody a command in the place of the one they have, for whose end a script
waits or not, or it gives none, and then no wait for one is registered. -/
inductive Course (h : Handle) (m : Machine) (d : Deed) : Prop
  | issued (orders : m.Orders h d) (token : (m.does d).world.commandToken? h = none)
    (replaces : ∀ t, m.world.commandToken? h = some t →
      .commandDisqualified t h.newCommandText ∈ (m.does d).world.notices)
    (waits : (m.does d).waits = m.waits)
    (ends : ∀ id, d = .step id → (m.step id).1 ≠ some .paused)
  | awaited (t : Token) (x : Wait) (orders : m.Orders h d) (deed : d = .step x.script)
    (token : (m.does d).world.commandToken? h = some t)
    (replaces : ∀ t, m.world.commandToken? h = some t →
      .commandDisqualified t h.newCommandText ∈ (m.does d).world.notices)
    (kind : x.kind = .command) (watched : x.watched = some h)
    (waits : ∀ u, (m.does d).waits.wait? u = if t = u then some x else m.waits.wait? u)
  | other (orders : ¬m.Orders h d)
    (token : (m.does d).world.commandToken? h = m.world.commandToken? h)
    (waits : ∀ t x, (m.does d).waits.wait? t = some x → x.watched = some h →
      m.waits.wait? t = some x)

theorem goesOn_of_spared (hd : ¬m.Destroys d h) (hgoes : World.GoesOn h m.world (m.does d).world) :
    (m.does d).world.commandToken? h = m.world.commandToken? h := by
  refine hgoes fun hthere => ?_
  by_contra hgone
  exact hd ⟨hthere, by simpa using hgone⟩

theorem orders_step_iff {i : Instruction} {s₁ : Script} {outcome : Outcome}
    (hs : m.script? id = some s) (hf : s.fetch? = some (i, s₁))
    (hstep : (m.step id).1 = some outcome) :
    m.Orders h (.step id) ↔ Scene.Bids ⟨s₁, m.world, m.waits, m.dice⟩ i h ∧
      (outcome = .continued ∨ outcome = .paused) := by
  obtain ⟨hi, rfl⟩ := Script.fetch?_eq_some_iff.1 hf
  simp only [Orders, hstep, Option.some.injEq]
  constructor
  · rintro ⟨s', i', hs', hi', hop, htop, hends⟩
    obtain rfl := Option.some.inj (hs.symm.trans hs')
    obtain rfl := Option.some.inj (hi.symm.trans hi')
    exact ⟨⟨hop, htop⟩, hends⟩
  · rintro ⟨⟨hop, htop⟩, hends⟩
    exact ⟨s, i, hs, hi, hop, htop, hends⟩

theorem not_orders_step (hstep : (m.step id).1 ≠ some .continued)
    (hstep' : (m.step id).1 ≠ some .paused) : ¬m.Orders h (.step id) := by
  rintro ⟨s, i, -, -, -, -, hends⟩
  exact hends.elim hstep hstep'

theorem course_step (hm : Agrees m) (hd : ¬m.Destroys (.step id) h) : Course h m (.step id) := by
  obtain he | ⟨s, hs, hstate, ⟨hf, he⟩ | ⟨i, s₁, outcome, scene, hf, hsettle, he⟩⟩ :=
    m.step_outcome_cases id
  · have hdoes : m.does (.step id) = m := by rw [does, he]
    exact .other (not_orders_step (by simp [he]) (by simp [he])) (by rw [hdoes])
      fun t x hx _ => by rwa [hdoes] at hx
  · have hdoes : m.does (.step id) = m.withScript s.stop := by rw [does, he]
    exact .other (not_orders_step (by simp [he]) (by simp [he])) (by rw [hdoes]; rfl)
      fun t x hx _ => by rwa [hdoes] at hx
  · have hid : s₁.id = id := (Script.fetch?_eq_some hf).1.trans (hm.named id s hs).1
    have houtcome : (m.step id).1 = some outcome := by rw [he]
    have horders := orders_step_iff (h := h) hs hf houtcome
    have hworld : (m.does (.step id)).world = scene.world := by rw [does, he]; rfl
    have hwaits : (m.does (.step id)).waits = scene.waits := by rw [does, he]; rfl
    cases Scene.order_settle h hsettle with
    | issued r bids watched ends waits world =>
      refine .issued (horders.2 ⟨bids, .inl ends⟩) ?_ (fun t ht => ?_) (hwaits.trans waits) ?_
      · rw [hworld, world, World.commandToken?_issue, if_pos watched]
      · rw [hworld, world]
        exact World.disqualified_issue watched none ht
      · rintro j ⟨⟩
        simp [houtcome, ends]
    | awaited r t bids watched ends waits world =>
      obtain ⟨-, -, -, hpending, -⟩ := hm.indexed.register waits
      let x : Wait := ⟨s₁.id, ⟨s₁.id, s₁.current⟩, .command, some h, (Task.request r).pushesResult⟩
      refine .awaited t x (horders.2 ⟨bids, .inr ends⟩) (hid ▸ rfl) ?_ (fun u hu => ?_) rfl rfl
        fun u => ?_
      · rw [hworld, world, World.commandToken?_issue, if_pos watched]
      · rw [hworld, world]
        exact World.disqualified_issue watched (some t) hu
      · rw [hwaits, Waits.wait?, hpending, OrderedMap.get?_insert, Waits.wait?]
    | other bids waits world =>
      refine .other ?_ (goesOn_of_spared hd (hworld ▸ world)) ?_
      · rw [horders]
        rintro ⟨hb, hends⟩
        simp [bids hb] at hends
      · intro t x hx hwatched
        rw [hwaits] at hx
        obtain hsame | ⟨task, u, hother, hregister⟩ := waits
        · rwa [hsame] at hx
        · obtain ⟨-, -, -, hpending, -⟩ := hm.indexed.register hregister
          rw [Waits.wait?, hpending, OrderedMap.get?_insert] at hx
          split at hx
          case isTrue =>
            obtain rfl := Option.some.inj hx
            exact absurd hwatched hother
          case isFalse => exact hx

theorem course (hm : Agrees m) (hd : Spared h m d) : Course h m d := by
  obtain ⟨hquiet, hspared⟩ := hd
  cases d with
  | pump | unload | shutdown => exact hquiet.elim
  | spawn | reap => exact .other (fun horders => horders) rfl fun _ _ hx _ => hx
  | step id => exact course_step hm hspared
  | call c =>
    by_cases horders : m.Orders h (.call c)
    case pos =>
      cases c with
      | issue r notify =>
        obtain rfl : notify = none := hquiet.1
        refine .issued horders ?_ (fun t ht => ?_) rfl (by simp)
        · exact (m.world.commandToken?_issue r none h).trans (if_pos horders)
        · exact World.disqualified_issue horders none ht
      | _ => exact horders.elim
    case neg =>
      refine .other horders (goesOn_of_spared hspared (m.world.goesOn_call hquiet ?_))
        fun _ _ hx _ => hx
      rintro r notify rfl
      exact horders

/-! ### Between two deliveries -/

/-- The wait is for the command somebody has, if it is there at all. -/
def Heard (h : Handle) (m : Machine) (t : Token) (x : Wait) : Prop :=
  m.waits.wait? t = some x → m.world.commandToken? h = some t

/-- Since a delivery no command has come to its end, and somebody was not destroyed. Who waits for a
command of theirs waits for the one they have, or for one that was replaced. -/
structure Lull (h : Handle) (m₀ m : Machine) : Prop where
  reachable : Reachable .tokenless m
  unfinished : ∀ t result, .commandFinished t result ∉ m.world.notices
  undestroyed : .entityDestroyed h ∉ m.world.notices
  carried : ∀ t x, m.waits.wait? t = some x → x.kind = .command → x.watched = some h →
    m₀.Heard h t x →
      m.world.commandToken? h = some t ∨ .commandDisqualified t h.newCommandText ∈ m.world.notices

namespace Lull

theorem agrees (hl : Lull h m₀ m) : Agrees m := hl.reachable.agrees fun _ _ ht => ht

theorem start (hm : Reachable .tokenless m₀) (h : Handle) : Lull h m₀.pump.2 m₀.pump.2 := by
  have hnone := m₀.notices_pump
  exact ⟨hm.operate .pump, by simp [hnone], by simp [hnone],
    fun t x hx _ _ hheard => .inl (hheard hx)⟩

theorem does (hl : Lull h m₀ m) (hd : Spared h m d) : Lull h m₀ (m.does d) := by
  obtain ⟨more, hmore, hnot⟩ := m.atOnce_quiet hd.1
  have hnotices : ∀ n ∈ m.world.notices, n ∈ (m.does d).world.notices := by
    intro n hn
    rw [hmore]
    exact List.mem_append_left more hn
  refine ⟨hl.reachable.does hd.1.passes, ?_, ?_, ?_⟩
  · intro t result hn
    rw [hmore, List.mem_append] at hn
    exact hn.elim (hl.unfinished t result) fun hn => hnot _ hn trivial
  · intro hn
    obtain ⟨earlier, later, hsplit⟩ := List.append_of_mem hn
    obtain ⟨rest, hold⟩ | ⟨hdestroys, -⟩ := destroys_of_notices hsplit
    · exact hl.undestroyed (by simp [hold])
    · exact hd.2 hdestroys
  · intro t x hx hkind hwatched hheard
    cases course hl.agrees hd with
    | other _ token waits =>
      obtain htoken | hn := hl.carried t x (waits t x hx hwatched) hkind hwatched hheard
      · exact .inl (token.trans htoken)
      · exact .inr (hnotices _ hn)
    | issued _ _ replaces waits =>
      obtain htoken | hn := hl.carried t x (waits ▸ hx) hkind hwatched hheard
      · exact .inr (replaces t htoken)
      · exact .inr (hnotices _ hn)
    | awaited u y _ _ token replaces _ _ waits =>
      rw [waits] at hx
      split at hx
      case isTrue he => exact .inl (he ▸ token)
      case isFalse =>
        -- the command that was waited for is the one that the new one has replaced, or an older one
        obtain htoken | hn := hl.carried t x hx hkind hwatched hheard
        · exact .inr (replaces t htoken)
        · exact .inr (hnotices _ hn)

theorem after (hl : Lull h m₀ m) (hds : Throughout (Spared h) m ds) : Lull h m₀ (m.after ds) := by
  induction ds generalizing m with
  | nil => exact hl
  | cons d ds ih => exact ih (hl.does hds.1) hds.2

theorem token_after (hl : Lull h m₀ m) (hds : Throughout (Spared h) m ds)
    (hnone : Throughout (fun m d => ¬m.Orders h d) m ds) :
    (m.after ds).world.commandToken? h = m.world.commandToken? h ∧
      ∀ t x, (m.after ds).waits.wait? t = some x → x.watched = some h →
        m.waits.wait? t = some x := by
  induction ds generalizing m with
  | nil => exact ⟨rfl, fun _ _ hx _ => hx⟩
  | cons d ds ih =>
    obtain ⟨htoken, hwaits⟩ := ih (hl.does hds.1) hds.2 hnone.2
    cases course hl.agrees hds.1 with
    | issued orders | awaited _ _ orders => exact absurd orders hnone.1
    | other _ token waits =>
      exact ⟨htoken.trans token, fun t x hx hwatched => waits t x (hwaits t x hx hwatched) hwatched⟩

end Lull

/-- Right after a delivery, who waits for a command of somebody waits for the one they have, unless
its end was missed. -/
theorem Chronicle.heard {past : List (Machine × Deed)} (hpast : Chronicle past m)
    (hkind : x.kind = .command) (hwatched : x.watched = some h) (hnot : ¬Missed past t x) :
    m.pump.2.Heard h t x := by
  intro hx
  have hpumped : Chronicle ((m, .pump) :: past) m.pump.2 := hpast.does (d := .pump) (by simp)
  have hpursues := (hpumped.pursued t x h hx hkind hwatched).resolve_right
    (mt (missed_cons_iff (by simp)).1 hnot)
  refine (pursues_cases hkind hwatched hpursues).resolve_right ?_
  simp [m.notices_pump]

/-! ### The next delivery -/

theorem wakeup?_of_account? {n : Notice} (hkind : x.kind = .command) (hwatched : x.watched = some h)
    (haccount : n.account? ≠ some (.command, t)) (hn : n ≠ .entityDestroyed h) :
    n.wakeup? t x = none := by
  cases n with
  | alarmFired | windowClosed => simp [Notice.wakeup?, hkind]
  | commandFinished u | commandDisqualified u =>
    have hne : ¬u = t := by
      rintro rfl
      exact haccount rfl
    simp [Notice.wakeup?, hne]
  | entityDestroyed g =>
    have hne : ¬h = g := by
      rintro rfl
      exact hn rfl
    simp [Notice.wakeup?, hwatched, hne]
  | worldPaused => rfl

/-- Who waits for the command somebody has goes on waiting. -/
theorem Suspended.waits_on (hs : Suspended id t x s m) (hl : Lull h m₀ m)
    (hkind : x.kind = .command) (hwatched : x.watched = some h)
    (htoken : m.world.commandToken? h = some t) : Suspended id t x s m.pump.2 := by
  refine hs.stays_pump fun n hn => wakeup?_of_account? hkind hwatched ?_ ?_
  · intro haccount
    exact World.not_reported_of_commandToken? hl.reachable.distinct.2 htoken
      (World.mem_reports hn haccount)
  · rintro rfl
    exact hl.undestroyed hn

/-- Who waits for another command of theirs is interrupted. -/
theorem Suspended.overruled (hs : Suspended id t x s m) (hl : Lull h m₀ m)
    (hkind : x.kind = .command) (hwatched : x.watched = some h) (hheard : m₀.Heard h t x)
    (htoken : m.world.commandToken? h ≠ some t) :
    m.pump.2.script? id =
        some { s with state := .interrupted (.disqualified h.newCommandText) } ∧
      m.pump.2.waits.wait? t = none := by
  have hn := (hl.carried t x hs.wait hkind hwatched hheard).resolve_left htoken
  obtain ⟨earlier, later, hsplit⟩ := List.append_of_mem hn
  have hreports : (World.reports m.world.notices).Nodup :=
    (List.nodup_append.1 hl.reachable.distinct.2).2.1
  rw [hsplit, World.reports_append, List.nodup_append] at hreports
  have hearlier : ∀ n ∈ earlier, n.wakeup? t x = none := by
    intro n hn
    refine wakeup?_of_account? hkind hwatched (fun haccount => ?_) ?_
    · exact hreports.2.2 _ (World.mem_reports hn haccount) _ (List.mem_cons_self ..) rfl
    · rintro rfl
      exact hl.undestroyed (by simp [hsplit, hn])
  have hwakes : (Notice.commandDisqualified t h.newCommandText).wakeup? t x =
      some (.interrupt x.script (.disqualified h.newCommandText)) := by
    simp [Notice.wakeup?, hkind]
  have hwoken : s.woken (.interrupt x.script (.disqualified h.newCommandText)) =
      { s with state := .interrupted (.disqualified h.newCommandText) } := by
    simp [Script.woken, Script.interrupt, hs.paused, ScriptState.isFinished]
  exact hwoken ▸ hs.woken_pump hsplit hearlier hwakes

/-! ### The last command -/

theorem not_orders_of_wait (hm : Agrees m) (hx : m.waits.wait? t = some x) :
    ¬m.Orders h (.step x.script) := by
  obtain he | ⟨s, hs, hrunning, -⟩ := m.step_outcome_cases x.script
  · exact not_orders_step (by simp [he]) (by simp [he])
  · rw [hm.paused_of_wait hx hs] at hrunning
    cases hrunning

/-- Of those who wait for a command of somebody, the one who has just given one has its token. -/
theorem latest_iff (hm : Agrees m) (hd : Spared h m d) (horders : m.Orders h d)
    (hx : (m.does d).waits.wait? t = some x) :
    (m.does d).world.commandToken? h = some t ↔ d = .step x.script := by
  cases course hm hd with
  | other hnot => exact absurd horders hnot
  | issued _ token _ waits =>
    rw [token]
    refine ⟨by simp, ?_⟩
    rintro rfl
    rw [waits] at hx
    exact absurd horders (not_orders_of_wait hm hx)
  | awaited u y _ deed token _ _ _ waits =>
    have hnew : (m.does d).waits.wait? u = some y := (waits u).trans (if_pos rfl)
    rw [token, Option.some.injEq]
    constructor
    · rintro rfl
      obtain rfl := Option.some.inj (hnew.symm.trans hx)
      exact deed
    · rintro rfl
      have hscript : y.script = x.script := (Deed.step.inj deed).symm
      exact (hm.does _).indexed.byScript.injective hnew hx hscript

theorem Lull.suspended_after {ds' : List Deed} (hl : Lull h m₀ m)
    (hds : Throughout (Spared h) m (ds ++ ds')) (hx : (m.after ds).waits.wait? t = some x)
    (hs : (m.after ds).script? x.script = some s) :
    Suspended x.script t x s (m.after ds) ∧ Suspended x.script t x s (m.after (ds ++ ds')) := by
  rw [throughout_append] at hds
  have hsuspended : Suspended x.script t x s (m.after ds) :=
    ⟨(hl.after hds.1).agrees, hs, hx, rfl⟩
  rw [after_append]
  exact ⟨hsuspended, (hsuspended.after (hds.2.spares x.script)).1⟩

/-- The command somebody has is the last one that was given to them. -/
theorem Lull.latest_after {before later : List Deed} (hl : Lull h m₀ m)
    (hds : Throughout (Spared h) m (before ++ d :: later)) (hlast : (m.after before).Orders h d)
    (hnone : Throughout (fun m d => ¬m.Orders h d) ((m.after before).does d) later)
    (hx : (m.after (before ++ d :: later)).waits.wait? t = some x) (hwatched : x.watched = some h) :
    (m.after (before ++ d :: later)).world.commandToken? h = some t ↔ d = .step x.script := by
  rw [throughout_append] at hds
  obtain ⟨hbefore, hd, hlater⟩ := hds
  have hlull := hl.after hbefore
  obtain ⟨htoken, hwaits⟩ := (hlull.does hd).token_after hlater hnone
  rw [after_append] at hx ⊢
  change ((((m.after before).does d).after later).world.commandToken? h = some t) ↔ _
  rw [htoken]
  exact latest_iff hlull.agrees hd hlast (hwaits t x hx hwatched)

/-- The last command wins, except with who has missed the end of an earlier one; nobody has, unless
the host drains notices or makes the world forget tokens. -/
theorem last_command_wins {past : List (Machine × Deed)} {m₀ m m' : Machine}
    {before later : List Deed} (hpast : Chronicle past m₀) (hpump : m₀.pump.2 = m)
    (hds : Throughout (Spared h) m (before ++ d :: later)) (hlast : (m.after before).Orders h d)
    (hnone : Throughout (fun m d => ¬m.Orders h d) ((m.after before).does d) later)
    (hm' : m.after (before ++ d :: later) = m') :
    (∀ ds₁ ds₂, before ++ d :: later = ds₁ ++ ds₂ → ∀ t x s,
        (m.after ds₁).waits.wait? t = some x → (m.after ds₁).script? x.script = some s →
          s.state = .paused ∧ m'.waits.wait? t = some x ∧ m'.script? x.script = some s) ∧
      (∀ t x s, m'.waits.wait? t = some x → m'.script? x.script = some s →
        x.kind = .command → x.watched = some h →
        ¬Missed past t x →
          (d = .step x.script →
            m'.pump.2.script? x.script = some s ∧ m'.pump.2.waits.wait? t = some x) ∧
          (d ≠ .step x.script →
            m'.pump.2.script? x.script =
                some { s with state := .interrupted (.disqualified h.newCommandText) } ∧
              m'.pump.2.waits.wait? t = none)) ∧
      (∀ id, d = .step id → ((m.after before).step id).1 = some .paused →
        ∃ t x s, x.kind = .command ∧ x.watched = some h ∧ x.script = id ∧
          m'.waits.wait? t = some x ∧ m'.script? id = some s ∧ s.state = .paused ∧
          m'.pump.2.script? id = some s ∧ m'.pump.2.waits.wait? t = some x) ∧
      (∀ t x, m.waits.wait? t = some x → x.kind = .command → x.watched = some h →
        ¬Missed past t x → m.world.commandToken? h = some t) ∧
      ((∀ m c, (m, .call c) ∈ past → c ≠ .drain ∧ ∀ t, c ≠ .forget t) →
        ∀ t x, ¬Missed past t x) := by
  have hlull : Lull h m m := hpump ▸ Lull.start (reachable_iff_chronicle.2 ⟨past, hpast⟩) h
  have hlull' : Lull h m m' := hm' ▸ hlull.after hds
  have hkept : ∀ ds₁ ds₂, before ++ d :: later = ds₁ ++ ds₂ → ∀ t x s,
      (m.after ds₁).waits.wait? t = some x → (m.after ds₁).script? x.script = some s →
        Suspended x.script t x s (m.after ds₁) ∧ Suspended x.script t x s m' := by
    intro ds₁ ds₂ hsplit t x s hx hs
    rw [← hm', hsplit]
    exact hlull.suspended_after (hsplit ▸ hds) hx hs
  -- nobody gives a command after `d`, so the token of the one there is tells who has given it
  have hlatest : ∀ t x, m'.waits.wait? t = some x → x.watched = some h →
      (m'.world.commandToken? h = some t ↔ d = .step x.script) := by
    intro t x hx hwatched
    rw [← hm'] at hx ⊢
    exact hlull.latest_after hds hlast hnone hx hwatched
  refine ⟨?_, ?_, ?_, ?_, fun hcalls t x => not_missed hcalls⟩
  · intro ds₁ ds₂ hsplit t x s hx hs
    obtain ⟨hbefore, hafter⟩ := hkept ds₁ ds₂ hsplit t x s hx hs
    exact ⟨hbefore.paused, hafter.wait, hafter.script⟩
  · intro t x s hx hs hkind hwatched hnot
    have hheard : m.Heard h t x := hpump ▸ hpast.heard hkind hwatched hnot
    have hsuspended : Suspended x.script t x s m' := ⟨hlull'.agrees, hs, hx, rfl⟩
    constructor
    · intro hd
      have hstays := hsuspended.waits_on hlull' hkind hwatched ((hlatest t x hx hwatched).2 hd)
      exact ⟨hstays.script, hstays.wait⟩
    · intro hd
      exact hsuspended.overruled hlull' hkind hwatched hheard (mt (hlatest t x hx hwatched).1 hd)
  · rintro id rfl hpaused
    obtain ⟨hbefore, hd, -⟩ := throughout_append.1 hds
    have hagrees := (hlull.after hbefore).agrees
    cases course hagrees hd with
    | other hnot => exact absurd hlast hnot
    | issued _ _ _ _ ends => exact absurd hpaused (ends id rfl)
    | awaited t x _ deed _ _ kind watched waits =>
      obtain rfl := Deed.step.inj deed
      have hnew := (waits t).trans (if_pos rfl)
      obtain ⟨s, -, hs, -⟩ := (hagrees.does _).owned t x hnew
      have hstep : m.after (before ++ [.step x.script]) =
          (m.after before).does (.step x.script) := after_append m before [.step x.script]
      rw [← hstep] at hnew hs
      obtain ⟨-, hwaits⟩ := hkept _ later (by simp) t x s hnew hs
      have hstays := hwaits.waits_on hlull' kind watched ((hlatest t x hwaits.wait watched).2 rfl)
      exact ⟨t, x, s, kind, watched, rfl, hwaits.wait, hwaits.script, hwaits.paused,
        hstays.script, hstays.wait⟩
  · intro t x hx hkind hwatched hnot
    subst hpump
    exact hpast.heard hkind hwatched hnot hx

def contested : Machine :=
  let m := (start lonely { instructionBudget := 4 } 0).spawn errand none
  ((((m.2.spawn errand none).2.spawn errand none).2).tick.2.step ⟨1⟩).2

theorem reachable_contested (host : Host) : Reachable host contested := by
  refine Reachable.operate (Reachable.operate (Reachable.operate (Reachable.operate ?_
    (.spawn errand none)) (.spawn errand none)) .tick) (.step ⟨1⟩)
  exact (reachable_start host {} [{ handle := ⟨1⟩, kind := .creature }] _ 0).operate
    (.spawn errand none)

def contestedTwice : Machine := contested.pump.2.after ([.step ⟨2⟩] ++ [.step ⟨3⟩])

theorem orders_contested :
    Throughout (Spared ⟨1⟩) contested.pump.2 ([.step ⟨2⟩] ++ [.step ⟨3⟩]) ∧
      (contested.pump.2.after [.step ⟨2⟩]).Orders ⟨1⟩ (.step ⟨3⟩) := by
  refine ⟨⟨⟨trivial, ?_⟩, ⟨trivial, ?_⟩, trivial⟩, ?_⟩
  · exact fun hd => absurd hd.2 (by decide)
  · exact fun hd => absurd hd.2 (by decide)
  · exact ⟨_, ⟨.moveTo, .none, 0⟩, rfl, rfl, .inl rfl, rfl, .inr (by decide)⟩

theorem last_command_wins_contested :
    ∃ past, Chronicle past contested ∧
      (∀ m c, (m, .call c) ∈ past → c ≠ .drain ∧ ∀ t, c ≠ .forget t) ∧
      Throughout (Spared ⟨1⟩) contested.pump.2 ([.step ⟨2⟩] ++ [.step ⟨3⟩]) ∧
      (contested.pump.2.after [.step ⟨2⟩]).Orders ⟨1⟩ (.step ⟨3⟩) ∧
      contestedTwice.pump.2.state? ⟨1⟩ =
        some (.interrupted (.disqualified (Handle.newCommandText ⟨1⟩))) ∧
      contestedTwice.pump.2.waits.wait? ⟨1⟩ = none ∧
      contestedTwice.pump.2.state? ⟨2⟩ =
        some (.interrupted (.disqualified (Handle.newCommandText ⟨1⟩))) ∧
      contestedTwice.pump.2.waits.wait? ⟨2⟩ = none ∧
      contestedTwice.pump.2.state? ⟨3⟩ = some .paused ∧
      contestedTwice.pump.2.waits.wait? ⟨3⟩ =
        some ⟨⟨3⟩, ⟨⟨3⟩, 4⟩, .command, some ⟨1⟩, false⟩ := by
  obtain ⟨past, hpast, hplain⟩ := (reachable_contested .plain).chronicle (fun _ _ hw => hw)
    (fun _ _ ht => ht) fun _ => World.Call.passes_of_isPlain
  have hcalls : ∀ m c, (m, .call c) ∈ past → c ≠ .drain ∧ ∀ t, c ≠ .forget t := by
    intro m c hc
    have hc := hplain m c hc
    constructor
    · rintro rfl
      exact hc
    · rintro t rfl
      exact hc
  obtain ⟨hspared, horders⟩ := orders_contested
  have hafter : contested.pump.2.after ([.step ⟨2⟩] ++ [.step ⟨3⟩]) = contestedTwice := rfl
  obtain ⟨hkept, hends, -, -, hheard⟩ :=
    last_command_wins hpast rfl hspared horders trivial hafter
  obtain ⟨s₁, hs₁⟩ : ∃ s, contestedTwice.script? ⟨1⟩ = some s := ⟨_, rfl⟩
  obtain ⟨s₂, hs₂⟩ : ∃ s, contestedTwice.script? ⟨2⟩ = some s := ⟨_, rfl⟩
  obtain ⟨s₃, hs₃⟩ : ∃ s, contestedTwice.script? ⟨3⟩ = some s := ⟨_, rfl⟩
  let x (i : Nat) : Wait := ⟨⟨i⟩, ⟨⟨i⟩, 4⟩, .command, some ⟨1⟩, false⟩
  have hnot : ∀ i, ¬Missed past ⟨i⟩ (x i) := fun i => hheard hcalls ⟨i⟩ (x i)
  obtain ⟨hfirst, hfirst'⟩ := (hends ⟨1⟩ (x 1) s₁ (by decide) hs₁ rfl rfl (hnot 1)).2 (by simp [x])
  obtain ⟨hsecond, hsecond'⟩ := (hends ⟨2⟩ (x 2) s₂ (by decide) hs₂ rfl rfl (hnot 2)).2
    (by simp [x])
  obtain ⟨hthird, hthird'⟩ := (hends ⟨3⟩ (x 3) s₃ (by decide) hs₃ rfl rfl (hnot 3)).1 rfl
  have hpaused : s₃.state = .paused :=
    (hkept [.step ⟨2⟩, .step ⟨3⟩] [] rfl ⟨3⟩ (x 3) s₃ (by decide) hs₃).1
  refine ⟨past, hpast, hcalls, hspared, horders,
    congrArg (Option.map Script.state) hfirst, hfirst',
    congrArg (Option.map Script.state) hsecond, hsecond', ?_, hthird'⟩
  exact (congrArg (Option.map Script.state) hthird).trans (congrArg some hpaused)

/-- Somebody has replaced the command that the first script waits for, which the host was told of,
and nobody else. -/
def unheard : Machine :=
  let m := (contested.step ⟨2⟩).2
  { m with world := m.world.call .drain }

/-- A script whose command was replaced before does not hear of it any more. -/
theorem taken_notices_are_not_heard :
    ¬∀ m h before d later t x, Reachable .curious m →
      Throughout (Spared h) m.pump.2 (before ++ d :: later) →
      (m.pump.2.after before).Orders h d →
      Throughout (fun m d => ¬m.Orders h d) ((m.pump.2.after before).does d) later →
      (m.pump.2.after (before ++ d :: later)).waits.wait? t = some x →
      x.kind = .command → x.watched = some h → d ≠ .step x.script →
        ∃ reason, (m.pump.2.after (before ++ d :: later)).pump.2.state? x.script =
          some (.interrupted (.disqualified reason)) := by
  intro h
  have hreachable : Reachable .curious unheard :=
    ((reachable_contested _).operate (.step ⟨2⟩)).move (.world _ _ ⟨.drain, .inr rfl, rfl⟩)
  have hspared : Throughout (Spared ⟨1⟩) unheard.pump.2 [.step ⟨3⟩] :=
    ⟨⟨trivial, fun hd => absurd hd.2 (by decide)⟩, trivial⟩
  have horders : unheard.pump.2.Orders ⟨1⟩ (.step ⟨3⟩) :=
    ⟨_, ⟨.moveTo, .none, 0⟩, rfl, rfl, .inl rfl, rfl, .inr (by decide)⟩
  have hwait : (unheard.pump.2.after [.step ⟨3⟩]).waits.wait? ⟨1⟩ =
      some ⟨⟨1⟩, ⟨⟨1⟩, 4⟩, .command, some ⟨1⟩, false⟩ := by decide
  obtain ⟨reason, hstate⟩ := h unheard ⟨1⟩ [] (.step ⟨3⟩) [] ⟨1⟩ _ hreachable hspared horders
    trivial hwait rfl rfl (by simp)
  have hpaused : (unheard.pump.2.after [.step ⟨3⟩]).pump.2.state? ⟨1⟩ = some .paused := by decide
  exact absurd (hpaused.symm.trans hstate) (by simp)

end Machine

end WorldScript
