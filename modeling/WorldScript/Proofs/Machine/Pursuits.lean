import WorldScript.Proofs.Machine.Destruction
import WorldScript.Proofs.Machine.Tokens
import WorldScript.Proofs.Waits.Fates
import WorldScript.Proofs.World.Commands

/-!
Who pursues the commands that are waited for. Whatever a host does that gives no tokens of its own
to the world, the command of a wait goes on, or a notice that ends the wait is still to be
delivered, unless the host has taken this away itself.

Main statements: `reachable_iff_chronicle` and `Chronicle.pursued`.
-/
set_option autoImplicit false

namespace WorldScript.Machine

/-- The deeds of a run, the latest first, each with the machine it was done to. -/
inductive Chronicle : List (Machine × Deed) → Machine → Prop
  | start (worldSettings : WorldSettings) (specs : List EntitySpec) (settings : MachineSettings)
    (seed : UInt64) : Chronicle [] (start (World.start worldSettings specs) settings seed)
  | does {past : List (Machine × Deed)} {m : Machine} {d : Deed} : Chronicle past m →
      (∀ c, d = .call c → c.passes = []) → Chronicle ((m, d) :: past) (m.does d)

/-- While the wait was pending, its host made the world forget it, or its command was over and the
host took a notice that ends it. -/
def Missed (past : List (Machine × Deed)) (t : Token) (x : Wait) : Prop :=
  ∃ m c, (m, .call c) ∈ past ∧ m.waits.wait? t = some x ∧
    (c = .forget t ∨ c = .drain ∧ (∃ n ∈ m.world.notices, ∃ k, n.Ends t x k) ∧
      ∀ h, x.watched = some h → m.world.commandToken? h ≠ some t)

section

variable {past : List (Machine × Deed)} {m : Machine} {t : Token} {x : Wait} {h : Handle} {d : Deed}
  {ds : List Deed}

theorem not_missed (hpast : ∀ m c, (m, .call c) ∈ past → c ≠ .drain ∧ ∀ t, c ≠ .forget t) :
    ¬Missed past t x := by
  rintro ⟨m, c, hc, -, rfl | ⟨rfl, -⟩⟩
  · exact (hpast m _ hc).2 t rfl
  · exact (hpast m _ hc).1 rfl

theorem Missed.cons (hmissed : Missed past t x) (e : Machine × Deed) :
    Missed (e :: past) t x := by
  obtain ⟨m, c, hc, hrest⟩ := hmissed
  exact ⟨m, c, List.mem_cons_of_mem _ hc, hrest⟩

theorem missed_cons_iff (hd : ∀ c, d ≠ .call c) :
    Missed ((m, d) :: past) t x ↔ Missed past t x := by
  refine ⟨?_, fun hmissed => hmissed.cons _⟩
  rintro ⟨m', c, hc, hrest⟩
  obtain hc | hc := List.mem_cons.1 hc
  · exact absurd (congrArg Prod.snd hc).symm (hd c)
  · exact ⟨m', c, hc, hrest⟩

/-! ### Runs and their deeds -/

theorem Reachable.does (hm : Reachable .tokenless m) (hd : ∀ c, d = .call c → c.passes = []) :
    Reachable .tokenless (m.does d) := by
  cases d with
  | spawn u owner => exact hm.operate (.spawn u owner)
  | step id => exact hm.operate (.step id)
  | pump => exact hm.operate .pump
  | reap => exact hm.operate .reap
  | unload id => exact hm.operate (.unload id)
  | shutdown => exact hm.operate .shutdown
  | call c => exact hm.move (.world _ _ ⟨c, hd c rfl, rfl⟩)

theorem Chronicle.after {P : World.Call → Prop} (hpast : Chronicle past m)
    (hcalls : ∀ m c, (m, .call c) ∈ past → P c) (hds : ∀ c, .call c ∉ ds) :
    ∃ past', Chronicle past' (m.after ds) ∧ ∀ m c, (m, .call c) ∈ past' → P c := by
  induction ds generalizing past m with
  | nil => exact ⟨past, hpast, hcalls⟩
  | cons d ds ih =>
    simp only [List.mem_cons, not_or] at hds
    have hd : ∀ c, d = .call c → c.passes = [] := fun c hc => absurd hc.symm (hds c).1
    refine ih (hpast.does hd) (fun m c hc => ?_) fun c => (hds c).2
    obtain hc | hc := List.mem_cons.1 hc
    · exact absurd (congrArg Prod.snd hc) (hds c).1
    · exact hcalls m c hc

/-- Every run of a host that gives no tokens to the world can be told by its deeds. -/
theorem Reachable.chronicle {host : Host} {P : World.Call → Prop}
    (hworld : ∀ w w', host.world w w' → ∃ c, P c ∧ w' = w.call c)
    (hscript : ∀ s t, ¬host.script s t) (hpasses : ∀ c, P c → c.passes = [])
    (hm : Reachable host m) :
    ∃ past, Chronicle past m ∧ ∀ m c, (m, .call c) ∈ past → P c := by
  obtain ⟨worldSettings, specs, settings, seed, hrun⟩ := hm
  induction hrun with
  | refl => exact ⟨[], .start _ _ _ _, by simp⟩
  | tail _ hmove ih =>
    obtain ⟨past, hpast, hcalls⟩ := ih
    cases hmove with
    | operate op =>
      obtain ⟨ds, hds, he⟩ := operate_eq_after _ op
      exact he ▸ hpast.after hcalls hds
    | world w hw =>
      obtain ⟨c, hc, rfl⟩ := hworld _ _ hw
      refine ⟨_, hpast.does (d := .call c) ?_, fun m c' hc' => ?_⟩
      · rintro _ ⟨⟩
        exact hpasses c hc
      · obtain hc' | hc' := List.mem_cons.1 hc'
        · cases hc'
          exact hc
        · exact hcalls m c' hc'
    | script _ s t _ ht => exact absurd ht (hscript s t)

theorem reachable_iff_chronicle : Reachable .tokenless m ↔ ∃ past, Chronicle past m := by
  constructor
  · intro hm
    obtain ⟨past, hpast, -⟩ := hm.chronicle (P := fun c => c.passes = []) (fun _ _ hw => hw)
      (fun _ _ ht => ht) fun _ hc => hc
    exact ⟨past, hpast⟩
  · rintro ⟨past, hpast⟩
    induction hpast with
    | start => exact reachable_start _ _ _ _ _
    | does _ hd ih => exact ih.does hd

/-! ### Pursuits -/

theorem World.Call.cases_of_passes {c : World.Call} (hc : c.passes = []) :
    c.IsPlain ∨ (∃ t, c = .cancelAlarm t) ∨ (∃ t, c = .forget t) ∨ c = .drain := by
  cases c with
  | setAlarm => cases hc
  | cancelAlarm t => exact .inr (.inl ⟨t, rfl⟩)
  | forget t => exact .inr (.inr (.inl ⟨t, rfl⟩))
  | drain => exact .inr (.inr (.inr rfl))
  | issue r notify =>
    cases notify with
    | none => exact .inl rfl
    | some t => cases hc
  | _ => exact .inl trivial

theorem pursues_cases {w : World} (hkind : x.kind = .command) (hwatched : x.watched = some h)
    (hp : w.Pursues h t) :
    w.commandToken? h = some t ∨ ∃ n ∈ w.notices, ∃ k, n.Ends t x k := by
  obtain ⟨c, hc, hnotify⟩ | ⟨result, hn⟩ | ⟨reason, hn⟩ | hn := hp
  · exact .inl (Option.bind_eq_some_iff.2 ⟨c, hc, hnotify⟩)
  · exact .inr ⟨_, hn, _, .command hkind⟩
  · exact .inr ⟨_, hn, _, .disqualified hkind⟩
  · exact .inr ⟨_, hn, _, .destroyed hwatched⟩

theorem pursues_of_commandToken? {w : World} (ht : w.commandToken? h = some t) :
    w.Pursues h t := .inl (Option.bind_eq_some_iff.1 ht)

/-- Every wait for a command of somebody is pursued, or was missed. -/
def Pursued (past : List (Machine × Deed)) (m : Machine) : Prop :=
  ∀ t x h, m.waits.wait? t = some x → x.kind = .command → x.watched = some h →
    m.world.Pursues h t ∨ Missed past t x

theorem Pursued.keeps {one : Option Token} {m' : Machine} (hp : Pursued past m)
    (k : World.KeepsBut one m.world m'.world)
    (hwaits : ∀ t x, m'.waits.wait? t = some x → one ≠ some t ∧ m.waits.wait? t = some x)
    (e : Machine × Deed) : Pursued (e :: past) m' := by
  intro t x h hx hkind hwatched
  obtain ⟨hone, hx⟩ := hwaits t x hx
  exact (hp t x h hx hkind hwatched).imp (k.pursues t hone h) fun hmissed => hmissed.cons e

theorem Pursued.kept {m' : Machine} (hp : Pursued past m) (k : World.Keeps m.world m'.world)
    (hwaits : ∀ t x, m'.waits.wait? t = some x → m.waits.wait? t = some x) (e : Machine × Deed) :
    Pursued (e :: past) m' :=
  hp.keeps k (fun t x hx => ⟨by simp, hwaits t x hx⟩) e

theorem Pursued.step (hp : Pursued past m) (hissued : Issued m.waits m.world) (id : ScriptId) :
    Pursued ((m, .step id) :: past) (m.step id).2 := by
  cases m.effect_step id with
  | kept waits world => exact hp.kept (world ▸ .refl _) (fun t x hx => waits ▸ hx) _
  | changed c waits world =>
    exact hp.kept (world ▸ World.keeps_change _ c) (fun t x hx => waits ▸ hx) _
  | issued r waits world =>
    exact hp.kept (world ▸ World.keeps_issue _ r none) (fun t x hx => waits ▸ hx) _
  | awaited site task t waits world =>
    obtain ⟨ht, -, -, hpending, -⟩ := hissued.indexed.register waits
    intro u x h hx hkind hwatched
    rw [Waits.wait?, hpending, OrderedMap.get?_insert] at hx
    rw [world]
    split at hx
    case isTrue hu =>
      subst hu
      obtain rfl := Option.some.inj hx
      have hfresh : t ∉ m.world.windowTokens := by
        intro hmem
        have := hissued.issued .window t (List.mem_append_left _ (World.mem_promised.2 hmem))
        omega
      have hcarries := m.world.carries_start task t site hfresh
      simp only [World.Carries, show task.kind = WaitKind.command from hkind] at hcarries
      obtain ⟨g, hg, hpursues⟩ := hcarries
      obtain rfl := Option.some.inj (hwatched.symm.trans hg)
      exact .inl hpursues
    case isFalse hu =>
      exact (hp u x h hx hkind hwatched).imp
        ((m.world.keeps_start task t).pursues u (by simpa using hu) h) fun hmissed => hmissed.cons _

theorem Pursued.pump (hp : Pursued past m) (hm : Agrees m) :
    Pursued ((m, .pump) :: past) m.pump.2 := by
  intro t x h hx hkind hwatched
  obtain ⟨hx, hnone⟩ := (hm.wait?_pump t x).1 hx
  refine (hp t x h hx hkind hwatched).imp (fun hpursues => ?_) fun hmissed => hmissed.cons _
  obtain htoken | ⟨n, hn, k, hk⟩ := pursues_cases hkind hwatched hpursues
  · rw [world_pump]
    exact pursues_of_commandToken? (w := m.world.drain.2) htoken
  · rw [← Notice.wakeup?_eq_some_iff, hnone n hn] at hk
    cases hk

theorem Pursued.call (hp : Pursued past m) {c : World.Call} (hc : c.passes = []) :
    Pursued ((m, .call c) :: past) (m.does (.call c)) := by
  obtain hplain | ⟨u, rfl⟩ | ⟨u, rfl⟩ | rfl := World.Call.cases_of_passes hc
  · have hkeeps : World.Keeps m.world (m.does (.call c)).world := m.world.keeps_call hplain
    exact hp.kept hkeeps (fun _ _ hx => hx) _
  · intro t x h hx hkind hwatched
    exact (hp t x h hx hkind hwatched).imp_right fun hmissed => hmissed.cons _
  · intro t x h hx hkind hwatched
    by_cases hu : u = t
    case pos => exact .inr ⟨m, _, List.mem_cons_self, hx, .inl (by rw [hu])⟩
    case neg =>
      exact (hp t x h hx hkind hwatched).imp
        ((m.world.keeps_forget u).pursues t (by simpa using hu) h) fun hmissed => hmissed.cons _
  · intro t x h hx hkind hwatched
    by_cases htoken : m.world.commandToken? h = some t
    case pos => exact .inl (pursues_of_commandToken? (w := m.world.drain.2) htoken)
    case neg =>
      obtain hpursues | hmissed := hp t x h hx hkind hwatched
      · have hends := (pursues_cases hkind hwatched hpursues).resolve_left htoken
        refine .inr ⟨m, _, List.mem_cons_self, hx, .inr ⟨rfl, hends, fun g hg => ?_⟩⟩
        obtain rfl := Option.some.inj (hwatched.symm.trans hg)
        exact htoken
      · exact .inr (hmissed.cons _)

theorem Chronicle.pursued (hpast : Chronicle past m) : Pursued past m := by
  -- notices are taken by a delivery, which ends the waits they are for, or by the host, and tokens
  -- are withdrawn with their waits, or by the host
  induction hpast with
  | start => simp [Pursued, Machine.start, Waits.wait?]
  | @does past m d hbefore hd hp =>
    have hreachable := reachable_iff_chronicle.2 ⟨past, hbefore⟩
    have hagrees : Agrees m := hreachable.agrees fun _ _ ht => ht
    cases d with
    | spawn | reap => exact hp.kept (.refl _) (fun _ _ hx => hx) _
    | step id => exact hp.step hreachable.distinct.1 id
    | pump => exact hp.pump hagrees
    | call c => exact hp.call (hd c rfl)
    | unload id =>
      obtain ⟨-, hwaits, hworld⟩ | ⟨t, x, -, -, hwaits, hworld⟩ := unload_cases hagrees.indexed id
      · have hkeeps : World.Keeps m.world (m.unload id).2.world := hworld ▸ .refl _
        exact hp.kept hkeeps (fun t x hx => hwaits ▸ hx) _
      · have hkeeps : World.KeepsBut (some t) m.world (m.unload id).2.world :=
          hworld ▸ m.world.keeps_withdraw t x.kind
        refine hp.keeps hkeeps (fun u y hy => ?_) _
        rw [hwaits, Waits.wait?_without, Option.ite_none_left_eq_some] at hy
        exact ⟨by simpa using hy.1, hy.2⟩
    | shutdown =>
      have hnone : (m.does .shutdown).waits.pending = OrderedMap.empty :=
        hagrees.indexed.releaseAll.2.1
      intro t x h hx
      simp [Waits.wait?, hnone] at hx

end

end WorldScript.Machine
