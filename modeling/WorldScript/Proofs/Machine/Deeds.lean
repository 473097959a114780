import WorldScript.Proofs.Machine.Beats
import WorldScript.Proofs.Machine.Wakeups
import WorldScript.Proofs.World.Destructions

/-!
The deeds of a machine and of its host, which runs are made of. Other than a beat, a deed cannot
make notices up: they come of what is done to the world, and are delivered all at once.

Main statements: `operate_eq_after` and `touches`.
-/
set_option autoImplicit false

namespace WorldScript.Machine

inductive Deed
  | spawn (u : CodeUnit) (owner : Option Handle)
  | step (id : ScriptId)
  | pump
  | reap
  | unload (id : ScriptId)
  | shutdown
  | call (c : World.Call)

def does (m : Machine) : Deed → Machine
  | .spawn u owner => (m.spawn u owner).2
  | .step id => (m.step id).2
  | .pump => m.pump.2
  | .reap => m.reap.2
  | .unload id => (m.unload id).2
  | .shutdown => m.shutdown
  | .call c => { m with world := m.world.call c }

def after (m : Machine) (ds : List Deed) : Machine := ds.foldl does m

/-- Somebody was there, and after a deed is not. -/
def Destroys (m : Machine) (d : Deed) (e : Handle) : Prop :=
  m.world.entities.contains e = true ∧ (m.does d).world.entities.contains e = false

variable {m : Machine} {d : Deed} {e : Handle}

/-! ### Operations are made of deeds -/

theorem after_map (deed : ScriptId → Deed) (beat : ScriptId → Beat)
    (h : ∀ (m : Machine) id, m.does (deed id) = m.beat (beat id)) (m : Machine)
    (ids : List ScriptId) : m.after (ids.map deed) = m.play (ids.map beat) := by
  rw [after, play, List.foldl_map, List.foldl_map]
  exact congrArg (fun f => ids.foldl f m) (funext fun m => funext (h m))

theorem operate_eq_after (m : Machine) (op : Operation) :
    ∃ ds, (∀ c, .call c ∉ ds) ∧ m.operate op = m.after ds := by
  cases op with
  | spawn u owner => exact ⟨[.spawn u owner], by simp, rfl⟩
  | step id => exact ⟨[.step id], by simp, rfl⟩
  | run id =>
    obtain ⟨k, hk⟩ := runFor_eq_play id m.settings.instructionBudget m
    refine ⟨(List.replicate k id).map .step, by simp, ?_⟩
    rw [after_map .step .step fun _ _ => rfl, List.map_replicate]
    exact hk
  | pump => exact ⟨[.pump], by simp, rfl⟩
  | tick =>
    obtain ⟨steps, hsteps⟩ := runEach_eq_play m.pump.2.scripts.keys 0 m.pump.2
    refine ⟨.pump :: steps.map .step, by simp, ?_⟩
    exact hsteps.trans (after_map .step .step (fun _ _ => rfl) m.pump.2 steps).symm
  | reap => exact ⟨[.reap], by simp, rfl⟩
  | unload id => exact ⟨[.unload id], by simp, rfl⟩
  | unloadOwner owner =>
    have hunload := after_map .unload .unload fun _ _ => rfl
    exact ⟨_, by simp, (unloadEach_eq_play _ m).trans (hunload m _).symm⟩
  | shutdown => exact ⟨[.shutdown], by simp, rfl⟩

theorem does_eq_beat (m : Machine) (hd : d ≠ .pump) :
    ∃ b, m.does d = m.beat b ∧ (∀ n, b ≠ .deliver n) ∧ (∀ id, b = .unload id → d = .unload id) ∧
      (b = .shutdown → d = .shutdown) := by
  cases d with
  | pump => exact absurd rfl hd
  | spawn u owner => exact ⟨.spawn u owner, rfl, by simp⟩
  | step id => exact ⟨.step id, rfl, by simp⟩
  | reap => exact ⟨.reap, rfl, by simp⟩
  | unload id => exact ⟨.unload id, rfl, by simp⟩
  | shutdown => exact ⟨.shutdown, rfl, by simp⟩
  | call c => exact ⟨.world (m.world.call c), rfl, by simp⟩

theorem does_eq_play (m : Machine) (d : Deed) : ∃ bs, m.does d = m.play bs := by
  by_cases hd : d = .pump
  · subst hd
    exact ⟨_, m.pump_eq_play⟩
  · obtain ⟨b, he, -⟩ := m.does_eq_beat hd
    exact ⟨[b], he⟩

theorem Agrees.does (h : Agrees m) (d : Deed) : Agrees (m.does d) := by
  obtain ⟨bs, he⟩ := m.does_eq_play d
  exact he ▸ h.play bs

theorem Agrees.ages_does (h : Agrees m) (d : Deed) : Ages m.waits (m.does d).waits := by
  obtain ⟨bs, he⟩ := m.does_eq_play d
  exact he ▸ h.ages_play bs

theorem Agrees.after (h : Agrees m) (ds : List Deed) : Agrees (m.after ds) := by
  induction ds generalizing m with
  | nil => exact h
  | cons d ds ih => exact ih (h.does d)

/-! ### What a deed does to the world -/

/-- Notices are taken, or an entity is added, or one is destroyed, or the world is calm. -/
inductive Touches (m : Machine) (d : Deed) : Prop
  | took : d = .pump ∨ d = .call .drain → (m.does d).world = m.world.drain.2 → Touches m d
  | added (s : EntitySpec) : d = .call (.add s) → (m.does d).world = m.world.add s → Touches m d
  | destroyed (h : Handle) : d = .call (.change (.destroy h)) ∨ (∃ id, d = .step id) →
    m.world.entities.contains h = true → (m.does d).world = m.world.destroy h → Touches m d
  | calm : m.world.Calm (m.does d).world → Touches m d

theorem world_delivers (m : Machine) (ns : List Notice) :
    (m.play (ns.map .deliver)).world = m.world := by
  induction ns generalizing m with
  | nil => rfl
  | cons n ns ih =>
    have hdeliver : (m.deliver n).world = m.world := (wakeEach_waits _ 0 _).2
    exact (ih (m.deliver n)).trans hdeliver

theorem world_pump (m : Machine) : m.pump.2.world = m.world.drain.2 := by
  rw [pump_eq_play]
  exact world_delivers { m with world := m.world.drain.2 } m.world.notices

theorem notices_pump (m : Machine) : m.pump.2.world.notices = [] := by
  rw [world_pump]
  rfl

theorem touches_change (w : World) (c : Change) :
    (∃ h, c = .destroy h ∧ w.entities.contains h = true ∧ w.change c = w.destroy h) ∨
      w.Calm (w.change c) := by
  by_cases hc : ∃ h, c = .destroy h
  · obtain ⟨h, rfl⟩ := hc
    cases hh : w.entities.contains h with
    | true => exact .inl ⟨h, rfl, hh, rfl⟩
    | false =>
      refine .inr ?_
      rw [World.change, World.destroy_of_not_contains hh]
      exact .refl w
  · exact .inr (w.calm_change fun h he => hc ⟨h, he⟩)

theorem touches_step (m : Machine) (id : ScriptId) : m.Touches (.step id) := by
  have heffect : m.Effect (m.does (.step id)) := m.effect_step id
  cases heffect with
  | kept _ world => exact .calm (world ▸ .refl _)
  | changed c _ world =>
    obtain ⟨h, -, hh, hdestroy⟩ | hcalm := touches_change m.world c
    · exact .destroyed h (.inr ⟨id, rfl⟩) hh (world.trans hdestroy)
    · exact .calm (world ▸ hcalm)
  | issued r _ world => exact .calm (world ▸ World.calm_issue m.world r none)
  | awaited site task t _ world => exact .calm (world ▸ World.calm_start m.world task t)

theorem calm_unload (m : Machine) (id : ScriptId) : m.world.Calm (m.unload id).2.world := by
  cases hr : m.waits.releaseScript? id with
  | none =>
    rw [unload_of_none hr]
    exact .refl _
  | some r =>
    rw [unload_of_some hr]
    exact World.calm_withdraw m.world _ _

theorem calm_withdrawEach (released : List (Token × Wait)) (w : World) :
    w.Calm (released.foldl (fun w e => withdraw w e.1 e.2.kind) w) := by
  induction released generalizing w with
  | nil => exact .refl w
  | cons e released ih => exact (w.calm_withdraw e.1 e.2.kind).trans (ih _)

theorem touches_call (m : Machine) {c : World.Call} (hc : c.IsCalm) : m.Touches (.call c) :=
  .calm (m.world.calm_call hc)

theorem touches (m : Machine) (d : Deed) : m.Touches d := by
  cases d with
  | spawn | reap => exact .calm (.refl _)
  | step id => exact m.touches_step id
  | pump => exact .took (.inl rfl) m.world_pump
  | unload id => exact .calm (m.calm_unload id)
  | shutdown => exact .calm (calm_withdrawEach _ _)
  | call c =>
    cases c with
    | add s => exact .added s rfl rfl
    | drain => exact .took (.inr rfl) rfl
    | change c =>
      obtain ⟨h, rfl, hh, hdestroy⟩ | hcalm := touches_change m.world c
      · exact .destroyed h (.inl rfl) hh hdestroy
      · exact .calm hcalm
    | equip | setActionPoints | setInterface | setPaused | setAutoAnswer | answer | advance
    | issue | setAlarm | cancelAlarm | forget => exact m.touches_call trivial

theorem notices_does (m : Machine) (hpump : d ≠ .pump) (hdrain : d ≠ .call .drain) :
    m.world.notices <+: (m.does d).world.notices := by
  cases m.touches d with
  | took hd => exact absurd hd (by simp [hpump, hdrain])
  | added s _ world => exact world ▸ List.prefix_refl _
  | destroyed h _ hh world =>
    rw [world, (World.destroy_of_contains hh).1]
    exact List.prefix_append _ _
  | calm hcalm =>
    obtain ⟨more, hmore, -⟩ := hcalm.notices
    exact hmore ▸ List.prefix_append _ _

/-- Who leaves the world was destroyed, by a script or by the host, which is reported last. -/
theorem Destroys.cases (h : m.Destroys d e) :
    (d = .call (.change (.destroy e)) ∨ ∃ id, d = .step id) ∧
      (m.does d).world.notices = m.world.notices ++ [.entityDestroyed e] := by
  obtain ⟨hbefore, hafter⟩ := h
  cases m.touches d with
  | took _ world =>
    have hsame : (m.does d).world.entities.contains e = true := world ▸ hbefore
    rw [hsame] at hafter
    cases hafter
  | added s _ world =>
    rw [world, World.contains_add, hbefore, Bool.or_true] at hafter
    cases hafter
  | destroyed g hd hg world =>
    obtain ⟨hnotices, hcontains⟩ := World.destroy_of_contains hg
    rw [world, hcontains, hbefore] at hafter
    obtain rfl : g = e := by simpa using hafter
    exact ⟨hd, world ▸ hnotices⟩
  | calm hcalm =>
    rw [hcalm.contains, hbefore] at hafter
    cases hafter

theorem split_of_append {α : Type} {a : α} {old more earlier later : List α}
    (h : old ++ more = earlier ++ a :: later) :
    (∃ rest, old = earlier ++ a :: rest) ∨
      ∃ rest, more = rest ++ a :: later ∧ earlier = old ++ rest := by
  obtain ⟨rest, hearlier, hmore⟩ | ⟨rest, hold, hrest⟩ := List.append_eq_append_iff.1 h
  · exact .inr ⟨rest, hmore, hearlier⟩
  · cases rest with
    | nil => exact .inr ⟨[], by simpa using hrest.symm, by simpa using hold.symm⟩
    | cons b rest =>
      rw [List.cons_append, List.cons.injEq] at hrest
      exact .inl ⟨rest, by rw [hold, hrest.1]⟩

theorem destroys_of_notices {earlier later : List Notice}
    (hn : (m.does d).world.notices = earlier ++ .entityDestroyed e :: later) :
    (∃ rest, m.world.notices = earlier ++ .entityDestroyed e :: rest) ∨
      m.Destroys d e ∧ earlier = m.world.notices ∧ later = [] := by
  cases m.touches d with
  | took _ world =>
    rw [world] at hn
    simp [World.drain] at hn
  | added s _ world => exact .inl ⟨later, by rw [← hn, world]; rfl⟩
  | destroyed g hd hg world =>
    obtain ⟨hnotices, hcontains⟩ := World.destroy_of_contains hg
    rw [world, hnotices] at hn
    obtain hold | ⟨rest, hrest, hearlier⟩ := split_of_append hn
    · exact .inl hold
    · obtain ⟨rfl, rfl, rfl⟩ : rest = [] ∧ e = g ∧ later = [] := by
        simpa [List.singleton_eq_append_iff] using hrest
      refine .inr ⟨⟨hg, ?_⟩, by simpa using hearlier, rfl⟩
      rw [world, hcontains]
      simp
  | calm hcalm =>
    obtain ⟨more, hmore, hnot⟩ := hcalm.notices
    rw [hmore] at hn
    obtain hold | ⟨rest, hrest, -⟩ := split_of_append hn
    · exact .inl hold
    · exact absurd (by simp [hrest]) (hnot e)

end WorldScript.Machine
