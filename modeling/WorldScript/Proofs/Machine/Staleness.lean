import WorldScript.Proofs.Machine.Destruction

/-!
Destructions that come too early. A wait watches an entity by its handle, and so does the report of
a destruction name it. A report that was still to be delivered when the wait was registered ends
that wait as well, although it is about an earlier entity.

Main statements: `destroys_of_after` and `Reachable.mourned`.
-/
set_option autoImplicit false

namespace WorldScript

/-- A host that leaves scripts alone, and puts nobody into the world in the place of somebody whose
destruction is still to be delivered. -/
def Host.patient : Host where
  world w w' := ∃ c : World.Call,
    (∀ s, c = .add s → .entityDestroyed s.handle ∉ w.notices) ∧ w' = w.call c

namespace Machine

variable {m : Machine} {id : ScriptId} {t : Token} {x : Wait} {d : Deed} {e : Handle}
  {ds : List Deed} {earlier later : List Notice}

/-! ### Where reports come from -/

theorem destroys_of_after
    (hn : (m.after ds).world.notices = earlier ++ .entityDestroyed e :: later) :
    (∃ rest, m.world.notices = earlier ++ .entityDestroyed e :: rest) ∨
      ∃ ds₁ d ds₂, ds = ds₁ ++ d :: ds₂ ∧ (m.after ds₁).Destroys d e ∧
        (m.after ds₁).world.notices = earlier := by
  induction ds generalizing m with
  | nil => exact .inl ⟨later, hn⟩
  | cons d ds ih =>
    obtain ⟨rest, hrest⟩ | ⟨ds₁, d', ds₂, rfl, hd', hearlier⟩ := ih (m := m.does d) hn
    · obtain hold | ⟨hd, hearlier, -⟩ := destroys_of_notices hrest
      · exact .inl hold
      · exact .inr ⟨[], d, ds, rfl, hd, hearlier.symm⟩
    · exact .inr ⟨d :: ds₁, d', ds₂, rfl, hd', hearlier⟩

theorem Agrees.watched (h : Agrees m) (hnone : m.waits.wait? t = none)
    (hx : (m.step id).2.waits.wait? t = some x) (hwatched : x.watched = some e) :
    m.world.entities.contains e = true ∧ m.world.Calm (m.step id).2.world := by
  cases m.effect_step id with
  | kept waits | changed _ waits | issued _ waits =>
    rw [waits, hnone] at hx
    cases hx
  | awaited site task u waits world heeds =>
    obtain ⟨-, -, -, hpending, -⟩ := h.indexed.register waits
    rw [Waits.wait?, hpending, OrderedMap.get?_insert] at hx
    split at hx
    case isTrue =>
      cases hx
      exact ⟨heeds e hwatched, world ▸ m.world.calm_start task u⟩
    case isFalse => exact absurd (hnone.symm.trans hx) (by simp)

/-! ### Patient hosts -/

/-- Whose destruction is still to be delivered is not there. -/
def Mourned (m : Machine) : Prop :=
  ∀ h, .entityDestroyed h ∈ m.world.notices → m.world.entities.contains h = false

theorem Mourned.does (h : Mourned m)
    (hadd : ∀ s, d = .call (.add s) → .entityDestroyed s.handle ∉ m.world.notices) :
    Mourned (m.does d) := by
  intro g hg
  cases m.touches d with
  | took _ world =>
    rw [world] at hg
    cases hg
  | added s hd world =>
    rw [world] at hg
    have hne : s.handle ≠ g := by
      rintro rfl
      exact hadd s hd hg
    simp [world, World.contains_add, hne, h g hg]
  | destroyed g' _ hg' world =>
    obtain ⟨hnotices, hcontains⟩ := World.destroy_of_contains hg'
    rw [world, hnotices, List.mem_append, List.mem_singleton] at hg
    rw [world, hcontains]
    obtain hg | hg := hg
    · rw [h g hg, Bool.and_false]
    · cases hg
      simp
  | calm hcalm =>
    obtain ⟨more, hmore, hnot⟩ := hcalm.notices
    rw [hmore, List.mem_append] at hg
    rw [hcalm.contains]
    exact h g (hg.resolve_right (hnot g))

theorem Mourned.after (h : Mourned m) (hds : ∀ c, .call c ∉ ds) : Mourned (m.after ds) := by
  induction ds generalizing m with
  | nil => exact h
  | cons d ds ih =>
    simp only [List.mem_cons, not_or] at hds
    refine ih (h.does ?_) fun c => (hds c).2
    rintro s rfl
    exact absurd rfl (hds _).1

theorem Reachable.mourned (h : Reachable .patient m) : Mourned m := by
  obtain ⟨worldSettings, specs, settings, seed, hrun⟩ := h
  induction hrun with
  | refl =>
    intro g hg
    cases hg
  | tail _ hmove ih =>
    cases hmove with
    | operate op =>
      obtain ⟨ds, hds, he⟩ := operate_eq_after _ op
      exact he ▸ ih.after hds
    | world w hw =>
      obtain ⟨c, hc, rfl⟩ := hw
      refine ih.does (d := .call c) ?_
      rintro s he
      cases he
      exact hc s rfl
    | script _ _ _ _ ht => exact ht.elim

/-! ### Waits and reports -/

/-- A wait is ended by any destruction under the handle it watches. One of an earlier entity is
among these only if it was still to be delivered when the wait was registered. -/
theorem destruction_is_matched_by_handle {host : Host} (hscript : ∀ s t, ¬host.script s t)
    (h : Reachable host m) (hnone : m.waits.wait? t = none)
    (hx : (m.step id).2.waits.wait? t = some x) (hwatched : x.watched = some e) :
    (∀ ds earlier later,
        ((m.step id).2.after ds).world.notices = earlier ++ .entityDestroyed e :: later →
          (∃ rest, m.world.notices = earlier ++ .entityDestroyed e :: rest) ∨
            ∃ ds₁ d ds₂, ds = ds₁ ++ d :: ds₂ ∧ ((m.step id).2.after ds₁).Destroys d e ∧
              ((m.step id).2.after ds₁).world.notices = earlier) ∧
      (.entityDestroyed e ∈ m.world.notices →
        m.world.entities.contains e = true ∧ (m.step id).2.pump.2.waits.wait? t = none ∧
          (m.step id).2.pump.2.world.entities.contains e = true) ∧
      (Reachable .patient m → ∀ ds earlier later,
        ((m.step id).2.after ds).world.notices = earlier ++ .entityDestroyed e :: later →
          ∃ ds₁ d ds₂, ds = ds₁ ++ d :: ds₂ ∧ ((m.step id).2.after ds₁).Destroys d e ∧
            ((m.step id).2.after ds₁).world.notices = earlier) := by
  have hm := h.agrees hscript
  obtain ⟨hthere, hcalm⟩ := hm.watched hnone hx hwatched
  obtain ⟨more, hmore, hnot⟩ := hcalm.notices
  have hfrom : ∀ ds earlier later,
      ((m.step id).2.after ds).world.notices = earlier ++ .entityDestroyed e :: later →
        (∃ rest, m.world.notices = earlier ++ .entityDestroyed e :: rest) ∨
          ∃ ds₁ d ds₂, ds = ds₁ ++ d :: ds₂ ∧ ((m.step id).2.after ds₁).Destroys d e ∧
            ((m.step id).2.after ds₁).world.notices = earlier := by
    intro ds earlier later hn
    obtain ⟨rest, hrest⟩ | hsince := destroys_of_after hn
    · rw [hmore] at hrest
      obtain hold | ⟨rest', hnew, -⟩ := split_of_append hrest
      · exact .inl hold
      · exact absurd (by simp [hnew]) (hnot e)
    · exact .inr hsince
  refine ⟨hfrom, fun hstale => ⟨hthere, ?_, ?_⟩, fun hpatient ds earlier later hn => ?_⟩
  · have hstep := hm.step id
    have hdoomed : Doomed t e (m.step id).2 := by
      refine ⟨hstep, hstep.indexed.issued t (OrderedMap.mem_keys_iff.2 ⟨x, hx⟩), ?_⟩
      intro y hy
      obtain rfl := Option.some.inj (hx.symm.trans hy)
      exact ⟨hwatched, hmore ▸ List.mem_append_left more hstale⟩
    exact hdoomed.pump
  · rw [world_pump]
    exact (hcalm.contains e).trans hthere
  · obtain ⟨rest, hold⟩ | hsince := hfrom ds earlier later hn
    · have hgone := hpatient.mourned e (by simp [hold])
      rw [hthere] at hgone
      cases hgone
    · exact hsince

def revived : Machine :=
  let m := ((start lonely {} 0).spawn errand none).2
  let w := (m.world.call (.change (.destroy ⟨1⟩))).call
    (.add { handle := ⟨1⟩, kind := .creature })
  (((({ m with world := w }.step ⟨1⟩).2.step ⟨1⟩).2.step ⟨1⟩).2.step ⟨1⟩).2

theorem reachable_revived : Reachable .plain revived := by
  refine Reachable.operate (Reachable.operate (Reachable.operate (Reachable.operate ?_
    (.step ⟨1⟩)) (.step ⟨1⟩)) (.step ⟨1⟩)) (.step ⟨1⟩)
  have hspawned : Reachable .plain ((start lonely {} 0).spawn errand none).2 :=
    (reachable_start _ _ _ {} 0).operate (.spawn errand none)
  have hdestroyed := hspawned.move (.world _ _ ⟨.change (.destroy ⟨1⟩), trivial, rfl⟩)
  exact hdestroyed.move
    (.world _ _ ⟨.add { handle := ⟨1⟩, kind := .creature }, trivial, rfl⟩)

/-- The wait is registered, and nothing is done before the notices are delivered, yet the report of
the first destruction ends the wait. -/
theorem earlier_destruction_ends_a_wait :
    ¬∀ m id t x e, Reachable .plain m → m.waits.wait? t = none →
      (m.step id).2.waits.wait? t = some x → x.watched = some e →
        ∀ ds earlier later,
          ((m.step id).2.after ds).world.notices = earlier ++ .entityDestroyed e :: later →
          ((m.step id).2.after ds).waits.wait? t = some x →
          (∀ n ∈ earlier, n.wakeup? t x = none) →
            ∃ ds₁ d ds₂, ds = ds₁ ++ d :: ds₂ ∧ ((m.step id).2.after ds₁).Destroys d e := by
  intro h
  have hx : (revived.step ⟨1⟩).2.waits.wait? ⟨1⟩ =
      some ⟨⟨1⟩, ⟨⟨1⟩, 4⟩, .command, some ⟨1⟩, false⟩ := by decide
  obtain ⟨ds₁, d, ds₂, hds, -⟩ := h revived ⟨1⟩ ⟨1⟩ _ ⟨1⟩ reachable_revived (by decide) hx rfl
    [] [] [] (by decide) hx (by simp)
  simp at hds

theorem destruction_is_matched_by_handle_revived :
    (∀ s t, ¬Host.plain.script s t) ∧ Reachable .plain revived ∧
      revived.waits.wait? ⟨1⟩ = none ∧
      (revived.step ⟨1⟩).2.waits.wait? ⟨1⟩ = some ⟨⟨1⟩, ⟨⟨1⟩, 4⟩, .command, some ⟨1⟩, false⟩ ∧
      .entityDestroyed ⟨1⟩ ∈ revived.world.notices ∧
      revived.world.entities.contains ⟨1⟩ = true ∧
      (revived.step ⟨1⟩).2.pump.2.waits.wait? ⟨1⟩ = none ∧
      (revived.step ⟨1⟩).2.pump.2.world.entities.contains ⟨1⟩ = true := by
  have hscript : ∀ s t, ¬Host.plain.script s t := fun _ _ h => h
  have hnone : revived.waits.wait? ⟨1⟩ = none := by decide
  have hx : (revived.step ⟨1⟩).2.waits.wait? ⟨1⟩ =
      some ⟨⟨1⟩, ⟨⟨1⟩, 4⟩, .command, some ⟨1⟩, false⟩ := by decide
  have hstale : .entityDestroyed ⟨1⟩ ∈ revived.world.notices := by decide
  obtain ⟨-, hends, -⟩ :=
    destruction_is_matched_by_handle hscript reachable_revived hnone hx rfl
  obtain ⟨hthere, hgone, hstill⟩ := hends hstale
  exact ⟨hscript, reachable_revived, hnone, hx, hstale, hthere, hgone, hstill⟩

end Machine

end WorldScript
