import WorldScript.Proofs.Machine.Orphans
import WorldScript.Proofs.Machine.Renaming
import WorldScript.Proofs.Machine.Safety

/-!
Scripts that start afresh. A script that is reset goes on as a new script would, unless it has a
pending wait: its wait stays in the registry, which refuses it another one.

Main statement: `InOrder.renamed_reset`.
-/
set_option autoImplicit false

namespace WorldScript.Machine

variable {m : Machine} {id j : ScriptId} {s : Script} {last : Nat}

/-- Beside a machine where a script is reset stands one where a new script is started in its stead.
The new script has the next number, and those that are started later have one number more. -/
def afresh (id : ScriptId) (last : Nat) (j : ScriptId) : ScriptId :=
  if j = id then ⟨last + 1⟩ else if j.index ≤ last then j else ⟨j.index + 1⟩

theorem afresh_self (id : ScriptId) (last : Nat) : afresh id last id = ⟨last + 1⟩ := if_pos rfl

theorem afresh_of_le (hne : j ≠ id) (hj : j.index ≤ last) : afresh id last j = j := by
  rw [afresh, if_neg hne, if_pos hj]

theorem afresh_of_lt (hid : id.index ≤ last) (hj : last < j.index) :
    afresh id last j = ⟨j.index + 1⟩ := by
  have hne : j ≠ id := by
    rintro rfl
    omega
  rw [afresh, if_neg hne, if_neg (Nat.not_le.2 hj)]

theorem injective_afresh (id : ScriptId) (last : Nat) : (afresh id last).Injective := by
  rintro ⟨j⟩ ⟨k⟩ h
  grind [afresh]

theorem InOrder.script?_eq_none (h : InOrder m) (hj : m.lastScript < j.index) :
    m.script? j = none := by
  rw [Option.eq_none_iff_forall_ne_some]
  intro s hs
  have := h.loaded j s hs
  omega

theorem InOrder.script?_afresh (h : InOrder m) (hs : m.script? id = some s)
    (hlimits : s.WithinLimits m.settings) (j : ScriptId) :
    (m.spawn s.unit s.owner).2.script? (afresh id m.lastScript j) =
      ((m.withScript s.reset).script? j).map (Script.rename (afresh id m.lastScript)) := by
  have hid : s.id = id := h.named id s hs
  have hscripts : (m.withScript s.reset).scripts = m.scripts.insert id s.reset := by
    rw [withScript, ← hid]
    rfl
  rw [script?_of_insert hscripts]
  by_cases hj : id = j
  case pos =>
    subst hj
    rw [afresh_self, if_pos rfl, script?_of_insert rfl, if_pos rfl, Option.map_some]
    simp only [Script.start, Script.reset, Script.rename, hid, afresh_self, hlimits.stackLimit,
      hlimits.callLimit]
  case neg =>
    rw [if_neg hj]
    by_cases hlast : j.index ≤ m.lastScript
    · rw [afresh_of_le (Ne.symm hj) hlast, script?_spawn m _ _ hlast]
      cases hs' : m.script? j with
      | none => rfl
      | some s' =>
        obtain rfl := h.named j s' hs'
        rw [Option.map_some, Script.rename, afresh_of_le (Ne.symm hj) hlast]
    · have hlater : m.lastScript < j.index := Nat.lt_of_not_le hlast
      have hne : ¬(⟨m.lastScript + 1⟩ : ScriptId) = ⟨j.index + 1⟩ := by
        simp only [ScriptId.mk.injEq]
        omega
      rw [afresh_of_lt (h.loaded id s hs) hlater, script?_of_insert rfl, if_neg hne,
        h.script?_eq_none hlater, h.script?_eq_none (Nat.lt_succ_of_lt hlater)]
      rfl

theorem InOrder.renamed_waits (h : InOrder m) (hfree : m.waits.pendingFor? id = none) :
    m.waits.Renamed (afresh id m.lastScript) m.waits := by
  refine ⟨h.indexed, h.indexed, rfl, ?_⟩
  apply OrderedMap.ext
  refine ((List.map_congr_left ?_).trans (List.map_id _)).symm
  rintro ⟨t, x⟩ he
  have hx : m.waits.wait? t = some x := OrderedMap.get?_eq_some_iff.2 he
  have hne : x.script ≠ id := h.indexed.script_ne hfree hx
  have hkept : afresh id m.lastScript x.script = x.script :=
    afresh_of_le hne (h.waiting t x hx)
  have hsite : afresh id m.lastScript x.site.script = x.site.script := by
    rw [h.indexed.siteScript t x hx, hkept]
  have hsame : x.rename (afresh id m.lastScript) = x := by
    rw [Wait.rename, hkept, hsite]
  simp only [hsame, id_eq]

theorem InOrder.renamed_reset (h : InOrder m) (hs : m.script? id = some s)
    (hlimits : s.WithinLimits m.settings) (hfree : m.waits.pendingFor? id = none) :
    Renamed (afresh id m.lastScript) (m.withScript s.reset) (m.spawn s.unit s.owner).2 where
  settings := rfl
  world := rfl
  dice := rfl
  executed := rfl
  waits := h.renamed_waits hfree
  named := by
    have hid : s.reset.id = id := h.named id s hs
    have hplace : id.index ≤ (m.withScript s.reset).lastScript := h.loaded id s hs
    exact (h.put hid hplace (Nat.le_refl _) (by rw [withScript, hid]) h.indexed
      fun _ _ hx => .inl hx).named
  script? := h.script?_afresh hs hlimits
  next k := by
    have hnext := afresh_of_lt (h.loaded id s hs) (j := ⟨m.lastScript + k + 1⟩)
      (by simp only; omega)
    refine hnext.trans (congrArg ScriptId.mk ?_)
    simp only [spawn]
    omega

/-- Whatever happens to both machines, they are alike, and so are the outcomes of their steps. -/
def Alike (ρ : ScriptId → ScriptId) (m n : Machine) : Prop :=
  ∀ bs, Renamed ρ (m.play bs) (n.play (bs.map (Beat.rename ρ))) ∧
    ∀ j, ((n.play (bs.map (Beat.rename ρ))).step (ρ j)).1 = ((m.play bs).step j).1

theorem Renamed.alike {ρ : ScriptId → ScriptId} {n : Machine} (hρ : ρ.Injective)
    (h : Renamed ρ m n) : Alike ρ m n := by
  intro bs
  have hplayed := h.play hρ bs
  exact ⟨hplayed, fun j => (hplayed.step hρ j).1⟩

/-- The number of a new script has no wait yet. -/
theorem InOrder.pendingFor?_next (h : InOrder m) :
    m.waits.pendingFor? ⟨m.lastScript + 1⟩ = none := by
  rw [Option.eq_none_iff_forall_ne_some]
  intro t ht
  obtain ⟨x, hx, hid⟩ := (h.indexed.byScript _ t).1 ht
  have hle := h.waiting t x hx
  rw [hid] at hle
  exact absurd hle (by simp)

/-- A reset script behaves as a new one, but for its number, just if it has no pending wait. As long
as it has, whatever it waits for next is refused. -/
theorem reset_starts_afresh_without_a_wait (hm : Reachable .calls m)
    (hs : m.script? id = some s) :
    (Alike (afresh id m.lastScript) (m.withScript s.reset) (m.spawn s.unit s.owner).2 ↔
        m.waits.pendingFor? id = none) ∧
      (∀ host, (∀ s t, ¬host.script s t) → Reachable host m → s.state ≠ .paused →
        m.waits.pendingFor? id = none) ∧
      ∀ t, m.waits.pendingFor? id = some t →
        (m.withScript s.reset).waits.pendingFor? id = some t ∧
          ∀ (scene : Scene) task, scene.script.id = id → scene.waits.pendingFor? id = some t →
            (scene.await task).1 = .error (.waitPending scene.script.current) := by
  have hinorder : InOrder m := hm.inOrder fun _ _ hc => hc
  have hinjective := injective_afresh id m.lastScript
  refine ⟨⟨?_, ?_⟩, ?_, ?_⟩
  · intro halike
    -- the new script has no wait, so the one that is reset must not have any either
    have hsame := (halike []).1.waits.pendingFor? hinjective id
    rw [afresh_self] at hsame
    exact hsame.symm.trans hinorder.pendingFor?_next
  · intro hfree
    exact (hinorder.renamed_reset hs (hm.withinLimits id s hs).2 hfree).alike hinjective
  · intro host hscript hm hstate
    exact (hm.agrees hscript).pendingFor?_eq_none hs hstate
  · intro t ht
    refine ⟨ht, ?_⟩
    rintro scene task rfl hpending
    have hrefused : scene.waits.register ⟨scene.script.id, scene.script.current⟩ task.kind
        task.watched task.pushesResult = .error (.waitPending scene.script.current) :=
      Waits.register_of_pendingFor? hpending _ _ _
    simp only [Scene.await, hrefused]

theorem reset_starts_afresh_without_a_wait_exhausted :
    Reachable .calls (exhausted.step ⟨1⟩).2 ∧
      ∃ s, (exhausted.step ⟨1⟩).2.script? ⟨1⟩ = some s ∧ s.state ≠ .running ∧
        (exhausted.step ⟨1⟩).2.waits.pendingFor? ⟨1⟩ = none ∧
          Alike (afresh ⟨1⟩ 1) ((exhausted.step ⟨1⟩).2.withScript s.reset)
            ((exhausted.step ⟨1⟩).2.spawn s.unit s.owner).2 := by
  have hm : Reachable .calls (exhausted.step ⟨1⟩).2 := reachable_exhausted.operate (.step ⟨1⟩)
  obtain ⟨s, hs⟩ : ∃ s, (exhausted.step ⟨1⟩).2.script? ⟨1⟩ = some s := ⟨_, rfl⟩
  have hstate : s.state ≠ .running := by
    obtain rfl := Option.some.inj hs
    decide
  have hfree : (exhausted.step ⟨1⟩).2.waits.pendingFor? ⟨1⟩ = none := by decide
  exact ⟨hm, s, hs, hstate, hfree, (reset_starts_afresh_without_a_wait hm hs).1.2 hfree⟩

/-- A script that is reset while it waits is interrupted where a new script pauses. -/
theorem reset_keeps_a_wait :
    ¬∀ m id s, Reachable .lifecycle m → m.script? id = some s →
      ∀ bs j, (((m.spawn s.unit s.owner).2.play
          (bs.map (Beat.rename (afresh id m.lastScript)))).step (afresh id m.lastScript j)).1 =
        (((m.withScript s.reset).play bs).step j).1 := by
  intro h
  obtain ⟨s, hs⟩ : ∃ s, asleep.script? ⟨1⟩ = some s := ⟨_, rfl⟩
  have hsame := h asleep ⟨1⟩ s (reachable_asleep _) hs [.step ⟨1⟩] ⟨1⟩
  obtain rfl := Option.some.inj hs
  exact absurd hsame (by decide)

end WorldScript.Machine
