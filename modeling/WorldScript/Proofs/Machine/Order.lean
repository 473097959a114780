import WorldScript.Proofs.Machine.Beats

/-!
The order of a machine. Whatever is done with its scripts by their calls, the registry of waits is
in order, every script knows its place, and no number is given to two scripts.

Main statement: `Reachable.inOrder`.
-/
set_option autoImplicit false

namespace WorldScript.Machine

variable {m m' : Machine} {id : ScriptId}

/-- The registry is in order. Scripts know their places, and the numbers of scripts that are loaded
or have a wait were given out before. -/
structure InOrder (m : Machine) : Prop where
  indexed : m.waits.Indexed
  named : m.Named
  loaded : ∀ id s, m.script? id = some s → id.index ≤ m.lastScript
  waiting : ∀ t x, m.waits.wait? t = some x → x.script.index ≤ m.lastScript

theorem InOrder.put (h : InOrder m) {s : Script} (hid : s.id = id) (hlast : id.index ≤ m'.lastScript)
    (hgrows : m.lastScript ≤ m'.lastScript) (hscripts : m'.scripts = m.scripts.insert id s)
    (hindexed : m'.waits.Indexed)
    (hwaits : ∀ t x, m'.waits.wait? t = some x → m.waits.wait? t = some x ∨ x.script = id) :
    InOrder m' := by
  have hscript := script?_of_insert hscripts
  refine ⟨hindexed, ?_, ?_, ?_⟩
  · intro j s' hs'
    rw [hscript] at hs'
    split at hs'
    case isTrue hj =>
      cases hs'
      exact hid.trans hj
    case isFalse => exact h.named j s' hs'
  · intro j s' hs'
    rw [hscript] at hs'
    split at hs'
    case isTrue hj => exact hj ▸ hlast
    case isFalse => exact Nat.le_trans (h.loaded j s' hs') hgrows
  · intro t x hx
    obtain hx | hx := hwaits t x hx
    · exact Nat.le_trans (h.waiting t x hx) hgrows
    · exact hx ▸ hlast

theorem InOrder.fewer (h : InOrder m) (hlast : m'.lastScript = m.lastScript)
    (hscripts : ∀ id s, m'.script? id = some s → m.script? id = some s)
    (hindexed : m'.waits.Indexed)
    (hwaits : ∀ t x, m'.waits.wait? t = some x → m.waits.wait? t = some x) : InOrder m' where
  indexed := hindexed
  named id s hs := h.named id s (hscripts id s hs)
  loaded id s hs := hlast ▸ h.loaded id s (hscripts id s hs)
  waiting t x hx := hlast ▸ h.waiting t x (hwaits t x hx)

theorem InOrder.step (h : InOrder m) (id : ScriptId) : InOrder (m.step id).2 := by
  obtain he | ⟨s, hs, -, he | ⟨i, s₁, scene, hf, hstays, heffect, he⟩⟩ := m.step_cases id
  · rw [he]
    exact h
  · have hid : s.stop.id = id := s.stays_stop.id.trans (h.named id s hs)
    rw [he]
    refine h.put hid (h.loaded id s hs) (Nat.le_refl _) ?_ h.indexed fun _ _ hx => .inl hx
    rw [withScript, hid]
  · have hid₁ : s₁.id = id := (Script.fetch?_eq_some hf).1.trans (h.named id s hs)
    have hid : scene.script.id = id := hstays.id.trans hid₁
    have hwaits : scene.waits.Indexed ∧ ∀ t x, scene.waits.wait? t = some x →
        m.waits.wait? t = some x ∨ x.script = id := by
      cases heffect with
      | kept waits | changed _ waits | issued _ waits =>
        rw [waits]
        exact ⟨h.indexed, fun _ _ hx => .inl hx⟩
      | awaited task t kind waits =>
        obtain ⟨-, -, -, hpending, hindexed⟩ := h.indexed.register waits
        refine ⟨hindexed, fun u x hx => ?_⟩
        rw [Waits.wait?, hpending, OrderedMap.get?_insert] at hx
        split at hx
        case isTrue =>
          cases hx
          exact .inr hid₁
        case isFalse => exact .inl hx
    rw [he]
    refine h.put hid (h.loaded id s hs) (Nat.le_refl _) ?_ hwaits.1 hwaits.2
    simp only [withScene, hid]

theorem InOrder.wakeEach (ks : List Wakeup) (woken : Nat) (h : InOrder m) :
    InOrder (Machine.wakeEach ks woken m).2 := by
  refine wakeEach_keeps ?_ ks woken m h
  intro m k s hs hpaused h
  have hid := (Script.stays_woken hpaused k).1.id.trans (h.named _ s hs)
  refine h.put hid (h.loaded _ s hs) (Nat.le_refl _) ?_ h.indexed fun _ _ hx => .inl hx
  rw [withScript, hid]

theorem InOrder.deliver (h : InOrder m) (n : Notice) : InOrder (m.deliver n) := by
  have hwaits : InOrder { m with waits := (m.waits.deliver n).2 } :=
    h.fewer rfl (fun _ _ hs => hs) (h.indexed.deliver n).2.2.2
      fun t x hx => ((h.indexed.get?_deliver n t x).1 hx).1
  exact hwaits.wakeEach _ 0

theorem InOrder.unload (h : InOrder m) (id : ScriptId) : InOrder (m.unload id).2 := by
  have hlast : (m.unload id).2.lastScript = m.lastScript := by
    obtain ⟨waits, world, he⟩ := m.unload_eq id
    rw [he]
  have hscripts : ∀ j s, (m.unload id).2.script? j = some s → m.script? j = some s := by
    intro j s hs
    rw [script?_unload, Option.ite_none_left_eq_some] at hs
    exact hs.2
  refine h.fewer hlast hscripts (indexed_unload h.indexed id) fun t x hx => ?_
  rw [wait?_unload h.indexed, Option.filter_eq_some_iff] at hx
  exact hx.1

theorem InOrder.beat (h : InOrder m) (b : Beat) : InOrder (m.beat b) := by
  cases b with
  | spawn u owner =>
    have hid : (Script.start ⟨m.lastScript + 1⟩ u owner m.settings).id = ⟨m.lastScript + 1⟩ := rfl
    exact h.put hid (Nat.le_refl _) (Nat.le_succ _) rfl h.indexed fun _ _ hx => .inl hx
  | step id => exact h.step id
  | deliver n => exact h.deliver n
  | reap =>
    refine h.fewer rfl (fun id s hs => ?_) h.indexed fun _ _ hx => hx
    rw [Machine.beat, script?_reap, Option.filter_eq_some_iff] at hs
    exact hs.1
  | unload id => exact h.unload id
  | shutdown =>
    obtain ⟨-, hpending, -, hindexed⟩ := h.indexed.releaseAll
    refine h.fewer rfl (fun id s hs => ?_) hindexed fun t x hx => ?_
    · simp [Machine.beat, Machine.shutdown, script?] at hs
    · simp [Machine.beat, Machine.shutdown, Waits.wait?, hpending] at hx
  | world w => exact h.fewer rfl (fun _ _ hs => hs) h.indexed fun _ _ hx => hx

theorem InOrder.play (h : InOrder m) (bs : List Beat) : InOrder (m.play bs) := by
  induction bs generalizing m with
  | nil => exact h
  | cons b bs ih => exact ih (h.beat b)

theorem InOrder.move {host : Host} (hhost : ∀ s t, host.script s t → ∃ c, t = s.call c)
    (h : InOrder m) (hm : Move host m m') : InOrder m' := by
  cases hm with
  | operate op =>
    obtain ⟨bs, he⟩ := operate_eq_play m op
    exact he ▸ h.play bs
  | world w => exact h.beat (.world w)
  | script id s t hs ht =>
    obtain ⟨c, rfl⟩ := hhost s t ht
    have hid := (s.id_call c).trans (h.named id s hs)
    exact h.put hid (h.loaded id s hs) (Nat.le_refl _) rfl h.indexed fun _ _ hx => .inl hx

theorem Reachable.inOrder {host : Host} (hhost : ∀ s t, host.script s t → ∃ c, t = s.call c)
    (h : Reachable host m) : InOrder m := by
  obtain ⟨worldSettings, specs, settings, seed, hrun⟩ := h
  induction hrun with
  | refl =>
    refine ⟨Waits.indexed_empty, ?_, ?_, ?_⟩
    · simp [Named, start, script?]
    · simp [start, script?]
    · simp [start, Waits.wait?]
  | tail _ hm ih => exact ih.move hhost hm

end WorldScript.Machine
