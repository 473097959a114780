import WorldScript.Script

/-!
What each way of changing a script does when it is not refused: the conditions under which it works,
and the parts it changes. None of them takes a script out of its place in the machine.
-/
set_option autoImplicit false

namespace WorldScript.Script

variable {s t : Script}

/-! ### Ways to change a script -/

theorem fetch?_eq_some_iff {i : Instruction} :
    s.fetch? = some (i, t) ↔ s.unit.code[s.position]? = some i ∧
      t = { s with position := s.position + 1, current := s.position } := by
  simp only [fetch?, Option.map_eq_some_iff, Prod.mk.injEq]
  constructor
  · rintro ⟨j, hj, rfl, rfl⟩
    exact ⟨hj, rfl⟩
  · rintro ⟨hi, rfl⟩
    exact ⟨i, hi, rfl, rfl⟩

theorem fetch?_eq_some {i : Instruction} (h : s.fetch? = some (i, t)) :
    t.id = s.id ∧ t.unit = s.unit ∧ t.owner = s.owner ∧ t.state = s.state ∧
      s.unit.code[t.current]? = some i := by
  obtain ⟨hi, rfl⟩ := fetch?_eq_some_iff.1 h
  exact ⟨rfl, rfl, rfl, rfl, hi⟩

theorem push_eq_ok {v : Value} (h : s.push v = .ok t) :
    s.stack.length < s.maxStackDepth ∧ t = { s with stack := v :: s.stack } := by
  unfold push at h
  split at h
  case isTrue hroom =>
    cases h
    exact ⟨hroom, rfl⟩
  case isFalse => cases h

theorem push_eq_error {v : Value} {e : Fault} (h : s.push v = .error e) :
    s.maxStackDepth ≤ s.stack.length := by
  unfold push at h
  split at h
  case isTrue => cases h
  case isFalse hfull => exact Nat.le_of_not_lt hfull

theorem setSlot_eq_ok {index : Nat} {v : Value} (h : s.setSlot index v = .ok t) :
    t = { s with slots := s.slots.setIfInBounds index v } := by
  unfold setSlot at h
  split at h
  · cases h
    rfl
  · cases h

theorem moveTo_eq_ok {target : Nat} (h : s.moveTo target = .ok t) :
    target ≤ s.unit.size ∧ t = { s with position := target } := by
  unfold moveTo at h
  split at h
  case isTrue hle =>
    cases h
    exact ⟨hle, rfl⟩
  case isFalse => cases h

theorem enter_eq_ok {target : Nat} (h : s.enter target = .ok t) :
    s.frames.length < s.maxCallDepth ∧ target ≤ s.unit.size ∧
      t = { s with position := target, frames := ⟨s.position, s.current⟩ :: s.frames } := by
  unfold enter at h
  split at h
  case isTrue => cases h
  case isFalse hdepth =>
    cases hm : s.moveTo target with
    | error e =>
      rw [hm] at h
      cases h
    | ok u =>
      obtain ⟨hle, rfl⟩ := moveTo_eq_ok hm
      rw [hm] at h
      cases h
      exact ⟨Nat.lt_of_not_le hdepth, hle, rfl⟩

theorem leave?_eq_some {f : Frame} (h : s.leave? = some (f, t)) :
    ∃ rest, s.frames = f :: rest ∧ t = { s with frames := rest, position := f.returnTo } := by
  unfold leave? at h
  split at h
  case h_1 rest hframes =>
    cases h
    exact ⟨rest, hframes, rfl⟩
  case h_2 => cases h

theorem leave?_eq_none (h : s.leave? = none) : s.frames = [] := by
  unfold leave? at h
  split at h
  case h_1 => cases h
  case h_2 hframes => exact hframes

/-! ### Changes of the state -/

theorem pause_eq (s : Script) : ∃ state, s.pause = { s with state } := by
  unfold pause
  split
  · exact ⟨.paused, rfl⟩
  · exact ⟨s.state, rfl⟩

theorem pause_of_running (h : s.state = .running) : s.pause = { s with state := .paused } := by
  simp [pause, h]

theorem resume?_of_paused (h : s.state = .paused) :
    s.resume? = some { s with state := .running } := by
  simp [resume?, h]

theorem resume?_eq_none (h : s.state ≠ .paused) : s.resume? = none := by
  unfold resume?
  split
  · exact absurd ‹_› h
  · rfl

theorem stop_eq (s : Script) : ∃ state, s.stop = { s with state } := by
  unfold stop
  split
  · exact ⟨s.state, rfl⟩
  · exact ⟨.stopped, rfl⟩

theorem state_stop (h : s.state.isFinished = false) : s.stop.state = .stopped := by
  simp [stop, h]

theorem interrupt_eq (s : Script) (e : Fault) : ∃ state, s.interrupt e = { s with state } := by
  unfold interrupt
  split
  · exact ⟨s.state, rfl⟩
  · exact ⟨.interrupted e, rfl⟩

theorem state_interrupt (h : s.state.isFinished = false) (e : Fault) :
    (s.interrupt e).state = .interrupted e := by
  simp [interrupt, h]

/-! ### The place of a script -/

/-- The same script at the same instruction. -/
structure Stays (s s' : Script) : Prop where
  id : s'.id = s.id
  unit : s'.unit = s.unit
  owner : s'.owner = s.owner
  current : s'.current = s.current

theorem Stays.trans {s s' s'' : Script} (h : Stays s s') (h' : Stays s' s'') : Stays s s'' :=
  ⟨h'.id.trans h.id, h'.unit.trans h.unit, h'.owner.trans h.owner, h'.current.trans h.current⟩

theorem stays_push {v : Value} (h : s.push v = .ok t) : Stays s t ∧ t.state = s.state := by
  obtain ⟨-, rfl⟩ := push_eq_ok h
  exact ⟨⟨rfl, rfl, rfl, rfl⟩, rfl⟩

theorem stays_setSlot {index : Nat} {v : Value} (h : s.setSlot index v = .ok t) :
    Stays s t ∧ t.state = s.state := by
  obtain rfl := setSlot_eq_ok h
  exact ⟨⟨rfl, rfl, rfl, rfl⟩, rfl⟩

theorem stays_moveTo {target : Nat} (h : s.moveTo target = .ok t) :
    Stays s t ∧ t.state = s.state := by
  obtain ⟨-, rfl⟩ := moveTo_eq_ok h
  exact ⟨⟨rfl, rfl, rfl, rfl⟩, rfl⟩

theorem stays_enter {target : Nat} (h : s.enter target = .ok t) :
    Stays s t ∧ t.state = s.state := by
  obtain ⟨-, -, rfl⟩ := enter_eq_ok h
  exact ⟨⟨rfl, rfl, rfl, rfl⟩, rfl⟩

theorem stays_interrupt (s : Script) (e : Fault) : Stays s (s.interrupt e) := by
  obtain ⟨state, he⟩ := s.interrupt_eq e
  rw [he]
  exact ⟨rfl, rfl, rfl, rfl⟩

theorem stays_stop (s : Script) : Stays s s.stop := by
  obtain ⟨state, he⟩ := s.stop_eq
  rw [he]
  exact ⟨rfl, rfl, rfl, rfl⟩

end WorldScript.Script
