import WorldScript.Proofs.Execution.Effects

/-!
How an instruction ends. Each outcome leaves the script in a state of its own, so that one can be
told from the other.

Main statement: `Scene.leaves_settle`.
-/
set_option autoImplicit false

namespace WorldScript

def Outcome.Leaves (state : ScriptState) : Outcome → Prop
  | continued | branched | called | returned => state = .running
  | paused => state = .paused
  | stopped => state = .stopped
  | interrupted => ∃ reason, state = .interrupted reason

namespace Scene

variable {s s' : Scene} {i : Instruction} {outcome : Outcome}

theorem leaves_ret (hs : s.script.state = .running) : s.ret.1.Leaves s.ret.2.script.state := by
  have hstop : s.script.stop.state = .stopped :=
    Script.state_stop (by rw [hs]; rfl)
  unfold ret
  split
  · exact hstop
  · split
    case h_1 f script hl =>
      obtain ⟨rest, -, rfl⟩ := Script.leave?_eq_some hl
      exact hs
    case h_2 => exact hstop

theorem leaves_perform {a : Action} (hs : s.script.state = .running)
    (h : s.perform a = (.ok outcome, s')) : outcome.Leaves s'.script.state := by
  cases a with
  | proceed | change c | issue r =>
    cases h
    exact hs
  | push v =>
    obtain ⟨rfl, hr⟩ := withScript_eq_ok h
    exact (Script.stays_push hr).2.trans hs
  | store slot v =>
    obtain ⟨rfl, hr⟩ := withScript_eq_ok h
    exact (Script.stays_setSlot hr).2.trans hs
  | jump target =>
    obtain ⟨rfl, hr⟩ := withScript_eq_ok h
    exact (Script.stays_moveTo hr).2.trans hs
  | call target =>
    obtain ⟨rfl, hr⟩ := withScript_eq_ok h
    exact (Script.stays_enter hr).2.trans hs
  | ret =>
    cases h
    exact leaves_ret hs
  | roll bound =>
    obtain ⟨n, dice, hroll⟩ := s.roll_eq bound
    rw [perform, hroll] at h
    obtain ⟨rfl, hr⟩ := withScript_eq_ok h
    exact (Script.stays_push hr).2.trans hs
  | await task =>
    simp only [perform, await] at h
    split at h
    · cases h
      simp only [Script.pause_of_running hs, Outcome.Leaves]
    · cases h

theorem leaves_settle (hs : s.script.state = .running) (h : s.settle i = (outcome, s')) :
    outcome.Leaves s'.script.state := by
  rcases hx : s.execute i with ⟨e | o, scene⟩
  · obtain ⟨-, hstate⟩ := stays_of_error hx
    rw [settle_of_error hx] at h
    cases h
    exact ⟨e, Script.state_interrupt (by rw [hstate, hs]; rfl) e⟩
  · obtain ⟨a, rest, -, hp⟩ := execute_ok hx
    rw [settle_of_ok hx] at h
    cases h
    exact leaves_perform (s := s.withStack rest) hs hp

theorem outcome_of_paused (hs : s.script.state = .running) (h : s.settle i = (outcome, s'))
    (hpaused : s'.script.state = .paused) : outcome = .paused := by
  have hleaves := leaves_settle hs h
  rw [hpaused] at hleaves
  cases outcome with
  | paused => rfl
  | continued | branched | called | returned | stopped => cases hleaves
  | interrupted =>
    obtain ⟨reason, he⟩ := hleaves
    cases he

end Scene

end WorldScript
