import WorldScript.Proofs.Execution.Outcomes
import WorldScript.Proofs.Machine.Safety

/-!
Slices of a script. A slice ends early just where its script is not running any more, so that it
makes no difference whether a budget is used up in one slice or in two.

Main statement: `slices_add_up`.
-/
set_option autoImplicit false

namespace WorldScript.Machine

variable {m m' : Machine} {id : ScriptId} {outcome : Outcome}

/-! ### How a slice ends -/

theorem endsSlice_iff {state : ScriptState} (h : outcome.Leaves state) :
    endsSlice outcome = true ↔ state ≠ .running := by
  cases outcome with
  | continued | branched | called | returned =>
    obtain rfl : state = .running := h
    simp [endsSlice]
  | paused =>
    obtain rfl : state = .paused := h
    simp [endsSlice]
  | stopped =>
    obtain rfl : state = .stopped := h
    simp [endsSlice]
  | interrupted =>
    obtain ⟨reason, rfl⟩ := h
    simp [endsSlice]

theorem Named.step_leaves (h : m.Named) (hstep : m.step id = (some outcome, m')) :
    ∃ state, m'.state? id = some state ∧ outcome.Leaves state := by
  obtain he | ⟨s, hs, hstate, ⟨-, he⟩ | ⟨i, s₁, outcome', scene, hf, hsettle, -⟩⟩ :=
    m.step_outcome_cases id
  · rw [he] at hstep
    cases hstep
  · rw [he] at hstep
    cases hstep
    have hid : s.stop.id = id := s.stays_stop.id.trans (h id s hs)
    have hput : (m.withScript s.stop).script? id = some s.stop := by
      rw [script?_of_insert rfl, if_pos hid]
    exact ⟨s.stop.state, by rw [state?, hput]; rfl, Script.state_stop (by rw [hstate]; rfl)⟩
  · obtain ⟨he, hscript⟩ := h.step_settle hs hstate hf hsettle
    rw [hstep] at he hscript
    cases he
    have hrunning := (Script.fetch?_eq_some hf).2.2.2.1.trans hstate
    exact ⟨scene.script.state, by rw [state?, hscript]; rfl, Scene.leaves_settle hrunning hsettle⟩

theorem Named.endsSlice_iff_isRunning (h : m.Named) (hstep : m.step id = (some outcome, m')) :
    endsSlice outcome = true ↔ m'.isRunning id = false := by
  obtain ⟨state, hstate, hleaves⟩ := h.step_leaves hstep
  rw [endsSlice_iff hleaves, isRunning, hstate]
  simp

theorem step_of_isRunning_eq_false (h : m.isRunning id = false) : m.step id = (none, m) := by
  refine step_of_ne_running fun s hs hstate => ?_
  simp [isRunning, state?, hs, hstate] at h

/-! ### Two slices -/

theorem Named.runFor_add (h : m.Named) (id : ScriptId) (a b : Nat) :
    runFor id b (runFor id a m) = runFor id (a + b) m := by
  induction a generalizing m with
  | zero => rw [Nat.zero_add, runFor]
  | succ a ih =>
    rw [Nat.add_right_comm]
    rcases hstep : m.step id with ⟨_ | outcome, m'⟩
    · obtain rfl := eq_of_step_none hstep
      simp only [runFor, hstep, runFor_of_step_none hstep]
    · have hnamed : m'.Named := by
        have hm := h.step id
        rw [hstep] at hm
        exact hm
      simp only [runFor, hstep]
      by_cases hends : endsSlice outcome = true
      · -- the script is not running, and the second slice finds nothing to do
        have hrest := step_of_isRunning_eq_false ((h.endsSlice_iff_isRunning hstep).1 hends)
        rw [if_pos hends, if_pos hends, runFor_of_step_none hrest]
      · rw [if_neg hends, if_neg hends, ih hnamed]

/-! ### Budgets -/

def withBudget (m : Machine) (budget : Nat) : Machine :=
  { m with settings := { m.settings with instructionBudget := budget } }

theorem step_withBudget (m : Machine) (id : ScriptId) (budget : Nat) :
    (m.withBudget budget).step id = ((m.step id).1, (m.step id).2.withBudget budget) := by
  have hscript : (m.withBudget budget).script? id = m.script? id := rfl
  unfold step
  rw [hscript]
  cases m.script? id with
  | none => rfl
  | some s =>
    by_cases hrunning : s.isRunning
    · simp only [hrunning, if_true]
      cases s.fetch? <;> rfl
    · simp only [hrunning]
      rfl

theorem runFor_withBudget (id : ScriptId) (k : Nat) (m : Machine) (budget : Nat) :
    runFor id k (m.withBudget budget) = (runFor id k m).withBudget budget := by
  induction k generalizing m with
  | zero => rfl
  | succ k ih =>
    simp only [runFor, step_withBudget]
    rcases m.step id with ⟨_ | outcome, m'⟩
    · rfl
    · by_cases hends : endsSlice outcome = true
      · simp only [hends, if_true]
      · simp only [hends]
        exact ih m'

def slice (m : Machine) (id : ScriptId) (budget : Nat) : Machine := (m.withBudget budget).run id

theorem slice_eq (m : Machine) (id : ScriptId) (budget : Nat) :
    m.slice id budget = (runFor id budget m).withBudget budget :=
  runFor_withBudget id budget m budget

theorem Named.slice_slice (h : m.Named) (id : ScriptId) (a b : Nat) :
    (m.slice id a).slice id b = (m.slice id (a + b)).withBudget b := by
  calc (m.slice id a).slice id b
      = (runFor id b (m.slice id a)).withBudget b := slice_eq _ id b
    _ = ((runFor id b (runFor id a m)).withBudget a).withBudget b := by
        rw [slice_eq, runFor_withBudget]
    _ = ((runFor id (a + b) m).withBudget (a + b)).withBudget b := by
        rw [h.runFor_add]
        rfl
    _ = (m.slice id (a + b)).withBudget b := by rw [slice_eq]

/-- Two slices of a script come to what one with both budgets does, for a step ends a slice just
where its script is not running any more. -/
theorem slices_add_up (h : Reachable .calls m) (id : ScriptId) :
    (∀ a b, ((m.slice id a).slice id b).withBudget (a + b) = m.slice id (a + b) ∧
        ((m.slice id a).slice id b).state? id = (m.slice id (a + b)).state? id) ∧
      ∀ outcome m', m.step id = (some outcome, m') →
        (endsSlice outcome = true ↔ m'.isRunning id = false) := by
  refine ⟨fun a b => ?_, fun outcome m' => h.isNamed.endsSlice_iff_isRunning⟩
  rw [h.isNamed.slice_slice, slice_eq]
  exact ⟨rfl, rfl⟩

theorem slices_add_up_exhausted :
    Reachable .calls exhausted ∧
      ((exhausted.slice ⟨1⟩ 1).slice ⟨1⟩ 2).withBudget 3 = exhausted.slice ⟨1⟩ 3 ∧
      (exhausted.step ⟨1⟩).1 = some .interrupted ∧
      (exhausted.step ⟨1⟩).2.isRunning ⟨1⟩ = false ∧ (exhausted.slice ⟨1⟩ 3).executed = 2 := by
  obtain ⟨hadd, hends⟩ := slices_add_up reachable_exhausted ⟨1⟩
  have hstep : (exhausted.step ⟨1⟩).1 = some .interrupted := by decide
  exact ⟨reachable_exhausted, (hadd 1 2).1, hstep, (hends _ _ (Prod.ext hstep rfl)).1 rfl,
    by decide⟩

end WorldScript.Machine
