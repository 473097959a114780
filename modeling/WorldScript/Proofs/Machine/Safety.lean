import WorldScript.Proofs.Code.Fitting
import WorldScript.Proofs.Execution.Faults
import WorldScript.Proofs.Machine.Scripts
import WorldScript.Proofs.Script.Limits

/-!
Safety of the machine. Whatever is done with its scripts by their calls, they stay within their
limits, and an instruction of a unit whose operands fit never runs into a defect of the code. A
script that is interrupted by a fault leaves the world, the waits and the dice as they were.

Main statements: `validated_code_is_safe` and `faults_leave_the_rest`.
-/
set_option autoImplicit false

namespace WorldScript

/-- A host that does what it likes to the world, and to scripts by their calls. -/
def Host.calls : Host where
  world _ _ := True
  script s t := ∃ c, t = s.call c

namespace Machine

variable {m m' : Machine} {id : ScriptId} {s : Script}

theorem Reachable.withinLimits (h : Reachable .calls m) :
    Scripts (fun settings s => s.WithinLimits settings) m :=
  h.scripts (fun _ _ c hs => hs.call c)
    (fun id u owner settings => Script.withinLimits_start id u owner settings) fun _ _ hc => hc

theorem Reachable.isNamed (h : Reachable .calls m) : m.Named := fun id s hs =>
  (h.withinLimits id s hs).1

theorem step_interrupted (h : m.step id = (some .interrupted, m')) :
    ∃ s i s₁ e scene, m.script? id = some s ∧ s.state = .running ∧ s.fetch? = some (i, s₁) ∧
      Scene.execute ⟨s₁, m.world, m.waits, m.dice⟩ i = (.error e, scene) ∧
      m' = { m.withScene { scene with script := scene.script.interrupt e } with
        executed := m.executed + 1 } := by
  obtain he | ⟨s, hs, hstate, ⟨-, he⟩ | ⟨i, s₁, outcome, scene, hf, hsettle, he⟩⟩ :=
    m.step_outcome_cases id
  · rw [he] at h
    cases h
  · rw [he] at h
    cases h
  · rw [he] at h
    cases h
    obtain ⟨e, scene, hx, rfl⟩ := Scene.settle_interrupted hsettle
    exact ⟨s, i, s₁, e, scene, hs, hstate, hf, hx, rfl⟩

theorem step_blameless (hid : s.id = id) (hs : m.script? id = some s) (hfits : s.unit.Fits)
    (h : m.step id = (some .interrupted, m')) :
    ∃ e t, m'.script? id = some t ∧ t.state = .interrupted e ∧ e.isDefect = false := by
  obtain ⟨s, i, s₁, e, scene, hs', hstate, hf, hx, rfl⟩ := step_interrupted h
  obtain rfl := Option.some.inj (hs.symm.trans hs')
  obtain ⟨hid₁, hunit₁, -, hstate₁, hcode⟩ := Script.fetch?_eq_some hf
  have hmem : i ∈ s₁.unit.code.toList := by
    rw [hunit₁]
    exact Array.mem_toList_iff.2 (Array.mem_of_getElem? hcode)
  have hblameless := Scene.execute_blameless (hunit₁ ▸ hfits) hmem hx
  obtain ⟨hstays, hkept⟩ := Scene.stays_of_error hx
  have hrunning : scene.script.state = .running := hkept.trans (hstate₁.trans hstate)
  have hplace : (scene.script.interrupt e).id = id :=
    (Script.stays_interrupt scene.script e).id.trans (hstays.id.trans (hid₁.trans hid))
  refine ⟨e, scene.script.interrupt e, ?_, ?_, hblameless⟩
  · simp only [withScene, script?, hplace, OrderedMap.get?_insert, if_true]
  · exact Script.state_interrupt (by simp [hrunning, ScriptState.isFinished]) e

/-- In every run scripts stay within their limits, and no unit whose operands fit, as they do in all
that are read or assembled, is found to be defective. -/
theorem validated_code_is_safe :
    (∀ b u, CodeUnit.ofBytes b = .ok u → u.Fits) ∧
      (∀ source u, Source.assemble source = .ok u → u.Fits) ∧
      ∀ m, Reachable .calls m → ∀ id s, m.script? id = some s →
        s.WithinLimits m.settings ∧
          (s.unit.Fits → (m.step id).1 = some .interrupted →
            ∃ e t, (m.step id).2.script? id = some t ∧ t.state = .interrupted e ∧
              e.isDefect = false) := by
  refine ⟨fun _ _ => CodeUnit.fits_of_ofBytes, fun _ _ => Source.fits_of_assemble, ?_⟩
  intro m hm id s hs
  obtain ⟨hid, hlimits⟩ := hm.withinLimits id s hs
  exact ⟨hlimits, fun hfits h => step_blameless hid hs hfits (Prod.ext h rfl)⟩

def popTwice : CodeUnit := ⟨0, #[], #[⟨.pop, .none, 0⟩, ⟨.pop, .none, 0⟩], rfl⟩

def exhausted : Machine :=
  let m := ((start (World.start {} []) {} 0).spawn popTwice none).2
  let s := (Script.start ⟨1⟩ popTwice none {}).call (.push Value.zero)
  ({ m with scripts := m.scripts.insert ⟨1⟩ s }.step ⟨1⟩).2

theorem reachable_exhausted : Reachable .calls exhausted :=
  (((reachable_start .calls {} [] {} 0).operate (.spawn popTwice none)).move
    (.script _ ⟨1⟩ (Script.start ⟨1⟩ popTwice none {}) _ rfl ⟨.push Value.zero, rfl⟩)).operate
      (.step ⟨1⟩)

theorem validated_code_is_safe_exhausted :
    Reachable .calls exhausted ∧ popTwice.Fits ∧
      (exhausted.step ⟨1⟩).1 = some .interrupted ∧
      ∃ s, exhausted.script? ⟨1⟩ = some s ∧ s.WithinLimits exhausted.settings ∧ s.position = 1 ∧
        ∃ e t, (exhausted.step ⟨1⟩).2.script? ⟨1⟩ = some t ∧ t.state = .interrupted e ∧
          e.isDefect = false := by
  have hfits : popTwice.Fits := by
    unfold CodeUnit.Fits
    decide
  have hstep : (exhausted.step ⟨1⟩).1 = some .interrupted := by decide
  obtain ⟨s, hs⟩ : ∃ s, exhausted.script? ⟨1⟩ = some s := ⟨_, rfl⟩
  obtain ⟨hlimits, hsafe⟩ := validated_code_is_safe.2.2 _ reachable_exhausted ⟨1⟩ s hs
  obtain rfl := Option.some.inj hs
  exact ⟨reachable_exhausted, hfits, hstep, _, rfl, hlimits, rfl, hsafe hfits hstep⟩

/-- With its stack within the limit, which it always is, an instruction that finds a fault leaves
the world, the waits and the dice as they were. -/
theorem faults_leave_the_rest :
    (∀ (s s' : Scene) i e, s.script.stack.length ≤ s.script.maxStackDepth →
        s.execute i = (.error e, s') →
          s'.world = s.world ∧ s'.waits = s.waits ∧ s'.dice = s.dice) ∧
      ∀ m, Reachable .calls m →
        (∀ id s, m.script? id = some s → s.stack.length ≤ s.maxStackDepth) ∧
          ∀ id, (m.step id).1 = some .interrupted → (m.step id).2.world = m.world ∧
            (m.step id).2.waits = m.waits ∧ (m.step id).2.dice = m.dice := by
  have hscene : ∀ (s s' : Scene) i e, s.script.stack.length ≤ s.script.maxStackDepth →
      s.execute i = (.error e, s') →
        s'.world = s.world ∧ s'.waits = s.waits ∧ s'.dice = s.dice := by
    intro s s' i e hstack hx
    obtain ⟨stack, rfl⟩ := Scene.execute_error_keeps hstack hx
    exact ⟨rfl, rfl, rfl⟩
  have hwithin : ∀ m, Reachable .calls m → ∀ id s, m.script? id = some s →
      s.stack.length ≤ s.maxStackDepth := by
    intro m hm id s hs
    obtain ⟨-, hlimits⟩ := hm.withinLimits id s hs
    rw [hlimits.stackLimit]
    exact hlimits.stack
  refine ⟨hscene, fun m hm => ⟨hwithin m hm, ?_⟩⟩
  intro id h
  have hstep : m.step id = (some .interrupted, (m.step id).2) := Prod.ext h rfl
  obtain ⟨s, i, s₁, e, scene, hs, -, hf, hx, he⟩ := step_interrupted hstep
  obtain ⟨-, rfl⟩ := Script.fetch?_eq_some_iff.1 hf
  rw [he]
  exact hscene _ _ i e (hwithin m hm id s hs) hx

theorem faults_leave_the_rest_exhausted :
    Reachable .calls exhausted ∧ (exhausted.step ⟨1⟩).1 = some .interrupted ∧
      (exhausted.step ⟨1⟩).2.world = exhausted.world ∧
      (exhausted.step ⟨1⟩).2.waits = exhausted.waits ∧
      (exhausted.step ⟨1⟩).2.dice = exhausted.dice := by
  have hstep : (exhausted.step ⟨1⟩).1 = some .interrupted := by decide
  exact ⟨reachable_exhausted, hstep,
    (faults_leave_the_rest.2 _ reachable_exhausted).2 ⟨1⟩ hstep⟩

end Machine

end WorldScript
