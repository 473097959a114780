import WorldScript.Proofs.Machine.Deeds
import WorldScript.Proofs.World.Attacks

/-!
Attacks over a run of the machine. Whatever scripts and hosts do, what an attack costs is what the
world was started with, and this alone decides whether every attack subtracts as from integers.

Main statement: `attacks_are_exact_unless_they_pay`.
-/
set_option autoImplicit false

namespace WorldScript.Machine

/-- The attacks that some deeds come to, in order. Time passes only when the host calls for it. -/
def attempts (m : Machine) : List Deed → List Blow
  | [] => []
  | .call c :: ds => m.world.attempts c ++ attempts (m.does (.call c)) ds
  | d :: ds => attempts (m.does d) ds

def panics (m : Machine) : List Deed → Bool
  | [] => false
  | .call c :: ds => m.world.panics c || panics (m.does (.call c)) ds
  | d :: ds => panics (m.does d) ds

variable {m : Machine}

theorem attempts_cons (m : Machine) (d : Deed) (ds : List Deed) :
    m.attempts (d :: ds) =
      (match d with | .call c => m.world.attempts c | _ => []) ++ (m.does d).attempts ds := by
  cases d <;> rfl

theorem panics_iff (m : Machine) (ds : List Deed) :
    m.panics ds = true ↔ ∃ b ∈ m.attempts ds, b.panics = true := by
  induction ds generalizing m with
  | nil => simp [panics, attempts]
  | cons d ds ih =>
    cases d with
    | call c =>
      simp only [panics, attempts, Bool.or_eq_true, World.panics_iff, ih, List.mem_append,
        or_and_right, exists_or]
    | _ => exact ih _

/-! ### Settings of the world over a run -/

theorem settings_step (m : Machine) (id : ScriptId) :
    (m.step id).2.world.settings = m.world.settings := by
  cases m.effect_step id with
  | kept _ world => rw [world]
  | changed c _ world => rw [world, World.settings_change]
  | issued r _ world => rw [world, World.settings_issue]
  | awaited site task t _ world => rw [world, World.settings_start]

theorem settings_unload (m : Machine) (id : ScriptId) :
    (m.unload id).2.world.settings = m.world.settings := by
  cases hr : m.waits.releaseScript? id with
  | none => rw [unload_of_none hr]
  | some r =>
    rw [unload_of_some hr]
    exact World.settings_withdraw _ _ _

theorem settings_withdrawEach (released : List (Token × Wait)) (w : World) :
    (released.foldl (fun w e => withdraw w e.1 e.2.kind) w).settings = w.settings := by
  induction released generalizing w with
  | nil => rfl
  | cons e released ih => exact (ih _).trans (World.settings_withdraw w e.1 e.2.kind)

theorem settings_does (m : Machine) (d : Deed) :
    (m.does d).world.settings = m.world.settings := by
  cases d with
  | spawn | reap => rfl
  | step id => exact m.settings_step id
  | pump =>
    have hpump : (m.does .pump).world = m.world.drain.2 := m.world_pump
    rw [hpump]
    rfl
  | unload id => exact m.settings_unload id
  | shutdown => exact settings_withdrawEach _ _
  | call c => exact m.world.settings_call c

theorem settings_attempts (m : Machine) (ds : List Deed) :
    ∀ b ∈ m.attempts ds, b.world.settings = m.world.settings := by
  induction ds generalizing m with
  | nil => simp [attempts]
  | cons d ds ih =>
    intro b hb
    rw [attempts_cons] at hb
    obtain hb | hb := List.mem_append.1 hb
    · cases d with
      | call c => exact m.world.settings_attempts c b hb
      | _ => cases hb
    · exact (ih _ b hb).trans (m.settings_does d)

/-! ### Exact subtraction -/

def richest : EntitySpec :=
  { handle := ⟨1⟩, kind := .creature, actionPoints := Int32.maxValue }

def selfAttack : List Deed :=
  [.call (.issue (.strike ⟨1⟩ ⟨1⟩) none), .call (.advance Binary32.zero)]

theorem attempts_selfAttack (settings : WorldSettings) (machineSettings : MachineSettings)
    (seed : UInt64) :
    ∃ b ∈ (Machine.start (World.start settings [richest]) machineSettings seed).attempts selfAttack,
      b.world.actionPoints? b.attacker = some Int32.maxValue :=
  ⟨_, List.mem_cons_self, rfl⟩

/-- No attack wraps. Its cost is subtracted exactly or it is a panic, and no run comes to a panic
just if attacks cost nothing or more. -/
theorem attacks_are_exact_unless_they_pay (settings : WorldSettings) :
    (∀ specs machineSettings seed ds,
      let m := Machine.start (World.start settings specs) machineSettings seed
      (∀ b ∈ m.attempts ds,
        b.WoundsExactly ∧
          (b.panics = false ∧ b.PaysExactly ∨ b.panics = true ∧ b.after = b.world) ∧
          (b.panics = true ↔ ∃ p, b.world.actionPoints? b.attacker = some p ∧
            settings.attackCost ≤ p ∧
              Int32.maxValue.toInt < p.toInt - settings.attackCost.toInt)) ∧
        (m.panics ds = true ↔ ∃ b ∈ m.attempts ds, b.panics = true)) ∧
      ((∀ specs machineSettings seed ds,
        (Machine.start (World.start settings specs) machineSettings seed).panics ds = false) ↔
          0 ≤ settings.attackCost) := by
  have hsettings : ∀ specs machineSettings seed ds,
      ∀ b ∈ (Machine.start (World.start settings specs) machineSettings seed).attempts ds,
        b.world.settings = settings :=
    fun _ _ _ ds => settings_attempts _ ds
  refine ⟨fun specs machineSettings seed ds => ⟨fun b hb => ⟨b.woundsExactly, ?_, ?_⟩,
    panics_iff _ ds⟩, ?_, ?_⟩
  · cases hpanics : b.panics with
    | false => exact .inl ⟨rfl, b.paysExactly_iff.2 hpanics⟩
    | true => exact .inr ⟨rfl, Blow.after_of_panics hpanics⟩
  · rw [← hsettings specs machineSettings seed ds b hb, Blow.panics_iff]
    simp only [Int.lt_sub_right_iff_add_lt]
  · intro hnone
    -- the richest attacker there can be is the first to be paid too much
    obtain ⟨b, hb, hp⟩ := attempts_selfAttack settings {} 0
    rw [← hsettings _ _ _ _ b hb]
    refine Blow.nonneg_of_not_panics hp (Bool.eq_false_iff.2 fun hpanics => ?_)
    have hrun := (panics_iff _ _).2 ⟨b, hb, hpanics⟩
    rw [hnone] at hrun
    cases hrun
  · intro hcost specs machineSettings seed ds
    rw [← Bool.not_eq_true, panics_iff]
    rintro ⟨b, hb, hpanics⟩
    rw [← hsettings specs machineSettings seed ds b hb] at hcost
    rw [Blow.panics_of_nonneg hcost] at hpanics
    cases hpanics

theorem attacks_are_exact_unless_they_pay_selfAttack :
    let m := Machine.start (World.start { attackCost := -1 } [richest]) {} 0
    (∃ b ∈ m.attempts selfAttack, b.world.actionPoints? b.attacker = some Int32.maxValue ∧
        b.WoundsExactly ∧ b.panics = true ∧ b.after = b.world) ∧
      m.panics selfAttack = true ∧
      (∀ specs machineSettings seed ds,
        (Machine.start (World.start { attackCost := 2 } specs) machineSettings seed).panics ds =
          false) := by
  obtain ⟨hruns, -⟩ := attacks_are_exact_unless_they_pay { attackCost := -1 }
  obtain ⟨hattacks, hpanics⟩ := hruns [richest] {} 0 selfAttack
  obtain ⟨b, hb, hp⟩ := attempts_selfAttack { attackCost := -1 } {} 0
  obtain ⟨hwounds, hpays, hiff⟩ := hattacks b hb
  have hpanic : b.panics = true := hiff.2 ⟨_, hp, by decide, by decide⟩
  refine ⟨⟨b, hb, hp, hwounds, hpanic, ?_⟩, hpanics.2 ⟨b, hb, hpanic⟩,
    (attacks_are_exact_unless_they_pay { attackCost := 2 }).2.2 (by decide)⟩
  obtain ⟨hnot, -⟩ | ⟨-, hafter⟩ := hpays
  · exact absurd (hpanic.symm.trans hnot) (by simp)
  · exact hafter

/-- Whoever is paid one action point for an attack, and has as many as there can be, cannot be
paid. -/
theorem attack_overflows :
    let w := World.start { attackCost := -1 } [richest]
    let m := Machine.start w {} 0
    (m.attempts selfAttack).map (fun b => (b.world.settings.attackCost,
        b.world.actionPoints? b.attacker, b.isPaid)) = [(-1, some Int32.maxValue, true)] ∧
      ¬FitsInt32 (Int32.maxValue.toInt - (-1 : Int32).toInt) ∧
      m.panics selfAttack = true ∧
      ((w.call (.issue (.strike ⟨1⟩ ⟨1⟩) none)).advance Binary32.zero).1 = .error .subtraction ∧
      (m.after selfAttack).world.actionPoints? ⟨1⟩ = some Int32.maxValue := by
  decide

end WorldScript.Machine
