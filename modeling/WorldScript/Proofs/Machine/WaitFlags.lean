import WorldScript.Proofs.Execution.WaitFlags
import WorldScript.Proofs.Machine.Destruction

/-!
Asking with and without waiting. A running script can always wait, so that a wait flag decides
about the waiting alone: with it a wait is registered and the script pauses, without it the script
goes on, and what the world is asked for is the same but for the token of the wait.

Main statement: `wait_flag_changes_only_the_waiting`.
-/
set_option autoImplicit false

namespace WorldScript.Machine

variable {m : Machine} {id : ScriptId} {s s₁ : Script} {i : Instruction}

/-- A wait flag decides only whether the script pauses. Faults, stack and dice are the same for
every flag, and so is the world, but for the token with the request. -/
theorem wait_flag_changes_only_the_waiting {host : Host} (hscript : ∀ s t, ¬host.script s t)
    (h : Reachable host m) (hs : m.script? id = some s) (hstate : s.state = .running)
    (hf : s.fetch? = some (i, s₁)) (hop : i.opcode ∈ [.moveTo, .speak, .attack, .fadeScreen])
    (args : List Value) (hargs : args.length + 1 = i.opcode.taken) (rest : List Value)
    {yes no : Binary32} (hyes : Binary32.one.atMost yes = true)
    (hno : Binary32.one.atMost no = false) :
    let scene : Scene := ⟨s₁, m.world, m.waits, m.dice⟩
    let stack (flag : Binary32) := args ++ .number flag :: rest
    (∃ e k, ∀ flag,
      (scene.withStack (stack flag)).execute i = (.error e, scene.withStack ((stack flag).drop k))) ∨
    ∃ r t waits kind, i.opcode.request? args = some r ∧ i.opcode.waitKind? = some kind ∧
      (scene.withStack (stack no)).execute i =
        (.ok .continued, ⟨{ s₁ with stack := rest, state := .running }, m.world.issue r none,
          m.waits, m.dice⟩) ∧
      (scene.withStack (stack yes)).execute i =
        (.ok .paused, ⟨{ s₁ with stack := rest, state := .paused }, m.world.issue r (some t), waits,
          m.dice⟩) ∧
      World.TokenApart t (m.world.issue r (some t)) (m.world.issue r none) ∧
      m.waits.wait? t = none ∧
      (∀ u, waits.wait? u =
        if t = u then some ⟨id, ⟨id, s.position⟩, kind, i.opcode.awaited? args, i.opcode.answers⟩
        else m.waits.wait? u) ∧
      waits.size = m.waits.size + 1 := by
  intro scene stack
  obtain ⟨e, k, he⟩ | ⟨r, hr, hok⟩ := scene.execute_flagged hop hargs rest
  · exact .inl ⟨e, k, he⟩
  · obtain ⟨-, rfl⟩ := Script.fetch?_eq_some_iff.1 hf
    have hm := h.agrees hscript
    have hid : (scene.withStack rest).script.id = id := (hm.named id s hs).1
    obtain ⟨t, waits, hawait, hfresh, hwaits, hsize⟩ :=
      hm.await_eq hs hstate hid rfl (.request r)
    obtain ⟨hkind, hawaited, hanswers⟩ := Opcode.task_of_request? hr
    refine .inr ⟨r, t, waits, _, hr, hkind, ?_, ?_, World.tokenApart_issue hr m.world t, hfresh, ?_,
      hsize⟩
    · rw [hok, Value.holds, hno, ← hstate]
      rfl
    · rw [Script.pause_of_running (s := (scene.withStack rest).script) hstate] at hawait
      rw [hok, Value.holds, hyes]
      exact hawait
    · rw [hawaited, hanswers]
      exact hwaits

def leaving : Machine := ((start lonely {} 0).spawn ⟨0, #[], #[⟨.moveTo, .none, 0⟩], rfl⟩ none).2

theorem wait_flag_changes_only_the_waiting_leaving :
    (∀ s t, ¬Host.worldOnly.script s t) ∧ Reachable .worldOnly leaving ∧
      Binary32.one.atMost Binary32.one = true ∧ Binary32.one.atMost Binary32.nan = false ∧
      ∃ s s₁ t waits, leaving.script? ⟨1⟩ = some s ∧ s.state = .running ∧
        s.fetch? = some (⟨.moveTo, .none, 0⟩, s₁) ∧
        (Scene.withStack ⟨s₁, leaving.world, leaving.waits, leaving.dice⟩
            [.entity ⟨1⟩, Value.zero, Value.zero, .number Binary32.nan]).execute
            ⟨.moveTo, .none, 0⟩ =
          (.ok .continued, ⟨{ s₁ with stack := [], state := .running },
            leaving.world.issue (.walk ⟨1⟩ Binary32.zero Binary32.zero) none, leaving.waits,
            leaving.dice⟩) ∧
        (Scene.withStack ⟨s₁, leaving.world, leaving.waits, leaving.dice⟩
            [.entity ⟨1⟩, Value.zero, Value.zero, .number Binary32.one]).execute
            ⟨.moveTo, .none, 0⟩ =
          (.ok .paused, ⟨{ s₁ with stack := [], state := .paused },
            leaving.world.issue (.walk ⟨1⟩ Binary32.zero Binary32.zero) (some t), waits,
            leaving.dice⟩) ∧
        waits.wait? t = some ⟨⟨1⟩, ⟨⟨1⟩, s.position⟩, .command, some ⟨1⟩, false⟩ := by
  have hscript : ∀ s t, ¬Host.worldOnly.script s t := fun _ _ h => h
  have hreachable : Reachable .worldOnly leaving :=
    (reachable_start .worldOnly {} _ {} 0).operate (.spawn _ none)
  have hyes : Binary32.one.atMost Binary32.one = true := by decide
  have hno : Binary32.one.atMost Binary32.nan = false := by decide
  obtain ⟨s, hs⟩ : ∃ s, leaving.script? ⟨1⟩ = some s := ⟨_, rfl⟩
  obtain ⟨hstate, s₁, hf⟩ : s.state = .running ∧
      ∃ s₁, s.fetch? = some (⟨.moveTo, .none, 0⟩, s₁) := by
    obtain rfl := Option.some.inj hs
    exact ⟨rfl, _, rfl⟩
  obtain ⟨e, k, he⟩ | ⟨r, t, waits, kind, hr, hkind, hgoes, hpauses, -, -, hwaits, -⟩ :=
    wait_flag_changes_only_the_waiting hscript hreachable hs hstate hf (by decide)
      [.entity ⟨1⟩, Value.zero, Value.zero] rfl [] hyes hno
  · cases he Binary32.nan
  · cases hr
    cases hkind
    exact ⟨hscript, hreachable, hyes, hno, s, s₁, t, waits, hs, hstate, hf, hgoes, hpauses,
      (hwaits t).trans (if_pos rfl)⟩

end WorldScript.Machine
