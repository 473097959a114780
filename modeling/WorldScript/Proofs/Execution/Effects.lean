import WorldScript.Proofs.Execution.StackEffect
import WorldScript.Proofs.Script.Changes

/-!
What executing an instruction can do to the world and to the waits. An instruction takes its
arguments and then performs at most one action, and its opcode says which.

Main statement: `Scene.effect_settle`.
-/
set_option autoImplicit false

namespace WorldScript

/-- Only the opcodes that reach beyond the script ask or change anything there, and each of them
waits for one kind of notice. -/
def Action.Suits (op : Opcode) : Action → Prop
  | .await task => op.waitKind? = some task.kind
  | .roll _ | .change _ | .issue _ => op.isApi = true
  | .proceed | .push _ | .store _ _ | .jump _ | .call _ | .ret => True

theorem Action.Of.suits {op : Opcode} {operand : Operand} {a : Action} (h : a.Of op operand) :
    a.Suits op := by
  cases h with
  | proceed | push | store | jump | call | ret => trivial
  | roll bound hop => rw [hop]; rfl
  | change c hapi => exact hapi
  | issue r hk => exact Opcode.isApi_of_waitKind? hk
  | await task hk => exact hk

def Action.outcomes : Action → List Outcome
  | .jump _ => [.branched]
  | .call _ => [.called]
  | .ret => [.returned, .stopped]
  | .await _ => [.paused]
  | .proceed | .push _ | .store _ _ | .roll _ | .change _ | .issue _ => [.continued]

/-! ### Instructions with any operand -/

namespace Opcode

open Taking

variable (op : Opcode) (operand : Operand) {P : Action → Prop}

theorem draws_branch (hproceed : P .proceed) (hjump : ∀ t, P (.jump t)) (taken : Bool) :
    (branch op operand taken).Draws P := by
  cases operand with
  | codeOffset t =>
    cases taken with
    | true => exact draws_pure (hjump _)
    | false => exact draws_pure hproceed
  | _ => exact draws_throw

theorem draws_flowAction (hproceed : P .proceed) (hjump : ∀ t, P (.jump t)) :
    (op.flowAction operand).Draws P := by
  have hbranch := fun op taken => draws_branch op operand hproceed hjump taken
  cases op with
  | jump => exact hbranch _ _
  | jumpIfFalse | jumpIfTrue => exact takes_number.draws.bind fun _ => hbranch _ _
  | jumpIfEqual | jumpIfNotEqual | jumpIfStrEqual | jumpIfStrNotEqual | jumpIfEntityEqual
  | jumpIfEntityNotEqual | jumpIfGreaterEqual | jumpIfGreater | jumpIfLess | jumpIfLessEqual =>
    exact takes_pop.draws.bind fun _ => takes_pop.draws.bind fun _ =>
      (draws_check _).bind fun _ => hbranch _ _
  | _ => exact draws_throw

theorem draws_memoryAction (s : Script) (hpush : ∀ v, P (.push v))
    (hstore : ∀ slot v, P (.store slot v)) : (op.memoryAction operand s).Draws P := by
  cases operand with
  | number n => exact draws_pure (hpush _)
  | entity h => exact draws_pure (hpush _)
  | stringIndex i => exact (draws_check _).bind fun _ => draws_pure (hpush _)
  | none | codeOffset t | callTarget t => exact draws_throw
  | slot i =>
    by_cases h : op = load
    · simp only [memoryAction, h, if_true]
      exact (draws_check _).bind fun _ => draws_pure (hpush _)
    · simp only [memoryAction, h, if_false]
      exact (draws_check _).bind fun _ => takes_pop.draws.bind fun _ => draws_pure (hstore _ _)

theorem draws_stackAction (hproceed : P .proceed) (hpush : ∀ v, P (.push v))
    (hcall : op = .call → ∀ t, P (.call t)) (hret : op = .return → P .ret) :
    (op.stackAction operand).Draws P := by
  cases op with
  | nop => exact draws_pure hproceed
  | pop => exact takes_pop.draws.bind fun _ => draws_pure hproceed
  | dup => exact takes_peek.draws.bind fun _ => draws_pure (hpush _)
  | call => cases operand <;> first | exact draws_throw | exact draws_pure (hcall rfl _)
  | «return» => exact draws_pure (hret rfl)
  | _ => exact draws_throw

end Opcode

/-- Whatever its operand is, an instruction only takes values off the stack, and finds an action
that suits its opcode. -/
theorem Instruction.draws_action (i : Instruction) (s : Script) (w : World) :
    (i.action s w).Draws (Action.Suits i.opcode) := by
  have hsuits : ∀ a : Action, a.Of i.opcode i.operand → a.Suits i.opcode := fun _ h => h.suits
  unfold action
  split
  case h_1 h => exact (Opcode.takes_mathAction h).draws.mono hsuits
  case h_2 => exact i.opcode.draws_flowAction i.operand trivial fun _ => trivial
  case h_3 =>
    exact i.opcode.draws_memoryAction i.operand s (fun _ => trivial) fun _ _ => trivial
  case h_4 =>
    exact i.opcode.draws_stackAction i.operand trivial (fun _ => trivial) (fun _ _ => trivial)
      fun _ => trivial
  case h_5 h => exact (Opcode.takes_worldAction s w h).draws.mono hsuits
  case h_6 h => exact (Opcode.takes_guiAction w h).draws.mono hsuits
  case h_7 h => exact (Opcode.takes_combatAction w h).draws.mono hsuits

/-! ### Whom a task watches -/

theorem Task.kind_of_watched {task : Task} {h : Handle} (hh : task.watched = some h) :
    task.kind = .command := by
  cases task with
  | alarm seconds => cases hh
  | request r => cases r <;> first | rfl | cases hh

/-- A task that is waited for watches only who is there. -/
def Action.Heeds (w : World) (a : Action) : Prop :=
  ∀ task h, a = .await task → task.watched = some h → w.entities.contains h = true

theorem World.contains_of_requireKind {w : World} {h : Handle} {kind : EntityKind} {u : Unit}
    (hr : w.requireKind h kind = .ok u) : w.entities.contains h = true := by
  unfold requireKind kind? at hr
  unfold OrderedMap.contains
  cases he : w.entities.get? h with
  | none => simp [he] at hr
  | some e => rfl

theorem World.contains_of_requireEntity {w : World} {h : Handle} {u : Unit}
    (hr : w.requireEntity h = .ok u) : w.entities.contains h = true := by
  unfold requireEntity at hr
  split at hr
  · cases hr
  · simp_all

theorem Action.heeds_ask {w : World} {r : Request}
    (hr : ∀ h, (Task.request r).watched = some h → w.entities.contains h = true) (waits : Bool) :
    (Taking.ask waits r).Heeds w := by
  intro task h ha hh
  cases waits with
  | true =>
    cases ha
    exact hr h hh
  | false => cases ha

namespace Opcode

open Taking

variable {op : Opcode}

theorem draws_worldAction_heeds (s : Script) (w : World) (hop : op = moveTo ∨ op = speak) :
    (op.worldAction s w).Draws (Action.Heeds w) := by
  obtain rfl | rfl := hop
  · refine takes_entity.draws.bind fun h => takes_number.draws.bind fun x =>
      takes_number.draws.bind fun y => takes_flag.draws.bind fun waits =>
        draws_check_bind fun _ hcreature => ?_
    have hthere := World.contains_of_requireKind hcreature
    split
    · exact draws_throw
    · refine draws_pure (Action.heeds_ask (fun g hg => ?_) waits)
      cases hg
      exact hthere
  · refine takes_entity.draws.bind fun h => takes_string.draws.bind fun text =>
      takes_flag.draws.bind fun waits => draws_check_bind fun _ hentity => ?_
    have hthere := World.contains_of_requireEntity hentity
    refine draws_pure (Action.heeds_ask (fun g hg => ?_) waits)
    cases hg
    exact hthere

theorem draws_combatAction_heeds (w : World) : (attack.combatAction w).Draws (Action.Heeds w) := by
  refine takes_entity.draws.bind fun attacker => takes_entity.draws.bind fun target =>
    takes_flag.draws.bind fun waits => ?_
  split
  · exact draws_throw
  · refine draws_check_bind fun _ hcreature => (draws_check _).bind fun _ =>
      (draws_check _).bind fun e => ?_
    have hthere := World.contains_of_requireKind hcreature
    split
    · exact draws_throw
    · refine draws_pure (Action.heeds_ask (fun g hg => ?_) waits)
      cases hg
      exact hthere

end Opcode

theorem Instruction.draws_heeds (i : Instruction) (s : Script) (w : World) :
    (i.action s w).Draws (Action.Heeds w) := by
  by_cases hop : i.opcode.waitKind? = some .command
  · have hcases : i.opcode = .moveTo ∨ i.opcode = .speak ∨ i.opcode = .attack := by
      revert hop
      cases i.opcode <;> decide
    obtain h | h | h := hcases
    · simp only [action, h, Opcode.family]
      exact Opcode.draws_worldAction_heeds s w (.inl rfl)
    · simp only [action, h, Opcode.family]
      exact Opcode.draws_worldAction_heeds s w (.inr rfl)
    · simp only [action, h, Opcode.family]
      exact Opcode.draws_combatAction_heeds w
  · refine (i.draws_action s w).mono ?_
    rintro a hsuits task h rfl hh
    exact absurd (Task.kind_of_watched hh ▸ hsuits) hop

/-! ### What an instruction does to a scene -/

namespace Scene

/-- What an instruction of a running script can do to the world and to the waits. The script
pauses just when a wait is registered for it, which watches only who is there. -/
inductive Effect (i : Instruction) (s s' : Scene) : Prop
  | kept (waits : s'.waits = s.waits) (world : s'.world = s.world)
    (state : s'.script.state ≠ .paused)
  | changed (c : Change) (waits : s'.waits = s.waits) (world : s'.world = s.world.change c)
    (state : s'.script.state ≠ .paused)
  | issued (r : Request) (waits : s'.waits = s.waits) (world : s'.world = s.world.issue r none)
    (state : s'.script.state ≠ .paused)
  | awaited (task : Task) (t : Token) (kind : i.opcode.waitKind? = some task.kind)
    (waits : s.waits.register ⟨s.script.id, s.script.current⟩ task.kind task.watched
      task.pushesResult = .ok (t, s'.waits))
    (world : s'.world = task.start s.world t) (state : s'.script.state = .paused)
    (heeds : ∀ h, task.watched = some h → s.world.entities.contains h = true)

/-- What happened before the action, to the stack or to the dice, does not matter. -/
theorem Effect.of_stays {i : Instruction} {s s₁ s₂ : Scene} (h : Effect i s₁ s₂)
    (hstays : s.script.Stays s₁.script) (hworld : s₁.world = s.world)
    (hwaits : s₁.waits = s.waits) : Effect i s s₂ := by
  cases h with
  | kept waits world state => exact .kept (waits.trans hwaits) (world.trans hworld) state
  | changed c waits world state =>
    exact .changed c (waits.trans hwaits) (hworld ▸ world) state
  | issued r waits world state =>
    exact .issued r (waits.trans hwaits) (hworld ▸ world) state
  | awaited task t kind waits world state heeds =>
    rw [hwaits, hstays.id, hstays.current] at waits
    exact .awaited task t kind waits (hworld ▸ world) state (hworld ▸ heeds)

theorem roll_eq (s : Scene) (bound : Nat) :
    ∃ n dice, s.roll bound =
      withScript { s with dice } .continued (s.script.push (.number (Binary32.ofInt n))) := by
  unfold roll
  rcases s.dice.roll bound with ⟨n, dice⟩
  exact ⟨n, dice, rfl⟩

theorem withScript_eq_ok {s s' : Scene} {o outcome : Outcome} {r : Except Fault Script}
    (h : s.withScript o r = (.ok outcome, s')) : outcome = o ∧ r = .ok s'.script := by
  cases r with
  | ok t =>
    cases h
    exact ⟨rfl, rfl⟩
  | error e => cases h

theorem withScript_eq_error {s s' : Scene} {o : Outcome} {r : Except Fault Script} {e : Fault}
    (h : s.withScript o r = (.error e, s')) : r = .error e ∧ s' = s := by
  cases r with
  | ok t => cases h
  | error e' =>
    cases h
    exact ⟨rfl, rfl⟩

theorem perform_outcome {s s' : Scene} {a : Action} {outcome : Outcome}
    (h : s.perform a = (.ok outcome, s')) : outcome ∈ a.outcomes := by
  cases a with
  | proceed | change c | issue r =>
    cases h
    exact List.mem_singleton_self _
  | push v | store slot v | jump target | call target =>
    obtain ⟨rfl, -⟩ := withScript_eq_ok h
    exact List.mem_singleton_self _
  | ret =>
    have hret : s.ret.1 = .returned ∨ s.ret.1 = .stopped := by
      unfold ret
      split
      · exact .inr rfl
      · split
        · exact .inl rfl
        · exact .inr rfl
    obtain rfl : s.ret.1 = outcome := Except.ok.inj (congrArg Prod.fst h)
    simpa [Action.outcomes] using hret
  | roll bound =>
    obtain ⟨n, dice, hr⟩ := s.roll_eq bound
    rw [perform, hr] at h
    obtain ⟨rfl, -⟩ := withScript_eq_ok h
    exact List.mem_singleton_self _
  | await task =>
    simp only [perform, await] at h
    split at h
    · cases h
      exact List.mem_singleton_self _
    · cases h

/-- A fault in performing an action changes nothing. Only the dice can have moved, and only if
there is no room for what they show. -/
theorem perform_error {s s' : Scene} {a : Action} {e : Fault} (h : s.perform a = (.error e, s')) :
    s' = s ∨ ∃ bound dice, a = .roll bound ∧
      s.script.maxStackDepth ≤ s.script.stack.length ∧ s' = { s with dice } := by
  cases a with
  | proceed | ret | change c | issue r => cases h
  | push v | store slot v | jump target | call target => exact .inl (withScript_eq_error h).2
  | roll bound =>
    obtain ⟨n, dice, hr⟩ := s.roll_eq bound
    rw [perform, hr] at h
    obtain ⟨hpush, rfl⟩ := withScript_eq_error h
    exact .inr ⟨bound, dice, rfl, Script.push_eq_error hpush, rfl⟩
  | await task =>
    simp only [perform, await] at h
    split at h
    · cases h
    · cases h
      exact .inl rfl

theorem perform_cases (s : Scene) (a : Action) :
    ((s.perform a).2.world = s.world ∧ (s.perform a).2.waits = s.waits) ∨
      (∃ c, a = .change c) ∨ (∃ r, a = .issue r) ∨ ∃ task, a = .await task := by
  have hscript : ∀ outcome r, (s.withScript outcome r).2.world = s.world ∧
      (s.withScript outcome r).2.waits = s.waits := by
    intro outcome r
    cases r <;> exact ⟨rfl, rfl⟩
  cases a with
  | proceed => exact .inl ⟨rfl, rfl⟩
  | push | store | jump | call => exact .inl (hscript _ _)
  | ret =>
    left
    simp only [perform, ret]
    split
    · exact ⟨rfl, rfl⟩
    · split <;> exact ⟨rfl, rfl⟩
  | roll bound =>
    obtain ⟨n, dice, hr⟩ := s.roll_eq bound
    rw [perform, hr]
    left
    cases s.script.push (.number (Binary32.ofInt n)) <;> exact ⟨rfl, rfl⟩
  | change c => exact .inr (.inl ⟨c, rfl⟩)
  | issue r => exact .inr (.inr (.inl ⟨r, rfl⟩))
  | await task => exact .inr (.inr (.inr ⟨task, rfl⟩))

theorem effect_withScript {s : Scene} {i : Instruction} {outcome : Outcome}
    {r : Except Fault Script} (hs : s.script.state = .running)
    (hr : ∀ t, r = .ok t → s.script.Stays t ∧ t.state = s.script.state) :
    s.script.Stays (s.withScript outcome r).2.script ∧
      Effect i s (s.withScript outcome r).2 := by
  cases r with
  | error e => exact ⟨⟨rfl, rfl, rfl, rfl⟩, .kept rfl rfl (by simp [withScript, hs])⟩
  | ok t =>
    obtain ⟨hstays, hstate⟩ := hr t rfl
    exact ⟨hstays, .kept rfl rfl (by simp [withScript, hstate, hs])⟩

theorem effect_ret {s : Scene} {i : Instruction} (hs : s.script.state = .running) :
    s.script.Stays s.ret.2.script ∧ Effect i s s.ret.2 := by
  have hstop : s.script.stop.state ≠ .paused := by
    simp [Script.state_stop (s := s.script) (by simp [hs, ScriptState.isFinished])]
  unfold ret
  split
  · exact ⟨s.script.stays_stop, .kept rfl rfl hstop⟩
  · split
    case h_1 f script hl =>
      obtain ⟨rest, -, rfl⟩ := Script.leave?_eq_some hl
      exact ⟨⟨rfl, rfl, rfl, rfl⟩, .kept rfl rfl (by simp [hs])⟩
    case h_2 => exact ⟨s.script.stays_stop, .kept rfl rfl hstop⟩

theorem effect_await {s : Scene} {i : Instruction} {task : Task}
    (hs : s.script.state = .running) (ht : i.opcode.waitKind? = some task.kind)
    (hheeds : ∀ h, task.watched = some h → s.world.entities.contains h = true) :
    s.script.Stays (s.await task).2.script ∧ Effect i s (s.await task).2 := by
  unfold await
  dsimp only
  split
  · rename_i t waits hr
    rw [Script.pause_of_running hs]
    exact ⟨⟨rfl, rfl, rfl, rfl⟩, .awaited task t ht hr rfl rfl hheeds⟩
  · exact ⟨⟨rfl, rfl, rfl, rfl⟩, .kept rfl rfl (by simp [hs])⟩

theorem effect_perform {s : Scene} {i : Instruction} {a : Action}
    (hs : s.script.state = .running) (ha : a.Suits i.opcode) (hheeds : a.Heeds s.world) :
    s.script.Stays (s.perform a).2.script ∧ Effect i s (s.perform a).2 := by
  cases a with
  | proceed => exact ⟨⟨rfl, rfl, rfl, rfl⟩, .kept rfl rfl (by simp [perform, hs])⟩
  | push v => exact effect_withScript hs fun _ => Script.stays_push
  | store slot v => exact effect_withScript hs fun _ => Script.stays_setSlot
  | jump target => exact effect_withScript hs fun _ => Script.stays_moveTo
  | call target => exact effect_withScript hs fun _ => Script.stays_enter
  | ret => exact effect_ret hs
  | roll bound =>
    obtain ⟨n, dice, hr⟩ := s.roll_eq bound
    have hs₁ : ({ s with dice } : Scene).script.state = .running := hs
    obtain ⟨hstays, heffect⟩ := effect_withScript hs₁ fun _ => Script.stays_push
    rw [perform, hr]
    exact ⟨hstays, heffect.of_stays ⟨rfl, rfl, rfl, rfl⟩ rfl rfl⟩
  | change c => exact ⟨⟨rfl, rfl, rfl, rfl⟩, .changed c rfl rfl (by simp [perform, hs])⟩
  | issue r => exact ⟨⟨rfl, rfl, rfl, rfl⟩, .issued r rfl rfl (by simp [perform, hs])⟩
  | await task => exact effect_await hs ha fun h => hheeds task h rfl

/-! ### Executing -/

def withStack (s : Scene) (stack : List Value) : Scene :=
  { s with script := { s.script with stack } }

section

variable {s s' : Scene} {i : Instruction}

theorem execute_eq {r : Except Fault Action} {rest : List Value}
    (hr : (i.action s.script s.world).run s.script.stack = (r, rest)) :
    s.execute i =
      match r with
      | .ok a => (s.withStack rest).perform a
      | .error e => (.error e, s.withStack rest) := by
  simp only [execute, Script.take, hr]
  cases r <;> rfl

theorem execute_ok {outcome : Outcome} (h : s.execute i = (.ok outcome, s')) :
    ∃ a rest, (i.action s.script s.world).run s.script.stack = (.ok a, rest) ∧
      (s.withStack rest).perform a = (.ok outcome, s') := by
  rcases hr : (i.action s.script s.world).run s.script.stack with ⟨e | a, rest⟩
  · rw [execute_eq hr] at h
    cases h
  · rw [execute_eq hr] at h
    exact ⟨a, rest, rfl, h⟩

theorem execute_error {e : Fault} (h : s.execute i = (.error e, s')) :
    ∃ rest,
      ((i.action s.script s.world).run s.script.stack = (.error e, rest) ∧
        s' = s.withStack rest) ∨
      ∃ a, (i.action s.script s.world).run s.script.stack = (.ok a, rest) ∧
        (s.withStack rest).perform a = (.error e, s') := by
  rcases hr : (i.action s.script s.world).run s.script.stack with ⟨e' | a, rest⟩
  · rw [execute_eq hr] at h
    cases h
    exact ⟨rest, .inl ⟨rfl, rfl⟩⟩
  · rw [execute_eq hr] at h
    exact ⟨rest, .inr ⟨a, rfl, h⟩⟩

/-- An instruction with a fault leaves its script as it was but for the stack, and all else but for
the dice. -/
theorem execute_error_eq {e : Fault} (h : s.execute i = (.error e, s')) :
    ∃ stack dice, s' = { s.withStack stack with dice } := by
  obtain ⟨rest, ⟨-, rfl⟩ | ⟨a, -, hp⟩⟩ := execute_error h
  · exact ⟨rest, s.dice, rfl⟩
  · obtain rfl | ⟨bound, dice, -, -, rfl⟩ := perform_error hp
    · exact ⟨rest, s.dice, rfl⟩
    · exact ⟨rest, dice, rfl⟩

theorem stays_of_error {e : Fault} (h : s.execute i = (.error e, s')) :
    s.script.Stays s'.script ∧ s'.script.state = s.script.state := by
  obtain ⟨stack, dice, rfl⟩ := execute_error_eq h
  exact ⟨⟨rfl, rfl, rfl, rfl⟩, rfl⟩

theorem settle_of_ok {outcome : Outcome} (h : s.execute i = (.ok outcome, s')) :
    s.settle i = (outcome, s') := by
  simp only [settle, h]

theorem settle_of_error {e : Fault} (h : s.execute i = (.error e, s')) :
    s.settle i = (.interrupted, { s' with script := s'.script.interrupt e }) := by
  simp only [settle, h]

/-- An instruction of a running script leaves the script in its place in the machine, and what it
does beyond the script is one of four things. -/
theorem effect_settle (hs : s.script.state = .running) (i : Instruction) :
    s.script.Stays (s.settle i).2.script ∧ Effect i s (s.settle i).2 := by
  rcases hx : s.execute i with ⟨e | outcome, s'⟩
  · obtain ⟨stack, dice, rfl⟩ := execute_error_eq hx
    have hstays := Script.stays_interrupt { s.script with stack } e
    have hstate := Script.state_interrupt (s := { s.script with stack })
      (by simp [hs, ScriptState.isFinished]) e
    rw [settle_of_error hx]
    exact ⟨⟨hstays.id, hstays.unit, hstays.owner, hstays.current⟩,
      .kept rfl rfl (by simp [withStack, hstate])⟩
  · obtain ⟨a, rest, hr, hp⟩ := execute_ok hx
    have hsuits := ((i.draws_action s.script s.world) _ _ _ hr).2 a rfl
    have hheeds := ((i.draws_heeds s.script s.world) _ _ _ hr).2 a rfl
    have hstays₁ : s.script.Stays (s.withStack rest).script := ⟨rfl, rfl, rfl, rfl⟩
    obtain ⟨hstays, heffect⟩ := effect_perform (s := s.withStack rest) hs hsuits hheeds
    rw [hp] at hstays heffect
    rw [settle_of_ok hx]
    exact ⟨hstays₁.trans hstays, heffect.of_stays hstays₁ rfl rfl⟩

end

end Scene

end WorldScript
