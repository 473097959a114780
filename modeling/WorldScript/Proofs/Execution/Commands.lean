import WorldScript.Proofs.Execution.Effects
import WorldScript.Proofs.World.Commands

/-!
Scripts and commands. Three opcodes give commands. Whom they give it to is on top of the stack, and
unless they find a fault, they give it.

Main statement: `Scene.order_settle`.
-/
set_option autoImplicit false

namespace WorldScript

def Action.commanded? : Action → Option Handle
  | .issue r => (Task.request r).watched
  | .await task => task.watched
  | .proceed | .push _ | .store _ _ | .jump _ | .call _ | .ret | .roll _ | .change _ => none

def Opcode.IsCommand (op : Opcode) : Prop := op = .moveTo ∨ op = .speak ∨ op = .attack

theorem Opcode.isCommand_iff {op : Opcode} : op.IsCommand ↔ op.waitKind? = some .command := by
  unfold IsCommand
  cases op <;> decide

theorem Task.request_of_watched {task : Task} {h : Handle} (hh : task.watched = some h) :
    ∃ r, task = .request r ∧ (Task.request r).watched = some h := by
  cases task with
  | alarm seconds => cases hh
  | request r => exact ⟨r, rfl, hh⟩

theorem Taking.commanded?_ask (waits : Bool) (r : Request) :
    (ask waits r).commanded? = (Task.request r).watched := by
  cases waits <;> rfl

theorem Taking.commanded?_of_entity {f : Handle → Taking Action} {stack rest : List Value}
    {a : Action} (hf : ∀ h, (f h).Draws fun a => a.commanded? = some h)
    (hr : (entity >>= f).run stack = (.ok a, rest)) :
    ∃ h, stack.head? = some (.entity h) ∧ a.commanded? = some h := by
  rw [run_bind] at hr
  split at hr
  case h_1 h left he =>
    refine ⟨h, ?_, (hf h _ _ _ hr).2 a rfl⟩
    cases stack with
    | nil => cases he
    | cons v tail =>
      have hv : v.asEntity = .ok h := by
        cases v <;> first | (cases he; rfl) | cases he
      rw [Value.asEntity_eq_ok_iff.1 hv, List.head?_cons]
  case h_2 => cases hr

namespace Instruction

open Taking

variable {i : Instruction} {s : Script} {w : World} {a : Action} {stack rest : List Value}

theorem commanded?_of_isCommand (hop : i.opcode.IsCommand)
    (hr : (i.action s w).run stack = (.ok a, rest)) :
    ∃ h, stack.head? = some (.entity h) ∧ a.commanded? = some h := by
  obtain h | h | h := hop
  · simp only [action, h, Opcode.family] at hr
    refine commanded?_of_entity (fun h => ?_) hr
    refine takes_number.draws.bind fun x => takes_number.draws.bind fun y =>
      takes_flag.draws.bind fun waits => (draws_check _).bind fun _ => ?_
    split
    · exact draws_throw
    · exact draws_pure (commanded?_ask waits _)
  · simp only [action, h, Opcode.family] at hr
    refine commanded?_of_entity (fun h => ?_) hr
    exact takes_string.draws.bind fun text => takes_flag.draws.bind fun waits =>
      (draws_check _).bind fun _ => draws_pure (commanded?_ask waits _)
  · simp only [action, h, Opcode.family] at hr
    refine commanded?_of_entity (fun h => ?_) hr
    refine takes_entity.draws.bind fun target => takes_flag.draws.bind fun waits => ?_
    split
    · exact draws_throw
    · refine (draws_check _).bind fun _ => (draws_check _).bind fun _ =>
        (draws_check _).bind fun e => ?_
      split
      · exact draws_throw
      · exact draws_pure (commanded?_ask waits _)

theorem isCommand_of_commanded? {h : Handle} (hr : (i.action s w).run stack = (.ok a, rest))
    (ha : a.commanded? = some h) : i.opcode.IsCommand := by
  rw [Opcode.isCommand_iff]
  have hsuits := (i.draws_action s w _ _ _ hr).2 a rfl
  cases a with
  | proceed | push | store | jump | call | ret | roll | change => cases ha
  | await task =>
    rw [← Task.kind_of_watched ha]
    exact hsuits
  | issue r =>
    rw [← Task.kind_of_watched ha]
    have hof := (takes_action_of_isApi s w hsuits).draws _ _ _ hr
    cases hof.2 _ rfl with
    | issue _ hkind => exact hkind

end Instruction

namespace Scene

variable {s s' : Scene} {i : Instruction} {outcome : Outcome} {h : Handle}
  {rest : List Value}

/-- The instruction is about to give somebody a command. -/
def Bids (s : Scene) (i : Instruction) (h : Handle) : Prop :=
  i.opcode.IsCommand ∧ s.script.stack.head? = some (.entity h)

/-- What an instruction means for somebody: a command, for whose end the script waits or not, or
nothing, and then no wait for a command is registered. -/
inductive Order (h : Handle) (i : Instruction) (s : Scene) (outcome : Outcome) (s' : Scene) : Prop
  | issued (r : Request) (bids : s.Bids i h) (watched : (Task.request r).watched = some h)
    (ends : outcome = .continued) (waits : s'.waits = s.waits)
    (world : s'.world = s.world.issue r none)
  | awaited (r : Request) (t : Token) (bids : s.Bids i h)
    (watched : (Task.request r).watched = some h) (ends : outcome = .paused)
    (waits : s.waits.register ⟨s.script.id, s.script.current⟩ .command (some h)
      (Task.request r).pushesResult = .ok (t, s'.waits))
    (world : s'.world = s.world.issue r (some t))
  | other (bids : s.Bids i h → outcome = .interrupted)
    (waits : s'.waits = s.waits ∨ ∃ (task : Task) (t : Token), task.watched ≠ some h ∧
      s.waits.register ⟨s.script.id, s.script.current⟩ task.kind task.watched task.pushesResult =
        .ok (t, s'.waits))
    (world : World.GoesOn h s.world s'.world)

theorem order_of_commanded? {a : Action} (hbids : s.Bids i h) (ha : a.commanded? = some h)
    (hp : (s.withStack rest).perform a = (.ok outcome, s')) : Order h i s outcome s' := by
  cases a with
  | proceed | push | store | jump | call | ret | roll | change => cases ha
  | issue r =>
    cases hp
    exact .issued r hbids ha rfl rfl rfl
  | await task =>
    obtain ⟨r, rfl, hwatched⟩ := Task.request_of_watched ha
    simp only [perform, await] at hp
    split at hp
    case h_2 => cases hp
    case h_1 t waits hregister =>
      cases hp
      rw [Task.kind_of_watched hwatched, hwatched] at hregister
      exact .awaited r t hbids hwatched rfl hregister rfl

theorem order_of_not_commanded? {a : Action} (hbids : ¬s.Bids i h) (ha : a.commanded? ≠ some h)
    (hp : (s.withStack rest).perform a = (.ok outcome, s')) : Order h i s outcome s' := by
  have hnot : s.Bids i h → outcome = .interrupted := fun hb => absurd hb hbids
  obtain ⟨hworld, hwaits⟩ | ⟨c, rfl⟩ | ⟨r, rfl⟩ | ⟨task, rfl⟩ := (s.withStack rest).perform_cases a
  · rw [hp] at hworld hwaits
    exact .other hnot (.inl hwaits) (World.goesOn_of_eq (congrArg World.commands hworld))
  · cases hp
    exact .other hnot (.inl rfl) (World.goesOn_change s.world c h)
  · cases hp
    refine .other hnot (.inl rfl) fun _ => ?_
    exact (World.commandToken?_issue s.world r none h).trans (if_neg ha)
  · simp only [perform, await] at hp
    split at hp
    case h_2 => cases hp
    case h_1 t waits hregister =>
      cases hp
      refine .other hnot (.inr ⟨task, t, ha, hregister⟩) fun _ => ?_
      exact (World.commandToken?_start s.world task t h).trans (if_neg ha)

/-- An instruction gives a command if it is one that does and finds no fault. -/
theorem order_settle (h : Handle) (hsettle : s.settle i = (outcome, s')) :
    Order h i s outcome s' := by
  rcases hx : s.execute i with ⟨e | outcome', scene⟩
  · obtain ⟨stack, dice, rfl⟩ := execute_error_eq hx
    rw [settle_of_error hx] at hsettle
    cases hsettle
    exact .other (fun _ => rfl) (.inl rfl) (World.goesOn_of_eq rfl)
  · obtain ⟨a, rest, hr, hp⟩ := execute_ok hx
    rw [settle_of_ok hx] at hsettle
    cases hsettle
    by_cases ha : a.commanded? = some h
    case pos =>
      have hop := Instruction.isCommand_of_commanded? hr ha
      obtain ⟨g, htop, hg⟩ := Instruction.commanded?_of_isCommand hop hr
      obtain rfl : g = h := Option.some.inj (hg.symm.trans ha)
      exact order_of_commanded? ⟨hop, htop⟩ ha hp
    case neg =>
      refine order_of_not_commanded? ?_ ha hp
      rintro ⟨hop, htop⟩
      obtain ⟨g, htop', hg⟩ := Instruction.commanded?_of_isCommand hop hr
      obtain rfl : g = h := by
        rw [htop, Option.some.injEq, Value.entity.injEq] at htop'
        exact htop'.symm
      exact ha hg

end Scene

end WorldScript
