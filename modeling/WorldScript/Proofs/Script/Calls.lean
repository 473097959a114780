import Mathlib.Logic.Relation
import WorldScript.Proofs.Execution.Effects

/-!
The calls by which a script changes. An instruction changes its script only by these, and so do
wakeups, so that what every call keeps is kept by everything that happens to a script.

Main statement: `Scene.leads_settle`.
-/
set_option autoImplicit false

namespace WorldScript

namespace Script

/-- Whoever holds a script can change it in these ways. -/
inductive Call
  | reset
  | fetch
  | push (v : Value)
  | pop
  | popNumber
  | popEntity
  | popString
  | setSlot (index : Nat) (v : Value)
  | moveTo (target : Nat)
  | enter (target : Nat)
  | leave
  | pause
  | resume
  | stop
  | interrupt (reason : Fault)

/-- A call that is refused leaves the script as it was, but for a value that was taken off and is
of the wrong kind. -/
def call (s : Script) : Call → Script
  | .reset => s.reset
  | .fetch => (s.fetch?.map Prod.snd).getD s
  | .push v => (s.push v).toOption.getD s
  | .pop => (s.take Taking.pop).2
  | .popNumber => (s.take Taking.number).2
  | .popEntity => (s.take Taking.entity).2
  | .popString => (s.take Taking.string).2
  | .setSlot index v => (s.setSlot index v).toOption.getD s
  | .moveTo target => (s.moveTo target).toOption.getD s
  | .enter target => (s.enter target).toOption.getD s
  | .leave => (s.leave?.map Prod.snd).getD s
  | .pause => s.pause
  | .resume => s.resume?.getD s
  | .stop => s.stop
  | .interrupt reason => s.interrupt reason

theorem getD_toOption {P : Script → Prop} {s : Script} {r : Except Fault Script} (hs : P s)
    (hr : ∀ t, r = .ok t → P t) : P (r.toOption.getD s) := by
  cases r with
  | ok t => exact hr t rfl
  | error e => exact hs

theorem id_call (s : Script) (c : Call) : (s.call c).id = s.id := by
  have of : ∀ r : Except Fault Script, (∀ t, r = .ok t → s.Stays t ∧ t.state = s.state) →
      (r.toOption.getD s).id = s.id :=
    fun r hr => getD_toOption (P := fun t => t.id = s.id) rfl fun t ht => (hr t ht).1.id
  cases c with
  | reset | pop | popNumber | popEntity | popString => rfl
  | fetch =>
    simp only [call]
    cases hf : s.fetch? with
    | none => rfl
    | some r => exact (fetch?_eq_some hf).1
  | push v => exact of _ fun _ => stays_push
  | setSlot index v => exact of _ fun _ => stays_setSlot
  | moveTo target => exact of _ fun _ => stays_moveTo
  | enter target => exact of _ fun _ => stays_enter
  | leave =>
    simp only [call, leave?]
    split <;> rfl
  | pause =>
    obtain ⟨state, he⟩ := s.pause_eq
    simp only [call, he]
  | resume =>
    simp only [call, resume?]
    split <;> rfl
  | stop => exact (stays_stop s).id
  | interrupt reason => exact (stays_interrupt s reason).id

/-- One script comes of another by some calls. -/
def Leads : Script → Script → Prop := Relation.ReflTransGen fun s t => ∃ c, t = s.call c

section

variable {s t u : Script}

theorem Leads.refl : Leads s s := Relation.ReflTransGen.refl

theorem Leads.trans (h : Leads s t) (h' : Leads t u) : Leads s u := Relation.ReflTransGen.trans h h'

theorem leads_call (s : Script) (c : Call) : Leads s (s.call c) :=
  Relation.ReflTransGen.single ⟨c, rfl⟩

theorem Leads.keeps {P : Script → Prop} (hcall : ∀ s c, P s → P (s.call c)) (h : Leads s t)
    (hs : P s) : P t := by
  induction h with
  | refl => exact hs
  | tail _ hc ih =>
    obtain ⟨c, rfl⟩ := hc
    exact hcall _ c ih

theorem leads_fetch {i : Instruction} (h : s.fetch? = some (i, t)) : Leads s t := by
  have hcall := s.leads_call .fetch
  simpa [call, h] using hcall

theorem call_pop (s : Script) : s.call .pop = { s with stack := s.stack.drop 1 } := by
  simp only [call, take]
  cases h : s.stack <;> rfl

theorem leads_drop (s : Script) (k : Nat) : Leads s { s with stack := s.stack.drop k } := by
  induction k with
  | zero => exact .refl
  | succ k ih =>
    refine ih.trans ?_
    have hpop := call_pop { s with stack := s.stack.drop k }
    rw [List.drop_drop] at hpop
    rw [← hpop]
    exact leads_call _ .pop

theorem take_of_draws {α : Type} {P : α → Prop} {taking : Taking α} (h : taking.Draws P)
    (s : Script) : ∃ k, (s.take taking).2 = { s with stack := s.stack.drop k } := by
  rcases hr : taking.run s.stack with ⟨r, rest⟩
  obtain ⟨⟨k, rfl⟩, -⟩ := h s.stack r rest hr
  exact ⟨k, by simp only [take, hr]⟩

theorem leads_take {α : Type} {P : α → Prop} {taking : Taking α} (h : taking.Draws P)
    (s : Script) : Leads s (s.take taking).2 := by
  obtain ⟨k, hk⟩ := take_of_draws h s
  rw [hk]
  exact s.leads_drop k

end

end Script

namespace Scene

theorem script_withScript (s : Scene) (outcome : Outcome) (r : Except Fault Script) :
    (s.withScript outcome r).2.script = r.toOption.getD s.script := by
  cases r <;> rfl

theorem leads_ret (s : Scene) : s.script.Leads s.ret.2.script := by
  unfold ret
  split
  · exact s.script.leads_call .stop
  · have hleave := s.script.leads_call .leave
    simp only [Script.call] at hleave
    cases hl : s.script.leave? with
    | none => exact s.script.leads_call .stop
    | some r => simpa [hl] using hleave

theorem leads_perform (s : Scene) (a : Action) : s.script.Leads (s.perform a).2.script := by
  cases a with
  | proceed | change c | issue r => exact .refl
  | push v =>
    rw [perform, script_withScript]
    exact s.script.leads_call (.push v)
  | store slot v =>
    rw [perform, script_withScript]
    exact s.script.leads_call (.setSlot slot v)
  | jump target =>
    rw [perform, script_withScript]
    exact s.script.leads_call (.moveTo target)
  | call target =>
    rw [perform, script_withScript]
    exact s.script.leads_call (.enter target)
  | ret => exact s.leads_ret
  | roll bound =>
    obtain ⟨n, dice, hr⟩ := s.roll_eq bound
    rw [perform, hr, script_withScript]
    exact s.script.leads_call (.push (.number (Binary32.ofInt n)))
  | await task =>
    simp only [perform, await]
    split
    · exact s.script.leads_call .pause
    · exact .refl

theorem leads_execute (s : Scene) (i : Instruction) :
    s.script.Leads (s.execute i).2.script := by
  have htake := Script.leads_take (i.draws_action s.script s.world) s.script
  unfold execute
  rcases hr : s.script.take (i.action s.script s.world) with ⟨r, script⟩
  rw [hr] at htake
  cases r with
  | error e => exact htake
  | ok a => exact htake.trans (leads_perform { s with script } a)

theorem leads_settle (s : Scene) (i : Instruction) : s.script.Leads (s.settle i).2.script := by
  have hexecute := s.leads_execute i
  unfold settle
  rcases hr : s.execute i with ⟨r, s'⟩
  rw [hr] at hexecute
  cases r with
  | error e => exact hexecute.trans (s'.script.leads_call (.interrupt e))
  | ok outcome => exact hexecute

end Scene

end WorldScript
