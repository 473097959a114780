import WorldScript.Proofs.Machine.Agreement
import WorldScript.Proofs.Machine.Safety

/-!
Isolation of scripts. An opcode below those of the interface with the world looks at its own script
only and changes nothing else, so that a script that executes no other opcodes goes its way by the
number of its own steps, whatever is done in between.

Main statement: `local_code_is_isolated`.
-/
set_option autoImplicit false

namespace WorldScript

/-! ### Instructions -/

def Action.IsLocal : Action → Prop
  | proceed | push _ | store _ _ | jump _ | call _ | ret => True
  | roll _ | change _ | issue _ | await _ => False

theorem Action.Suits.isLocal {op : Opcode} {a : Action} (h : a.Suits op)
    (hop : op.isApi = false) : a.IsLocal := by
  cases a with
  | proceed | push v | store slot v | jump target | call target | ret => trivial
  | roll bound | change c | issue r => exact absurd (hop.symm.trans h) (by decide)
  | await task => exact absurd (hop.symm.trans (Opcode.isApi_of_waitKind? h)) (by decide)

theorem Opcode.isApi_eq_false_iff {op : Opcode} : op.isApi = false ↔ op.byte < 0x80 := by
  simp [isApi]

theorem Instruction.action_of_local {i : Instruction} (hi : i.opcode.isApi = false) (s : Script)
    (w w' : World) : i.action s w = i.action s w' := by
  have hfamily : i.opcode.family = .math ∨ i.opcode.family = .flow ∨ i.opcode.family = .memory ∨
      i.opcode.family = .stack := by
    revert hi
    cases i.opcode <;> decide
  unfold action
  obtain h | h | h | h := hfamily <;> simp only [h]

namespace Scene

variable {i : Instruction}

theorem withScript_local (outcome : Outcome) (s : Script) (r : Except Fault Script) :
    ∃ result t, ∀ w ws d,
      (⟨s, w, ws, d⟩ : Scene).withScript outcome r = (result, ⟨t, w, ws, d⟩) := by
  cases r with
  | ok t => exact ⟨.ok outcome, t, fun _ _ _ => rfl⟩
  | error e => exact ⟨.error e, s, fun _ _ _ => rfl⟩

theorem ret_local (s : Script) :
    ∃ outcome t, ∀ w ws d, (⟨s, w, ws, d⟩ : Scene).ret = (outcome, ⟨t, w, ws, d⟩) := by
  by_cases hglobal : s.isGlobal
  · exact ⟨.stopped, s.stop, fun _ _ _ => by simp only [ret, hglobal, if_true]⟩
  · cases hl : s.leave? with
    | none => exact ⟨.stopped, s.stop, fun _ _ _ => by simp only [ret, hglobal, hl]; rfl⟩
    | some r => exact ⟨.returned, r.2, fun _ _ _ => by simp only [ret, hglobal, hl]; rfl⟩

theorem perform_local {a : Action} (ha : a.IsLocal) (s : Script) :
    ∃ result t, ∀ w ws d, (⟨s, w, ws, d⟩ : Scene).perform a = (result, ⟨t, w, ws, d⟩) := by
  cases a with
  | proceed => exact ⟨.ok .continued, s, fun _ _ _ => rfl⟩
  | push v => exact withScript_local .continued s (s.push v)
  | store slot v => exact withScript_local .continued s (s.setSlot slot v)
  | jump target => exact withScript_local .branched s (s.moveTo target)
  | call target => exact withScript_local .called s (s.enter target)
  | ret =>
    obtain ⟨outcome, t, hret⟩ := ret_local s
    exact ⟨.ok outcome, t, fun w ws d => by simp only [perform, hret w ws d]⟩
  | roll bound | change c | issue r | await task => exact ha.elim

theorem execute_local (hi : i.opcode.isApi = false) (s : Script) :
    ∃ result t, ∀ w ws d, (⟨s, w, ws, d⟩ : Scene).execute i = (result, ⟨t, w, ws, d⟩) := by
  have w₀ : World := World.start {} []
  rcases hr : (i.action s w₀).run s.stack with ⟨e | a, rest⟩
  · refine ⟨.error e, { s with stack := rest }, fun w ws d => ?_⟩
    rw [Instruction.action_of_local hi s w₀ w] at hr
    exact execute_eq (s := ⟨s, w, ws, d⟩) hr
  · have ha : a.IsLocal := ((i.draws_action s w₀ _ _ _ hr).2 a rfl).isLocal hi
    obtain ⟨result, t, hperform⟩ := perform_local ha { s with stack := rest }
    refine ⟨result, t, fun w ws d => ?_⟩
    rw [Instruction.action_of_local hi s w₀ w] at hr
    exact (execute_eq (s := ⟨s, w, ws, d⟩) hr).trans (hperform w ws d)

/-- What such an instruction does to its script, and how it ends, does not depend on anything else,
and all else is left as it was. -/
theorem settle_local (hi : i.opcode.isApi = false) (s : Script) :
    ∃ outcome t, ∀ w ws d, (⟨s, w, ws, d⟩ : Scene).settle i = (outcome, ⟨t, w, ws, d⟩) := by
  obtain ⟨e | outcome, t, hx⟩ := execute_local hi s
  · exact ⟨.interrupted, t.interrupt e, fun w ws d => settle_of_error (hx w ws d)⟩
  · exact ⟨outcome, t, fun w ws d => settle_of_ok (hx w ws d)⟩

end Scene

/-! ### Scripts -/

/-- All that an instruction finds of its script. -/
structure Context where
  unit : CodeUnit
  position : Nat
  stack : List Value
  slots : Array Value
  frames : List Frame
  owner : Option Handle
  maxStackDepth : Nat
  maxCallDepth : Nat
  state : ScriptState

def Script.context (s : Script) : Context where
  unit := s.unit
  position := s.position
  stack := s.stack
  slots := s.slots
  frames := s.frames
  owner := s.owner
  maxStackDepth := s.maxStackDepth
  maxCallDepth := s.maxCallDepth
  state := s.state

namespace Context

variable {c : Context} {s : Script}

def next? (c : Context) : Option Instruction :=
  if c.state = .running then c.unit.code[c.position]? else none

def taken (c : Context) (id : ScriptId) : Script where
  id := id
  unit := c.unit
  owner := c.owner
  maxStackDepth := c.maxStackDepth
  maxCallDepth := c.maxCallDepth
  position := c.position + 1
  current := c.position
  stack := c.stack
  slots := c.slots
  frames := c.frames
  state := c.state

theorem fetch?_eq (s : Script) :
    s.fetch? = s.unit.code[s.position]?.map fun i => (i, s.context.taken s.id) := rfl

end Context

/-! ### Machines -/

namespace Machine

variable {m m' : Machine} {id j : ScriptId}

def context? (m : Machine) (id : ScriptId) : Option Context := (m.script? id).map Script.context

def next? (m : Machine) (id : ScriptId) : Option Instruction := (m.context? id).bind Context.next?

structure SameBut (id : ScriptId) (m m' : Machine) : Prop where
  world : m'.world = m.world
  waits : m'.waits = m.waits
  dice : m'.dice = m.dice
  scripts : ∀ j, j ≠ id → m'.script? j = m.script? j

theorem Named.context?_step (h : m.Named) (hj : j ≠ id) :
    (m.step j).2.context? id = m.context? id := by
  rw [context?, h.script?_step hj, context?]

theorem context?_eq_some_iff {c : Context} :
    m.context? id = some c ↔ ∃ s, m.script? id = some s ∧ s.context = c := Option.map_eq_some_iff

theorem step_of_not_running {s : Script} (hs : m.script? id = some s)
    (hstate : s.state ≠ .running) : m.step id = (none, m) := by
  simp [Machine.step, hs, Script.isRunning, hstate]

theorem step_of_end {s : Script} (hs : m.script? id = some s) (hstate : s.state = .running)
    (hcode : s.unit.code[s.position]? = none) :
    m.step id = (some .stopped, m.withScript { s with state := .stopped }) := by
  simp [Machine.step, hs, Script.isRunning, hstate, Script.fetch?, hcode, Script.stop,
    ScriptState.isFinished]

theorem step_local (id : ScriptId) (c : Context)
    (hlocal : ∀ i, c.next? = some i → i.opcode.isApi = false) :
    ∃ outcome c', ∀ m : Machine, m.Named → m.context? id = some c →
      (m.step id).1 = outcome ∧ (m.step id).2.context? id = some c' ∧
        SameBut id m (m.step id).2 := by
  by_cases hstate : c.state = .running
  case neg =>
    refine ⟨none, c, fun m _ hc => ?_⟩
    obtain ⟨s, hs, rfl⟩ := context?_eq_some_iff.1 hc
    rw [step_of_not_running hs hstate]
    exact ⟨rfl, hc, rfl, rfl, rfl, fun _ _ => rfl⟩
  have hothers : ∀ m : Machine, m.Named → ∀ j, j ≠ id → (m.step id).2.script? j = m.script? j :=
    fun m hm j hj => hm.script?_step (Ne.symm hj)
  cases hcode : c.unit.code[c.position]? with
  | none =>
    refine ⟨some .stopped, { c with state := .stopped }, fun m hm hc => ?_⟩
    obtain ⟨s, hs, rfl⟩ := context?_eq_some_iff.1 hc
    have hstep := step_of_end hs hstate hcode
    obtain rfl := hm id s hs
    refine ⟨by rw [hstep], ?_, by rw [hstep]; rfl, by rw [hstep]; rfl, by rw [hstep]; rfl,
      hothers m hm⟩
    rw [context?, hstep, script?_of_insert rfl, if_pos rfl]
    rfl
  | some i =>
    have hi : i.opcode.isApi = false := hlocal i (by rw [Context.next?, if_pos hstate, hcode])
    obtain ⟨outcome, t, hsettle⟩ := Scene.settle_local hi (c.taken id)
    refine ⟨some outcome, t.context, fun m hm hc => ?_⟩
    obtain ⟨s, hs, rfl⟩ := context?_eq_some_iff.1 hc
    obtain rfl := hm id s hs
    have hfetch : s.fetch? = some (i, s.context.taken s.id) := by
      rw [Context.fetch?_eq, show s.unit.code[s.position]? = some i from hcode]
      rfl
    obtain ⟨hstep, hscript⟩ := hm.step_settle hs hstate hfetch (hsettle m.world m.waits m.dice)
    refine ⟨by rw [hstep], ?_, by rw [hstep]; rfl, by rw [hstep]; rfl, by rw [hstep]; rfl,
      hothers m hm⟩
    rw [context?, hscript]
    rfl

/-! ### Schedules -/

def follow (m : Machine) (schedule : List ScriptId) : Machine :=
  schedule.foldl (fun m id => (m.step id).2) m

/-- In a schedule a script executes no opcode but those below the interface with the world. -/
def StaysLocal (id : ScriptId) : List ScriptId → Machine → Prop
  | [], _ => True
  | j :: rest, m =>
    (j = id → ∀ i, m.next? id = some i → i.opcode.byte < 0x80) ∧ StaysLocal id rest (m.step j).2

/-- The step of a script in two machines that have the same context of it. -/
theorem step_agrees (hm : m.Named) (hm' : m'.Named) (hc : m.context? id = m'.context? id)
    (hlocal : ∀ i, m.next? id = some i → i.opcode.byte < 0x80) :
    (m.step id).1 = (m'.step id).1 ∧ (m.step id).2.context? id = (m'.step id).2.context? id ∧
      SameBut id m (m.step id).2 ∧ SameBut id m' (m'.step id).2 := by
  cases h : m.context? id with
  | none =>
    have hnone : ∀ n : Machine, n.context? id = none → n.step id = (none, n) := by
      intro n hn
      simp [Machine.step, Option.map_eq_none_iff.1 hn]
    rw [hnone m h, hnone m' (hc ▸ h)]
    exact ⟨rfl, hc, ⟨rfl, rfl, rfl, fun _ _ => rfl⟩, ⟨rfl, rfl, rfl, fun _ _ => rfl⟩⟩
  | some c =>
    have hnext : ∀ i, c.next? = some i → i.opcode.isApi = false := by
      intro i hi
      exact Opcode.isApi_eq_false_iff.2 (hlocal i (by rw [next?, h]; exact hi))
    obtain ⟨outcome, c', hstep⟩ := step_local id c hnext
    obtain ⟨houtcome, hcontext, hrest⟩ := hstep m hm h
    obtain ⟨houtcome', hcontext', hrest'⟩ := hstep m' hm' (hc ▸ h)
    exact ⟨houtcome.trans houtcome'.symm, hcontext.trans hcontext'.symm, hrest, hrest'⟩

/-- What becomes of the script is decided by the number of its own steps: it is what becomes of it
when it is alone. -/
theorem follow_agrees (schedule : List ScriptId) (hm : m.Named) (hm' : m'.Named)
    (hc : m.context? id = m'.context? id) :
    (StaysLocal id schedule m ↔ StaysLocal id (List.replicate (schedule.count id) id) m') ∧
      (StaysLocal id schedule m → (m.follow schedule).context? id =
        (m'.follow (List.replicate (schedule.count id) id)).context? id) := by
  induction schedule generalizing m m' with
  | nil => exact ⟨Iff.rfl, fun _ => hc⟩
  | cons j rest ih =>
    by_cases hj : j = id
    case pos =>
      subst hj
      have hnext : m.next? j = m'.next? j := by rw [next?, hc, next?]
      have hrest := fun hlocal => ih (hm.step j) (hm'.step j) (step_agrees hm hm' hc hlocal).2.1
      rw [List.count_cons_self, List.replicate_succ]
      refine ⟨⟨?_, ?_⟩, fun h => (hrest (h.1 rfl)).2 h.2⟩
      · rintro ⟨hfirst, h⟩
        exact ⟨fun _ => hnext ▸ hfirst rfl, (hrest (hfirst rfl)).1.1 h⟩
      · rintro ⟨hfirst, h⟩
        have hfirst : ∀ i, m.next? j = some i → i.opcode.byte < 0x80 := hnext ▸ hfirst rfl
        exact ⟨fun _ => hfirst, (hrest hfirst).1.2 h⟩
    case neg =>
      have hcount : (j :: rest).count id = rest.count id := List.count_cons_of_ne hj
      rw [hcount]
      simp only [StaysLocal, hj, false_imp_iff, true_and]
      exact ih (hm.step j) hm' ((hm.context?_step hj).trans hc)

/-- Below the interface with the world, what a script does is decided by its own context, and it
touches nothing else, whatever the schedule is. -/
theorem local_code_is_isolated :
    (∀ m, Reachable .calls m → m.Named) ∧
      (∀ m m' id, m.Named → m'.Named → m.context? id = m'.context? id →
        (∀ i, m.next? id = some i → i.opcode.byte < 0x80) →
          (m.step id).1 = (m'.step id).1 ∧
            (m.step id).2.context? id = (m'.step id).2.context? id ∧
            SameBut id m (m.step id).2 ∧ SameBut id m' (m'.step id).2) ∧
      ∀ m m' id schedule schedule', m.Named → m'.Named → m.context? id = m'.context? id →
        schedule.count id = schedule'.count id → StaysLocal id schedule m →
          StaysLocal id schedule' m' ∧
            (m.follow schedule).context? id = (m'.follow schedule').context? id := by
  refine ⟨fun m h => h.isNamed, fun m m' id => step_agrees, ?_⟩
  intro m m' id schedule schedule' hm hm' hc hcount hlocal
  -- both are compared with the script alone, in the first machine
  obtain ⟨hiff, hsame⟩ := follow_agrees schedule hm hm rfl
  obtain ⟨hiff', hsame'⟩ := follow_agrees schedule' hm' hm hc.symm
  rw [← hcount] at hiff' hsame'
  have hlocal' := hiff'.2 (hiff.1 hlocal)
  exact ⟨hlocal', (hsame hlocal).trans (hsame' hlocal').symm⟩

def counter : CodeUnit :=
  ⟨1, #[], #[⟨.pushNumber, .number Binary32.one, 0⟩, ⟨.load, .slot 0, 0⟩, ⟨.add, .none, 0⟩,
    ⟨.store, .slot 0, 0⟩, ⟨.jump, .codeOffset 0, 0⟩], rfl⟩

def single : Machine := ((start (World.start {} []) {} 7).spawn counter none).2

def crowded : Machine :=
  (((start (World.start {} []) {} 0).spawn counter none).2.spawn (nap Binary32.one) none).2

def turns : List ScriptId := [⟨2⟩, ⟨1⟩, ⟨2⟩, ⟨1⟩]

theorem local_code_is_isolated_counter :
    (crowded.step ⟨1⟩).1 = (single.step ⟨1⟩).1 ∧
      (crowded.follow turns).waits.size = 1 ∧
      (crowded.follow turns).context? ⟨1⟩ =
        (single.follow (List.replicate 2 ⟨1⟩)).context? ⟨1⟩ := by
  have hnamed : crowded.Named := local_code_is_isolated.1 _
    (((reachable_start .calls {} [] {} 0).operate (.spawn counter none)).operate
      (.spawn (nap Binary32.one) none))
  have hnamed' : single.Named := local_code_is_isolated.1 _
    ((reachable_start .calls {} [] {} 7).operate (.spawn counter none))
  have hnext : ∀ i, crowded.next? ⟨1⟩ = some i → i.opcode.byte < 0x80 := by
    rintro i ⟨⟩
    decide
  have hlocal : StaysLocal ⟨1⟩ turns crowded := by
    refine ⟨fun h => absurd h (by decide), fun _ => ?_, fun h => absurd h (by decide), fun _ => ?_,
      trivial⟩
    · rintro i ⟨⟩
      decide
    · rintro i ⟨⟩
      decide
  have hstart : crowded.context? ⟨1⟩ = some (Script.start ⟨1⟩ counter none {}).context := rfl
  have hstart' : single.context? ⟨1⟩ = some (Script.start ⟨1⟩ counter none {}).context := rfl
  have hcontext := hstart.trans hstart'.symm
  obtain ⟨hresult, -⟩ :=
    local_code_is_isolated.2.1 crowded single ⟨1⟩ hnamed hnamed' hcontext hnext
  have hcount : turns.count ⟨1⟩ = List.count ⟨1⟩ (List.replicate 2 (⟨1⟩ : ScriptId)) := by decide
  have hsame := local_code_is_isolated.2.2 crowded single ⟨1⟩ _ _ hnamed hnamed' hcontext hcount
    hlocal
  exact ⟨hresult, by decide, hsame.2⟩

end Machine

end WorldScript
