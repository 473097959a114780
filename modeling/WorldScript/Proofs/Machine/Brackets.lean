import WorldScript.Proofs.Execution.Brackets
import WorldScript.Proofs.Machine.Beats

/-!
Calls and returns bracket. A call that is open stays where it is until the return that closes it,
and this one finds what was open before and goes on behind the call, whatever has happened in
between. In a global script no call is ever closed.

Main statement: `calls_and_returns_bracket`.
-/
set_option autoImplicit false

namespace WorldScript

/-- A frame of a call that stands in the code: it returns to the instruction behind it. -/
structure Frame.IsOf (f : Frame) (u : CodeUnit) : Prop where
  call : ∃ i, u.code[f.callSite]? = some i ∧ i.opcode = .call
  returnTo : f.returnTo = f.callSite + 1
  inCode : f.returnTo ≤ u.size

namespace Machine

variable {m : Machine} {id : ScriptId} {b : Beat} {s s' : Script}

/-! ### One beat -/

/-- What a beat does with the open calls of a script. -/
inductive Nests (m : Machine) (id : ScriptId) (b : Beat) (s s' : Script) : Prop
  | kept : s'.frames = s.frames → Nests m id b s s'
  | opened : b = .step id → Frame.IsOf ⟨s.position + 1, s.position⟩ s.unit →
      s'.frames = ⟨s.position + 1, s.position⟩ :: s.frames → Nests m id b s s'
  | closed (i : Instruction) (f : Frame) : b = .step id → s.isGlobal = false →
      s.unit.code[s.position]? = some i → i.opcode = .return →
      s.frames = f :: s'.frames → s'.position = f.returnTo → Nests m id b s s'

theorem nests_settle {i : Instruction} {s₁ : Script} {w : World} {ws : Waits} {d : Dice}
    {outcome : Outcome} {scene : Scene} (hb : b = .step id) (hf : s.fetch? = some (i, s₁))
    (h : Scene.settle ⟨s₁, w, ws, d⟩ i = (outcome, scene)) : Nests m id b s scene.script := by
  obtain ⟨hi, rfl⟩ := Script.fetch?_eq_some_iff.1 hf
  cases Scene.brackets_settle h with
  | opened hop hframes =>
    have hlt : s.position < s.unit.size := (Array.getElem?_eq_some_iff.1 hi).1
    exact .opened hb ⟨⟨i, hi, hop⟩, rfl, hlt⟩ hframes
  | closed f hop hglobal hframes hposition => exact .closed i f hb hglobal hi hop hframes hposition
  | kept _ _ hframes => exact .kept hframes

theorem Comes.nests (h : Comes m id b s s') :
    s'.unit = s.unit ∧ s'.owner = s.owner ∧ Nests m id b s s' := by
  cases h with
  | kept he => exact ⟨by rw [he], by rw [he], .kept (by rw [he])⟩
  | woken k _ he =>
    obtain ⟨state, stack, hw⟩ := s.woken_eq k
    rw [he, hw]
    exact ⟨rfl, rfl, .kept rfl⟩
  | finished _ _ _ he =>
    obtain ⟨state, hstop⟩ := s.stop_eq
    rw [he, hstop]
    exact ⟨rfl, rfl, .kept rfl⟩
  | executed i s₁ outcome scene hb hstate hf hsettle _ he =>
    obtain ⟨-, hunit, howner, hstate₁, -⟩ := Script.fetch?_eq_some hf
    have hstays := (Scene.effect_settle (s := ⟨s₁, m.world, m.waits, m.dice⟩)
      (hstate₁.trans hstate) i).1
    rw [hsettle] at hstays
    rw [he]
    exact ⟨hstays.unit.trans hunit, hstays.owner.trans howner, nests_settle hb hf hsettle⟩

theorem Nests.isOf (h : Nests m id b s s') (hs : ∀ f ∈ s.frames, f.IsOf s.unit) :
    ∀ f ∈ s'.frames, f.IsOf s.unit := by
  intro f hf
  cases h with
  | kept he => exact hs f (he ▸ hf)
  | opened _ hcall he =>
    rw [he, List.mem_cons] at hf
    obtain rfl | hf := hf
    · exact hcall
    · exact hs f hf
  | closed _ g _ _ _ _ he => exact hs f (he ▸ List.mem_cons_of_mem g hf)

/-- A call that is open stays where it is, or is closed by a return. -/
theorem Nests.open (h : Nests m id b s s') {inner outer : List Frame} {f : Frame}
    (hs : s.frames = inner ++ f :: outer) :
    (∃ inner', s'.frames = inner' ++ f :: outer) ∨
      b = .step id ∧ (∃ i, s.unit.code[s.position]? = some i ∧ i.opcode = .return) ∧
        s'.frames = outer ∧ s'.position = f.returnTo := by
  cases h with
  | kept he => exact .inl ⟨inner, he.trans hs⟩
  | opened _ _ he => exact .inl ⟨_ :: inner, by rw [he, hs]; rfl⟩
  | closed i g hb _ hi hop he hposition =>
    rw [hs] at he
    cases inner with
    | nil =>
      obtain ⟨rfl, rfl⟩ := List.cons.inj he
      exact .inr ⟨hb, ⟨i, hi, hop⟩, rfl, hposition⟩
    | cons g' inner =>
      obtain ⟨-, he⟩ := List.cons.inj he
      exact .inl ⟨inner, he.symm⟩

theorem Nests.suffix (h : Nests m id b s s') (hglobal : s.isGlobal = true) :
    s.frames <:+ s'.frames := by
  cases h with
  | kept he => exact he ▸ List.suffix_refl _
  | opened _ _ he => exact he ▸ List.suffix_cons _ _
  | closed _ _ _ howned => exact absurd (hglobal.symm.trans howned) (by decide)

/-! ### Many beats -/

/-- In every machine on the way a script has more than so many calls open. -/
def StaysAbove (depth : Nat) (id : ScriptId) : List Beat → Machine → Prop
  | [], m => ∀ s, m.script? id = some s → depth < s.frames.length
  | b :: bs, m =>
    (∀ s, m.script? id = some s → depth < s.frames.length) ∧ StaysAbove depth id bs (m.beat b)

theorem StaysAbove.start {depth : Nat} {bs : List Beat} (h : StaysAbove depth id bs m) :
    ∀ s, m.script? id = some s → depth < s.frames.length := by
  cases bs with
  | nil => exact h
  | cons b bs => exact h.1

theorem Agrees.nests_beat (h : Agrees m) (hlast : id.index ≤ m.lastScript)
    (hs' : (m.beat b).script? id = some s') :
    ∃ s, m.script? id = some s ∧ s'.unit = s.unit ∧ s'.owner = s.owner ∧ Nests m id b s s' := by
  obtain ⟨hnew, -⟩ | ⟨s, hs, hcomes⟩ := h.comes_beat b hs'
  · omega
  · exact ⟨s, hs, hcomes.nests⟩

theorem Agrees.open_play (h : Agrees m) (hlast : id.index ≤ m.lastScript) {outer : List Frame}
    {f : Frame} (hs : ∀ s, m.script? id = some s → ∃ inner, s.frames = inner ++ f :: outer)
    {bs : List Beat} (habove : StaysAbove outer.length id bs m) :
    ∀ s, (m.play bs).script? id = some s → ∃ inner, s.frames = inner ++ f :: outer := by
  induction bs generalizing m with
  | nil => exact hs
  | cons b bs ih =>
    refine ih (h.beat b) (Nat.le_trans hlast (m.lastScript_beat b)) ?_ habove.2
    intro s' hs'
    obtain ⟨s, hbefore, -, -, hnests⟩ := h.nests_beat hlast hs'
    obtain ⟨inner, hinner⟩ := hs s hbefore
    obtain hopen | ⟨-, -, hclosed, -⟩ := hnests.open hinner
    · exact hopen
    · have hdepth := habove.2.start s' hs'
      rw [hclosed] at hdepth
      exact absurd hdepth (Nat.lt_irrefl _)

theorem Agrees.global_play (h : Agrees m) (hlast : id.index ≤ m.lastScript) {frames : List Frame}
    (hs : ∀ s, m.script? id = some s → s.isGlobal = true ∧ frames <:+ s.frames) (bs : List Beat) :
    ∀ s, (m.play bs).script? id = some s → s.isGlobal = true ∧ frames <:+ s.frames := by
  induction bs generalizing m with
  | nil => exact hs
  | cons b bs ih =>
    refine ih (h.beat b) (Nat.le_trans hlast (m.lastScript_beat b)) ?_
    intro s' hs'
    obtain ⟨s, hbefore, -, howner, hnests⟩ := h.nests_beat hlast hs'
    obtain ⟨hglobal, hsuffix⟩ := hs s hbefore
    have hglobal' : s'.isGlobal = true := by rwa [Script.isGlobal, howner]
    exact ⟨hglobal', hsuffix.trans (hnests.suffix hglobal)⟩

theorem Reachable.isOf {host : Host} (hscript : ∀ s t, ¬host.script s t) (h : Reachable host m) :
    ∀ id s, m.script? id = some s → ∀ f ∈ s.frames, f.IsOf s.unit := by
  refine h.keeps (P := fun m => ∀ id s, m.script? id = some s → ∀ f ∈ s.frames, f.IsOf s.unit)
    hscript ?_ ?_
  · intro worldSettings specs settings seed id s hs
    simp [Machine.start, script?] at hs
  · intro m b hm hframes id s' hs'
    obtain ⟨-, u, owner, -, rfl⟩ | ⟨s, hs, hcomes⟩ := hm.comes_beat b hs'
    · simp [Script.start]
    · obtain ⟨hunit, -, hnests⟩ := hcomes.nests
      rw [hunit]
      exact hnests.isOf (hframes id s hs)

/-! ### Calls and returns -/

theorem Agrees.frames_of_called (h : Agrees m) (hs : m.script? id = some s)
    (hcalled : (m.step id).1 = some .called) (hs' : (m.step id).2.script? id = some s') :
    s'.frames = ⟨s.position + 1, s.position⟩ :: s.frames := by
  obtain he | ⟨s₀, hs₀, hstate, ⟨-, he⟩ | ⟨i, s₁, outcome, scene, hf, hsettle, he⟩⟩ :=
    m.step_outcome_cases id
  · rw [he] at hcalled
    cases hcalled
  · rw [he] at hcalled
    cases hcalled
  · obtain rfl := Option.some.inj (hs.symm.trans hs₀)
    rw [he] at hcalled
    obtain rfl := Option.some.inj hcalled
    obtain ⟨-, hscript⟩ := h.isNamed.step_settle hs hstate hf hsettle
    obtain rfl := Option.some.inj (hs'.symm.trans hscript)
    obtain ⟨-, rfl⟩ := Script.fetch?_eq_some_iff.1 hf
    cases Scene.brackets_settle hsettle with
    | opened _ hframes => exact hframes
    | kept hne => exact absurd rfl hne

theorem Agrees.step_return (h : Agrees m) (hs : m.script? id = some s) (hstate : s.state = .running)
    (hglobal : s.isGlobal = true) {i : Instruction} (hi : s.unit.code[s.position]? = some i)
    (hop : i.opcode = .return) :
    (m.step id).1 = some .stopped ∧
      ∃ t, (m.step id).2.script? id = some t ∧ t.state = .stopped ∧ t.frames = s.frames := by
  obtain ⟨s₁, hf, hglobal₁, hstate₁, hframes⟩ : ∃ s₁, s.fetch? = some (i, s₁) ∧
      s₁.isGlobal = true ∧ s₁.state = .running ∧ s₁.frames = s.frames :=
    ⟨_, Script.fetch?_eq_some_iff.2 ⟨hi, rfl⟩, hglobal, hstate, rfl⟩
  have hsettle := Scene.settle_return_of_global (s := ⟨s₁, m.world, m.waits, m.dice⟩) hop hglobal₁
  obtain ⟨hstep, hstopped⟩ := h.isNamed.step_settle hs hstate hf hsettle
  refine ⟨by rw [hstep], s₁.stop, hstopped, ?_, ?_⟩
  · exact Script.state_stop (by simp [hstate₁, ScriptState.isFinished])
  · obtain ⟨state, he⟩ := s₁.stop_eq
    rw [he]
    exact hframes

/-- In every run an open call returns to the instruction behind it, and what first brings a script
back to the calls it had before one is the return that closes it. -/
theorem calls_and_returns_bracket {host : Host} (hscript : ∀ s t, ¬host.script s t)
    (h : Reachable host m) :
    (∀ op, ∃ bs, m.operate op = m.play bs) ∧
      (∀ id s, m.script? id = some s → ∀ f ∈ s.frames, f.IsOf s.unit) ∧
      (∀ id s bs, m.script? id = some s → (m.step id).1 = some .called →
        StaysAbove s.frames.length id bs (m.step id).2 →
          (∀ t, ((m.step id).2.play bs).script? id = some t →
            ∃ inner, t.frames = inner ++ ⟨s.position + 1, s.position⟩ :: s.frames) ∧
          ∀ b t', (((m.step id).2.play bs).beat b).script? id = some t' →
            t'.frames.length ≤ s.frames.length →
              b = .step id ∧
                (∃ t i, ((m.step id).2.play bs).script? id = some t ∧
                  t.unit.code[t.position]? = some i ∧ i.opcode = .return) ∧
                t'.frames = s.frames ∧ t'.position = s.position + 1) ∧
      ∀ id s, m.script? id = some s → s.isGlobal = true →
        (∀ bs t, (m.play bs).script? id = some t → s.frames <:+ t.frames) ∧
          ∀ i, s.state = .running → s.unit.code[s.position]? = some i → i.opcode = .return →
            (m.step id).1 = some .stopped ∧
              ∃ t, (m.step id).2.script? id = some t ∧ t.state = .stopped ∧
                t.frames = s.frames := by
  have hm := h.agrees hscript
  refine ⟨m.operate_eq_play, h.isOf hscript, ?_, ?_⟩
  · intro id s bs hs hcalled habove
    have hlast : id.index ≤ (m.step id).2.lastScript :=
      Nat.le_trans (hm.named id s hs).2 (m.lastScript_beat (.step id))
    have hcall : ∀ t, (m.step id).2.script? id = some t →
        ∃ inner, t.frames = inner ++ ⟨s.position + 1, s.position⟩ :: s.frames :=
      fun t ht => ⟨[], hm.frames_of_called hs hcalled ht⟩
    have hopen := (hm.step id).open_play hlast hcall habove
    refine ⟨hopen, ?_⟩
    intro b t' ht' hdepth
    have hlast' := Nat.le_trans hlast (lastScript_play (m.step id).2 bs)
    obtain ⟨t, ht, -, -, hnests⟩ := ((hm.step id).play bs).nests_beat hlast' ht'
    obtain ⟨inner, hinner⟩ := hopen t ht
    obtain ⟨inner', hinner'⟩ | ⟨hb, ⟨i, hi, hop⟩, hframes, hposition⟩ := hnests.open hinner
    · simp only [hinner', List.length_append, List.length_cons] at hdepth
      omega
    · exact ⟨hb, ⟨t, i, ht, hi, hop⟩, hframes, hposition⟩
  · intro id s hs hglobal
    refine ⟨?_, fun i hstate hi hop => hm.step_return hs hstate hglobal hi hop⟩
    intro bs t ht
    refine (hm.global_play (hm.named id s hs).2 ?_ bs t ht).2
    intro s' hs'
    obtain rfl := Option.some.inj (hs.symm.trans hs')
    exact ⟨hglobal, List.suffix_refl _⟩

def napping : CodeUnit :=
  ⟨0, #[], #[⟨.call, .callTarget 2, 0⟩, ⟨.return, .none, 0⟩, ⟨.pushNumber, .number Binary32.one, 0⟩,
    ⟨.wait, .none, 0⟩, ⟨.return, .none, 0⟩], rfl⟩

def idle : CodeUnit := ⟨0, #[], #[⟨.call, .callTarget 1, 0⟩, ⟨.return, .none, 0⟩], rfl⟩

def calling : Machine :=
  let m := ((start (World.start {} []) {} 0).spawn napping (some ⟨1⟩)).2
  ((m.spawn idle none).2.step ⟨2⟩).2

def meanwhile : List Beat := [.step ⟨1⟩, .step ⟨1⟩, .deliver (.alarmFired ⟨1⟩)]

theorem calls_and_returns_bracket_calling :
    (∀ s t, ¬Host.worldOnly.script s t) ∧ Reachable .worldOnly calling ∧
      (calling.step ⟨1⟩).1 = some .called ∧
      StaysAbove 0 ⟨1⟩ meanwhile (calling.step ⟨1⟩).2 ∧
      (∃ t, (((calling.step ⟨1⟩).2.play meanwhile).step ⟨1⟩).2.script? ⟨1⟩ = some t ∧
        t.frames = [] ∧ t.position = 1) ∧
      (calling.step ⟨2⟩).1 = some .stopped := by
  have hscript : ∀ s t, ¬Host.worldOnly.script s t := fun _ _ h => h
  have hreachable : Reachable .worldOnly calling := by
    refine Reachable.operate (Reachable.operate (Reachable.operate ?_ (.spawn napping (some ⟨1⟩)))
      (.spawn idle none)) (.step ⟨2⟩)
    exact reachable_start _ {} [] {} 0
  have hcalled : (calling.step ⟨1⟩).1 = some .called := by decide
  have habove : StaysAbove 0 ⟨1⟩ meanwhile (calling.step ⟨1⟩).2 := by
    refine ⟨?_, ?_, ?_, ?_⟩
    all_goals
      rintro s ⟨⟩
      decide
  obtain ⟨-, -, hcalls, hglobal⟩ := calls_and_returns_bracket hscript hreachable
  obtain ⟨-, hreturn⟩ := hcalls ⟨1⟩ _ meanwhile rfl hcalled habove
  obtain ⟨-, -, hframes, hposition⟩ := hreturn (.step ⟨1⟩) _ rfl (by decide)
  obtain ⟨hstopped, -⟩ := (hglobal ⟨2⟩ _ rfl rfl).2 ⟨.return, .none, 0⟩ rfl rfl rfl
  exact ⟨hscript, hreachable, hcalled, habove, ⟨_, rfl, hframes, hposition⟩, hstopped⟩

end Machine

end WorldScript
