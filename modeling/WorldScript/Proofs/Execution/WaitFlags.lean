import WorldScript.Proofs.Execution.Effects

/-!
The last argument of four opcodes is a flag, which says whether the script waits for the end of what
it asks for. The arguments above the flag and the conditions do not depend on it, and neither does
the fault that they find or the request that they come to. The request differs in its token alone.

Main statements: `Instruction.flagged_action` and `World.tokenApart_issue`.
-/
set_option autoImplicit false

namespace WorldScript

namespace Opcode

def flagged : List Opcode := [moveTo, speak, attack, fadeScreen]

def request? : Opcode → List Value → Option Request
  | moveTo, [.entity h, .number x, .number y] => some (.walk h x y)
  | speak, [.entity h, .string text] => some (.talk h text)
  | attack, [.entity h, .entity target] => some (.strike h target)
  | fadeScreen, [.number _, .number seconds] => some (.fade seconds)
  | _, _ => none

def awaited? : Opcode → List Value → Option Handle
  | moveTo, .entity h :: _ | speak, .entity h :: _ | attack, .entity h :: _ => some h
  | _, _ => none

theorem task_of_request? {op : Opcode} {args : List Value} {r : Request}
    (h : op.request? args = some r) :
    op.waitKind? = some (Task.request r).kind ∧ op.awaited? args = (Task.request r).watched ∧
      op.answers = (Task.request r).pushesResult := by
  unfold request? at h
  split at h <;> cases h <;> exact ⟨rfl, rfl, rfl⟩

end Opcode

/-! ### Arguments and conditions -/

namespace Taking

variable {α : Type} {t : Taking α} {f g : Bool → Taking Action} {e : Fault} {r : Request}

/-- Takes one value, and finds a fault in it or something else, whatever is below it. -/
def Reads (t : Taking α) (P : Value → α → Prop) : Prop :=
  ∀ v, (∃ e, ∀ stack, t.run (v :: stack) = (.error e, stack)) ∨
    ∃ a, P v a ∧ ∀ stack, t.run (v :: stack) = (.ok a, stack)

theorem Reads.mono {P Q : Value → α → Prop} (ht : t.Reads P) (h : ∀ v a, P v a → Q v a) :
    t.Reads Q := fun v => (ht v).imp_right fun ⟨a, ha, hrun⟩ => ⟨a, h v a ha, hrun⟩

theorem reads_pop (f : Value → Except Fault α) :
    (do check (f (← pop)) : Taking α).Reads fun v a => f v = .ok a := by
  intro v
  have hrun : ∀ stack, (do check (f (← pop)) : Taking α).run (v :: stack) =
      (check (f v)).run stack := fun _ => rfl
  cases hv : f v with
  | error e => exact .inl ⟨e, fun stack => by rw [hrun, hv]; rfl⟩
  | ok a => exact .inr ⟨a, hv, fun stack => by rw [hrun, hv]; rfl⟩

theorem reads_number : number.Reads fun v n => v = .number n :=
  (reads_pop Value.asNumber).mono fun _ _ => Value.asNumber_eq_ok_iff.1

theorem reads_string : string.Reads fun v text => v = .string text :=
  (reads_pop Value.asString).mono fun _ _ => Value.asString_eq_ok_iff.1

theorem reads_entity : entity.Reads fun v h => v = .entity h :=
  (reads_pop Value.asEntity).mono fun _ _ => Value.asEntity_eq_ok_iff.1

theorem reads_flag : flag.Reads fun v _ => ∃ n, v = .number n := by
  refine (reads_pop Value.isTrue).mono fun v waits hv => ?_
  cases v with
  | number n => exact ⟨n, rfl⟩
  | string | entity => cases hv

theorem reads_seconds : seconds.Reads fun v n => v = .number n := by
  intro v
  cases v with
  | number n =>
    have hrun : ∀ stack, seconds.run (.number n :: stack) =
        (if Binary32.zero.atMost n && n.isFinite then pure n
          else throw (.outOfRange "seconds" n) : Taking Binary32).run stack := fun _ => rfl
    by_cases h : Binary32.zero.atMost n && n.isFinite
    · refine .inr ⟨n, rfl, fun stack => ?_⟩
      rw [hrun, if_pos h]
      rfl
    · refine .inl ⟨.outOfRange "seconds" n, fun stack => ?_⟩
      rw [hrun, if_neg h]
      rfl
  | string | entity => exact .inl ⟨_, fun _ => rfl⟩

/-- After the flag: conditions, and then the request. Nothing more is taken. -/
def Settles (f : Bool → Taking Action) (P : Request → Prop) : Prop :=
  (∃ e, ∀ waits stack, (f waits).run stack = (.error e, stack)) ∨
    ∃ r, P r ∧ ∀ waits stack, (f waits).run stack = (.ok (ask waits r), stack)

section Settles

variable {P : Request → Prop}

theorem settles_ask (h : P r) : Settles (fun waits => pure (ask waits r)) P :=
  .inr ⟨r, h, fun _ _ => rfl⟩

theorem settles_check {c : Except Fault α} {f : α → Bool → Taking Action}
    (hf : ∀ a, Settles (f a) P) : Settles (fun waits => check c >>= fun a => f a waits) P := by
  cases c with
  | ok a => exact hf a
  | error e => exact .inl ⟨e, fun _ _ => rfl⟩

theorem settles_unless {p : Prop} [Decidable p] {f : Bool → Unit → Taking Action}
    (hf : Settles (fun waits => f waits ()) P) :
    Settles (fun waits => if p then throw e >>= f waits else f waits ()) P := by
  by_cases hp : p
  · simp only [hp, if_true]
    exact .inl ⟨e, fun _ _ => rfl⟩
  · simpa only [hp, if_false] using hf

end Settles

/-- Takes some arguments and then the flag. The arguments alone make the fault or the request. -/
def Flagged (t : Taking Action) (n : Nat) (P : List Value → Request → Prop) : Prop :=
  ∀ args rest, args.length = n →
    (∃ e k, ∀ flag, t.run (args ++ .number flag :: rest) =
        (.error e, (args ++ .number flag :: rest).drop k)) ∨
      ∃ r, P args r ∧
        ∀ flag, t.run (args ++ .number flag :: rest) = (.ok (ask (Value.holds flag) r), rest)

variable {n : Nat} {P : List Value → Request → Prop}

theorem Settles.flagged (hf : Settles f (P [])) : (flag >>= f).Flagged 0 P := by
  intro args rest hlength
  obtain rfl := List.eq_nil_of_length_eq_zero hlength
  have hflag : ∀ n, flag.run (.number n :: rest) = (.ok (Value.holds n), rest) := fun _ => rfl
  obtain ⟨e, he⟩ | ⟨r, hr, hok⟩ := hf
  · refine .inl ⟨e, 1, fun n => ?_⟩
    rw [List.nil_append, run_bind, hflag]
    exact he _ rest
  · refine .inr ⟨r, hr, fun n => ?_⟩
    rw [List.nil_append, run_bind, hflag]
    exact hok _ rest

theorem Reads.flagged {Q : Value → α → Prop} {f : α → Taking Action} (ht : t.Reads Q)
    (hf : ∀ v a, Q v a → (f a).Flagged n fun args r => P (v :: args) r) :
    (t >>= f).Flagged (n + 1) P := by
  intro args rest hlength
  obtain ⟨v, args, rfl⟩ := List.exists_cons_of_length_eq_add_one hlength
  obtain ⟨e, he⟩ | ⟨a, hv, hok⟩ := ht v
  · refine .inl ⟨e, 1, fun flag => ?_⟩
    rw [List.cons_append, run_bind, he]
    rfl
  · obtain ⟨e, k, he⟩ | ⟨r, hr, hok'⟩ := hf v a hv args rest (Nat.succ.inj hlength)
    · refine .inl ⟨e, k + 1, fun flag => ?_⟩
      rw [List.cons_append, run_bind, hok]
      exact he flag
    · refine .inr ⟨r, hr, fun flag => ?_⟩
      rw [List.cons_append, run_bind, hok]
      exact hok' flag

end Taking

namespace Instruction

open Taking

/-- The flag makes no difference to the fault that an instruction finds, and none to what it asks
for. -/
theorem flagged_action {i : Instruction} (hop : i.opcode ∈ Opcode.flagged) (s : Script) (w : World) :
    (i.action s w).Flagged (i.opcode.taken - 1) fun args r => i.opcode.request? args = some r := by
  simp only [Opcode.flagged, List.mem_cons, List.not_mem_nil, or_false] at hop
  obtain h | h | h | h := hop
  · simp only [action, h, Opcode.family]
    refine reads_entity.flagged ?_
    rintro _ actor rfl
    refine reads_number.flagged ?_
    rintro _ x rfl
    refine reads_number.flagged ?_
    rintro _ y rfl
    exact Settles.flagged (settles_check fun _ => settles_unless (settles_ask rfl))
  · simp only [action, h, Opcode.family]
    refine reads_entity.flagged ?_
    rintro _ actor rfl
    refine reads_string.flagged ?_
    rintro _ text rfl
    exact Settles.flagged (settles_check fun _ => settles_ask rfl)
  · simp only [action, h, Opcode.family]
    refine reads_entity.flagged ?_
    rintro _ attacker rfl
    refine reads_entity.flagged ?_
    rintro _ target rfl
    exact Settles.flagged (settles_unless <| settles_check fun _ => settles_check fun _ =>
      settles_check fun _ => settles_unless (settles_ask rfl))
  · simp only [action, h, Opcode.family]
    refine reads_flag.flagged ?_
    rintro _ _ ⟨direction, rfl⟩
    refine reads_seconds.flagged ?_
    rintro _ seconds rfl
    exact Settles.flagged (settles_ask rfl)

end Instruction

theorem Scene.execute_flagged {i : Instruction} (hop : i.opcode ∈ Opcode.flagged) (s : Scene)
    {args : List Value} (hargs : args.length + 1 = i.opcode.taken) (rest : List Value) :
    (∃ e k, ∀ flag, (s.withStack (args ++ .number flag :: rest)).execute i =
        (.error e, s.withStack ((args ++ .number flag :: rest).drop k))) ∨
      ∃ r, i.opcode.request? args = some r ∧
        ∀ flag, (s.withStack (args ++ .number flag :: rest)).execute i =
          (s.withStack rest).perform (Taking.ask (Value.holds flag) r) := by
  obtain ⟨e, k, he⟩ | ⟨r, hr, hok⟩ :=
    Instruction.flagged_action hop s.script s.world args rest (Nat.eq_sub_of_add_eq hargs)
  · exact .inl ⟨e, k, fun flag => execute_eq (r := .error e) (he flag)⟩
  · exact .inr ⟨r, hr, fun flag => execute_eq (r := .ok (Taking.ask (Value.holds flag) r)) (hok flag)⟩

/-! ### Requests -/

namespace World

/-- Two worlds in which the request that came last is the same, once with a token and once without
it. All else is the same. -/
inductive TokenApart (t : Token) : World → World → Prop
  | command (w : World) (actor : Handle) (errand : Errand) :
    TokenApart t { w with commands := w.commands.insert actor ⟨errand, some t⟩ }
      { w with commands := w.commands.insert actor ⟨errand, none⟩ }
  | fade (w : World) (seconds : Binary32) :
    TokenApart t { w with fades := w.fades ++ [⟨seconds, some t⟩] }
      { w with fades := w.fades ++ [⟨seconds, none⟩] }

theorem tokenApart_command (w : World) (actor : Handle) (errand : Errand) (t : Token) :
    TokenApart t (w.command actor ⟨errand, some t⟩) (w.command actor ⟨errand, none⟩) := by
  simp only [World.command]
  cases (w.commands.get? actor).bind Command.notify with
  | none => exact .command w actor errand
  | some u => exact .command (w.emit _) actor errand

theorem tokenApart_issue {op : Opcode} {args : List Value} {r : Request}
    (h : op.request? args = some r) (w : World) (t : Token) :
    TokenApart t (w.issue r (some t)) (w.issue r none) := by
  unfold Opcode.request? at h
  split at h <;> cases h
  · exact tokenApart_command w _ _ t
  · exact tokenApart_command _ _ _ t
  · exact tokenApart_command w _ _ t
  · exact .fade w _

end World

end WorldScript
