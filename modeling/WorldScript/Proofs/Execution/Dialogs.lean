import WorldScript.Proofs.Execution.Effects
import WorldScript.Proofs.World.Dialogs

/-!
Scripts and dialogs. Only one opcode opens a dialog; it looks whether the interface shows the world,
and it waits for the answer. All other instructions leave dialogs alone.

Main statement: `Scene.speech_settle`.
-/
set_option autoImplicit false

namespace WorldScript

/-- A dialog is opened by the opcode for it, which waits, and in the main interface only. -/
def Action.Minds (op : Opcode) (w : World) (a : Action) : Prop :=
  ∀ text, a ≠ .issue (.dialog text) ∧
    (a = .await (.request (.dialog text)) → op = .dialog ∧ w.interface = .main)

theorem World.main_of_requireMain {w : World} {refusal : Refusal} {u : Unit}
    (h : w.requireMain refusal = .ok u) : w.interface = .main := by
  unfold requireMain at h
  split at h
  case isTrue hmain => exact hmain
  case isFalse => cases h

theorem Opcode.eq_dialog {op : Opcode} (hkind : op.waitKind? = some .window)
    (hanswers : op.answers = true) : op = .dialog := by
  revert hkind hanswers
  cases op <;> decide

open Taking in
theorem Instruction.draws_dialog {i : Instruction} (hop : i.opcode = .dialog) (s : Script)
    (w : World) : (i.action s w).Draws fun a =>
      w.interface = .main ∧ ∃ text, a = .await (.request (.dialog text)) := by
  simp only [action, hop, Opcode.family]
  refine takes_string.draws.bind fun text => draws_check_bind fun _ hmain => ?_
  exact draws_pure ⟨World.main_of_requireMain hmain, text, rfl⟩

theorem Instruction.draws_minds (i : Instruction) (s : Script) (w : World) :
    (i.action s w).Draws (Action.Minds i.opcode w) := by
  by_cases hop : i.opcode = .dialog
  case pos =>
    refine (draws_dialog hop s w).mono ?_
    rintro a ⟨hmain, text, rfl⟩ text'
    exact ⟨by simp, fun _ => ⟨hop, hmain⟩⟩
  case neg =>
    cases hapi : i.opcode.isApi with
    | true =>
      refine (takes_action_of_isApi s w hapi).draws.mono fun a ha text => ⟨?_, ?_⟩
      · rintro rfl
        cases ha with
        | issue _ hkind hanswers => exact hop (Opcode.eq_dialog hkind hanswers)
      · rintro rfl
        cases ha with
        | await _ hkind hanswers => exact absurd (Opcode.eq_dialog hkind hanswers) hop
    | false =>
      refine (i.draws_action s w).mono fun a ha text => ⟨?_, ?_⟩
      · rintro rfl
        have hissue : i.opcode.isApi = true := ha
        rw [hapi] at hissue
        cases hissue
      · rintro rfl
        have hawait := Opcode.isApi_of_waitKind? ha
        rw [hapi] at hawait
        cases hawait

namespace Scene

/-- What an instruction does to dialogs: nothing, where a wait that is registered is for something
else, or it opens the only one under the token of the wait for it. -/
inductive Speech (i : Instruction) (s s' : Scene) : Prop
  | aside (world : s.world.Aside s'.world)
    (waits : s'.waits = s.waits ∨ ∃ (task : Task) (t : Token),
      (∀ text, task ≠ .request (.dialog text)) ∧
      s.waits.register ⟨s.script.id, s.script.current⟩ task.kind task.watched task.pushesResult =
        .ok (t, s'.waits))
  | opened (text : String) (t : Token) (opcode : i.opcode = .dialog)
    (main : s.world.interface = .main)
    (waits : s.waits.register ⟨s.script.id, s.script.current⟩ .window none true =
      .ok (t, s'.waits))
    (world : s'.world = s.world.issue (.dialog text) (some t))

variable {s s' : Scene} {i : Instruction}

theorem speech_of_eq (hworld : s'.world = s.world) (hwaits : s'.waits = s.waits) :
    Speech i s s' :=
  .aside (hworld ▸ .refl _) (.inl hwaits)

theorem speech_await {task : Task} (ha : (Action.await task).Minds i.opcode s.world) :
    Speech i s (s.await task).2 := by
  unfold await
  dsimp only
  split
  case h_2 => exact speech_of_eq rfl rfl
  case h_1 t waits hregister =>
    by_cases htask : ∃ text, task = .request (.dialog text)
    case pos =>
      obtain ⟨text, rfl⟩ := htask
      obtain ⟨hopcode, hmain⟩ := (ha text).2 rfl
      exact .opened text t hopcode hmain hregister rfl
    case neg =>
      have hother : ∀ text, task ≠ .request (.dialog text) := fun text he => htask ⟨text, he⟩
      exact .aside (World.aside_start _ hother t) (.inr ⟨task, t, hother, hregister⟩)

theorem speech_perform {a : Action} (ha : a.Minds i.opcode s.world) :
    Speech i s (s.perform a).2 := by
  obtain ⟨hworld, hwaits⟩ | ⟨c, rfl⟩ | ⟨r, rfl⟩ | ⟨task, rfl⟩ := s.perform_cases a
  · exact speech_of_eq hworld hwaits
  · exact .aside (World.aside_change _ c) (.inl rfl)
  · have hr : ∀ text, r ≠ .dialog text := fun text hr => (ha text).1 (by rw [hr])
    exact .aside (World.aside_issue _ hr none) (.inl rfl)
  · exact speech_await ha

theorem opens_settle (hop : i.opcode = .dialog) (h : s.settle i = (.paused, s')) :
    ∃ text t, s.world.interface = .main ∧
      s.waits.register ⟨s.script.id, s.script.current⟩ .window none true = .ok (t, s'.waits) ∧
      s'.world = s.world.issue (.dialog text) (some t) := by
  rcases hx : s.execute i with ⟨e | outcome, scene⟩
  · rw [settle_of_error hx] at h
    cases h
  · rw [settle_of_ok hx] at h
    cases h
    obtain ⟨a, rest, hr, hp⟩ := execute_ok hx
    obtain ⟨hmain, text, rfl⟩ :=
      ((Instruction.draws_dialog hop s.script s.world) _ _ _ hr).2 a rfl
    simp only [perform, await] at hp
    split at hp
    case h_1 t waits hregister =>
      cases hp
      exact ⟨text, t, hmain, hregister, rfl⟩
    case h_2 => cases hp

theorem Speech.of_stays {s₁ s₂ : Scene} (h : Speech i s₁ s₂) (hstays : s.script.Stays s₁.script)
    (hworld : s₁.world = s.world) (hwaits : s₁.waits = s.waits) : Speech i s s₂ := by
  cases h with
  | aside world waits =>
    refine .aside (hworld ▸ world) ?_
    rwa [hwaits, hstays.id, hstays.current] at waits
  | opened text t opcode main waits world =>
    rw [hwaits, hstays.id, hstays.current] at waits
    exact .opened text t opcode (hworld ▸ main) waits (hworld ▸ world)

theorem speech_settle (s : Scene) (i : Instruction) : Speech i s (s.settle i).2 := by
  rcases hx : s.execute i with ⟨e | outcome, s'⟩
  · obtain ⟨stack, dice, rfl⟩ := execute_error_eq hx
    rw [settle_of_error hx]
    exact speech_of_eq rfl rfl
  · obtain ⟨a, rest, hr, hp⟩ := execute_ok hx
    have hminds := ((i.draws_minds s.script s.world) _ _ _ hr).2 a rfl
    have hspeech : Speech i (s.withStack rest) ((s.withStack rest).perform a).2 :=
      speech_perform hminds
    rw [hp] at hspeech
    rw [settle_of_ok hx]
    exact hspeech.of_stays ⟨rfl, rfl, rfl, rfl⟩ rfl rfl

end Scene

end WorldScript
