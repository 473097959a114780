import WorldScript.Proofs.World.Ledger

/-!
Dialogs of a world. While the interface shows a dialog, that one is open and no other, and what
happens to the world leaves it open or closes it, which is reported under the token of the dialog
with the choice that was made.

Main statements: `speech_call`, `Closes.answered` and `silent_of_asks`.
-/
set_option autoImplicit false

namespace WorldScript.World

/-- At most one dialog is open, and the interface shows whether one is. -/
structure Modal (w : World) : Prop where
  single : w.dialogs.length ≤ 1
  interface : w.interface = if w.dialogs.isEmpty then .main else .dialog

def Asks (w : World) (t : Token) : Prop := ∃ text, w.dialogs = [⟨text, some t⟩]

/-- A choice is reported under this token, before anything else is. -/
def Answered (w : World) (t : Token) (choice : Binary32) : Prop :=
  ∃ earlier later, w.notices = earlier ++ .windowClosed t (some (.number choice)) :: later ∧
    ∀ result, .windowClosed t result ∉ earlier

/-- Dialogs stay as they are, and so do the notices until they are taken. -/
structure Aside (w w' : World) : Prop where
  dialogs : w'.dialogs = w.dialogs
  interface : w'.interface = w.interface
  notices : w.notices <+: w'.notices

/-- The only dialog is closed with a choice, which is reported next. -/
structure Closes (w : World) (d : Dialog) (choice : Binary32) (w' : World) : Prop where
  shown : w.dialogs = [d]
  dialogs : w'.dialogs = []
  interface : w'.interface = .main
  notices : w.notices ++ (d.notify.map fun t => .windowClosed t (some (.number choice))).toList <+:
    w'.notices

section

variable {w w₁ w' : World} {t : Token} {choice : Binary32} {d : Dialog}

theorem Aside.refl (w : World) : Aside w w := ⟨rfl, rfl, List.prefix_refl _⟩

theorem Aside.trans (k : Aside w w₁) (k' : Aside w₁ w') : Aside w w' :=
  ⟨k'.dialogs.trans k.dialogs, k'.interface.trans k.interface, k.notices.trans k'.notices⟩

theorem Aside.modal (k : Aside w w') (h : w.Modal) : w'.Modal :=
  ⟨k.dialogs ▸ h.single, by rw [k.interface, k.dialogs, h.interface]⟩

theorem Closes.modal (k : Closes w d choice w') : w'.Modal :=
  ⟨by simp [k.dialogs], by simp [k.dialogs, k.interface]⟩

theorem Closes.trans (k : Closes w d choice w₁) (k' : Aside w₁ w') : Closes w d choice w' :=
  ⟨k.shown, k'.dialogs.trans k.dialogs, k'.interface.trans k.interface,
    k.notices.trans k'.notices⟩

theorem Asks.aside (h : w.Asks t) (k : Aside w w') : w'.Asks t := by
  obtain ⟨text, hd⟩ := h
  exact ⟨text, k.dialogs.trans hd⟩

theorem Answered.mono (h : w.Answered t choice) (k : w.notices <+: w'.notices) :
    w'.Answered t choice := by
  obtain ⟨earlier, later, hn, hfirst⟩ := h
  obtain ⟨more, hmore⟩ := k
  refine ⟨earlier, later ++ more, ?_, hfirst⟩
  rw [← hmore, hn, List.append_assoc, List.cons_append]

theorem silent_of_asks (hdistinct : w.standing.Nodup) (h : w.Asks t) (result : Option Value) :
    .windowClosed t result ∉ w.notices := by
  obtain ⟨text, hd⟩ := h
  intro hn
  have hpromised : (WaitKind.window, t) ∈ w.promised :=
    mem_promised.2 (by simp [carried, windowTokens, hd])
  have hreported : (WaitKind.window, t) ∈ reports w.notices :=
    List.mem_filterMap.2 ⟨_, hn, rfl⟩
  exact (List.nodup_append.1 hdistinct).2.2 _ hpromised _ hreported rfl

theorem Closes.answered (k : Closes w d choice w') (hdistinct : w.standing.Nodup)
    (h : w.Asks t) : w'.Answered t choice := by
  obtain ⟨text, hd⟩ := h
  obtain rfl : d = ⟨text, some t⟩ := by simpa [k.shown] using hd
  obtain ⟨more, hmore⟩ := k.notices
  refine ⟨w.notices, more, ?_, silent_of_asks hdistinct ⟨text, hd⟩⟩
  simpa using hmore.symm

/-! ### Changes and requests -/

theorem aside_change (w : World) (c : Change) : Aside w (w.change c) := by
  cases c with
  | destroy h =>
    refine ⟨?_, ?_, w.notices_destroy h⟩
    all_goals
      simp only [change, destroy]
      split <;> rfl
  | setHitPoints | setWallOpen | setAlignment | startCombat | endCombat | print | message =>
    exact ⟨rfl, rfl, List.prefix_refl _⟩

theorem aside_notify (w : World) (token : Option Token) (n : Token → Notice) :
    Aside w (w.notify token n) := by
  cases token with
  | none => exact .refl w
  | some t => exact ⟨rfl, rfl, List.prefix_append _ _⟩

theorem aside_command (w : World) (actor : Handle) (c : Command) :
    Aside w (w.command actor c) := by
  have hwrite : Aside w { w with commands := w.commands.insert actor c } :=
    ⟨rfl, rfl, List.prefix_refl _⟩
  exact hwrite.trans (aside_notify _ _ _)

theorem aside_issue (w : World) {r : Request} (hr : ∀ text, r ≠ .dialog text)
    (notify : Option Token) : Aside w (w.issue r notify) := by
  cases r with
  | walk actor x y => exact aside_command w actor _
  | strike actor target => exact aside_command w actor _
  | talk actor text =>
    have hprint : Aside w (w.print (w.speakerName actor ++ ": " ++ text)) :=
      ⟨rfl, rfl, List.prefix_refl _⟩
    exact hprint.trans (aside_command _ actor _)
  | dialog text => exact absurd rfl (hr text)
  | fade seconds => exact ⟨rfl, rfl, List.prefix_refl _⟩

theorem aside_start (w : World) {task : Task} (htask : ∀ text, task ≠ .request (.dialog text))
    (t : Token) : Aside w (task.start w t) := by
  cases task with
  | alarm seconds => exact ⟨rfl, rfl, List.prefix_refl _⟩
  | request r => exact aside_issue w (fun text hr => htask text (by rw [hr])) (some t)

theorem modal_open (h : w.Modal) (hmain : w.interface = .main) (text : String) (t : Token) :
    w.dialogs = [] ∧ (w.issue (.dialog text) (some t)).Modal ∧
      (w.issue (.dialog text) (some t)).Asks t := by
  have hnone : w.dialogs = [] := by
    have hinterface := h.interface
    rw [hmain] at hinterface
    split at hinterface
    case isTrue hempty => exact List.isEmpty_iff.1 hempty
    case isFalse => cases hinterface
  refine ⟨hnone, ⟨?_, ?_⟩, text, ?_⟩
  all_goals simp [issue, print, hnone]

/-! ### Withdrawing -/

theorem modal_withdraw (h : w.Modal) (t : Token) (kind : WaitKind) :
    (Machine.withdraw w t kind).Modal := by
  cases kind with
  | alarm => exact ⟨h.single, h.interface⟩
  | command | window =>
    refine ⟨?_, ?_⟩
    · simpa [Machine.withdraw, forget] using h.single
    · simp [Machine.withdraw, forget, h.interface]

theorem asks_withdraw {u : Token} (hu : u ≠ t) (kind : WaitKind) :
    (Machine.withdraw w u kind).Asks t ↔ w.Asks t := by
  cases kind with
  | alarm => exact .rfl
  | command | window =>
    simp only [Machine.withdraw, Asks, forget, List.map_eq_singleton_iff, Dialog.mk.injEq]
    constructor
    · rintro ⟨text, d, hd, -, hnotify⟩
      unfold withoutToken at hnotify
      split at hnotify
      case isTrue => cases hnotify
      case isFalse => exact ⟨d.text, by rw [hd, ← hnotify]⟩
    · rintro ⟨text, hd⟩
      exact ⟨text, _, hd, rfl, by simp [withoutToken, Ne.symm hu]⟩

theorem not_asks_withdraw (w : World) (t : Token) {kind : WaitKind} (hkind : kind = .window) :
    ¬(Machine.withdraw w t kind).Asks t := by
  subst hkind
  rintro ⟨text, hd⟩
  simp only [Machine.withdraw, forget, List.map_eq_singleton_iff, Dialog.mk.injEq] at hd
  obtain ⟨d, -, -, hnotify⟩ := hd
  unfold withoutToken at hnotify
  split at hnotify
  case isTrue => cases hnotify
  case isFalse hne => exact hne hnotify

theorem notices_withdraw (w : World) (t : Token) (kind : WaitKind) :
    (Machine.withdraw w t kind).notices = w.notices := by
  cases kind <;> rfl

/-! ### Time -/

theorem Modal.cases (h : w.Modal) : w.dialogs = [] ∨ ∃ d, w.dialogs = [d] := by
  have hsingle := h.single
  rcases hd : w.dialogs with _ | ⟨d, _ | ⟨e, rest⟩⟩
  · exact .inl rfl
  · exact .inr ⟨d, rfl⟩
  · simp [hd] at hsingle

theorem answer?_eq_none (h : w.dialogs = []) (choice : Binary32) : w.answer? choice = none := by
  simp [answer?, h]

theorem closes_answer? (h : w.Modal) (hd : w.dialogs = [d]) (choice : Binary32) :
    ∃ w', w.answer? choice = some w' ∧ Closes w d choice w' := by
  have hinterface : w.interface = .dialog := by rw [h.interface, hd]; rfl
  unfold answer?
  simp only [hd, List.isEmpty_nil, Bool.true_and]
  refine ⟨_, rfl, ?_⟩
  cases hnotify : d.notify with
  | none =>
    simp only [notify, hinterface, beq_self_eq_true, if_true]
    exact ⟨hd, rfl, rfl, by simp [hnotify]⟩
  | some t =>
    simp only [notify, emit, hinterface, beq_self_eq_true, if_true]
    exact ⟨hd, rfl, rfl, by simp [hnotify]⟩

theorem closes_answerAll (h : w.Modal) (hd : w.dialogs = [d]) (hauto : w.autoAnswer = some choice) :
    Closes w d choice w.answerAll := by
  obtain ⟨w', ha, hcloses⟩ := closes_answer? h hd choice
  unfold answerAll
  simp only [hauto, hd, List.length_singleton, answerEach, ha]
  exact hcloses

theorem answerAll_eq_self (h : w.dialogs = [] ∨ w.autoAnswer = none) : w.answerAll = w := by
  unfold answerAll
  obtain h | h := h
  · rw [h]
    split <;> rfl
  · rw [h]

theorem aside_passFades (w : World) (dt : Binary32) : Aside w (w.passFades dt) :=
  ⟨rfl, rfl, List.prefix_append _ _⟩

theorem aside_passAlarms (w : World) (dt : Binary32) : Aside w (w.passAlarms dt) :=
  ⟨rfl, rfl, List.prefix_append _ _⟩

theorem Frame.aside (f : Frame w w') : Aside w w' :=
  ⟨f.dialogs, f.interface, f.notices ▸ List.prefix_refl _⟩

theorem aside_passCommand (dt : Binary32) (w : World) (actor : Handle) :
    Aside w (passCommand dt w actor).2 := by
  obtain he | ⟨c, -, he | ⟨ending, -, he⟩⟩ := world_passCommand dt w actor <;> rw [he]
  · exact .refl w
  · exact (w.frame_progress actor c.errand dt).aside
  · refine (w.frame_progress actor c.errand dt).aside.trans (Aside.trans ?_ (aside_notify _ _ _))
    exact ⟨rfl, rfl, List.prefix_refl _⟩

/-- What comes after the dialogs as time passes leaves them alone. -/
theorem aside_advance (w : World) (dt : Binary32) : Aside w.answerAll (w.advance dt).2 :=
  advance_rel .refl .trans (aside_passCommand dt) (aside_passFades · dt)
    (fun _ => ⟨rfl, rfl, List.prefix_refl _⟩) (aside_passAlarms · dt) w

/-! ### Calls -/

def Call.IsTimely : Call → Prop
  | advance _ | answer _ | setAutoAnswer _ | setPaused _ => True
  | add _ | equip .. | setActionPoints .. | setInterface _ | change _ | issue .. | setAlarm ..
  | cancelAlarm _ | forget _ | drain => False

def choice? (w : World) : Call → Option Binary32
  | .answer choice => some choice
  | .advance _ => w.autoAnswer
  | _ => none

theorem closes_call (h : w.Modal) (hd : w.dialogs = [d]) {c : Call}
    (hchoice : w.choice? c = some choice) : Closes w d choice (w.call c) := by
  cases c with
  | answer choice' =>
    obtain rfl : choice' = choice := Option.some.inj hchoice
    obtain ⟨w', ha, hcloses⟩ := closes_answer? h hd choice'
    rw [call, ha]
    exact hcloses
  | advance dt => exact (closes_answerAll h hd hchoice).trans (aside_advance w dt)
  | _ => cases hchoice

theorem aside_call {c : Call} (hc : c.IsTimely) (h : w.dialogs = [] ∨ w.choice? c = none) :
    Aside w (w.call c) := by
  cases c with
  | answer choice =>
    have hnone : w.dialogs = [] := h.resolve_right (by simp [choice?])
    rw [call, answer?_eq_none hnone]
    exact .refl w
  | advance dt =>
    have hafter := aside_advance w dt
    rwa [answerAll_eq_self h] at hafter
  | setAutoAnswer choice => exact ⟨rfl, rfl, List.prefix_refl _⟩
  | setPaused paused =>
    simp only [call, setPaused]
    split
    · exact .refl w
    · exact ⟨rfl, rfl, List.prefix_append _ _⟩
  | add | equip | setActionPoints | setInterface | change | issue | setAlarm | cancelAlarm | forget
  | drain => exact hc.elim

theorem speech_call (h : w.Modal) {c : Call} (hc : c.IsTimely) :
    Aside w (w.call c) ∨ ∃ d choice, w.choice? c = some choice ∧ Closes w d choice (w.call c) := by
  obtain hnone | ⟨d, hd⟩ := h.cases
  · exact .inl (aside_call hc (.inl hnone))
  · cases hchoice : w.choice? c with
    | none => exact .inl (aside_call hc (.inr hchoice))
    | some choice => exact .inr ⟨d, choice, rfl, closes_call h hd hchoice⟩

end

end WorldScript.World
