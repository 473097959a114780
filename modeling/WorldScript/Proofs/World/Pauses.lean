import WorldScript.Proofs.World.CarriersInTime

/-!
The pause of a world. Only a call for it sets the flag, which is reported whenever it changes, and
while it is set nothing comes to its end but dialogs and fades.

Main statements: `steady_call` and `advance_of_paused`.
-/
set_option autoImplicit false

namespace WorldScript

def Notice.IsCompletion : Notice → Prop
  | .alarmFired _ | .commandFinished .. => True
  | .commandDisqualified .. | .windowClosed .. | .entityDestroyed _ | .worldPaused _ => False

namespace World

/-- The flag is as it was and not reported on. Nothing has come to its end in a paused world, except
for dialogs and fades. -/
structure Steady (w w' : World) : Prop where
  paused : w'.isPaused = w.isPaused
  notices : ∃ more, w'.notices = w.notices ++ more ∧ (∀ b, .worldPaused b ∉ more) ∧
    (w.isPaused = true → ∀ n ∈ more, ¬n.IsCompletion)

section

variable {w w₁ w' : World}

theorem steady_of_eq (hpaused : w'.isPaused = w.isPaused) (hnotices : w'.notices = w.notices) :
    Steady w w' :=
  ⟨hpaused, [], by simp [hnotices], by simp, by simp⟩

theorem Steady.refl (w : World) : Steady w w := steady_of_eq rfl rfl

theorem Steady.trans (k : Steady w w₁) (k' : Steady w₁ w') : Steady w w' := by
  obtain ⟨more, hmore, hnot, hstill⟩ := k.notices
  obtain ⟨more', hmore', hnot', hstill'⟩ := k'.notices
  refine ⟨k'.paused.trans k.paused, more ++ more', by rw [hmore', hmore, List.append_assoc],
    fun b hb => ?_, fun hw => ?_⟩
  · exact (List.mem_append.1 hb).elim (hnot b) (hnot' b)
  · rw [List.forall_mem_append]
    exact ⟨hstill hw, hstill' (k.paused.trans hw)⟩

/-! ### Changes and requests -/

theorem steady_notify (w : World) (token : Option Token) {n : Token → Notice}
    (hn : ∀ t, (∀ b, n t ≠ .worldPaused b) ∧ (w.isPaused = true → ¬(n t).IsCompletion)) :
    Steady w (w.notify token n) := by
  cases token with
  | none => exact .refl w
  | some t =>
    refine ⟨rfl, [n t], rfl, fun b hb => ?_, fun hw m hm => ?_⟩
    · exact (hn t).1 b (List.mem_singleton.1 hb).symm
    · rw [List.mem_singleton.1 hm]
      exact (hn t).2 hw

theorem steady_destroy (w : World) (h : Handle) : Steady w (w.destroy h) := by
  unfold destroy
  split
  · exact ⟨rfl, [.entityDestroyed h], rfl, by simp, by simp [Notice.IsCompletion]⟩
  · exact .refl w

theorem steady_change (w : World) (c : Change) : Steady w (w.change c) := by
  cases c with
  | destroy h => exact steady_destroy w h
  | setHitPoints | setWallOpen | setAlignment | startCombat | endCombat | print | message =>
    exact steady_of_eq rfl rfl

theorem steady_command (w : World) (actor : Handle) (c : Command) :
    Steady w (w.command actor c) := by
  have hwrite : Steady w { w with commands := w.commands.insert actor c } := steady_of_eq rfl rfl
  exact hwrite.trans (steady_notify _ _ fun t => ⟨by simp, fun _ => id⟩)

theorem steady_issue (w : World) (r : Request) (notify : Option Token) :
    Steady w (w.issue r notify) := by
  cases r with
  | walk actor x y => exact steady_command w actor _
  | strike actor target => exact steady_command w actor _
  | talk actor text =>
    have hprint : Steady w (w.print (w.speakerName actor ++ ": " ++ text)) := steady_of_eq rfl rfl
    exact hprint.trans (steady_command _ actor _)
  | dialog text | fade seconds => exact steady_of_eq rfl rfl

theorem steady_start (w : World) (task : Task) (t : Token) : Steady w (task.start w t) := by
  cases task with
  | alarm seconds => exact steady_of_eq rfl rfl
  | request r => exact steady_issue w r (some t)

theorem steady_withdraw (w : World) (t : Token) (kind : WaitKind) :
    Steady w (Machine.withdraw w t kind) := by
  cases kind <;> exact steady_of_eq rfl rfl

/-! ### Time -/

theorem steady_answer? {choice : Binary32} (h : w.answer? choice = some w') : Steady w w' := by
  unfold answer? at h
  cases hd : w.dialogs with
  | nil => simp [hd] at h
  | cons d rest =>
    simp only [hd, Option.some.injEq] at h
    have hrest : Steady w { w with dialogs := rest } := steady_of_eq rfl rfl
    have hclose : Steady w (({ w with dialogs := rest } : World).notify d.notify
        fun t => .windowClosed t (some (.number choice))) :=
      hrest.trans (steady_notify _ _ fun t => ⟨by simp, fun _ => id⟩)
    rw [← h]
    split
    · exact hclose.trans (steady_of_eq rfl rfl)
    · exact hclose

theorem steady_answerEach (choice : Binary32) (n : Nat) (w : World) :
    Steady w (answerEach choice n w) := by
  induction n generalizing w with
  | zero => exact .refl w
  | succ n ih =>
    unfold answerEach
    split
    case h_1 w₁ h => exact (steady_answer? h).trans (ih w₁)
    case h_2 => exact .refl w

theorem steady_answerAll (w : World) : Steady w w.answerAll := by
  unfold answerAll
  split
  · exact steady_answerEach _ _ w
  · exact .refl w

theorem steady_passFades (w : World) (dt : Binary32) : Steady w (w.passFades dt) := by
  refine ⟨rfl, _, rfl, by simp, fun _ n hn => ?_⟩
  obtain ⟨t, -, rfl⟩ := List.mem_map.1 hn
  exact id

theorem Frame.steady (f : Frame w w') : Steady w w' := steady_of_eq f.isPaused f.notices

theorem steady_passCommand (dt : Binary32) (actor : Handle) (hw : w.isPaused = false) :
    Steady w (passCommand dt w actor).2 := by
  obtain he | ⟨c, -, he | ⟨ending, -, he⟩⟩ := world_passCommand dt w actor <;> rw [he]
  · exact .refl w
  · exact (w.frame_progress actor c.errand dt).steady
  · have hprogress := (w.frame_progress actor c.errand dt).steady
    refine hprogress.trans (Steady.trans ?_ (steady_notify _ _ fun t => ⟨?_, fun hpaused => ?_⟩))
    · exact steady_of_eq rfl rfl
    · cases ending <;> simp [Ending.notice]
    · exact absurd ((hprogress.paused.trans hw).symm.trans hpaused) (by simp)

theorem steady_passCommands (dt : Binary32) (hw : w.isPaused = false) :
    Steady w (w.passCommands dt).2 := by
  let R (w w' : World) := w.isPaused = false → Steady w w'
  have htrans : ∀ {w w₁ w'}, R w w₁ → R w₁ w' → R w w' :=
    fun h h' hw => (h hw).trans (h' ((h hw).paused.trans hw))
  exact passEach_rel (R := R) (fun w _ => .refl w) htrans
    (fun _ actor hw => steady_passCommand dt actor hw) _ w hw

theorem steady_passAlarms (dt : Binary32) (hw : w.isPaused = false) : Steady w (w.passAlarms dt) :=
  ⟨rfl, _, rfl, by simp, by simp [hw]⟩

theorem steady_advance (w : World) (dt : Binary32) : Steady w (w.advance dt).2 := by
  have hwindows : Steady w (w.answerAll.passFades dt) :=
    (steady_answerAll w).trans (steady_passFades _ dt)
  unfold advance
  dsimp only
  split
  case isTrue => exact hwindows
  case isFalse hpaused =>
    have hrunning : (w.answerAll.passFades dt).isPaused = false := by simpa using hpaused
    have hclock : Steady (w.answerAll.passFades dt)
        { w.answerAll.passFades dt with clock := (w.answerAll.passFades dt).clock.add dt } :=
      steady_of_eq rfl rfl
    have halarms := steady_passAlarms (w := { w.answerAll.passFades dt with
      clock := (w.answerAll.passFades dt).clock.add dt }) dt hrunning
    exact hwindows.trans (hclock.trans (halarms.trans
      (steady_passCommands dt (halarms.paused.trans hrunning))))

/-! ### Calls -/

theorem steady_call (w : World) {c : Call} (hpause : ∀ b, c ≠ .setPaused b) (hdrain : c ≠ .drain) :
    Steady w (w.call c) := by
  cases c with
  | setPaused b => exact absurd rfl (hpause b)
  | drain => exact absurd rfl hdrain
  | equip h slot item =>
    simp only [call, equip?]
    split
    · exact steady_of_eq rfl rfl
    · exact .refl w
  | answer choice =>
    simp only [call]
    cases ha : w.answer? choice with
    | none => exact .refl w
    | some w' => exact steady_answer? ha
  | advance dt => exact steady_advance w dt
  | change c => exact steady_change w c
  | issue r notify => exact steady_issue w r notify
  | add | setActionPoints | setInterface | setAutoAnswer | setAlarm | cancelAlarm | forget =>
    exact steady_of_eq rfl rfl

theorem setPaused_cases (w : World) (b : Bool) :
    w.isPaused = b ∧ w.setPaused b = w ∨
      w.setPaused b = { w with isPaused := b, notices := w.notices ++ [.worldPaused b] } := by
  unfold setPaused
  split
  case isTrue h => exact .inl ⟨h, rfl⟩
  case isFalse => exact .inr rfl

/-- The clock, everyone and everything they do, and all alarms are as they were. -/
structure Still (w w' : World) : Prop where
  clock : w'.clock = w.clock
  entities : w'.entities = w.entities
  alarms : w'.alarms = w.alarms
  commands : w'.commands = w.commands

theorem Still.refl (w : World) : Still w w := ⟨rfl, rfl, rfl, rfl⟩

theorem Still.trans (k : Still w w₁) (k' : Still w₁ w') : Still w w' :=
  ⟨k'.clock.trans k.clock, k'.entities.trans k.entities, k'.alarms.trans k.alarms,
    k'.commands.trans k.commands⟩

end

end World

end WorldScript
