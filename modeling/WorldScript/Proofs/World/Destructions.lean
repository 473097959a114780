import WorldScript.Proofs.World.CarriersInTime

/-!
Who is in the world, and which destructions it reports. An entity leaves the world by its
destruction alone, which is reported once and at the end of what nobody has taken yet.

Main statements: `calm_call` and `destroy_of_contains`.
-/
set_option autoImplicit false

namespace WorldScript.World

/-- The same entities are still there, and nothing that was reported since is a destruction. -/
structure Calm (w w' : World) : Prop where
  present : w'.entities.keys = w.entities.keys
  notices : ∃ more, w'.notices = w.notices ++ more ∧ ∀ h, .entityDestroyed h ∉ more

section

variable {w w₁ w' : World}

theorem calm_of_eq (hpresent : w'.entities.keys = w.entities.keys)
    (hnotices : w'.notices = w.notices) : Calm w w' :=
  ⟨hpresent, [], by simp [hnotices], by simp⟩

theorem Calm.refl (w : World) : Calm w w := calm_of_eq rfl rfl

theorem Calm.trans (k : Calm w w₁) (k' : Calm w₁ w') : Calm w w' := by
  obtain ⟨more, hmore, hnot⟩ := k.notices
  obtain ⟨more', hmore', hnot'⟩ := k'.notices
  refine ⟨k'.present.trans k.present, more ++ more', by rw [hmore', hmore, List.append_assoc], ?_⟩
  intro h hmem
  exact (List.mem_append.1 hmem).elim (hnot h) (hnot' h)

theorem Calm.contains (k : Calm w w') (h : Handle) :
    w'.entities.contains h = w.entities.contains h := by
  rw [Bool.eq_iff_iff, OrderedMap.contains_iff_mem_keys, OrderedMap.contains_iff_mem_keys,
    k.present]

theorem Frame.calm (f : Frame w w') : Calm w w' := calm_of_eq f.present f.notices

/-! ### Changes and requests -/

theorem calm_notify (w : World) (token : Option Token) {n : Token → Notice}
    (hn : ∀ t h, n t ≠ .entityDestroyed h) : Calm w (w.notify token n) := by
  refine ⟨by cases token <;> rfl, _, notices_notify w token n, ?_⟩
  intro h hmem
  rw [Option.mem_toList, Option.map_eq_some_iff] at hmem
  obtain ⟨t, -, ht⟩ := hmem
  exact hn t h ht

theorem calm_modify (w : World) (h : Handle) (f : Entity → Entity) : Calm w (w.modify h f) :=
  (moves_modify w h f).frame.calm

theorem calm_change (w : World) {c : Change} (hc : ∀ h, c ≠ .destroy h) : Calm w (w.change c) := by
  cases c with
  | setHitPoints | setWallOpen | setAlignment => exact calm_modify w _ _
  | destroy h => exact absurd rfl (hc h)
  | startCombat | endCombat | print | message => exact calm_of_eq rfl rfl

theorem calm_command (w : World) (actor : Handle) (c : Command) : Calm w (w.command actor c) := by
  have hwrite : Calm w { w with commands := w.commands.insert actor c } := calm_of_eq rfl rfl
  exact hwrite.trans (calm_notify _ _ (by simp))

theorem calm_issue (w : World) (r : Request) (notify : Option Token) :
    Calm w (w.issue r notify) := by
  cases r with
  | walk actor x y => exact calm_command w actor _
  | strike actor target => exact calm_command w actor _
  | talk actor text =>
    have hprint : Calm w (w.print (w.speakerName actor ++ ": " ++ text)) := calm_of_eq rfl rfl
    exact hprint.trans (calm_command _ actor _)
  | dialog text | fade seconds => exact calm_of_eq rfl rfl

theorem calm_start (w : World) (task : Task) (t : Token) : Calm w (task.start w t) := by
  cases task with
  | alarm seconds => exact calm_of_eq rfl rfl
  | request r => exact calm_issue w r (some t)

theorem calm_withdraw (w : World) (t : Token) (kind : WaitKind) :
    Calm w (Machine.withdraw w t kind) := by
  cases kind <;> exact calm_of_eq rfl rfl

/-! ### Time -/

theorem calm_answer? {choice : Binary32} (h : w.answer? choice = some w') : Calm w w' := by
  unfold answer? at h
  cases hd : w.dialogs with
  | nil => simp [hd] at h
  | cons d rest =>
    simp only [hd, Option.some.injEq] at h
    have hrest : Calm w { w with dialogs := rest } := calm_of_eq rfl rfl
    have hclose : Calm w (({ w with dialogs := rest } : World).notify d.notify
        fun t => .windowClosed t (some (.number choice))) :=
      hrest.trans (calm_notify _ _ (by simp))
    rw [← h]
    split
    · exact hclose.trans (calm_of_eq rfl rfl)
    · exact hclose

theorem calm_answerEach (choice : Binary32) (n : Nat) (w : World) :
    Calm w (answerEach choice n w) := by
  induction n generalizing w with
  | zero => exact .refl w
  | succ n ih =>
    unfold answerEach
    split
    case h_1 w₁ h => exact (calm_answer? h).trans (ih w₁)
    case h_2 => exact .refl w

theorem calm_answerAll (w : World) : Calm w w.answerAll := by
  unfold answerAll
  split
  · exact calm_answerEach _ _ w
  · exact .refl w

theorem calm_passFades (w : World) (dt : Binary32) : Calm w (w.passFades dt) :=
  ⟨rfl, _, rfl, by simp⟩

theorem calm_passAlarms (w : World) (dt : Binary32) : Calm w (w.passAlarms dt) :=
  ⟨rfl, _, rfl, by simp⟩

theorem calm_passCommand (dt : Binary32) (w : World) (actor : Handle) :
    Calm w (passCommand dt w actor).2 := by
  obtain he | ⟨c, -, he | ⟨ending, -, he⟩⟩ := world_passCommand dt w actor <;> rw [he]
  · exact .refl w
  · exact (w.frame_progress actor c.errand dt).calm
  · refine (w.frame_progress actor c.errand dt).calm.trans (Calm.trans ?_ (calm_notify _ _ ?_))
    · exact calm_of_eq rfl rfl
    · cases ending <;> simp [Ending.notice]

theorem calm_advance (w : World) (dt : Binary32) : Calm w (w.advance dt).2 :=
  (calm_answerAll w).trans (advance_rel .refl .trans (calm_passCommand dt) (calm_passFades · dt)
    (fun _ => calm_of_eq rfl rfl) (calm_passAlarms · dt) w)

/-! ### Calls -/

/-- The calls that neither put an entity into the world nor take one out, and take no notices. -/
def Call.IsCalm : Call → Prop
  | add _ | change (.destroy _) | drain => False
  | equip .. | setActionPoints .. | setInterface _ | setPaused _ | setAutoAnswer _ | answer _
  | advance _ | change _ | issue .. | setAlarm .. | cancelAlarm _ | forget _ => True

theorem calm_call (w : World) {c : Call} (hc : c.IsCalm) : Calm w (w.call c) := by
  cases c with
  | add | drain => exact hc.elim
  | equip h slot item =>
    simp only [call, equip?]
    split
    · exact calm_modify w _ _
    · exact .refl w
  | setActionPoints h points => exact calm_modify w _ _
  | setPaused paused =>
    simp only [call, setPaused]
    split
    · exact .refl w
    · exact ⟨rfl, [.worldPaused paused], rfl, by simp⟩
  | answer choice =>
    simp only [call]
    cases ha : w.answer? choice with
    | none => exact .refl w
    | some w' => exact calm_answer? ha
  | advance dt => exact calm_advance w dt
  | change c =>
    refine calm_change w ?_
    rintro h rfl
    exact hc.elim
  | issue r notify => exact calm_issue w r notify
  | setInterface | setAutoAnswer | setAlarm | cancelAlarm | forget => exact calm_of_eq rfl rfl

/-! ### Destruction -/

theorem destroy_of_not_contains {h : Handle} (hh : w.entities.contains h = false) :
    w.destroy h = w := by
  simp [destroy, hh]

/-- Who is destroyed is reported, and nobody else leaves. -/
theorem destroy_of_contains {h : Handle} (hh : w.entities.contains h = true) :
    (w.destroy h).notices = w.notices ++ [.entityDestroyed h] ∧
      ∀ e, (w.destroy h).entities.contains e = (!decide (h = e) && w.entities.contains e) := by
  simp only [destroy, hh, if_true]
  refine ⟨rfl, fun e => ?_⟩
  simp only [emit, OrderedMap.contains, OrderedMap.get?_map, OrderedMap.get?_erase]
  by_cases he : h = e <;> simp [he]

theorem contains_add (w : World) (s : EntitySpec) (e : Handle) :
    (w.add s).entities.contains e = (decide (s.handle = e) || w.entities.contains e) := by
  simp only [add, OrderedMap.contains, OrderedMap.get?_insert]
  by_cases he : s.handle = e <;> simp [he]

end

end WorldScript.World
