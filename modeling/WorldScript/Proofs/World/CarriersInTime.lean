import WorldScript.Proofs.World.Carriers
import WorldScript.Proofs.World.Calls
import WorldScript.Proofs.World.Time

/-!
As time passes, requests turn into notices. No token is lost on the way, whatever a host asks of
the world, as long as it leaves tokens and notices alone.

Main statement: `keeps_call`.
-/
set_option autoImplicit false

namespace WorldScript.World

section

variable {w w₁ w' : World} {t : Token}

theorem keeps_answer? {choice : Binary32} (h : w.answer? choice = some w') : Keeps w w' := by
  unfold answer? at h
  cases hd : w.dialogs with
  | nil => simp [hd] at h
  | cons d rest =>
    simp only [hd, Option.some.injEq] at h
    have hclose : Keeps w (({ w with dialogs := rest } : World).notify d.notify
        fun t => .windowClosed t (some (.number choice))) := by
      refine keeps_close d.notify.toList
        (fun t => .windowClosed t (some (.number choice))) (by simp) (by simp) ?_
        (fun t => ⟨_, rfl⟩) ?_
      · rw [notices_notify]
        cases d.notify <;> simp
      · rw [windowTokens_notify]
        simp only [windowTokens, hd]
        cases hn : d.notify <;> simp [hn]
    rw [← h]
    split
    · exact hclose.trans (keeps_of_eq rfl rfl rfl rfl rfl)
    · exact hclose

theorem keeps_answerEach (choice : Binary32) (n : Nat) (w : World) :
    Keeps w (answerEach choice n w) := by
  induction n generalizing w with
  | zero => exact .refl w
  | succ n ih =>
    unfold answerEach
    split
    · rename_i w₁ h
      exact (keeps_answer? h).trans (ih w₁)
    · exact .refl w

theorem keeps_answerAll (w : World) : Keeps w w.answerAll := by
  unfold answerAll
  split
  · exact keeps_answerEach _ _ w
  · exact .refl w

theorem keeps_passFades (w : World) (dt : Binary32) : Keeps w (w.passFades dt) := by
  refine keeps_close _ (fun t => .windowClosed t none) rfl rfl rfl (fun t => ⟨_, rfl⟩) ?_
  have hsplit := List.filter_append_perm (fun f => isSpent f.remaining) (w.fades.map (fadeAfter dt))
  have hnotify := hsplit.filterMap Fade.notify
  rw [List.filterMap_append, List.filterMap_map] at hnotify
  have hsame : w.fades.filterMap (Fade.notify ∘ fadeAfter dt) = w.fades.filterMap Fade.notify := rfl
  rw [hsame] at hnotify
  simp only [windowTokens, passFades]
  refine (hnotify.symm.append_left _).trans ?_
  rw [← List.append_assoc, ← List.append_assoc]
  exact List.perm_append_comm.append_right _

theorem keeps_passAlarms (w : World) (dt : Binary32) : Keeps w (w.passAlarms dt) where
  rings := by
    rintro t - (h | h)
    · obtain ⟨seconds, hs⟩ := OrderedMap.mem_keys_iff.1 h
      cases hspent : isSpent (seconds.sub dt) with
      | false =>
        left
        simp [passAlarms, OrderedMap.mem_keys_filter, OrderedMap.get?_map, hs, hspent]
      | true =>
        right
        simp [passAlarms, OrderedMap.mem_keys_filter, OrderedMap.get?_map, hs, hspent]
    · exact .inr (List.mem_append_left _ h)
  pursues := by
    rintro t - g (h | ⟨result, h⟩ | ⟨reason, h⟩ | h)
    · exact .inl h
    · exact .inr (.inl ⟨result, List.mem_append_left _ h⟩)
    · exact .inr (.inr (.inl ⟨reason, List.mem_append_left _ h⟩))
    · exact .inr (.inr (.inr (List.mem_append_left _ h)))
  shows := by
    rintro t - (h | ⟨result, h⟩)
    · exact .inl h
    · exact .inr ⟨result, List.mem_append_left _ h⟩
  alarms := by
    intro t _ h
    simp only [passAlarms, OrderedMap.mem_keys_filter, OrderedMap.get?_map] at h
    obtain ⟨seconds, hs, hleft⟩ := h
    refine ⟨?_, ?_⟩
    · cases hw : w.alarms.get? t with
      | none => simp [hw] at hs
      | some r => exact OrderedMap.mem_keys_iff.2 ⟨r, hw⟩
    · intro hn
      rcases List.mem_append.1 hn with hn | hn
      · exact hn
      · simp only [List.mem_map, OrderedMap.mem_keys_filter, OrderedMap.get?_map] at hn
        obtain ⟨u, ⟨seconds', hs', hspent⟩, hu⟩ := hn
        cases hu
        rw [hs] at hs'
        cases hs'
        simp [hspent] at hleft
  fired := by
    intro t h
    rcases List.mem_append.1 h with h | h
    · exact .inl h
    · simp only [List.mem_map, OrderedMap.mem_keys_filter, OrderedMap.get?_map] at h
      obtain ⟨u, ⟨seconds, hs, -⟩, hu⟩ := h
      cases hu
      cases hw : w.alarms.get? t with
      | none => simp [hw] at hs
      | some r => exact .inr (OrderedMap.mem_keys_iff.2 ⟨r, hw⟩)
  windows t _ h := h

/-- Carrying on with a command leaves the commands under their tokens, and everyone who is there. -/
structure Frame (w w' : World) : Prop where
  present : w'.entities.keys = w.entities.keys
  alarms : w'.alarms = w.alarms
  dialogs : w'.dialogs = w.dialogs
  fades : w'.fades = w.fades
  notices : w'.notices = w.notices
  isPaused : w'.isPaused = w.isPaused
  interface : w'.interface = w.interface
  settings : w'.settings = w.settings
  commands : ∀ h, (w'.commands.get? h).map Command.notify = (w.commands.get? h).map Command.notify

theorem Moves.frame (h : Moves w w') : Frame w w' := by
  obtain ⟨entities, hkeys, rfl⟩ := h
  exact ⟨hkeys, rfl, rfl, rfl, rfl, rfl, rfl, rfl, fun _ => rfl⟩

theorem frame_progress (w : World) (actor : Handle) (errand : Errand) (dt : Binary32) :
    Frame w (w.progress actor errand dt).2 := by
  cases errand with
  | walk x y => exact (moves_walk w actor x y dt).frame
  | strike target => exact (moves_strike w actor target).frame
  | talk remaining =>
    simp only [progress, talk]
    split
    · exact (Moves.refl w).frame
    · refine ⟨rfl, rfl, rfl, rfl, rfl, rfl, rfl, rfl, ?_⟩
      intro h
      simp only [OrderedMap.get?_modify]
      split <;> cases w.commands.get? h <;> rfl

theorem Frame.command {h : Handle} {c : Command} (f : Frame w w')
    (hc : w.commands.get? h = some c) :
    ∃ c', w'.commands.get? h = some c' ∧ c'.notify = c.notify := by
  have hn := f.commands h
  rw [hc, Option.map_some, Option.map_eq_some_iff] at hn
  exact hn

theorem Frame.windowTokens (f : Frame w w') : w'.windowTokens = w.windowTokens := by
  simp only [World.windowTokens, f.dialogs, f.fades]

theorem keeps_finish {actor : Handle} {c : Command} (f : Frame w w₁)
    (hc : w.commands.get? actor = some c) (ending : Ending) :
    Keeps w (w₁.finish actor c ending) := by
  unfold finish
  refine keeps_of_append (c.notify.map ending.notice).toList ?_ ?_ ?_ ?_ ?_ ?_
  · rw [alarms_notify]
    exact f.alarms
  · rw [notices_notify]
    simp only [f.notices]
  · intro t
    cases ending <;> cases c.notify <;> simp [Ending.notice]
  · intro t h c' _ hc' hn
    by_cases ha : actor = h
    · subst ha
      obtain rfl : c = c' := Option.some.inj (hc.symm.trans hc')
      cases ending with
      | finished result => exact .inr (.inl ⟨result, by simp [hn, Ending.notice]⟩)
      | disqualified reason => exact .inr (.inr (.inl ⟨reason, by simp [hn, Ending.notice]⟩))
    · obtain ⟨c'', hc'', hn''⟩ := f.command hc'
      refine .inl ⟨c'', ?_, hn''.trans hn⟩
      simpa [OrderedMap.get?_erase, ha] using hc''
  · intro t _ h
    rw [Shows, windowTokens_notify]
    exact .inl (f.windowTokens ▸ h)
  · intro t _ h
    rw [windowTokens_notify] at h
    exact f.windowTokens ▸ h

theorem Frame.keeps (f : Frame w w') : Keeps w w' := by
  refine keeps_of_append [] f.alarms (by simp [f.notices]) (by simp) ?_ ?_ ?_
  · intro t h c _ hc hn
    obtain ⟨c', hc', hn'⟩ := f.command hc
    exact .inl ⟨c', hc', hn'.trans hn⟩
  · intro t _ h
    exact .inl (f.windowTokens ▸ h)
  · intro t _ h
    exact f.windowTokens ▸ h

theorem keeps_passCommand (dt : Binary32) (w : World) (actor : Handle) :
    Keeps w (passCommand dt w actor).2 := by
  obtain he | ⟨c, hc, he | ⟨ending, -, he⟩⟩ := world_passCommand dt w actor <;> rw [he]
  · exact .refl w
  · exact (w.frame_progress actor c.errand dt).keeps
  · exact keeps_finish (w.frame_progress actor c.errand dt) hc ending

theorem keeps_advance (w : World) (dt : Binary32) : Keeps w (w.advance dt).2 :=
  (keeps_answerAll w).trans (advance_rel .refl .trans (keeps_passCommand dt) (keeps_passFades · dt)
    (fun _ => keeps_of_eq rfl rfl rfl rfl rfl) (keeps_passAlarms · dt) w)

theorem keeps_call (w : World) {c : Call} (hc : c.IsPlain) : Keeps w (w.call c) := by
  cases c with
  | answer choice =>
    simp only [call]
    cases ha : w.answer? choice with
    | none => exact .refl w
    | some w' => exact keeps_answer? ha
  | advance dt => exact keeps_advance w dt
  | change c => exact keeps_change w c
  | issue r notify =>
    obtain rfl : notify = none := hc
    exact keeps_issue w r none
  | setPaused paused =>
    simp only [call, setPaused]
    split
    · exact .refl w
    · exact keeps_of_append [.worldPaused paused] rfl rfl (by simp)
        (fun _ _ c _ hc hn => .inl ⟨c, hc, hn⟩) (fun _ _ h => .inl h) (fun _ _ h => h)
  | equip h slot item =>
    simp only [call, equip?]
    split
    · exact keeps_of_eq rfl rfl rfl rfl rfl
    · exact .refl w
  | add | setActionPoints | setInterface | setAutoAnswer =>
    exact keeps_of_eq rfl rfl rfl rfl rfl
  | setAlarm | cancelAlarm | forget | drain => exact absurd hc id

end

end WorldScript.World
