import WorldScript.Proofs.World.Accounts
import WorldScript.Proofs.World.Destructions
import WorldScript.Proofs.World.Pauses

/-!
The commands of a world. Everybody has at most one, which the next one replaces, and what is done at
once ends commands in no other way than by giving new ones or destroying who acts.

Main statements: `commandToken?_issue`, `disqualified_issue` and `goesOn_call`.
-/
set_option autoImplicit false

namespace WorldScript

/-- The token under which the command of an entity will report. -/
def World.commandToken? (w : World) (h : Handle) : Option Token :=
  (w.commands.get? h).bind Command.notify

def Handle.newCommandText (h : Handle) : String := h.text ++ " received a new command"

namespace World

/-- No time passes: no alarm and no command comes to its end. -/
def AtOnce (w w' : World) : Prop :=
  ∃ more, w'.notices = w.notices ++ more ∧ ∀ n ∈ more, ¬n.IsCompletion

/-- Unless it is destroyed, an entity goes on with its command. -/
def GoesOn (h : Handle) (w w' : World) : Prop :=
  (w.entities.contains h = true → w'.entities.contains h = true) →
    w'.commandToken? h = w.commandToken? h

section

variable {w w₁ w' : World} {h g : Handle} {t : Token}

theorem atOnce_of_eq (hnotices : w'.notices = w.notices) : AtOnce w w' :=
  ⟨[], by simp [hnotices], by simp⟩

theorem goesOn_of_eq (hcommands : w'.commands = w.commands) : GoesOn h w w' := by
  intro _
  rw [commandToken?, hcommands, commandToken?]

/-! ### Commands -/

@[simp] theorem commandToken?_notify (w : World) (token : Option Token) (n : Token → Notice)
    (h : Handle) : (w.notify token n).commandToken? h = w.commandToken? h := by
  cases token <;> rfl

theorem commandToken?_command (w : World) (actor : Handle) (c : Command) (h : Handle) :
    (w.command actor c).commandToken? h = if actor = h then c.notify else w.commandToken? h := by
  rw [command, commandToken?_notify, commandToken?, OrderedMap.get?_insert]
  split <;> rfl

theorem disqualified_command (c : Command) (ht : w.commandToken? h = some t) :
    .commandDisqualified t h.newCommandText ∈ (w.command h c).notices := by
  rw [command, notices_notify]
  refine List.mem_append_right _ (Option.mem_toList.2 (Option.map_eq_some_iff.2 ⟨t, ht, rfl⟩))

theorem atOnce_notify (w : World) (token : Option Token) {n : Token → Notice}
    (hn : ∀ t, ¬(n t).IsCompletion) : AtOnce w (w.notify token n) := by
  refine ⟨_, notices_notify w token n, fun n' hn' => ?_⟩
  rw [Option.mem_toList, Option.map_eq_some_iff] at hn'
  obtain ⟨t, -, rfl⟩ := hn'
  exact hn t

theorem atOnce_command (w : World) (actor : Handle) (c : Command) : AtOnce w (w.command actor c) :=
  atOnce_notify { w with commands := w.commands.insert actor c } _ fun _ => id

theorem commandToken?_issue (w : World) (r : Request) (notify : Option Token) (h : Handle) :
    (w.issue r notify).commandToken? h =
      if (Task.request r).watched = some h then notify else w.commandToken? h := by
  cases r with
  | walk actor x y => simp [issue, commandToken?_command, Task.watched]
  | strike actor target => simp [issue, commandToken?_command, Task.watched]
  | talk actor text =>
    have hprint : (w.print (w.speakerName actor ++ ": " ++ text)).commandToken? h =
        w.commandToken? h := rfl
    simp [issue, commandToken?_command, Task.watched, hprint]
  | dialog text | fade seconds => rfl

theorem disqualified_issue {r : Request} (hr : (Task.request r).watched = some h)
    (notify : Option Token) (ht : w.commandToken? h = some t) :
    .commandDisqualified t h.newCommandText ∈ (w.issue r notify).notices := by
  cases r with
  | walk actor x y =>
    obtain rfl : actor = h := Option.some.inj hr
    exact disqualified_command _ ht
  | strike actor target =>
    obtain rfl : actor = h := Option.some.inj hr
    exact disqualified_command _ ht
  | talk actor text =>
    obtain rfl : actor = h := Option.some.inj hr
    exact disqualified_command (w := w.print (w.speakerName actor ++ ": " ++ text)) _ ht
  | dialog text | fade seconds => cases hr

theorem atOnce_issue (w : World) (r : Request) (notify : Option Token) :
    AtOnce w (w.issue r notify) := by
  cases r with
  | walk actor x y => exact atOnce_command w actor _
  | strike actor target => exact atOnce_command w actor _
  | talk actor text =>
    exact atOnce_command (w.print (w.speakerName actor ++ ": " ++ text)) actor _
  | dialog text | fade seconds => exact atOnce_of_eq rfl

theorem commandToken?_start (w : World) (task : Task) (t : Token) (h : Handle) :
    (task.start w t).commandToken? h =
      if task.watched = some h then some t else w.commandToken? h := by
  cases task with
  | alarm seconds => rfl
  | request r => exact commandToken?_issue w r (some t) h

theorem atOnce_start (w : World) (task : Task) (t : Token) : AtOnce w (task.start w t) := by
  cases task with
  | alarm seconds => exact atOnce_of_eq rfl
  | request r => exact atOnce_issue w r (some t)

/-! ### Changes -/

theorem goesOn_destroy (w : World) (g h : Handle) : GoesOn h w (w.destroy g) := by
  intro hstays
  by_cases hg : w.entities.contains g = true
  case neg => rw [destroy, if_neg hg]
  case pos =>
    have hne : g ≠ h := by
      rintro rfl
      have hgone := hstays hg
      rw [(destroy_of_contains hg).2 g] at hgone
      simp at hgone
    rw [destroy, if_pos hg]
    simp [commandToken?, emit, OrderedMap.get?_erase, hne]

theorem atOnce_destroy (w : World) (g : Handle) : AtOnce w (w.destroy g) := by
  unfold destroy
  split
  · exact ⟨[.entityDestroyed g], rfl, by simp [Notice.IsCompletion]⟩
  · exact atOnce_of_eq rfl

theorem goesOn_change (w : World) (c : Change) (h : Handle) : GoesOn h w (w.change c) := by
  cases c with
  | destroy g => exact goesOn_destroy w g h
  | setHitPoints | setWallOpen | setAlignment | startCombat | endCombat | print | message =>
    exact goesOn_of_eq rfl

theorem atOnce_change (w : World) (c : Change) : AtOnce w (w.change c) := by
  cases c with
  | destroy g => exact atOnce_destroy w g
  | setHitPoints | setWallOpen | setAlignment | startCombat | endCombat | print | message =>
    exact atOnce_of_eq rfl

/-! ### Calls -/

/-- The calls with which no time passes, and that leave tokens and notices to the scripts. -/
def Call.IsImmediate (c : Call) : Prop := c.IsPlain ∧ ∀ dt, c ≠ .advance dt

theorem commands_answer? {choice : Binary32} (ha : w.answer? choice = some w') :
    w'.commands = w.commands ∧ AtOnce w w' := by
  unfold answer? at ha
  cases hd : w.dialogs with
  | nil => simp [hd] at ha
  | cons d rest =>
    simp only [hd, Option.some.injEq] at ha
    have hclose : AtOnce w (({ w with dialogs := rest } : World).notify d.notify
        fun t => .windowClosed t (some (.number choice))) :=
      atOnce_notify { w with dialogs := rest } _ fun _ => id
    have hcommands : (({ w with dialogs := rest } : World).notify d.notify
        fun t => .windowClosed t (some (.number choice))).commands = w.commands := by
      cases d.notify <;> rfl
    rw [← ha]
    split
    · exact ⟨hcommands, hclose⟩
    · exact ⟨hcommands, hclose⟩

theorem atOnce_call (w : World) {c : Call} (hc : c.IsImmediate) : AtOnce w (w.call c) := by
  obtain ⟨hplain, hadvance⟩ := hc
  cases c with
  | setAlarm | cancelAlarm | forget | drain => exact hplain.elim
  | advance dt => exact absurd rfl (hadvance dt)
  | equip g slot item =>
    simp only [call, equip?]
    split <;> exact atOnce_of_eq rfl
  | setPaused paused =>
    simp only [call, setPaused]
    split
    · exact atOnce_of_eq rfl
    · exact ⟨[.worldPaused paused], rfl, by simp [Notice.IsCompletion]⟩
  | answer choice =>
    simp only [call]
    cases ha : w.answer? choice with
    | none => exact atOnce_of_eq rfl
    | some w' => exact (commands_answer? ha).2
  | change c => exact atOnce_change w c
  | issue r notify => exact atOnce_issue w r notify
  | add | setActionPoints | setInterface | setAutoAnswer => exact atOnce_of_eq rfl

theorem goesOn_call (w : World) {c : Call} (hc : c.IsImmediate)
    (hissue : ∀ r notify, c = .issue r notify → (Task.request r).watched ≠ some h) :
    GoesOn h w (w.call c) := by
  obtain ⟨hplain, hadvance⟩ := hc
  cases c with
  | setAlarm | cancelAlarm | forget | drain => exact hplain.elim
  | advance dt => exact absurd rfl (hadvance dt)
  | equip g slot item =>
    simp only [call, equip?]
    split <;> exact goesOn_of_eq rfl
  | setPaused paused =>
    simp only [call, setPaused]
    split <;> exact goesOn_of_eq rfl
  | answer choice =>
    simp only [call]
    cases ha : w.answer? choice with
    | none => exact goesOn_of_eq rfl
    | some w' => exact goesOn_of_eq (commands_answer? ha).1
  | change c => exact goesOn_change w c h
  | issue r notify =>
    intro _
    rw [call, commandToken?_issue, if_neg (hissue r notify rfl)]
  | add | setActionPoints | setInterface | setAutoAnswer => exact goesOn_of_eq rfl

/-! ### Tokens of commands -/

theorem mem_reports {notices : List Notice} {n : Notice} {e : WaitKind × Token} (hn : n ∈ notices)
    (he : n.account? = some e) : e ∈ reports notices :=
  List.mem_filterMap.2 ⟨n, hn, he⟩

theorem mem_promised_of_commandToken? (ht : w.commandToken? h = some t) :
    (WaitKind.command, t) ∈ w.promised := by
  obtain ⟨c, hc, hnotify⟩ := Option.bind_eq_some_iff.1 ht
  have hperm := commandTokens_erase hc
  refine mem_promised.2 (hperm.mem_iff.2 ?_)
  simp [hnotify]

/-- A command whose token is with it has not been reported on. -/
theorem not_reported_of_commandToken? (hdistinct : w.standing.Nodup)
    (ht : w.commandToken? h = some t) : (WaitKind.command, t) ∉ reports w.notices := by
  intro hreported
  have hpromised := mem_promised_of_commandToken? ht
  exact (List.nodup_append.1 hdistinct).2.2 _ hpromised _ hreported rfl

end

end World

end WorldScript
