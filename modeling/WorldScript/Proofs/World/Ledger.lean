import WorldScript.Proofs.World.Accounts

/-!
The world and its books. Beside the world a ledger keeps what has been given to it since it was
started, and what has been taken from it, so that the accounts of single calls add up.

Main statement: `every_token_is_accounted_for`.
-/
set_option autoImplicit false

namespace WorldScript

/-! ### Notices are only added -/

namespace World

variable {w w' : World}

theorem notices_destroy (w : World) (h : Handle) : w.notices <+: (w.destroy h).notices := by
  unfold destroy
  split
  · exact List.prefix_append _ _
  · exact List.prefix_refl _

theorem notices_command (w : World) (actor : Handle) (c : Command) :
    w.notices <+: (w.command actor c).notices := by
  rw [command, notices_notify]
  exact List.prefix_append _ _

theorem notices_answer? {choice : Binary32} (h : w.answer? choice = some w') :
    w.notices <+: w'.notices := by
  unfold answer? at h
  cases hd : w.dialogs with
  | nil => simp [hd] at h
  | cons d rest =>
    simp only [hd, Option.some.injEq] at h
    have hclose : w.notices <+: (({ w with dialogs := rest } : World).notify d.notify
        fun t => .windowClosed t (some (.number choice))).notices := by
      rw [notices_notify]
      exact List.prefix_append _ _
    rw [← h]
    split <;> exact hclose

theorem notices_answerEach (choice : Binary32) (n : Nat) (w : World) :
    w.notices <+: (answerEach choice n w).notices := by
  induction n generalizing w with
  | zero => exact List.prefix_refl _
  | succ n ih =>
    unfold answerEach
    split
    case h_1 w₁ h => exact (notices_answer? h).trans (ih w₁)
    case h_2 => exact List.prefix_refl _

theorem notices_passCommand (dt : Binary32) (w : World) (actor : Handle) :
    w.notices <+: (passCommand dt w actor).2.notices := by
  obtain he | ⟨c, -, he | ⟨ending, -, he⟩⟩ := world_passCommand dt w actor
  · simp only [he, List.prefix_rfl]
  · simp only [he, (w.frame_progress actor c.errand dt).notices, List.prefix_rfl]
  · rw [he, finish, notices_notify, ← (w.frame_progress actor c.errand dt).notices]
    exact List.prefix_append _ _

theorem notices_advance (w : World) (dt : Binary32) : w.notices <+: (w.advance dt).2.notices := by
  have hanswer : w.notices <+: w.answerAll.notices := by
    unfold answerAll
    split
    · exact notices_answerEach _ _ w
    · exact List.prefix_refl _
  exact hanswer.trans (advance_rel (R := fun w w' => w.notices <+: w'.notices)
    (fun _ => List.prefix_refl _) .trans (notices_passCommand dt) (fun _ => List.prefix_append _ _)
    (fun _ => List.prefix_refl _) (fun _ => List.prefix_append _ _) w)

theorem notices_call (w : World) (c : Call) :
    w.notices <+: w.taken c ++ (w.call c).notices := by
  cases c with
  | drain => exact List.prefix_append _ _
  | add s | setActionPoints h points | setInterface state | setAutoAnswer choice
  | setAlarm t seconds | cancelAlarm t | forget t =>
    exact List.prefix_refl _
  | equip h slot item =>
    simp only [call, equip?]
    split <;> exact List.prefix_refl _
  | setPaused paused =>
    simp only [call, setPaused]
    split
    · exact List.prefix_refl _
    · exact List.prefix_append _ _
  | answer choice =>
    simp only [call]
    cases ha : w.answer? choice with
    | none => exact List.prefix_refl _
    | some w' => exact notices_answer? ha
  | advance dt => exact w.notices_advance dt
  | change c =>
    cases c with
    | destroy h => exact w.notices_destroy h
    | setHitPoints | setWallOpen | setAlignment | startCombat | endCombat | print | message =>
      exact List.prefix_refl _
  | issue r notify =>
    cases r with
    | walk actor x y => exact w.notices_command actor ⟨.walk x y, notify⟩
    | strike actor target => exact w.notices_command actor ⟨.strike target, notify⟩
    | talk actor text =>
      exact notices_command (w.print (w.speakerName actor ++ ": " ++ text)) actor
        ⟨.talk w.settings.speechSeconds, notify⟩
    | dialog text | fade seconds => exact List.prefix_refl _

theorem destroyed_of_abandoned {c : Call} {e : Handle × Token} (he : e ∈ w.abandoned c) :
    .entityDestroyed e.1 ∈ (w.call c).notices := by
  unfold abandoned at he
  split at he
  case h_1 h =>
    split at he
    case isTrue hh =>
      obtain ⟨t, -, rfl⟩ := List.mem_map.1 he
      simp [call, World.change, destroy, hh, emit]
    case isFalse => cases he
  case h_2 => cases he

end World

/-! ### Ledgers -/

open World

/-- A world, with all that was given to it and all that was taken from it. -/
structure Ledger where
  world : World
  passed : List (WaitKind × Token) := []
  taken : List Notice := []
  withdrawn : List (WaitKind × Token) := []
  abandoned : List (Handle × Token) := []

namespace Ledger

def call (l : Ledger) (c : World.Call) : Ledger where
  world := l.world.call c
  passed := l.passed ++ c.passes
  taken := l.taken ++ l.world.taken c
  withdrawn := l.withdrawn ++ l.world.withdrawn c
  abandoned := l.abandoned ++ l.world.abandoned c

def calls (l : Ledger) (cs : List World.Call) : Ledger := cs.foldl call l

def emitted (l : Ledger) : List Notice := l.taken ++ l.world.notices

/-- What was given to the world is promised, reported, withdrawn or given up. -/
def Balanced (l : Ledger) : Prop :=
  l.passed.Perm (l.world.promised ++ reports l.emitted ++ l.withdrawn ++
    l.abandoned.map fun e => (.command, e.2))

variable {l : Ledger}

theorem emitted_call (l : Ledger) (c : World.Call) : l.emitted <+: (l.call c).emitted := by
  simp only [emitted, call, List.append_assoc]
  rw [List.prefix_append_right_inj]
  exact l.world.notices_call c

theorem emitted_calls (l : Ledger) (cs : List World.Call) : l.emitted <+: (l.calls cs).emitted := by
  induction cs generalizing l with
  | nil => exact List.prefix_refl _
  | cons c cs ih => exact (l.emitted_call c).trans (ih _)

theorem passed_calls (l : Ledger) (cs : List World.Call) :
    (l.calls cs).passed = l.passed ++ cs.flatMap World.Call.passes := by
  induction cs generalizing l with
  | nil => exact (List.append_nil _).symm
  | cons c cs ih => exact (ih _).trans (by simp [call])

theorem Balanced.call (h : l.Balanced) (c : World.Call)
    (hfresh : ∀ t ∈ c.passes.map Prod.snd, t ∉ l.passed.map Prod.snd) : (l.call c).Balanced := by
  have hcall := l.world.standing_call c <| by
    rintro t seconds rfl ht
    refine hfresh t (by simp [World.Call.passes]) ?_
    have hpromised : (WaitKind.alarm, t) ∈ l.world.promised := mem_promised.2 ht
    have hpassed : (WaitKind.alarm, t) ∈ l.passed := h.mem_iff.2 (by simp [hpromised])
    exact List.mem_map.2 ⟨_, hpassed, rfl⟩
  unfold Balanced at h ⊢
  rw [List.perm_iff_count] at h hcall ⊢
  intro e
  have he := h e
  have hc := hcall e
  simp only [Ledger.call, emitted, standing, reports_append, List.map_append, List.count_append]
    at he hc ⊢
  omega

theorem Balanced.calls (h : l.Balanced) (cs : List World.Call)
    (hfresh : ((l.passed ++ cs.flatMap World.Call.passes).map Prod.snd).Nodup) :
    (l.calls cs).Balanced := by
  induction cs generalizing l with
  | nil => exact h
  | cons c cs ih =>
    rw [List.flatMap_cons, ← List.append_assoc] at hfresh
    refine ih (h.call c ?_) hfresh
    have hfirst := hfresh.sublist ((List.sublist_append_left _ _).map Prod.snd)
    rw [List.map_append, List.nodup_append] at hfirst
    exact fun t ht ht' => hfirst.2.2 t ht' t ht rfl

theorem destroyed_calls (cs : List World.Call)
    (h : ∀ e ∈ l.abandoned, .entityDestroyed e.1 ∈ l.emitted) :
    ∀ e ∈ (l.calls cs).abandoned, .entityDestroyed e.1 ∈ (l.calls cs).emitted := by
  induction cs generalizing l with
  | nil => exact h
  | cons c cs ih =>
    refine ih fun e he => ?_
    obtain he | he := List.mem_append.1 he
    · exact (l.emitted_call c).subset (h e he)
    · exact List.mem_append_right _ (destroyed_of_abandoned he)

end Ledger

theorem balanced_start (settings : WorldSettings) (specs : List EntitySpec) :
    ({ world := World.start settings specs } : Ledger).Balanced := .refl _

/-- Each token that is given to the world is carried by one request, or reported once, or withdrawn,
or given up with a destruction that is reported; and just one of these. -/
theorem every_token_is_accounted_for (settings : WorldSettings) (specs : List EntitySpec)
    (calls : List World.Call) (l : Ledger)
    (hl : l = ({ world := World.start settings specs } : Ledger).calls calls)
    (hfresh : ((calls.flatMap World.Call.passes).map Prod.snd).Nodup) :
    (∀ t, (l.world.promised.map Prod.snd).count t + ((reports l.emitted).map Prod.snd).count t +
        (l.withdrawn.map Prod.snd).count t + (l.abandoned.map Prod.snd).count t =
          if t ∈ (calls.flatMap World.Call.passes).map Prod.snd then 1 else 0) ∧
      (∀ e ∈ l.abandoned, .entityDestroyed e.1 ∈ l.emitted) ∧
      (∀ n ∈ l.emitted, ∀ k t, n.account? = some (k, t) →
        (k, t) ∈ calls.flatMap World.Call.passes) ∧
      ∀ more, l.emitted <+: (l.calls more).emitted := by
  subst hl
  have hbalanced := (balanced_start settings specs).calls calls hfresh
  rw [Ledger.Balanced, Ledger.passed_calls, List.nil_append] at hbalanced
  refine ⟨?_, Ledger.destroyed_calls calls (by simp), ?_, Ledger.emitted_calls _⟩
  · intro t
    have hcount := (List.perm_iff_count.1 (hbalanced.map Prod.snd)) t
    rw [hfresh.count] at hcount
    simp only [List.map_append, List.map_map, List.count_append, Function.comp_def] at hcount
    exact hcount.symm
  · intro n hn k t hk
    refine hbalanced.mem_iff.2 ?_
    have hreport : (k, t) ∈ reports (Ledger.emitted _) := List.mem_filterMap.2 ⟨n, hn, hk⟩
    simp [hreport]

/-- A walk is broken off for a line, which ends with its speaker; of two alarms one is cancelled, a
dialog is answered, and a fade goes on. -/
def busyDay : List World.Call :=
  let actor : Handle := ⟨1⟩
  [.add { handle := actor, kind := .creature },
    .issue (.walk actor Binary32.one Binary32.one) (some ⟨1⟩),
    .issue (.talk actor "halt") (some ⟨2⟩), .setAlarm ⟨3⟩ Binary32.one,
    .setAlarm ⟨4⟩ Binary32.one, .cancelAlarm ⟨3⟩, .issue (.dialog "go on?") (some ⟨5⟩),
    .issue (.fade (Binary32.ofInt 3)) (some ⟨6⟩), .advance Binary32.one, .change (.destroy actor),
    .drain]

theorem every_token_is_accounted_for_busyDay :
    let l := ({ world := World.start {} [] } : Ledger).calls busyDay
    ((busyDay.flatMap World.Call.passes).map Prod.snd).Nodup ∧
      l.world.promised = [(.window, ⟨6⟩)] ∧
      reports l.emitted = [(.command, ⟨1⟩), (.window, ⟨5⟩), (.alarm, ⟨4⟩)] ∧
      l.withdrawn = [(.alarm, ⟨3⟩)] ∧ l.abandoned = [(⟨1⟩, ⟨2⟩)] ∧
      (∀ t, (l.world.promised.map Prod.snd).count t + ((reports l.emitted).map Prod.snd).count t +
        (l.withdrawn.map Prod.snd).count t + (l.abandoned.map Prod.snd).count t =
          if t ∈ (busyDay.flatMap World.Call.passes).map Prod.snd then 1 else 0) := by
  have hfresh : ((busyDay.flatMap World.Call.passes).map Prod.snd).Nodup := by decide
  exact ⟨hfresh, by decide, by decide, by decide, by decide,
    (every_token_is_accounted_for {} [] busyDay _ rfl hfresh).1⟩

end WorldScript
