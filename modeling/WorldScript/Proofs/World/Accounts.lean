import Mathlib.Data.List.Perm.Basic
import WorldScript.Proofs.World.CarriersInTime

/-!
The world accounts for tokens. A token that is given to it stays with one request until the world
reports under it, unless it is withdrawn or given up with its actor. No notice is about any other
token.

Main statement: `standing_call`.
-/
set_option autoImplicit false

namespace WorldScript

/-! ### Entries of a map -/

namespace OrderedMap

variable {κ α : Type} [DecidableEq κ]

theorem perm_erase {m : OrderedMap κ α} {k : κ} {a : α} (h : m.get? k = some a) :
    m.entries.Perm ((k, a) :: (m.erase k).entries) := by
  have hmem : (k, a) ∈ m.entries := get?_eq_some_iff.1 h
  have hsplit := List.filter_append_perm (fun e => decide (e.1 = k)) m.entries
  have hone : m.entries.filter (fun e => decide (e.1 = k)) = [(k, a)] := by
    have hat := m.filterMap_entries_at k fun b => some (k, b)
    rw [h] at hat
    rw [← List.filterMap_eq_filter]
    refine Eq.trans (List.filterMap_congr ?_) hat
    rintro ⟨j, b⟩ -
    by_cases hj : j = k
    · simp [hj]
    · simp [hj, Ne.symm hj]
  rw [hone] at hsplit
  simpa [erase] using hsplit.symm

theorem erase_insert (m : OrderedMap κ α) (k : κ) (a : α) : (m.insert k a).erase k = m.erase k := by
  apply ext
  obtain ⟨l, hl⟩ := m
  simp only [insert, erase]
  clear hl
  induction l with
  | nil => simp [write]
  | cons e l ih =>
    simp only [ne_eq, decide_not] at ih
    by_cases he : e.1 = k <;> simp [write, he, ih]

end OrderedMap

/-! ### Where tokens stand -/

/-- The token a notice is about, and the kind of wait it can end. -/
def Notice.account? : Notice → Option (WaitKind × Token)
  | .alarmFired t => some (.alarm, t)
  | .commandFinished t _ | .commandDisqualified t _ => some (.command, t)
  | .windowClosed t _ => some (.window, t)
  | .entityDestroyed _ | .worldPaused _ => none

namespace World

def carried (w : World) : WaitKind → List Token
  | .alarm => w.alarms.keys
  | .command => w.commands.values.filterMap Command.notify
  | .window => w.windowTokens

def promised (w : World) : List (WaitKind × Token) :=
  [WaitKind.alarm, .command, .window].flatMap fun k => (w.carried k).map (k, ·)

def reports (notices : List Notice) : List (WaitKind × Token) := notices.filterMap Notice.account?

/-- The reports that are still to come, and those that nobody has taken yet. -/
def standing (w : World) : List (WaitKind × Token) := w.promised ++ reports w.notices

section

variable {w w₁ w' : World} {k : WaitKind} {t : Token}

theorem mem_promised : (k, t) ∈ w.promised ↔ t ∈ w.carried k := by
  cases k <;> simp [promised]

theorem reports_append (l l' : List Notice) : reports (l ++ l') = reports l ++ reports l' :=
  List.filterMap_append

/-- Requests of one kind take over some tokens and pass on others. -/
theorem promised_perm {a b : List Token} (hkind : (a ++ w.carried k).Perm (b ++ w'.carried k))
    (hothers : ∀ j, j ≠ k → w'.carried j = w.carried j) :
    (a.map (k, ·) ++ w.promised).Perm (b.map (k, ·) ++ w'.promised) := by
  have hk := hkind.map (k, ·)
  simp only [List.map_append] at hk
  rw [List.perm_iff_count] at hk ⊢
  intro e
  have he := hk e
  cases k <;>
    simp only [promised, List.flatMap_cons, List.flatMap_nil, List.append_nil, List.count_append,
      hothers .alarm, hothers .command, hothers .window, ne_eq, reduceCtorEq, not_false_eq_true]
      at he ⊢ <;>
    omega

theorem standing_perm {a b l : List Token}
    (hkind : (a ++ w.carried k).Perm (l ++ b ++ w'.carried k))
    (hothers : ∀ j, j ≠ k → w'.carried j = w.carried j)
    (hnotices : reports w'.notices = reports w.notices ++ b.map (k, ·)) :
    (a.map (k, ·) ++ w.standing).Perm (l.map (k, ·) ++ w'.standing) := by
  have hpromised := promised_perm hkind hothers
  simp only [standing, hnotices]
  rw [List.perm_iff_count] at hpromised ⊢
  intro e
  have he := hpromised e
  simp only [List.map_append, List.count_append] at he ⊢
  omega

theorem standing_of_eq (hcarried : ∀ j, w'.carried j = w.carried j)
    (hnotices : reports w'.notices = reports w.notices) : w.standing.Perm w'.standing := by
  have hpromised : w'.promised = w.promised := by simp only [promised, hcarried]
  rw [standing, standing, hpromised, hnotices]

@[simp] theorem carried_notify (w : World) (token : Option Token) (n : Token → Notice)
    (k : WaitKind) : (w.notify token n).carried k = w.carried k := by
  cases token <;> cases k <;> rfl

theorem reports_notify {n : Token → Notice} (hn : ∀ t, (n t).account? = some (k, t)) (w : World)
    (token : Option Token) :
    reports (w.notify token n).notices = reports w.notices ++ token.toList.map (k, ·) := by
  rw [notices_notify, reports_append]
  cases token <;> simp [reports, hn]

/-! ### Commands -/

theorem commandTokens_erase {h : Handle} {c : Command} (hc : w.commands.get? h = some c) :
    (w.carried .command).Perm
      (c.notify.toList ++ (w.commands.erase h).values.filterMap Command.notify) := by
  have hperm := ((OrderedMap.perm_erase hc).map Prod.snd).filterMap Command.notify
  simp only [List.map_cons, List.filterMap_cons] at hperm
  simp only [carried, OrderedMap.values]
  cases hn : c.notify <;> simpa [hn] using hperm

theorem standing_command (w : World) (actor : Handle) (c : Command) :
    (c.notify.toList.map (WaitKind.command, ·) ++ w.standing).Perm (w.command actor c).standing := by
  let previous := ((w.commands.get? actor).bind Command.notify).toList
  have hprevious : (w.carried .command).Perm
      (previous ++ (w.commands.erase actor).values.filterMap Command.notify) := by
    simp only [previous]
    cases hc : w.commands.get? actor with
    | none =>
      rw [OrderedMap.erase_eq_self hc]
      exact .refl _
    | some d => exact commandTokens_erase hc
  have hnew : ((w.command actor c).carried .command).Perm
      (c.notify.toList ++ (w.commands.erase actor).values.filterMap Command.notify) := by
    have hget : ({ w with commands := w.commands.insert actor c } : World).commands.get? actor =
        some c := by simp [OrderedMap.get?_insert]
    have hperm := commandTokens_erase hget
    simp only [OrderedMap.erase_insert] at hperm
    rw [command, carried_notify]
    exact hperm
  refine standing_perm (k := .command) (l := []) (b := previous) ?_ ?_ ?_
  · refine (hprevious.append_left _).trans (.trans ?_ (hnew.append_left _).symm)
    rw [List.nil_append, ← List.append_assoc, ← List.append_assoc]
    exact List.perm_append_comm.append_right _
  · intro j hj
    rw [command, carried_notify]
    cases j <;> first | rfl | exact absurd rfl hj
  · exact reports_notify (fun _ => rfl) _ _

theorem standing_destroy (w : World) (h : Handle) (hh : w.entities.contains h = true) :
    w.standing.Perm
      (((w.commands.get? h).bind Command.notify).toList.map (WaitKind.command, ·) ++
        (w.destroy h).standing) := by
  have hd : w.destroy h = { w with
      entities := (w.entities.erase h).map fun _ e => e.takeOff h
      commands := w.commands.erase h }.emit (.entityDestroyed h) := by
    rw [destroy, if_pos hh]
  rw [hd]
  refine standing_perm (k := .command) (a := []) (b := []) ?_ ?_ ?_
  · simp only [List.nil_append, List.append_nil]
    cases hc : w.commands.get? h with
    | none =>
      have he := OrderedMap.erase_eq_self hc
      simp [carried, emit, he]
    | some c => exact commandTokens_erase hc
  · intro j hj
    cases j <;> first | rfl | exact absurd rfl hj
  · simp [emit, reports, Notice.account?]

/-! ### Requests -/

theorem standing_open {notify : Option Token} (halarms : w'.alarms = w.alarms)
    (hcommands : w'.commands = w.commands) (hnotices : w'.notices = w.notices)
    (hopen : (notify.toList ++ w.windowTokens).Perm w'.windowTokens) :
    (notify.toList.map (WaitKind.window, ·) ++ w.standing).Perm w'.standing := by
  refine standing_perm (k := .window) (l := []) (b := []) hopen ?_ (by simp [hnotices])
  intro j hj
  cases j with
  | alarm => simp only [carried, halarms]
  | command => simp only [carried, hcommands]
  | window => exact absurd rfl hj

theorem standing_issue (w : World) (r : Request) (notify : Option Token) :
    (notify.toList.map ((Task.request r).kind, ·) ++ w.standing).Perm
      (w.issue r notify).standing := by
  cases r with
  | walk actor x y => exact standing_command w actor ⟨.walk x y, notify⟩
  | strike actor target => exact standing_command w actor ⟨.strike target, notify⟩
  | talk actor text =>
    exact standing_command (w.print (w.speakerName actor ++ ": " ++ text)) actor
      ⟨.talk w.settings.speechSeconds, notify⟩
  | dialog text =>
    refine standing_open rfl rfl rfl ?_
    have hone : List.filterMap Dialog.notify [⟨text, notify⟩] = notify.toList := by
      cases notify <;> rfl
    simp only [windowTokens, issue, print, List.filterMap_append, hone]
    rw [← List.append_assoc]
    exact List.perm_append_comm.append_right _
  | fade seconds =>
    refine standing_open rfl rfl rfl ?_
    have hone : List.filterMap Fade.notify [⟨seconds, notify⟩] = notify.toList := by
      cases notify <;> rfl
    simp only [windowTokens, issue, List.filterMap_append, hone]
    rw [← List.append_assoc (w.dialogs.filterMap Dialog.notify)]
    exact List.perm_append_comm

theorem standing_setAlarm (w : World) (seconds : Binary32) (ht : t ∉ w.alarms.keys) :
    ((.alarm, t) :: w.standing).Perm (w.setAlarm t seconds).standing := by
  refine standing_perm (k := .alarm) (a := [t]) (l := []) (b := []) ?_ ?_ (by simp [setAlarm])
  · simp only [carried, setAlarm, OrderedMap.keys_insert, ht, if_false, List.nil_append]
    exact List.perm_append_comm
  · intro j hj
    cases j <;> first | rfl | exact absurd rfl hj

/-! ### Withdrawing -/

theorem promised_cancelAlarm (w : World) (t : Token) :
    (w.cancelAlarm t).promised = w.promised.filter fun e => decide (e ≠ (.alarm, t)) := by
  simp [promised, carried, cancelAlarm, OrderedMap.keys_erase, List.filter_map, Function.comp_def,
    windowTokens]

theorem promised_forget (w : World) (t : Token) :
    (w.forget t).promised = w.promised.filter fun e => decide (e.1 = .alarm ∨ e.2 ≠ t) := by
  have hcommands : (w.forget t).carried .command =
      (w.carried .command).filter fun u => decide (t ≠ u) := by
    simp only [carried, forget, OrderedMap.values, OrderedMap.map, List.map_map,
      List.filterMap_map, List.filter_filterMap, ← withoutToken_eq_filter]
    rfl
  have hwindows : (w.forget t).carried .window =
      (w.carried .window).filter fun u => decide (t ≠ u) := windowTokens_forget w t
  have halarms : (w.forget t).carried .alarm = w.carried .alarm := rfl
  simp [promised, halarms, hcommands, hwindows, List.filter_map, Function.comp_def, eq_comm]

/-! ### Time -/

theorem standing_answer? {choice : Binary32} (h : w.answer? choice = some w') :
    w.standing.Perm w'.standing := by
  unfold answer? at h
  cases hd : w.dialogs with
  | nil => simp [hd] at h
  | cons d rest =>
    simp only [hd, Option.some.injEq] at h
    have hclose : w.standing.Perm (({ w with dialogs := rest } : World).notify d.notify
        fun t => .windowClosed t (some (.number choice))).standing := by
      refine standing_perm (k := .window) (a := []) (l := []) (b := d.notify.toList) ?_ ?_
        (reports_notify (fun _ => rfl) _ _)
      · rw [carried_notify]
        cases hn : d.notify <;> simp [carried, windowTokens, hd, hn]
      · intro j hj
        rw [carried_notify]
        cases j <;> first | rfl | exact absurd rfl hj
    rw [← h]
    split
    · exact hclose.trans (standing_of_eq (fun j => by cases j <;> rfl) rfl)
    · exact hclose

theorem standing_answerEach (choice : Binary32) (n : Nat) (w : World) :
    w.standing.Perm (answerEach choice n w).standing := by
  induction n generalizing w with
  | zero => exact .refl _
  | succ n ih =>
    unfold answerEach
    split
    case h_1 w₁ h => exact (standing_answer? h).trans (ih w₁)
    case h_2 => exact .refl _

theorem standing_answerAll (w : World) : w.standing.Perm w.answerAll.standing := by
  unfold answerAll
  split
  · exact standing_answerEach _ _ w
  · exact .refl _

theorem standing_passFades (w : World) (dt : Binary32) :
    w.standing.Perm (w.passFades dt).standing := by
  let later := w.fades.map (fadeAfter dt)
  let done := (later.filter fun f => isSpent f.remaining).filterMap Fade.notify
  refine standing_perm (k := .window) (a := []) (l := []) (b := done) ?_ ?_ ?_
  · have hsplit := (List.filter_append_perm (fun f => isSpent f.remaining) later).filterMap
      Fade.notify
    have hsame : later.filterMap Fade.notify = w.fades.filterMap Fade.notify := by
      rw [List.filterMap_map]
      rfl
    rw [List.filterMap_append, hsame] at hsplit
    simp only [carried, windowTokens, passFades, List.nil_append]
    refine (hsplit.symm.append_left _).trans ?_
    rw [← List.append_assoc, ← List.append_assoc]
    exact List.perm_append_comm.append_right _
  · intro j hj
    cases j <;> first | rfl | exact absurd rfl hj
  · simp only [passFades, reports_append]
    simp [reports, List.filterMap_map, Function.comp_def, Notice.account?, done, later]

theorem standing_passAlarms (w : World) (dt : Binary32) :
    w.standing.Perm (w.passAlarms dt).standing := by
  let later := w.alarms.map fun _ seconds => seconds.sub dt
  refine standing_perm (k := .alarm) (a := []) (l := [])
    (b := (later.filter fun _ seconds => isSpent seconds).keys) ?_ ?_ ?_
  · have hsplit := (List.filter_append_perm (fun e => isSpent e.2) later.entries).map Prod.fst
    have hsame : later.entries.map Prod.fst = w.alarms.keys := OrderedMap.keys_map _ _
    rw [List.map_append, hsame] at hsplit
    exact hsplit.symm
  · intro j hj
    cases j <;> first | rfl | exact absurd rfl hj
  · simp only [passAlarms, reports_append]
    simp [reports, List.filterMap_map, Function.comp_def, Notice.account?, later]

theorem carried_progress (w : World) (actor : Handle) (errand : Errand) (dt : Binary32)
    (k : WaitKind) : (w.progress actor errand dt).2.carried k = w.carried k := by
  have hframe := w.frame_progress actor errand dt
  cases k with
  | alarm => simp only [carried, hframe.alarms]
  | window => exact hframe.windowTokens
  | command =>
    cases errand with
    | walk x y =>
      obtain ⟨entities, -, he⟩ := moves_walk w actor x y dt
      simp only [progress, he, carried]
    | strike target =>
      obtain ⟨entities, -, he⟩ := moves_strike w actor target
      simp only [progress, he, carried]
    | talk remaining =>
      simp only [progress, talk]
      split
      · rfl
      · simp only [carried, OrderedMap.modify, OrderedMap.values, OrderedMap.map, List.map_map,
          List.filterMap_map]
        congr 1
        funext e
        simp only [Function.comp_apply]
        split <;> rfl

theorem standing_passCommand (dt : Binary32) (w : World) (actor : Handle) :
    w.standing.Perm (passCommand dt w actor).2.standing := by
  obtain he | ⟨c, hc, he | ⟨ending, -, he⟩⟩ := world_passCommand dt w actor <;> rw [he]
  · have hcarried := w.carried_progress actor c.errand dt
    exact standing_of_eq hcarried (by rw [(w.frame_progress actor c.errand dt).notices])
  · have hcarried := w.carried_progress actor c.errand dt
    have hframe := w.frame_progress actor c.errand dt
    obtain ⟨c', hc', hnotify⟩ := hframe.command hc
    refine standing_perm (k := .command) (a := []) (l := []) (b := c.notify.toList) ?_ ?_ ?_
    · rw [finish, carried_notify, ← hcarried, ← hnotify]
      exact commandTokens_erase hc'
    · intro j hj
      rw [finish, carried_notify, ← hcarried]
      cases j <;> first | rfl | exact absurd rfl hj
    · rw [finish, reports_notify (k := .command) (fun t => by cases ending <;> rfl)]
      exact congrArg (reports · ++ _) hframe.notices

/-- As time passes, the reports that were to come are made. -/
theorem standing_advance (w : World) (dt : Binary32) :
    w.standing.Perm (w.advance dt).2.standing :=
  (standing_answerAll w).trans (advance_rel (R := fun w w' => w.standing.Perm w'.standing)
    (fun _ => .refl _) .trans (standing_passCommand dt) (standing_passFades · dt)
    (fun _ => standing_of_eq (fun j => by cases j <;> rfl) rfl) (standing_passAlarms · dt) w)

/-! ### Calls -/

def Call.passes : Call → List (WaitKind × Token)
  | issue r notify => notify.toList.map ((Task.request r).kind, ·)
  | setAlarm t _ => [(.alarm, t)]
  | add _ | equip .. | setActionPoints .. | setInterface _ | setPaused _ | setAutoAnswer _
  | answer _ | advance _ | change _ | cancelAlarm _ | forget _ | drain => []

def taken (w : World) : Call → List Notice
  | .drain => w.notices
  | _ => []

def withdrawn (w : World) : Call → List (WaitKind × Token)
  | .cancelAlarm t => w.promised.filter fun e => decide (e = (.alarm, t))
  | .forget t => w.promised.filter fun e => decide (e.1 ≠ .alarm ∧ e.2 = t)
  | _ => []

/-- The tokens that a call gives up with the command of an entity it destroys. -/
def abandoned (w : World) : Call → List (Handle × Token)
  | .change (.destroy h) =>
    if w.entities.contains h then
      ((w.commands.get? h).bind Command.notify).toList.map (h, ·)
    else []
  | _ => []

/-- What a call gives to the world is standing after it, and what was standing before it still is,
but for what was taken, withdrawn or given up. -/
theorem standing_call (w : World) (c : Call)
    (hfresh : ∀ t seconds, c = .setAlarm t seconds → t ∉ w.alarms.keys) :
    (c.passes ++ w.standing).Perm
      (reports (w.taken c) ++ w.withdrawn c ++
        (w.abandoned c).map (fun e => (.command, e.2)) ++ (w.call c).standing) := by
  cases c with
  | add s | setActionPoints h points | setInterface state | setAutoAnswer choice =>
    exact standing_of_eq (fun j => by cases j <;> rfl) rfl
  | equip h slot item =>
    simp only [call, equip?]
    split
    · exact standing_of_eq (fun j => by cases j <;> rfl) rfl
    · exact .refl _
  | setPaused paused =>
    simp only [call, setPaused]
    split
    · exact .refl _
    · refine standing_of_eq (fun j => by cases j <;> rfl) ?_
      simp [emit, reports, Notice.account?]
  | answer choice =>
    simp only [call]
    cases ha : w.answer? choice with
    | none => exact .refl _
    | some w' => exact standing_answer? ha
  | advance dt => exact standing_advance w dt
  | change c =>
    cases c with
    | destroy h =>
      simp only [abandoned, call, World.change]
      split
      case isTrue hh =>
        have hdestroy := standing_destroy w h hh
        simpa [Call.passes, taken, withdrawn, reports, Function.comp_def] using hdestroy
      case isFalse hh =>
        rw [destroy, if_neg hh]
        exact .refl _
    | setHitPoints | setWallOpen | setAlignment | startCombat | endCombat | print | message =>
      exact standing_of_eq (fun j => by cases j <;> rfl) rfl
  | issue r notify => exact standing_issue w r notify
  | setAlarm t seconds => exact standing_setAlarm w seconds (hfresh t seconds rfl)
  | cancelAlarm t =>
    have hsplit := List.filter_append_perm (fun e => decide (e = (WaitKind.alarm, t))) w.promised
    simp only [Call.passes, taken, withdrawn, abandoned, call, standing, promised_cancelAlarm]
    simpa [reports, cancelAlarm, ← List.append_assoc] using
      (hsplit.symm.append_right (reports w.notices))
  | forget t =>
    have hsplit := List.filter_append_perm
      (fun e : WaitKind × Token => decide (e.1 ≠ .alarm ∧ e.2 = t)) w.promised
    -- an alarm keeps its token
    have hleft : w.promised.filter (fun e => !decide (e.1 ≠ WaitKind.alarm ∧ e.2 = t)) =
        w.promised.filter fun e => decide (e.1 = .alarm ∨ e.2 ≠ t) := by
      apply List.filter_congr
      intro e _
      by_cases h₁ : e.1 = .alarm <;> by_cases h₂ : e.2 = t <;> simp [h₁, h₂]
    rw [hleft, ← promised_forget] at hsplit
    simpa [Call.passes, taken, withdrawn, abandoned, call, standing, reports, forget,
      ← List.append_assoc] using hsplit.symm.append_right (reports w.notices)
  | drain =>
    have hleft : (w.call .drain).standing = w.promised := List.append_nil _
    simp only [Call.passes, taken, withdrawn, abandoned, hleft, List.nil_append, List.append_nil,
      List.map_nil]
    exact List.perm_append_comm

end

end World

end WorldScript
