import Mathlib.Data.List.Nodup
import WorldScript.Proofs.World.Attacks
import WorldScript.Proofs.World.Commands
import WorldScript.Proofs.World.Ledger

/-!
Hits are paid for in hit points. Every attack that is carried out was asked for, and is reported
under its own token with what has come of it, so that the hits that are reported and the hit points
that are lost can be counted against each other.

Main statement: `every_hit_costs_one_hit_point`.
-/
set_option autoImplicit false

namespace WorldScript

/-- An attack that is asked for: on whom, and the token under which its outcome is reported. -/
structure Attack where
  target : Handle
  notify : Option Token
deriving DecidableEq

def Command.attack? : Command → Option Attack
  | ⟨.strike target, notify⟩ => some ⟨target, notify⟩
  | _ => none

def Blow.attack (b : Blow) : Attack := ⟨b.target, b.notify⟩

def Blow.isHitOn (h : Handle) (b : Blow) : Bool := b.hits && decide (b.target = h)

def Notice.result? : Notice → Option (Token × Value)
  | .commandFinished t (some v) => some (t, v)
  | _ => none

namespace World

def attacksOf (commands : OrderedMap Handle Command) : List Attack :=
  commands.values.filterMap Command.attack?

def pending (w : World) : List Attack := attacksOf w.commands

def Call.attacks : Call → List Attack
  | .issue (.strike _ target) notify => [⟨target, notify⟩]
  | _ => []

/-- Attacks are asked for, and some are carried out; these notices are added meanwhile. -/
structure Fights (w : World) (issued : List Attack) (bs : List Blow) (new : List Notice)
    (w' : World) : Prop where
  carriedOut : ∀ b ∈ bs, b.panics = false
  attacks : (bs.map Blow.attack ++ w'.pending).Subperm (w.pending ++ issued)
  reports : (bs.filterMap Blow.notice?).Sublist new
  results : new.filterMap Notice.result? = (bs.filterMap Blow.notice?).filterMap Notice.result?

section

variable {w w₁ w' : World} {issued issued' : List Attack} {bs bs' : List Blow}
  {new new' : List Notice} {b : Blow} {h actor : Handle} {c : Command} {dt : Binary32}

theorem Fights.trans (f : Fights w issued bs new w₁) (f' : Fights w₁ issued' bs' new' w') :
    Fights w (issued ++ issued') (bs ++ bs') (new ++ new') w' where
  carriedOut := List.forall_mem_append.2 ⟨f.carriedOut, f'.carriedOut⟩
  attacks := by
    refine List.subperm_ext_iff.2 fun a _ => ?_
    have hfirst := f.attacks.count_le a
    have hsecond := f'.attacks.count_le a
    simp only [List.map_append, List.count_append] at hfirst hsecond ⊢
    omega
  reports := by
    rw [List.filterMap_append]
    exact f.reports.append f'.reports
  results := by
    rw [List.filterMap_append, List.filterMap_append, List.filterMap_append, f.results, f'.results]

/-! ### Attacks among commands -/

theorem attacksOf_erase_perm {commands : OrderedMap Handle Command}
    (hc : commands.get? h = some c) :
    (attacksOf commands).Perm (c.attack?.toList ++ attacksOf (commands.erase h)) := by
  have hperm := ((OrderedMap.perm_erase hc).map Prod.snd).filterMap Command.attack?
  simp only [List.map_cons, List.filterMap_cons] at hperm
  simp only [attacksOf, OrderedMap.values]
  cases ha : c.attack? <;> simpa [ha] using hperm

theorem attacksOf_erase_sublist (commands : OrderedMap Handle Command) (h : Handle) :
    (attacksOf (commands.erase h)).Sublist (attacksOf commands) :=
  (List.filter_sublist.map Prod.snd).filterMap Command.attack?

theorem attacksOf_insert (commands : OrderedMap Handle Command) (h : Handle) (c : Command) :
    (attacksOf (commands.insert h c)).Subperm (attacksOf commands ++ c.attack?.toList) := by
  have hget : (commands.insert h c).get? h = some c := by simp [OrderedMap.get?_insert]
  have hperm := attacksOf_erase_perm hget
  rw [OrderedMap.erase_insert] at hperm
  refine (hperm.trans List.perm_append_comm).subperm.trans ?_
  exact ((attacksOf_erase_sublist commands h).append_right _).subperm

theorem fights_quiet (hpending : w'.pending.Subperm (w.pending ++ issued))
    (hnew : ∀ n ∈ new, n.result? = none) : Fights w issued [] new w' where
  carriedOut := by simp
  attacks := hpending
  reports := List.nil_sublist _
  results := List.filterMap_eq_nil_iff.2 hnew

theorem fights_same (hcommands : w'.commands = w.commands) (hnew : ∀ n ∈ new, n.result? = none) :
    Fights w [] [] new w' := by
  refine fights_quiet ?_ hnew
  rw [List.append_nil, pending, pending, hcommands]

/-! ### One command -/

/-- Hits on an entity, each of which costs it a hit point, are all that touches its hit points. -/
def Loses (h : Handle) (bs : List Blow) (w w' : World) : Prop :=
  ∀ last, ((w'.hitPoints? h).getD last).toInt + bs.countP (Blow.isHitOn h) =
      ((w.hitPoints? h).getD last).toInt ∧
    min 0 ((w.hitPoints? h).getD last).toInt ≤ ((w'.hitPoints? h).getD last).toInt

theorem loses_of_eq (hpoints : w'.hitPoints? h = w.hitPoints? h) : Loses h [] w w' := by
  intro last
  rw [hpoints]
  exact ⟨by simp, Int.min_le_right _ _⟩

theorem Loses.trans (l : Loses h bs w w₁) (l' : Loses h bs' w₁ w') : Loses h (bs ++ bs') w w' := by
  intro last
  obtain ⟨hfirst, hleast⟩ := l last
  obtain ⟨hsecond, hleast'⟩ := l' last
  rw [List.countP_append]
  omega

theorem loses_after (hpanics : b.panics = false) (h : Handle) :
    Loses h [b] b.world b.after := by
  intro last
  rw [Blow.hitPoints?_after hpanics h, List.countP_singleton, Blow.isHitOn]
  by_cases hhit : b.hits = true ∧ h = b.target
  case neg =>
    have hmiss : (b.hits && decide (b.target = h)) = false := by
      rw [← Bool.not_eq_true, Bool.and_eq_true, decide_eq_true_eq]
      exact fun ⟨hhits, htarget⟩ => hhit ⟨hhits, htarget.symm⟩
    rw [if_neg hhit, hmiss]
    exact ⟨by simp, Int.min_le_right _ _⟩
  case pos =>
    obtain ⟨hhits, rfl⟩ := hhit
    obtain ⟨-, p, hp, hpos⟩ := Blow.hits_iff.1 hhits
    have hhit : (b.hits && decide (b.target = b.target)) = true := by simp [hhits]
    have hpred : (p - 1).toInt = p.toInt - 1 := toInt_sub_of_fits (fits_pred hpos)
    have hzero : (0 : Int32).toInt = 0 := rfl
    rw [Int32.lt_iff_toInt_lt, hzero] at hpos
    rw [if_pos ⟨hhits, rfl⟩, if_pos hhit, hp]
    change (p - 1).toInt + 1 = p.toInt ∧ min 0 p.toInt ≤ (p - 1).toInt
    omega

def Passes (w : World) (bs : List Blow) (w' : World) : Prop :=
  ∃ new, w'.notices = w.notices ++ new ∧ Fights w [] bs new w' ∧ ∀ h, Loses h bs w w'

theorem Passes.trans (s : Passes w bs w₁) (s' : Passes w₁ bs' w') : Passes w (bs ++ bs') w' := by
  obtain ⟨new, hnotices, hfights, hloses⟩ := s
  obtain ⟨new', hnotices', hfights', hloses'⟩ := s'
  refine ⟨new ++ new', ?_, hfights.trans hfights', fun h => (hloses h).trans (hloses' h)⟩
  rw [hnotices', hnotices, List.append_assoc]

theorem passes_same (hentities : w'.entities = w.entities) (hcommands : w'.commands = w.commands)
    (hnotices : w'.notices = w.notices ++ new) (hnew : ∀ n ∈ new, n.result? = none) :
    Passes w [] w' :=
  ⟨new, hnotices, fights_same hcommands hnew,
    fun h => loses_of_eq (by rw [hitPoints?, hentities, hitPoints?])⟩

theorem Passes.refl (w : World) : Passes w [] w :=
  passes_same rfl rfl (List.append_nil _).symm (by simp)

theorem passes_blow (hb : w.blow? actor = some b) (hpanics : b.panics = false) (dt : Binary32) :
    Passes w [b] (passCommand dt w actor).2 := by
  obtain ⟨hc, -, hworld⟩ := blow?_command hb
  obtain ⟨ending, ho⟩ := Blow.exists_ending hpanics
  obtain ⟨entities, -, he⟩ := moves_strike b.world b.attacker b.target
  have hcommands : b.after.commands = w.commands := by rw [Blow.after, he, hworld]
  have hnotices : b.after.notices = w.notices := by rw [Blow.after, he, hworld]
  have hnotice : b.notice? = b.notify.map ending.notice := by
    rw [Blow.notice?, ho]
    cases b.notify <;> rfl
  rw [passCommand_of_outcome hb ho]
  dsimp only
  refine ⟨b.notice?.toList, ?_, ⟨by simpa using hpanics, ?_, ?_, ?_⟩, fun h => ?_⟩
  · rw [finish, notices_notify, ← hnotices, hnotice]
  · have hperm := attacksOf_erase_perm hc
    have hleft : (b.after.finish actor ⟨.strike b.target, b.notify⟩ ending).pending =
        attacksOf (w.commands.erase actor) := by
      rw [← hcommands]
      cases b.notify <;> rfl
    rw [hleft, List.append_nil, List.map_singleton]
    exact hperm.symm.subperm
  · rw [List.filterMap_cons]
    cases b.notice? <;> simp
  · rw [List.filterMap_cons]
    cases b.notice? <;> simp
  · have hpoints : (b.after.finish actor ⟨.strike b.target, b.notify⟩ ending).hitPoints? h =
        b.after.hitPoints? h := by
      cases b.notify <;> rfl
    have hloses := loses_after hpanics h
    unfold Loses at hloses ⊢
    rw [hworld] at hloses
    rwa [hpoints]

theorem progress_of_not_strike {errand : Errand} {notify : Option Token}
    (hc : w.commands.get? actor = some ⟨errand, notify⟩) (hnot : ∀ target, errand ≠ .strike target)
    (dt : Binary32) :
    ((w.progress actor errand dt).1 = .ok none ∨
        (w.progress actor errand dt).1 = .ok (some (.finished none))) ∧
      (w.progress actor errand dt).2.pending = w.pending ∧
      ∀ h, (w.progress actor errand dt).2.hitPoints? h = w.hitPoints? h := by
  cases errand with
  | strike target => exact absurd rfl (hnot target)
  | walk x y =>
    simp only [progress, walk]
    split
    · exact ⟨.inl rfl, rfl, fun _ => rfl⟩
    · split
      · exact ⟨.inr rfl, rfl, fun h => map_get?_modify Entity.hitPoints _ _ h fun _ => rfl⟩
      · split
        · exact ⟨.inl rfl, rfl, fun _ => rfl⟩
        · exact ⟨.inl rfl, rfl, fun h => map_get?_modify Entity.hitPoints _ _ h fun _ => rfl⟩
  | talk remaining =>
    simp only [progress, talk]
    split
    · exact ⟨.inr rfl, rfl, fun _ => rfl⟩
    · refine ⟨.inl rfl, ?_, fun _ => rfl⟩
      simp only [pending, attacksOf, OrderedMap.modify, OrderedMap.values, OrderedMap.map,
        List.map_map, List.filterMap_map]
      -- neither the line there was nor the one that is left is an attack
      refine List.filterMap_congr fun e he => ?_
      simp only [Function.comp_apply]
      split
      case isFalse => rfl
      case isTrue hactor =>
        have hget : w.commands.get? actor = some e.2 :=
          OrderedMap.get?_eq_some_iff.2 (hactor ▸ he)
        rw [hc, Option.some.injEq] at hget
        rw [← hget]
        rfl

theorem passes_of_not_blow (hb : w.blow? actor = none) (dt : Binary32) :
    Passes w [] (passCommand dt w actor).2 := by
  obtain he | ⟨⟨errand, notify⟩, hc, hpass⟩ := world_passCommand dt w actor
  · rw [he]
    exact .refl w
  have hnot : ∀ target, errand ≠ .strike target := by
    rintro target rfl
    simp [blow?, hc] at hb
  obtain ⟨hend, hpending, hpoints⟩ := progress_of_not_strike hc hnot dt
  have hnotices := (w.frame_progress actor errand dt).notices
  obtain he | ⟨ending, hending, he⟩ := hpass <;> rw [he]
  · refine ⟨[], by simpa using hnotices, fights_quiet ?_ (by simp), fun h => ?_⟩
    · rw [hpending, List.append_nil]
    · exact loses_of_eq (hpoints h)
  · rw [hending] at hend
    obtain rfl : ending = .finished none := by simpa using hend
    refine ⟨_, by rw [finish, notices_notify]; exact congrArg (· ++ _) hnotices,
      fights_quiet ?_ ?_, fun h => loses_of_eq ?_⟩
    · have herase := (attacksOf_erase_sublist (w.progress actor errand dt).2.commands actor).subperm
      rw [List.append_nil, ← hpending]
      cases notify <;> exact herase
    · cases notify <;> simp [Ending.notice, Notice.result?]
    · rw [← hpoints h]
      cases notify <;> rfl

theorem passes_passCommand (w : World) (actor : Handle) (dt : Binary32) :
    Passes w ((w.blow? actor).toList.filter fun b => !b.panics) (passCommand dt w actor).2 := by
  cases hb : w.blow? actor with
  | none => exact passes_of_not_blow hb dt
  | some b =>
    cases hpanics : b.panics with
    | false => simpa [hpanics] using passes_blow hb hpanics dt
    | true =>
      obtain ⟨p, he⟩ := passCommand_of_panics hb hpanics dt
      simpa [hpanics, he] using Passes.refl w

theorem passes_commands (actors : List Handle) (w : World) (dt : Binary32) :
    Passes w ((attemptsOf dt actors w).filter fun b => !b.panics) (passEach dt actors w).2 := by
  induction actors generalizing w with
  | nil => exact .refl w
  | cons actor actors ih =>
    have hfirst := w.passes_passCommand actor dt
    unfold attemptsOf passEach
    rw [List.filter_append]
    cases he : passCommand dt w actor with
    | mk outcome w₁ =>
      rw [he] at hfirst
      cases outcome with
      | error p => simpa using hfirst
      | ok => exact hfirst.trans (ih w₁)

theorem passes_advance (w : World) (dt : Binary32) :
    Passes w (w.blows (.advance dt)) (w.advance dt).2 := by
  obtain ⟨dialogs, interface, more, hanswers, hmore⟩ := shuts_answerAll w
  have hwindows : Passes w [] (w.answerAll.passFades dt) := by
    refine passes_same (by rw [hanswers]; rfl) (by rw [hanswers]; rfl)
      (by rw [hanswers, passFades, List.append_assoc]) fun n hn => ?_
    obtain hn | hn := List.mem_append.1 hn
    · obtain ⟨t, result, rfl⟩ := hmore n hn
      rfl
    · obtain ⟨t, -, rfl⟩ := List.mem_map.1 hn
      rfl
  unfold advance blows attempts
  dsimp only
  split
  · exact hwindows
  · have halarms : Passes (w.answerAll.passFades dt) [] ({ w.answerAll.passFades dt with
        clock := (w.answerAll.passFades dt).clock.add dt }.passAlarms dt) := by
      refine passes_same rfl rfl rfl fun n hn => ?_
      obtain ⟨t, -, rfl⟩ := List.mem_map.1 hn
      rfl
    exact (hwindows.trans halarms).trans (passes_commands _ _ dt)

/-! ### Calls -/

theorem result?_of_not_isCompletion {n : Notice} (hn : ¬n.IsCompletion) : n.result? = none := by
  cases n with
  | alarmFired | commandFinished => exact absurd trivial hn
  | commandDisqualified | windowClosed | entityDestroyed | worldPaused => rfl

theorem fights_of_atOnce (hatOnce : AtOnce w w')
    (hpending : w'.pending.Subperm (w.pending ++ issued)) :
    ∃ new, w'.notices = w.notices ++ new ∧ Fights w issued [] new w' := by
  obtain ⟨more, hnotices, hmore⟩ := hatOnce
  exact ⟨more, hnotices, fights_quiet hpending fun n hn => result?_of_not_isCompletion (hmore n hn)⟩

theorem pending_command (w : World) (actor : Handle) (c : Command) :
    (w.command actor c).pending.Subperm (w.pending ++ c.attack?.toList) := by
  have hpending : (w.command actor c).pending = attacksOf (w.commands.insert actor c) := by
    unfold command
    dsimp only
    cases (w.commands.get? actor).bind Command.notify <;> rfl
  rw [hpending]
  exact attacksOf_insert _ _ _

theorem pending_issue (w : World) (r : Request) (notify : Option Token) :
    (w.issue r notify).pending.Subperm (w.pending ++ (Call.issue r notify).attacks) := by
  cases r with
  | walk actor x y => exact pending_command w actor ⟨.walk x y, notify⟩
  | strike actor target => exact pending_command w actor ⟨.strike target, notify⟩
  | talk actor text =>
    exact pending_command (w.print (w.speakerName actor ++ ": " ++ text)) actor
      ⟨.talk w.settings.speechSeconds, notify⟩
  | dialog text | fade seconds =>
    rw [Call.attacks, List.append_nil]
    · exact List.Subperm.refl _
    · simp

/-- Attacks are carried out and reported as they were asked for, unless their tokens are taken
away. -/
theorem fights_call (w : World) {c : Call} (hforget : ∀ t, c ≠ .forget t) :
    ∃ new, w.taken c ++ (w.call c).notices = w.notices ++ new ∧
      Fights w c.attacks (w.blows c) new (w.call c) := by
  cases c with
  | forget t => exact absurd rfl (hforget t)
  | advance dt =>
    obtain ⟨new, hnotices, hfights, -⟩ := w.passes_advance dt
    exact ⟨new, hnotices, hfights⟩
  | issue r notify => exact fights_of_atOnce (atOnce_issue w r notify) (pending_issue w r notify)
  | drain => exact ⟨[], rfl, fights_same rfl (by simp)⟩
  | answer choice =>
    simp only [call]
    cases ha : w.answer? choice with
    | none => exact ⟨[], (List.append_nil _).symm, fights_same rfl (by simp)⟩
    | some w' =>
      obtain ⟨hcommands, hatOnce⟩ := commands_answer? ha
      refine fights_of_atOnce hatOnce ?_
      rw [Option.getD_some, pending, hcommands]
      exact (List.sublist_append_left _ _).subperm
  | change c =>
    refine fights_of_atOnce (atOnce_change w c) ?_
    cases c with
    | destroy h =>
      simp only [call, change, destroy]
      split
      · exact ((attacksOf_erase_sublist w.commands h).trans (List.sublist_append_left _ _)).subperm
      · exact (List.sublist_append_left _ _).subperm
    | setHitPoints | setWallOpen | setAlignment | startCombat | endCombat | print | message =>
      exact (List.sublist_append_left _ _).subperm
  | setPaused paused =>
    refine fights_of_atOnce (atOnce_call w ⟨trivial, by simp⟩) ?_
    simp only [call, setPaused]
    split <;> exact (List.sublist_append_left _ _).subperm
  | equip h slot item =>
    refine ⟨[], ?_, fights_same ?_ (by simp)⟩ <;>
      · simp only [call, equip?]
        split <;> simp [taken, modify]
  | add | setActionPoints | setInterface | setAutoAnswer | setAlarm | cancelAlarm =>
    exact ⟨[], (List.append_nil _).symm, fights_same rfl (by simp)⟩

end

/-! ### Runs -/

def blowsDuring : World → List Call → List Blow
  | _, [] => []
  | w, c :: cs => w.blows c ++ blowsDuring (w.call c) cs

def attacks (w : World) (cs : List Call) : List Attack := w.pending ++ cs.flatMap Call.attacks

/-- Only attacks change the hit points of an entity: every call other than for time to pass leaves
them as they are, or takes the entity out of the world. -/
def ChangedByAttacks (h : Handle) : World → List Call → Prop
  | _, [] => True
  | w, c :: cs =>
    ((∃ dt, c = .advance dt) ∨ (w.call c).hitPoints? h = w.hitPoints? h ∨
      (w.call c).hitPoints? h = none) ∧ ChangedByAttacks h (w.call c) cs

def lastHitPoints (h : Handle) (last : Int32) : World → List Call → Int32
  | w, [] => (w.hitPoints? h).getD last
  | w, c :: cs => lastHitPoints h ((w.hitPoints? h).getD last) (w.call c) cs

section

variable {w : World} {cs : List Call} {h : Handle}

theorem fights_calls (l : Ledger) (cs : List Call) (hforget : ∀ t, .forget t ∉ cs) :
    ∃ new, (l.calls cs).emitted = l.emitted ++ new ∧
      Fights l.world (cs.flatMap Call.attacks) (l.world.blowsDuring cs) new (l.calls cs).world := by
  induction cs generalizing l with
  | nil => exact ⟨[], (List.append_nil _).symm, fights_same rfl (by simp)⟩
  | cons c cs ih =>
    obtain ⟨new, hnotices, hfights⟩ := l.world.fights_call (c := c) (by grind)
    obtain ⟨new', hemitted, hfights'⟩ := ih (l.call c) (by grind)
    refine ⟨new ++ new', ?_, hfights.trans hfights'⟩
    refine hemitted.trans ?_
    rw [← List.append_assoc]
    congr 1
    simp only [Ledger.emitted, Ledger.call, List.append_assoc, hnotices]

theorem blows_of_not_advance {c : Call} (hc : ∀ dt, c ≠ .advance dt) : w.blows c = [] := by
  cases c with
  | advance dt => exact absurd rfl (hc dt)
  | _ => rfl

theorem loses_call {c : Call} (last : Int32)
    (hc : (∃ dt, c = .advance dt) ∨ (w.call c).hitPoints? h = w.hitPoints? h ∨
      (w.call c).hitPoints? h = none) :
    let before := (w.hitPoints? h).getD last
    let after := ((w.call c).hitPoints? h).getD before
    after.toInt + (w.blows c).countP (Blow.isHitOn h) = before.toInt ∧
      min 0 before.toInt ≤ after.toInt := by
  intro before after
  have hbefore : (w.hitPoints? h).getD before = before := by
    simp only [before]
    cases w.hitPoints? h <;> rfl
  by_cases hadvance : ∃ dt, c = .advance dt
  · obtain ⟨dt, rfl⟩ := hadvance
    obtain ⟨new, -, -, hloses⟩ := w.passes_advance dt
    have hcall := hloses h before
    rwa [hbefore] at hcall
  · have hafter : after = before := by
      obtain hc | hc | hc := hc
      · exact absurd hc hadvance
      · simp only [after, hc, hbefore]
      · simp only [after, hc, Option.getD_none]
    rw [blows_of_not_advance fun dt he => hadvance ⟨dt, he⟩, hafter]
    exact ⟨by simp, Int.min_le_right _ _⟩

theorem loses_calls (last : Int32) (hc : ChangedByAttacks h w cs) :
    let before := (w.hitPoints? h).getD last
    (lastHitPoints h last w cs).toInt + (w.blowsDuring cs).countP (Blow.isHitOn h) =
        before.toInt ∧
      min 0 before.toInt ≤ (lastHitPoints h last w cs).toInt := by
  induction cs generalizing w last with
  | nil => exact ⟨by simp [lastHitPoints, blowsDuring], Int.min_le_right _ _⟩
  | cons c cs ih =>
    obtain ⟨hsum, hleast⟩ := loses_call last hc.1
    obtain ⟨hsum', hleast'⟩ := ih ((w.hitPoints? h).getD last) hc.2
    simp only [lastHitPoints, blowsDuring, List.countP_append]
    omega

theorem ChangedByAttacks.of_prefix {before : List Call} (hc : ChangedByAttacks h w cs)
    (hbefore : before <+: cs) : ChangedByAttacks h w before := by
  induction before generalizing w cs with
  | nil => trivial
  | cons c before ih =>
    obtain ⟨rest, rfl⟩ := hbefore
    exact ⟨hc.1, ih hc.2 (List.prefix_append _ _)⟩

theorem lastHitPoints_eq (l : Ledger) (cs : List Call) (last : Int32) {p : Int32}
    (hp : (l.calls cs).world.hitPoints? h = some p) : l.world.lastHitPoints h last cs = p := by
  induction cs generalizing l last with
  | nil =>
    have hp : l.world.hitPoints? h = some p := hp
    rw [lastHitPoints, hp, Option.getD_some]
  | cons c cs ih => exact ih (l.call c) _ hp

end

end World

/-! ### Tokens -/

structure DistinctTokens (attacks : List Attack) : Prop where
  present : ∀ a ∈ attacks, a.notify ≠ none
  distinct : (attacks.map Attack.notify).Nodup

def Notice.tellsHit (attacks : List Attack) (h : Handle) : Notice → Bool
  | .commandFinished t (some v) =>
    decide (v = .number Binary32.one) && decide (⟨h, some t⟩ ∈ attacks)
  | _ => false

namespace World

variable {w w' : World} {issued : List Attack} {bs : List Blow} {new : List Notice} {b : Blow}
  {h : Handle} {t : Token} {v : Value}

theorem result?_notice? (hpanics : b.panics = false) :
    b.notice?.bind Notice.result? =
      if b.isPaid = true then b.notify.map fun t => (t, Value.ofBool b.hits) else none := by
  unfold Blow.notice? Blow.outcome
  cases hpaid : b.isPaid with
  | false =>
    obtain ⟨reason, he⟩ := Blow.strike_of_not_isPaid hpaid
    rw [he]
    cases b.notify <;> rfl
  | true =>
    rw [Blow.strike_of_isPaid hpaid hpanics]
    cases b.notify <;> rfl

theorem mem_results {n : Notice} (hn : n ∈ new) (hresult : n.result? = some (t, v))
    (f : Fights w issued bs new w') :
    ∃ b ∈ bs, b.isPaid = true ∧ b.notify = some t ∧ v = Value.ofBool b.hits := by
  have hmem : (t, v) ∈ (bs.filterMap Blow.notice?).filterMap Notice.result? :=
    f.results ▸ List.mem_filterMap.2 ⟨n, hn, hresult⟩
  rw [List.filterMap_filterMap, List.mem_filterMap] at hmem
  obtain ⟨b, hb, he⟩ := hmem
  rw [result?_notice? (f.carriedOut b hb)] at he
  split at he
  case isTrue hpaid =>
    obtain ⟨u, hu, heq⟩ := Option.map_eq_some_iff.1 he
    obtain ⟨rfl, rfl⟩ := Prod.mk.inj heq
    exact ⟨b, hb, hpaid, hu, rfl⟩
  case isFalse => cases he

theorem Fights.mem_attacks (f : Fights w issued bs new w') (hb : b ∈ bs) :
    b.attack ∈ w.pending ++ issued :=
  f.attacks.subset (List.mem_append_left _ (List.mem_map_of_mem hb))

theorem Fights.notify_inj (f : Fights w issued bs new w')
    (htokens : DistinctTokens (w.pending ++ issued)) {b' : Blow} (hb : b ∈ bs) (hb' : b' ∈ bs)
    (hsame : b.notify = b'.notify) : b = b' := by
  obtain ⟨attacks, hperm, hsub⟩ := f.attacks
  have hasked : (attacks.map Attack.notify).Nodup := htokens.distinct.sublist (hsub.map _)
  have hboth := (hperm.map Attack.notify).nodup_iff.1 hasked
  rw [List.map_append, List.map_map] at hboth
  exact List.inj_on_of_nodup_map hboth.of_append_left hb hb' hsame

theorem Fights.finished_iff (f : Fights w issued bs new w')
    (htokens : DistinctTokens (w.pending ++ issued)) (hb : b ∈ bs) (ht : b.notify = some t) :
    .commandFinished t (some v) ∈ new ↔ b.isPaid = true ∧ v = Value.ofBool b.hits := by
  constructor
  · intro hn
    obtain ⟨b', hb', hpaid, ht', hv⟩ := mem_results hn rfl f
    obtain rfl := f.notify_inj htokens hb hb' (ht.trans ht'.symm)
    exact ⟨hpaid, hv⟩
  · rintro ⟨hpaid, rfl⟩
    refine f.reports.subset (List.mem_filterMap.2 ⟨b, hb, ?_⟩)
    rw [Blow.notice?, Blow.outcome, Blow.strike_of_isPaid hpaid (f.carriedOut b hb), ht]
    rfl

theorem Fights.disqualified (f : Fights w issued bs new w') (hb : b ∈ bs) (ht : b.notify = some t)
    (hunpaid : b.isPaid = false) :
    (∃ reason, .commandDisqualified t reason ∈ new) ∧ b.after = b.world := by
  obtain ⟨reason, he⟩ := Blow.strike_of_not_isPaid hunpaid
  refine ⟨⟨reason, f.reports.subset (List.mem_filterMap.2 ⟨b, hb, ?_⟩)⟩, by rw [Blow.after, he]⟩
  rw [Blow.notice?, Blow.outcome, he, ht]
  rfl

/-- The hits that are reported are the hits. -/
theorem Fights.countP_tellsHit (f : Fights w issued bs new w')
    (htokens : DistinctTokens (w.pending ++ issued)) (h : Handle) :
    new.countP (Notice.tellsHit (w.pending ++ issued) h) = bs.countP (Blow.isHitOn h) := by
  let tells (r : Token × Value) : Bool :=
    decide (r.2 = .number Binary32.one) && decide (⟨h, some r.1⟩ ∈ w.pending ++ issued)
  have hresults : Notice.tellsHit (w.pending ++ issued) h =
      fun n => (n.result?.map tells).getD false := by
    funext n
    cases n with
    | commandFinished t result => cases result <;> rfl
    | alarmFired | commandDisqualified | windowClosed | entityDestroyed | worldPaused => rfl
  rw [hresults, ← List.countP_filterMap, f.results, List.filterMap_filterMap,
    List.countP_filterMap]
  refine List.countP_congr fun b hb => ?_
  have hasked := f.mem_attacks hb
  rw [result?_notice? (f.carriedOut b hb)]
  cases hpaid : b.isPaid with
  | false => simp [Blow.isHitOn, Blow.hits, hpaid]
  | true =>
    obtain ⟨t, ht⟩ := Option.ne_none_iff_exists'.1 (htokens.present _ hasked)
    have ht : b.notify = some t := ht
    -- tokens are distinct, so that a report is about the one attack that carries its token
    have htarget : ⟨h, some t⟩ ∈ w.pending ++ issued ↔ b.target = h := by
      constructor
      · intro hmem
        have hsame := List.inj_on_of_nodup_map htokens.distinct hasked hmem ht
        exact congrArg Attack.target hsame
      · rintro rfl
        exact ht ▸ hasked
    have hone : Value.ofBool b.hits = .number Binary32.one ↔ b.hits = true := by
      cases b.hits <;> decide
    rw [if_pos rfl, ht]
    simp only [Option.map_some, Option.getD_some, tells, Blow.isHitOn, Bool.and_eq_true,
      decide_eq_true_eq, htarget, hone]

/-- In runs in which all attacks carry distinct tokens, the hits that are reported on an entity are
the hit points it has lost, as long as only attacks change them. -/
theorem every_hit_costs_one_hit_point (w : World) (cs : List Call)
    (hforget : ∀ t, .forget t ∉ cs) (htokens : DistinctTokens (w.attacks cs)) :
    let l := ({ world := w } : Ledger).calls cs
    ∃ new, l.emitted = w.notices ++ new ∧
      (∀ h p, w.hitPoints? h = some p → w.ChangedByAttacks h cs →
        (new.countP (Notice.tellsHit (w.attacks cs) h) : Int) =
            p.toInt - (w.lastHitPoints h p cs).toInt ∧
          (∀ q, l.world.hitPoints? h = some q → w.lastHitPoints h p cs = q) ∧
          ∀ before, before <+: cs → min 0 p.toInt ≤ (w.lastHitPoints h p before).toInt) ∧
      ∀ b ∈ w.blowsDuring cs, ∃ t, b.notify = some t ∧ ⟨b.target, some t⟩ ∈ w.attacks cs ∧
        (∀ v, .commandFinished t (some v) ∈ new ↔ b.isPaid = true ∧ v = Value.ofBool b.hits) ∧
        (b.isPaid = false →
          (∃ reason, .commandDisqualified t reason ∈ new) ∧ b.after = b.world) := by
  intro l
  obtain ⟨new, hemitted, hfights⟩ := fights_calls { world := w } cs hforget
  refine ⟨new, hemitted, fun h p hp hchanged => ⟨?_, fun q => ?_, fun before hbefore => ?_⟩,
    fun b hb => ?_⟩
  · have hcount := hfights.countP_tellsHit htokens h
    obtain ⟨hsum, -⟩ := loses_calls p hchanged
    rw [hp] at hsum
    rw [Option.getD_some] at hsum
    rw [attacks, hcount]
    dsimp only
    omega
  · exact lastHitPoints_eq { world := w } cs p
  · have hleast := (loses_calls p (hchanged.of_prefix hbefore)).2
    rwa [hp] at hleast
  · have hasked := hfights.mem_attacks hb
    obtain ⟨t, ht⟩ := Option.ne_none_iff_exists'.1 (htokens.present _ hasked)
    have ht : b.notify = some t := ht
    exact ⟨t, ht, ht ▸ hasked, fun v => hfights.finished_iff htokens hb ht,
      hfights.disqualified hb ht⟩

def arena : World :=
  World.start {}
    [{ handle := ⟨1⟩, kind := .creature }, { handle := ⟨2⟩, kind := .creature, hitPoints := 2 },
      { handle := ⟨3⟩, kind := .creature, actionPoints := 1 }, { handle := ⟨4⟩, kind := .creature }]

/-- All attack the second, which attacks itself. The first attacks it again, twice, and before its
turn comes the second is destroyed. -/
def brawl : List Call :=
  [.issue (.strike ⟨1⟩ ⟨2⟩) (some ⟨1⟩), .issue (.strike ⟨4⟩ ⟨2⟩) (some ⟨2⟩),
    .issue (.strike ⟨3⟩ ⟨2⟩) (some ⟨3⟩), .issue (.strike ⟨2⟩ ⟨2⟩) (some ⟨4⟩),
    .advance Binary32.zero, .issue (.strike ⟨1⟩ ⟨2⟩) (some ⟨5⟩),
    .issue (.strike ⟨1⟩ ⟨2⟩) (some ⟨6⟩), .change (.destroy ⟨2⟩), .advance Binary32.zero]

theorem every_hit_costs_one_hit_point_brawl :
    (∀ t, .forget t ∉ brawl) ∧ DistinctTokens (arena.attacks brawl) ∧
      arena.ChangedByAttacks ⟨2⟩ brawl ∧ arena.hitPoints? ⟨2⟩ = some 2 ∧
      arena.lastHitPoints ⟨2⟩ 2 brawl = 0 ∧
      (arena.blowsDuring brawl).map (fun b => (b.attacker, b.isPaid, b.hits)) =
        [(⟨1⟩, true, true), (⟨4⟩, true, true), (⟨3⟩, false, false), (⟨2⟩, true, false),
          (⟨1⟩, true, false)] ∧
      ∃ new, (({ world := arena } : Ledger).calls brawl).emitted = new ∧
        new.countP (Notice.tellsHit (arena.attacks brawl) ⟨2⟩) = 2 := by
  have hforget : ∀ t, .forget t ∉ brawl := by simp [brawl]
  have htokens : DistinctTokens (arena.attacks brawl) := ⟨by decide, by decide⟩
  have hchanged : arena.ChangedByAttacks ⟨2⟩ brawl :=
    ⟨.inr (.inl rfl), .inr (.inl rfl), .inr (.inl rfl), .inr (.inl rfl), .inl ⟨_, rfl⟩,
      .inr (.inl rfl), .inr (.inl rfl), .inr (.inr rfl), .inl ⟨_, rfl⟩, trivial⟩
  obtain ⟨new, hemitted, hhits, -⟩ := every_hit_costs_one_hit_point arena brawl hforget htokens
  obtain ⟨hcount, -, -⟩ := hhits ⟨2⟩ 2 rfl hchanged
  have hlast : arena.lastHitPoints ⟨2⟩ 2 brawl = 0 := by decide
  refine ⟨hforget, htokens, hchanged, rfl, hlast, by decide, new, hemitted, ?_⟩
  rw [hlast] at hcount
  exact Int.ofNat.inj hcount

end World

end WorldScript
