import WorldScript.Proofs.World.CarriersInTime

/-!
Attacks, one by one. When time passes, those whose command is an attack come to it in their turn,
each in the world that the commands before it have left. Such a blow is recorded with that world, so that
it can be said what it costs and what it does, or that it is a panic.

Main statements: `strike_of_isPaid`, `strike_of_short`, `panics_iff`, `woundsExactly` and
`paysExactly_iff`.
-/
set_option autoImplicit false

namespace WorldScript

/-- An attack whose turn has come, with the world as it finds it. -/
structure Blow where
  attacker : Handle
  target : Handle
  notify : Option Token
  world : World

def World.hitPoints? (w : World) (h : Handle) : Option Int32 :=
  (w.entities.get? h).map Entity.hitPoints

def World.actionPoints? (w : World) (h : Handle) : Option Int32 :=
  (w.entities.get? h).map Entity.actionPoints

namespace Blow

def isPaid (b : Blow) : Bool :=
  (b.world.actionPoints? b.attacker).any fun p => decide (b.world.settings.attackCost ≤ p)

/-- The attack is paid for, and the target is there and has hit points left. -/
def hits (b : Blow) : Bool :=
  b.isPaid && ((b.world.hitPoints? b.target).any fun p => decide (0 < p))

def outcome (b : Blow) : Except Panic World.Ending := (b.world.strike b.attacker b.target).1

def panics (b : Blow) : Bool := !b.outcome.isOk

def after (b : Blow) : World := (b.world.strike b.attacker b.target).2

def notice? (b : Blow) : Option Notice := do
  let t ← b.notify
  let ending ← b.outcome.toOption
  return ending.notice t

end Blow

namespace World

/-! ### The attacks of a run -/

def blow? (w : World) (actor : Handle) : Option Blow :=
  match w.commands.get? actor with
  | some ⟨.strike target, notify⟩ => some ⟨actor, target, notify, w⟩
  | _ => none

/-- The attacks that these come to as they go on with their commands, until one is a panic. -/
def attemptsOf (dt : Binary32) : List Handle → World → List Blow
  | [], _ => []
  | actor :: actors, w =>
    (w.blow? actor).toList ++
      match passCommand dt w actor with
      | (.error _, _) => []
      | (.ok (), w) => attemptsOf dt actors w

/-- The attacks that a call comes to: only as time passes, and not while it is paused. -/
def attempts (w : World) : Call → List Blow
  | .advance dt =>
    let w := w.answerAll.passFades dt
    if w.isPaused then []
    else
      let w := { w with clock := w.clock.add dt }.passAlarms dt
      attemptsOf dt w.commands.keys w
  | _ => []

def panics (w : World) : Call → Bool
  | .advance dt => !(w.advance dt).1.isOk
  | _ => false

def blows (w : World) (c : Call) : List Blow := (w.attempts c).filter fun b => !b.panics

section

variable {w w' : World} {h actor target : Handle} {dt : Binary32} {b : Blow}

/-- What holds of the world when commands go on, and is kept by each of them, is found by every
attack. -/
theorem forall_attemptsOf {P : World → Prop}
    (hpass : ∀ w actor, P w → P (passCommand dt w actor).2) (actors : List Handle) (hw : P w) :
    ∀ b ∈ attemptsOf dt actors w, P b.world := by
  induction actors generalizing w with
  | nil => simp [attemptsOf]
  | cons actor actors ih =>
    have hnext := hpass w actor hw
    intro b hb
    obtain hb | hb := List.mem_append.1 hb
    · rw [Option.mem_toList, blow?] at hb
      split at hb
      · obtain rfl := Option.some.inj hb
        exact hw
      · cases hb
    · split at hb
      case h_1 => cases hb
      case h_2 w₁ he =>
        rw [he] at hnext
        exact ih hnext b hb

/-! ### What an attack does -/

theorem get?_modify (w : World) (h g : Handle) (f : Entity → Entity) :
    (w.modify h f).entities.get? g =
      if g = h then (w.entities.get? g).map f else w.entities.get? g :=
  OrderedMap.get?_modify _ _ _ _

theorem map_get?_modify {α : Type} (part : Entity → α) (w : World) (h g : Handle)
    {f : Entity → Entity} (hf : ∀ e, part (f e) = part e) :
    ((w.modify h f).entities.get? g).map part = (w.entities.get? g).map part := by
  have hcomp : part ∘ f = part := funext hf
  rw [get?_modify]
  split
  · rw [Option.map_map, hcomp]
  · rfl

def pay (w : World) (actor : Handle) : World :=
  w.modify actor fun e => { e with actionPoints := e.actionPoints - w.settings.attackCost }

def wound (w : World) (target : Handle) : World :=
  w.modify target fun e => { e with hitPoints := e.hitPoints - 1 }

theorem hitPoints?_pay (w : World) (actor g : Handle) :
    (w.pay actor).hitPoints? g = w.hitPoints? g :=
  map_get?_modify Entity.hitPoints w actor g fun _ => rfl

theorem actionPoints?_pay (w : World) (actor : Handle) :
    (w.pay actor).actionPoints? actor =
      (w.actionPoints? actor).map fun p => p - w.settings.attackCost := by
  rw [actionPoints?, pay, get?_modify, if_pos rfl, Option.map_map, actionPoints?, Option.map_map]
  rfl

theorem hitPoints?_wound (w : World) (target g : Handle) :
    (w.wound target).hitPoints? g =
      if g = target then (w.hitPoints? g).map fun p => p - 1 else w.hitPoints? g := by
  rw [hitPoints?, wound, get?_modify]
  split
  · rw [Option.map_map, hitPoints?, Option.map_map]
    rfl
  · rfl

theorem actionPoints?_wound (w : World) (target g : Handle) :
    (w.wound target).actionPoints? g = w.actionPoints? g :=
  map_get?_modify Entity.actionPoints w target g fun _ => rfl

end

end World

namespace Blow

open World

variable {b : Blow} {p : Int32}

theorem isPaid_iff : b.isPaid = true ↔
    ∃ p, b.world.actionPoints? b.attacker = some p ∧ b.world.settings.attackCost ≤ p := by
  simp [isPaid, Option.any_eq_true]

theorem hits_iff : b.hits = true ↔
    b.isPaid = true ∧ ∃ p, b.world.hitPoints? b.target = some p ∧ 0 < p := by
  simp [hits, Option.any_eq_true]

theorem outcome_of_panics (h : b.panics = true) : ∃ p, b.outcome = .error p := by
  unfold panics at h
  cases ho : b.outcome with
  | error p => exact ⟨p, rfl⟩
  | ok ending =>
    rw [ho] at h
    cases h

theorem exists_ending (h : b.panics = false) : ∃ ending, b.outcome = .ok ending := by
  unfold panics at h
  cases ho : b.outcome with
  | error p =>
    rw [ho] at h
    cases h
  | ok ending => exact ⟨ending, rfl⟩

theorem strike_of_short (hp : b.world.actionPoints? b.attacker = some p)
    (hshort : p < b.world.settings.attackCost) :
    b.world.strike b.attacker b.target =
      (.ok (.disqualified ("attacker " ++ b.attacker.text ++ " has "
        ++ Decimal.intText p.toInt ++ " action points, needs "
        ++ Decimal.intText b.world.settings.attackCost.toInt)), b.world) := by
  obtain ⟨e, he, rfl⟩ := Option.map_eq_some_iff.1 hp
  simp only [strike, he, hshort, if_true]

theorem strike_of_gone (hgone : b.world.actionPoints? b.attacker = none) :
    b.world.strike b.attacker b.target =
      (.ok (.disqualified ("attacker " ++ b.attacker.text ++ " is gone")), b.world) := by
  have he := Option.map_eq_none_iff.1 hgone
  simp only [strike, he]

/-- An attack that would leave more action points than there can be is a panic, and changes
nothing. -/
theorem strike_of_not_fits (hp : b.world.actionPoints? b.attacker = some p)
    (hcost : b.world.settings.attackCost ≤ p)
    (hfits : ¬FitsInt32 (p.toInt - b.world.settings.attackCost.toInt)) :
    b.world.strike b.attacker b.target = (.error .subtraction, b.world) := by
  obtain ⟨e, he, rfl⟩ := Option.map_eq_some_iff.1 hp
  simp only [strike, he, Int32.not_lt.2 hcost, if_false, subtract_of_not_fits hfits]

theorem strike_of_fits (hp : b.world.actionPoints? b.attacker = some p)
    (hcost : b.world.settings.attackCost ≤ p)
    (hfits : FitsInt32 (p.toInt - b.world.settings.attackCost.toInt)) :
    b.world.strike b.attacker b.target =
      (.ok (.finished (some (Value.ofBool b.hits))),
        if b.hits then (b.world.pay b.attacker).wound b.target
        else b.world.pay b.attacker) := by
  have hpaid : b.isPaid = true := isPaid_iff.2 ⟨p, hp, hcost⟩
  obtain ⟨e, he, rfl⟩ := Option.map_eq_some_iff.1 hp
  have hpay : b.world.setActionPoints b.attacker (e.actionPoints - b.world.settings.attackCost) =
      b.world.pay b.attacker := by
    unfold setActionPoints pay World.modify
    rw [OrderedMap.modify_congr]
    rintro _ he'
    rw [Option.some.inj (he.symm.trans he')]
  -- the attacker may be its own target, which is looked up after it has paid
  have hhits : b.hits =
      (((b.world.pay b.attacker).hitPoints? b.target).any fun p => decide (0 < p)) := by
    rw [hits, hpaid, Bool.true_and, hitPoints?_pay]
  rw [hhits, hitPoints?]
  simp only [strike, he, Int32.not_lt.2 hcost, if_false, subtract_of_fits hfits, hpay]
  cases hv : (b.world.pay b.attacker).entities.get? b.target with
  | none => rfl
  | some v =>
    by_cases hpos : 0 < v.hitPoints
    case neg => simp [hpos]
    case pos =>
      have hone : FitsInt32 (v.hitPoints.toInt - (1 : Int32).toInt) := fits_pred hpos
      have hwound : (b.world.pay b.attacker).modify b.target
            (fun e => { e with hitPoints := v.hitPoints - 1 }) =
          (b.world.pay b.attacker).wound b.target := by
        unfold wound World.modify
        rw [OrderedMap.modify_congr]
        rintro _ hv'
        rw [Option.some.inj (hv.symm.trans hv')]
      simp only [hpos, if_true, subtract_of_fits hone, hwound]
      simp [hpos]

theorem panics_of_error {q : Panic} {w : World}
    (h : b.world.strike b.attacker b.target = (.error q, w)) : b.panics = true := by
  rw [panics, outcome, h]
  rfl

theorem panics_of_ok {ending : Ending} {w : World}
    (h : b.world.strike b.attacker b.target = (.ok ending, w)) : b.panics = false := by
  rw [panics, outcome, h]
  rfl

theorem panics_iff : b.panics = true ↔
    ∃ p, b.world.actionPoints? b.attacker = some p ∧ b.world.settings.attackCost ≤ p ∧
      Int32.maxValue.toInt + b.world.settings.attackCost.toInt < p.toInt := by
  cases hp : b.world.actionPoints? b.attacker with
  | none => simp [panics_of_ok (strike_of_gone hp)]
  | some p =>
    simp only [Option.some.injEq, exists_eq_left']
    by_cases hcost : b.world.settings.attackCost ≤ p
    case neg => simp [panics_of_ok (strike_of_short hp (Int32.not_le.1 hcost)), hcost]
    case pos =>
      have hmost := fits_sub_iff hcost
      by_cases hfits : FitsInt32 (p.toInt - b.world.settings.attackCost.toInt)
      case pos =>
        simpa [panics_of_ok (strike_of_fits hp hcost hfits), hcost] using hmost.1 hfits
      case neg =>
        simpa [panics_of_error (strike_of_not_fits hp hcost hfits), hcost] using mt hmost.2 hfits

theorem after_of_panics (h : b.panics = true) : b.after = b.world := by
  obtain ⟨p, hp, hcost, hmost⟩ := panics_iff.1 h
  rw [after, strike_of_not_fits hp hcost fun hfits => ?_]
  exact Int.not_le.2 hmost ((fits_sub_iff hcost).1 hfits)

theorem strike_of_isPaid (hpaid : b.isPaid = true) (hpanics : b.panics = false) :
    b.world.strike b.attacker b.target =
      (.ok (.finished (some (Value.ofBool b.hits))),
        if b.hits then (b.world.pay b.attacker).wound b.target
        else b.world.pay b.attacker) := by
  obtain ⟨p, hp, hcost⟩ := isPaid_iff.1 hpaid
  refine strike_of_fits hp hcost ((fits_sub_iff hcost).2 (Int.not_lt.1 fun hmost => ?_))
  rw [panics_iff.2 ⟨p, hp, hcost, hmost⟩] at hpanics
  cases hpanics

theorem strike_of_not_isPaid (hunpaid : b.isPaid = false) :
    ∃ reason, b.world.strike b.attacker b.target = (.ok (.disqualified reason), b.world) := by
  cases hp : b.world.actionPoints? b.attacker with
  | none => exact ⟨_, strike_of_gone hp⟩
  | some p =>
    have hshort : ¬b.world.settings.attackCost ≤ p := by
      intro hcost
      rw [isPaid_iff.2 ⟨p, hp, hcost⟩] at hunpaid
      cases hunpaid
    exact ⟨_, strike_of_short hp (Int32.not_le.1 hshort)⟩

/-- A hit costs the target one hit point, and nothing else that an attack does touches any. -/
theorem hitPoints?_after (hpanics : b.panics = false) (g : Handle) :
    b.after.hitPoints? g =
      if b.hits = true ∧ g = b.target then (b.world.hitPoints? g).map fun p => p - 1
      else b.world.hitPoints? g := by
  unfold after
  cases hpaid : b.isPaid with
  | false =>
    obtain ⟨reason, he⟩ := strike_of_not_isPaid hpaid
    simp [he, hits, hpaid]
  | true =>
    rw [strike_of_isPaid hpaid hpanics]
    cases hhits : b.hits with
    | false => simp [hitPoints?_pay]
    | true => simp [hitPoints?_pay, hitPoints?_wound]

theorem actionPoints?_after (hpaid : b.isPaid = true) (hpanics : b.panics = false) :
    b.after.actionPoints? b.attacker =
      (b.world.actionPoints? b.attacker).map fun p => p - b.world.settings.attackCost := by
  rw [after, strike_of_isPaid hpaid hpanics, ← actionPoints?_pay]
  dsimp only
  split
  · exact actionPoints?_wound _ _ _
  · rfl

end Blow

/-! ### Turns -/

namespace World

variable {w : World} {actor : Handle} {b : Blow}

theorem blow?_eq_some (hb : w.blow? actor = some b) :
    ∃ target notify, w.commands.get? actor = some ⟨.strike target, notify⟩ ∧
      b = ⟨actor, target, notify, w⟩ := by
  unfold blow? at hb
  split at hb
  case h_1 target notify hc => exact ⟨target, notify, hc, (Option.some.inj hb).symm⟩
  case h_2 => cases hb

theorem blow?_command (hb : w.blow? actor = some b) :
    w.commands.get? actor = some ⟨.strike b.target, b.notify⟩ ∧ b.attacker = actor ∧
      b.world = w := by
  obtain ⟨target, notify, hc, rfl⟩ := blow?_eq_some hb
  exact ⟨hc, rfl, rfl⟩

theorem passCommand_of_outcome (hb : w.blow? actor = some b) {ending : Ending}
    (ho : b.outcome = .ok ending) (dt : Binary32) :
    passCommand dt w actor =
      (.ok (), b.after.finish actor ⟨.strike b.target, b.notify⟩ ending) := by
  obtain ⟨hc, rfl, rfl⟩ := blow?_command hb
  have ho : (b.world.strike b.attacker b.target).1 = .ok ending := ho
  rw [passCommand_of_command hc]
  simp only [progress, ho, Except.map]
  rfl

theorem passCommand_of_panics (hb : w.blow? actor = some b) (hpanics : b.panics = true)
    (dt : Binary32) : ∃ p, passCommand dt w actor = (.error p, w) := by
  obtain ⟨hc, rfl, rfl⟩ := blow?_command hb
  have hafter : (b.world.strike b.attacker b.target).2 = b.world := Blow.after_of_panics hpanics
  obtain ⟨p, ho⟩ := Blow.outcome_of_panics hpanics
  have ho : (b.world.strike b.attacker b.target).1 = .error p := ho
  refine ⟨p, ?_⟩
  rw [passCommand_of_command hc]
  simp only [progress, ho, hafter, Except.map]

theorem isOk_passCommand (dt : Binary32) (w : World) (actor : Handle) :
    (passCommand dt w actor).1.isOk = (w.blow? actor).toList.all fun b => !b.panics := by
  cases hc : w.commands.get? actor with
  | none =>
    simp only [passCommand_of_idle hc, blow?, hc]
    rfl
  | some c =>
    obtain ⟨errand, notify⟩ := c
    rw [passCommand_of_command hc]
    cases errand with
    | walk | talk =>
      simp only [blow?, hc, progress]
      rfl
    | strike target =>
      simp only [blow?, hc, progress, Option.toList_some, List.all_cons, List.all_nil,
        Bool.and_true, Blow.panics, Blow.outcome, Bool.not_not]
      cases (w.strike actor target).1 <;> rfl

theorem isOk_passEach (dt : Binary32) (actors : List Handle) (w : World) :
    (passEach dt actors w).1.isOk = (attemptsOf dt actors w).all fun b => !b.panics := by
  induction actors generalizing w with
  | nil => rfl
  | cons actor actors ih =>
    have hfirst := isOk_passCommand dt w actor
    unfold passEach attemptsOf
    cases he : passCommand dt w actor with
    | mk outcome w₁ =>
      rw [he] at hfirst
      rw [List.all_append, ← hfirst]
      cases outcome with
      | error p => rfl
      | ok => exact (ih w₁).trans (Bool.true_and _).symm

/-- Only attacks are panics. -/
theorem panics_iff (w : World) (c : Call) :
    w.panics c = true ↔ ∃ b ∈ w.attempts c, b.panics = true := by
  have hany : w.panics c = (w.attempts c).any Blow.panics := by
    cases c with
    | advance dt =>
      unfold panics attempts advance
      dsimp only
      split
      case isTrue => rfl
      case isFalse => rw [passCommands, isOk_passEach, List.not_all_eq_any_not]; simp
    | _ => rfl
  rw [hany, List.any_eq_true]

end World

/-! ### What an attack subtracts -/

namespace Blow

variable {b : Blow} {p : Int32}

/-- The cost is subtracted as from an integer, and what is left is a word again. -/
def PaysExactly (b : Blow) : Prop :=
  ∀ p, b.world.actionPoints? b.attacker = some p → b.world.settings.attackCost ≤ p →
    FitsInt32 (p.toInt - b.world.settings.attackCost.toInt) ∧
      ∃ q, b.after.actionPoints? b.attacker = some q ∧
        q.toInt = p.toInt - b.world.settings.attackCost.toInt

/-- The hit point can be subtracted as from an integer, and it is if the attack is paid for. -/
def WoundsExactly (b : Blow) : Prop :=
  ∀ p, b.world.hitPoints? b.target = some p → 0 < p →
    FitsInt32 (p.toInt - 1) ∧ (b.isPaid = true → b.panics = false →
      ∃ q, b.after.hitPoints? b.target = some q ∧ q.toInt = p.toInt - 1)

theorem woundsExactly (b : Blow) : b.WoundsExactly := by
  intro p hp hpos
  have hfits : FitsInt32 (p.toInt - (1 : Int32).toInt) := fits_pred hpos
  refine ⟨fits_pred hpos, fun hpaid hpanics => ⟨p - 1, ?_, toInt_sub_of_fits hfits⟩⟩
  rw [hitPoints?_after hpanics, if_pos ⟨hits_iff.2 ⟨hpaid, p, hp, hpos⟩, rfl⟩, hp,
    Option.map_some]

theorem paysExactly_iff (b : Blow) : b.PaysExactly ↔ b.panics = false := by
  constructor
  · intro hexact
    rw [← Bool.not_eq_true, panics_iff]
    rintro ⟨p, hp, hcost, hmost⟩
    exact Int.not_le.2 hmost ((fits_sub_iff hcost).1 (hexact p hp hcost).1)
  · intro hpanics p hp hcost
    have hfits : FitsInt32 (p.toInt - b.world.settings.attackCost.toInt) := by
      rw [fits_sub_iff hcost, ← Int.not_lt]
      intro hmost
      rw [panics_iff.2 ⟨p, hp, hcost, hmost⟩] at hpanics
      cases hpanics
    refine ⟨hfits, p - b.world.settings.attackCost, ?_, toInt_sub_of_fits hfits⟩
    rw [actionPoints?_after (isPaid_iff.2 ⟨p, hp, hcost⟩) hpanics, hp, Option.map_some]

theorem panics_of_nonneg (hcost : 0 ≤ b.world.settings.attackCost) : b.panics = false := by
  rw [← Bool.not_eq_true, panics_iff]
  rintro ⟨p, -, -, hmost⟩
  have hzero : (0 : Int32).toInt = 0 := rfl
  have hmax : p.toInt < 2 ^ 31 := p.toInt_lt
  have hvalue : Int32.maxValue.toInt = 0x7fffffff := rfl
  rw [Int32.le_iff_toInt_le, hzero] at hcost
  omega

theorem nonneg_of_not_panics (hp : b.world.actionPoints? b.attacker = some Int32.maxValue)
    (h : b.panics = false) : 0 ≤ b.world.settings.attackCost := by
  have hzero : (0 : Int32).toInt = 0 := rfl
  have hvalue : Int32.maxValue.toInt = 0x7fffffff := rfl
  have hlt : b.world.settings.attackCost.toInt < 2 ^ 31 := b.world.settings.attackCost.toInt_lt
  have hle : b.world.settings.attackCost ≤ Int32.maxValue := by
    rw [Int32.le_iff_toInt_le]
    omega
  rw [← Bool.not_eq_true, panics_iff] at h
  rw [Int32.le_iff_toInt_le, hzero, ← Int.not_lt]
  exact fun hneg => h ⟨_, hp, hle, by omega⟩

end Blow

/-! ### Settings stay as they are -/

namespace World

variable {w w' : World}

theorem settings_notify (w : World) (token : Option Token) (n : Token → Notice) :
    (w.notify token n).settings = w.settings := by
  cases token <;> rfl

theorem settings_change (w : World) (c : Change) : (w.change c).settings = w.settings := by
  cases c with
  | destroy h =>
    simp only [change, destroy]
    split <;> rfl
  | setHitPoints | setWallOpen | setAlignment | startCombat | endCombat | print | message => rfl

theorem settings_issue (w : World) (r : Request) (notify : Option Token) :
    (w.issue r notify).settings = w.settings := by
  cases r with
  | walk | talk | strike => exact settings_notify _ _ _
  | dialog | fade => rfl

theorem settings_start (w : World) (task : Task) (t : Token) :
    (task.start w t).settings = w.settings := by
  cases task with
  | alarm seconds => rfl
  | request r => exact settings_issue w r (some t)

theorem settings_withdraw (w : World) (t : Token) (kind : WaitKind) :
    (Machine.withdraw w t kind).settings = w.settings := by
  cases kind <;> rfl

def Shuts (w w' : World) : Prop :=
  ∃ dialogs interface more, w' = { w with dialogs, interface, notices := w.notices ++ more } ∧
    ∀ n ∈ more, ∃ t result, n = .windowClosed t result

theorem Shuts.refl (w : World) : w.Shuts w :=
  ⟨w.dialogs, w.interface, [], by rw [List.append_nil], by simp⟩

theorem Shuts.trans {w₁ : World} (h : w.Shuts w₁) (h' : w₁.Shuts w') : w.Shuts w' := by
  obtain ⟨_, _, more, rfl, hmore⟩ := h
  obtain ⟨dialogs, interface, more', rfl, hmore'⟩ := h'
  refine ⟨dialogs, interface, more ++ more', by rw [List.append_assoc], fun n hn => ?_⟩
  exact (List.mem_append.1 hn).elim (hmore n) (hmore' n)

theorem shuts_answer? {choice : Binary32} (h : w.answer? choice = some w') : w.Shuts w' := by
  unfold answer? at h
  cases hd : w.dialogs with
  | nil => simp [hd] at h
  | cons d rest =>
    simp only [hd, Option.some.injEq] at h
    let closed (t : Token) : Notice := .windowClosed t (some (.number choice))
    have hclose : ({ w with dialogs := rest } : World).notify d.notify closed =
        { w with dialogs := rest, notices := w.notices ++ (d.notify.map closed).toList } := by
      cases d.notify with
      | none => simp [notify]
      | some t => rfl
    rw [hclose] at h
    refine ⟨rest, w'.interface, (d.notify.map closed).toList, ?_, fun n hn => ?_⟩
    · rw [← h]
      split <;> rfl
    · rw [Option.mem_toList, Option.map_eq_some_iff] at hn
      obtain ⟨t, -, rfl⟩ := hn
      exact ⟨t, _, rfl⟩

theorem shuts_answerAll (w : World) : w.Shuts w.answerAll := by
  have heach : ∀ choice n (w : World), w.Shuts (answerEach choice n w) := by
    intro choice n
    induction n with
    | zero => exact fun w => .refl w
    | succ n ih =>
      intro w
      unfold answerEach
      split
      case h_1 w₁ h => exact (shuts_answer? h).trans (ih w₁)
      case h_2 => exact .refl w
  unfold answerAll
  split
  · exact heach _ _ w
  · exact .refl w

theorem Shuts.settings (h : w.Shuts w') : w'.settings = w.settings := by
  obtain ⟨_, _, _, rfl, -⟩ := h
  rfl

theorem settings_passCommand (dt : Binary32) (w : World) (actor : Handle) :
    (passCommand dt w actor).2.settings = w.settings := by
  obtain he | ⟨c, -, he | ⟨ending, -, he⟩⟩ := world_passCommand dt w actor <;> rw [he]
  · exact (w.frame_progress actor c.errand dt).settings
  · rw [finish, settings_notify]
    exact (w.frame_progress actor c.errand dt).settings

theorem settings_advance (w : World) (dt : Binary32) :
    (w.advance dt).2.settings = w.settings := by
  have hpasses := advance_rel (R := fun w w' => w'.settings = w.settings) (fun _ => rfl)
    (fun h h' => h'.trans h) (settings_passCommand dt) (fun _ => rfl) (fun _ => rfl)
    (fun _ => rfl) w
  exact hpasses.trans (shuts_answerAll w).settings

theorem settings_call (w : World) (c : Call) : (w.call c).settings = w.settings := by
  cases c with
  | advance dt => exact settings_advance w dt
  | change c => exact settings_change w c
  | issue r notify => exact settings_issue w r notify
  | answer choice =>
    simp only [call]
    cases ha : w.answer? choice with
    | none => rfl
    | some w' => exact (shuts_answer? ha).settings
  | equip h slot item =>
    simp only [call, equip?]
    split <;> rfl
  | setPaused paused =>
    simp only [call, setPaused]
    split <;> rfl
  | add | setActionPoints | setInterface | setAutoAnswer | setAlarm | cancelAlarm | forget
  | drain => rfl

theorem settings_attempts (w : World) (c : Call) :
    ∀ b ∈ w.attempts c, b.world.settings = w.settings := by
  intro b hb
  cases c with
  | advance dt =>
    simp only [attempts] at hb
    split at hb
    · cases hb
    · refine forall_attemptsOf (P := fun w' => w'.settings = w.settings)
        (fun w' actor hw' => ?_) _ ?_ b hb
      · rw [settings_passCommand, hw']
      · exact (shuts_answerAll w).settings
  | _ => cases hb

end World

end WorldScript
