import WorldScript.World.Time

/-!
What the passing of time is made of. Somebody goes on with a command in one of a few ways, and a
call for time to pass is a chain of small steps, whether it panics or not.

Main statements: `world_passCommand`, `passEach_rel` and `advance_rel`.
-/
set_option autoImplicit false

namespace WorldScript

/-! ### Words -/

theorem toInt_sub_of_fits {a c : Int32} (h : FitsInt32 (a.toInt - c.toInt)) :
    (a - c).toInt = a.toInt - c.toInt := by
  obtain ⟨hlow, hhigh⟩ := h
  have hmin : Int32.minValue.toInt = -0x80000000 := rfl
  have hmax : Int32.maxValue.toInt = 0x7fffffff := rfl
  rw [Int32.toInt_sub, Int.bmod_eq_of_le] <;> omega

theorem subtract_of_fits {a c : Int32} (h : FitsInt32 (a.toInt - c.toInt)) :
    subtract a c = .ok (a - c) := if_pos h

theorem subtract_of_not_fits {a c : Int32} (h : ¬FitsInt32 (a.toInt - c.toInt)) :
    subtract a c = .error .subtraction := if_neg h

/-- What covers a cost can only be too much after it is paid. -/
theorem fits_sub_iff {points cost : Int32} (h : cost ≤ points) :
    FitsInt32 (points.toInt - cost.toInt) ↔
      points.toInt ≤ Int32.maxValue.toInt + cost.toInt := by
  rw [Int32.le_iff_toInt_le] at h
  have hmin : Int32.minValue.toInt ≤ 0 := by decide
  unfold FitsInt32
  omega

theorem fits_pred {points : Int32} (h : 0 < points) : FitsInt32 (points.toInt - 1) := by
  have hone : (1 : Int32).toInt = 1 := rfl
  have hzero : (0 : Int32).toInt = 0 := rfl
  rw [Int32.lt_iff_toInt_lt, hzero] at h
  have hle : (1 : Int32) ≤ points := by
    rw [Int32.le_iff_toInt_le, hone]
    omega
  have hlt : points.toInt < 2 ^ 31 := points.toInt_lt
  have hmax : Int32.maxValue.toInt = 0x7fffffff := rfl
  have hfits := (fits_sub_iff hle).2 (by omega)
  rwa [hone] at hfits

namespace World

variable {w : World} {actor : Handle} {dt : Binary32}

/-- The same entities are there, and nothing but them has changed. -/
def Moves (w w' : World) : Prop :=
  ∃ entities, OrderedMap.keys entities = w.entities.keys ∧ w' = { w with entities }

theorem Moves.refl (w : World) : Moves w w := ⟨w.entities, rfl, rfl⟩

theorem Moves.trans {w₁ w' : World} (h : Moves w w₁) (h' : Moves w₁ w') : Moves w w' := by
  obtain ⟨_, hkeys, rfl⟩ := h
  obtain ⟨entities, hkeys', rfl⟩ := h'
  exact ⟨entities, hkeys'.trans hkeys, rfl⟩

theorem moves_modify (w : World) (h : Handle) (f : Entity → Entity) : Moves w (w.modify h f) :=
  ⟨_, OrderedMap.keys_modify _ _ _, rfl⟩

theorem moves_walk (w : World) (actor : Handle) (x y dt : Binary32) :
    Moves w (w.walk actor x y dt).2 := by
  unfold walk
  dsimp only
  split
  case h_1 => exact .refl w
  case h_2 =>
    split
    case isTrue => exact moves_modify w _ _
    case isFalse =>
      split
      case isTrue => exact .refl w
      case isFalse => exact moves_modify w _ _

theorem moves_strike (w : World) (attacker target : Handle) :
    Moves w (w.strike attacker target).2 := by
  have hpaid : ∀ points, Moves w (w.setActionPoints attacker points) :=
    fun _ => moves_modify w _ _
  unfold strike
  dsimp only
  split
  case h_1 => exact .refl w
  case h_2 =>
    split
    case isTrue => exact .refl w
    case isFalse =>
      split
      case h_1 => exact .refl w
      case h_2 =>
        split
        case h_1 => exact hpaid _
        case h_2 =>
          split
          case isFalse => exact hpaid _
          case isTrue =>
            split
            case h_1 => exact hpaid _
            case h_2 => exact (hpaid _).trans (moves_modify _ _ _)

def finish (w : World) (actor : Handle) (c : Command) (ending : Ending) : World :=
  { w with commands := w.commands.erase actor }.notify c.notify ending.notice

theorem passCommand_of_idle (hc : w.commands.get? actor = none) :
    passCommand dt w actor = (.ok (), w) := by
  simp only [passCommand, hc]

theorem passCommand_of_command {c : Command} (hc : w.commands.get? actor = some c) :
    passCommand dt w actor =
      ((w.progress actor c.errand dt).1.map fun _ => (),
        match (w.progress actor c.errand dt).1 with
        | .ok (some ending) => (w.progress actor c.errand dt).2.finish actor c ending
        | .ok none | .error _ => (w.progress actor c.errand dt).2) := by
  simp only [passCommand, hc]
  rcases w.progress actor c.errand dt with ⟨_ | _ | ending, w₁⟩ <;> rfl

theorem world_passCommand (dt : Binary32) (w : World) (actor : Handle) :
    (passCommand dt w actor).2 = w ∨ ∃ c, w.commands.get? actor = some c ∧
      ((passCommand dt w actor).2 = (w.progress actor c.errand dt).2 ∨
        ∃ ending, (w.progress actor c.errand dt).1 = .ok (some ending) ∧
          (passCommand dt w actor).2 = (w.progress actor c.errand dt).2.finish actor c ending) := by
  cases hc : w.commands.get? actor with
  | none => exact .inl (by rw [passCommand_of_idle hc])
  | some c =>
    rw [passCommand_of_command hc]
    refine .inr ⟨c, rfl, ?_⟩
    rcases w.progress actor c.errand dt with ⟨_ | _ | ending, w₁⟩
    · exact .inl rfl
    · exact .inl rfl
    · exact .inr ⟨ending, rfl, rfl⟩

section Chains

variable {R : World → World → Prop} (hrefl : ∀ w, R w w)
  (htrans : ∀ {w w₁ w'}, R w w₁ → R w₁ w' → R w w')
  (hcommand : ∀ w actor, R w (passCommand dt w actor).2)

include hrefl htrans hcommand

theorem passEach_rel (actors : List Handle) (w : World) : R w (passEach dt actors w).2 := by
  induction actors generalizing w with
  | nil => exact hrefl w
  | cons actor actors ih =>
    have hfirst := hcommand w actor
    unfold passEach
    split
    case h_1 p w₁ he =>
      rw [he] at hfirst
      exact hfirst
    case h_2 w₁ he =>
      rw [he] at hfirst
      exact htrans hfirst (ih w₁)

theorem advance_rel (hfades : ∀ w, R w (w.passFades dt))
    (hclock : ∀ w, R w { w with clock := w.clock.add dt })
    (halarms : ∀ w, R w (w.passAlarms dt)) (w : World) : R w.answerAll (w.advance dt).2 := by
  unfold advance
  dsimp only
  split
  · exact hfades _
  · exact htrans (hfades _) (htrans (hclock _) (htrans (halarms _)
      (passEach_rel hrefl htrans hcommand _ _)))

end Chains

end World

end WorldScript
