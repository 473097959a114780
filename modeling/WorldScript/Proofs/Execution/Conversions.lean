import WorldScript.Proofs.Decimal.Leading
import WorldScript.Proofs.Execution.Jumps
import WorldScript.Proofs.Source.Numerals

/-!
Numbers as texts, and back. The text of a finite number is figures without an exponent, with a point
if and only if the number has a fraction, and the number at the beginning of it is the number itself,
but for the sign of zero. A script that turns a number into a string and the string into a number has
an equal number on its stack.

Main statement: `Scene.number_string_number`.
-/
set_option autoImplicit false

namespace WorldScript

namespace Binary32

variable {x y : Binary32}

theorem toRat_eq_iff : x.toRat = y.toRat ↔ x.units = y.units := by
  rw [toRat, toRat, div_left_inj' (ne_of_gt unitsPerOne_pos_rat), Int.cast_inj]

theorem toRat_of_equals (hy : y.isFinite = true) (h : x.equals y = true) :
    x.isFinite = true ∧ x.toRat = y.toRat := by
  have hynan := isNaN_of_isFinite hy
  have hxnan : x.isNaN = false := by
    cases hnan : x.isNaN with
    | false => rfl
    | true =>
      rw [equals_nan_left hnan] at h
      cases h
  have hrank := (equals_iff_rank hxnan hynan).1 h
  have hmagnitude : x.magnitude = y.magnitude := by
    unfold rank at hrank
    split at hrank <;> split at hrank <;> omega
  have hx : x.isFinite = true := by rw [isFinite_iff, hmagnitude, ← isFinite_iff, hy]
  exact ⟨hx, toRat_eq_iff.2 ((equals_iff hx hy).1 h)⟩

theorem isIntegral_iff_toRat (hx : x.isFinite = true) :
    x.isIntegral = true ↔ ∃ k : ℤ, x.toRat = k := by
  have hpos := ne_of_gt unitsPerOne_pos_rat
  have hvalue : ∀ k : ℤ, x.toRat = k ↔ x.units = k * unitsPerOne := by
    intro k
    rw [toRat, div_eq_iff hpos]
    exact_mod_cast Iff.rfl
  rw [isIntegral_iff, and_iff_right hx, ← natAbs_units, ← Int.ofNat_dvd_left]
  constructor
  · rintro ⟨k, hk⟩
    exact ⟨k, (hvalue k).2 (hk.trans (Int.mul_comm _ _))⟩
  · rintro ⟨k, hk⟩
    exact ⟨k, ((hvalue k).1 hk).trans (Int.mul_comm _ _)⟩

end Binary32

open Source Grammar

variable {n : Binary32} {sign : Sign} {f : Figures}

theorem Source.IsWritten.leadingNumber (h : IsWritten n sign f) :
    Value.leadingNumber n.text = (Numeral.figures sign f none).value := by
  have hsolid := Text.solid_of_all fun c hc => isBlank_of_isPlain
    ((Numeral.figures sign f none).plain c hc)
  have hstart : Text.trimStart n.text.toList = (Numeral.figures sign f none).chars := by
    rw [← h.chars]
    exact hsolid.dropWhile
  rw [Value.leadingNumber, hstart, Decimal.leadingNumber_figures]

theorem toRat_leadingNumber_text (hn : n.isFinite = true) :
    (Value.leadingNumber n.text).isFinite = true ∧
      (Value.leadingNumber n.text).toRat = n.toRat := by
  obtain ⟨sign, f, hwritten⟩ := exists_isWritten hn
  rw [hwritten.leadingNumber]
  exact Binary32.toRat_of_equals hn hwritten.value

namespace Scene

variable {s : Scene} {rest : List Value}

theorem execute_unary {g : Value → Except Fault Value} {i : Instruction} {v w : Value}
    (hi : i.action s.script s.world = Taking.unary g) (hstack : s.script.stack = v :: rest)
    (hg : g v = .ok w) (hroom : rest.length < s.script.maxStackDepth) :
    s.execute i = (.ok .continued, s.withStack (w :: rest)) := by
  have hrun : (i.action s.script s.world).run s.script.stack = (.ok (.push w), rest) := by
    rw [hi, hstack]
    change (Taking.check (g v) >>= fun w => pure (Action.push w)).run rest = _
    rw [hg]
    rfl
  rw [execute_eq hrun]
  exact perform_push_of_room (s := s.withStack rest) hroom

/-- The text of a finite number has a point just if the number has a fraction, and is read as an
equal number, so that no two values have one text. -/
theorem number_string_number (n : Binary32) (hn : n.isFinite = true) :
    (∃ sign f, sign ≠ .plus ∧ n.text.toList = (Numeral.figures sign f none).chars ∧
      f.IsPositional (¬∃ k : ℤ, n.toRat = k)) ∧
    (Value.leadingNumber n.text).isFinite = true ∧
    (Value.leadingNumber n.text).toRat = n.toRat ∧
    (∀ m : Binary32, m.isFinite = true → m.toRat ≠ n.toRat → m.text ≠ n.text) ∧
    ∀ (id : ScriptId) (unit : CodeUnit) (owner : Option Handle) (settings : MachineSettings)
      (s : Scene) (rest : List Value) (o o' : Operand) (line line' : Nat),
      (Script.start id unit owner settings).Leads s.script → s.script.stack = .number n :: rest →
      s.executeBoth ⟨.numberToString, o, line⟩ ⟨.stringToNumber, o', line'⟩ =
        (.ok .continued, s.withStack (.number (Value.leadingNumber n.text) :: rest)) := by
  obtain ⟨hfinite, hvalue⟩ := toRat_leadingNumber_text hn
  refine ⟨?_, hfinite, hvalue, fun m hm hne htext => hne ?_, ?_⟩
  · obtain ⟨sign, f, hwritten⟩ := exists_isWritten hn
    obtain ⟨hwhole, hfraction, hpoint⟩ := hwritten.positional
    refine ⟨sign, f, hwritten.sparing, hwritten.chars.symm, hwhole, hfraction, hpoint.trans ?_⟩
    rw [← Binary32.isIntegral_iff_toRat hn, Bool.not_eq_true]
  · rw [← hvalue, ← htext, (toRat_leadingNumber_text hm).2]
  · intro id unit owner settings s rest o o' line line' hs hstack
    have hroom := hs.room hstack
    have hfirst : s.execute ⟨.numberToString, o, line⟩ =
        (.ok .continued, s.withStack (.string n.text :: rest)) :=
      execute_unary rfl hstack rfl hroom
    unfold executeBoth
    rw [hfirst]
    exact execute_unary (s := s.withStack (.string n.text :: rest)) rfl rfl rfl hroom

theorem number_string_number_of_fraction :
    let n : Binary32 := ⟨0x40200000⟩
    n.isFinite = true ∧ (Value.leadingNumber n.text).toRat = n.toRat ∧
      (holding (.number n) Value.zero).executeBoth ⟨.numberToString, .none, 0⟩
          ⟨.stringToNumber, .none, 1⟩ =
        (.ok .continued, (holding (.number n) Value.zero).withStack
          [.number (Value.leadingNumber n.text), Value.zero]) := by
  obtain ⟨-, -, hvalue, -, hexecute⟩ := number_string_number ⟨0x40200000⟩ (by decide)
  exact ⟨by decide, hvalue,
    hexecute _ _ _ _ _ _ _ _ _ _ (leads_holding (.number ⟨0x40200000⟩) Value.zero) rfl⟩

end Scene

end WorldScript
