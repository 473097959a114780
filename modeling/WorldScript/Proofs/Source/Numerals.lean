import Mathlib.Data.List.TakeWhile
import WorldScript.Proofs.Binary32.Order
import WorldScript.Proofs.Decimal.Shortest
import WorldScript.Proofs.Source.Grammar

/-!
Every number is written as a numeral. The text of a number, with its sign, its digits and its point,
or with its word, is one of the grammar, and it is read as an equal number.

Main statements: `exists_isWritten` and `exists_numeral`.
-/
set_option autoImplicit false

namespace WorldScript.Source

open Grammar Decimal

variable {d : Decimal} {x : Binary32}

/-! ### Positional digits -/

/-- The zeros that are left out stood at the end, and are counted by the exponent. -/
theorem digits_eq_stripZeros (d : Decimal) :
    ∃ k : Nat, d.stripZeros.2 = d.exponent + k ∧
      digits d.coefficient = d.stripZeros.1 ++ List.replicate k '0' := by
  let reversed := (digits d.coefficient).reverse
  let zeros := reversed.takeWhile (· == '0')
  let kept := reversed.dropWhile (· == '0')
  have hsplit : zeros ++ kept = reversed := List.takeWhile_append_dropWhile
  have hlength : zeros.length + kept.length = reversed.length := by
    rw [← List.length_append, hsplit]
  have hzeros : zeros = List.replicate zeros.length '0' :=
    List.eq_replicate_iff.2 ⟨rfl, fun c hc => by simpa using List.mem_takeWhile_imp hc⟩
  refine ⟨zeros.length, ?_, ?_⟩
  · have hexponent : d.stripZeros.2 = d.exponent + (reversed.length - kept.length : Int) := rfl
    omega
  · calc digits d.coefficient = (zeros ++ kept).reverse := by rw [hsplit, List.reverse_reverse]
      _ = kept.reverse ++ zeros.reverse := List.reverse_append
      _ = kept.reverse ++ List.replicate zeros.length '0' := by
        rw [hzeros, List.reverse_replicate, List.length_replicate]

theorem stripZeros_spec (hd : 0 < d.coefficient) :
    d.stripZeros.1 ≠ [] ∧ (∀ c ∈ d.stripZeros.1, c.isDigit = true) ∧
      (Decimal.mk (ofDigits d.stripZeros.1) d.stripZeros.2).magnitude = d.magnitude := by
  obtain ⟨k, hexponent, hdigits⟩ := digits_eq_stripZeros d
  have hvalue : d.coefficient = ofDigits d.stripZeros.1 * tenTo k := by
    rw [← ofDigits_append_zeros, ← hdigits, ofDigits_digits]
  refine ⟨fun hnil => ?_, fun c hc => ?_, ?_⟩
  · rw [hvalue, hnil] at hd
    simp [ofDigits] at hd
  · refine isDigit_of_mem_digits (n := d.coefficient) ?_
    rw [hdigits]
    exact List.mem_append_left _ hc
  · rw [hexponent, ← magnitude_mul_tenTo, ← hvalue]

namespace Grammar.Figures

def decimal (f : Figures) : Decimal :=
  Literal.decimal ⟨false, f.whole, f.fraction.getD [], 0⟩

/-- Digits, and digits on both sides of the point if there is one. -/
structure IsPositional (f : Figures) (pointed : Prop) : Prop where
  whole : f.whole ≠ []
  fraction : f.fraction ≠ some []
  pointed : f.fraction.isSome = true ↔ pointed

def plain (ds : List Char) (hdigit : ∀ c ∈ ds, c.isDigit = true) (hne : ds ≠ []) : Figures where
  whole := ds
  fraction := none
  digits := by simpa using hdigit
  nonempty := by simpa using hne

def pointed (whole fraction : List Char) (hdigit : ∀ c ∈ whole ++ fraction, c.isDigit = true)
    (hne : whole ++ fraction ≠ []) : Figures where
  whole := whole
  fraction := some fraction
  digits := hdigit
  nonempty := hne

variable {ds whole fraction : List Char}

theorem chars_plain (hdigit : ∀ c ∈ ds, c.isDigit = true) (hne : ds ≠ []) :
    (plain ds hdigit hne).chars = ds := List.append_nil ds

theorem isPositional_plain (hdigit : ∀ c ∈ ds, c.isDigit = true) (hne : ds ≠ []) {pointed : Prop}
    (h : ¬pointed) : (plain ds hdigit hne).IsPositional pointed :=
  ⟨hne, nofun, iff_of_false Bool.false_ne_true h⟩

theorem isPositional_pointed (hdigit : ∀ c ∈ whole ++ fraction, c.isDigit = true)
    (hwhole : whole ≠ []) (hfraction : fraction ≠ []) {point : Prop} (h : point) :
    (pointed whole fraction hdigit (by simp [hwhole])).IsPositional point :=
  ⟨hwhole, fun he => hfraction (Option.some.inj he), iff_of_true rfl h⟩

theorem decimal_plain (hdigit : ∀ c ∈ ds, c.isDigit = true) (hne : ds ≠ []) :
    (plain ds hdigit hne).decimal = ⟨ofDigits ds, 0⟩ := by
  simp [decimal, plain, Literal.decimal]

theorem decimal_pointed (hdigit : ∀ c ∈ whole ++ fraction, c.isDigit = true)
    (hne : whole ++ fraction ≠ []) :
    (pointed whole fraction hdigit hne).decimal =
      ⟨ofDigits (whole ++ fraction), -fraction.length⟩ := by
  simp [decimal, pointed, Literal.decimal]

end Grammar.Figures

theorem isDigit_of_mem_zeros {k : Nat} {c : Char} (hc : c ∈ List.replicate k '0') :
    c.isDigit = true := by
  rw [(List.mem_replicate.1 hc).2]
  decide

/-- The positional form of a decimal is digits with at most one point, and of the same value. -/
theorem exists_figures (hd : 0 < d.coefficient) :
    ∃ f : Figures, f.chars = d.positional ∧ f.decimal.magnitude = d.magnitude ∧
      f.IsPositional (d.stripZeros.2 < 0) := by
  obtain ⟨hne, hdigit, hvalue⟩ := stripZeros_spec hd
  unfold positional
  generalize d.stripZeros = kept at hne hdigit hvalue ⊢
  obtain ⟨ds, e⟩ := kept
  dsimp only at hne hdigit hvalue ⊢
  by_cases he : 0 ≤ e
  · -- zeros are filled in after the digits
    have hdigits : ∀ c ∈ ds ++ List.replicate e.toNat '0', c.isDigit = true :=
      fun c hc => (List.mem_append.1 hc).elim (hdigit c) isDigit_of_mem_zeros
    refine ⟨.plain _ hdigits (by simp [hne]), ?_, ?_,
      Figures.isPositional_plain _ _ (Int.not_lt.2 he)⟩
    · rw [if_pos he, Figures.chars_plain]
    · have hexponent : (0 : Int) + e.toNat = e := by omega
      rw [Figures.decimal_plain, ofDigits_append_zeros, magnitude_mul_tenTo, hexponent, hvalue]
  rw [if_neg he]
  have hnegative : e < 0 := Int.not_le.1 he
  by_cases hplaces : (-e).toNat < ds.length
  · -- the point stands among the digits
    have hparts := List.take_append_drop (ds.length - (-e).toNat) ds
    have hwhole : ds.take (ds.length - (-e).toNat) ≠ [] := by
      refine List.ne_nil_of_length_pos ?_
      rw [List.length_take]
      omega
    have hfraction : ds.drop (ds.length - (-e).toNat) ≠ [] := by
      refine List.ne_nil_of_length_pos ?_
      rw [List.length_drop]
      omega
    refine ⟨.pointed (ds.take (ds.length - (-e).toNat)) (ds.drop (ds.length - (-e).toNat))
      (by rwa [hparts]) (by rwa [hparts]), ?_, ?_,
      Figures.isPositional_pointed _ hwhole hfraction hnegative⟩
    · rw [if_pos hplaces]
      rfl
    · have hexponent : -((ds.drop (ds.length - (-e).toNat)).length : Int) = e := by
        rw [List.length_drop]
        omega
      rw [Figures.decimal_pointed, hparts, hexponent, hvalue]
  · -- zeros are filled in before the digits
    let fraction := List.replicate ((-e).toNat - ds.length) '0' ++ ds
    have hwhole : ['0'] ++ fraction =
        List.replicate ((-e).toNat - ds.length + 1) '0' ++ ds := rfl
    have hdigits : ∀ c ∈ ['0'] ++ fraction, c.isDigit = true := by
      rw [hwhole]
      exact fun c hc => (List.mem_append.1 hc).elim isDigit_of_mem_zeros (hdigit c)
    refine ⟨.pointed ['0'] fraction hdigits (by simp), ?_, ?_,
      Figures.isPositional_pointed _ (List.cons_ne_nil _ _) (by simp [fraction, hne]) hnegative⟩
    · rw [if_neg hplaces]
      rfl
    · have hexponent : -(fraction.length : Int) = e := by
        simp only [fraction, List.length_append, List.length_replicate]
        omega
      rw [Figures.decimal_pointed, hwhole, ofDigits_zeros_append, hexponent, hvalue]

/-! ### Texts of numbers -/

def signOf (x : Binary32) : Sign := if x.isNegative then .minus else .none

theorem negative_signOf (x : Binary32) : (signOf x).negative = x.isNegative := by
  unfold signOf
  cases x.isNegative <;> rfl

theorem toList_signed (x : Binary32) (body : List Char) :
    (x.signed body).toList = (signOf x).chars ++ body := by
  unfold signOf Binary32.signed
  cases x.isNegative <;> simp [Sign.chars]

theorem equals_self (hx : x.isNaN = false) : x.equals x = true :=
  (Binary32.equals_iff_rank hx hx).2 rfl

theorem signOf_ne_plus (x : Binary32) : signOf x ≠ .plus := by
  unfold signOf
  cases x.isNegative <;> exact nofun

/-- A number is written as figures without an exponent, with a point if it has a fraction, and they
are read as an equal number. -/
structure IsWritten (x : Binary32) (sign : Sign) (f : Figures) : Prop where
  sparing : sign ≠ .plus
  positional : f.IsPositional (x.isIntegral = false)
  chars : (Numeral.figures sign f none).chars = x.text.toList
  value : (Numeral.figures sign f none).value.equals x = true

theorem equals_value_figures (hx : x.isNaN = false) {f : Figures}
    (hvalue : f.decimal.magnitude = x.magnitude) :
    (Numeral.figures (signOf x) f none).value.equals x = true := by
  have hread : (Numeral.figures (signOf x) f none).value =
      Binary32.ofMagnitude (signOf x).negative f.decimal.magnitude := rfl
  rw [hread, negative_signOf, hvalue, Binary32.ofMagnitude_magnitude]
  exact equals_self hx

theorem chars_figures_signOf (x : Binary32) (f : Figures) :
    (Numeral.figures (signOf x) f none).chars = (x.signed f.chars).toList := by
  rw [toList_signed]
  exact List.append_nil _

theorem exists_isWritten_of_isIntegral (hx : x.isIntegral = true) :
    ∃ sign f, IsWritten x sign f := by
  obtain ⟨hfinite, hwhole⟩ := Binary32.isIntegral_iff.1 hx
  have hnan := Binary32.isNaN_of_isFinite hfinite
  have hpoint : ¬x.isIntegral = false := by rw [hx]; exact Bool.true_eq_false_eq_False
  by_cases hzero : x.isZero = true
  · have hmagnitude : x.magnitude = 0 := of_decide_eq_true hzero
    have hdigit : ∀ c ∈ ['0'], c.isDigit = true := by simp
    refine ⟨.none, .plain ['0'] hdigit (List.cons_ne_nil _ _), nofun,
      Figures.isPositional_plain _ _ hpoint, ?_, ?_⟩
    · rw [Binary32.text, if_pos hx, if_pos hzero]
      rfl
    · refine (Binary32.equals_iff_rank rfl hnan).2 ?_
      simp [Binary32.rank, hmagnitude]
      rfl
  · have hunits : x.absUnits / Binary32.unitsPerOne * Binary32.unitsPerOne =
        Binary32.unitsOfMagnitude x.magnitude := Nat.div_mul_cancel hwhole
    have hpos : 0 < x.absUnits / Binary32.unitsPerOne := by
      refine Nat.pos_of_ne_zero fun hnone => hzero (decide_eq_true ?_)
      rw [hnone, Nat.zero_mul] at hunits
      exact (Binary32.unitsOfMagnitude_eq_zero_iff _).1 hunits.symm
    have hread := magnitude_whole hpos (Binary32.isFinite_iff.1 hfinite) hunits
    have hdigit : ∀ c ∈ digits (x.absUnits / Binary32.unitsPerOne), c.isDigit = true :=
      fun c hc => isDigit_of_mem_digits hc
    refine ⟨signOf x, .plain _ hdigit (digits_ne_nil _), signOf_ne_plus x,
      Figures.isPositional_plain _ _ hpoint, ?_, equals_value_figures hnan ?_⟩
    · rw [chars_figures_signOf, Figures.chars_plain, Binary32.text, if_pos hx, if_neg hzero]
    · rw [Figures.decimal_plain, ofDigits_digits, hread]

theorem exponent_shortest_neg (hx : x.isIntegral = false) (hfinite : x.isFinite = true)
    (hcoefficient : 0 < (shortest x.magnitude).coefficient)
    (hshortest : (shortest x.magnitude).magnitude = x.magnitude) :
    (shortest x.magnitude).stripZeros.2 < 0 := by
  obtain ⟨-, -, hvalue⟩ := stripZeros_spec hcoefficient
  by_contra hexponent
  have hread := hvalue.trans hshortest
  have hbelow := Binary32.isFinite_iff.1 hfinite
  rw [← hread] at hbelow
  have hdvd := unitsPerOne_dvd_magnitude (Int.not_lt.1 hexponent) hbelow
  rw [hread] at hdvd
  rw [Binary32.isIntegral_iff.2 ⟨hfinite, hdvd⟩] at hx
  cases hx

theorem exists_isWritten_of_not_isIntegral (hx : x.isIntegral = false)
    (hfinite : x.isFinite = true) : ∃ sign f, IsWritten x sign f := by
  have hnan := Binary32.isNaN_of_isFinite hfinite
  have hbelow := Binary32.isFinite_iff.1 hfinite
  have hpos : 0 < x.magnitude := by
    refine Nat.pos_of_ne_zero fun hzero => ?_
    have hdvd : Binary32.unitsPerOne ∣ x.absUnits := by
      rw [Binary32.absUnits, hzero]
      exact Nat.dvd_zero _
    rw [Binary32.isIntegral_iff.2 ⟨hfinite, hdvd⟩] at hx
    cases hx
  have hshortest := magnitude_shortest hpos hbelow
  have hcoefficient : 0 < (shortest x.magnitude).coefficient := by
    refine Nat.pos_of_ne_zero fun hzero => ?_
    rw [magnitude, hzero] at hshortest
    exact Nat.ne_of_lt hpos (by simpa using hshortest)
  have hexponent := exponent_shortest_neg hx hfinite hcoefficient hshortest
  obtain ⟨f, hchars, hvalue, hwhole, hfraction, hpoint⟩ := exists_figures hcoefficient
  have htext : x.text = x.signed f.chars := by
    have hinfinite : x.isInfinite = false := by
      simp [Binary32.isInfinite, Nat.ne_of_lt hbelow]
    have hzero : x.isZero = false := by
      simp [Binary32.isZero, Nat.ne_of_gt hpos]
    rw [hchars, Binary32.text, Binary32.plainText]
    simp [hx, hnan, hinfinite, hzero]
  refine ⟨signOf x, f, signOf_ne_plus x,
    ⟨hwhole, hfraction, hpoint.trans (iff_of_true hexponent hx)⟩, ?_,
    equals_value_figures hnan (hvalue.trans hshortest)⟩
  rw [chars_figures_signOf, htext]

theorem exists_isWritten (hfinite : x.isFinite = true) : ∃ sign f, IsWritten x sign f := by
  cases hx : x.isIntegral with
  | true => exact exists_isWritten_of_isIntegral hx
  | false => exact exists_isWritten_of_not_isIntegral hx hfinite

/-- Every number is written as a numeral, which is read as an equal number; or as no number, if it
is none. -/
theorem exists_numeral (x : Binary32) :
    ∃ n : Numeral, n.chars = x.text.toList ∧
      (x.isNaN = true ∧ n.value.isNaN = true ∨ n.value.equals x = true) := by
  cases hfinite : x.isFinite with
  | true =>
    obtain ⟨sign, f, hwritten⟩ := exists_isWritten hfinite
    exact ⟨.figures sign f none, hwritten.chars, .inr hwritten.value⟩
  | false =>
    have hx : x.isIntegral = false := by simp [Binary32.isIntegral, hfinite]
    rw [Binary32.text, hx, if_neg Bool.false_ne_true, Binary32.plainText]
    cases hnan : x.isNaN with
    | true =>
      rw [if_pos rfl]
      exact ⟨.nan .none "NaN".toList (by decide), rfl, .inl ⟨rfl, by decide⟩⟩
    | false =>
      have hmagnitude : x.magnitude = Binary32.infiniteMagnitude := by
        simp only [Binary32.isFinite, Binary32.isNaN, decide_eq_false_iff_not] at hfinite hnan
        omega
      have hinfinite : x.isInfinite = true := decide_eq_true hmagnitude
      rw [if_neg Bool.false_ne_true, if_pos hinfinite, toList_signed]
      refine ⟨.infinite (signOf x) "inf".toList (by decide), rfl, .inr ?_⟩
      rw [Numeral.value, negative_signOf, ← hmagnitude, Binary32.ofMagnitude_magnitude]
      exact equals_self hnan

end WorldScript.Source
