import WorldScript.Proofs.Source.Grammar
import WorldScript.Proofs.Source.Scanning

/-!
Words, numbers and strings of the grammar, as the assembler reads them: each is read as what it
means, and none of them has anything at its ends, or outside quotes, that a scanner of lines could
take for something else.
-/
set_option autoImplicit false

namespace WorldScript.Source

/-! ### Plain words -/

theorem isPlain_of_isDigit {c : Char} (h : c.isDigit = true) : isPlain c = true :=
  isPlain_of_isAlphanum (by simp [Char.isAlphanum, h])

theorem isAlpha_of_isUpper {c : Char} (h : c.isUpper = true) : c.isAlpha = true := by
  unfold Char.isAlpha
  rw [h, Bool.true_or]

theorem isPlain_of_isUpper {c : Char} (h : c.isUpper = true) : isPlain c = true :=
  isPlain_of_isAlphanum (by simp [Char.isAlphanum, isAlpha_of_isUpper h])

theorem isDigit_eq_false {c : Char} (h : c.isAlpha = true) : c.isDigit = false := by
  unfold Char.isAlpha Char.isUpper Char.isLower at h
  unfold Char.isDigit
  simp only [Bool.or_eq_true, Bool.and_eq_true, decide_eq_true_eq, Bool.and_eq_false_iff,
    decide_eq_false_iff_not, ge_iff_le, UInt32.le_iff_toNat_le] at h ⊢
  change (65 ≤ c.toNat ∧ c.toNat ≤ 90) ∨ (97 ≤ c.toNat ∧ c.toNat ≤ 122) at h
  change ¬48 ≤ c.toNat ∨ ¬c.toNat ≤ 57
  omega

theorem isUpper_or_toLower_eq (c : Char) : c.isUpper = true ∨ c.toLower = c := by
  unfold Char.toLower Char.isUpper
  split
  case isTrue hrange => exact .inl (by simpa using hrange)
  case isFalse => exact .inr rfl

namespace Grammar

theorem Spells.all {word : List Char} {s : String} (h : Spells word s) {P : Char → Prop}
    (hupper : ∀ c, c.isUpper = true → P c) (hs : ∀ c ∈ s.toList, P c) : ∀ c ∈ word, P c := by
  intro c hc
  obtain hcase | hcase := isUpper_or_toLower_eq c
  · exact hupper c hcase
  · refine hs c ?_
    rw [← h, ← hcase]
    exact List.mem_map_of_mem hc

theorem Spells.plain {word : List Char} {s : String} (h : Spells word s)
    (hs : s.toList.all isPlain = true) : ∀ c ∈ word, isPlain c = true :=
  h.all (fun _ hupper => isPlain_of_isUpper hupper) (List.all_eq_true.1 hs)

theorem Spells.notMem {word : List Char} {s : String} (h : Spells word s) {c : Char}
    (hc : c.toLower = c) (hs : c ∉ s.toList) : c ∉ word := by
  intro hmem
  refine hs ?_
  rw [← h, ← hc]
  exact List.mem_map_of_mem hmem

theorem Spells.ne_nil {word : List Char} {s : String} (h : Spells word s) (hs : s.toList ≠ []) :
    word ≠ [] := by
  rintro rfl
  exact hs h.symm

theorem Name.plain (n : Name) : ∀ c ∈ n.chars, isPlain c = true := by
  intro c hc
  obtain rfl | hc := List.mem_cons.1 hc
  · obtain h | h := n.starts
    · exact isPlain_of_isAlphanum (by simp [Char.isAlphanum, h])
    · rw [h]
      decide
  · obtain h | rfl := n.continues c hc
    · exact isPlain_of_isAlphanum h
    · decide

theorem Name.isName (n : Name) : Source.isName n.chars = true := by
  simp only [chars, Source.isName, isNameStart, isNameChar, Bool.and_eq_true, Bool.or_eq_true,
    beq_iff_eq, List.all_eq_true]
  exact ⟨n.starts, n.continues⟩

theorem Digits.plain (d : Digits) : ∀ c ∈ d.chars, isPlain c = true :=
  fun c hc => isPlain_of_isDigit (d.digits c hc)

/-! ### Whole numbers -/

theorem readBounded?_cons {c : Char} (h : c ≠ '+') (rest : List Char) (bound : Nat) :
    Decimal.readBounded? bound (c :: rest) =
      if (c :: rest).all Char.isDigit then
        if Decimal.ofDigits (c :: rest) ≤ bound then some (Decimal.ofDigits (c :: rest)) else none
      else none := by
  unfold Decimal.readBounded?
  split
  case h_1 he => exact absurd (List.cons.inj he).1 h
  case h_2 =>
    simp only [List.isEmpty_cons, Bool.false_or, Bool.not_eq_true', ← Bool.not_eq_true, ite_not]

theorem Digits.readBounded? (d : Digits) {bound : Nat} (h : d.value ≤ bound) :
    Decimal.readBounded? bound d.chars = some d.value := by
  have hdigit := d.digits d.first (by simp)
  have hplus : d.first ≠ '+' := by
    intro he
    rw [he] at hdigit
    exact absurd hdigit (by decide)
  rw [chars, readBounded?_cons hplus, if_pos (List.all_eq_true.2 d.digits)]
  exact if_pos h

theorem Name.readBounded? (n : Name) (bound : Nat) :
    Decimal.readBounded? bound n.chars = none := by
  have hfirst : n.first ≠ '+' ∧ n.first.isDigit = false := by
    obtain h | h := n.starts
    · refine ⟨?_, isDigit_eq_false h⟩
      intro he
      rw [he] at h
      exact absurd h (by decide)
    · rw [h]
      decide
  rw [chars, readBounded?_cons hfirst.1, if_neg (by simp [hfirst.2])]

/-! ### Numbers -/

open Decimal (takeSign scanExponent scanFraction)

theorem takeSign_append (sign : Sign) {rest : List Char}
    (h : ∀ c, rest.head? = some c → c ≠ '+' ∧ c ≠ '-') :
    takeSign (sign.chars ++ rest) = (sign.negative, rest) := by
  cases sign with
  | plus | minus => rfl
  | none =>
    change takeSign rest = (false, rest)
    unfold takeSign
    split
    case h_1 => exact absurd rfl (h _ rfl).2
    case h_2 => exact absurd rfl (h _ rfl).1
    case h_3 => rfl

theorem takeWhile_digits {ds : List Char} (hds : ∀ c ∈ ds, c.isDigit = true) (rest : List Char)
    (hrest : ∀ c, rest.head? = some c → c.isDigit = false) :
    (ds ++ rest).takeWhile Char.isDigit = ds ∧ (ds ++ rest).dropWhile Char.isDigit = rest := by
  rw [List.takeWhile_append_of_pos hds, List.dropWhile_append_of_pos hds]
  cases rest with
  | nil => simp
  | cons c rest => simp [hrest c rfl]

theorem Digits.head (d : Digits) {rest : List Char} {c : Char}
    (h : (d.chars ++ rest).head? = some c) : c.isDigit = true := by
  obtain rfl : d.first = c := Option.some.inj h
  exact d.digits _ (by simp)

theorem ne_sign_of_isDigit {c : Char} (h : c.isDigit = true) : c ≠ '+' ∧ c ≠ '-' := by
  constructor
  · rintro rfl
    exact absurd h (by decide)
  · rintro rfl
    exact absurd h (by decide)

theorem Exponent.scan (e : Exponent) : scanExponent e.chars = (e.value, []) := by
  have hsign : takeSign (e.sign.chars ++ e.digits.chars) = (e.sign.negative, e.digits.chars) := by
    refine takeSign_append e.sign fun c hc => ne_sign_of_isDigit ?_
    rw [← List.append_nil e.digits.chars] at hc
    exact e.digits.head hc
  obtain ⟨htake, hdrop⟩ := takeWhile_digits e.digits.digits [] (by simp)
  rw [List.append_nil] at htake hdrop
  have hdigits : e.digits.first :: e.digits.rest = e.digits.chars := rfl
  rw [hdigits] at htake hdrop
  unfold scanExponent chars
  simp only [e.marks, if_true, hsign, htake, hdrop]
  rfl

/-- What may stand behind the digits of a number: nothing that continues them. -/
theorem head_exponent {exponent : Option Exponent} {c : Char}
    (h : ((exponent.map Exponent.chars).getD []).head? = some c) : c = 'e' ∨ c = 'E' := by
  cases exponent with
  | none => cases h
  | some e =>
    obtain rfl : e.mark = c := Option.some.inj h
    exact e.marks

theorem scanExponent_option (exponent : Option Exponent) :
    scanExponent ((exponent.map Exponent.chars).getD []) =
      ((exponent.map Exponent.value).getD 0, []) := by
  cases exponent with
  | none => rfl
  | some e => exact e.scan

theorem Figures.head (f : Figures) {rest : List Char} {c : Char}
    (h : (f.chars ++ rest).head? = some c) : c.isDigit = true ∨ c = '.' := by
  obtain ⟨whole, fraction, hdigits, hnonempty⟩ := f
  cases whole with
  | cons d whole =>
    obtain rfl : d = c := Option.some.inj h
    exact .inl (hdigits d (by simp))
  | nil =>
    cases fraction with
    | none => exact absurd rfl hnonempty
    | some ds => exact .inr (Option.some.inj h).symm

theorem Figures.scan (f : Figures) (rest : List Char) (hdigit : ∀ c, rest.head? = some c →
    c.isDigit = false) (hpoint : ∀ c, rest.head? = some c → c ≠ '.') :
    (f.chars ++ rest).takeWhile Char.isDigit = f.whole ∧
      scanFraction ((f.chars ++ rest).dropWhile Char.isDigit) = (f.fraction.getD [], rest) := by
  obtain ⟨whole, fraction, hdigits, hnonempty⟩ := f
  have hwhole : ∀ c ∈ whole, c.isDigit = true := fun c hc => hdigits c (by simp [hc])
  cases fraction with
  | none =>
    obtain ⟨htake, hdrop⟩ := takeWhile_digits hwhole rest hdigit
    simp only [chars, Option.map_none, Option.getD_none, List.append_nil, htake, hdrop, true_and]
    unfold scanFraction
    split
    case h_1 => exact absurd rfl (hpoint _ rfl)
    case h_2 => rfl
  | some ds =>
    obtain ⟨htake, hdrop⟩ := takeWhile_digits hwhole ('.' :: (ds ++ rest)) (by simp)
    have hds : ∀ c ∈ ds, c.isDigit = true := fun c hc => hdigits c (by simp [hc])
    obtain ⟨htake', hdrop'⟩ := takeWhile_digits hds rest hdigit
    simp only [chars, Option.map_some, Option.getD_some, List.append_assoc, List.cons_append, htake,
      hdrop, scanFraction, htake', hdrop', and_self]

theorem takeSign_figures (sign : Sign) (f : Figures) (exponent : Option Exponent) :
    takeSign (Numeral.figures sign f exponent).chars =
      (sign.negative, f.chars ++ (exponent.map Exponent.chars).getD []) := by
  rw [Numeral.chars, List.append_assoc]
  refine takeSign_append sign fun c hc => ?_
  obtain h | rfl := f.head hc
  · exact ne_sign_of_isDigit h
  · decide

theorem scan_figures (sign : Sign) (f : Figures) (exponent : Option Exponent) :
    Decimal.Literal.scan (Numeral.figures sign f exponent).chars =
      some (⟨sign.negative, f.whole, f.fraction.getD [],
        (exponent.map Exponent.value).getD 0⟩, []) := by
  obtain ⟨hwhole, hfraction⟩ := f.scan ((exponent.map Exponent.chars).getD [])
    (fun c hc => by obtain rfl | rfl := head_exponent hc <;> decide)
    (fun c hc => by obtain rfl | rfl := head_exponent hc <;> decide)
  have hne : ¬((f.whole.isEmpty && (f.fraction.getD []).isEmpty) = true) := by
    have := f.nonempty
    simpa [← List.append_eq_nil_iff] using this
  unfold Decimal.Literal.scan
  simp only [takeSign_figures, hwhole, hfraction, hne, scanExponent_option]
  rfl

theorem Figures.ne_nil (f : Figures) (rest : List Char) : f.chars ++ rest ≠ [] := by
  obtain ⟨whole, fraction, hdigits, hnonempty⟩ := f
  cases fraction with
  | none =>
    have hwhole : whole ≠ [] := by simpa using hnonempty
    simp [chars, hwhole]
  | some ds => simp [chars]

theorem wordMagnitude?_figures (f : Figures) (rest : List Char) :
    Decimal.wordMagnitude? (f.chars ++ rest) = none := by
  obtain ⟨c, cs, he⟩ := List.exists_cons_of_ne_nil (f.ne_nil rest)
  have hc : c.isDigit = true ∨ c = '.' := f.head (by rw [he]; rfl)
  have hlower : c.toLower = c := by
    obtain hupper | hlower := isUpper_or_toLower_eq c
    · obtain h | rfl := hc
      · rw [isDigit_eq_false (isAlpha_of_isUpper hupper)] at h
        cases h
      · exact absurd hupper (by decide)
    · exact hlower
  have hi : c ≠ 'i' := by
    rintro rfl
    exact absurd hc (by decide)
  have hn : c ≠ 'n' := by
    rintro rfl
    exact absurd hc (by decide)
  unfold Decimal.wordMagnitude?
  simp [he, hlower, hi, hn]

theorem Spells.takeSign {word : List Char} {s : String} (h : Spells word s) (sign : Sign)
    (hs : '+' ∉ s.toList ∧ '-' ∉ s.toList) :
    Decimal.takeSign (sign.chars ++ word) = (sign.negative, word) := by
  refine takeSign_append sign fun c hc => ?_
  have hmem := List.mem_of_mem_head? hc
  constructor
  · rintro rfl
    exact h.notMem rfl hs.1 hmem
  · rintro rfl
    exact h.notMem rfl hs.2 hmem

theorem Numeral.readNumber? (n : Numeral) : Decimal.readNumber? n.chars = some n.value := by
  cases n with
  | figures sign f exponent =>
    unfold Decimal.readNumber?
    simp only [takeSign_figures, wordMagnitude?_figures, scan_figures]
    rfl
  | infinite sign word spelled =>
    have hsign : Decimal.takeSign (sign.chars ++ word) = (sign.negative, word) := by
      obtain h | h := spelled <;> exact h.takeSign sign (by decide)
    have hword : Decimal.wordMagnitude? word = some Binary32.infiniteMagnitude := by
      obtain h | h := spelled <;>
        simp [Decimal.wordMagnitude?, show word.map Char.toLower = _ from h]
    simp only [Decimal.readNumber?, chars, hsign, hword]
    rfl
  | nan sign word spelled =>
    have hword : Decimal.wordMagnitude? word = some Binary32.nan.magnitude := by
      simp [Decimal.wordMagnitude?, show word.map Char.toLower = _ from spelled]
    simp only [Decimal.readNumber?, chars, spelled.takeSign sign (by decide), hword]
    rfl

/-! ### Strings -/

theorem readEscaped?_pieces (pieces : List Piece) :
    readEscaped? (pieces.flatMap Piece.chars) = some (pieces.map Piece.value) := by
  induction pieces with
  | nil => rfl
  | cons piece pieces ih =>
    cases piece with
    | plain c bare =>
      obtain ⟨hquote, hbackslash, -⟩ := bare
      simp only [List.flatMap_cons, Piece.chars, List.singleton_append, List.map_cons, Piece.value]
      unfold readEscaped?
      split <;> simp_all
    | newline | tab | quote | backslash =>
      simp [Piece.chars, Piece.value, readEscaped?, unescape?, ih]

theorem readString?_pieces (pieces : List Piece) :
    readString? (Argument.string pieces).chars = some (pieces.map Piece.value) := by
  simp [Argument.chars, readString?, readEscaped?_pieces]

theorem strip_pieces (pieces : List Piece) (rest : List Char) :
    stripCommentFrom .inside (pieces.flatMap Piece.chars ++ '"' :: rest) =
      pieces.flatMap Piece.chars ++ '"' :: stripCommentFrom .outside rest := by
  induction pieces with
  | nil => rfl
  | cons piece pieces ih =>
    rw [List.flatMap_cons, List.append_assoc, List.append_assoc]
    cases piece with
    | plain c bare =>
      obtain ⟨hquote, hbackslash, -⟩ := bare
      have hnext : Scan.inside.next c = .inside := by
        unfold Scan.next
        split <;> simp_all
      simp [Piece.chars, stripCommentFrom, hnext, ih]
    | newline | tab | quote | backslash =>
      simp [Piece.chars, stripCommentFrom, Scan.next, ih]

theorem closed_string (pieces : List Piece) : Closed (Argument.string pieces).chars := by
  intro rest
  simp [Argument.chars, stripCommentFrom, Scan.next, strip_pieces]

/-! ### Arguments -/

def isFigure (c : Char) : Bool := c.isAlphanum || c == '+' || c == '-' || c == '.'

theorem isFigure_of_isDigit {c : Char} (h : c.isDigit = true) : isFigure c = true := by
  simp [isFigure, Char.isAlphanum, h]

theorem isPlain_of_isFigure {c : Char} (h : isFigure c = true) : isPlain c = true := by
  simp only [isFigure, Bool.or_eq_true, beq_iff_eq] at h
  obtain ((h | rfl) | rfl) | rfl := h
  · exact isPlain_of_isAlphanum h
  all_goals decide

theorem Sign.figures (sign : Sign) : ∀ c ∈ sign.chars, isFigure c = true := by
  refine List.all_eq_true.1 ?_
  cases sign <;> decide

theorem Figures.figures (f : Figures) : ∀ c ∈ f.chars, isFigure c = true := by
  obtain ⟨whole, fraction, hdigits, hnonempty⟩ := f
  intro c hc
  have hfigure : c ∈ whole ++ fraction.getD [] → isFigure c = true :=
    fun h => isFigure_of_isDigit (hdigits c h)
  cases fraction with
  | none => exact hfigure (by simpa [chars] using hc)
  | some ds =>
    simp only [chars, Option.map_some, Option.getD_some, List.mem_append, List.mem_cons] at hc
    obtain hc | rfl | hc := hc
    · exact hfigure (by simp [hc])
    · decide
    · exact hfigure (by simp [hc])

theorem Exponent.figures (e : Exponent) : ∀ c ∈ e.chars, isFigure c = true := by
  intro c hc
  simp only [chars, List.mem_cons, List.mem_append] at hc
  obtain rfl | hc | hc := hc
  · obtain h | h := e.marks <;> rw [h] <;> decide
  · exact e.sign.figures c hc
  · exact isFigure_of_isDigit (e.digits.digits c hc)

theorem Spells.figures {word : List Char} {s : String} (h : Spells word s)
    (hs : s.toList.all isFigure = true) : ∀ c ∈ word, isFigure c = true :=
  h.all (fun _ hupper => by simp [isFigure, Char.isAlphanum, isAlpha_of_isUpper hupper])
    (List.all_eq_true.1 hs)

theorem Numeral.figures_of_mem (n : Numeral) : ∀ c ∈ n.chars, isFigure c = true := by
  have happend : ∀ (sign : Sign) (cs : List Char), (∀ c ∈ cs, isFigure c = true) →
      ∀ c ∈ sign.chars ++ cs, isFigure c = true := by
    intro sign cs hcs c hc
    obtain hc | hc := List.mem_append.1 hc
    · exact sign.figures c hc
    · exact hcs c hc
  cases n with
  | figures sign f exponent =>
    rw [chars, List.append_assoc]
    refine happend sign _ fun c hc => ?_
    obtain hc | hc := List.mem_append.1 hc
    · exact f.figures c hc
    · cases exponent with
      | none => cases hc
      | some e => exact e.figures c hc
  | infinite sign word spelled =>
    refine happend sign word ?_
    obtain h | h := spelled <;> exact h.figures (by decide)
  | nan sign word spelled => exact happend sign word (spelled.figures (by decide))

theorem Numeral.plain (n : Numeral) : ∀ c ∈ n.chars, isPlain c = true :=
  fun c hc => isPlain_of_isFigure (n.figures_of_mem c hc)

theorem Numeral.ne_nil (n : Numeral) : n.chars ≠ [] := by
  cases n with
  | figures sign f exponent =>
    simp only [chars, List.append_assoc]
    exact List.append_ne_nil_of_right_ne_nil _ (f.ne_nil _)
  | infinite sign word spelled =>
    refine List.append_ne_nil_of_right_ne_nil _ ?_
    obtain h | h := spelled <;> exact h.ne_nil (by decide)
  | nan sign word spelled =>
    exact List.append_ne_nil_of_right_ne_nil _ (spelled.ne_nil (by decide))

theorem Target.plain (t : Target) : ∀ c ∈ t.chars, isPlain c = true := by
  cases t with
  | label n => exact n.plain
  | index d => exact d.plain

theorem plain_optional {c : Char} (h : isPlain c = true) (marked : Bool) {cs : List Char}
    (hcs : ∀ d ∈ cs, isPlain d = true) :
    ∀ d ∈ Argument.optional c marked ++ cs, isPlain d = true := by
  intro d hd
  cases marked with
  | true =>
    obtain rfl | hd := List.mem_cons.1 hd
    · exact h
    · exact hcs d hd
  | false => exact hcs d hd

theorem Argument.plain (a : Argument) :
    (∃ pieces, a = .string pieces) ∨ a.chars ≠ [] ∧ ∀ c ∈ a.chars, isPlain c = true := by
  cases a with
  | target marked t =>
    refine .inr ⟨List.append_ne_nil_of_right_ne_nil _ ?_, plain_optional (by decide) marked t.plain⟩
    cases t <;> exact List.cons_ne_nil _ _
  | slot marked d =>
    exact .inr ⟨List.append_ne_nil_of_right_ne_nil _ (List.cons_ne_nil _ _),
      plain_optional (by decide) marked d.plain⟩
  | number n => exact .inr ⟨n.ne_nil, n.plain⟩
  | entity d => exact .inr ⟨List.cons_ne_nil _ _, plain_optional (by decide) true d.plain⟩
  | string pieces => exact .inl ⟨pieces, rfl⟩

theorem Argument.closed (a : Argument) : Closed a.chars := by
  obtain ⟨pieces, rfl⟩ | ⟨-, h⟩ := a.plain
  · exact closed_string pieces
  · exact closed_of_isPlain h

theorem Argument.ne_nil (a : Argument) : a.chars ≠ [] := by
  obtain ⟨pieces, rfl⟩ | ⟨h, -⟩ := a.plain
  · exact List.cons_ne_nil _ _
  · exact h

theorem Argument.solid (a : Argument) : Text.Solid a.chars := by
  obtain ⟨pieces, rfl⟩ | ⟨-, h⟩ := a.plain
  · have hquote : Text.isBlank '"' = false := by decide
    constructor
    · intro c hc
      obtain rfl := Option.some.inj hc
      exact hquote
    · intro c hc
      rw [chars, ← List.cons_append, List.getLast?_append] at hc
      obtain rfl := Option.some.inj hc
      exact hquote
  · exact Text.solid_of_all fun c hc => isBlank_of_isPlain (h c hc)

end Grammar

end WorldScript.Source
