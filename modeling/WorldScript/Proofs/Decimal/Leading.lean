import Mathlib.Data.List.TakeWhile
import WorldScript.Proofs.Code.Containers
import WorldScript.Proofs.Decimal.Nearest
import WorldScript.Proofs.Source.Reading
import WorldScript.Value

/-!
The number at the beginning of a text is the longest numeral there. All of it is in the basic
alphabet, one byte for each character, so that what is found among the bytes of the text can be cut
off between two characters.

Main statement: `leadingNumber_longest`.
-/
set_option autoImplicit false

namespace WorldScript.Decimal

open Source Grammar

variable {c : Char} {cs ds rest : List Char}

/-! ### Bytes of characters -/

def bytesOf (cs : List Char) : List UInt8 := cs.flatMap String.utf8EncodeChar

theorem toList_toUTF8 (s : String) : s.toUTF8.toList = bytesOf s.toList := by
  have hbytes : s.toUTF8.toList = s.toByteArray.data.toList := Container.utf8_eq s
  have hencoded : (String.ofList s.toList).toByteArray = s.toList.utf8Encode :=
    String.toByteArray_ofList
  rw [String.ofList_toList] at hencoded
  rw [hbytes, hencoded]
  simp [List.utf8Encode, bytesOf]

theorem bytesOf_append (cs ds : List Char) : bytesOf (cs ++ ds) = bytesOf cs ++ bytesOf ds :=
  List.flatMap_append

theorem bytesOf_cons_basic (hc : c.toNat < 0x80) (cs : List Char) :
    bytesOf (c :: cs) = UInt8.ofNat c.toNat :: bytesOf cs := by
  have hsmall : c.val.toNat ≤ 127 := Nat.le_of_lt_succ hc
  rw [bytesOf, List.flatMap_cons, String.utf8EncodeChar]
  simp only [hsmall, if_true]
  rfl

theorem bytesOf_cons_other (hc : 0x80 ≤ c.toNat) (cs : List Char) :
    ∃ b rest, bytesOf (c :: cs) = b :: rest ∧ 0x80 ≤ b.toNat := by
  have hlarge : ¬c.val.toNat ≤ 127 := Nat.not_le.2 hc
  rw [bytesOf, List.flatMap_cons, String.utf8EncodeChar]
  simp only [hlarge, if_false]
  split
  · exact ⟨_, _, rfl, by rw [UInt8.toNat_ofNat']; omega⟩
  · split
    · exact ⟨_, _, rfl, by rw [UInt8.toNat_ofNat']; omega⟩
    · exact ⟨_, _, rfl, by rw [UInt8.toNat_ofNat']; omega⟩

theorem length_bytesOf (h : ∀ c ∈ cs, c.toNat < 0x80) : (bytesOf cs).length = cs.length := by
  induction cs with
  | nil => rfl
  | cons c cs ih =>
    rw [bytesOf_cons_basic (h c List.mem_cons_self), List.length_cons, List.length_cons,
      ih fun d hd => h d (List.mem_cons_of_mem c hd)]

theorem drop_bytesOf {front : List Char} {size : Nat} (hsplit : cs = front ++ rest)
    (hfront : ∀ c ∈ front, c.toNat < 0x80) (hsize : size = front.length) :
    (bytesOf cs).drop size = bytesOf rest := by
  rw [hsplit, bytesOf_append, hsize, ← length_bytesOf hfront, List.drop_left]

/-- A condition on first bytes that says of the basic alphabet what a condition on first characters
says, both being for this alphabet only. -/
theorem head_bytesOf {p : UInt8 → Prop} {q : Char → Prop}
    (hbasic : ∀ n < 0x80, p (UInt8.ofNat n) ↔ q (Char.ofNat n))
    (hp : ∀ b, p b → b.toNat < 0x80) (hq : ∀ c, q c → c.toNat < 0x80) (c : Char)
    (cs : List Char) :
    ∃ b rest, bytesOf (c :: cs) = b :: rest ∧ (p b ↔ q c) ∧ (q c → rest = bytesOf cs) := by
  by_cases hc : c.toNat < 0x80
  · refine ⟨_, _, bytesOf_cons_basic hc cs, ?_, fun _ => rfl⟩
    rw [hbasic _ hc, Char.ofNat_toNat]
  · obtain ⟨b, rest, hbytes, hb⟩ := bytesOf_cons_other (Nat.not_lt.1 hc) cs
    have hnot : ¬p b := fun h => Nat.not_lt.2 hb (hp b h)
    exact ⟨b, rest, hbytes, iff_of_false hnot fun h => hc (hq c h), fun h => absurd (hq c h) hc⟩

theorem toNat_of_isDigit (hc : c.isDigit = true) : c.toNat < 0x80 := by
  simp only [Char.isDigit, Bool.and_eq_true, decide_eq_true_eq, UInt32.le_iff_toNat_le] at hc
  exact Nat.lt_of_le_of_lt hc.2 (by decide)

theorem head_digit (c : Char) (cs : List Char) :
    ∃ b rest, bytesOf (c :: cs) = b :: rest ∧ (isDigitByte b = true ↔ c.isDigit = true) ∧
      (c.isDigit = true → rest = bytesOf cs) := by
  refine head_bytesOf (by decide) (fun b hb => ?_) (fun c hc => toNat_of_isDigit hc) c cs
  simp only [isDigitByte, Bool.and_eq_true, decide_eq_true_eq, UInt8.le_iff_toNat_le] at hb
  exact Nat.lt_of_le_of_lt hb.2 (by decide)

theorem head_sign (c : Char) (cs : List Char) :
    ∃ b rest, bytesOf (c :: cs) = b :: rest ∧ ((b = 0x2B ∨ b = 0x2D) ↔ (c = '+' ∨ c = '-')) ∧
      (c = '+' ∨ c = '-' → rest = bytesOf cs) := by
  refine head_bytesOf (p := fun b => b = 0x2B ∨ b = 0x2D) (q := fun c => c = '+' ∨ c = '-')
    (by decide) ?_ ?_ c cs <;> rintro _ (rfl | rfl) <;> decide

theorem head_point (c : Char) (cs : List Char) :
    ∃ b rest, bytesOf (c :: cs) = b :: rest ∧ (b = 0x2E ↔ c = '.') ∧
      (c = '.' → rest = bytesOf cs) := by
  refine head_bytesOf (p := fun b => b = 0x2E) (q := fun c => c = '.') (by decide) ?_ ?_ c cs <;>
    rintro _ rfl <;> decide

theorem head_mark (c : Char) (cs : List Char) :
    ∃ b rest, bytesOf (c :: cs) = b :: rest ∧ ((b = 0x65 ∨ b = 0x45) ↔ (c = 'e' ∨ c = 'E')) ∧
      (c = 'e' ∨ c = 'E' → rest = bytesOf cs) := by
  refine head_bytesOf (p := fun b => b = 0x65 ∨ b = 0x45) (q := fun c => c = 'e' ∨ c = 'E')
    (by decide) ?_ ?_ c cs <;> rintro _ (rfl | rfl) <;> decide

/-! ### What the bytes begin with -/

theorem digitCount_bytesOf (cs : List Char) :
    digitCount (bytesOf cs) = (cs.takeWhile Char.isDigit).length := by
  induction cs with
  | nil => rfl
  | cons c cs ih =>
    obtain ⟨b, rest, hbytes, hdigit, hrest⟩ := head_digit c cs
    rw [hbytes, digitCount, List.takeWhile_cons, List.takeWhile_cons]
    by_cases hc : c.isDigit = true
    · rw [if_pos (hdigit.2 hc), if_pos hc, hrest hc]
      exact congrArg Nat.succ ih
    · rw [if_neg (mt hdigit.1 hc), if_neg hc]
      rfl

theorem exists_sign (cs : List Char) :
    ∃ sign : Sign, cs = sign.chars ++ (takeSign cs).2 ∧ (takeSign cs).1 = sign.negative ∧
      signSize (bytesOf cs) = sign.chars.length := by
  cases cs with
  | nil => exact ⟨.none, rfl, rfl, rfl⟩
  | cons c cs =>
    obtain ⟨b, rest, hbytes, hsign, -⟩ := head_sign c cs
    rw [hbytes, signSize]
    by_cases hc : c = '+' ∨ c = '-'
    · rw [if_pos (hsign.2 hc)]
      obtain rfl | rfl := hc
      · exact ⟨.plus, rfl, rfl, rfl⟩
      · exact ⟨.minus, rfl, rfl, rfl⟩
    · have hnone : takeSign (c :: cs) = (false, c :: cs) := by
        unfold takeSign
        split <;> simp_all
      rw [if_neg (mt hsign.1 hc), hnone]
      exact ⟨.none, rfl, rfl, rfl⟩

theorem basic_sign (sign : Sign) : ∀ c ∈ sign.chars, c.toNat < 0x80 := by
  cases sign with
  | none => exact fun c hc => nomatch hc
  | plus | minus => exact List.forall_mem_singleton.2 (by decide)

theorem exists_exponent (cs : List Char) :
    ∃ e : Option Exponent, cs = (e.map Exponent.chars).getD [] ++ (scanExponent cs).2 ∧
      (scanExponent cs).1 = (e.map Exponent.value).getD 0 ∧
      exponentSize (bytesOf cs) = ((e.map Exponent.chars).getD []).length := by
  cases cs with
  | nil => exact ⟨none, rfl, rfl, rfl⟩
  | cons c cs =>
    obtain ⟨b, rest, hbytes, hmark, hrest⟩ := head_mark c cs
    rw [hbytes, exponentSize, scanExponent]
    by_cases hc : c = 'e' ∨ c = 'E'
    · obtain ⟨sign, hsplit, hnegative, hsize⟩ := exists_sign cs
      have hdigits : ∀ d ∈ (takeSign cs).2.takeWhile Char.isDigit, d.isDigit = true :=
        fun _ hd => List.mem_takeWhile_imp hd
      have hwhole := List.takeWhile_append_dropWhile (p := Char.isDigit) (l := (takeSign cs).2)
      have hcount : digitCount ((bytesOf cs).drop (signSize (bytesOf cs))) =
          ((takeSign cs).2.takeWhile Char.isDigit).length := by
        rw [drop_bytesOf hsplit (basic_sign sign) hsize, digitCount_bytesOf]
      simp only [hrest hc, hmark.2 hc, hc, if_true, true_and, hcount]
      cases htake : (takeSign cs).2.takeWhile Char.isDigit with
      | nil => exact ⟨none, rfl, rfl, rfl⟩
      | cons d ds =>
        rw [htake] at hdigits hwhole
        refine ⟨some ⟨c, sign, ⟨d, ds, hdigits⟩, hc⟩, ?_, ?_, ?_⟩
        · change c :: cs = c :: (sign.chars ++ d :: ds) ++ (takeSign cs).2.dropWhile Char.isDigit
          rw [List.cons_append, List.append_assoc, hwhole, ← hsplit]
        · change (if (takeSign cs).1 then _ else _) = if sign.negative then _ else _
          rw [hnegative]
          rfl
        · change 1 + signSize (bytesOf cs) + (d :: ds).length = (c :: (sign.chars ++ d :: ds)).length
          rw [hsize]
          simp only [List.length_cons, List.length_append]
          omega
    · simp only [hc, mt hmark.1 hc, if_false, false_and]
      exact ⟨none, rfl, rfl, rfl⟩

def fractionChars (fraction : Option (List Char)) : List Char :=
  (fraction.map fun ds => '.' :: ds).getD []

theorem exists_fraction (cs : List Char) :
    ∃ fraction : Option (List Char), cs = fractionChars fraction ++ (scanFraction cs).2 ∧
      (scanFraction cs).1 = fraction.getD [] ∧ (∀ c ∈ fraction.getD [], c.isDigit = true) ∧
      ∀ whole, fractionSize whole (bytesOf cs) =
        if 0 < whole + (fraction.getD []).length then (fractionChars fraction).length else 0 := by
  cases cs with
  | nil => exact ⟨none, rfl, rfl, by simp, fun whole => by split <;> rfl⟩
  | cons c cs =>
    obtain ⟨b, rest, hbytes, hpoint, hrest⟩ := head_point c cs
    by_cases hc : c = '.'
    · refine ⟨some (cs.takeWhile Char.isDigit), ?_, ?_, fun _ hd => List.mem_takeWhile_imp hd,
        fun whole => ?_⟩
      · rw [hc, scanFraction, fractionChars, Option.map_some, Option.getD_some, List.cons_append,
          List.takeWhile_append_dropWhile]
      · rw [hc, scanFraction, Option.getD_some]
      · rw [hbytes, hrest hc, fractionSize, digitCount_bytesOf]
        simp only [hpoint.2 hc, true_and, fractionChars, Option.map_some, Option.getD_some,
          List.length_cons, Nat.add_comm 1]
    · have hleft : scanFraction (c :: cs) = ([], c :: cs) := by
        unfold scanFraction
        split <;> simp_all
      refine ⟨none, by rw [hleft]; rfl, by rw [hleft]; rfl, by simp, fun whole => ?_⟩
      rw [hbytes, fractionSize]
      simp only [mt hpoint.1 hc, false_and, if_false]
      split <;> rfl

theorem basic_numeral (n : Numeral) : ∀ c ∈ n.chars, c.toNat < 0x80 := fun c hc => by
  have hplain := n.plain c hc
  simp only [isPlain, decide_eq_true_eq, Bool.and_eq_true] at hplain
  omega

theorem basic_digits (h : ∀ c ∈ ds, c.isDigit = true) : ∀ c ∈ ds, c.toNat < 0x80 :=
  fun c hc => toNat_of_isDigit (h c hc)

theorem basic_append (hcs : ∀ c ∈ cs, c.toNat < 0x80) (hds : ∀ c ∈ ds, c.toNat < 0x80) :
    ∀ c ∈ cs ++ ds, c.toNat < 0x80 :=
  fun c hc => (List.mem_append.1 hc).elim (hcs c) (hds c)

theorem basic_fraction {fraction : Option (List Char)}
    (h : ∀ c ∈ fraction.getD [], c.isDigit = true) :
    ∀ c ∈ fractionChars fraction, c.toNat < 0x80 := by
  cases fraction with
  | none => exact fun c hc => nomatch hc
  | some ds =>
    exact basic_append (List.forall_mem_singleton.2 (by decide)) (basic_digits h)

/-- How many bytes a numeral of these parts has, where each part is found among the bytes that the
parts before it leave. -/
theorem numeralSize?_of_parts {sign : Sign} {whole body after tail : List Char}
    {fraction : Option (List Char)} {size : Nat}
    (hsign : cs = sign.chars ++ body) (hsignSize : signSize (bytesOf cs) = sign.chars.length)
    (hbody : body = whole ++ after) (hcount : digitCount (bytesOf body) = whole.length)
    (hwhole : ∀ c ∈ whole, c.isDigit = true)
    (hafter : after = fractionChars fraction ++ tail)
    (hfraction : ∀ c ∈ fraction.getD [], c.isDigit = true)
    (hfractionSize : fractionSize whole.length (bytesOf after) =
      if 0 < whole.length + (fraction.getD []).length then (fractionChars fraction).length else 0)
    (htail : exponentSize (bytesOf tail) = size) :
    numeralSize? (bytesOf cs) = if whole ++ fraction.getD [] = [] then none
      else some (sign.chars.length + whole.length + (fractionChars fraction).length + size) := by
  have hdropSign := drop_bytesOf hsign (basic_sign sign) rfl
  have hfront : ∀ c ∈ sign.chars ++ whole, c.toNat < 0x80 :=
    basic_append (basic_sign sign) (basic_digits hwhole)
  have hbeforeAfter : cs = (sign.chars ++ whole) ++ after := by
    rw [hsign, hbody, List.append_assoc]
  have hbeforeTail : cs = (sign.chars ++ whole ++ fractionChars fraction) ++ tail := by
    rw [hbeforeAfter, hafter, List.append_assoc (sign.chars ++ whole)]
  have hdropWhole : (bytesOf cs).drop (sign.chars.length + whole.length) = bytesOf after :=
    drop_bytesOf hbeforeAfter hfront List.length_append.symm
  have hdropFraction : (bytesOf cs).drop (sign.chars.length + whole.length +
      (fractionChars fraction).length) = bytesOf tail :=
    drop_bytesOf hbeforeTail (basic_append hfront (basic_fraction hfraction))
      (by simp only [List.length_append])
  unfold numeralSize?
  simp only [hsignSize, hdropSign, hcount, hdropWhole, hfractionSize]
  by_cases hnone : whole ++ fraction.getD [] = []
  · obtain ⟨hwholeNil, hfractionNil⟩ := List.append_eq_nil_iff.1 hnone
    simp [hwholeNil, hfractionNil]
  · have hsome : 0 < whole.length + (fraction.getD []).length := by
      rw [← List.length_append]
      exact List.length_pos_iff.2 hnone
    have hsize : whole.length + (fractionChars fraction).length ≠ 0 := by
      cases fraction with
      | none => exact fun hzero => Nat.ne_of_gt hsome hzero
      | some ds => simp [fractionChars]
    rw [if_neg hnone]
    simp only [hsome, if_true, hsize, if_false, hdropFraction, htail]

/-- What is scanned is a numeral that the text begins with, and the bytes it is found in are as many
as its characters. -/
theorem scan_spec (cs : List Char) :
    (Literal.scan cs = none ∧ numeralSize? (bytesOf cs) = none) ∨
      ∃ sign f exponent rest, cs = (Numeral.figures sign f exponent).chars ++ rest ∧
        Literal.scan cs = some (⟨sign.negative, f.whole, f.fraction.getD [],
          (exponent.map Exponent.value).getD 0⟩, rest) ∧
        numeralSize? (bytesOf cs) = some (Numeral.figures sign f exponent).chars.length := by
  obtain ⟨sign, hsign, hnegative, hsignSize⟩ := exists_sign cs
  have hwhole : ∀ d ∈ (takeSign cs).2.takeWhile Char.isDigit, d.isDigit = true :=
    fun _ hd => List.mem_takeWhile_imp hd
  have hbody := List.takeWhile_append_dropWhile (p := Char.isDigit) (l := (takeSign cs).2)
  obtain ⟨fraction, hafter, hfraction, hdigits, hfractionSize⟩ :=
    exists_fraction ((takeSign cs).2.dropWhile Char.isDigit)
  obtain ⟨exponent, htail, hvalue, hexponentSize⟩ :=
    exists_exponent (scanFraction ((takeSign cs).2.dropWhile Char.isDigit)).2
  have hsize := numeralSize?_of_parts hsign hsignSize hbody.symm (digitCount_bytesOf _) hwhole hafter
    hdigits (hfractionSize _) hexponentSize
  unfold Literal.scan
  simp only [hnegative, hfraction, hvalue]
  generalize (takeSign cs).2.takeWhile Char.isDigit = whole at *
  by_cases hnone : whole ++ fraction.getD [] = []
  · obtain ⟨hwholeNil, hfractionNil⟩ := List.append_eq_nil_iff.1 hnone
    exact .inl ⟨by simp [hwholeNil, hfractionNil], by rw [hsize, if_pos hnone]⟩
  · have hfigures : ∀ c ∈ whole ++ fraction.getD [], c.isDigit = true :=
      fun c hc => (List.mem_append.1 hc).elim (hwhole c) (hdigits c)
    refine .inr ⟨sign, ⟨whole, fraction, hfigures, hnone⟩, exponent,
      (scanExponent (scanFraction ((takeSign cs).2.dropWhile Char.isDigit)).2).2, ?_, ?_, ?_⟩
    · change cs = sign.chars ++ (whole ++ fractionChars fraction) ++
        (exponent.map Exponent.chars).getD [] ++ _
      rw [List.append_assoc (sign.chars ++ _), ← htail, List.append_assoc, List.append_assoc,
        ← hafter, hbody, ← hsign]
    · have hsome : ¬(whole.isEmpty && (fraction.getD []).isEmpty) = true := by
        simpa [← List.append_eq_nil_iff] using hnone
      rw [if_neg hsome]
    · rw [hsize, if_neg hnone]
      simp only [Numeral.chars, Figures.chars, List.length_append, fractionChars, Nat.add_assoc]

/-! ### No numeral reaches further -/

theorem length_scanExponent_le (cs : List Char) : (scanExponent cs).2.length ≤ cs.length := by
  obtain ⟨e, hsplit, -, -⟩ := exists_exponent cs
  exact List.IsSuffix.length_le ⟨_, hsplit.symm⟩

theorem length_scanFraction_le (cs : List Char) : (scanFraction cs).2.length ≤ cs.length := by
  obtain ⟨fraction, hsplit, -, -⟩ := exists_fraction cs
  exact List.IsSuffix.length_le ⟨_, hsplit.symm⟩

theorem length_scanExponent_append (e : Exponent) (more : List Char) :
    (scanExponent (e.chars ++ more)).2.length ≤ more.length := by
  have hsign : takeSign (e.sign.chars ++ e.digits.chars ++ more) =
      (e.sign.negative, e.digits.chars ++ more) := by
    rw [List.append_assoc]
    exact takeSign_append e.sign fun c hc => ne_sign_of_isDigit (e.digits.head hc)
  have htake : (e.digits.chars ++ more).takeWhile Char.isDigit =
      e.digits.chars ++ more.takeWhile Char.isDigit :=
    List.takeWhile_append_of_pos e.digits.digits
  have hdrop : (e.digits.chars ++ more).dropWhile Char.isDigit = more.dropWhile Char.isDigit :=
    List.dropWhile_append_of_pos e.digits.digits
  have hsome : (e.digits.chars ++ more.takeWhile Char.isDigit).isEmpty = false := rfl
  unfold scanExponent
  simp only [Exponent.chars, List.cons_append, e.marks, if_true, hsign, htake, hdrop, hsome]
  exact List.length_dropWhile_le Char.isDigit more

theorem dropWhile_exponent (e : Exponent) (more : List Char) :
    (e.chars ++ more).dropWhile Char.isDigit = e.chars ++ more ∧
      scanFraction (e.chars ++ more) = ([], e.chars ++ more) := by
  obtain ⟨mark, sign, digits, rfl | rfl⟩ := e <;> exact ⟨rfl, rfl⟩

theorem length_scanExponent_dropWhile (exponent : Option Exponent) (more : List Char) :
    (scanExponent (((exponent.map Exponent.chars).getD [] ++ more).dropWhile Char.isDigit)).2.length
      ≤ more.length := by
  cases exponent with
  | none => exact Nat.le_trans (length_scanExponent_le _) (List.length_dropWhile_le _ _)
  | some e =>
    rw [Option.map_some, Option.getD_some, (dropWhile_exponent e more).1]
    exact length_scanExponent_append e more

theorem length_scanFraction_dropWhile (exponent : Option Exponent) (more : List Char) :
    (scanExponent (scanFraction
      (((exponent.map Exponent.chars).getD [] ++ more).dropWhile Char.isDigit)).2).2.length
      ≤ more.length := by
  cases exponent with
  | none =>
    exact Nat.le_trans (length_scanExponent_le _)
      (Nat.le_trans (length_scanFraction_le _) (List.length_dropWhile_le _ _))
  | some e =>
    obtain ⟨hdrop, hfraction⟩ := dropWhile_exponent e more
    rw [Option.map_some, Option.getD_some, hdrop, hfraction]
    exact length_scanExponent_append e more

/-- Where a text begins with a numeral, one is found that leaves no more behind it. -/
theorem scan_append (sign : Sign) (f : Figures) (exponent : Option Exponent) (more : List Char) :
    ∃ l rest, Literal.scan ((Numeral.figures sign f exponent).chars ++ more) = some (l, rest) ∧
      rest.length ≤ more.length := by
  have hchars : (Numeral.figures sign f exponent).chars ++ more =
      sign.chars ++ (f.chars ++ ((exponent.map Exponent.chars).getD [] ++ more)) := by
    simp only [Numeral.chars, List.append_assoc]
  have hsign : takeSign (sign.chars ++ (f.chars ++
      ((exponent.map Exponent.chars).getD [] ++ more))) =
      (sign.negative, f.chars ++ ((exponent.map Exponent.chars).getD [] ++ more)) := by
    refine takeSign_append sign fun c hc => ?_
    obtain h | rfl := f.head hc
    · exact ne_sign_of_isDigit h
    · decide
  rw [hchars]
  unfold Literal.scan
  simp only [hsign]
  obtain ⟨whole, fraction, hdigits, hnonempty⟩ := f
  have hwhole : ∀ c ∈ whole, c.isDigit = true := fun c hc => hdigits c (List.mem_append_left _ hc)
  cases fraction with
  | none =>
    have hne : whole ≠ [] := by simpa using hnonempty
    simp only [Figures.chars, Option.map_none, Option.getD_none, List.append_nil,
      List.takeWhile_append_of_pos hwhole, List.dropWhile_append_of_pos hwhole]
    refine ⟨_, _, if_neg ?_, length_scanFraction_dropWhile exponent more⟩
    simp [hne]
  | some ds =>
    have hds : ∀ c ∈ ds, c.isDigit = true := fun c hc => hdigits c (List.mem_append_right _ hc)
    have hne : whole = [] → ds ≠ [] := by simpa using hnonempty
    obtain ⟨htake, hdrop⟩ := takeWhile_digits hwhole
      ('.' :: (ds ++ ((exponent.map Exponent.chars).getD [] ++ more))) (by simp)
    simp only [Figures.chars, Option.map_some, Option.getD_some, List.append_assoc,
      List.cons_append, htake, hdrop, scanFraction, List.takeWhile_append_of_pos hds,
      List.dropWhile_append_of_pos hds]
    refine ⟨_, _, if_neg ?_, length_scanExponent_dropWhile exponent more⟩
    simp only [Bool.and_eq_true, List.isEmpty_iff, List.append_eq_nil_iff, not_and]
    exact fun hwhole hfraction => absurd hfraction (hne hwhole)

/-! ### The longest numeral -/

/-- An optional sign, digits with at most one point among or beside them, and an optional exponent. -/
def IsFigures (cs : List Char) : Prop :=
  ∃ sign f exponent, cs = (Numeral.figures sign f exponent).chars

structure IsLongestFigures (text front : List Char) : Prop where
  begins : front <+: text
  figures : IsFigures front
  longest : ∀ other, other <+: text → IsFigures other → other.length ≤ front.length

def figuresValue (f : Figures) (exponent : Option Exponent) : ℚ :=
  ofDigits (f.whole ++ f.fraction.getD []) *
    10 ^ ((exponent.map Exponent.value).getD 0 - (f.fraction.getD []).length : Int)

theorem length_le_of_isFigures {text front after other : List Char} {l : Literal}
    (hscan : Literal.scan text = some (l, after)) (htext : text = front ++ after)
    (hother : other <+: text) (hfigures : IsFigures other) : other.length ≤ front.length := by
  obtain ⟨sign, f, exponent, rfl⟩ := hfigures
  obtain ⟨more, hmore⟩ := hother
  obtain ⟨l', rest, hscan', hrest⟩ := scan_append sign f exponent more
  rw [hmore, hscan] at hscan'
  cases hscan'
  have hlength := congrArg List.length (hmore.trans htext)
  rw [List.length_append, List.length_append] at hlength
  omega

theorem isNearest_value (sign : Sign) (f : Figures) (exponent : Option Exponent) :
    (Numeral.figures sign f exponent).value.isNegative = sign.negative ∧
      Binary32.IsNearest (figuresValue f exponent)
        (Numeral.figures sign f exponent).value.magnitude := by
  have hnearest := isNearest_magnitude (Literal.decimal ⟨sign.negative, f.whole,
    f.fraction.getD [], (exponent.map Exponent.value).getD 0⟩)
  have hsign := Nat.lt_of_le_of_lt hnearest.inRange Binary32.infiniteMagnitude_lt_signBit
  unfold Numeral.value Literal.value
  rw [Binary32.isNegative_ofMagnitude hsign, Binary32.magnitude_ofMagnitude hsign]
  exact ⟨rfl, hnearest⟩

theorem front?_append (front rest : String) :
    front? (front ++ rest) front.utf8ByteSize = some front := by
  unfold front? String.fromUTF8?
  have hbytes : (front ++ rest).toUTF8.extract 0 front.utf8ByteSize = front.toByteArray := by
    rw [String.toUTF8_eq_toByteArray, String.toByteArray_append]
    exact ByteArray.extract_append_eq_left rfl
  simp only [hbytes]
  rw [dif_pos front.isValidUTF8]
  rfl

theorem utf8ByteSize_ofList (h : ∀ c ∈ cs, c.toNat < 0x80) :
    (String.ofList cs).utf8ByteSize = cs.length := by
  rw [← Container.length_utf8, Container.utf8, toList_toUTF8, String.toList_ofList, length_bytesOf h]

theorem leadingNumber_of_size {n : Numeral} (hcs : cs = n.chars ++ rest)
    (hsize : numeralSize? (bytesOf cs) = some n.chars.length) :
    String.Pos.Raw.IsValid (String.ofList cs) ⟨n.chars.length⟩ ∧
      front? (String.ofList cs) n.chars.length = some (String.ofList n.chars) ∧
      leadingNumber (String.ofList cs) = n.value := by
  have hsplit : String.ofList cs = String.ofList n.chars ++ String.ofList rest := by
    rw [hcs, String.ofList_append]
  have hlength := utf8ByteSize_ofList (basic_numeral n)
  have hfront : front? (String.ofList cs) n.chars.length = some (String.ofList n.chars) := by
    rw [hsplit, ← hlength]
    exact front?_append _ _
  refine ⟨String.Pos.Raw.isValid_iff_exists_append.2 ⟨_, _, hsplit, ?_⟩, hfront, ?_⟩
  · rw [← hlength]
    rfl
  · unfold leadingNumber
    rw [toList_toUTF8, String.toList_ofList, hsize]
    dsimp only
    rw [hfront, Option.bind_some, String.toList_ofList, n.readNumber?, Option.getD_some]

theorem leadingNumber_figures (sign : Sign) (f : Figures) (exponent : Option Exponent) :
    leadingNumber (String.ofList (Numeral.figures sign f exponent).chars) =
      (Numeral.figures sign f exponent).value := by
  have hwhole := scan_figures sign f exponent
  obtain ⟨hscan, -⟩ | ⟨sign', f', exponent', rest, hchars, hscan, hsize⟩ :=
    scan_spec (Numeral.figures sign f exponent).chars
  · rw [hscan] at hwhole
    cases hwhole
  · rw [hscan] at hwhole
    obtain ⟨hliteral, rfl⟩ := Prod.mk.inj (Option.some.inj hwhole)
    rw [(leadingNumber_of_size hchars hsize).2.2, Numeral.value, hliteral]
    rfl

/-- The number at the beginning of a text, white space aside, is the one nearest to the longest
figures there, and 0 where there are none. -/
theorem leadingNumber_longest (s : String) :
    let text := Text.trimStart s.toList
    let size? := numeralSize? (String.ofList text).toUTF8.toList
    ((∀ front, front <+: text → ¬IsFigures front) ∧ size? = none ∧
        Value.leadingNumber s = Binary32.zero) ∨
      ∃ sign f exponent size, let front := (Numeral.figures sign f exponent).chars
        IsLongestFigures text front ∧ size? = some size ∧
          String.Pos.Raw.IsValid (String.ofList text) ⟨size⟩ ∧
          front? (String.ofList text) size = some (String.ofList front) ∧
          readNumber? front = some (Value.leadingNumber s) ∧
          (Value.leadingNumber s).isNegative = sign.negative ∧
          Binary32.IsNearest (figuresValue f exponent) (Value.leadingNumber s).magnitude := by
  dsimp only
  unfold Value.leadingNumber
  rw [toList_toUTF8, String.toList_ofList]
  generalize Text.trimStart s.toList = text
  obtain ⟨hscan, hsize⟩ | ⟨sign, f, exponent, rest, htext, hscan, hsize⟩ := scan_spec text
  · refine .inl ⟨fun front ⟨more, hmore⟩ ⟨sign, f, exponent, hfront⟩ => ?_, hsize, ?_⟩
    · obtain ⟨l, rest, hsome, -⟩ := scan_append sign f exponent more
      rw [← hfront, hmore, hscan] at hsome
      cases hsome
    · rw [leadingNumber, toList_toUTF8, String.toList_ofList, hsize]
  · obtain ⟨hvalid, hfront, hvalue⟩ := leadingNumber_of_size htext hsize
    have hlongest : IsLongestFigures text (Numeral.figures sign f exponent).chars :=
      ⟨⟨rest, htext.symm⟩, ⟨sign, f, exponent, rfl⟩,
        fun other => length_le_of_isFigures hscan htext⟩
    refine .inr ⟨sign, f, exponent, _, hlongest, hsize, hvalid, hfront, ?_⟩
    rw [hvalue]
    exact ⟨(Numeral.figures sign f exponent).readNumber?, isNearest_value sign f exponent⟩

-- The mark and the sign in "12e+x" are not part of the number.
example : numeralSize? [0x31, 0x32, 0x65, 0x2B, 0x78] = some 2 := by decide

end WorldScript.Decimal
