import WorldScript.Code.Source.Line

/-!
The scanners of source text, on text that is put together of pieces: lines between line feeds,
words and blanks, and a line with its comment. Each lemma says what a scanner finds at the front or
at the end of a text, whatever else the text has.
-/
set_option autoImplicit false

namespace WorldScript

namespace Text

variable {c : Char} {g g' w core rest line : List Char}

/-! ### Characters -/

/-- Blanks leave out all printing characters of the basic alphabet. -/
theorem isBlank_eq_false (hlow : 0x21 ≤ c.toNat) (hhigh : c.toNat < 0x7F) : isBlank c = false := by
  have hall : ∀ n < 0x7F, 0x21 ≤ n →
      (blanks.boundaries.countP (fun b => decide (b ≤ n)) % 2 == 1) = false := by decide
  exact hall c.toNat hhigh hlow

/-! ### Words and blanks -/

theorem firstWord_append (hw : ∀ c ∈ w, isBlank c = false)
    (hrest : ∀ c, rest.head? = some c → isBlank c = true) : firstWord (w ++ rest) = w := by
  rw [firstWord, List.takeWhile_append_of_pos (by simpa using hw)]
  cases rest with
  | nil => simp
  | cons d rest => simp [hrest d rfl]

theorem afterFirstWord_append (hw : ∀ c ∈ w, isBlank c = false)
    (hrest : ∀ c, rest.head? = some c → isBlank c = true) : afterFirstWord (w ++ rest) = rest := by
  have h := firstWord_append_afterFirstWord (w ++ rest)
  rw [firstWord_append hw hrest] at h
  exact List.append_cancel_left h

theorem trim_append (hg : ∀ c ∈ g, isBlank c = true) (cs : List Char) :
    trim (cs ++ g) = trim cs := by
  have hend : ∀ ds, trimEnd (ds ++ g) = trimEnd ds := by
    intro ds
    rw [trimEnd, trimEnd, List.reverse_append, List.dropWhile_append_of_pos (by simpa using hg)]
  have hnil : g.dropWhile isBlank = [] := by
    have h : (g ++ []).dropWhile isBlank = [] := List.dropWhile_append_of_pos hg
    rwa [List.append_nil] at h
  unfold trim trimStart
  rw [List.dropWhile_append]
  split
  case isTrue h => rw [hnil, List.isEmpty_iff.1 h]
  case isFalse => exact hend _

structure Solid (cs : List Char) : Prop where
  head : ∀ c, cs.head? = some c → isBlank c = false
  last : ∀ c, cs.getLast? = some c → isBlank c = false

theorem solid_of_all (h : ∀ c ∈ w, isBlank c = false) : Solid w :=
  ⟨fun c hc => h c (List.mem_of_mem_head? hc), fun c hc => h c (List.mem_of_getLast? hc)⟩

theorem Solid.append (h : Solid core) (h' : Solid w) (hcore : core ≠ []) (hw : w ≠ []) :
    Solid (core ++ g ++ w) := by
  constructor
  · intro c hc
    cases core with
    | nil => exact absurd rfl hcore
    | cons d core => exact h.head c hc
  · intro c hc
    rw [List.getLast?_append] at hc
    cases hlast : w.getLast? with
    | none => exact absurd (List.getLast?_eq_none_iff.1 hlast) hw
    | some d =>
      rw [hlast] at hc
      exact h'.last c (hlast.trans hc)

theorem Solid.dropWhile (h : Solid core) : core.dropWhile isBlank = core := by
  cases core with
  | nil => rfl
  | cons c core => exact List.dropWhile_cons_of_neg (by simp [h.head c rfl])

theorem Solid.reverse (h : Solid core) : Solid core.reverse :=
  ⟨fun c hc => h.last c (by rwa [List.head?_reverse] at hc),
    fun c hc => h.head c (by rwa [List.getLast?_reverse] at hc)⟩

theorem Solid.trim (h : Solid core) (hg : ∀ c ∈ g, isBlank c = true)
    (hg' : ∀ c ∈ g', isBlank c = true) : Text.trim (g ++ core ++ g') = core := by
  rw [trim_append hg', Text.trim, trimStart, List.dropWhile_append_of_pos hg, h.dropWhile, trimEnd,
    h.reverse.dropWhile, List.reverse_reverse]

/-! ### Lines -/

theorem splitLines_of_notMem (h : '\n' ∉ line) : splitLines line = [line] := by
  induction line with
  | nil => rfl
  | cons c line ih =>
    simp only [List.mem_cons, not_or] at h
    simp [splitLines, ih h.2, Ne.symm h.1]

theorem splitLines_ne_nil (text : List Char) : splitLines text ≠ [] := by
  cases text with
  | nil => simp [splitLines]
  | cons c rest =>
    unfold splitLines
    split
    · simp
    · split <;> simp

theorem splitLines_append (h : '\n' ∉ line) (rest : List Char) :
    splitLines (line ++ '\n' :: rest) = line :: splitLines rest := by
  induction line with
  | nil =>
    obtain ⟨l, more, he⟩ := List.exists_cons_of_ne_nil (splitLines_ne_nil rest)
    simp [splitLines, he]
  | cons c line ih =>
    simp only [List.mem_cons, not_or] at h
    simp [splitLines, ih h.2, Ne.symm h.1]

theorem splitLines_intercalate {lines : List (List Char)} (hne : lines ≠ [])
    (h : ∀ line ∈ lines, '\n' ∉ line) : splitLines (['\n'].intercalate lines) = lines := by
  induction lines with
  | nil => exact absurd rfl hne
  | cons line more ih =>
    cases more with
    | nil => rw [List.intercalate_singleton, splitLines_of_notMem (h line (by simp))]
    | cons next more =>
      rw [List.intercalate_cons_cons, List.append_assoc, List.singleton_append,
        splitLines_append (h line (by simp)), ih (by simp) fun l hl => h l (by simp [hl])]

theorem dropReturn_cases (line : List Char) :
    dropReturn line = line ∨ line = dropReturn line ++ ['\r'] := by
  unfold dropReturn
  split
  case h_1 rest h =>
    right
    rw [← List.reverse_cons, ← h, List.reverse_reverse]
  case h_2 => exact .inl rfl

end Text

namespace Source

variable {cs ds : List Char} {state : Scan}

/-! ### Comments -/

theorem stripCommentFrom_append (cs ds : List Char) (state : Scan) :
    stripCommentFrom state (cs ++ ds) = stripCommentFrom state cs ∨
      ∃ state', stripCommentFrom state (cs ++ ds) =
        stripCommentFrom state cs ++ stripCommentFrom state' ds := by
  induction cs generalizing state with
  | nil => exact .inr ⟨state, rfl⟩
  | cons c cs ih =>
    simp only [List.cons_append, stripCommentFrom]
    split
    · exact .inl rfl
    · obtain h | ⟨state', h⟩ := ih (state.next c)
      · exact .inl (by rw [h])
      · exact .inr ⟨state', by rw [h, List.cons_append]⟩

theorem trim_stripComment_dropReturn (line : List Char) :
    Text.trim (stripComment (Text.dropReturn line)) = Text.trim (stripComment line) := by
  obtain h | h := Text.dropReturn_cases line
  · rw [h]
  · have hreturn : ∀ state, stripCommentFrom state ['\r'] = ['\r'] := by
      intro state
      cases state <;> rfl
    obtain he | ⟨state, he⟩ := stripCommentFrom_append (Text.dropReturn line) ['\r'] .outside
    · rw [← h] at he
      rw [stripComment, stripComment, he]
    · rw [← h, hreturn] at he
      rw [stripComment, stripComment, he,
        Text.trim_append (List.all_eq_true.1 (by decide))]

/-- The scan passes over the text, from outside string literals to outside. -/
def Closed (cs : List Char) : Prop :=
  ∀ rest, stripCommentFrom .outside (cs ++ rest) = cs ++ stripCommentFrom .outside rest

theorem Closed.append (h : Closed cs) (h' : Closed ds) : Closed (cs ++ ds) := by
  intro rest
  rw [List.append_assoc, h, h', List.append_assoc]

theorem closed_of_all (h : ∀ c ∈ cs, c ≠ '"' ∧ c ≠ ';') : Closed cs := by
  intro rest
  induction cs with
  | nil => rfl
  | cons c cs ih =>
    obtain ⟨hquote, hsemicolon⟩ := h c (by simp)
    have hnext : Scan.outside.next c = .outside := by
      unfold Scan.next
      split <;> simp_all
    have hrest := ih fun d hd => h d (by simp [hd])
    simp [stripCommentFrom, hnext, hsemicolon, hrest]

theorem Closed.stripComment (h : Closed cs) : Source.stripComment cs = cs := by
  have := h []
  simpa [stripCommentFrom, Source.stripComment] using this

theorem Closed.stripComment_append (h : Closed cs) (comment : List Char) :
    Source.stripComment (cs ++ ';' :: comment) = cs := by
  rw [Source.stripComment, h]
  simp [stripCommentFrom]

/-! ### Names -/

def isPlain (c : Char) : Bool :=
  decide (0x21 ≤ c.toNat) && decide (c.toNat < 0x7F) && c != '"' && c != ';'

theorem isBlank_of_isPlain {c : Char} (h : isPlain c = true) : Text.isBlank c = false := by
  simp only [isPlain, Bool.and_eq_true, decide_eq_true_eq] at h
  exact Text.isBlank_eq_false h.1.1.1 h.1.1.2

theorem closed_of_isPlain (h : ∀ c ∈ cs, isPlain c = true) : Closed cs := by
  refine closed_of_all fun c hc => ?_
  have hplain := h c hc
  simp only [isPlain, Bool.and_eq_true, bne_iff_ne] at hplain
  exact ⟨hplain.1.2, hplain.2⟩

theorem isPlain_of_toNat {c : Char} (hlow : 0x23 ≤ c.toNat) (hhigh : c.toNat < 0x7F)
    (hne : c.toNat ≠ 0x3B) : isPlain c = true := by
  simp only [isPlain, Bool.and_eq_true, decide_eq_true_eq, bne_iff_ne]
  refine ⟨⟨⟨by omega, hhigh⟩, ?_⟩, ?_⟩
  · rintro rfl
    exact absurd hlow (by decide)
  · rintro rfl
    exact absurd rfl hne

theorem isPlain_of_isAlphanum {c : Char} (h : c.isAlphanum = true) : isPlain c = true := by
  unfold Char.isAlphanum Char.isAlpha Char.isUpper Char.isLower Char.isDigit at h
  simp only [Bool.or_eq_true, Bool.and_eq_true, decide_eq_true_eq, ge_iff_le,
    UInt32.le_iff_toNat_le] at h
  change ((65 ≤ c.toNat ∧ c.toNat ≤ 90) ∨ (97 ≤ c.toNat ∧ c.toNat ≤ 122)) ∨
    (48 ≤ c.toNat ∧ c.toNat ≤ 57) at h
  exact isPlain_of_toNat (by omega) (by omega) (by omega)

end Source

end WorldScript
