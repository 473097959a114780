import WorldScript.Proofs.Source.Reading

/-!
One line of the grammar in the first pass of the assembler. The scanners take it apart into the
parts it was put together of, and it adds to the outline what these parts mean.

Main statement: `addLine_chars`.
-/
set_option autoImplicit false

namespace WorldScript.Source

open Grammar

/-! ### A word with an operand -/

structure IsWord (w : List Char) : Prop where
  plain : ∀ c ∈ w, isPlain c = true
  colon : ':' ∉ w
  ne_nil : w ≠ []

/-- A word with what may follow it after a gap. -/
inductive Clause (w : List Char) : List Char → Option (List Char) → Prop
  | bare : Clause w w none
  | operand (g : Gap) (a : List Char) : g.chars ≠ [] → Text.Solid a → a ≠ [] → Closed a →
      Clause w (w ++ (g.chars ++ a)) (some a)

section

variable {w text : List Char} {operand : Option (List Char)} {g : Gap} {rest : List Char}

theorem IsWord.notBlank (hw : IsWord w) : ∀ c ∈ w, Text.isBlank c = false :=
  fun c hc => isBlank_of_isPlain (hw.plain c hc)

theorem Grammar.Gap.isBlank (g : Gap) : ∀ c ∈ g.chars, Text.isBlank c = true :=
  fun c hc => (g.blank c hc).1

theorem Grammar.Gap.head (hg : g.chars ≠ []) (rest : List Char) (c : Char)
    (hc : (g.chars ++ rest).head? = some c) : Text.isBlank c = true := by
  obtain ⟨d, ds, he⟩ := List.exists_cons_of_ne_nil hg
  rw [he] at hc
  obtain rfl := Option.some.inj hc
  exact g.isBlank d (by rw [he]; simp)

theorem Grammar.Gap.closed (g : Gap) : Closed g.chars := by
  refine closed_of_all fun c hc => ?_
  have hblank := g.isBlank c hc
  constructor
  · rintro rfl
    exact absurd hblank (by decide)
  · rintro rfl
    exact absurd hblank (by decide)

theorem Clause.closed (h : Clause w text operand) (hw : IsWord w) : Closed text := by
  have hword : Closed w := closed_of_isPlain hw.plain
  cases h with
  | bare => exact hword
  | operand g a _ _ _ ha => exact hword.append (g.closed.append ha)

theorem Clause.solid (h : Clause w text operand) (hw : IsWord w) : Text.Solid text := by
  have hword : Text.Solid w := Text.solid_of_all hw.notBlank
  cases h with
  | bare => exact hword
  | operand g a _ hsolid ha _ =>
    rw [← List.append_assoc]
    exact hword.append hsolid hw.ne_nil ha

theorem Clause.ne_nil (h : Clause w text operand) (hw : IsWord w) : text ≠ [] := by
  cases h with
  | bare => exact hw.ne_nil
  | operand g a _ _ _ _ => exact List.append_ne_nil_of_left_ne_nil hw.ne_nil _

theorem Clause.split (h : Clause w text operand) (hw : IsWord w) :
    Text.firstWord text = w ∧ Text.trim (Text.afterFirstWord text) = operand.getD [] := by
  cases h with
  | bare =>
    have hnone : ∀ c, ([] : List Char).head? = some c → Text.isBlank c = true := by simp
    have hfirst := Text.firstWord_append hw.notBlank hnone
    have hafter := Text.afterFirstWord_append hw.notBlank hnone
    rw [List.append_nil] at hfirst hafter
    rw [hfirst, hafter]
    exact ⟨rfl, rfl⟩
  | operand g a hg hsolid _ _ =>
    have hhead := Grammar.Gap.head hg a
    rw [Text.firstWord_append hw.notBlank hhead, Text.afterFirstWord_append hw.notBlank hhead]
    have htrim : Text.trim (g.chars ++ a ++ []) = a := hsolid.trim g.isBlank (by simp)
    rw [List.append_nil] at htrim
    exact ⟨rfl, htrim⟩

theorem Clause.ofText (h : Clause w text operand) (hw : IsWord w) :
    Statement.ofText text = ⟨w, operand⟩ := by
  obtain ⟨hfirst, hafter⟩ := h.split hw
  rw [Statement.ofText, hfirst, hafter]
  cases h with
  | bare => rfl
  | operand g a _ _ ha _ => simp [ha]

theorem Clause.splitLabel? (h : Clause w text operand) (hw : IsWord w) :
    Source.splitLabel? text = none := by
  unfold Source.splitLabel?
  rw [(h.split hw).1]
  split
  · rfl
  · split
    case h_1 label he =>
      have hmem : ':' ∈ w.reverse := by
        rw [he]
        simp
      exact absurd (List.mem_reverse.1 hmem) hw.colon
    case h_2 => rfl

theorem Grammar.Name.definition_notBlank (n : Name) :
    ∀ c ∈ n.chars ++ [':'], Text.isBlank c = false := by
  intro c hc
  refine isBlank_of_isPlain ?_
  obtain hc | hc := List.mem_append.1 hc
  · exact n.plain c hc
  · obtain rfl := List.mem_singleton.1 hc
    decide

theorem splitLabel?_name (n : Name) (rest : List Char)
    (hrest : ∀ c, rest.head? = some c → Text.isBlank c = true) :
    Source.splitLabel? (n.chars ++ [':'] ++ rest) = some (n.chars, rest) := by
  have hplain := n.definition_notBlank
  have hquote : (n.chars ++ [':'] ++ rest).head? ≠ some '"' := by
    intro he
    have hfirst : n.first = '"' := Option.some.inj he
    have := n.plain n.first (by simp [Name.chars])
    rw [hfirst] at this
    exact absurd this (by decide)
  unfold Source.splitLabel?
  rw [if_neg hquote, Text.firstWord_append hplain hrest, Text.afterFirstWord_append hplain hrest,
    List.reverse_append]
  simp

end

/-! ### Statements and directives -/

theorem mnemonic_isWord (op : Opcode) :
    op.mnemonic.toList.all isPlain = true ∧ ':' ∉ op.mnemonic.toList ∧
      op.mnemonic.toList ≠ [] ∧ op.mnemonic.toList ≠ ".slots".toList := by
  cases op <;> decide

theorem ofMnemonic?_mnemonic (op : Opcode) :
    Opcode.all.find? (fun x => x.mnemonic.toList == op.mnemonic.toList) = some op := by
  cases op <;> decide

namespace Grammar

theorem Spells.isWord {word : List Char} {s : String} (h : Spells word s)
    (hplain : s.toList.all isPlain = true) (hcolon : ':' ∉ s.toList) (hne : s.toList ≠ []) :
    IsWord word :=
  ⟨h.plain hplain, h.notMem rfl hcolon, h.ne_nil hne⟩

theorem Spells.ofMnemonic? {word : List Char} {op : Opcode} (h : Spells word op.mnemonic) :
    Opcode.ofMnemonic? word = some op := by
  have hlower : word.map Char.toLower = op.mnemonic.toList := h
  rw [Opcode.ofMnemonic?, hlower]
  exact ofMnemonic?_mnemonic op

theorem Phrase.spells (ph : Phrase) : ∃ op, Spells ph.word op.mnemonic ∧
    (op = ph.opcode ∨ op = .pushNumber ∧ (ph.opcode = .pushString ∨ ph.opcode = .pushEntity)) := by
  obtain h | ⟨h, hop⟩ := ph.spelled
  · exact ⟨ph.opcode, h, .inl rfl⟩
  · exact ⟨.pushNumber, h, .inr ⟨rfl, hop⟩⟩

theorem Phrase.isWord (ph : Phrase) : IsWord ph.word := by
  obtain ⟨op, h, -⟩ := ph.spells
  obtain ⟨hplain, hcolon, hne, -⟩ := mnemonic_isWord op
  exact h.isWord hplain hcolon hne

theorem Phrase.isSlotsDirective (ph : Phrase) : isSlotsDirective ph.word = false := by
  obtain ⟨op, h, -⟩ := ph.spells
  have hlower : ph.word.map Char.toLower = op.mnemonic.toList := h
  obtain ⟨-, -, -, hslots⟩ := mnemonic_isWord op
  rw [Source.isSlotsDirective, hlower]
  exact beq_eq_false_iff_ne.2 hslots

def Phrase.operand (ph : Phrase) : Option (List Char) := ph.argument.map fun x => x.2.chars

theorem Phrase.clause (ph : Phrase) : Clause ph.word ph.chars ph.operand := by
  unfold chars operand
  cases harg : ph.argument with
  | none =>
    simp only [Option.map_none, Option.getD_none, List.append_nil]
    exact .bare
  | some x =>
    obtain ⟨g, a⟩ := x
    exact .operand g a.chars (ph.fits (g, a) harg).1 a.solid a.ne_nil a.closed

theorem Numeral.first (n : Numeral) {rest : List Char} : n.chars ≠ '"' :: rest ∧
    n.chars ≠ '#' :: rest := by
  have hfigure := n.figures_of_mem
  constructor
  · intro he
    exact absurd (hfigure '"' (by simp [he])) (by decide)
  · intro he
    exact absurd (hfigure '#' (by simp [he])) (by decide)

theorem Phrase.opcode? (ph : Phrase) :
    Statement.opcode? ⟨ph.word, ph.operand⟩ = some ph.opcode := by
  obtain ⟨op, h, hop⟩ := ph.spells
  simp only [Statement.opcode?, h.ofMnemonic?, Option.map_some, Option.some.injEq, Phrase.operand]
  cases harg : ph.argument with
  | none =>
    have hlayout := ph.bare harg
    obtain rfl | ⟨-, hpush | hpush⟩ := hop
    · split <;> rfl
    · rw [hpush] at hlayout
      cases hlayout
    · rw [hpush] at hlayout
      cases hlayout
  | some x =>
    obtain ⟨g, a⟩ := x
    have hlayout := (ph.fits (g, a) harg).2
    obtain rfl | ⟨rfl, hpush | hpush⟩ := hop
    · split
      case isTrue hnumber =>
        rw [hnumber] at hlayout
        cases a with
        | number n =>
          simp only [Option.map_some, Argument.chars]
          split
          case h_1 he => exact absurd (Option.some.inj he) n.first.1
          case h_2 he => exact absurd (Option.some.inj he) n.first.2
          case h_3 => rfl
        | _ => simp [Argument.layouts, Opcode.layout] at hlayout
      case isFalse => rfl
    · rw [hpush] at hlayout
      cases a with
      | string pieces => exact hpush.symm
      | _ => simp [Argument.layouts, Opcode.layout] at hlayout
    · rw [hpush] at hlayout
      cases a with
      | entity d => exact hpush.symm
      | _ => simp [Argument.layouts, Opcode.layout] at hlayout

theorem clause_slots {word : List Char} {gap : Gap} (count : Digits)
    (spelled : Spells word ".slots") (apart : gap.chars ≠ []) :
    IsWord word ∧ Clause word (word ++ (gap.chars ++ count.chars)) (some count.chars) := by
  have hsolid : Text.Solid count.chars :=
    Text.solid_of_all fun c hc => isBlank_of_isPlain (count.plain c hc)
  exact ⟨spelled.isWord (by decide) (by decide) (by decide),
    .operand gap count.chars apart hsolid (List.cons_ne_nil _ _) (closed_of_isPlain count.plain)⟩

theorem Content.clause (x : Content) :
    ∃ w operand, IsWord w ∧ Clause w x.chars operand := by
  cases x with
  | slots word gap count spelled apart =>
    exact ⟨word, some count.chars, clause_slots count spelled apart⟩
  | phrase ph => exact ⟨ph.word, ph.operand, ph.isWord, ph.clause⟩

end Grammar

/-! ### Lines -/

def Outline.withLine (o : Outline) (number : Nat) (l : Line) : Outline where
  labels :=
    match l.label with
    | some n => o.labels.insert n.text o.statements.size
    | none => o.labels
  statements :=
    match l.phrase? with
    | some ph => o.statements.push ⟨number, ph.opcode, ph.operand⟩
    | none => o.statements
  slotCount :=
    match l.slots? with
    | some d => UInt16.ofNat d.value
    | none => o.slotCount

namespace Grammar.Line

variable (l : Line)

def text : List Char := (l.content.map Content.chars).getD []

def core : List Char :=
  match l.label, l.content with
  | none, none => []
  | none, some x => x.chars
  | some n, none => n.chars ++ [':']
  | some n, some x => n.chars ++ [':'] ++ (l.between.chars ++ x.chars)

def body : List Char :=
  l.indent.chars ++ (l.label.map fun n => n.chars ++ [':']).getD [] ++ l.between.chars ++
    (l.content.map Content.chars).getD [] ++ l.trailing.chars

theorem closed_body : Closed l.body := by
  have hlabel : Closed ((l.label.map fun n => n.chars ++ [':']).getD []) := by
    cases l.label with
    | none => exact closed_of_all (by simp)
    | some n =>
      have hcolon : Closed [':'] := closed_of_isPlain (List.all_eq_true.1 (by decide))
      exact (closed_of_isPlain n.plain).append hcolon
  have hcontent : Closed ((l.content.map Content.chars).getD []) := by
    cases l.content with
    | none => exact closed_of_all (by simp)
    | some x =>
      obtain ⟨w, operand, hw, hclause⟩ := x.clause
      exact hclause.closed hw
  exact (((l.indent.closed.append hlabel).append l.between.closed).append hcontent).append
    l.trailing.closed

theorem stripComment_chars : stripComment l.chars = l.body := by
  unfold chars
  cases l.comment with
  | none => simpa [body] using l.closed_body.stripComment
  | some cs => exact l.closed_body.stripComment_append cs

theorem isBlank_append (g g' : Gap) : ∀ c ∈ g.chars ++ g'.chars, Text.isBlank c = true := by
  intro c hc
  obtain hc | hc := List.mem_append.1 hc
  · exact g.isBlank c hc
  · exact g'.isBlank c hc

theorem trim_body : Text.trim l.body = l.core := by
  unfold body core
  cases l.label with
  | none =>
    have hgap := isBlank_append l.indent l.between
    cases l.content with
    | none =>
      have hnil : Text.Solid [] := ⟨by simp, by simp⟩
      simpa using hnil.trim hgap l.trailing.isBlank
    | some x =>
      obtain ⟨w, operand, hw, hclause⟩ := x.clause
      simpa using (hclause.solid hw).trim hgap l.trailing.isBlank
  | some n =>
    have hname : Text.Solid (n.chars ++ [':']) := Text.solid_of_all n.definition_notBlank
    cases l.content with
    | none => simpa using hname.trim l.indent.isBlank (isBlank_append l.between l.trailing)
    | some x =>
      obtain ⟨w, operand, hw, hclause⟩ := x.clause
      have hsolid : Text.Solid (n.chars ++ [':'] ++ l.between.chars ++ x.chars) :=
        hname.append (hclause.solid hw) (by simp) (hclause.ne_nil hw)
      simpa using hsolid.trim l.indent.isBlank l.trailing.isBlank

theorem core_of_none (h : l.label = none) : l.core = l.text := by
  unfold core text
  rw [h]
  cases l.content <;> rfl

theorem splitLabel?_text : splitLabel? l.text = none := by
  unfold text
  cases l.content with
  | none => rfl
  | some x =>
    obtain ⟨w, operand, hw, hclause⟩ := x.clause
    exact hclause.splitLabel? hw

theorem splitLabel?_some {n : Name} (h : l.label = some n) :
    ∃ rest, splitLabel? l.core = some (n.chars, rest) ∧ Text.trim rest = l.text := by
  unfold core text
  rw [h]
  cases hx : l.content with
  | none =>
    refine ⟨[], ?_, rfl⟩
    have hsplit := splitLabel?_name n [] (by simp)
    rwa [List.append_nil] at hsplit
  | some x =>
    obtain ⟨w, operand, hw, hclause⟩ := x.clause
    have hgap : l.between.chars ≠ [] := l.apart (by simp [h]) (by simp [hx])
    refine ⟨l.between.chars ++ x.chars, splitLabel?_name n _ (Gap.head hgap x.chars), ?_⟩
    have htrim : Text.trim (l.between.chars ++ x.chars ++ []) = x.chars :=
      (hclause.solid hw).trim l.between.isBlank (by simp)
    rwa [List.append_nil] at htrim

end Grammar.Line

theorem addText_content (o : Outline) (number : Nat) (l : Line) {x : Content}
    (hx : l.content = some x) (hslots : ∀ d, l.slots? = some d → d.value ≤ 65535) :
    o.addText number x.chars =
      .ok { o with
        statements := (o.withLine number l).statements
        slotCount := (o.withLine number l).slotCount } := by
  obtain ⟨w, operand, hw, hclause⟩ := x.clause
  have hne : ¬(x.chars.isEmpty = true) := by simp [hclause.ne_nil hw]
  unfold Outline.addText
  rw [if_neg hne]
  cases x with
  | slots word gap count spelled apart =>
    have hcount : l.slots? = some count := by rw [Line.slots?, hx]
    have hphrase : l.phrase? = none := by rw [Line.phrase?, hx]
    have hlower : word.map Char.toLower = ".slots".toList := spelled
    have hdirective : isSlotsDirective word = true := by
      rw [isSlotsDirective, hlower, beq_self_eq_true]
    obtain ⟨hword, hslotsClause⟩ := clause_slots count spelled apart
    simp only [Content.chars, hslotsClause.ofText hword, hdirective, if_true, Outline.setSlots,
      count.readBounded? (hslots count hcount), Outline.withLine, hcount, hphrase]
  | phrase ph =>
    have hcount : l.slots? = none := by rw [Line.slots?, hx]
    have hphrase : l.phrase? = some ph := by rw [Line.phrase?, hx]
    simp only [Content.chars, ph.clause.ofText ph.isWord, ph.isSlotsDirective, ph.opcode?,
      Outline.withLine, hcount, hphrase]
    rfl

theorem addText_text (o : Outline) (number : Nat) (l : Line)
    (hslots : ∀ d, l.slots? = some d → d.value ≤ 65535) :
    o.addText number l.text =
      .ok { o with
        statements := (o.withLine number l).statements
        slotCount := (o.withLine number l).slotCount } := by
  unfold Line.text
  cases hx : l.content with
  | none =>
    have hcount : l.slots? = none := by rw [Line.slots?, hx]
    have hphrase : l.phrase? = none := by rw [Line.phrase?, hx]
    simp only [Outline.withLine, hcount, hphrase]
    rfl
  | some x => exact addText_content o number l hx hslots

/-- A line of the grammar is read, and adds what it means. -/
theorem addLine_chars (o : Outline) (number : Nat) (l : Line)
    (hlabel : ∀ n, l.label = some n → o.labels.contains n.text = false)
    (hslots : ∀ d, l.slots? = some d → d.value ≤ 65535) :
    o.addLine number l.chars = .ok (o.withLine number l) := by
  unfold Outline.addLine
  rw [l.stripComment_chars, l.trim_body]
  cases hn : l.label with
  | none =>
    simp only [l.core_of_none hn, l.splitLabel?_text, addText_text o number l hslots]
    simp only [Outline.withLine, hn]
  | some n =>
    obtain ⟨rest, hsplit, htrim⟩ := l.splitLabel?_some hn
    have hfresh : o.labels.contains (String.ofList n.chars) = false := hlabel n hn
    have hadd : o.addLabel number n.chars =
        .ok { o with labels := o.labels.insert n.text o.statements.size } := by
      simp only [Outline.addLabel, n.isName, hfresh]
      rfl
    have htext := addText_text { o with labels := o.labels.insert n.text o.statements.size } number
      l hslots
    simp only [hsplit, hadd, htrim, bind, Except.bind, htext]
    simp only [Outline.withLine, hn]

end WorldScript.Source
