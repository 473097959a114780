import WorldScript.Proofs.Source.Lines

/-!
The first pass of the assembler over the lines of a program: the outline that it collects holds the
statements in order, the last slot count, and each label with the number of statements before it.

Main statement: `addLines_source`.
-/
set_option autoImplicit false

namespace WorldScript.Source

open Grammar

/-! ### Addresses -/

namespace Grammar

theorem Name.text_injective {m n : Name} (h : m.text = n.text) : m = n := by
  have hchars : m.chars = n.chars := String.ofList_injective h
  obtain ⟨first, rest, _, _⟩ := m
  obtain ⟨first', rest', _, _⟩ := n
  obtain ⟨rfl, rfl⟩ := List.cons.inj hchars
  rfl

namespace Program

variable {p q before after : Program} {l : Line} {n : Name}

theorem address_of_label (hfirst : n ∉ before.labels) (hl : l.label = some n) :
    Program.address (before ++ l :: after) n = before.phrases.length := by
  have hother : ∀ k ∈ before, decide (k.label ≠ some n) = true := by
    intro k hk
    rw [decide_eq_true_eq]
    intro hn
    exact hfirst (List.mem_filterMap.2 ⟨k, hk, hn⟩)
  rw [address, List.takeWhile_append_of_pos hother, List.takeWhile_cons_of_neg (by simp [hl]),
    List.append_nil]

theorem address_append (h : n ∈ p.labels) : Program.address (p ++ q) n = p.address n := by
  obtain ⟨l, hl, hn⟩ := List.mem_filterMap.1 h
  have hlength : (p.takeWhile fun l => decide (l.label ≠ some n)).length ≠ p.length := by
    intro he
    have hall : p.takeWhile (fun l => decide (l.label ≠ some n)) = p :=
      (List.takeWhile_prefix _).eq_of_length he
    have hnone := List.all_eq_true.1 (List.all_takeWhile (l := p)) l (by rwa [hall])
    exact absurd hn (by simpa using hnone)
  rw [address, List.takeWhile_append, if_neg hlength, address]

theorem address_le (p : Program) (n : Name) : p.address n ≤ p.phrases.length :=
  ((List.takeWhile_sublist _).filterMap Line.phrase?).length_le

end Program

/-! ### Lines of a text -/

theorem notMem_of_plain {cs : List Char} (h : ∀ c ∈ cs, isPlain c = true) : '\n' ∉ cs := by
  intro hmem
  exact absurd (h _ hmem) (by decide)

theorem Gap.single (g : Gap) : '\n' ∉ g.chars := fun h => (g.blank _ h).2 rfl

theorem Piece.single (piece : Piece) : '\n' ∉ piece.chars := by
  cases piece with
  | plain c bare => simpa [chars] using bare.2.2.symm
  | newline | tab | quote | backslash => decide

theorem Argument.single (a : Argument) : '\n' ∉ a.chars := by
  obtain ⟨pieces, rfl⟩ | ⟨-, h⟩ := a.plain
  · simp [chars, Piece.single]
  · exact notMem_of_plain h

theorem Content.single (x : Content) : '\n' ∉ x.chars := by
  cases x with
  | slots word gap count spelled apart =>
    have hword : '\n' ∉ word := spelled.notMem rfl (by decide)
    simp [chars, hword, gap.single, notMem_of_plain count.plain]
  | phrase ph =>
    have hword := notMem_of_plain ph.isWord.plain
    cases harg : ph.argument with
    | none => simpa [chars, Phrase.chars, harg] using hword
    | some x =>
      obtain ⟨g, a⟩ := x
      simp [chars, Phrase.chars, harg, hword, g.single, a.single]

theorem Line.notMem_chars (l : Line) : '\n' ∉ l.chars := by
  have hlabel : '\n' ∉ (l.label.map fun n => n.chars ++ [':']).getD [] := by
    cases l.label with
    | none => simp
    | some n => simp [notMem_of_plain n.plain]
  have hcontent : '\n' ∉ (l.content.map Content.chars).getD [] := by
    cases l.content with
    | none => simp
    | some x => simpa using x.single
  have hcomment : '\n' ∉ (l.comment.map fun cs => ';' :: cs).getD [] := by
    cases hc : l.comment with
    | none => simp
    | some cs => simpa using l.single cs hc
  simp only [chars, List.mem_append, not_or]
  exact ⟨⟨⟨⟨⟨l.indent.single, hlabel⟩, l.between.single⟩, hcontent⟩, l.trailing.single⟩, hcomment⟩

end Grammar

namespace Outline

variable {o o' : Outline} {p : Program} {l : Line}

theorem addLine_dropReturn (o : Outline) (number : Nat) (raw : List Char) :
    o.addLine number (Text.dropReturn raw) = o.addLine number raw := by
  unfold addLine
  rw [trim_stripComment_dropReturn]

theorem addLines_map_dropReturn (pieces : List (List Char)) (o : Outline) (number : Nat) :
    o.addLines number (pieces.map Text.dropReturn) = o.addLines number pieces := by
  induction pieces generalizing o number with
  | nil => rfl
  | cons raw pieces ih => simp only [List.map_cons, addLines, addLine_dropReturn, ih]

theorem addLines_append (pieces more : List (List Char)) (o : Outline) (number : Nat) :
    o.addLines number (pieces ++ more) =
      o.addLines number pieces >>= fun o' => o'.addLines (number + pieces.length) more := by
  induction pieces generalizing o number with
  | nil => rfl
  | cons raw pieces ih =>
    have hnumber : number + (raw :: pieces).length = number + 1 + pieces.length := by
      simp only [List.length_cons]
      omega
    simp only [List.cons_append, addLines, ih, hnumber]
    cases o.addLine number raw <;> rfl

/-- The first pass does not see carriage returns at the ends of lines, nor an empty last line. -/
theorem addLines_lines (o : Outline) (number : Nat) (text : List Char) :
    o.addLines number (Text.lines text) = o.addLines number (Text.splitLines text) := by
  obtain ⟨pieces, last, he⟩ : ∃ pieces last, Text.splitLines text = pieces ++ [last] :=
    ⟨_, _, (List.dropLast_concat_getLast (Text.splitLines_ne_nil text)).symm⟩
  unfold Text.lines
  simp only [he, List.dropLast_concat, List.getLastD_concat, addLines_append,
    addLines_map_dropReturn, List.length_map]
  congr 1
  funext o'
  -- an empty last line adds nothing, whether it is there or not
  split
  case isTrue hempty =>
    rw [List.isEmpty_iff.1 hempty]
    rfl
  case isFalse => rfl

/-! ### What the first pass has collected -/

structure Covers (o : Outline) (p : Program) : Prop where
  statements : o.statements.toList.map (fun s => (s.opcode, s.operand)) =
    p.phrases.map fun ph => (ph.opcode, ph.operand)
  slotCount : o.slotCount = UInt16.ofNat p.slotCount
  labels : ∀ n : Name, o.labels.get? n.text = if n ∈ p.labels then some (p.address n) else none

theorem covers_empty : Outline.empty.Covers [] where
  statements := rfl
  slotCount := rfl
  labels := fun _ => rfl

theorem Covers.size_eq (h : o.Covers p) : o.statements.size = p.phrases.length := by
  simpa using congrArg List.length h.statements

theorem Covers.withLine (h : o.Covers p) (number : Nat)
    (hfresh : ∀ n, l.label = some n → n ∉ p.labels) :
    (o.withLine number l).Covers (p ++ [l]) := by
  constructor
  · have hstatements := h.statements
    unfold Outline.withLine Program.phrases at *
    cases hph : l.phrase? with
    | none => simpa [List.filterMap_append, hph] using hstatements
    | some ph => simp [List.filterMap_append, hph, hstatements]
  · have hcount := h.slotCount
    unfold Outline.withLine Program.slotCount at *
    cases hd : l.slots? with
    | none => simpa [List.filterMap_append, hd] using hcount
    | some d => simp [List.filterMap_append, hd]
  · intro n
    have hlabels := h.labels n
    have hkept : (if n ∈ p.labels then some (p.address n) else none) =
        if n ∈ p.labels then some (Program.address (p ++ [l]) n) else none := by
      split
      case isTrue hn => rw [Program.address_append hn]
      case isFalse => rfl
    unfold Outline.withLine
    cases hl : l.label with
    | none =>
      have hsame : Program.labels (p ++ [l]) = p.labels := by
        simp [Program.labels, List.filterMap_append, hl]
      simp only [hsame, hlabels]
      exact hkept
    | some m =>
      have hmore : Program.labels (p ++ [l]) = p.labels ++ [m] := by
        simp [Program.labels, List.filterMap_append, hl]
      have hm := hfresh m hl
      simp only [hmore, OrderedMap.get?_insert, hlabels, h.size_eq]
      by_cases hn : m = n
      -- the label of the new line stands behind all statements so far
      · subst hn
        simp [Program.address_of_label hm hl]
      · have htext : ¬m.text = n.text := fun he => hn (Name.text_injective he)
        have hmem : n ∈ p.labels ++ [m] ↔ n ∈ p.labels := by simp [Ne.symm hn]
        simp only [htext, if_false, hmem]
        exact hkept

theorem addLines_chars (more : Program) (h : o.Covers p) (number : Nat)
    (hdistinct : (Program.labels (p ++ more)).Nodup)
    (hslots : ∀ d ∈ more.filterMap Line.slots?, d.value ≤ 65535) :
    ∃ o', o.addLines number (more.map Line.chars) = .ok o' ∧ o'.Covers (p ++ more) := by
  induction more generalizing o p number with
  | nil => exact ⟨o, rfl, by rwa [List.append_nil]⟩
  | cons l more ih =>
    have hfresh : ∀ n, l.label = some n → n ∉ p.labels := by
      intro n hl hmem
      have hlabels : Program.labels (p ++ l :: more) = p.labels ++ n :: Program.labels more := by
        simp [Program.labels, List.filterMap_append, hl]
      rw [hlabels, List.nodup_append] at hdistinct
      exact hdistinct.2.2 n hmem n (by simp) rfl
    have hline : o.addLine number l.chars = .ok (o.withLine number l) := by
      refine addLine_chars o number l (fun n hl => ?_) fun d hd => ?_
      · rw [OrderedMap.contains, h.labels, if_neg (hfresh n hl)]
        rfl
      · exact hslots d (List.mem_filterMap.2 ⟨l, by simp, hd⟩)
    rw [List.append_cons] at hdistinct ⊢
    obtain ⟨o', hrest, ho'⟩ := ih (h.withLine number hfresh) (number + 1) hdistinct fun d hd => by
      obtain ⟨k, hk, hd⟩ := List.mem_filterMap.1 hd
      exact hslots d (List.mem_filterMap.2 ⟨k, List.mem_cons_of_mem l hk, hd⟩)
    exact ⟨o', by rw [List.map_cons, addLines, hline]; exact hrest, ho'⟩

/-- The first pass over a program succeeds, and has collected what its lines mean. -/
theorem addLines_source (hdistinct : p.labels.Nodup)
    (hslots : ∀ d ∈ p.filterMap Line.slots?, d.value ≤ 65535) :
    ∃ o, Outline.empty.addLines 1 (Text.lines p.source.toList) = .ok o ∧ o.Covers p := by
  cases p with
  | nil => exact ⟨Outline.empty, rfl, covers_empty⟩
  | cons l more =>
    have hsplit : Text.splitLines (['\n'].intercalate ((l :: more).map Line.chars)) =
        (l :: more).map Line.chars :=
      Text.splitLines_intercalate (by simp)
        (by simpa using ⟨l.notMem_chars, fun k _ => k.notMem_chars⟩)
    rw [Program.source, String.toList_ofList, addLines_lines, hsplit]
    exact addLines_chars (l :: more) covers_empty 1 hdistinct hslots

end Outline

end WorldScript.Source
