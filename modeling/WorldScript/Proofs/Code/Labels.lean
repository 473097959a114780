import Mathlib.Data.List.Sort
import WorldScript.Code.Listing
import WorldScript.Proofs.Source.Lines
import WorldScript.Proofs.Source.Numerals

/-!
The labels of a listing. A listing consists of comments and, for each code position in turn, the
line of its label, if some instruction targets it, and its own line. The lines are told apart by how
they begin, so that no other line can be taken for that of a label.

Main statements: `lines_eq` and `labels_are_right`.
-/
set_option autoImplicit false

namespace WorldScript.CodeUnit

variable (u : CodeUnit)

def isTarget (t : Nat) : Bool :=
  u.code.toList.any fun i => decide (i.operand.target? = some t)

/-- The rank of a target among all of them in ascending order, the first being 1. -/
def rank (t : Nat) : Nat := (List.range (t + 1)).countP u.isTarget

def label (t : Nat) : String := "L" ++ Decimal.text (u.rank t)

def byteOffset (n : Nat) : Nat := ((u.code.toList.take n).map fun i => i.bytes.length).sum

def lineAt (n : Nat) : String :=
  match u.code.toList[n]? with
  | some i => Listing.instructionLine u.strings (Listing.targets u.code.toList) n (u.byteOffset n) i
  | none => Listing.padded 4 '0' (Decimal.text n) ++ " <end>"

def comments : List String :=
  Listing.headLine u :: (u.strings.toList.zipIdx.map fun (s, k) => Listing.stringLine k s)

def labelLines (n : Nat) : List String := if u.isTarget n then [u.label n ++ ":"] else []

/-- The lines of a position. The end of the code has none of its own unless it is a target. -/
def block (n : Nat) : List String :=
  u.labelLines n ++ if n < u.size ∨ u.isTarget n = true then [u.lineAt n] else []

variable {u} {t n : Nat} {i : Instruction} {line : String}

/-! ### Targets by rank -/

theorem isTarget_iff : u.isTarget t = true ↔ ∃ i ∈ u.code.toList, i.operand.target? = some t := by
  simp only [isTarget, List.any_eq_true, decide_eq_true_eq]

theorem le_size_of_isTarget (ht : u.isTarget t = true) : t ≤ u.size := by
  obtain ⟨i, hi, ht⟩ := isTarget_iff.1 ht
  exact u.target_le_size hi ht

theorem targets_eq (u : CodeUnit) :
    Listing.targets u.code.toList = (List.range (u.size + 1)).filter u.isTarget := by
  refine (Listing.pairwise_targets _).eq_of_mem_iff (List.pairwise_lt_range.filter _) fun t => ?_
  rw [Listing.mem_targets, List.mem_filter, List.mem_range, ← isTarget_iff]
  exact ⟨fun ht => ⟨Nat.lt_succ_of_le (le_size_of_isTarget ht), ht⟩, And.right⟩

theorem range_succ_eq (h : t ≤ n) :
    ∃ later : List Nat, List.range (n + 1) = List.range t ++ t :: later ∧ ∀ s ∈ later, t < s := by
  obtain ⟨k, rfl⟩ := Nat.exists_eq_add_of_le h
  refine ⟨(List.range k).map fun j => t + (j + 1), ?_, ?_⟩
  · rw [Nat.add_assoc, List.range_add, List.range_succ_eq_map, List.map_cons, List.map_map]
    rfl
  · intro s hs
    obtain ⟨j, -, rfl⟩ := List.mem_map.1 hs
    omega

theorem label?_targets (u : CodeUnit) (t : Nat) :
    Listing.label? (Listing.targets u.code.toList) t =
      if u.isTarget t = true then some (u.label t) else none := by
  rw [Listing.label?, targets_eq]
  split
  case isTrue ht =>
    obtain ⟨later, hrange, -⟩ := range_succ_eq (le_size_of_isTarget ht)
    have hplace : ((List.range (u.size + 1)).filter u.isTarget).idxOf? t =
        some ((List.range t).filter u.isTarget).length := by
      rw [hrange, List.filter_append, List.filter_cons_of_pos ht, List.idxOf?_eq_some_iff]
      refine ⟨by simp, by simp, fun j hj => ?_⟩
      rw [List.getElem_append_left hj]
      have hmem := List.getElem_mem hj
      exact Nat.ne_of_lt (List.mem_range.1 (List.mem_filter.1 hmem).1)
    have hrank : u.rank t = ((List.range t).filter u.isTarget).length + 1 := by
      rw [rank, List.range_succ, List.countP_append, List.countP_eq_length_filter]
      simp [ht]
    rw [hplace, Option.map_some, label, hrank]
  case isFalse ht =>
    have hnot : t ∉ (List.range (u.size + 1)).filter u.isTarget :=
      fun hmem => ht (List.mem_filter.1 hmem).2
    rw [List.idxOf?_eq_none_iff.2 hnot, Option.map_none]

theorem rank_lt_rank {s : Nat} (ht : u.isTarget t = true) (h : s < t) : u.rank s < u.rank t := by
  have hle : (List.range (s + 1)).countP u.isTarget ≤ (List.range t).countP u.isTarget :=
    (List.range_sublist.2 h).countP_le
  rw [rank, rank, List.range_succ (n := t), List.countP_append, List.countP_singleton, if_pos ht]
  exact Nat.lt_succ_of_le hle

theorem label_inj {s : Nat} (hs : u.isTarget s = true) (ht : u.isTarget t = true)
    (h : u.label s ++ ":" = u.label t ++ ":") : s = t := by
  have hchars := congrArg String.toList h
  simp only [label, String.toList_append, Decimal.text, String.toList_ofList] at hchars
  have hdigits : Decimal.digits (u.rank s) = Decimal.digits (u.rank t) := by
    simpa using hchars
  have hrank := Decimal.digits_injective hdigits
  by_contra hne
  obtain hlt | hlt := Nat.lt_or_gt_of_ne hne
  · exact Nat.ne_of_lt (rank_lt_rank ht hlt) hrank
  · exact Nat.ne_of_gt (rank_lt_rank hs hlt) hrank

/-! ### The lines of a listing -/

theorem labelLine_targets (h : n < UInt32.size) :
    Listing.labelLine (Listing.targets u.code.toList) n = u.labelLines n := by
  rw [Listing.labelLine, Nat.mod_eq_of_lt h, label?_targets, labelLines]
  cases u.isTarget n <;> rfl

theorem block_of_lt (h : n < u.size) : u.block n = u.labelLines n ++ [u.lineAt n] := by
  rw [block, if_pos (.inl h)]

theorem lineAt_of_getElem? (h : u.code.toList[n]? = some i) :
    u.lineAt n = Listing.instructionLine u.strings (Listing.targets u.code.toList) n
      (u.byteOffset n) i := by
  rw [lineAt, h]

theorem lineAt_size (u : CodeUnit) :
    u.lineAt u.size = Listing.padded 4 '0' (Decimal.text u.size) ++ " <end>" := by
  have hend : u.code.toList[u.size]? = none := List.getElem?_eq_none (Nat.le_refl _)
  rw [lineAt, hend]

theorem instructionLines_eq (hsize : u.size < UInt32.size) {done todo : List Instruction}
    (h : u.code.toList = done ++ todo) :
    Listing.instructionLines u.strings (Listing.targets u.code.toList) done.length
        (done.map fun i => i.bytes.length).sum todo =
      (List.range' done.length todo.length).flatMap u.block := by
  induction todo generalizing done with
  | nil => rfl
  | cons i todo ih =>
    have hlength : done.length < u.size := by
      have hcode := congrArg List.length h
      rw [Array.length_toList, List.length_append, List.length_cons] at hcode
      rw [size]
      omega
    have hoffset : u.byteOffset done.length = (done.map fun i => i.bytes.length).sum := by
      rw [byteOffset, h, List.take_left]
    have hline := lineAt_of_getElem? (u := u) (n := done.length) (i := i) (by simp [h])
    have hsplit : u.code.toList = (done ++ [i]) ++ todo := by simpa using h
    have hrest := ih hsplit
    rw [List.length_append, List.map_append, List.sum_append] at hrest
    rw [Listing.instructionLines, labelLine_targets (Nat.lt_trans hlength hsize), ← hoffset,
      ← hline, List.length_cons, List.range'_succ, List.flatMap_cons, block_of_lt hlength,
      List.append_assoc, List.singleton_append, hoffset]
    exact congrArg (_ ++ _ :: ·) hrest

/-- A listing consists of the comments and the lines of each position in turn. -/
theorem lines_eq (u : CodeUnit) (hsize : u.size < UInt32.size) :
    Listing.lines u = u.comments ++ (List.range (u.size + 1)).flatMap u.block := by
  have hcode := instructionLines_eq hsize (List.nil_append u.code.toList).symm
  have hend : Listing.endLines (Listing.targets u.code.toList) u.size = u.block u.size := by
    rw [Listing.endLines, Nat.mod_eq_of_lt hsize, label?_targets, block, labelLines, lineAt_size]
    cases u.isTarget u.size <;> simp
  rw [Listing.lines]
  dsimp only
  rw [hend, List.range_succ, List.flatMap_append, List.flatMap_singleton, ← List.append_assoc]
  refine congrArg (· ++ _) (congrArg (u.comments ++ ·) ?_)
  rw [List.range_eq_range']
  exact hcode

/-! ### How lines begin -/

theorem head_comment (h : line ∈ u.comments) : line.toList.head? = some ';' := by
  obtain rfl | h := List.mem_cons.1 h
  · simp [Listing.headLine]
  · obtain ⟨e, -, rfl⟩ := List.mem_map.1 h
    simp [Listing.stringLine]

theorem head_label (u : CodeUnit) (t : Nat) : (u.label t ++ ":").toList.head? = some 'L' := by
  simp [label]

theorem head_lineAt (u : CodeUnit) (n : Nat) : (u.lineAt n).toList.head? ≠ some 'L' := by
  have hindex : ∀ c ∈ (Listing.padded 4 '0' (Decimal.text n)).toList, c.isDigit = true := by
    intro c hc
    rw [Listing.padded, String.toList_append, String.toList_ofList, Decimal.text,
      String.toList_ofList] at hc
    exact (List.mem_append.1 hc).elim Source.isDigit_of_mem_zeros Decimal.isDigit_of_mem_digits
  have hne : (Listing.padded 4 '0' (Decimal.text n)).toList ≠ [] := by
    simp [Listing.padded, Decimal.text, Decimal.digits_ne_nil]
  have hline : ∃ rest, u.lineAt n = Listing.padded 4 '0' (Decimal.text n) ++ rest := by
    unfold lineAt
    split
    · simp only [Listing.instructionLine, String.append_assoc]
      exact ⟨_, rfl⟩
    · exact ⟨_, rfl⟩
  obtain ⟨rest, hline⟩ := hline
  obtain ⟨c, more, hmore⟩ := List.exists_cons_of_ne_nil hne
  have hdigit := hindex c (hmore ▸ List.mem_cons_self)
  rw [hline, String.toList_append, hmore, List.cons_append, List.head?_cons]
  intro he
  obtain rfl := Option.some.inj he
  cases hdigit

/-- The lines that begin as those of labels do are lines of labels. -/
theorem eq_label_of_mem_block (h : line ∈ u.block n) (hhead : line.toList.head? = some 'L') :
    u.isTarget n = true ∧ line = u.label n ++ ":" := by
  obtain h | h := List.mem_append.1 h
  · rw [labelLines] at h
    split at h
    case isTrue ht => exact ⟨ht, List.mem_singleton.1 h⟩
    case isFalse => cases h
  · split at h
    case isTrue =>
      rw [List.mem_singleton.1 h] at hhead
      exact absurd hhead (u.head_lineAt n)
    case isFalse => cases h

theorem label_notMem_blocks (ht : u.isTarget t = true) {positions : List Nat}
    (h : ∀ n ∈ positions, n ≠ t) : u.label t ++ ":" ∉ positions.flatMap u.block := by
  intro hmem
  obtain ⟨n, hn, hblock⟩ := List.mem_flatMap.1 hmem
  obtain ⟨hn', hsame⟩ := eq_label_of_mem_block hblock (u.head_label t)
  exact h n hn (label_inj ht hn' hsame).symm

theorem label_notMem_comments (u : CodeUnit) (t : Nat) : u.label t ++ ":" ∉ u.comments := by
  intro hmem
  have hhead := head_comment hmem
  rw [head_label] at hhead
  cases hhead

/-! ### Whole lines -/

theorem lineAt_of_target (hi : u.code.toList[n]? = some i) (ht : i.operand.target? = some t) :
    ∃ front, u.lineAt n =
      front ++ (i.opcode.mnemonic ++ " " ++ u.label t ++ " (@" ++ Decimal.text t ++ ")") := by
  have htarget : u.isTarget t = true := isTarget_iff.2 ⟨i, List.mem_of_getElem? hi, ht⟩
  rw [lineAt_of_getElem? hi, Listing.instructionLine, Listing.instructionText, ht]
  simp only [label?_targets, htarget, if_true]
  exact ⟨_, rfl⟩

/-! ### No line is broken -/

theorem ne_newline_of_isDigit {c : Char} (h : c.isDigit = true) : c ≠ '\n' := by
  rintro rfl
  cases h

theorem newline_notMem_text (n : Nat) : '\n' ∉ (Decimal.text n).toList := by
  rw [Decimal.text, String.toList_ofList]
  exact fun h => ne_newline_of_isDigit (Decimal.isDigit_of_mem_digits h) rfl

theorem newline_notMem_hexDigits (n : Nat) : '\n' ∉ Text.hexDigits n :=
  fun h => absurd (Text.isAlphanum_of_mem_hexDigits h) (by decide)

theorem newline_notMem_paddedHex (width n : Nat) : '\n' ∉ Text.paddedHex width n :=
  fun h => absurd (Text.isAlphanum_of_mem_paddedHex h) (by decide)

theorem newline_notMem_quote (s : String) : '\n' ∉ (Text.quote s).toList := by
  have hescape : ∀ c, '\n' ∉ Text.escapeChar c := by
    intro c
    unfold Text.escapeChar
    split
    case h_6 c hquote hbackslash hnewline hreturn htab =>
      split
      · decide
      · split
        · simp [newline_notMem_hexDigits]
        · simpa using fun he => hnewline he.symm
    all_goals decide
  simp [Text.quote, hescape]

theorem newline_notMem_mnemonic (op : Opcode) : '\n' ∉ op.mnemonic.toList := by
  have hplain := List.all_eq_true.1 (Source.mnemonic_isWord op).1
  exact fun h => absurd (hplain _ h) (by decide)

theorem newline_notMem_operand (o : Operand) : '\n' ∉ o.text.toList := by
  cases o with
  | none => decide
  | number x =>
    obtain ⟨n, hchars, -⟩ := Source.exists_numeral x
    have hplain : '\n' ∉ x.text.toList := by
      rw [← hchars]
      exact fun h => absurd (n.plain _ h) (by decide)
    simpa [Operand.text] using hplain
  | codeOffset t | slot t | stringIndex t | callTarget t =>
    simp [Operand.text, newline_notMem_text]
  | entity h => simp [Operand.text, Handle.text, newline_notMem_text]

theorem newline_notMem_instruction (i : Instruction) : '\n' ∉ i.text.toList := by
  rw [Instruction.text, String.toList_append, List.mem_append, not_or]
  exact ⟨newline_notMem_mnemonic _, newline_notMem_operand _⟩

theorem newline_notMem_label (u : CodeUnit) (t : Nat) : '\n' ∉ (u.label t ++ ":").toList := by
  simp [label, newline_notMem_text]

theorem newline_notMem_instructionText (u : CodeUnit) (i : Instruction) :
    '\n' ∉ (Listing.instructionText u.strings (Listing.targets u.code.toList) i).toList := by
  unfold Listing.instructionText
  split
  · rw [label?_targets]
    split
    case h_1 heq =>
      split at heq
      case isTrue =>
        rw [← Option.some.inj heq]
        simp [newline_notMem_mnemonic, newline_notMem_text, label]
      case isFalse => cases heq
    case h_2 => exact newline_notMem_instruction i
  · split
    · split
      · simp [newline_notMem_mnemonic, newline_notMem_quote]
      · simp [newline_notMem_instruction]
    · exact newline_notMem_instruction i

theorem newline_notMem_bytes (bytes : List UInt8) :
    '\n' ∉ [' '].intercalate (bytes.map (String.toList ∘ DecodeError.hexByte)) := by
  have hbyte : ∀ b, '\n' ∉ (DecodeError.hexByte b).toList := fun b => by
    rw [DecodeError.hexByte, String.toList_ofList]
    exact newline_notMem_paddedHex _ _
  induction bytes with
  | nil => simp
  | cons b rest ih =>
    cases rest with
    | nil => simpa using hbyte b
    | cons c rest =>
      rw [List.map_cons, List.map_cons, List.intercalate_cons_cons]
      rw [List.map_cons] at ih
      simpa [hbyte] using ih

theorem newline_notMem_lineAt (u : CodeUnit) (n : Nat) : '\n' ∉ (u.lineAt n).toList := by
  have hindex : '\n' ∉ (Listing.padded 4 '0' (Decimal.text n)).toList := by
    simp [Listing.padded, newline_notMem_text]
  unfold lineAt
  split
  case h_1 i hi =>
    simp [Listing.instructionLine, Listing.paddedRight, hindex, newline_notMem_paddedHex,
      newline_notMem_bytes, newline_notMem_instructionText]
  case h_2 => simp [hindex]

theorem newline_notMem_lines (hsize : u.size < UInt32.size) (h : line ∈ Listing.lines u) :
    '\n' ∉ line.toList := by
  rw [lines_eq u hsize] at h
  obtain h | h := List.mem_append.1 h
  · obtain rfl | h := List.mem_cons.1 h
    · simp [Listing.headLine, newline_notMem_text]
    · obtain ⟨e, -, rfl⟩ := List.mem_map.1 h
      simp [Listing.stringLine, newline_notMem_text, newline_notMem_quote]
  · obtain ⟨n, -, h⟩ := List.mem_flatMap.1 h
    obtain h | h := List.mem_append.1 h
    · rw [labelLines] at h
      split at h
      case isTrue => exact List.mem_singleton.1 h ▸ newline_notMem_label u n
      case isFalse => cases h
    · split at h
      case isTrue => exact List.mem_singleton.1 h ▸ newline_notMem_lineAt u n
      case isFalse => cases h

/-- Lines that are ended one by one are found again, before the empty text behind the last one. -/
theorem splitLines_join {lines : List String} (h : ∀ line ∈ lines, '\n' ∉ line.toList) :
    Text.splitLines (String.join (lines.map (· ++ "\n"))).toList =
      lines.map String.toList ++ [[]] := by
  rw [String.toList_join]
  induction lines with
  | nil => rfl
  | cons line rest ih =>
    obtain ⟨hline, hrest⟩ := List.forall_mem_cons.1 h
    have hend : (line ++ "\n").toList = line.toList ++ ['\n'] := String.toList_append
    rw [List.map_cons, List.flatMap_cons, hend, List.append_assoc, List.singleton_append,
      Text.splitLines_append hline, ih hrest]
    rfl

/-- Every target is shown by the label of its rank. This is defined on one line, right before that
of the instruction, and no other line begins as those of labels do. -/
theorem labels_are_right (u : CodeUnit) (hsize : u.size < UInt32.size) :
    Text.splitLines u.listing.toList = (Listing.lines u).map String.toList ++ [[]] ∧
      (∀ n i t, u.code.toList[n]? = some i → i.operand.target? = some t →
        u.lineAt n ∈ Listing.lines u ∧ ∃ front, u.lineAt n = front ++
          (i.opcode.mnemonic ++ " " ++ u.label t ++ " (@" ++ Decimal.text t ++ ")")) ∧
      (∀ t, u.isTarget t = true → ∃ before after,
        Listing.lines u = before ++ (u.label t ++ ":") :: u.lineAt t :: after ∧
          u.label t ++ ":" ∉ before ∧ u.label t ++ ":" ∉ u.lineAt t :: after) ∧
      ∀ line ∈ Listing.lines u, line.toList.head? = some 'L' →
        ∃ t, u.isTarget t = true ∧ line = u.label t ++ ":" := by
  have hlines := lines_eq u hsize
  refine ⟨splitLines_join fun line h => newline_notMem_lines hsize h,
    fun n i t hi ht => ⟨?_, lineAt_of_target hi ht⟩, fun t ht => ?_, fun line hline hhead => ?_⟩
  · have hn : n < u.size := by
      obtain ⟨hn, -⟩ := List.getElem?_eq_some_iff.1 hi
      exact hn
    rw [hlines]
    refine List.mem_append_right _ (List.mem_flatMap.2 ⟨n, List.mem_range.2 (by omega), ?_⟩)
    rw [block_of_lt hn]
    simp
  · obtain ⟨later, hrange, hlater⟩ := range_succ_eq (le_size_of_isTarget ht)
    have hblock : u.block t = [u.label t ++ ":", u.lineAt t] := by
      simp [block, labelLines, ht]
    refine ⟨u.comments ++ (List.range t).flatMap u.block, later.flatMap u.block, ?_, ?_, ?_⟩
    · rw [hlines, hrange, List.flatMap_append, List.flatMap_cons, hblock]
      simp
    · rw [List.mem_append, not_or]
      refine ⟨u.label_notMem_comments t, label_notMem_blocks ht fun n hn => ?_⟩
      exact Nat.ne_of_lt (List.mem_range.1 hn)
    · rw [List.mem_cons, not_or]
      refine ⟨fun he => ?_, label_notMem_blocks ht fun n hn => Nat.ne_of_gt (hlater n hn)⟩
      exact u.head_lineAt t (he ▸ u.head_label t)
  · rw [hlines] at hline
    obtain hline | hline := List.mem_append.1 hline
    · rw [head_comment hline] at hhead
      cases hhead
    · obtain ⟨n, -, hblock⟩ := List.mem_flatMap.1 hline
      exact ⟨n, eq_label_of_mem_block hblock hhead⟩

def loop : CodeUnit where
  slotCount := 0
  strings := #["L1:\n"]
  code := #[⟨.jumpIfFalse, .codeOffset 3, 0⟩, ⟨.call, .callTarget 0, 5⟩, ⟨.jump, .codeOffset 0, 8⟩]
  sound := by decide

theorem labels_are_right_loop :
    loop.size < UInt32.size ∧ loop.rank 0 = 1 ∧ loop.rank 3 = 2 ∧ loop.isTarget 1 = false ∧
      loop.isTarget 2 = false ∧
      (∃ front, loop.lineAt 1 =
        front ++ ("call" ++ " " ++ loop.label 0 ++ " (@" ++ Decimal.text 0 ++ ")")) ∧
      ∃ before after,
        Listing.lines loop = before ++ (loop.label 3 ++ ":") :: loop.lineAt 3 :: after ∧
          loop.label 3 ++ ":" ∉ before ∧ loop.label 3 ++ ":" ∉ loop.lineAt 3 :: after := by
  have hsize : loop.size < UInt32.size := by decide
  obtain ⟨-, htargets, hlabels, -⟩ := labels_are_right loop hsize
  obtain ⟨-, hcall⟩ := htargets 1 ⟨.call, .callTarget 0, 5⟩ 0 rfl rfl
  exact ⟨hsize, by decide, by decide, by decide, by decide, hcall, hlabels 3 (by decide)⟩

end WorldScript.CodeUnit
