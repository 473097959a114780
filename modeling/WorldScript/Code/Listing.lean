import WorldScript.Code.Unit

/-!
Readable listings of code units: the string table, then each instruction with its index, its
byte offset, its bytes and its text. Positions that some instruction jumps to or calls carry
labels, numbered in ascending order of position.
-/
set_option autoImplicit false

namespace WorldScript.Listing

def insertTarget (t : Nat) : List Nat → List Nat
  | [] => [t]
  | u :: rest => if t < u then t :: u :: rest else if t = u then u :: rest else u :: insertTarget t rest

theorem mem_insertTarget {t u : Nat} {l : List Nat} : u ∈ insertTarget t l ↔ u = t ∨ u ∈ l := by
  induction l with
  | nil => simp [insertTarget]
  | cons v l ih =>
    unfold insertTarget
    split
    · simp
    · split
      · rename_i h; subst h; simp
      · simp only [List.mem_cons, ih]
        constructor
        · rintro (h | h | h) <;> simp [h]
        · rintro (h | h | h) <;> simp [h]

theorem pairwise_insertTarget {t : Nat} {l : List Nat} (h : l.Pairwise (· < ·)) :
    (insertTarget t l).Pairwise (· < ·) := by
  induction l with
  | nil => simp [insertTarget]
  | cons v l ih =>
    rw [List.pairwise_cons] at h
    unfold insertTarget
    split
    · rename_i hv
      rw [List.pairwise_cons, List.pairwise_cons]
      refine ⟨?_, h⟩
      intro w hw
      rcases List.mem_cons.1 hw with rfl | hw
      · exact hv
      · exact Nat.lt_trans hv (h.1 w hw)
    · split
      · exact List.pairwise_cons.2 h
      · rw [List.pairwise_cons]
        refine ⟨?_, ih h.2⟩
        intro w hw
        rcases mem_insertTarget.1 hw with rfl | hw
        · omega
        · exact h.1 w hw

/-- The positions that instructions jump to or call, ascending. -/
def targets (code : List Instruction) : List Nat :=
  (code.filterMap fun i => i.operand.target?).foldr insertTarget []

theorem pairwise_targets (code : List Instruction) : (targets code).Pairwise (· < ·) := by
  unfold targets
  induction code.filterMap fun i => i.operand.target? with
  | nil => simp
  | cons t l ih => exact pairwise_insertTarget ih

theorem mem_targets {code : List Instruction} {t : Nat} :
    t ∈ targets code ↔ ∃ i ∈ code, i.operand.target? = some t := by
  unfold targets
  have : ∀ l : List Nat, t ∈ l.foldr insertTarget [] ↔ t ∈ l := by
    intro l
    induction l with
    | nil => simp
    | cons v l ih => simp [List.foldr_cons, mem_insertTarget, ih]
  rw [this, List.mem_filterMap]

def label? (targets : List Nat) (position : Nat) : Option String :=
  (targets.idxOf? position).map fun k => "L" ++ Decimal.text (k + 1)

/-- An instruction as the listing of a unit shows it: targets by label, strings in full. -/
def instructionText (strings : Array String) (targets : List Nat) (i : Instruction) : String :=
  match i.operand.target? with
  | some t =>
    match label? targets t with
    | some label => i.opcode.mnemonic ++ " " ++ label ++ " (@" ++ Decimal.text t ++ ")"
    | none => i.text
  | none =>
    match i.operand.stringIndex? with
    | some k =>
      match strings[k]? with
      | some s => i.opcode.mnemonic ++ " " ++ Text.quote s
      | none => i.text ++ " <missing>"
    | none => i.text

def padded (width : Nat) (pad : Char) (s : String) : String :=
  String.ofList (List.replicate (width - s.length) pad) ++ s

def paddedRight (width : Nat) (s : String) : String :=
  s ++ String.ofList (List.replicate (width - s.length) ' ')

/-- The line of a label before a position, if it has one. Positions are looked up as words of 32
bits. -/
def labelLine (targets : List Nat) (position : Nat) : List String :=
  match label? targets (position % UInt32.size) with
  | some label => [label ++ ":"]
  | none => []

def instructionLine (strings : Array String) (targets : List Nat) (index offset : Nat)
    (i : Instruction) : String :=
  padded 4 '0' (Decimal.text index) ++ " " ++ String.ofList (Text.paddedHex 6 offset) ++ "  "
    ++ paddedRight 15 (" ".intercalate (i.bytes.map DecodeError.hexByte)) ++ " "
    ++ instructionText strings targets i

/-- The second word of a line. -/
def offsetShown (line : String) : List Char :=
  ((line.toList.dropWhile (· != ' ')).drop 1).takeWhile (· != ' ')

/-- The line of an instruction shows its offset after its index, in six digits or more. -/
theorem offsetShown_instructionLine (strings : Array String) (targets : List Nat)
    (index offset : Nat) (i : Instruction) :
    offsetShown (instructionLine strings targets index offset i) = Text.paddedHex 6 offset := by
  have hindex : ∀ c ∈ (padded 4 '0' (Decimal.text index)).toList, (c != ' ') = true := by
    intro c hc
    rw [padded, String.toList_append, String.toList_ofList, Decimal.text, String.toList_ofList,
      List.mem_append, List.mem_replicate] at hc
    obtain ⟨-, rfl⟩ | hc := hc
    · rfl
    · exact bne_iff_ne.2 fun he => absurd (he ▸ Decimal.isDigit_of_mem_digits hc) (by decide)
  have hoffset : ∀ c ∈ Text.paddedHex 6 offset, (c != ' ') = true := fun c hc =>
    bne_iff_ne.2 fun he => absurd (he ▸ Text.isAlphanum_of_mem_paddedHex hc) (by decide)
  obtain ⟨rest, hline⟩ : ∃ rest, (instructionLine strings targets index offset i).toList =
      (padded 4 '0' (Decimal.text index)).toList ++
        ' ' :: (Text.paddedHex 6 offset ++ ' ' :: rest) :=
    ⟨_, by simp [instructionLine]; rfl⟩
  rw [offsetShown, hline, List.dropWhile_append_of_pos hindex,
    List.dropWhile_cons_of_neg (by decide), List.drop_one, List.tail_cons,
    List.takeWhile_append_of_pos hoffset, List.takeWhile_cons_of_neg (by decide), List.append_nil]

def instructionLines (strings : Array String) (targets : List Nat) :
    Nat → Nat → List Instruction → List String
  | _, _, [] => []
  | index, offset, i :: rest =>
    labelLine targets index ++ instructionLine strings targets index offset i
      :: instructionLines strings targets (index + 1) (offset + i.bytes.length) rest

def endLines (targets : List Nat) (position : Nat) : List String :=
  match label? targets (position % UInt32.size) with
  | some label => [label ++ ":", padded 4 '0' (Decimal.text position) ++ " <end>"]
  | none => []

def headLine (u : CodeUnit) : String :=
  "; " ++ Decimal.text u.size ++ " instructions, " ++ Decimal.text u.strings.size ++ " strings, "
    ++ Decimal.text u.slotCount.toNat ++ " slots"

def stringLine (index : Nat) (s : String) : String :=
  "; str[" ++ Decimal.text index ++ "] = " ++ Text.quote s

def lines (u : CodeUnit) : List String :=
  let code := u.code.toList
  let ts := targets code
  headLine u :: (u.strings.toList.zipIdx.map fun (s, k) => stringLine k s)
    ++ instructionLines u.strings ts 0 0 code ++ endLines ts u.size

end WorldScript.Listing

namespace WorldScript.CodeUnit

def listing (u : CodeUnit) : String := String.join ((Listing.lines u).map (· ++ "\n"))

def instructionText (u : CodeUnit) (i : Instruction) : String :=
  Listing.instructionText u.strings (Listing.targets u.code.toList) i

end WorldScript.CodeUnit
