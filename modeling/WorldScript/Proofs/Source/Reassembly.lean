import Mathlib.Data.List.Forall2
import WorldScript.Proofs.Source.Numerals
import WorldScript.Proofs.Source.Strings

/-!
Instruction text reassembles. The texts of the instructions of a unit, one on each line, are lines
of the grammar, each with one statement that means the instruction.

Instructions that push strings are shown with the place of the string in the table, which is no
literal, and are left out.

Main statement: `instruction_text_reassembles`.
-/
set_option autoImplicit false

namespace WorldScript

/-- The second operand is the first one, or an equal number, or neither is a number. -/
def Operand.Agrees : Operand → Operand → Prop
  | .number x, .number y => x.isNaN = true ∧ y.isNaN = true ∨ y.equals x = true
  | o, o' => o' = o

def Instruction.Agrees (i j : Instruction) : Prop :=
  j.opcode = i.opcode ∧ i.operand.Agrees j.operand

namespace Source

open Grammar

/-- The texts of instructions, one on each line. A line feed may end the last line too. -/
def sourceOf (code : List Instruction) (ended : Bool) : String :=
  "\n".intercalate (code.map Instruction.text ++ if ended then [""] else [])

/-! ### One instruction -/

theorem exists_digits (n : Nat) : ∃ d : Digits, d.chars = Decimal.digits n ∧ d.value = n := by
  obtain ⟨c, rest, he⟩ := List.exists_cons_of_ne_nil (Decimal.digits_ne_nil n)
  have hdigit : ∀ b ∈ c :: rest, b.isDigit = true := by
    rw [← he]
    exact fun b hb => Decimal.isDigit_of_mem_digits hb
  refine ⟨⟨c, rest, hdigit⟩, he.symm, ?_⟩
  rw [Digits.value, Digits.chars, ← he, Decimal.ofDigits_digits]

theorem exists_argument {o : Operand} (hnone : o ≠ .none) (hstring : ∀ k, o ≠ .stringIndex k) :
    ∃ a : Argument, o.text.toList = ' ' :: a.chars ∧ o.layout ∈ a.layouts ∧
      ∀ p : Program, (∀ t, o.target? = some t → t ≤ p.phrases.length) →
        p.InRange o.layout a ∧ o.Agrees (p.operand o.layout a) := by
  cases o with
  | none => exact absurd rfl hnone
  | stringIndex k => exact absurd rfl (hstring k)
  | codeOffset t =>
    obtain ⟨d, hchars, hvalue⟩ := exists_digits t.toNat
    refine ⟨.target true (.index d), ?_, List.mem_cons_self, fun p hp => ⟨⟨?_, ?_⟩, ?_⟩⟩
    · simp [Operand.text, Argument.chars, Argument.optional, Target.chars, hchars, Decimal.text]
    · exact hvalue ▸ hp _ rfl
    · have hbound : t.toNat < 4294967296 := t.toNat_lt
      have hlast : Program.lastPosition (Operand.codeOffset t).layout = 4294967295 := rfl
      omega
    · have hread : p.operand (Operand.codeOffset t).layout (.target true (.index d)) =
          .codeOffset (UInt32.ofNat d.value) := rfl
      rw [hread, hvalue, UInt32.ofNat_toNat]
      rfl
  | callTarget t =>
    obtain ⟨d, hchars, hvalue⟩ := exists_digits t.toNat
    refine ⟨.target true (.index d), ?_, List.mem_of_mem_tail List.mem_cons_self,
      fun p hp => ⟨⟨?_, ?_⟩, ?_⟩⟩
    · simp [Operand.text, Argument.chars, Argument.optional, Target.chars, hchars, Decimal.text]
    · exact hvalue ▸ hp _ rfl
    · have hbound : t.toNat < 65536 := t.toNat_lt
      have hlast : Program.lastPosition (Operand.callTarget t).layout = 65535 := rfl
      omega
    · have hread : p.operand (Operand.callTarget t).layout (.target true (.index d)) =
          .callTarget (UInt16.ofNat d.value) := rfl
      rw [hread, hvalue, UInt16.ofNat_toNat]
      rfl
  | slot k =>
    obtain ⟨d, hchars, hvalue⟩ := exists_digits k.toNat
    refine ⟨.slot true d, ?_, List.mem_cons_self, fun p _ => ⟨?_, ?_⟩⟩
    · simp [Operand.text, Argument.chars, Argument.optional, hchars, Decimal.text]
    · have hbound : k.toNat < 65536 := k.toNat_lt
      exact Nat.le_of_lt_succ (hvalue ▸ hbound)
    · have hread : p.operand (Operand.slot k).layout (.slot true d) =
          .slot (UInt16.ofNat d.value) := rfl
      rw [hread, hvalue, UInt16.ofNat_toNat]
      rfl
  | number x =>
    obtain ⟨n, hchars, hvalue⟩ := exists_numeral x
    refine ⟨.number n, ?_, List.mem_cons_self, fun p _ => ⟨trivial, hvalue⟩⟩
    simp [Operand.text, Argument.chars, hchars]
  | entity h =>
    obtain ⟨d, hchars, hvalue⟩ := exists_digits h.id.toNat
    refine ⟨.entity d, ?_, List.mem_cons_self, fun p _ => ⟨?_, ?_⟩⟩
    · simp [Operand.text, Handle.text, Argument.chars, hchars, Decimal.text]
    · have hbound : h.id.toNat < 65536 := h.id.toNat_lt
      exact Nat.le_of_lt_succ (hvalue ▸ hbound)
    · have hread : p.operand (Operand.entity h).layout (.entity d) =
          .entity ⟨UInt16.ofNat d.value⟩ := rfl
      rw [hread, hvalue, UInt16.ofNat_toNat]
      rfl

theorem spells_mnemonic (op : Opcode) : Spells op.mnemonic.toList op.mnemonic := by
  cases op <;> decide

theorem eq_pushString {op : Opcode} (h : op.layout = .stringIndex) : op = .pushString := by
  cases op <;> first | rfl | cases h

/-- A statement with the text of an instruction, which means it in every program of a size. -/
structure Grammar.Phrase.Means (size : Nat) (ph : Phrase) (i : Instruction) : Prop where
  chars : ph.chars = i.text.toList
  meaning : ∀ p : Program, p.phrases.length = size →
    (∀ x ∈ ph.argument, p.InRange ph.opcode.layout x.2) ∧ i.Agrees (p.instruction ph)

theorem exists_phrase {i : Instruction} {size : Nat} (hfits : i.Fits)
    (hpush : i.opcode ≠ .pushString) (htarget : ∀ t, i.operand.target? = some t → t ≤ size) :
    ∃ ph : Phrase, ph.Means size i := by
  have hlayout : i.operand.layout = i.opcode.layout := hfits
  by_cases hnone : i.operand = .none
  · have hbare : i.opcode.layout = .none := by rw [← hlayout, hnone]; rfl
    let ph : Phrase := ⟨i.opcode, i.opcode.mnemonic.toList, none, .inl (spells_mnemonic _),
      fun _ => hbare, by simp⟩
    refine ⟨ph, ?_, fun p _ => ⟨by simp [ph], rfl, ?_⟩⟩
    · simp [ph, Phrase.chars, Instruction.text, hnone, Operand.text]
    · rw [hnone]
      rfl
  · have hstring : ∀ k, i.operand ≠ .stringIndex k := by
      intro k hk
      exact hpush (eq_pushString (by rw [← hlayout, hk]; rfl))
    obtain ⟨a, hchars, hmem, hmeaning⟩ := exists_argument hnone hstring
    rw [hlayout] at hmem hmeaning
    let ph : Phrase := ⟨i.opcode, i.opcode.mnemonic.toList, some (Push.oneSpace, a),
      .inl (spells_mnemonic _), by simp, by
        rintro x ⟨⟩
        exact ⟨List.cons_ne_nil _ _, hmem⟩⟩
    refine ⟨ph, ?_, fun p hp => ?_⟩
    · simp [ph, Phrase.chars, Instruction.text, hchars, Push.oneSpace]
    · obtain ⟨hrange, hagrees⟩ := hmeaning p (hp ▸ htarget)
      refine ⟨?_, rfl, hagrees⟩
      rintro x ⟨⟩
      exact hrange

/-! ### Whole units -/

theorem exists_phrases {code : List Instruction} {size : Nat}
    (h : ∀ i ∈ code, ∃ ph : Phrase, ph.Means size i) :
    ∃ phs : List Phrase, List.Forall₂ (Phrase.Means size) phs code := by
  induction code with
  | nil => exact ⟨[], .nil⟩
  | cons i code ih =>
    obtain ⟨⟨ph, hph⟩, hrest⟩ := List.forall_mem_cons.1 h
    obtain ⟨phs, hphs⟩ := ih hrest
    exact ⟨ph :: phs, .cons hph hphs⟩

def bareLine (content : Option Phrase) : Line where
  indent := Push.noGap
  label := none
  between := Push.noGap
  content := content.map .phrase
  trailing := Push.noGap
  comment := none
  apart := nofun
  single := nofun

theorem chars_bareLine (content : Option Phrase) :
    (bareLine content).chars = (content.map Phrase.chars).getD [] := by
  cases content <;> simp [Line.chars, bareLine, Push.noGap, Content.chars]

def bareProgram (phs : List Phrase) (ended : Bool) : Program :=
  (phs.map some ++ if ended then [none] else []).map bareLine

variable (phs : List Phrase) (ended : Bool)

theorem labels_bareProgram : (bareProgram phs ended).labels = [] := by
  rw [bareProgram, Program.labels, List.filterMap_map]
  exact List.filterMap_eq_nil_iff.2 fun _ _ => rfl

theorem slots_bareProgram : (bareProgram phs ended).filterMap Line.slots? = [] := by
  rw [bareProgram, List.filterMap_map]
  refine List.filterMap_eq_nil_iff.2 fun content _ => ?_
  cases content <;> rfl

theorem phrases_bareProgram : (bareProgram phs ended).phrases = phs := by
  have hline : Line.phrase? ∘ bareLine = id := by
    funext content
    cases content <;> rfl
  rw [bareProgram, Program.phrases, List.filterMap_map, hline, List.filterMap_append]
  cases ended <;> simp

theorem source_bareProgram {size : Nat} {phs : List Phrase} {code : List Instruction}
    (h : List.Forall₂ (Phrase.Means size) phs code) :
    (bareProgram phs ended).source = sourceOf code ended := by
  have hchars : phs.map Phrase.chars = code.map fun i => i.text.toList := by
    induction h with
    | nil => rfl
    | cons hph _ ih => rw [List.map_cons, List.map_cons, hph.chars, ih]
  have hline : Line.chars ∘ bareLine = fun content => (content.map Phrase.chars).getD [] :=
    funext chars_bareLine
  apply String.toList_inj.1
  rw [bareProgram, Program.source, sourceOf, String.toList_ofList, String.toList_intercalate,
    List.map_map, hline]
  congr 1
  rw [List.map_append, List.map_append, List.map_map, List.map_map]
  have hphrases : (fun content => (Option.map Phrase.chars content).getD []) ∘ some =
      Phrase.chars := rfl
  have htexts : String.toList ∘ Instruction.text = fun i => i.text.toList := rfl
  rw [hphrases, htexts, hchars]
  cases ended <;> rfl

/-- The texts of instructions that push no strings are assembled as the same opcodes and operands,
where numbers are equal or are none. -/
theorem instruction_text_reassembles (u : CodeUnit) (hfits : u.Fits)
    (hpush : ∀ i ∈ u.code.toList, i.opcode ≠ .pushString) (ended : Bool) :
    ∃ v, assemble (sourceOf u.code.toList ended) = .ok v ∧
      List.Forall₂ Instruction.Agrees u.code.toList v.code.toList := by
  have heach : ∀ i ∈ u.code.toList, ∃ ph : Phrase, ph.Means u.size i := fun i hi =>
    exists_phrase (hfits i hi) (hpush i hi) fun t ht => u.target_le_size hi ht
  obtain ⟨phs, hphs⟩ := exists_phrases heach
  let p := bareProgram phs ended
  have hphrases : p.phrases = phs := phrases_bareProgram phs ended
  have hsize : p.phrases.length = u.size := by
    rw [hphrases, hphs.length_eq]
    exact Array.length_toList
  have hmeans : List.Forall₂ (fun ph i => (∀ x ∈ ph.argument, p.InRange ph.opcode.layout x.2) ∧
      i.Agrees (p.instruction ph)) phs u.code.toList := hphs.imp fun ph i h => h.meaning p hsize
  obtain ⟨hrange, hagrees⟩ := (List.forall₂_and_left _ _).1 hmeans
  have hwell : p.WellFormed := by
    refine ⟨?_, ?_, ?_⟩
    · rw [labels_bareProgram]
      exact List.nodup_nil
    · rw [slots_bareProgram]
      exact nofun
    · rw [hphrases]
      exact hrange
  obtain ⟨v, hv, -, -, hcode⟩ := assemble_source hwell
  refine ⟨v, by rwa [source_bareProgram ended hphs] at hv, ?_⟩
  rw [hcode, Program.code, hphrases]
  exact List.forall₂_map_right_iff.2 hagrees.flip

def operands : CodeUnit where
  slotCount := 4
  strings := #[]
  code := #[⟨.pushNumber, .number ⟨0xbdcccccd⟩, 0⟩, ⟨.pushNumber, .number (.infinity true), 5⟩,
    ⟨.pushNumber, .number .nan, 10⟩, ⟨.pushEntity, .entity ⟨9⟩, 15⟩, ⟨.load, .slot 3, 18⟩,
    ⟨.jump, .codeOffset 7, 21⟩, ⟨.call, .callTarget 0, 26⟩]
  sound := by decide

theorem instruction_text_reassembles_operands :
    operands.Fits ∧ (∀ i ∈ operands.code.toList, i.opcode ≠ .pushString) ∧
      ∃ v, assemble (sourceOf operands.code.toList true) = .ok v ∧
        List.Forall₂ Instruction.Agrees operands.code.toList v.code.toList := by
  have hfits : operands.Fits := by
    unfold CodeUnit.Fits
    decide
  have hpush : ∀ i ∈ operands.code.toList, i.opcode ≠ .pushString := by decide
  exact ⟨hfits, hpush, instruction_text_reassembles operands hfits hpush true⟩

end Source

end WorldScript
