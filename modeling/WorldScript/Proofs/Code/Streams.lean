import Mathlib.Algebra.GroupWithZero.Nat
import WorldScript.Code.Listing
import WorldScript.Proofs.Code.Containers

/-!
Streams of instructions. What is decoded is a stream of whole instructions, each at the offset at
which the listing of its unit shows it, and decoding stops at the first bytes that do not begin with
a whole instruction.

Main statement: `decoding_is_exact`.
-/
set_option autoImplicit false

namespace WorldScript

namespace Reader

variable {α β : Type}

/-- A reader of one field finds no fault but that the field does not fit. -/
def IsField (width : Nat) (r : Reader α) : Prop :=
  ∀ c e c', r.run c = (.error e, c') →
    c.rest.length < width ∧ e = .underrun c.offset width c.rest.length

theorem isField_bytes (width : Nat) : IsField width (bytes width) := by
  intro c e c' h
  rw [run_bytes] at h
  split at h
  case isTrue hshort =>
    cases h
    exact ⟨hshort, rfl⟩
  case isFalse => cases h

theorem IsField.map {width : Nat} {r : Reader α} (h : IsField width r) (f : α → β) :
    IsField width (do return f (← r)) := by
  intro c e c' hrun
  obtain hr | ⟨a, c₁, -, hpure⟩ := run_bind_eq_error.1 hrun
  · exact h c e c' hr
  · rw [run_pure] at hpure
    cases hpure

theorem isField_natural (width : Nat) : IsField width (natural width) :=
  (isField_bytes width).map _

end Reader

open Reader in
theorem Operand.isField_read (layout : Layout) : IsField layout.size (Operand.read layout) := by
  cases layout with
  | none =>
    intro c e c' h
    cases h
  | codeOffset | stringIndex => exact ((isField_natural 4).map UInt32.ofNat).map _
  | slot | callTarget => exact ((isField_natural 2).map UInt16.ofNat).map _
  | number => exact (((isField_natural 4).map UInt32.ofNat).map Binary32.mk).map Operand.number
  | entity => exact ((isField_natural 2).map UInt16.ofNat).map fun v => Operand.entity ⟨v⟩

namespace Instruction

variable {i j : Instruction} {is js : List Instruction} {o : Nat} {rest rest' : List UInt8}
  {e : DecodeError}

/-! ### Where decoding stops -/

/-- Bytes at an offset that do not begin with a whole instruction, and what is wrong with them. -/
inductive Stuck (offset : Nat) : List UInt8 → DecodeError → Prop
  | unknown (byte : UInt8) (more : List UInt8) : Opcode.ofByte? byte = none →
      Stuck offset (byte :: more) (.unknownOpcode byte offset)
  | short (op : Opcode) (more : List UInt8) : more.length < op.layout.size →
      Stuck offset (op.byte :: more) (.underrun (offset + 1) op.layout.size more.length)

open Reader in
theorem run_read_cons (byte : UInt8) (more : List UInt8) (o : Nat) :
    run Instruction.read ⟨byte :: more, o⟩ =
      match Opcode.ofByte? byte with
      | none => (.error (.unknownOpcode byte o), ⟨more, o + 1⟩)
      | some opcode =>
        run (do return (⟨opcode, ← Operand.read opcode.layout, o⟩ : Instruction))
          ⟨more, o + 1⟩ := by
  have hoffset : run Reader.offset ⟨byte :: more, o⟩ = (.ok o, ⟨byte :: more, o⟩) := rfl
  have hbyte : run Reader.byte ⟨byte :: more, o⟩ = (.ok byte, ⟨more, o + 1⟩) :=
    (accepts_byte _ _ _).2 ⟨[byte], rfl, rfl, rfl⟩
  rw [Instruction.read, run_bind, hoffset]
  dsimp only
  rw [run_bind, hbyte]
  dsimp only
  cases Opcode.ofByte? byte <;> rfl

open Reader in
theorem stuck_of_run_read {c c' : Cursor} (hc : c.rest ≠ [])
    (h : run Instruction.read c = (.error e, c')) : Stuck c.offset c.rest e := by
  obtain ⟨_ | ⟨byte, more⟩, o⟩ := c
  · exact absurd rfl hc
  · rw [run_read_cons] at h
    cases hop : Opcode.ofByte? byte with
    | none =>
      rw [hop] at h
      cases h
      exact .unknown byte more hop
    | some op =>
      rw [hop] at h
      obtain rfl := Opcode.byte_of_ofByte? hop
      obtain ⟨hshort, rfl⟩ := (Operand.isField_read op.layout).map _ _ _ _ h
      exact .short op more hshort

open Reader in
theorem stuck_of_run_readUpTo (n : Nat) (c c' : Cursor) (hn : c.rest.length ≤ n)
    (h : run (readUpTo n) c = (.error e, c')) :
    ∃ (is : List Instruction) (rest : List UInt8), (∀ i ∈ is, i.Fits) ∧
      c.rest = is.flatMap bytes ++ rest ∧ Stuck (c.offset + (is.flatMap bytes).length) rest e := by
  induction n generalizing c with
  | zero => cases h
  | succ n ih =>
    rw [run_readUpTo_succ] at h
    by_cases hempty : c.rest.isEmpty
    · rw [if_pos hempty] at h
      cases h
    · rw [if_neg hempty] at h
      have hc : c.rest ≠ [] := fun hnil => hempty (List.isEmpty_iff.2 hnil)
      obtain hread | ⟨i, c₁, hread, hmore⟩ := run_bind_eq_error.1 h
      · exact ⟨[], c.rest, by simp, rfl, stuck_of_run_read hc hread⟩
      · obtain hmore | ⟨_, _, -, hpure⟩ := run_bind_eq_error.1 hmore
        · obtain ⟨-, hfits, hrest, hoffset, hshorter⟩ := front_of_read hread
          obtain ⟨is, rest, hall, hrest₁, hstuck⟩ := ih c₁ (by omega) hmore
          refine ⟨i :: is, rest, List.forall_mem_cons.2 ⟨hfits, hall⟩, ?_, ?_⟩
          · rw [hrest, hrest₁, List.flatMap_cons, List.append_assoc]
          · rw [hoffset, Nat.add_assoc, ← List.length_append, ← List.flatMap_cons] at hstuck
            exact hstuck
        · rw [run_pure] at hpure
          cases hpure

theorem stuck_of_decodeAll {code : List UInt8} (h : decodeAll code = .error e) :
    ∃ (is : List Instruction) (rest : List UInt8), (∀ i ∈ is, i.Fits) ∧
      code = is.flatMap bytes ++ rest ∧ Stuck (is.flatMap bytes).length rest e := by
  have hrun := stuck_of_run_readUpTo code.length ⟨code, 0⟩
    (Reader.run (readUpTo code.length) ⟨code, 0⟩).2 (Nat.le_refl _) (Prod.ext h rfl)
  simp only [Nat.zero_add] at hrun
  exact hrun

/-! ### Whole instructions -/

/-- No instruction is the beginning of another one. -/
theorem bytes_append_inj (hi : i.Fits) (hj : j.Fits) (h : i.bytes ++ rest = j.bytes ++ rest') :
    i.bytes = j.bytes ∧ rest = rest' := by
  have hop : i.opcode = j.opcode := Opcode.byte_injective (List.cons.inj h).1
  have hlength : i.bytes.length = j.bytes.length := by
    rw [length_bytes_of_fits hi, length_bytes_of_fits hj, size, size, hop]
  exact List.append_inj h hlength

theorem Stuck.ne_bytes (h : Stuck o rest e) (hi : i.Fits) : rest ≠ i.bytes ++ rest' := by
  cases h with
  | unknown byte more hbyte =>
    intro he
    obtain rfl : byte = i.opcode.byte := (List.cons.inj he).1
    rw [Opcode.ofByte?_byte] at hbyte
    cases hbyte
  | short op more hshort =>
    intro he
    obtain ⟨hbyte, hmore⟩ : op.byte = i.opcode.byte ∧ more = i.operand.bytes ++ rest' :=
      List.cons.inj he
    obtain rfl := Opcode.byte_injective hbyte
    have hlayout : i.operand.layout = i.opcode.layout := hi
    rw [hmore, List.length_append, Operand.length_bytes, hlayout] at hshort
    omega

/-- Where decoding is stuck, no more instructions can be found in the same bytes. -/
theorem Stuck.length_le (h : Stuck o rest e) (his : ∀ i ∈ is, i.Fits) (hjs : ∀ j ∈ js, j.Fits)
    (heq : is.flatMap bytes ++ rest = js.flatMap bytes ++ rest') :
    (js.flatMap bytes).length ≤ (is.flatMap bytes).length := by
  induction is generalizing js with
  | nil =>
    cases js with
    | nil => exact Nat.le_refl _
    | cons j js =>
      rw [List.flatMap_nil, List.nil_append, List.flatMap_cons, List.append_assoc] at heq
      exact absurd heq (h.ne_bytes (hjs j (by simp)))
  | cons i is ih =>
    cases js with
    | nil => exact Nat.zero_le _
    | cons j js =>
      rw [List.forall_mem_cons] at his hjs
      simp only [List.flatMap_cons, List.append_assoc] at heq
      obtain ⟨hbytes, heq⟩ := bytes_append_inj his.1 hjs.1 heq
      simp only [List.flatMap_cons, List.length_append, hbytes]
      exact Nat.add_le_add_left (ih his.2 hjs.2 heq) _

theorem decodeAll_flatMap_bytes (h : ∀ i ∈ is, i.Fits) :
    decodeAll (is.flatMap bytes) = .ok (placed 0 is) :=
  decodeAll_eq_ok_iff.2
    ⟨CodeUnit.placed_placed 0 is, CodeUnit.fits_placed h 0, (CodeUnit.flatMap_placed 0 is).symm⟩

/-! ### Offsets -/

theorem offset_of_placed (hplaced : placed o is = is) (hfits : ∀ i ∈ is, i.Fits) {k : Nat}
    (hk : is[k]? = some i) : i.offset = o + ((is.take k).map size).sum := by
  induction is generalizing o k with
  | nil => simp at hk
  | cons j is ih =>
    rw [placed_cons_eq] at hplaced
    rw [List.forall_mem_cons] at hfits
    cases k with
    | zero =>
      obtain rfl : j = i := by simpa using hk
      exact hplaced.1
    | succ k =>
      rw [ih hplaced.2 hfits.2 (by simpa using hk), length_bytes_of_fits hfits.1,
        List.take_succ_cons, List.map_cons, List.sum_cons, Nat.add_assoc]

end Instruction

/-- The listing counts the bytes that the instructions would be written as, and comes to the offsets
they were read at. -/
theorem Listing.instructionLines_placed (strings : Array String) (ts : List Nat) (k o : Nat)
    {is : List Instruction} (h : Instruction.placed o is = is) :
    instructionLines strings ts k o is = (is.zipIdx k).flatMap fun (i, index) =>
      labelLine ts index ++ [instructionLine strings ts index i.offset i] := by
  induction is generalizing k o with
  | nil => rfl
  | cons i is ih =>
    obtain ⟨rfl, h⟩ := Instruction.placed_cons_eq.1 h
    rw [instructionLines, ih _ _ h, List.zipIdx_cons, List.flatMap_cons, List.append_assoc,
      List.singleton_append]

namespace CodeUnit

theorem code_of_ofBytes {c b : List UInt8} {slotCount : UInt16} {strings : List String}
    {is : List Instruction} {u : CodeUnit}
    (hparts : Container.readParts.answer c = .ok (slotCount, strings, b))
    (his : Instruction.decodeAll b = .ok is) (hu : ofBytes c = .ok u) : u.code.toList = is := by
  simp only [ofBytes, hparts, his, bind, Except.bind, ofParts_eq_ok_iff] at hu
  rw [hu.2.2]

end CodeUnit

namespace Instruction

/-- Decoding takes just the encodings of instructions, finds each at the sum of the sizes before it,
which is the offset that listings show, and else is stuck at what is no instruction. -/
theorem decoding_is_exact :
    (∀ b, (∃ is, decodeAll b = .ok is) ↔
        ∃ is : List Instruction, (∀ i ∈ is, i.Fits) ∧ is.flatMap bytes = b) ∧
      (∀ b is, decodeAll b = .ok is →
        is.flatMap bytes = b ∧ (∀ i ∈ is, i.bytes.length = i.size) ∧
          (∀ k i, is[k]? = some i → i.offset = ((is.take k).map size).sum) ∧
          (∀ c slotCount strings u, Container.readParts.answer c = .ok (slotCount, strings, b) →
            CodeUnit.ofBytes c = .ok u → u.code.toList = is) ∧
          ∀ u : CodeUnit, u.code.toList = is →
            Listing.lines u = Listing.headLine u
                :: (u.strings.toList.zipIdx.map fun (s, k) => Listing.stringLine k s)
                ++ (is.zipIdx.flatMap fun (i, k) => Listing.labelLine (Listing.targets is) k ++
                  [Listing.instructionLine u.strings (Listing.targets is) k i.offset i])
                ++ Listing.endLines (Listing.targets is) u.size ∧
              ∀ k i, is[k]? = some i → Listing.offsetShown
                  (Listing.instructionLine u.strings (Listing.targets is) k i.offset i) =
                Text.paddedHex 6 i.offset) ∧
      ∀ b e, decodeAll b = .error e → ∃ enc rest, b = enc ++ rest ∧
        (∃ is, decodeAll enc = .ok is) ∧
        (∀ enc', enc' <+: b → (∃ is, decodeAll enc' = .ok is) → enc'.length ≤ enc.length) ∧
        Stuck enc.length rest e := by
  refine ⟨fun b => ⟨?_, ?_⟩, ?_, ?_⟩
  · rintro ⟨is, his⟩
    obtain ⟨-, hfits, rfl⟩ := decodeAll_eq_ok_iff.1 his
    exact ⟨is, hfits, rfl⟩
  · rintro ⟨is, hfits, rfl⟩
    exact ⟨placed 0 is, decodeAll_flatMap_bytes hfits⟩
  · intro b is his
    obtain ⟨hplaced, hfits, hbytes⟩ := decodeAll_eq_ok_iff.1 his
    refine ⟨hbytes.symm, fun i hi => length_bytes_of_fits (hfits i hi), ?_, ?_, ?_⟩
    · intro k i hk
      rw [offset_of_placed hplaced hfits hk, Nat.zero_add]
    · exact fun c slotCount strings u hparts => CodeUnit.code_of_ofBytes hparts his
    · rintro u rfl
      refine ⟨?_, fun k i _ => Listing.offsetShown_instructionLine _ _ k i.offset i⟩
      rw [Listing.lines, Listing.instructionLines_placed _ _ _ _ hplaced]
  · intro b e h
    obtain ⟨is, rest, hfits, rfl, hstuck⟩ := stuck_of_decodeAll h
    refine ⟨is.flatMap bytes, rest, rfl, ⟨_, decodeAll_flatMap_bytes hfits⟩, ?_, hstuck⟩
    rintro enc ⟨rest', heq⟩ ⟨js, hjs⟩
    obtain ⟨-, hfits', rfl⟩ := decodeAll_eq_ok_iff.1 hjs
    exact hstuck.length_le hfits hfits' heq.symm

def greetingStream : List UInt8 := [0x39, 0, 0, 0, 0, 0x80]

theorem decoding_is_exact_greeting :
    decodeAll greetingStream = .ok CodeUnit.greeting.placed.code.toList ∧
      Container.readParts.answer CodeUnit.greeting.toBytes = .ok (1, ["hello"], greetingStream) ∧
      5 = ((CodeUnit.greeting.placed.code.toList.take 1).map size).sum ∧
      (∃ u, CodeUnit.ofBytes CodeUnit.greeting.toBytes = .ok u ∧
        u.code.toList = CodeUnit.greeting.placed.code.toList ∧
        Listing.lines u = [Listing.headLine u, Listing.stringLine 0 "hello",
          Listing.instructionLine u.strings [] 0 0 ⟨.pushString, .stringIndex 0, 0⟩,
          Listing.instructionLine u.strings [] 1 5 ⟨.print, .none, 5⟩] ∧
        Listing.offsetShown (Listing.instructionLine u.strings [] 1 5 ⟨.print, .none, 5⟩) =
          ['0', '0', '0', '0', '0', '5']) ∧
      decodeAll (greetingStream ++ [0x20, 1]) = .error (.underrun 7 4 1) ∧
      ∃ enc rest, greetingStream ++ [0x20, 1] = enc ++ rest ∧ (∃ is, decodeAll enc = .ok is) ∧
        (∀ enc', enc' <+: greetingStream ++ [0x20, 1] → (∃ is, decodeAll enc' = .ok is) →
          enc'.length ≤ enc.length) ∧
        Stuck enc.length rest (.underrun 7 4 1) := by
  obtain ⟨-, hstream, hfails⟩ := decoding_is_exact
  have his : decodeAll greetingStream = .ok CodeUnit.greeting.placed.code.toList := rfl
  have hstuck : decodeAll (greetingStream ++ [0x20, 1]) = .error (.underrun 7 4 1) := rfl
  have hfits : CodeUnit.greeting.Fits := by
    unfold CodeUnit.Fits
    decide
  have hparts : Container.readParts.answer CodeUnit.greeting.toBytes =
      .ok (1, ["hello"], greetingStream) :=
    Container.answer_readParts.2
      ⟨by decide, CodeUnit.greeting.strings_fit, by decide, rfl⟩
  have hu := CodeUnit.ofBytes_toBytes hfits (by decide) (by decide)
  obtain ⟨-, -, hoffset, hloaded, hlisting⟩ := hstream _ _ his
  have hcode := hloaded _ _ _ _ hparts hu
  obtain ⟨hlines, hshown⟩ := hlisting _ hcode
  have hfive : Text.paddedHex 6 5 = ['0', '0', '0', '0', '0', '5'] := by
    simp [Text.paddedHex, Text.hexDigits]
  exact ⟨his, hparts, hoffset 1 ⟨.print, .none, 5⟩ rfl,
    ⟨_, hu, hcode, hlines, (hshown 1 ⟨.print, .none, 5⟩ rfl).trans hfive⟩, hstuck,
    hfails _ _ hstuck⟩

end Instruction

end WorldScript
