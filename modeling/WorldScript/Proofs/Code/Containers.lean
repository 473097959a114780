import WorldScript.Code.Container
import WorldScript.Proofs.Code.Readers

/-!
The container is a bijective encoding: what is loaded is what was written, and only what could have
been written is loaded.

Main statements: `ofBytes_eq_ok_iff` and `ofBytes_toBytes`.
-/
set_option autoImplicit false

namespace WorldScript

namespace Container

/-! ### Text -/

theorem toList_loop (b : ByteArray) (i : Nat) (acc : List UInt8) :
    ByteArray.toList.loop b i acc = acc.reverse ++ b.data.toList.drop i := by
  fun_induction ByteArray.toList.loop b i acc with
  | case1 i acc h ih =>
    have hi : i < b.data.toList.length := h
    have hget : b.get! i = b.data.toList[i] := by
      simp [ByteArray.get!, h]
    rw [ih, List.drop_eq_getElem_cons hi, hget]
    simp
  | case2 i acc h =>
    have hi : b.data.toList.length ≤ i := Nat.le_of_not_lt h
    rw [List.drop_eq_nil_of_le hi, List.append_nil]

theorem utf8_eq (s : String) : utf8 s = s.toByteArray.data.toList := by
  rw [utf8, String.toUTF8_eq_toByteArray, ByteArray.toList, toList_loop]
  rfl

theorem length_utf8 (s : String) : (utf8 s).length = s.utf8ByteSize := by
  rw [utf8_eq]
  rfl

theorem ofUtf8?_eq_some_iff {raw : List UInt8} {s : String} :
    ofUtf8? raw = some s ↔ raw = utf8 s := by
  rw [utf8_eq]
  unfold ofUtf8? String.fromUTF8?
  constructor
  · intro h
    split at h
    · cases h
      rfl
    · cases h
  · rintro rfl
    rw [dif_pos s.isValidUTF8]
    rfl

/-! ### Parts -/

open Reader

theorem accepts_readStrings (count index : Nat) :
    Accepts (readStrings count index) fun _ strings l => strings.length = count ∧
      (∀ s ∈ strings, s.utf8ByteSize < Nat.pow 256 2) ∧ l = strings.flatMap stringBytes := by
  induction count generalizing index with
  | zero =>
    refine (accepts_pure []).congr ?_
    intro o strings l
    simp only [List.length_eq_zero_iff]
    constructor
    · intro h
      obtain ⟨rfl, rfl⟩ := h
      simp
    · intro h
      obtain ⟨rfl, -, rfl⟩ := h
      simp
  | succ count ih =>
    refine (accepts_bind (accepts_natural 2) fun length => accepts_bind (accepts_bytes length)
      fun raw => (?_ : Accepts _ fun _ strings l => ∃ s more, strings = s :: more ∧ raw = utf8 s ∧
        more.length = count ∧ (∀ s ∈ more, s.utf8ByteSize < Nat.pow 256 2) ∧
          l = more.flatMap stringBytes)).congr ?_
    · cases hs : ofUtf8? raw with
      | none =>
        refine (accepts_throw _).congr ?_
        intro o strings l
        simp only [false_iff, not_exists, not_and]
        rintro s - - rfl
        rw [ofUtf8?_eq_some_iff.2 rfl] at hs
        cases hs
      | some s =>
        refine (accepts_map (fun more => s :: more) (ih (index + 1))).congr ?_
        intro o strings l
        constructor
        · intro h
          obtain ⟨more, ⟨hcount, hmore, rfl⟩, rfl⟩ := h
          exact ⟨s, more, rfl, ofUtf8?_eq_some_iff.1 hs, hcount, hmore, rfl⟩
        · intro h
          obtain ⟨s', more, rfl, hraw, hcount, hmore, rfl⟩ := h
          rw [ofUtf8?_eq_some_iff.2 hraw] at hs
          cases hs
          exact ⟨more, ⟨hcount, hmore, rfl⟩, rfl⟩
    · intro o strings l
      constructor
      · intro h
        obtain ⟨_, _, _, ⟨hlength, rfl⟩, ⟨_, _, _, ⟨rfl, rfl⟩,
          ⟨s, more, rfl, rfl, hcount, hmore, rfl⟩, rfl⟩, rfl⟩ := h
        rw [length_utf8] at hlength
        refine ⟨by simp [hcount], List.forall_mem_cons.2 ⟨hlength, hmore⟩, ?_⟩
        rw [List.flatMap_cons, stringBytes, length_utf8, List.append_assoc]
      · intro h
        obtain ⟨hcount, hall, rfl⟩ := h
        cases strings with
        | nil => simp at hcount
        | cons s more =>
          rw [List.forall_mem_cons] at hall
          refine ⟨s.utf8ByteSize, _, _, ⟨hall.1, rfl⟩, ⟨utf8 s, _, _, ⟨length_utf8 s, rfl⟩,
            ⟨s, more, rfl, rfl, by simpa using hcount, hall.2, rfl⟩, rfl⟩, ?_⟩
          rw [List.flatMap_cons, stringBytes, List.append_assoc]

theorem finishes_readParts :
    Finishes readParts fun _ parts l => parts.2.1.length < Nat.pow 256 4 ∧
      (∀ s ∈ parts.2.1, s.utf8ByteSize < Nat.pow 256 2) ∧ parts.2.2.length < Nat.pow 256 4 ∧
      l = magic ++ littleEndian 2 version ++ littleEndian 2 parts.1.toNat
        ++ littleEndian 4 parts.2.1.length ++ parts.2.1.flatMap stringBytes
        ++ littleEndian 4 parts.2.2.length ++ parts.2.2 := by
  have hend : ∀ parts : UInt16 × List String × List UInt8, Finishes
      (do
        let left ← remaining
        if left ≠ 0 then throw (.trailingBytes left)
        return parts)
      fun _ b l => b = parts ∧ l = [] := by
    intro parts c b c'
    have hremaining : remaining.run c = (.ok c.rest.length, c) := rfl
    rw [run_bind, hremaining]
    obtain ⟨rest, o⟩ := c
    cases rest with
    | nil =>
      simp [run_pure, eq_comm]
    | cons x rest =>
      simp [run_throw]
  refine (finishes_bind (accepts_bytes 4) fun found => finishes_unless _ _ <|
    finishes_bind (accepts_natural 2) fun v => finishes_unless _ _ <|
    finishes_bind accepts_word16 fun slotCount =>
    finishes_bind (accepts_natural 4) fun stringCount =>
    finishes_bind (accepts_readStrings stringCount 0) fun strings =>
    finishes_bind (accepts_natural 4) fun codeLength =>
    finishes_bind (accepts_bytes codeLength) fun code => hend (slotCount, strings, code)).congr ?_
  -- what is left is to flatten the fields, each with the bytes it takes
  rintro o ⟨slotCount, strings, code⟩ l
  simp only [ne_eq, Classical.not_not, List.append_assoc]
  constructor
  · intro h
    obtain ⟨_, _, _, ⟨-, rfl⟩, ⟨rfl, _, _, _, ⟨-, rfl⟩, ⟨rfl, _, _, _, rfl, ⟨_, _, _, ⟨hcount, rfl⟩,
      ⟨_, _, _, ⟨rfl, hstrings, rfl⟩, ⟨_, _, _, ⟨hcode, rfl⟩, ⟨_, _, _, ⟨rfl, rfl⟩, ⟨hparts, rfl⟩,
      rfl⟩, rfl⟩, rfl⟩, rfl⟩, rfl⟩, rfl⟩, rfl⟩ := h
    cases hparts
    exact ⟨hcount, hstrings, hcode, by simp⟩
  · intro h
    obtain ⟨hcount, hstrings, hcode, rfl⟩ := h
    exact ⟨magic, magic, _, ⟨rfl, rfl⟩, ⟨rfl, version, _, _, ⟨by decide, rfl⟩,
      ⟨rfl, slotCount, _, _, rfl, ⟨strings.length, _, _, ⟨hcount, rfl⟩,
      ⟨strings, _, _, ⟨rfl, hstrings, rfl⟩, ⟨code.length, _, _, ⟨hcode, rfl⟩,
      ⟨code, code, [], ⟨rfl, rfl⟩, ⟨rfl, rfl⟩, by simp⟩, rfl⟩, rfl⟩, rfl⟩, rfl⟩, rfl⟩, rfl⟩

theorem answer_readParts {b : List UInt8} {slotCount : UInt16} {strings : List String}
    {code : List UInt8} :
    readParts.answer b = .ok (slotCount, strings, code) ↔
      strings.length < Nat.pow 256 4 ∧ (∀ s ∈ strings, s.utf8ByteSize < Nat.pow 256 2) ∧
        code.length < Nat.pow 256 4 ∧
        b = magic ++ littleEndian 2 version ++ littleEndian 2 slotCount.toNat
          ++ littleEndian 4 strings.length ++ strings.flatMap stringBytes
          ++ littleEndian 4 code.length ++ code := by
  have h := fun c' => finishes_readParts ⟨b, 0⟩ (slotCount, strings, code) c'
  unfold answer
  rcases hrun : readParts.run ⟨b, 0⟩ with ⟨r, c'⟩
  constructor
  · rintro rfl
    exact ((h c').1 hrun).1
  · intro hb
    rw [(h _).2 ⟨hb, rfl⟩] at hrun
    cases hrun
    rfl

end Container

namespace CodeUnit

theorem ofParts_eq_ok_iff {slotCount : UInt16} {strings : Array String}
    {code : Array Instruction} {u : CodeUnit} :
    ofParts slotCount strings code = .ok u ↔
      u.slotCount = slotCount ∧ u.strings = strings ∧ u.code = code := by
  unfold ofParts
  constructor
  · intro h
    split at h
    · cases h
    · cases h
      exact ⟨rfl, rfl, rfl⟩
  · intro h
    obtain ⟨rfl, rfl, rfl⟩ := h
    split
    · rename_i e he
      rw [u.sound] at he
      cases he
    · rfl

theorem unitDefect?_eq_none_iff {code : List Instruction} {strings : List String} :
    unitDefect? code strings = none ↔ (∀ s ∈ strings, s.utf8ByteSize ≤ 65535) ∧
      ∀ i ∈ code, (∀ t, i.operand.target? = some t → t ≤ code.length) ∧
        ∀ k, i.operand.stringIndex? = some k → k < strings.length := by
  have hdefect : ∀ (i : Instruction) n m index, i.defect? n m index = none ↔
      (∀ t, i.operand.target? = some t → t ≤ n) ∧ ∀ k, i.operand.stringIndex? = some k → k < m := by
    intro i n m index
    unfold Instruction.defect?
    cases i.operand <;> simp [Operand.target?, Operand.stringIndex?]
  simp only [unitDefect?, Option.or_eq_none_iff, stringDefect?, List.findSome?_eq_none_iff, hdefect,
    ite_eq_right_iff, reduceCtorEq, imp_false, Nat.not_lt]
  constructor
  · intro h
    refine ⟨fun s hs => ?_, fun i hi => ?_⟩
    · obtain ⟨n, hn, rfl⟩ := List.mem_iff_getElem.1 hs
      exact h.1 (strings[n], n) (List.mk_mem_zipIdx_iff_getElem?.2 (by simp))
    · obtain ⟨n, hn, rfl⟩ := List.mem_iff_getElem.1 hi
      exact h.2 (code[n], n) (List.mk_mem_zipIdx_iff_getElem?.2 (by simp))
  · intro h
    exact ⟨fun e he => h.1 e.1 (List.fst_mem_of_mem_zipIdx he),
      fun e he => h.2 e.1 (List.fst_mem_of_mem_zipIdx he)⟩

theorem strings_fit (u : CodeUnit) : ∀ s ∈ u.strings.toList, s.utf8ByteSize < Nat.pow 256 2 := by
  intro s hs
  have h := (unitDefect?_eq_none_iff.1 u.sound).1 s hs
  have hp : Nat.pow 256 2 = 65536 := rfl
  omega

/-- A container is loaded as the unit that is written as this container. -/
theorem ofBytes_eq_ok_iff {b : List UInt8} {u : CodeUnit} :
    ofBytes b = .ok u ↔ u.Fits ∧ u.strings.size < Nat.pow 256 4 ∧
      u.codeBytes.length < Nat.pow 256 4 ∧
      Instruction.placed 0 u.code.toList = u.code.toList ∧ b = u.toBytes := by
  unfold ofBytes
  constructor
  · intro h
    cases hparts : Container.readParts.answer b with
    | error e => simp [hparts, bind, Except.bind] at h
    | ok parts =>
      obtain ⟨slotCount, strings, code⟩ := parts
      cases his : Instruction.decodeAll code with
      | error e => simp [hparts, his, bind, Except.bind] at h
      | ok is =>
        simp only [hparts, his, bind, Except.bind, ofParts_eq_ok_iff] at h
        obtain ⟨rfl, hstrings, hcode⟩ := h
        obtain ⟨hcount, -, hlength, rfl⟩ := Container.answer_readParts.1 hparts
        obtain ⟨hplaced, hfits, rfl⟩ := Instruction.decodeAll_eq_ok_iff.1 his
        have hstringsList : u.strings.toList = strings := by simp [hstrings]
        have hcodeList : u.code.toList = is := by simp [hcode]
        have hbytes : u.codeBytes = is.flatMap Instruction.bytes := by rw [codeBytes, hcodeList]
        refine ⟨?_, ?_, ?_, ?_, ?_⟩
        · rw [Fits, hcodeList]
          exact hfits
        · rw [← Array.length_toList, hstringsList]
          exact hcount
        · rw [hbytes]
          exact hlength
        · rw [hcodeList]
          exact hplaced
        · rw [toBytes, hbytes, hstringsList, ← Array.length_toList, hstringsList]
  · intro h
    obtain ⟨hfits, hcount, hlength, hplaced, rfl⟩ := h
    have hparts : Container.readParts.answer u.toBytes =
        .ok (u.slotCount, u.strings.toList, u.codeBytes) :=
      Container.answer_readParts.2 ⟨hcount, u.strings_fit, hlength, rfl⟩
    have his : Instruction.decodeAll u.codeBytes = .ok u.code.toList :=
      Instruction.decodeAll_eq_ok_iff.2 ⟨hplaced, hfits, rfl⟩
    simp only [hparts, his, bind, Except.bind]
    exact ofParts_eq_ok_iff.2 ⟨rfl, rfl, rfl⟩

/-! ### Loading what was written -/

theorem map_placed {α : Type} (f : Instruction → α) (hf : ∀ i offset, f { i with offset } = f i)
    (offset : Nat) (is : List Instruction) :
    (Instruction.placed offset is).map f = is.map f := by
  induction is generalizing offset with
  | nil => rfl
  | cons i is ih => simp only [Instruction.placed, List.map_cons, hf, ih]

theorem placed_placed (offset : Nat) (is : List Instruction) :
    Instruction.placed offset (Instruction.placed offset is) = Instruction.placed offset is := by
  induction is generalizing offset with
  | nil => rfl
  | cons i is ih => exact congrArg (List.cons { i with offset }) (ih _)

theorem fits_placed {is : List Instruction} (h : ∀ i ∈ is, i.Fits) (offset : Nat) :
    ∀ i ∈ Instruction.placed offset is, i.Fits := by
  induction is generalizing offset with
  | nil => exact h
  | cons i is ih =>
    rw [List.forall_mem_cons] at h
    exact List.forall_mem_cons.2 ⟨h.1, ih h.2 _⟩

theorem flatMap_placed (offset : Nat) (is : List Instruction) :
    (Instruction.placed offset is).flatMap Instruction.bytes = is.flatMap Instruction.bytes := by
  rw [List.flatMap_def, List.flatMap_def, map_placed Instruction.bytes (fun _ _ => rfl)]

theorem unitDefect?_placed (offset : Nat) (is : List Instruction) (strings : List String) :
    unitDefect? (Instruction.placed offset is) strings = unitDefect? is strings := by
  have hlength : (Instruction.placed offset is).length = is.length := by
    simpa using congrArg List.length (map_placed Instruction.operand (fun _ _ => rfl) offset is)
  have hdefects : ∀ l : List Instruction, ∀ n m,
      (l.zipIdx.findSome? fun e => e.1.defect? n m e.2) =
        (l.map Instruction.operand).zipIdx.findSome? fun e =>
          (⟨.nop, e.1, 0⟩ : Instruction).defect? n m e.2 := by
    intro l n m
    rw [List.zipIdx_map, List.findSome?_map]
    rfl
  have hoperands := map_placed Instruction.operand (fun _ _ => rfl) offset is
  simp only [unitDefect?]
  rw [hlength, hdefects, hdefects, hoperands]

/-- The unit that is loaded from what was written. -/
def placed (u : CodeUnit) : CodeUnit where
  slotCount := u.slotCount
  strings := u.strings
  code := (Instruction.placed 0 u.code.toList).toArray
  sound := by
    rw [unitDefect?_placed]
    exact u.sound

theorem ofBytes_toBytes {u : CodeUnit} (hfits : u.Fits) (hcount : u.strings.size < Nat.pow 256 4)
    (hlength : u.codeBytes.length < Nat.pow 256 4) : ofBytes u.toBytes = .ok u.placed := by
  have hbytes : u.placed.codeBytes = u.codeBytes := flatMap_placed 0 u.code.toList
  refine ofBytes_eq_ok_iff.2
    ⟨fits_placed hfits 0, hcount, hbytes ▸ hlength, placed_placed 0 _, ?_⟩
  rw [toBytes, toBytes, hbytes]
  rfl

theorem pow_256_4 : Nat.pow 256 4 = UInt32.size := rfl

/-- Units are loaded from just the bytes that they are written as, with the same slots, strings,
opcodes and operands. -/
theorem container_is_bijective :
    (∀ b u, ofBytes b = .ok u → u.toBytes = b) ∧
      (∀ u : CodeUnit, u.Fits → u.strings.size < UInt32.size →
        u.codeBytes.length < UInt32.size →
          ∃ u', ofBytes u.toBytes = .ok u' ∧ u'.slotCount = u.slotCount ∧
            u'.strings = u.strings ∧
            u'.code.toList.map (fun i => (i.opcode, i.operand)) =
              u.code.toList.map fun i => (i.opcode, i.operand)) ∧
      ∀ b, (∃ u, ofBytes b = .ok u) ↔ ∃ u : CodeUnit, u.Fits ∧ u.strings.size < UInt32.size ∧
        u.codeBytes.length < UInt32.size ∧ b = u.toBytes := by
  rw [← pow_256_4]
  refine ⟨?_, ?_, ?_⟩
  · intro b u h
    exact (ofBytes_eq_ok_iff.1 h).2.2.2.2.symm
  · intro u hfits hcount hlength
    exact ⟨u.placed, ofBytes_toBytes hfits hcount hlength, rfl, rfl,
      map_placed _ (fun _ _ => rfl) 0 _⟩
  · intro b
    constructor
    · intro h
      obtain ⟨u, h⟩ := h
      obtain ⟨hfits, hcount, hlength, -, hb⟩ := ofBytes_eq_ok_iff.1 h
      exact ⟨u, hfits, hcount, hlength, hb⟩
    · intro h
      obtain ⟨u, hfits, hcount, hlength, rfl⟩ := h
      exact ⟨u.placed, ofBytes_toBytes hfits hcount hlength⟩

def greeting : CodeUnit :=
  ⟨1, #["hello"], #[⟨.pushString, .stringIndex 0, 0⟩, ⟨.print, .none, 0⟩], rfl⟩

theorem container_is_bijective_greeting :
    greeting.Fits ∧ greeting.strings.size < UInt32.size ∧
      greeting.codeBytes.length < UInt32.size ∧
      ∃ u, ofBytes greeting.toBytes = .ok u ∧ u.strings = #["hello"] ∧
        u.code.toList.map (fun i => (i.opcode, i.operand)) =
          [(.pushString, .stringIndex 0), (.print, .none)] ∧ u.toBytes = greeting.toBytes := by
  obtain ⟨hwrite, hload, -⟩ := container_is_bijective
  have hfits : greeting.Fits := by
    unfold Fits
    decide
  have hcount : greeting.strings.size < UInt32.size := by decide
  have hlength : greeting.codeBytes.length < UInt32.size := by decide
  obtain ⟨u, hu, -, hstrings, hcode⟩ := hload greeting hfits hcount hlength
  exact ⟨hfits, hcount, hlength, u, hu, hstrings, hcode, hwrite _ u hu⟩

end CodeUnit

end WorldScript
