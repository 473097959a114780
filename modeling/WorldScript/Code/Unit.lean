import WorldScript.Code.Instruction

/-!
Code units: the instructions of a script with their string table and the number of memory
slots. A unit exists only without defects: its strings fit the container's length field, its
jumps and calls stay inside the code or at its end, and its string references are in the table.
-/
set_option autoImplicit false

namespace WorldScript

def stringDefect? (strings : List String) : Option DecodeError :=
  strings.zipIdx.findSome? fun (s, index) =>
    if 65535 < s.utf8ByteSize then some (.stringTooLong index s.utf8ByteSize) else none

def Instruction.defect? (codeSize stringCount index : Nat) (i : Instruction) : Option DecodeError :=
  match i.operand.target? with
  | some target =>
    if codeSize < target then some (.targetOutOfRange index target codeSize) else none
  | none =>
    match i.operand.stringIndex? with
    | some entry =>
      if stringCount ≤ entry then some (.stringOutOfRange index entry stringCount) else none
    | none => none

/-- The first defect: strings before instructions, each in order. -/
def unitDefect? (code : List Instruction) (strings : List String) : Option DecodeError :=
  (stringDefect? strings).or <|
    code.zipIdx.findSome? fun (i, index) => i.defect? code.length strings.length index

structure CodeUnit where
  slotCount : UInt16
  strings : Array String
  code : Array Instruction
  sound : unitDefect? code.toList strings.toList = none

namespace CodeUnit

def ofParts (slotCount : UInt16) (strings : Array String) (code : Array Instruction) :
    Except DecodeError CodeUnit :=
  match h : unitDefect? code.toList strings.toList with
  | some e => .error e
  | none => .ok ⟨slotCount, strings, code, h⟩

def size (u : CodeUnit) : Nat := u.code.size

def Fits (u : CodeUnit) : Prop := ∀ i ∈ u.code.toList, i.Fits

theorem target_le_size (u : CodeUnit) {i : Instruction} (hi : i ∈ u.code.toList) {t : Nat}
    (ht : i.operand.target? = some t) : t ≤ u.size := by
  have h := u.sound
  simp only [unitDefect?, Option.or_eq_none_iff, List.findSome?_eq_none_iff] at h
  obtain ⟨n, hn, rfl⟩ := List.mem_iff_getElem.1 hi
  have := h.2 (u.code.toList[n], n) (List.mk_mem_zipIdx_iff_getElem?.2 (by simp))
  simp only [Instruction.defect?, ht] at this
  split at this
  · cases this
  · simp [size]; simp at *; omega

theorem stringIndex_lt (u : CodeUnit) {i : Instruction} (hi : i ∈ u.code.toList) {k : Nat}
    (hk : i.operand.stringIndex? = some k) : k < u.strings.size := by
  have h := u.sound
  simp only [unitDefect?, Option.or_eq_none_iff, List.findSome?_eq_none_iff] at h
  obtain ⟨n, hn, rfl⟩ := List.mem_iff_getElem.1 hi
  have := h.2 (u.code.toList[n], n) (List.mk_mem_zipIdx_iff_getElem?.2 (by simp))
  have ht : u.code.toList[n].operand.target? = none := by
    cases ho : u.code.toList[n].operand <;> simp_all [Operand.stringIndex?, Operand.target?]
  simp only [Instruction.defect?, ht, hk] at this
  split at this
  · cases this
  · simp at *; omega

end CodeUnit

end WorldScript
