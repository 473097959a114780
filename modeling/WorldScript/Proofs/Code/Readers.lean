import WorldScript.Code.Unit

/-!
What readers accept. A reader that answers has taken the bytes of its answer, and it answers
whenever these bytes come next; so one statement about a reader serves for reading what was
written and for writing what was read.

Main statements: `accepts_bind` and `Instruction.decodeAll_eq_ok_iff`.
-/
set_option autoImplicit false

namespace WorldScript

namespace Reader

variable {α β : Type}

/-- A reader takes just the encodings of its answers. An encoding may depend on its offset. -/
def Accepts (r : Reader α) (enc : Nat → α → List UInt8 → Prop) : Prop :=
  ∀ c a c', r.run c = (.ok a, c') ↔
    ∃ l, enc c.offset a l ∧ c.rest = l ++ c'.rest ∧ c'.offset = c.offset + l.length

theorem run_pure (a : α) (c : Cursor) : run (pure a) c = (.ok a, c) := rfl

theorem run_throw (e : DecodeError) (c : Cursor) :
    run (throw e : Reader α) c = (.error e, c) := rfl

theorem run_bind (r : Reader α) (f : α → Reader β) (c : Cursor) :
    run (r >>= f) c =
      match run r c with
      | (.ok a, c') => run (f a) c'
      | (.error e, c') => (.error e, c') := by
  unfold run
  rw [ExceptT.run_bind, StateT.run_bind]
  cases StateT.run (ExceptT.run r) c with
  | mk a c' => cases a <;> rfl

theorem run_bind_eq_ok {r : Reader α} {f : α → Reader β} {b : β} {c c' : Cursor} :
    run (r >>= f) c = (.ok b, c') ↔
      ∃ a c₁, run r c = (.ok a, c₁) ∧ run (f a) c₁ = (.ok b, c') := by
  rw [run_bind]
  rcases run r c with ⟨e | a, c₁⟩
  · simp
  · constructor
    · intro h
      exact ⟨a, c₁, rfl, h⟩
    · intro h
      obtain ⟨_, _, ha, h⟩ := h
      cases ha
      exact h

theorem run_bind_eq_error {r : Reader α} {f : α → Reader β} {e : DecodeError} {c c' : Cursor} :
    run (r >>= f) c = (.error e, c') ↔
      run r c = (.error e, c') ∨
        ∃ a c₁, run r c = (.ok a, c₁) ∧ run (f a) c₁ = (.error e, c') := by
  rw [run_bind]
  rcases run r c with ⟨e' | a, c₁⟩
  · simp
  · constructor
    · intro h
      exact .inr ⟨a, c₁, rfl, h⟩
    · rintro (h | ⟨_, _, ha, h⟩)
      · cases h
      · cases ha
        exact h

theorem run_bytes (n : Nat) (c : Cursor) :
    run (bytes n) c =
      if c.rest.length < n then (.error (.underrun c.offset n c.rest.length), c)
      else (.ok (c.rest.take n), ⟨c.rest.drop n, c.offset + n⟩) := by
  have hlength : (c.rest.take n).length < n ↔ c.rest.length < n := by
    rw [List.length_take]
    omega
  have h : run (bytes n) c =
      run (if (c.rest.take n).length < n then throw (.underrun c.offset n c.rest.length)
        else do set (Cursor.mk (c.rest.drop n) (c.offset + n)); return c.rest.take n) c := rfl
  rw [h]
  by_cases hn : c.rest.length < n
  · rw [if_pos hn, if_pos (hlength.2 hn)]
    rfl
  · rw [if_neg hn, if_neg (fun ht => hn (hlength.1 ht))]
    rfl

theorem Accepts.congr {r : Reader α} {enc enc' : Nat → α → List UInt8 → Prop}
    (h : r.Accepts enc) (he : ∀ o a l, enc o a l ↔ enc' o a l) : r.Accepts enc' := by
  intro c a c'
  rw [h c a c']
  simp only [he]

theorem accepts_pure (a : α) : Accepts (pure a) fun _ b l => b = a ∧ l = [] := by
  intro c b c'
  rw [run_pure]
  constructor
  · intro h
    cases h
    exact ⟨[], ⟨rfl, rfl⟩, rfl, rfl⟩
  · intro h
    obtain ⟨l, ⟨rfl, rfl⟩, hrest, hoffset⟩ := h
    cases c
    cases c'
    simp_all

theorem accepts_throw (e : DecodeError) : Accepts (throw e : Reader α) fun _ _ _ => False := by
  intro c a c'
  rw [run_throw]
  simp

theorem accepts_bind {r : Reader α} {f : α → Reader β} {enc : Nat → α → List UInt8 → Prop}
    {enc' : α → Nat → β → List UInt8 → Prop} (hr : r.Accepts enc)
    (hf : ∀ a, (f a).Accepts (enc' a)) :
    Accepts (r >>= f) fun o b l => ∃ a l₁ l₂, enc o a l₁ ∧ enc' a (o + l₁.length) b l₂ ∧
      l = l₁ ++ l₂ := by
  intro c b c'
  rw [run_bind_eq_ok]
  constructor
  · intro h
    obtain ⟨a, c₁, ha, hb⟩ := h
    obtain ⟨l₁, h₁, hrest₁, hoffset₁⟩ := (hr c a c₁).1 ha
    obtain ⟨l₂, h₂, hrest₂, hoffset₂⟩ := (hf a c₁ b c').1 hb
    rw [hoffset₁] at h₂ hoffset₂
    refine ⟨l₁ ++ l₂, ⟨a, l₁, l₂, h₁, h₂, rfl⟩, ?_, ?_⟩
    · rw [hrest₁, hrest₂, List.append_assoc]
    · rw [hoffset₂, List.length_append, Nat.add_assoc]
  · intro h
    obtain ⟨l, ⟨a, l₁, l₂, h₁, h₂, rfl⟩, hrest, hoffset⟩ := h
    refine ⟨a, ⟨l₂ ++ c'.rest, c.offset + l₁.length⟩, (hr c a _).2 ⟨l₁, h₁, ?_, rfl⟩,
      (hf a _ b c').2 ⟨l₂, h₂, rfl, ?_⟩⟩
    · rw [hrest, List.append_assoc]
    · rw [hoffset, List.length_append, Nat.add_assoc]

theorem accepts_bytes (n : Nat) : Accepts (bytes n) fun _ a l => a.length = n ∧ l = a := by
  intro c a c'
  rw [run_bytes]
  constructor
  · intro h
    split at h
    · cases h
    · rename_i hn
      cases h
      refine ⟨_, ⟨?_, rfl⟩, (List.take_append_drop n c.rest).symm, ?_⟩
      · rw [List.length_take]
        omega
      · rw [List.length_take]
        dsimp only
        omega
  · intro h
    obtain ⟨l, ⟨rfl, rfl⟩, hrest, hoffset⟩ := h
    cases c
    cases c'
    simp_all

theorem accepts_offset : Accepts offset fun o a l => a = o ∧ l = [] := by
  intro c a c'
  have h : run offset c = (.ok c.offset, c) := rfl
  rw [h]
  constructor
  · intro h
    cases h
    exact ⟨[], ⟨rfl, rfl⟩, rfl, rfl⟩
  · intro h
    obtain ⟨l, ⟨rfl, rfl⟩, hrest, hoffset⟩ := h
    cases c
    cases c'
    simp_all

theorem accepts_map {r : Reader α} {enc : Nat → α → List UInt8 → Prop} (f : α → β)
    (hr : r.Accepts enc) :
    Accepts (do return f (← r)) fun o b l => ∃ a, enc o a l ∧ b = f a := by
  refine (accepts_bind hr fun a => accepts_pure (f a)).congr ?_
  intro o b l
  constructor
  · intro h
    obtain ⟨a, l₁, l₂, h, ⟨rfl, rfl⟩, rfl⟩ := h
    exact ⟨a, by simpa using h, rfl⟩
  · intro h
    obtain ⟨a, h, rfl⟩ := h
    exact ⟨a, l, [], h, ⟨rfl, rfl⟩, by simp⟩

theorem accepts_natural (width : Nat) :
    Accepts (natural width) fun _ n l => n < Nat.pow 256 width ∧ l = littleEndian width n := by
  refine (accepts_map ofLittleEndian (accepts_bytes width)).congr ?_
  intro o n l
  constructor
  · intro h
    obtain ⟨a, ⟨rfl, rfl⟩, rfl⟩ := h
    exact ⟨ofLittleEndian_lt _, (littleEndian_ofLittleEndian _).symm⟩
  · intro h
    obtain ⟨hn, rfl⟩ := h
    refine ⟨_, ⟨length_littleEndian width n, rfl⟩, ?_⟩
    rw [ofLittleEndian_littleEndian, Nat.mod_eq_of_lt hn]

def Finishes (r : Reader α) (enc : Nat → α → List UInt8 → Prop) : Prop :=
  ∀ c a c', r.run c = (.ok a, c') ↔
    enc c.offset a c.rest ∧ c' = ⟨[], c.offset + c.rest.length⟩

theorem Finishes.congr {r : Reader α} {enc enc' : Nat → α → List UInt8 → Prop}
    (h : r.Finishes enc) (he : ∀ o a l, enc o a l ↔ enc' o a l) : r.Finishes enc' := by
  intro c a c'
  rw [h c a c', he]

theorem finishes_bind {r : Reader α} {f : α → Reader β} {enc : Nat → α → List UInt8 → Prop}
    {enc' : α → Nat → β → List UInt8 → Prop} (hr : r.Accepts enc)
    (hf : ∀ a, (f a).Finishes (enc' a)) :
    Finishes (r >>= f) fun o b l => ∃ a l₁ l₂, enc o a l₁ ∧ enc' a (o + l₁.length) b l₂ ∧
      l = l₁ ++ l₂ := by
  intro c b c'
  rw [run_bind_eq_ok]
  constructor
  · intro h
    obtain ⟨a, c₁, ha, hb⟩ := h
    obtain ⟨l₁, h₁, hrest₁, hoffset₁⟩ := (hr c a c₁).1 ha
    obtain ⟨h₂, hc'⟩ := (hf a c₁ b c').1 hb
    rw [hoffset₁] at h₂ hc'
    refine ⟨⟨a, l₁, c₁.rest, h₁, h₂, hrest₁⟩, ?_⟩
    rw [hc', hrest₁, List.length_append, Nat.add_assoc]
  · intro h
    obtain ⟨⟨a, l₁, l₂, h₁, h₂, hrest⟩, rfl⟩ := h
    refine ⟨a, ⟨l₂, c.offset + l₁.length⟩, (hr c a _).2 ⟨l₁, h₁, hrest, rfl⟩,
      (hf a _ b _).2 ⟨h₂, ?_⟩⟩
    rw [hrest, List.length_append, Nat.add_assoc]

theorem finishes_unless {p : Prop} [Decidable p] {r : Reader β}
    {enc : Nat → β → List UInt8 → Prop} (e : DecodeError) (f : α → Reader β)
    (hr : r.Finishes enc) :
    Finishes (if p then (throw e : Reader α) >>= f else r) fun o b l => ¬p ∧ enc o b l := by
  intro c b c'
  by_cases hp : p
  · rw [if_pos hp, run_bind, run_throw]
    simp [hp]
  · rw [if_neg hp, hr c b c']
    simp [hp]

theorem accepts_word {width : Nat} (ofNat : Nat → α) (toNat : α → Nat)
    (hlt : ∀ v, toNat v < Nat.pow 256 width) (hofNat : ∀ v, ofNat (toNat v) = v)
    (htoNat : ∀ n, n < Nat.pow 256 width → toNat (ofNat n) = n) :
    Accepts (do return ofNat (← natural width)) fun _ v l => l = littleEndian width (toNat v) := by
  refine (accepts_map ofNat (accepts_natural width)).congr ?_
  intro o v l
  constructor
  · intro h
    obtain ⟨n, ⟨hn, rfl⟩, rfl⟩ := h
    rw [htoNat n hn]
  · rintro rfl
    exact ⟨toNat v, ⟨hlt v, rfl⟩, (hofNat v).symm⟩

theorem accepts_byte : Accepts byte fun _ b l => l = [b] := by
  have h : Accepts byte fun _ b l => l = littleEndian 1 b.toNat :=
    accepts_word UInt8.ofNat UInt8.toNat (fun b => b.toNat_lt) (fun _ => UInt8.ofNat_toNat)
      fun _ hn => Nat.mod_eq_of_lt hn
  refine h.congr ?_
  intro o b l
  simp [littleEndian]

theorem accepts_word16 : Accepts word16 fun _ v l => l = littleEndian 2 v.toNat :=
  accepts_word UInt16.ofNat UInt16.toNat (fun v => v.toNat_lt) (fun _ => UInt16.ofNat_toNat)
    fun _ hn => Nat.mod_eq_of_lt hn

theorem accepts_word32 : Accepts word32 fun _ v l => l = littleEndian 4 v.toNat :=
  accepts_word UInt32.ofNat UInt32.toNat (fun v => v.toNat_lt) (fun _ => UInt32.ofNat_toNat)
    fun _ hn => Nat.mod_eq_of_lt hn

theorem accepts_number : Accepts number fun _ n l => l = littleEndian 4 n.bits.toNat := by
  refine (accepts_map Binary32.mk accepts_word32).congr ?_
  intro o n l
  constructor
  · intro h
    obtain ⟨v, rfl, rfl⟩ := h
    rfl
  · rintro rfl
    exact ⟨n.bits, rfl, rfl⟩

end Reader

/-! ### Instructions -/

open Reader in
theorem Operand.accepts_read (layout : Layout) :
    Accepts (Operand.read layout) fun _ o l => o.layout = layout ∧ l = o.bytes := by
  cases layout with
  | none =>
    refine (accepts_pure Operand.none).congr ?_
    intro o a l
    cases a <;> simp [Operand.layout, Operand.bytes]
  | codeOffset =>
    refine (accepts_map Operand.codeOffset accepts_word32).congr ?_
    intro o a l
    cases a <;> simp [Operand.layout, Operand.bytes]
  | slot =>
    refine (accepts_map Operand.slot accepts_word16).congr ?_
    intro o a l
    cases a <;> simp [Operand.layout, Operand.bytes]
  | number =>
    refine (accepts_map Operand.number accepts_number).congr ?_
    intro o a l
    cases a <;> simp [Operand.layout, Operand.bytes]
  | stringIndex =>
    refine (accepts_map Operand.stringIndex accepts_word32).congr ?_
    intro o a l
    cases a <;> simp [Operand.layout, Operand.bytes]
  | entity =>
    refine (accepts_map (fun v => Operand.entity ⟨v⟩) accepts_word16).congr ?_
    intro o a l
    cases a with
    | entity h =>
      cases h
      simp [Operand.layout, Operand.bytes]
    | _ => simp [Operand.layout, Operand.bytes]
  | callTarget =>
    refine (accepts_map Operand.callTarget accepts_word16).congr ?_
    intro o a l
    cases a <;> simp [Operand.layout, Operand.bytes]

namespace Instruction

/-- Instructions as they are numbered when their bytes are read one after the other. -/
def placed : Nat → List Instruction → List Instruction
  | _, [] => []
  | offset, i :: rest => { i with offset } :: placed (offset + i.bytes.length) rest

open Reader in
theorem accepts_read :
    Accepts Instruction.read fun o i l => i.offset = o ∧ i.Fits ∧ l = i.bytes := by
  refine (accepts_bind accepts_offset fun offset => accepts_bind accepts_byte fun byte =>
    (?_ : Accepts _ fun _ (i : Instruction) l =>
      i.offset = offset ∧ i.Fits ∧ i.opcode.byte = byte ∧ l = i.operand.bytes)).congr ?_
  · cases hb : Opcode.ofByte? byte with
    | none =>
      refine (accepts_throw _).congr ?_
      intro o i l
      simp only [false_iff, not_and]
      rintro - - rfl
      rw [Opcode.ofByte?_byte] at hb
      cases hb
    | some opcode =>
      refine (accepts_map (fun operand => (⟨opcode, operand, offset⟩ : Instruction))
        (Operand.accepts_read opcode.layout)).congr ?_
      intro o i l
      constructor
      · intro h
        obtain ⟨operand, ⟨hlayout, rfl⟩, rfl⟩ := h
        exact ⟨rfl, hlayout, Opcode.byte_of_ofByte? hb, rfl⟩
      · intro h
        obtain ⟨rfl, hfits, hbyte, rfl⟩ := h
        obtain rfl : i.opcode = opcode :=
          Opcode.byte_injective (hbyte.trans (Opcode.byte_of_ofByte? hb).symm)
        exact ⟨i.operand, ⟨hfits, rfl⟩, rfl⟩
  · intro o i l
    constructor
    · intro h
      obtain ⟨_, _, _, ⟨rfl, rfl⟩, ⟨b, _, _, rfl, ⟨hoffset, hfits, rfl, rfl⟩, rfl⟩, rfl⟩ := h
      exact ⟨hoffset, hfits, rfl⟩
    · intro h
      obtain ⟨rfl, hfits, rfl⟩ := h
      exact ⟨_, [], _, ⟨rfl, rfl⟩, ⟨i.opcode.byte, _, _, rfl, ⟨rfl, hfits, rfl, rfl⟩, rfl⟩, rfl⟩

open Reader in
theorem run_readUpTo_succ (n : Nat) (c : Cursor) :
    run (readUpTo (n + 1)) c =
      if c.rest.isEmpty then (.ok [], c)
      else run (do return (← Instruction.read) :: (← readUpTo n)) c := by
  have h : run (readUpTo (n + 1)) c =
      run (if c.rest.isEmpty then pure [] else do
        return (← Instruction.read) :: (← readUpTo n)) c := rfl
  rw [h]
  split <;> rfl

theorem length_bytes_pos (i : Instruction) : 0 < i.bytes.length := Nat.succ_pos _

open Reader in
theorem front_of_read {c c₁ : Cursor} {i : Instruction}
    (h : run Instruction.read c = (.ok i, c₁)) :
    i.offset = c.offset ∧ i.Fits ∧ c.rest = i.bytes ++ c₁.rest ∧
      c₁.offset = c.offset + i.bytes.length ∧ c₁.rest.length < c.rest.length := by
  obtain ⟨_, ⟨hplace, hfits, rfl⟩, hrest, hoffset⟩ := (accepts_read c i c₁).1 h
  refine ⟨hplace, hfits, hrest, hoffset, ?_⟩
  have hpos := i.length_bytes_pos
  rw [hrest, List.length_append]
  omega

theorem placed_cons_eq {o : Nat} {i : Instruction} {is : List Instruction} :
    placed o (i :: is) = i :: is ↔ i.offset = o ∧ placed (o + i.bytes.length) is = is := by
  cases i
  simp [placed, eq_comm]

theorem placed_nil_bytes {c c' : Cursor} {is : List Instruction} (hc : c.rest = []) :
    ((.ok [], c) : Except DecodeError (List Instruction) × Cursor) = (.ok is, c') ↔
      placed c.offset is = is ∧ (∀ i ∈ is, i.Fits) ∧ c.rest = is.flatMap bytes ∧
        c' = ⟨[], c.offset + c.rest.length⟩ := by
  obtain ⟨_, o⟩ := c
  obtain rfl := hc
  cases is with
  | nil => simp [placed, eq_comm]
  | cons i is => simp [bytes]

open Reader in
/-- As long as there are no fewer rounds than bytes, reading ends with the last byte. -/
theorem run_readUpTo (n : Nat) (c c' : Cursor) (is : List Instruction) (hn : c.rest.length ≤ n) :
    run (readUpTo n) c = (.ok is, c') ↔
      placed c.offset is = is ∧ (∀ i ∈ is, i.Fits) ∧ c.rest = is.flatMap bytes ∧
        c' = ⟨[], c.offset + c.rest.length⟩ := by
  induction n generalizing c is with
  | zero => exact placed_nil_bytes (List.eq_nil_of_length_eq_zero (Nat.le_zero.1 hn))
  | succ n ih =>
    rw [run_readUpTo_succ]
    by_cases hempty : c.rest.isEmpty
    · rw [if_pos hempty]
      exact placed_nil_bytes (List.isEmpty_iff.1 hempty)
    · rw [if_neg hempty]
      simp only [run_bind_eq_ok, run_pure]
      constructor
      · intro h
        obtain ⟨i, c₁, hi, more, c₂, hmore, heq⟩ := h
        cases heq
        -- an instruction takes a byte at least, so the rounds that are left are enough
        obtain ⟨hoffset, hfits, hrest, hoffset₁, hshorter⟩ := front_of_read hi
        obtain ⟨hplaced, hall, hrest₁, hc'⟩ := (ih c₁ more (by omega)).1 hmore
        rw [hoffset₁] at hplaced hc'
        refine ⟨placed_cons_eq.2 ⟨hoffset, hplaced⟩, List.forall_mem_cons.2 ⟨hfits, hall⟩, ?_, ?_⟩
        · rw [hrest, hrest₁, List.flatMap_cons]
        · rw [hc', hrest, List.length_append, Nat.add_assoc]
      · intro h
        obtain ⟨hplaced, hall, hrest, hc'⟩ := h
        cases is with
        | nil => simp [hrest] at hempty
        | cons i more =>
          rw [placed_cons_eq] at hplaced
          rw [List.forall_mem_cons] at hall
          rw [List.flatMap_cons] at hrest
          have hpos := i.length_bytes_pos
          have hlength := congrArg List.length hrest
          rw [List.length_append] at hlength
          have hi := (accepts_read c i ⟨more.flatMap bytes, c.offset + i.bytes.length⟩).2
            ⟨i.bytes, ⟨hplaced.1, hall.1, rfl⟩, hrest, rfl⟩
          refine ⟨i, _, hi, more, c', (ih _ more ?_).2 ⟨hplaced.2, hall.2, rfl, ?_⟩, rfl⟩
          · dsimp only
            omega
          · rw [hc', hlength, Nat.add_assoc]

/-- A stream is decoded to the instructions it is the encoding of. -/
theorem decodeAll_eq_ok_iff {code : List UInt8} {is : List Instruction} :
    decodeAll code = .ok is ↔
      placed 0 is = is ∧ (∀ i ∈ is, i.Fits) ∧ code = is.flatMap bytes := by
  have h := fun c' => run_readUpTo code.length ⟨code, 0⟩ c' is (Nat.le_refl _)
  simp only at h
  unfold decodeAll Reader.answer
  rcases hrun : (readUpTo code.length).run ⟨code, 0⟩ with ⟨r, c'⟩
  constructor
  · rintro rfl
    obtain ⟨hplaced, hfits, hcode, -⟩ := (h c').1 hrun
    exact ⟨hplaced, hfits, hcode⟩
  · intro h
    obtain ⟨hplaced, hfits, hcode⟩ := h
    rw [(h _).2 ⟨hplaced, hfits, hcode, rfl⟩] at hrun
    cases hrun
    rfl

end Instruction

end WorldScript
