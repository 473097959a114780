import WorldScript.Code.Source.Assembly
import WorldScript.Proofs.Code.Containers

/-!
Where code units come from. Whether a unit is read from bytes or assembled from text, its
instructions have operands of the kind their opcodes take.

Main statements: `CodeUnit.fits_of_ofBytes` and `Source.fits_of_assemble`.
-/
set_option autoImplicit false

namespace WorldScript

theorem CodeUnit.fits_of_ofBytes {b : List UInt8} {u : CodeUnit} (h : ofBytes b = .ok u) : u.Fits :=
  (ofBytes_eq_ok_iff.1 h).1

namespace Source

section

variable {ε α β : Type}

theorem bind_eq_ok {r : Except ε α} {f : α → Except ε β} {b : β} (h : r >>= f = .ok b) :
    ∃ a, r = .ok a ∧ f a = .ok b := by
  cases r with
  | error e => cases h
  | ok a => exact ⟨a, rfl, h⟩

end

variable {labels : OrderedMap String Nat} {table : Array String} {u : CodeUnit}

theorem layout_readPlain {line : Nat} {layout : Layout} {text : List Char} {operand : Operand}
    (hlayout : layout ≠ .stringIndex) (h : readPlain labels line layout text = .ok operand) :
    operand.layout = layout := by
  unfold readPlain at h
  cases layout with
  | stringIndex => exact absurd rfl hlayout
  | none =>
    cases h
    rfl
  | codeOffset =>
    obtain ⟨n, -, h⟩ := bind_eq_ok h
    cases h
    rfl
  | callTarget =>
    obtain ⟨n, -, h⟩ := bind_eq_ok h
    split at h
    · cases h
      rfl
    · cases h
  | slot | number =>
    dsimp only at h
    split at h
    · cases h
      rfl
    · cases h
  | entity =>
    dsimp only at h
    split at h
    · split at h
      · cases h
        rfl
      · cases h
    · cases h

theorem fits_instruction {p : Pending} {i : Instruction} {table' : Array String}
    (h : p.instruction labels table = .ok (i, table')) : i.Fits := by
  unfold Pending.instruction at h
  dsimp only at h
  split at h
  case h_1 hlayout _ =>
    cases h
    exact hlayout.symm
  case h_2 => cases h
  case h_3 => cases h
  case h_4 hlayout _ =>
    split at h
    · cases h
      exact hlayout.symm
    · cases h
  case h_5 _ hstring =>
    obtain ⟨operand, hoperand, h⟩ := bind_eq_ok h
    cases h
    exact layout_readPlain hstring hoperand

theorem fits_readOperands (ps : List Pending) {code code' : Array Instruction}
    {table' : Array String} (hcode : ∀ i ∈ code.toList, i.Fits)
    (h : readOperands labels code table ps = .ok (code', table')) :
    ∀ i ∈ code'.toList, i.Fits := by
  induction ps generalizing code table with
  | nil =>
    cases h
    exact hcode
  | cons p ps ih =>
    obtain ⟨⟨i, table₁⟩, hi, h⟩ := bind_eq_ok h
    refine ih ?_ h
    intro j hj
    simp only [Array.toList_push, List.mem_append, List.mem_singleton] at hj
    obtain hj | rfl := hj
    · exact hcode j hj
    · exact fits_instruction hi

theorem fits_of_assemble {source : String} (h : assemble source = .ok u) : u.Fits := by
  obtain ⟨outline, -, h⟩ := bind_eq_ok h
  obtain ⟨⟨code, strings⟩, hcode, h⟩ := bind_eq_ok h
  have hfits := fits_readOperands _ (by simp) hcode
  cases hu : CodeUnit.ofParts outline.slotCount strings code with
  | error e =>
    simp only [hu] at h
    cases h
  | ok v =>
    simp only [hu] at h
    cases h
    unfold CodeUnit.ofParts at hu
    split at hu
    · cases hu
    · cases hu
      exact hfits

end Source

end WorldScript
