import WorldScript.Binary32.Basic
import WorldScript.Code.DecodeError

/-!
Little-endian fields, and reading them one after the other. A reader keeps the bytes that are
left and the offset of the first of them; a field that does not fit is an underrun, and takes
nothing.
-/
set_option autoImplicit false

namespace WorldScript

def littleEndian : Nat → Nat → List UInt8
  | 0, _ => []
  | width + 1, n => UInt8.ofNat n :: littleEndian width (n / 256)

def ofLittleEndian : List UInt8 → Nat
  | [] => 0
  | b :: rest => b.toNat + 256 * ofLittleEndian rest

@[simp] theorem length_littleEndian (width n : Nat) : (littleEndian width n).length = width := by
  induction width generalizing n with
  | zero => rfl
  | succ w ih => simp [littleEndian, ih]

theorem ofLittleEndian_littleEndian (width n : Nat) :
    ofLittleEndian (littleEndian width n) = n % Nat.pow 256 width := by
  induction width generalizing n with
  | zero => simp [littleEndian, ofLittleEndian, Nat.mod_one]
  | succ w ih =>
    have hb : (UInt8.ofNat n).toNat = n % 256 := by rw [UInt8.toNat_ofNat']
    have hp : Nat.pow 256 (w + 1) = 256 * Nat.pow 256 w := Nat.mul_comm _ _
    simp only [littleEndian, ofLittleEndian, ih, hb]
    rw [hp, Nat.mod_mul]

theorem ofLittleEndian_lt (bytes : List UInt8) : ofLittleEndian bytes < Nat.pow 256 bytes.length := by
  induction bytes with
  | nil => simp [ofLittleEndian]
  | cons b bytes ih =>
    have hb : b.toNat < 256 := b.toNat_lt
    have hp : Nat.pow 256 (bytes.length + 1) = 256 * Nat.pow 256 bytes.length := Nat.mul_comm _ _
    simp only [ofLittleEndian, List.length_cons, hp]
    omega

theorem littleEndian_ofLittleEndian (bytes : List UInt8) :
    littleEndian bytes.length (ofLittleEndian bytes) = bytes := by
  induction bytes with
  | nil => rfl
  | cons b bytes ih =>
    have hb : b.toNat < 256 := b.toNat_lt
    have hdiv : (b.toNat + 256 * ofLittleEndian bytes) / 256 = ofLittleEndian bytes := by omega
    have hmod : UInt8.ofNat (b.toNat + 256 * ofLittleEndian bytes) = b := by
      apply UInt8.toNat_inj.1
      rw [UInt8.toNat_ofNat']
      omega
    simp only [ofLittleEndian, List.length_cons, littleEndian, hdiv, hmod, ih]

structure Cursor where
  rest : List UInt8
  offset : Nat

/-- A step of reading: an answer or an error, and where reading goes on. -/
abbrev Reader (α : Type) : Type := ExceptT DecodeError (StateM Cursor) α

namespace Reader

def run {α : Type} (r : Reader α) (c : Cursor) : Except DecodeError α × Cursor :=
  StateT.run (ExceptT.run r) c

def answer {α : Type} (r : Reader α) (bytes : List UInt8) : Except DecodeError α :=
  (run r ⟨bytes, 0⟩).1

def bytes (n : Nat) : Reader (List UInt8) := do
  let c ← get
  let front := c.rest.take n
  if front.length < n then throw (.underrun c.offset n c.rest.length)
  else
    set (Cursor.mk (c.rest.drop n) (c.offset + n))
    return front

def offset : Reader Nat := do
  let c ← get
  return c.offset

def remaining : Reader Nat := do
  let c ← get
  return c.rest.length

def atEnd : Reader Bool := do
  let c ← get
  return c.rest.isEmpty

def natural (width : Nat) : Reader Nat := do
  return ofLittleEndian (← bytes width)

def byte : Reader UInt8 := do
  return UInt8.ofNat (← natural 1)

def word16 : Reader UInt16 := do
  return UInt16.ofNat (← natural 2)

def word32 : Reader UInt32 := do
  return UInt32.ofNat (← natural 4)

def number : Reader Binary32 := do
  return ⟨← word32⟩

end Reader

end WorldScript
