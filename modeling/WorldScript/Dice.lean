/-!
Seeded rolls. A seed is stretched to a key, the key to a stream of 32-bit words by the ChaCha
block function with 12 rounds, and each roll takes words from the stream until one is in the
part of the range that is divided evenly.
-/
set_option autoImplicit false

namespace WorldScript

namespace ChaCha

abbrev Block : Type := Vector UInt32 16

def rotateLeft (x : UInt32) (n : UInt32) : UInt32 := (x <<< n) ||| (x >>> (32 - n))

def quarterRound (s : Block) (a b c d : Fin 16) : Block :=
  let s := s.set a (s[a] + s[b])
  let s := s.set d (rotateLeft (s[d] ^^^ s[a]) 16)
  let s := s.set c (s[c] + s[d])
  let s := s.set b (rotateLeft (s[b] ^^^ s[c]) 12)
  let s := s.set a (s[a] + s[b])
  let s := s.set d (rotateLeft (s[d] ^^^ s[a]) 8)
  let s := s.set c (s[c] + s[d])
  s.set b (rotateLeft (s[b] ^^^ s[c]) 7)

def doubleRound (s : Block) : Block :=
  let s := quarterRound s 0 4 8 12
  let s := quarterRound s 1 5 9 13
  let s := quarterRound s 2 6 10 14
  let s := quarterRound s 3 7 11 15
  let s := quarterRound s 0 5 10 15
  let s := quarterRound s 1 6 11 12
  let s := quarterRound s 2 7 8 13
  quarterRound s 3 4 9 14

def start (key : Vector UInt32 8) (counter : UInt64) : Block :=
  #v[0x61707865, 0x3320646e, 0x79622d32, 0x6b206574,
    key[0], key[1], key[2], key[3], key[4], key[5], key[6], key[7],
    counter.toUInt32, (counter >>> 32).toUInt32, 0, 0]

def block (key : Vector UInt32 8) (counter : UInt64) : Block :=
  let s := start key counter
  (Nat.repeat doubleRound 6 s).zipWith (· + ·) s

def stretchStep (s : UInt64) : UInt64 := s * 6364136223846793005 + 11634580027462260723

def stretchWord (s : UInt64) : UInt32 :=
  let x := (((s >>> 18) ^^^ s) >>> 27).toUInt32
  let r := (s >>> 59).toUInt32
  (x >>> r) ||| (x <<< ((32 - r) % 32))

def keyOfSeed (seed : UInt64) : Vector UInt32 8 :=
  Vector.ofFn fun i => stretchWord (Nat.repeat stretchStep (i.val + 1) seed)

end ChaCha

structure Dice where
  key : Vector UInt32 8
  counter : UInt64
  /-- The words of the current block that have not been taken. -/
  ready : List UInt32
deriving DecidableEq

namespace Dice

def ofSeed (seed : UInt64) : Dice := ⟨ChaCha.keyOfSeed seed, 0, []⟩

def nextWord (d : Dice) : UInt32 × Dice :=
  match d.ready with
  | w :: rest => (w, { d with ready := rest })
  | [] =>
    let b := ChaCha.block d.key d.counter
    (b[0], { d with counter := d.counter + 1, ready := b.toList.drop 1 })

/-- The largest low half of a product that a roll accepts: the products up to it fall evenly on
the results. -/
def zone (bound : Nat) : Nat := bound <<< (31 - bound.log2) - 1

/-- Words tried before one is taken as it comes. More than half of all words are accepted, so
the last of these is never reached in practice. -/
def attempts : Nat := 1000

def rollUpTo (bound : Nat) : Nat → Dice → Nat × Dice
  | 0, d =>
    let (w, d) := d.nextWord
    (w.toNat * bound / UInt32.size, d)
  | tries + 1, d =>
    let (w, d) := d.nextWord
    let product := w.toNat * bound
    if product % UInt32.size ≤ zone bound then (product / UInt32.size, d) else rollUpTo bound tries d

def roll (d : Dice) (bound : Nat) : Nat × Dice := rollUpTo bound attempts d

theorem mul_div_lt {w : UInt32} {bound : Nat} (h : 0 < bound) :
    w.toNat * bound / UInt32.size < bound := by
  have hw : w.toNat < UInt32.size := w.toNat_lt
  rw [Nat.div_lt_iff_lt_mul (by decide), Nat.mul_comm bound]
  exact Nat.mul_lt_mul_of_pos_right hw h

theorem rollUpTo_lt {bound : Nat} (h : 0 < bound) (tries : Nat) (d : Dice) :
    (rollUpTo bound tries d).1 < bound := by
  induction tries generalizing d with
  | zero => exact mul_div_lt h
  | succ n ih =>
    simp only [rollUpTo]
    split
    · exact mul_div_lt h
    · exact ih _

theorem roll_lt (d : Dice) {bound : Nat} (h : 0 < bound) : (d.roll bound).1 < bound :=
  rollUpTo_lt h _ d

end Dice

end WorldScript
