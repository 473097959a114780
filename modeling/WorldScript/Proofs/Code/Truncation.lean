import WorldScript.Proofs.Code.Containers

/-!
Containers are self-delimiting. A reader that finds bytes enough does not look at what follows them,
so that a container that is cut off ends too soon, and what stands after a container is left over.

Main statement: `containers_are_self_delimiting`.
-/
set_option autoImplicit false

namespace WorldScript

namespace Reader

variable {α β : Type}

/-- Reading finds the end of the bytes in the middle of a field. -/
def Underruns (r : Reader α) (c : Cursor) : Prop :=
  ∃ offset needed left c', r.run c = (.error (.underrun offset needed left), c') ∧
    left < needed ∧ offset + left = c.offset + c.rest.length

/-- Unless the bytes end too soon, reading comes to the same whatever follows them. -/
def TakesFront (r : Reader α) : Prop :=
  ∀ p o, r.Underruns ⟨p, o⟩ ∨ ∃ answer q o', o' + q.length = o + p.length ∧
    ∀ s, r.run ⟨p ++ s, o⟩ = (answer, ⟨q ++ s, o'⟩)

theorem takesFront_pure (a : α) : TakesFront (pure a : Reader α) := by
  intro p o
  exact .inr ⟨.ok a, p, o, rfl, fun s => run_pure a _⟩

theorem takesFront_throw (e : DecodeError) : TakesFront (throw e : Reader α) := by
  intro p o
  exact .inr ⟨.error e, p, o, rfl, fun s => run_throw e _⟩

theorem takesFront_bytes (n : Nat) : TakesFront (bytes n) := by
  intro p o
  by_cases hn : p.length < n
  · exact .inl ⟨o, n, p.length, ⟨p, o⟩, by rw [run_bytes, if_pos hn], hn, rfl⟩
  · have hn : n ≤ p.length := Nat.le_of_not_lt hn
    refine .inr ⟨.ok (p.take n), p.drop n, o + n, ?_, fun s => ?_⟩
    · rw [List.length_drop]
      omega
    · have hlong : ¬(p ++ s).length < n := by
        rw [List.length_append]
        omega
      rw [run_bytes, if_neg hlong, List.take_append_of_le_length hn,
        List.drop_append_of_le_length hn]

theorem underruns_bind {r : Reader α} {c : Cursor} (h : r.Underruns c) (f : α → Reader β) :
    (r >>= f).Underruns c := by
  obtain ⟨offset, needed, left, c', hrun, hend⟩ := h
  exact ⟨offset, needed, left, c', by rw [run_bind, hrun], hend⟩

theorem underruns_bind_of_ok {r : Reader α} {f : α → Reader β} {a : α} {p q : List UInt8}
    {o o' : Nat} (hr : ∀ s, r.run ⟨p ++ s, o⟩ = (.ok a, ⟨q ++ s, o'⟩))
    (hend : o' + q.length = o + p.length) (hf : (f a).Underruns ⟨q, o'⟩) :
    (r >>= f).Underruns ⟨p, o⟩ := by
  obtain ⟨offset, needed, left, c', hrun, hleft, hoffset⟩ := hf
  have hp := hr []
  rw [List.append_nil, List.append_nil] at hp
  refine ⟨offset, needed, left, c', ?_, hleft, hoffset.trans hend⟩
  rw [run_bind, hp]
  exact hrun

theorem takesFront_bind {r : Reader α} {f : α → Reader β} (hr : r.TakesFront)
    (hf : ∀ a, (f a).TakesFront) : (r >>= f).TakesFront := by
  intro p o
  obtain hunder | ⟨e | a, q, o', hend, hrun⟩ := hr p o
  · exact .inl (underruns_bind hunder f)
  · exact .inr ⟨.error e, q, o', hend, fun s => by rw [run_bind, hrun]⟩
  · obtain hunder | ⟨answer, q', o'', hend', hrun'⟩ := hf a q o'
    · exact .inl (underruns_bind_of_ok hrun hend hunder)
    · refine .inr ⟨answer, q', o'', hend'.trans hend, fun s => ?_⟩
      rw [run_bind, hrun]
      exact hrun' s

theorem takesFront_natural (width : Nat) : TakesFront (natural width) :=
  takesFront_bind (takesFront_bytes width) fun _ => takesFront_pure _

theorem takesFront_word16 : TakesFront word16 :=
  takesFront_bind (takesFront_natural 2) fun _ => takesFront_pure _

/-- A reader of all there is. Where the bytes do not end too soon, it refuses them whatever follows,
or it has an answer that it gives only if no byte is left. -/
def TakesAll (r : Reader α) : Prop :=
  ∀ p o, r.Underruns ⟨p, o⟩ ∨ (∃ e, ∀ s, (r.run ⟨p ++ s, o⟩).1 = .error e) ∨
    ∃ a q, ∀ s, (r.run ⟨p ++ s, o⟩).1 =
      if q ++ s = [] then .ok a else .error (.trailingBytes (q ++ s).length)

theorem takesAll_bind {r : Reader α} {f : α → Reader β} (hr : r.TakesFront)
    (hf : ∀ a, (f a).TakesAll) : (r >>= f).TakesAll := by
  intro p o
  obtain hunder | ⟨e | a, q, o', hend, hrun⟩ := hr p o
  · exact .inl (underruns_bind hunder f)
  · exact .inr (.inl ⟨e, fun s => by rw [run_bind, hrun]⟩)
  · have hbind : ∀ s, (r >>= f).run ⟨p ++ s, o⟩ = (f a).run ⟨q ++ s, o'⟩ := fun s => by
      rw [run_bind, hrun]
    obtain hunder | ⟨e, he⟩ | ⟨b, q', hb⟩ := hf a q o'
    · exact .inl (underruns_bind_of_ok hrun hend hunder)
    · exact .inr (.inl ⟨e, fun s => by rw [hbind, he]⟩)
    · exact .inr (.inr ⟨b, q', fun s => by rw [hbind, hb]⟩)

theorem takesAll_unless {p : Prop} [Decidable p] {r : Reader β} (e : DecodeError)
    (f : α → Reader β) (hr : r.TakesAll) :
    TakesAll (if p then (throw e : Reader α) >>= f else r) := by
  by_cases hp : p
  · rw [if_pos hp]
    exact fun q o => .inr (.inl ⟨e, fun s => by rw [run_bind, run_throw]⟩)
  · rw [if_neg hp]
    exact hr

theorem takesAll_end (a : α) : TakesAll (do
    let left ← remaining
    if left ≠ 0 then throw (.trailingBytes left)
    return a) := by
  intro p o
  refine .inr (.inr ⟨a, p, fun s => ?_⟩)
  have hremaining : remaining.run ⟨p ++ s, o⟩ = (.ok (p ++ s).length, ⟨p ++ s, o⟩) := rfl
  rw [run_bind, hremaining]
  cases p ++ s with
  | nil => rfl
  | cons b rest => rfl

/-- What such a reader accepts has no beginning that comes to an end elsewhere than in the middle of
a field, and no continuation that it accepts. -/
theorem TakesAll.of_append {r : Reader α} (h : r.TakesAll) {p s : List UInt8} {a : α}
    (hr : r.answer (p ++ s) = .ok a) :
    r.Underruns ⟨p, 0⟩ ∨ s = [] ∧
      ∀ s', s' ≠ [] → r.answer (p ++ s') = .error (.trailingBytes s'.length) := by
  obtain hunder | ⟨e, he⟩ | ⟨b, q, hq⟩ := h p 0
  · exact .inl hunder
  · cases (he s).symm.trans hr
  · have hs := (hq s).symm.trans hr
    by_cases hend : q ++ s = []
    · obtain ⟨rfl, rfl⟩ := List.append_eq_nil_iff.1 hend
      exact .inr ⟨rfl, fun s' hs' => (hq s').trans (if_neg hs')⟩
    · rw [if_neg hend] at hs
      cases hs

end Reader

namespace Container

open Reader

theorem takesFront_readStrings (count index : Nat) : TakesFront (readStrings count index) := by
  induction count generalizing index with
  | zero => exact takesFront_pure []
  | succ count ih =>
    refine takesFront_bind (takesFront_natural 2) fun length =>
      takesFront_bind (takesFront_bytes length) fun raw => ?_
    cases ofUtf8? raw with
    | none => exact takesFront_throw _
    | some s => exact takesFront_bind (ih (index + 1)) fun _ => takesFront_pure _

/-- All fields come to the same whatever follows them, and the check for bytes that are left is the
last one. -/
theorem takesAll_readParts : TakesAll readParts :=
  takesAll_bind (takesFront_bytes 4) fun _ => takesAll_unless _ _ <|
    takesAll_bind (takesFront_natural 2) fun _ => takesAll_unless _ _ <|
    takesAll_bind takesFront_word16 fun _ =>
    takesAll_bind (takesFront_natural 4) fun stringCount =>
    takesAll_bind (takesFront_readStrings stringCount 0) fun _ =>
    takesAll_bind (takesFront_natural 4) fun codeLength =>
    takesAll_bind (takesFront_bytes codeLength) fun _ => takesAll_end _

end Container

namespace CodeUnit

open Container

theorem ofBytes_of_error {b : List UInt8} {e : DecodeError} (h : readParts.answer b = .error e) :
    ofBytes b = .error e := by
  rw [ofBytes, h]
  rfl

theorem readParts_of_ofBytes {b : List UInt8} {u : CodeUnit} (h : ofBytes b = .ok u) :
    ∃ parts, readParts.answer b = .ok parts := by
  cases hparts : readParts.answer b with
  | ok parts => exact ⟨parts, rfl⟩
  | error e =>
    rw [ofBytes_of_error hparts] at h
    cases h

/-- A container with something cut off runs out of bytes in the middle of a field, and one with
something behind it is refused with the number of these bytes. -/
theorem containers_are_self_delimiting :
    ∀ b u, ofBytes b = .ok u →
      (∀ p, p <+: b → p ≠ b → ∃ offset needed left,
        ofBytes p = .error (.underrun offset needed left) ∧ left < needed ∧
          offset + left = p.length) ∧
      ∀ s, s ≠ [] → ofBytes (b ++ s) = .error (.trailingBytes s.length) := by
  intro b u h
  obtain ⟨parts, hparts⟩ := readParts_of_ofBytes h
  constructor
  · rintro p ⟨s, rfl⟩ hp
    obtain ⟨offset, needed, left, c', hrun, hleft, hend⟩ | ⟨rfl, -⟩ :=
      takesAll_readParts.of_append hparts
    · refine ⟨offset, needed, left, ofBytes_of_error ?_, hleft, hend.trans (Nat.zero_add _)⟩
      rw [Reader.answer, hrun]
    · exact absurd (List.append_nil p).symm hp
  · intro s hs
    have hwhole : readParts.answer (b ++ []) = .ok parts := by rw [List.append_nil, hparts]
    obtain ⟨offset, needed, left, c', hrun, -⟩ | ⟨-, hmore⟩ := takesAll_readParts.of_append hwhole
    · rw [Reader.answer, hrun] at hparts
      cases hparts
    · exact ofBytes_of_error (hmore s hs)

theorem containers_are_self_delimiting_greeting :
    ∃ u, ofBytes greeting.toBytes = .ok u ∧
      (greeting.toBytes.take 17 <+: greeting.toBytes ∧
        greeting.toBytes.take 17 ≠ greeting.toBytes ∧
        ∃ offset needed left,
          ofBytes (greeting.toBytes.take 17) = .error (.underrun offset needed left) ∧
            left < needed ∧ offset + left = (greeting.toBytes.take 17).length) ∧
      ofBytes (greeting.toBytes ++ [0, 1]) = .error (.trailingBytes 2) := by
  have hfits : greeting.Fits := by
    unfold Fits
    decide
  have hsize : "hello".utf8ByteSize = 5 := rfl
  have hlength : greeting.toBytes.length = 29 := by
    simp [toBytes, greeting, codeBytes, stringBytes, length_utf8, magic, Instruction.bytes,
      Operand.bytes, hsize]
  obtain ⟨hcut, hmore⟩ :=
    containers_are_self_delimiting _ _ (ofBytes_toBytes hfits (by decide) (by decide))
  -- the cut is in the middle of the only string
  have hp := List.take_prefix 17 greeting.toBytes
  have hne : greeting.toBytes.take 17 ≠ greeting.toBytes := by
    intro he
    have hshort := congrArg List.length he
    rw [List.length_take, hlength] at hshort
    exact absurd hshort (by decide)
  exact ⟨_, ofBytes_toBytes hfits (by decide) (by decide), ⟨hp, hne, hcut _ hp hne⟩,
    hmore [0, 1] (by decide)⟩

end CodeUnit

end WorldScript
