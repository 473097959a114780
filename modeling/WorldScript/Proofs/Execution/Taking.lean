import WorldScript.Execution.Step

/-!
What taking arguments does to the stack. Values are only ever taken off the top: as many as the
instruction asks for if all of them are right, and at most as many if one of them is not.
-/
set_option autoImplicit false

namespace WorldScript

/-- Faults that only a defective code unit can cause. -/
def Fault.isDefect : Fault → Bool
  | positionOutOfRange .. | stringOutOfRange .. | unhandledOpcode _ => true
  | _ => false

/-! ### Checks -/

/-- If there is a fault, it is none of the code. -/
def Blameless {α : Type} (r : Except Fault α) : Prop := ∀ e, r = .error e → e.isDefect = false

section Blameless

variable {α β : Type} {r : Except Fault α}

theorem blameless_ok (a : α) : Blameless (.ok a) := by
  intro e he
  cases he

theorem blameless_error {e : Fault} (h : e.isDefect = false) :
    Blameless (.error e : Except Fault α) := by
  intro e' he
  cases he
  exact h

theorem Blameless.bind {f : α → Except Fault β} (hr : Blameless r) (hf : ∀ a, Blameless (f a)) :
    Blameless (r >>= f) := by
  intro e he
  cases r with
  | error e' => exact hr e (by cases he; rfl)
  | ok a => exact hf a e he

theorem Blameless.map (hr : Blameless r) (f : α → β) : Blameless (r.map f) := by
  intro e he
  cases r with
  | error e' => exact hr e (by cases he; rfl)
  | ok a => cases he

theorem blameless_ite {p : Prop} [Decidable p] {a : α} {e : Fault} (h : e.isDefect = false) :
    Blameless (if p then .ok a else .error e) := by
  split
  · exact blameless_ok a
  · exact blameless_error h

end Blameless

namespace Value

theorem blameless_asNumber (v : Value) : Blameless v.asNumber := by
  cases v <;> first | exact blameless_ok _ | exact blameless_error rfl

theorem blameless_asString (v : Value) : Blameless v.asString := by
  cases v <;> first | exact blameless_ok _ | exact blameless_error rfl

theorem blameless_asEntity (v : Value) : Blameless v.asEntity := by
  cases v <;> first | exact blameless_ok _ | exact blameless_error rfl

theorem blameless_isTrue (v : Value) : Blameless v.isTrue := v.blameless_asNumber.map _

theorem blameless_neg (v : Value) : Blameless v.neg := v.blameless_asNumber.map _

theorem blameless_numberToString (v : Value) : Blameless v.numberToString :=
  v.blameless_asNumber.map _

theorem blameless_stringToNumber (v : Value) : Blameless v.stringToNumber :=
  v.blameless_asString.map _

theorem blameless_arithmetic (f : Binary32 → Binary32 → Binary32) (a b : Value) :
    Blameless (arithmetic f a b) :=
  a.blameless_asNumber.bind fun _ => b.blameless_asNumber.bind fun _ => blameless_ok _

theorem blameless_add (a b : Value) : Blameless (a.add b) := by
  cases a <;> cases b <;> first | exact blameless_ok _ | exact blameless_error rfl

theorem blameless_divided {f : Value → Value → Except Fault Value}
    (hf : ∀ a b, Blameless (f a b)) (a b : Value) : Blameless (divided f a b) := by
  refine b.blameless_asNumber.bind fun n => ?_
  split
  · exact Blameless.bind (α := Unit) (blameless_error rfl) fun _ => hf a b
  · exact hf a b

theorem blameless_not (v : Value) : Blameless v.not :=
  v.blameless_isTrue.bind fun _ => blameless_ok _

theorem blameless_and (a b : Value) : Blameless (a.and b) := by
  refine a.blameless_isTrue.bind fun p => ?_
  cases p with
  | true => exact b.blameless_isTrue.bind fun _ => blameless_ok _
  | false => exact blameless_ok _

theorem blameless_or (a b : Value) : Blameless (a.or b) :=
  a.blameless_isTrue.bind fun _ => b.blameless_isTrue.bind fun _ => blameless_ok _

theorem blameless_equalAs (kind : ValueKind) (a b : Value) : Blameless (equalAs kind a b) := by
  unfold equalAs
  split
  · exact blameless_ite rfl
  · exact blameless_error rfl

theorem blameless_notEqualAs (kind : ValueKind) (a b : Value) :
    Blameless ((equalAs kind a b).map Bool.not) := (blameless_equalAs kind a b).map _

theorem blameless_compare (a b : Value) : Blameless (a.compare b) := by
  unfold compare
  split
  · exact blameless_error rfl
  · exact blameless_ite rfl

theorem blameless_ordered (p : Ordering → Bool) (a b : Value) : Blameless (ordered p a b) :=
  (a.blameless_compare b).bind fun _ => blameless_ok _

theorem blameless_orderedNumbers (p : Ordering → Bool) (a b : Value) :
    Blameless (orderedNumbers p a b) :=
  a.blameless_asNumber.bind fun _ => b.blameless_asNumber.bind fun _ => blameless_ok _

end Value

namespace World

theorem blameless_requireKind (w : World) (h : Handle) (kind : EntityKind) :
    Blameless (w.requireKind h kind) := by
  unfold requireKind
  split
  · exact blameless_error rfl
  · exact blameless_ite rfl

theorem blameless_requireEntity (w : World) (h : Handle) : Blameless (w.requireEntity h) := by
  unfold requireEntity
  split
  · exact blameless_error rfl
  · exact blameless_ok _

theorem blameless_requireMain (w : World) (refusal : Refusal) :
    Blameless (w.requireMain refusal) := blameless_ite rfl

theorem blameless_entity (w : World) (h : Handle) : Blameless (w.entity h) := by
  unfold entity
  split
  · exact blameless_ok _
  · exact blameless_error rfl

end World

theorem Script.blameless_slot (s : Script) (index : Nat) : Blameless (s.slot index) := by
  unfold slot
  split
  · exact blameless_ok _
  · exact blameless_error rfl

theorem Script.blameless_string (s : Script) {index : Nat} (h : index < s.unit.strings.size) :
    Blameless (s.string index) := by
  simp only [string, Array.getElem?_eq_getElem h]
  exact blameless_ok _

namespace Taking

variable {α β : Type}

theorem run_bind (t : Taking α) (f : α → Taking β) (stack : List Value) :
    (t >>= f).run stack =
      match t.run stack with
      | (.ok a, rest) => (f a).run rest
      | (.error e, rest) => (.error e, rest) := by
  unfold run
  rw [ExceptT.run_bind, StateT.run_bind]
  cases StateT.run (ExceptT.run t) stack with
  | mk r rest => cases r <;> rfl

/-! ### Takings of any number of values -/

/-- Values are only taken off the top, and an answer has a property. -/
def Draws (t : Taking α) (P : α → Prop) : Prop :=
  ∀ stack r rest, t.run stack = (r, rest) → (∃ k, rest = stack.drop k) ∧ ∀ a, r = .ok a → P a

theorem draws_pure {a : α} {P : α → Prop} (h : P a) : Draws (pure a) P := by
  intro stack r rest hr
  cases hr
  refine ⟨⟨0, rfl⟩, ?_⟩
  intro b hb
  cases hb
  exact h

theorem draws_throw {e : Fault} {P : α → Prop} : Draws (throw e : Taking α) P := by
  intro stack r rest hr
  cases hr
  exact ⟨⟨0, rfl⟩, by simp⟩

theorem draws_check (r : Except Fault α) : Draws (check r) fun _ => True := by
  cases r with
  | ok a => exact draws_pure trivial
  | error e => exact draws_throw

theorem draws_check_bind {r : Except Fault α} {f : α → Taking β} {Q : β → Prop}
    (hf : ∀ a, r = .ok a → (f a).Draws Q) : (check r >>= f).Draws Q := by
  cases r with
  | ok a => exact hf a rfl
  | error e =>
    intro stack r rest hr
    cases hr
    exact ⟨⟨0, rfl⟩, by simp⟩

theorem Draws.bind {t : Taking α} {f : α → Taking β} {P : α → Prop} {Q : β → Prop}
    (ht : t.Draws P) (hf : ∀ a, (f a).Draws Q) : (t >>= f).Draws Q := by
  intro stack r rest hr
  rw [run_bind] at hr
  cases ht' : t.run stack with
  | mk r' left =>
    obtain ⟨⟨k, rfl⟩, -⟩ := ht stack r' left ht'
    rw [ht'] at hr
    cases r' with
    | ok a =>
      obtain ⟨⟨k', rfl⟩, hQ⟩ := hf a _ r rest hr
      exact ⟨⟨k + k', by rw [List.drop_drop]⟩, hQ⟩
    | error e =>
      cases hr
      exact ⟨⟨k, rfl⟩, by simp⟩

theorem Draws.mono {t : Taking α} {P Q : α → Prop} (ht : t.Draws P) (h : ∀ a, P a → Q a) :
    t.Draws Q :=
  fun stack r rest hr => ⟨(ht stack r rest hr).1, fun a ha => h a ((ht stack r rest hr).2 a ha)⟩

/-! ### Takings of a known number of values -/

/-- An answer has a property, and `n` values were taken off for it. With a fault, which is none of
the code, at most as many were. -/
structure Takes (t : Taking α) (n : Nat) (P : α → Prop) : Prop where
  ok : ∀ {stack a rest}, t.run stack = (.ok a, rest) →
    n ≤ stack.length ∧ rest = stack.drop n ∧ P a
  error : ∀ {stack e rest}, t.run stack = (.error e, rest) →
    e.isDefect = false ∧ ∃ k ≤ n, rest = stack.drop k

section Takes

variable {t : Taking α} {f : α → Taking β} {m n : Nat} {P : α → Prop} {Q : β → Prop}

theorem Takes.draws (ht : t.Takes n P) : t.Draws P := by
  intro stack r rest hr
  cases r with
  | ok a =>
    obtain ⟨-, hrest, hP⟩ := ht.ok hr
    refine ⟨⟨n, hrest⟩, ?_⟩
    intro b hb
    cases hb
    exact hP
  | error e =>
    obtain ⟨-, k, -, hrest⟩ := ht.error hr
    exact ⟨⟨k, hrest⟩, by simp⟩

theorem takes_pure {a : α} (h : P a) : Takes (pure a) 0 P where
  ok hr := by
    cases hr
    exact ⟨Nat.zero_le _, rfl, h⟩
  error hr := by cases hr

theorem takes_throw {e : Fault} (h : e.isDefect = false) : Takes (throw e : Taking α) n P where
  ok hr := by cases hr
  error hr := by
    cases hr
    exact ⟨h, 0, Nat.zero_le _, rfl⟩

theorem Takes.bind (ht : t.Takes m P) (hf : ∀ a, (f a).Takes n Q) :
    (t >>= f).Takes (n + m) Q where
  ok {stack b rest} hr := by
    rw [run_bind] at hr
    split at hr
    · rename_i a left ha
      obtain ⟨hm, rfl, -⟩ := ht.ok ha
      obtain ⟨hn, rfl, hQ⟩ := (hf a).ok hr
      rw [List.length_drop] at hn
      exact ⟨by omega, by rw [List.drop_drop, Nat.add_comm], hQ⟩
    · cases hr
  error {stack e rest} hr := by
    rw [run_bind] at hr
    split at hr
    · rename_i a left ha
      obtain ⟨-, rfl, -⟩ := ht.ok ha
      obtain ⟨he, k, hk, rfl⟩ := (hf a).error hr
      exact ⟨he, m + k, by omega, by rw [List.drop_drop]⟩
    · rename_i left ha
      cases hr
      obtain ⟨he, k, hk, rfl⟩ := ht.error ha
      exact ⟨he, k, by omega, rfl⟩

theorem Takes.one (ht : t.Takes 1 P) (hf : ∀ a, (f a).Takes n Q) : (t >>= f).Takes (n + 1) Q :=
  ht.bind hf

theorem Takes.look (ht : t.Takes 0 P) (hf : ∀ a, (f a).Takes n Q) : (t >>= f).Takes n Q :=
  ht.bind hf

theorem takes_check {r : Except Fault α} (h : Blameless r) : Takes (check r) 0 fun _ => True := by
  cases r with
  | ok a => exact takes_pure trivial
  | error e => exact takes_throw (h e rfl)

end Takes

theorem takes_pop : pop.Takes 1 fun _ => True where
  ok {stack v rest} hr := by
    cases stack with
    | nil => cases hr
    | cons w tail =>
      cases hr
      exact ⟨by simp, rfl, trivial⟩
  error {stack e rest} hr := by
    cases stack with
    | nil =>
      cases hr
      exact ⟨rfl, 0, Nat.zero_le _, rfl⟩
    | cons w tail => cases hr

theorem takes_peek : peek.Takes 0 fun _ => True where
  ok {stack v rest} hr := by
    cases stack with
    | nil => cases hr
    | cons w tail =>
      cases hr
      exact ⟨Nat.zero_le _, rfl, trivial⟩
  error {stack e rest} hr := by
    cases stack with
    | nil =>
      cases hr
      exact ⟨rfl, 0, Nat.zero_le _, rfl⟩
    | cons w tail => cases hr

theorem takes_number : number.Takes 1 fun _ => True :=
  takes_pop.bind fun v => takes_check v.blameless_asNumber

theorem takes_string : string.Takes 1 fun _ => True :=
  takes_pop.bind fun v => takes_check v.blameless_asString

theorem takes_entity : entity.Takes 1 fun _ => True :=
  takes_pop.bind fun v => takes_check v.blameless_asEntity

theorem takes_flag : flag.Takes 1 fun _ => True :=
  takes_pop.bind fun v => takes_check v.blameless_isTrue

theorem takes_index (what : String) (limit : Nat) : (index what limit).Takes 1 fun _ => True := by
  refine takes_number.bind fun n => ?_
  split
  · exact takes_throw rfl
  · exact takes_pure trivial

theorem takes_seconds : seconds.Takes 1 fun _ => True := by
  refine takes_number.bind fun n => ?_
  split
  · exact takes_pure trivial
  · exact takes_throw rfl

end Taking

end WorldScript
