import Mathlib.Data.List.Forall2
import Mathlib.Data.List.Perm.Basic
import WorldScript.Proofs.Waits.Registry

/-!
What becomes of a wait. In any history of calls to the registry a token that was returned is still
pending, or was released, or was ended by one notice, which returned one wakeup for it.

Main statements: `Indexed.history` and `Indexed.ends_history`.
-/
set_option autoImplicit false

namespace WorldScript

/-- What the end of a wait gives its script. -/
def Wait.answer (x : Wait) (result : Option Value) : Option Value :=
  if x.pushesResult then some (result.getD (.number Binary32.zero)) else none

/-- When a notice ends the wait under a token, and by which wakeup. -/
inductive Notice.Ends : Notice → Token → Wait → Wakeup → Prop
  | alarm {t : Token} {x : Wait} : x.kind = .alarm →
      Ends (.alarmFired t) t x (.resume x.script (x.answer none))
  | command {t : Token} {x : Wait} {result : Option Value} : x.kind = .command →
      Ends (.commandFinished t result) t x (.resume x.script (x.answer result))
  | window {t : Token} {x : Wait} {result : Option Value} : x.kind = .window →
      Ends (.windowClosed t result) t x (.resume x.script (x.answer result))
  | disqualified {t : Token} {x : Wait} {reason : String} : x.kind = .command →
      Ends (.commandDisqualified t reason) t x
        (.interrupt x.script (.disqualified reason))
  | destroyed {h : Handle} {t : Token} {x : Wait} : x.watched = some h →
      Ends (.entityDestroyed h) t x (.resume x.script none)

theorem Notice.wakeup?_eq_some_iff {n : Notice} {t : Token} {x : Wait} {k : Wakeup} :
    n.wakeup? t x = some k ↔ n.Ends t x k := by
  constructor
  · intro h
    cases n with
    | worldPaused paused => simp [wakeup?] at h
    | entityDestroyed g =>
      simp only [wakeup?, Option.ite_none_right_eq_some, Option.some.injEq] at h
      obtain ⟨hx, rfl⟩ := h
      exact .destroyed hx
    | alarmFired u | commandFinished u result | windowClosed u result
    | commandDisqualified u reason =>
      simp only [wakeup?, Option.ite_none_right_eq_some, Option.some.injEq] at h
      obtain ⟨rfl, hx, rfl⟩ := h
      constructor
      exact hx
  · intro h
    cases h <;> simp_all [wakeup?, Waits.resumption, Wait.answer, Value.zero]

theorem Notice.wakeup?_eq_none_iff {n : Notice} {t : Token} {x : Wait} :
    n.wakeup? t x = none ↔ ∀ k, ¬n.Ends t x k := by
  simp [Option.eq_none_iff_forall_ne_some, wakeup?_eq_some_iff]

namespace Waits

inductive Call
  | register (site : Site) (kind : WaitKind) (watched : Option Handle) (pushesResult : Bool)
  | deliver (n : Notice)
  | releaseScript (id : ScriptId)
  | releaseAll

inductive Deed
  | registered (t : Token) (x : Wait)
  | refused (reason : Fault)
  /-- The tokens whose waits are no longer pending after a notice, oldest first, and the wakeups
  that were returned. -/
  | delivered (n : Notice) (ended : List Token) (wakeups : List Wakeup)
  | released (l : List (Token × Wait))
deriving DecidableEq

namespace Deed

def issued : Deed → List Token
  | registered t _ => [t]
  | refused _ | delivered _ _ _ | released _ => []

def ended : Deed → List Token
  | delivered _ tokens _ => tokens
  | registered _ _ | refused _ | released _ => []

def dropped : Deed → List Token
  | released l => l.map Prod.fst
  | registered _ _ | refused _ | delivered _ _ _ => []

end Deed

def call (ws : Waits) : Call → Deed × Waits
  | .register site kind watched pushesResult =>
    match ws.register site kind watched pushesResult with
    | .ok (t, ws) => (.registered t ⟨site.script, site, kind, watched, pushesResult⟩, ws)
    | .error e => (.refused e, ws)
  | .deliver n =>
    let (wakeups, left) := ws.deliver n
    (.delivered n (ws.pending.keys.filter fun t => !left.pending.contains t) wakeups, left)
  | .releaseScript id =>
    match ws.releaseScript? id with
    | some (e, ws) => (.released [e], ws)
    | none => (.released [], ws)
  | .releaseAll =>
    let (l, ws) := ws.releaseAll
    (.released l, ws)

def history : List Call → Waits → List Deed × Waits
  | [], ws => ([], ws)
  | c :: rest, ws =>
    let (d, ws) := ws.call c
    let (more, ws) := history rest ws
    (d :: more, ws)

/-! ### One call -/

/-- What one call does to an indexed registry. -/
structure Sound (ws : Waits) (d : Deed) (ws' : Waits) : Prop where
  indexed : Indexed ws'
  tokens : (ws'.pending.keys ++ (d.dropped ++ d.ended)).Perm (ws.pending.keys ++ d.issued)
  issued : d.issued = [] ∧ ws'.lastToken = ws.lastToken ∨
    d.issued = [⟨ws.lastToken + 1⟩] ∧ ws'.lastToken = ws.lastToken + 1
  known : ∀ t x, ws'.pending.get? t = some x →
    ws.pending.get? t = some x ∨ d = .registered t x
  ends : ∀ n ended wakeups, d = .delivered n ended wakeups →
    List.Forall₂ (fun t k => ∃ x, ws.pending.get? t = some x ∧ n.Ends t x k) ended wakeups

theorem perm_keys_erase {ws : Waits} {t : Token} {x : Wait} (hx : ws.pending.get? t = some x) :
    ((ws.without t x).pending.keys ++ [t]).Perm ws.pending.keys := by
  have ht : t ∈ ws.pending.keys := OrderedMap.mem_keys_iff.2 ⟨x, hx⟩
  have he : (ws.without t x).pending.keys = ws.pending.keys.erase t := by
    rw [(OrderedMap.keys_nodup ws.pending).erase_eq_filter]
    simp only [without, OrderedMap.keys_erase, ne_eq, decide_not]
    rfl
  rw [he]
  exact (List.perm_append_comm).trans (List.perm_cons_erase ht).symm

theorem Indexed.ended_eq {ws : Waits} (h : Indexed ws) (n : Notice) :
    ws.pending.keys.filter (fun t => !(ws.deliver n).2.pending.contains t) =
      (ws.pending.entries.filter fun e => (n.wakeup? e.1 e.2).isSome).map Prod.fst := by
  rw [OrderedMap.keys, List.filter_map]
  congr 1
  apply List.filter_congr
  intro e he
  have hx : ws.pending.get? e.1 = some e.2 := OrderedMap.get?_eq_some_iff.2 he
  simp only [Function.comp_apply, (h.deliver n).2.1, OrderedMap.contains, OrderedMap.get?_filter,
    hx, Option.filter_some]
  cases n.wakeup? e.1 e.2 <;> rfl

theorem forall₂_ended {n : Notice} {l : List (Token × Wait)} {R : Token → Wakeup → Prop}
    (hR : ∀ e ∈ l, ∀ k, n.wakeup? e.1 e.2 = some k → R e.1 k) :
    List.Forall₂ R ((l.filter fun e => (n.wakeup? e.1 e.2).isSome).map Prod.fst)
      (l.filterMap fun e => n.wakeup? e.1 e.2) := by
  induction l with
  | nil => exact .nil
  | cons e l ih =>
    have hrest := ih fun e he => hR e (List.mem_cons_of_mem _ he)
    cases hk : n.wakeup? e.1 e.2 with
    | none => simpa [hk] using hrest
    | some k =>
      simp only [List.filter_cons, List.filterMap_cons, hk, Option.isSome_some, if_true,
        List.map_cons]
      exact .cons (hR e List.mem_cons_self k hk) hrest

theorem Indexed.sound_register {ws : Waits} (h : Indexed ws) (site : Site) (kind : WaitKind)
    (watched : Option Handle) (pushesResult : Bool) :
    Sound ws (ws.call (.register site kind watched pushesResult)).1
      (ws.call (.register site kind watched pushesResult)).2 := by
  cases hr : ws.register site kind watched pushesResult with
  | error e =>
    simp only [call, hr]
    exact ⟨h, by simp [Deed.dropped, Deed.ended, Deed.issued], .inl ⟨rfl, rfl⟩,
      fun _ _ hx => .inl hx, by simp⟩
  | ok r =>
    obtain ⟨t, ws'⟩ := r
    obtain ⟨ht, hlast, hfresh, hpending, hindexed⟩ := h.register hr
    simp only [call, hr]
    refine ⟨hindexed, ?_, .inr ⟨?_, hlast⟩, ?_, by simp⟩
    · simp [Deed.dropped, Deed.ended, Deed.issued, hpending, OrderedMap.keys_insert, hfresh]
    · simp [Deed.issued, ← ht]
    · intro u x hu
      rw [hpending, OrderedMap.get?_insert] at hu
      by_cases htu : t = u
      · simp only [htu, if_true, Option.some.injEq] at hu
        exact .inr (by rw [htu, hu])
      · simp only [htu, if_false] at hu
        exact .inl hu

theorem Indexed.sound_deliver {ws : Waits} (h : Indexed ws) (n : Notice) :
    Sound ws (ws.call (.deliver n)).1 (ws.call (.deliver n)).2 := by
  obtain ⟨hfst, hpending, hlast, hindexed⟩ := h.deliver n
  refine ⟨hindexed, ?_, .inl ⟨rfl, hlast⟩, ?_, ?_⟩
  · have hp := List.filter_append_perm (fun e => (n.wakeup? e.1 e.2).isNone) ws.pending.entries
    simp only [Option.not_isNone] at hp
    simp only [call, Deed.dropped, Deed.ended, Deed.issued, h.ended_eq n, List.nil_append,
      List.append_nil]
    rw [hpending]
    simpa [OrderedMap.keys, OrderedMap.filter] using hp.map Prod.fst
  · intro t x hx
    exact .inl ((h.get?_deliver n t x).1 hx).1
  · intro n' ended wakeups hd
    simp only [call, Deed.delivered.injEq] at hd
    obtain ⟨rfl, rfl, rfl⟩ := hd
    rw [h.ended_eq n, hfst]
    apply forall₂_ended
    intro e he k hk
    exact ⟨e.2, OrderedMap.get?_eq_some_iff.2 he, Notice.wakeup?_eq_some_iff.1 hk⟩

theorem Indexed.sound_releaseScript {ws : Waits} (h : Indexed ws) (id : ScriptId) :
    Sound ws (ws.call (.releaseScript id)).1 (ws.call (.releaseScript id)).2 := by
  cases hr : ws.releaseScript? id with
  | none =>
    simp only [call, hr]
    exact ⟨h, by simp [Deed.dropped, Deed.ended, Deed.issued], .inl ⟨rfl, rfl⟩,
      fun _ _ hx => .inl hx, by simp⟩
  | some r =>
    obtain ⟨⟨t, x⟩, ws'⟩ := r
    obtain ⟨hx, _, rfl⟩ := h.releaseScript?_eq_some hr
    simp only [call, hr]
    refine ⟨h.without hx, ?_, .inl ⟨rfl, rfl⟩, ?_, by simp⟩
    · simpa [Deed.dropped, Deed.ended, Deed.issued] using perm_keys_erase hx
    · intro u y hy
      simp only [without, OrderedMap.get?_erase] at hy
      by_cases htu : t = u
      · simp [htu] at hy
      · simp only [htu, if_false] at hy
        exact .inl hy

theorem Indexed.sound_releaseAll {ws : Waits} (h : Indexed ws) :
    Sound ws (ws.call .releaseAll).1 (ws.call .releaseAll).2 := by
  obtain ⟨hfst, hpending, hlast, hindexed⟩ := h.releaseAll
  refine ⟨hindexed, ?_, .inl ⟨rfl, hlast⟩, ?_, by simp [call]⟩
  · simp only [call, Deed.dropped, Deed.ended, Deed.issued, hfst, hpending,
      OrderedMap.keys_empty, List.nil_append, List.append_nil]
    exact List.Perm.refl _
  · intro t x hx
    simp [call, hpending] at hx

theorem Indexed.call {ws : Waits} (h : Indexed ws) (c : Call) :
    Sound ws (ws.call c).1 (ws.call c).2 := by
  cases c with
  | register site kind watched pushesResult =>
    exact h.sound_register site kind watched pushesResult
  | deliver n => exact h.sound_deliver n
  | releaseScript id => exact h.sound_releaseScript id
  | releaseAll => exact h.sound_releaseAll

/-! ### Histories -/

theorem perm_history {a b c p q r p' q' r' : List Token} (h : (b ++ (p ++ q)).Perm (a ++ r))
    (hrest : (c ++ (p' ++ q')).Perm (b ++ r')) :
    (c ++ ((p ++ p') ++ (q ++ q'))).Perm (a ++ (r ++ r')) := by
  rw [List.perm_iff_count] at h hrest ⊢
  intro t
  have h₁ := h t
  have h₂ := hrest t
  simp only [List.count_append] at h₁ h₂ ⊢
  omega

theorem Indexed.history {ws : Waits} (h : Indexed ws) (calls : List Call) :
    Indexed (Waits.history calls ws).2 ∧
      ((Waits.history calls ws).2.pending.keys ++
        ((Waits.history calls ws).1.flatMap Deed.dropped ++
          (Waits.history calls ws).1.flatMap Deed.ended)).Perm
        (ws.pending.keys ++ (Waits.history calls ws).1.flatMap Deed.issued) := by
  induction calls generalizing ws with
  | nil => exact ⟨h, by simp [Waits.history]⟩
  | cons c calls ih =>
    have hc := h.call c
    obtain ⟨hindexed, hperm⟩ := ih hc.indexed
    simp only [Waits.history, List.flatMap_cons]
    exact ⟨hindexed, perm_history hc.tokens hperm⟩

/-- Tokens are issued in ascending order, and after all tokens issued before. -/
theorem Indexed.issued_history {ws : Waits} (h : Indexed ws) (calls : List Call) :
    ((Waits.history calls ws).1.flatMap Deed.issued).Pairwise (fun t u => t.index < u.index) ∧
      ∀ t ∈ (Waits.history calls ws).1.flatMap Deed.issued, ws.lastToken < t.index := by
  induction calls generalizing ws with
  | nil => simp [Waits.history]
  | cons c calls ih =>
    have hc := h.call c
    obtain ⟨hpair, hlater⟩ := ih hc.indexed
    simp only [Waits.history, List.flatMap_cons]
    rcases hc.issued with ⟨hi, hlast⟩ | ⟨hi, hlast⟩
    · rw [hi, List.nil_append]
      rw [hlast] at hlater
      exact ⟨hpair, hlater⟩
    · rw [hi, List.singleton_append, List.pairwise_cons, List.forall_mem_cons]
      rw [hlast] at hlater
      refine ⟨⟨hlater, hpair⟩, Nat.lt_succ_self _, ?_⟩
      intro t ht
      exact Nat.lt_of_succ_lt (hlater t ht)

theorem Indexed.ends_history {ws : Waits} (h : Indexed ws) (calls : List Call) (n : Notice)
    (ended : List Token) (wakeups : List Wakeup)
    (hd : .delivered n ended wakeups ∈ (Waits.history calls ws).1) :
    List.Forall₂ (fun t k => ∃ x, (ws.pending.get? t = some x ∨
      .registered t x ∈ (Waits.history calls ws).1) ∧ n.Ends t x k) ended wakeups := by
  induction calls generalizing ws with
  | nil => simp [Waits.history] at hd
  | cons c calls ih =>
    have hc := h.call c
    simp only [Waits.history, List.mem_cons] at hd ⊢
    rcases hd with hd | hd
    · apply (hc.ends n ended wakeups hd.symm).imp
      intro t k h
      obtain ⟨x, hx, hk⟩ := h
      exact ⟨x, .inl hx, hk⟩
    · apply (ih hc.indexed hd).imp
      intro t k h
      obtain ⟨x, hx | hx, hk⟩ := h
      · rcases hc.known t x hx with hx | hx
        · exact ⟨x, .inl hx, hk⟩
        · exact ⟨x, .inr (.inl hx.symm), hk⟩
      · exact ⟨x, .inr (.inr hx), hk⟩

theorem finish_of_kind_ne {ws : Waits} {t : Token} {kind : WaitKind} (wake : Wait → Wakeup)
    (hk : ∀ x, ws.pending.get? t = some x → x.kind ≠ kind) :
    ws.finish t kind wake = ([], ws) := by
  cases hx : ws.pending.get? t with
  | none => simp only [finish, hx]
  | some x => simp only [finish, hx, hk x hx, if_false]

theorem Indexed.deliver_of_ends_none {ws : Waits} (h : Indexed ws) {n : Notice}
    (hn : ∀ t x, ws.pending.get? t = some x → n.wakeup? t x = none) :
    (ws.deliver n).1 = [] ∧ (ws.deliver n).2.pending = ws.pending ∧
      (ws.deliver n).2.watchers = ws.watchers ∧ (ws.deliver n).2.bySite = ws.bySite ∧
      (ws.deliver n).2.byScript = ws.byScript := by
  cases n with
  | worldPaused paused => exact ⟨rfl, rfl, rfl, rfl, rfl⟩
  | entityDestroyed g =>
    have hw : ws.watching g = [] := by
      rw [List.eq_nil_iff_forall_not_mem]
      intro t ht
      obtain ⟨x, hx, hg⟩ := mem_watching.1 ht
      have := hn t x hx
      simp [Notice.wakeup?, hg] at this
    have hg : ws.watchers.get? g = none := by simp [h.watchers g, hw]
    have he : ws.watchers.erase g = ws.watchers := OrderedMap.erase_eq_self hg
    simp [Waits.deliver, hg, Waits.releaseEach, he]
  | alarmFired u | commandFinished u result | windowClosed u result
  | commandDisqualified u reason =>
    simp only [Waits.deliver]
    rw [finish_of_kind_ne]
    · exact ⟨rfl, rfl, rfl, rfl, rfl⟩
    · intro x hx hk
      have := hn u x hx
      simp [Notice.wakeup?, hk] at this

/-- After any history each token is once among those pending, those released and those ended, and
the wakeups of a notice are those of the waits it ended. -/
theorem each_wait_has_one_fate (calls : List Call) :
    ((history calls {}).1.flatMap Deed.issued).Pairwise (fun t u => t.index < u.index) ∧
      ((history calls {}).2.pending.keys ++ ((history calls {}).1.flatMap Deed.dropped ++
        (history calls {}).1.flatMap Deed.ended)).Perm
        ((history calls {}).1.flatMap Deed.issued) ∧
      (∀ n ended wakeups, .delivered n ended wakeups ∈ (history calls {}).1 →
        List.Forall₂ (fun t k => ∃ x, .registered t x ∈ (history calls {}).1 ∧ n.Ends t x k)
          ended wakeups) ∧
      (∀ n, (∀ t x k, (history calls {}).2.wait? t = some x → ¬n.Ends t x k) →
        ((history calls {}).2.deliver n).1 = [] ∧
          ((history calls {}).2.deliver n).2.pending = (history calls {}).2.pending ∧
          ((history calls {}).2.deliver n).2.watchers = (history calls {}).2.watchers ∧
          ((history calls {}).2.deliver n).2.bySite = (history calls {}).2.bySite ∧
          ((history calls {}).2.deliver n).2.byScript = (history calls {}).2.byScript) ∧
      ∀ n t x, (history calls {}).2.wait? t = some x →
        (((history calls {}).2.deliver n).2.wait? t = some x ↔ ∀ k, ¬n.Ends t x k) := by
  obtain ⟨hindexed, hperm⟩ := indexed_empty.history calls
  refine ⟨(indexed_empty.issued_history calls).1, hperm, ?_, ?_, ?_⟩
  · intro n ended wakeups hd
    apply (indexed_empty.ends_history calls n ended wakeups hd).imp
    intro t k h
    obtain ⟨x, hx | hx, hk⟩ := h
    · simp at hx
    · exact ⟨x, hx, hk⟩
  · intro n hn
    exact hindexed.deliver_of_ends_none fun t x hx =>
      Notice.wakeup?_eq_none_iff.2 fun k => hn t x k hx
  · intro n t x hx
    rw [wait?] at hx ⊢
    rw [hindexed.get?_deliver, Notice.wakeup?_eq_none_iff]
    simp [hx]

def answeredTwice : List Call :=
  [.register ⟨⟨1⟩, 4⟩ .window none true, .register ⟨⟨2⟩, 0⟩ .alarm none false,
    .deliver (.windowClosed ⟨1⟩ none), .deliver (.windowClosed ⟨1⟩ (some Value.zero))]

theorem each_wait_has_one_fate_answeredTwice :
    .delivered (.windowClosed ⟨1⟩ none) [⟨1⟩] [.resume ⟨1⟩ (some Value.zero)] ∈
        (history answeredTwice {}).1 ∧
      (∃ x, .registered ⟨1⟩ x ∈ (history answeredTwice {}).1 ∧
        (Notice.windowClosed ⟨1⟩ none).Ends ⟨1⟩ x (.resume ⟨1⟩ (some Value.zero))) ∧
      (history answeredTwice {}).2.wait? ⟨2⟩ = some ⟨⟨2⟩, ⟨⟨2⟩, 0⟩, .alarm, none, false⟩ ∧
      ((history answeredTwice {}).2.deliver (.windowClosed ⟨1⟩ none)).1 = [] ∧
      ((history answeredTwice {}).2.deliver (.alarmFired ⟨2⟩)).2.wait? ⟨2⟩ ≠
        some ⟨⟨2⟩, ⟨⟨2⟩, 0⟩, .alarm, none, false⟩ := by
  obtain ⟨-, -, hdelivered, hnone, hends⟩ := each_wait_has_one_fate answeredTwice
  have hmem : .delivered (.windowClosed ⟨1⟩ none) [⟨1⟩] [.resume ⟨1⟩ (some Value.zero)] ∈
      (history answeredTwice {}).1 := by decide
  have hwait : (history answeredTwice {}).2.wait? ⟨2⟩ =
      some ⟨⟨2⟩, ⟨⟨2⟩, 0⟩, .alarm, none, false⟩ := by decide
  refine ⟨hmem, ?_, hwait, ?_, ?_⟩
  · exact (List.forall₂_cons.1 (hdelivered _ _ _ hmem)).1
  · refine (hnone (.windowClosed ⟨1⟩ none) ?_).1
    intro t x k hx hk
    have hnot : ((history answeredTwice {}).2.wait? ⟨1⟩).isNone := by decide
    cases hk
    simp [hx] at hnot
  · rw [ne_eq, hends (.alarmFired ⟨2⟩) ⟨2⟩ _ hwait]
    intro hn
    exact hn _ (.alarm rfl)

end Waits

end WorldScript
