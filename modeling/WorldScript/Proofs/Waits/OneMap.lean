import Mathlib.Data.List.Sort
import WorldScript.Proofs.Waits.Fates

/-!
The registry is one map. Its indexes hold what a search of the pending waits would find, so that it
answers every call and every question as a map that has no index.

Main statements: `Indexed.call_plain` and `registry_is_one_map`.
-/
set_option autoImplicit false

namespace WorldScript

/-! ### A map without indexes -/

/-- Pending waits in the order of their tokens. Everything else is found by searching them. -/
structure WaitMap where
  lastToken : Nat := 0
  pending : OrderedMap Token Wait := OrderedMap.empty

namespace WaitMap

def tokens (ws : WaitMap) (p : Wait → Bool) : List Token := (ws.pending.filter fun _ x => p x).keys

def wait? (ws : WaitMap) (t : Token) : Option Wait := ws.pending.get? t

def pendingFor? (ws : WaitMap) (id : ScriptId) : Option Token :=
  (ws.tokens fun x => decide (x.script = id)).head?

def isBusy (ws : WaitMap) (site : Site) : Bool :=
  !(ws.tokens fun x => decide (x.site = site)).isEmpty

def watcherCount (ws : WaitMap) (h : Handle) : Nat :=
  (ws.tokens fun x => decide (x.watched = some h)).length

def size (ws : WaitMap) : Nat := ws.pending.size

def register (ws : WaitMap) (site : Site) (kind : WaitKind) (watched : Option Handle)
    (pushesResult : Bool) : Waits.Deed × WaitMap :=
  if (ws.pendingFor? site.script).isSome then (.refused (.waitPending site.position), ws)
  else
    let t : Token := ⟨ws.lastToken + 1⟩
    let x : Wait := ⟨site.script, site, kind, watched, pushesResult⟩
    (.registered t x, ⟨ws.lastToken + 1, ws.pending.insert t x⟩)

def deliver (ws : WaitMap) (n : Notice) : Waits.Deed × WaitMap :=
  (.delivered n (ws.pending.filter fun t x => (n.wakeup? t x).isSome).keys
      (ws.pending.entries.filterMap fun e => n.wakeup? e.1 e.2),
    { ws with pending := ws.pending.filter fun t x => (n.wakeup? t x).isNone })

def release (ws : WaitMap) (p : Wait → Bool) : Waits.Deed × WaitMap :=
  (.released (ws.pending.filter fun _ x => p x).entries,
    { ws with pending := ws.pending.filter fun _ x => !p x })

def call (ws : WaitMap) : Waits.Call → Waits.Deed × WaitMap
  | .register site kind watched pushesResult => ws.register site kind watched pushesResult
  | .deliver n => ws.deliver n
  | .releaseScript id => ws.release fun x => decide (x.script = id)
  | .releaseAll => ws.release fun _ => true

def history : List Waits.Call → WaitMap → List Waits.Deed × WaitMap
  | [], ws => ([], ws)
  | c :: rest, ws =>
    let (d, ws) := ws.call c
    let (more, ws) := history rest ws
    (d :: more, ws)

theorem mem_tokens {ws : WaitMap} {p : Wait → Bool} {t : Token} :
    t ∈ ws.tokens p ↔ ∃ x, ws.wait? t = some x ∧ p x = true := by
  simp [tokens, wait?, OrderedMap.mem_keys_filter]

end WaitMap

namespace Waits

def plain (ws : Waits) : WaitMap := ⟨ws.lastToken, ws.pending⟩

section

variable {ws : Waits}

/-! ### Questions -/

/-- An index with at most one token for each key answers what a search does. -/
theorem Finds.get?_eq_head? {κ : Type} [DecidableEq κ] {index : OrderedMap κ Token}
    {f : Wait → κ} (h : Finds index f ws.pending) (k : κ) :
    index.get? k = (ws.plain.tokens fun x => decide (f x = k)).head? := by
  have hmem : ∀ t, t ∈ ws.plain.tokens (fun x => decide (f x = k)) ↔ index.get? k = some t := by
    intro t
    simp only [WaitMap.mem_tokens, decide_eq_true_eq]
    exact (h k t).symm
  cases htokens : ws.plain.tokens fun x => decide (f x = k) with
  | nil =>
    rw [List.head?_nil, Option.eq_none_iff_forall_ne_some]
    intro t ht
    have := (hmem t).2 ht
    simp [htokens] at this
  | cons t rest => exact (hmem t).1 (by simp [htokens])

theorem Indexed.pendingFor?_plain (h : Indexed ws) (id : ScriptId) :
    ws.pendingFor? id = ws.plain.pendingFor? id := h.byScript.get?_eq_head? id

theorem Indexed.isBusy_plain (h : Indexed ws) (site : Site) :
    ws.isBusy site = ws.plain.isBusy site := by
  rw [isBusy, OrderedMap.contains, h.bySite.get?_eq_head? site, WaitMap.isBusy]
  cases ws.plain.tokens fun x => decide (x.site = site) <;> rfl

theorem Indexed.getD_watchers (h : Indexed ws) (g : Handle) :
    (ws.watchers.get? g).getD [] = ws.watching g := by
  rw [h.watchers g]
  split <;> simp_all

theorem Indexed.watcherCount_plain (h : Indexed ws) (g : Handle) :
    ws.watcherCount g = ws.plain.watcherCount g := by
  rw [watcherCount, h.getD_watchers]
  rfl

/-! ### Calls -/

theorem Indexed.register_plain (h : Indexed ws) (site : Site) (kind : WaitKind)
    (watched : Option Handle) (pushesResult : Bool) :
    ws.plain.register site kind watched pushesResult =
      ((ws.call (.register site kind watched pushesResult)).1,
        (ws.call (.register site kind watched pushesResult)).2.plain) := by
  unfold WaitMap.register
  rw [← h.pendingFor?_plain]
  cases hp : ws.pendingFor? site.script with
  | none =>
    obtain ⟨t, ws', hr⟩ := h.register_isOk site hp kind watched pushesResult
    obtain ⟨-, -, rfl, rfl⟩ := register_eq_ok hr
    simp only [Waits.call, hr]
    rfl
  | some t =>
    have hbusy : ws.byScript.contains site.script = true := by
      rw [OrderedMap.contains, show ws.byScript.get? site.script = some t from hp]
      rfl
    simp only [Waits.call, Waits.register, hbusy, Bool.or_true, if_true, Option.isSome_some]

theorem Indexed.deliver_plain (h : Indexed ws) (n : Notice) :
    ws.plain.deliver n = ((ws.call (.deliver n)).1, (ws.call (.deliver n)).2.plain) := by
  obtain ⟨hfst, hpending, hlast, -⟩ := h.deliver n
  simp only [Waits.call, WaitMap.deliver, plain]
  rw [h.ended_eq n, hfst, hpending, hlast]
  rfl

theorem entries_filter_token {t : Token} {x : Wait} (hx : ws.pending.get? t = some x) :
    (ws.pending.filter fun u _ => decide (u = t)).entries = [(t, x)] := by
  have hat := ws.pending.filterMap_entries_at t fun y => some (t, y)
  rw [hx] at hat
  change ws.pending.entries.filter (fun e => decide (e.1 = t)) = [(t, x)]
  rw [← List.filterMap_eq_filter]
  refine Eq.trans ?_ hat
  congr 1
  funext e
  grind

theorem Indexed.releaseScript_plain (h : Indexed ws) (id : ScriptId) :
    ws.plain.release (fun x => decide (x.script = id)) =
      ((ws.call (.releaseScript id)).1, (ws.call (.releaseScript id)).2.plain) := by
  cases hr : ws.releaseScript? id with
  | none =>
    have hnone : ∀ t x, ws.pending.get? t = some x → x.script ≠ id := by
      rintro t x hx rfl
      rw [h.releaseScript?_eq_none_iff, h.byScript.get? hx] at hr
      cases hr
    have hleft : ws.pending.filter (fun _ x => !decide (x.script = id)) = ws.pending :=
      OrderedMap.filter_eq_self fun t x hx => by simp [hnone t x hx]
    have hgone : (ws.pending.filter fun _ x => decide (x.script = id)).entries = [] := by
      rw [OrderedMap.filter, List.filter_eq_nil_iff]
      intro e he
      simpa using hnone e.1 e.2 (OrderedMap.get?_eq_some_iff.2 he)
    simp only [Waits.call, hr, WaitMap.release, plain, hleft, hgone]
  | some r =>
    obtain ⟨⟨t, x⟩, ws'⟩ := r
    obtain ⟨hx, rfl, rfl⟩ := h.releaseScript?_eq_some hr
    have hsame : ∀ u y, ws.pending.get? u = some y → (y.script = x.script ↔ u = t) := by
      intro u y hy
      constructor
      · exact h.byScript.injective hy hx
      · rintro rfl
        rw [Option.some.inj (hx.symm.trans hy)]
    have hgone : ws.pending.filter (fun _ y => decide (y.script = x.script)) =
        ws.pending.filter fun u _ => decide (u = t) :=
      OrderedMap.filter_congr fun u y hy => by simp [hsame u y hy]
    have hleft : ws.pending.filter (fun _ y => !decide (y.script = x.script)) =
        ws.pending.erase t := by
      rw [OrderedMap.erase_eq_filter]
      exact OrderedMap.filter_congr fun u y hy => by simp [hsame u y hy]
    simp only [Waits.call, hr, WaitMap.release, plain, hleft, hgone, entries_filter_token hx]
    rfl

theorem Indexed.releaseAll_plain (h : Indexed ws) :
    ws.plain.release (fun _ => true) =
      ((ws.call .releaseAll).1, (ws.call .releaseAll).2.plain) := by
  obtain ⟨hfst, hpending, hlast, -⟩ := h.releaseAll
  have hall : ws.pending.filter (fun _ _ => true) = ws.pending :=
    OrderedMap.filter_eq_self (by simp)
  have hnone : ws.pending.filter (fun _ _ => !true) = OrderedMap.empty := by
    apply OrderedMap.ext
    exact List.filter_eq_nil_iff.2 (by simp)
  simp only [Waits.call, WaitMap.release, plain, hfst, hpending, hlast, hall, hnone]

/-- Every call does to the registry what it does to the map, and has the same answer. -/
theorem Indexed.call_plain (h : Indexed ws) (c : Call) :
    ws.plain.call c = ((ws.call c).1, (ws.call c).2.plain) := by
  cases c with
  | register site kind watched pushesResult =>
    exact h.register_plain site kind watched pushesResult
  | deliver n => exact h.deliver_plain n
  | releaseScript id => exact h.releaseScript_plain id
  | releaseAll => exact h.releaseAll_plain

theorem Indexed.history_plain (h : Indexed ws) (calls : List Call) :
    WaitMap.history calls ws.plain =
      ((Waits.history calls ws).1, (Waits.history calls ws).2.plain) := by
  induction calls generalizing ws with
  | nil => rfl
  | cons c calls ih =>
    simp only [WaitMap.history, Waits.history, h.call_plain c, ih (h.call c).indexed]

theorem Indexed.register_eq_error_iff (h : Indexed ws) (site : Site) (kind : WaitKind)
    (watched : Option Handle) (pushesResult : Bool) :
    (∃ e, ws.register site kind watched pushesResult = .error e) ↔
      ∃ t x, ws.wait? t = some x ∧ x.script = site.script := by
  constructor
  · rintro ⟨e, he⟩
    cases hp : ws.pendingFor? site.script with
    | none =>
      obtain ⟨t, ws', hr⟩ := h.register_isOk site hp kind watched pushesResult
      rw [hr] at he
      cases he
    | some t => exact ⟨t, (h.byScript site.script t).1 hp⟩
  · rintro ⟨t, x, hx, hid⟩
    cases hr : ws.register site kind watched pushesResult with
    | error e => exact ⟨e, rfl⟩
    | ok r =>
      obtain ⟨-, hnone, -⟩ := register_eq_ok hr
      rw [← hid, h.byScript.get? hx] at hnone
      cases hnone

/-! ### Order -/

theorem watching_eq_filter (ws : Waits) (g : Handle) :
    ws.watching g =
      ws.pending.keys.filter fun t => (ws.wait? t).any fun x => decide (x.watched = some g) := by
  simp only [watching, OrderedMap.keys, OrderedMap.filter, List.filter_map]
  congr 1
  apply List.filter_congr
  intro e he
  have hx : ws.wait? e.1 = some e.2 := OrderedMap.get?_eq_some_iff.2 he
  simp only [Function.comp_apply, hx, Option.any_some]

theorem keys_history (calls : List Call) :
    (history calls {}).2.pending.keys =
      ((history calls {}).1.flatMap Deed.issued).filter
        fun t => ((history calls {}).2.wait? t).isSome := by
  obtain ⟨hindexed, hperm⟩ := indexed_empty.history calls
  have hissued := (indexed_empty.issued_history calls).1
  have : Std.Antisymm fun t u : Token => t.index < u.index := ⟨fun _ _ h h' => by omega⟩
  have : Std.Irrefl fun t u : Token => t.index < u.index := ⟨fun _ => Nat.lt_irrefl _⟩
  refine hindexed.ordered.eq_of_mem_iff (hissued.filter _) ?_
  intro t
  rw [List.mem_filter, wait?, ← OrderedMap.contains, OrderedMap.contains_iff_mem_keys, iff_and_self]
  intro ht
  have := hperm.mem_iff.1 (List.mem_append_left _ ht)
  simpa using this

end

/-- Each index of a registry holds what it is for, and nothing else, where the tokens given were
returned in this order. -/
structure OneMap (returned : List Token) (ws : Waits) : Prop where
  byScript : ∀ id t, (id, t) ∈ ws.byScript.entries ↔ ∃ x, ws.wait? t = some x ∧ x.script = id
  bySite : ∀ site t, (site, t) ∈ ws.bySite.entries ↔ ∃ x, ws.wait? t = some x ∧ x.site = site
  siteScript : ∀ t x, ws.wait? t = some x → x.site.script = x.script
  apart : ∀ t u x y, ws.wait? t = some x → ws.wait? u = some y → t ≠ u →
    x.script ≠ y.script ∧ x.site ≠ y.site
  nodup : returned.Nodup
  watchers : ∀ h, (ws.watchers.get? h).getD [] =
    returned.filter fun t => (ws.wait? t).any fun x => decide (x.watched = some h)
  noEmptyList : ∀ h, (h, []) ∉ ws.watchers.entries
  tokens : ∀ t x, ws.wait? t = some x → t.index ≤ ws.lastToken

theorem oneMap_history (calls : List Call) :
    OneMap ((history calls {}).1.flatMap Deed.issued) (history calls {}).2 := by
  obtain ⟨h, -⟩ := indexed_empty.history calls
  have hissued := (indexed_empty.issued_history calls).1
  refine ⟨?_, ?_, h.siteScript, ?_, hissued.imp fun hlt he => by simp [he] at hlt, ?_, ?_, ?_⟩
  · intro id t
    rw [← OrderedMap.get?_eq_some_iff]
    exact h.byScript id t
  · intro site t
    rw [← OrderedMap.get?_eq_some_iff]
    exact h.bySite site t
  · intro t u x y hx hy hne
    exact ⟨fun he => hne (h.byScript.injective hx hy he),
      fun he => hne (h.bySite.injective hx hy he)⟩
  · intro g
    rw [h.getD_watchers, watching_eq_filter, keys_history, List.filter_filter]
    apply List.filter_congr
    intro t _
    cases (history calls {}).2.wait? t <;> simp
  · intro g hg
    rw [← OrderedMap.get?_eq_some_iff, h.watchers g, Option.ite_none_left_eq_some] at hg
    simp only [not_or, Option.some.injEq] at hg
    exact hg.1.1 hg.2
  · intro t x hx
    exact h.issued t (OrderedMap.mem_keys_iff.2 ⟨x, hx⟩)

/-- Over any history the registry answers as the map of its pending waits does, and each of its
indexes holds what it is for and nothing else. -/
theorem registry_is_one_map (calls : List Call) :
    OneMap ((history calls {}).1.flatMap Deed.issued) (history calls {}).2 ∧
      WaitMap.history calls {} = ((history calls {}).1, (history calls {}).2.plain) ∧
      (∀ site kind watched pushesResult,
        (∃ e, (history calls {}).2.register site kind watched pushesResult = .error e) ↔
          ∃ t x, (history calls {}).2.wait? t = some x ∧ x.script = site.script) ∧
      (∀ id, (history calls {}).2.pendingFor? id = (history calls {}).2.plain.pendingFor? id) ∧
      (∀ t, (history calls {}).2.wait? t = (history calls {}).2.plain.wait? t) ∧
      (∀ site, (history calls {}).2.isBusy site = (history calls {}).2.plain.isBusy site) ∧
      (∀ h, (history calls {}).2.watcherCount h = (history calls {}).2.plain.watcherCount h) ∧
      (history calls {}).2.size = (history calls {}).2.plain.size := by
  obtain ⟨h, -⟩ := indexed_empty.history calls
  exact ⟨oneMap_history calls, indexed_empty.history_plain calls, h.register_eq_error_iff,
    h.pendingFor?_plain, fun _ => rfl, h.isBusy_plain, h.watcherCount_plain, rfl⟩

end Waits

end WorldScript
