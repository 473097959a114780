import Mathlib.Data.List.Nodup
import WorldScript.Waits

/-!
The indexes of the registry of waits are one map. What each operation does is said on the map of
pending waits alone; that the ways to find a wait agree with this map is an invariant.

Main statements: `Indexed.register`, `IndexedBut.releaseEach` and `Indexed.deliver`.
-/
set_option autoImplicit false

namespace WorldScript

/-- The wakeup by which a notice ends the wait under a token, if it ends it. -/
def Notice.wakeup? (n : Notice) (t : Token) (x : Wait) : Option Wakeup :=
  match n with
  | .alarmFired u =>
    if u = t then if x.kind = .alarm then some (Waits.resumption none x) else none else none
  | .commandFinished u result =>
    if u = t then if x.kind = .command then some (Waits.resumption result x) else none else none
  | .windowClosed u result =>
    if u = t then if x.kind = .window then some (Waits.resumption result x) else none else none
  | .commandDisqualified u reason =>
    if u = t then
      if x.kind = .command then some (.interrupt x.script (.disqualified reason)) else none
    else none
  | .entityDestroyed h => if x.watched = some h then some (.resume x.script none) else none
  | .worldPaused _ => none

theorem Notice.script_of_wakeup? {n : Notice} {t : Token} {x : Wait} {k : Wakeup}
    (h : n.wakeup? t x = some k) : k.script = x.script := by
  cases n <;> grind [wakeup?, Waits.resumption, Wakeup.script]

def Notice.hears (paused : Bool) : Notice → Bool
  | .worldPaused b => b
  | .alarmFired _ | .commandFinished .. | .commandDisqualified .. | .windowClosed ..
  | .entityDestroyed _ => paused

namespace Waits

/-! ### Indexes -/

/-- An index finds the token of each pending wait by one of its properties, and nothing else. -/
def Finds {κ : Type} [DecidableEq κ] (index : OrderedMap κ Token) (f : Wait → κ)
    (pending : OrderedMap Token Wait) : Prop :=
  ∀ k t, index.get? k = some t ↔ ∃ x, pending.get? t = some x ∧ f x = k

section Finds

variable {κ : Type} [DecidableEq κ] {index : OrderedMap κ Token} {f : Wait → κ}
  {pending : OrderedMap Token Wait} {t u : Token} {x y : Wait}

theorem Finds.get? (h : Finds index f pending) (hx : pending.get? t = some x) :
    index.get? (f x) = some t := (h (f x) t).2 ⟨x, hx, rfl⟩

theorem Finds.injective (h : Finds index f pending) (hx : pending.get? t = some x)
    (hy : pending.get? u = some y) (he : f x = f y) : t = u := by
  have ht := h.get? hx
  rw [he, h.get? hy] at ht
  exact (Option.some.inj ht).symm

theorem Finds.erase (h : Finds index f pending) (hx : pending.get? t = some x) :
    Finds (index.erase (f x)) f (pending.erase t) := by
  intro k u
  simp only [OrderedMap.get?_erase]
  by_cases hk : f x = k
  · simp only [hk, if_true, reduceCtorEq, false_iff, not_exists, not_and]
    intro y hy hf
    by_cases hu : t = u
    · simp [hu] at hy
    · simp only [hu, if_false] at hy
      exact hu (h.injective hx hy (hk.trans hf.symm))
  · simp only [hk, if_false]
    rw [h k u]
    by_cases hu : t = u
    · subst hu
      simp [hx, hk]
    · simp [hu]

theorem Finds.insert (h : Finds index f pending) (ht : pending.get? t = none)
    (hk : index.get? (f x) = none) : Finds (index.insert (f x) t) f (pending.insert t x) := by
  intro k u
  simp only [OrderedMap.get?_insert]
  by_cases hu : t = u
  · subst hu
    by_cases hf : f x = k
    · simp [hf]
    · have hn : index.get? k ≠ some t := by
        intro hi
        obtain ⟨y, hy, _⟩ := (h k t).1 hi
        simp [ht] at hy
      simp [hf, hn]
  · by_cases hf : f x = k
    · subst hf
      have hn : ¬∃ y, pending.get? u = some y ∧ f y = f x := by
        rw [← h (f x) u, hk]
        simp
      simp [hu, hn]
    · simp only [hf, hu, if_false]
      exact h k u

end Finds

def watching (ws : Waits) (h : Handle) : List Token :=
  (ws.pending.filter fun _ x => decide (x.watched = some h)).keys

theorem mem_watching {ws : Waits} {h : Handle} {t : Token} :
    t ∈ ws.watching h ↔ ∃ x, ws.pending.get? t = some x ∧ x.watched = some h := by
  simp [watching, OrderedMap.mem_keys_filter]

/-- Waits are pending in the order of their tokens, and the indexes find each by its script, its
instruction and who it watches, but for one list that may have been taken out. -/
structure IndexedBut (gone : Option Handle) (ws : Waits) : Prop where
  ordered : ws.pending.keys.Pairwise fun t u => t.index < u.index
  issued : ∀ t ∈ ws.pending.keys, t.index ≤ ws.lastToken
  byScript : Finds ws.byScript Wait.script ws.pending
  bySite : Finds ws.bySite Wait.site ws.pending
  siteScript : ∀ t x, ws.pending.get? t = some x → x.site.script = x.script
  watchers : ∀ h, ws.watchers.get? h =
    if ws.watching h = [] ∨ gone = some h then none else some (ws.watching h)

abbrev Indexed (ws : Waits) : Prop := IndexedBut none ws

theorem indexed_empty : Indexed {} := by
  refine ⟨List.Pairwise.nil, by simp, ?_, ?_, ?_, ?_⟩
  · intro k t
    simp
  · intro k t
    simp
  · intro t x hx
    simp at hx
  · intro h
    have hw : watching {} h = [] := rfl
    simp [hw]

/-! ### Releasing -/

def without (ws : Waits) (t : Token) (x : Wait) : Waits :=
  { ws with
    pending := ws.pending.erase t
    watchers := dropWatcher ws.watchers x.watched t
    bySite := ws.bySite.erase x.site
    byScript := ws.byScript.erase x.script }

theorem release?_of_get? {ws : Waits} {t : Token} {x : Wait} (hx : ws.pending.get? t = some x) :
    ws.release? t = some (x, ws.without t x) := by
  simp [release?, hx, without]

theorem wait?_without (ws : Waits) (t u : Token) (x : Wait) :
    (ws.without t x).wait? u = if t = u then none else ws.wait? u :=
  OrderedMap.get?_erase ws.pending t u

theorem watching_without (ws : Waits) (t : Token) (x : Wait) (h : Handle) :
    (ws.without t x).watching h = (ws.watching h).filter fun u => decide (u ≠ t) := by
  simp only [watching, without, OrderedMap.keys, OrderedMap.filter, OrderedMap.erase,
    List.filter_map, List.filter_filter, Function.comp_def]
  congr 2
  funext e
  exact Bool.and_comm _ _

theorem get?_dropWatcher (watchers : OrderedMap Handle (List Token)) (watched : Option Handle)
    (t : Token) (h : Handle) :
    (dropWatcher watchers watched t).get? h =
      if watched = some h then
        ((watchers.get? h).map fun tokens => tokens.filter fun u => decide (u ≠ t)).filter
          fun tokens => !tokens.isEmpty
      else watchers.get? h := by
  cases watched with
  | none => simp [dropWatcher]
  | some g =>
    by_cases hg : g = h
    · subst hg
      cases hw : watchers.get? g with
      | none => simp [dropWatcher, hw]
      | some tokens =>
        simp only [dropWatcher, hw, if_true, Option.map_some, Option.filter_some]
        cases (tokens.filter fun u => decide (u ≠ t)).isEmpty <;>
          simp [OrderedMap.get?_erase, OrderedMap.get?_insert]
    · cases hw : watchers.get? g with
      | none => simp [dropWatcher, hw, hg]
      | some tokens =>
        simp only [dropWatcher, hw]
        split <;> simp [OrderedMap.get?_erase, OrderedMap.get?_insert, hg]

theorem IndexedBut.without {gone : Option Handle} {ws : Waits} {t : Token} {x : Wait}
    (h : IndexedBut gone ws) (hx : ws.pending.get? t = some x) :
    IndexedBut gone (ws.without t x) := by
  refine ⟨?_, ?_, h.byScript.erase hx, h.bySite.erase hx, ?_, ?_⟩
  · simp only [Waits.without, OrderedMap.keys_erase]
    exact h.ordered.filter _
  · intro u hu
    simp only [Waits.without, OrderedMap.keys_erase, List.mem_filter] at hu
    exact h.issued u hu.1
  · intro u y hy
    simp only [Waits.without, OrderedMap.get?_erase, Option.ite_none_left_eq_some] at hy
    exact h.siteScript u y hy.2
  · intro g
    rw [watching_without]
    simp only [Waits.without, get?_dropWatcher, h.watchers g]
    by_cases hg : x.watched = some g
    · by_cases hw : ws.watching g = [] ∨ gone = some g
      · rcases hw with hw | hw <;> simp [hw]
      · simp only [hg, hw, if_true, if_false, Option.map_some, Option.filter_some]
        simp only [not_or] at hw
        cases (ws.watching g).filter fun u => decide (u ≠ t) <;> simp [hw.2]
    · have ht : t ∉ ws.watching g := by
        rw [mem_watching]
        intro h
        obtain ⟨y, hy, hyg⟩ := h
        rw [hx] at hy
        exact hg (Option.some.inj hy ▸ hyg)
      have hf : (ws.watching g).filter (fun u => decide (u ≠ t)) = ws.watching g := by
        rw [List.filter_eq_self]
        intro u hu
        simp only [decide_eq_true_eq]
        intro he
        exact ht (he ▸ hu)
      rw [hf, if_neg hg]

theorem pending_without_filter (ws : Waits) (t : Token) (x : Wait) (tokens : List Token) :
    (ws.without t x).pending.filter (fun u _ => decide (u ∉ tokens)) =
      ws.pending.filter fun u _ => decide (u ∉ t :: tokens) := by
  simp only [without, OrderedMap.erase_eq_filter, OrderedMap.filter_filter]
  apply OrderedMap.filter_congr
  intro u y _
  simp [Bool.and_comm]

theorem IndexedBut.releaseEach {gone : Option Handle} {ws : Waits} (h : IndexedBut gone ws)
    (l : List (Token × Wait)) (hl : ∀ e ∈ l, ws.pending.get? e.1 = some e.2)
    (hd : (l.map Prod.fst).Nodup) :
    (Waits.releaseEach (l.map Prod.fst) ws).1 = l ∧
      (Waits.releaseEach (l.map Prod.fst) ws).2.pending =
        ws.pending.filter (fun t _ => decide (t ∉ l.map Prod.fst)) ∧
      (Waits.releaseEach (l.map Prod.fst) ws).2.lastToken = ws.lastToken ∧
      IndexedBut gone (Waits.releaseEach (l.map Prod.fst) ws).2 := by
  induction l generalizing ws with
  | nil => exact ⟨rfl, (OrderedMap.filter_eq_self (by simp)).symm, rfl, h⟩
  | cons e l ih =>
    obtain ⟨t, x⟩ := e
    have hx : ws.pending.get? t = some x := hl (t, x) (by simp)
    simp only [List.map_cons, List.nodup_cons] at hd
    have hrest : ∀ e ∈ l, (ws.without t x).pending.get? e.1 = some e.2 := by
      intro e he
      have hne : ¬t = e.1 := fun ht => hd.1 (ht ▸ List.mem_map_of_mem he)
      simpa [Waits.without, OrderedMap.get?_erase, hne] using hl e (by simp [he])
    obtain ⟨hfst, hpending, hlast, hindexed⟩ := ih (h.without hx) hrest hd.2
    simp only [List.map_cons, Waits.releaseEach, release?_of_get? hx]
    refine ⟨by rw [hfst], ?_, hlast, hindexed⟩
    rw [hpending, pending_without_filter]

theorem Indexed.releaseScript?_eq_some {ws ws' : Waits} (h : Indexed ws) {id : ScriptId}
    {t : Token} {x : Wait} (hr : ws.releaseScript? id = some ((t, x), ws')) :
    ws.pending.get? t = some x ∧ x.script = id ∧ ws' = ws.without t x := by
  cases hs : ws.byScript.get? id with
  | none => simp [releaseScript?, hs] at hr
  | some u =>
    obtain ⟨y, hy, hid⟩ := (h.byScript id u).1 hs
    simp only [releaseScript?, hs, release?_of_get? hy, Option.bind_eq_bind, Option.bind_some,
      Option.pure_def, Option.some.injEq, Prod.mk.injEq] at hr
    obtain ⟨⟨rfl, rfl⟩, rfl⟩ := hr
    exact ⟨hy, hid, rfl⟩

theorem Indexed.releaseScript?_eq_none_iff {ws : Waits} (h : Indexed ws) {id : ScriptId} :
    ws.releaseScript? id = none ↔ ws.byScript.get? id = none := by
  cases hs : ws.byScript.get? id with
  | none => simp [releaseScript?, hs]
  | some u =>
    obtain ⟨y, hy, _⟩ := (h.byScript id u).1 hs
    simp [releaseScript?, hs, release?_of_get? hy]

theorem Indexed.pendingFor?_script {ws : Waits} (h : Indexed ws) {t : Token} {x : Wait}
    (hx : ws.wait? t = some x) : ws.pendingFor? x.script = some t :=
  h.byScript.get? hx

theorem Indexed.script_ne {ws : Waits} (h : Indexed ws) {id : ScriptId}
    (hp : ws.pendingFor? id = none) {t : Token} {x : Wait} (hx : ws.wait? t = some x) :
    x.script ≠ id := by
  rintro rfl
  rw [h.pendingFor?_script hx] at hp
  cases hp

theorem Indexed.releaseAll {ws : Waits} (h : Indexed ws) :
    (ws.releaseAll).1 = ws.pending.entries ∧ (ws.releaseAll).2.pending = OrderedMap.empty ∧
      (ws.releaseAll).2.lastToken = ws.lastToken ∧ Indexed (ws.releaseAll).2 := by
  obtain ⟨hfst, hpending, hlast, hindexed⟩ := h.releaseEach ws.pending.entries
    (fun e he => OrderedMap.get?_eq_some_iff.2 he) ws.pending.distinct
  refine ⟨hfst, hpending.trans ?_, hlast, hindexed⟩
  apply OrderedMap.ext
  apply List.filter_eq_nil_iff.2
  intro e he
  simpa using ⟨e.2, he⟩

/-! ### Registering -/

theorem watching_insert {ws rest : Waits} {t : Token} {x : Wait} (ht : t ∉ ws.pending.keys)
    (hr : rest.pending = ws.pending.insert t x) (h : Handle) :
    rest.watching h = if x.watched = some h then ws.watching h ++ [t] else ws.watching h := by
  simp only [watching, hr, OrderedMap.keys, OrderedMap.filter,
    OrderedMap.entries_insert_of_notMem ht, List.filter_append, List.map_append]
  by_cases hx : x.watched = some h <;> simp [hx]

theorem register_eq_ok {ws ws' : Waits} {site : Site} {kind : WaitKind}
    {watched : Option Handle} {pushesResult : Bool} {t : Token}
    (h : ws.register site kind watched pushesResult = .ok (t, ws')) :
    ws.bySite.get? site = none ∧ ws.byScript.get? site.script = none ∧
      t = ⟨ws.lastToken + 1⟩ ∧
      ws' = { ws with
        lastToken := ws.lastToken + 1
        pending := ws.pending.insert t ⟨site.script, site, kind, watched, pushesResult⟩
        watchers := addWatcher ws.watchers watched t
        bySite := ws.bySite.insert site t
        byScript := ws.byScript.insert site.script t } := by
  unfold register at h
  split at h
  · cases h
  · rename_i hfree
    simp only [OrderedMap.contains, Bool.or_eq_true, not_or, Option.not_isSome_iff_eq_none]
      at hfree
    simp only [Except.ok.injEq, Prod.mk.injEq] at h
    obtain ⟨rfl, rfl⟩ := h
    exact ⟨hfree.1, hfree.2, rfl, rfl⟩

theorem Indexed.register_isOk {ws : Waits} (h : Indexed ws) (site : Site)
    (hp : ws.pendingFor? site.script = none) (kind : WaitKind) (watched : Option Handle)
    (pushesResult : Bool) :
    ∃ t ws', ws.register site kind watched pushesResult = .ok (t, ws') := by
  have hscript : ws.byScript.get? site.script = none := hp
  have hsite : ws.bySite.get? site = none := by
    cases hs : ws.bySite.get? site with
    | none => rfl
    | some t =>
      obtain ⟨x, hx, rfl⟩ := (h.bySite site t).1 hs
      have hx' := h.byScript.get? hx
      rw [← h.siteScript t x hx, hscript] at hx'
      cases hx'
  simp [Waits.register, OrderedMap.contains, hscript, hsite]

theorem Indexed.register {ws ws' : Waits} {site : Site} {kind : WaitKind}
    {watched : Option Handle} {pushesResult : Bool} {t : Token} (h : Indexed ws)
    (hr : ws.register site kind watched pushesResult = .ok (t, ws')) :
    t.index = ws.lastToken + 1 ∧ ws'.lastToken = ws.lastToken + 1 ∧ t ∉ ws.pending.keys ∧
      ws'.pending = ws.pending.insert t ⟨site.script, site, kind, watched, pushesResult⟩ ∧
      Indexed ws' := by
  obtain ⟨hsite, hscript, ht, hws⟩ := register_eq_ok hr
  have hi : t.index = ws.lastToken + 1 := by rw [ht]
  have hfresh : t ∉ ws.pending.keys := by
    intro hm
    have := h.issued t hm
    omega
  have hnone : ws.pending.get? t = none := OrderedMap.get?_eq_none_iff.2 hfresh
  have hkeys : (ws.pending.insert t ⟨site.script, site, kind, watched, pushesResult⟩).keys =
      ws.pending.keys ++ [t] := by
    rw [OrderedMap.keys_insert, if_neg hfresh]
  subst hws
  refine ⟨hi, rfl, hfresh, rfl, ?_, ?_,
    h.byScript.insert (x := ⟨site.script, site, kind, watched, pushesResult⟩) hnone hscript,
    h.bySite.insert (x := ⟨site.script, site, kind, watched, pushesResult⟩) hnone hsite, ?_, ?_⟩
  · simp only [hkeys, List.pairwise_append, List.mem_singleton]
    refine ⟨h.ordered, by simp, ?_⟩
    rintro u hu v rfl
    have := h.issued u hu
    omega
  · intro u hu
    simp only [hkeys, List.mem_append, List.mem_singleton] at hu
    rcases hu with hu | hu
    · have := h.issued u hu
      simp only
      omega
    · simp only [hu]
      omega
  · intro u y hy
    simp only [OrderedMap.get?_insert] at hy
    split at hy
    · cases hy
      rfl
    · exact h.siteScript u y hy
  · intro g
    rw [watching_insert hfresh rfl g]
    cases watched with
    | none => simpa [addWatcher] using h.watchers g
    | some f =>
      by_cases hf : f = g
      · -- the new token is the last one in the list of its entity, which may be a new list
        subst hf
        have hw := h.watchers f
        by_cases he : ws.watching f = []
        · simp [addWatcher, OrderedMap.get?_insert, hw, he]
        · simp [addWatcher, OrderedMap.get?_insert, hw, he]
      · simpa [addWatcher, OrderedMap.get?_insert, hf] using h.watchers g

/-! ### Delivering -/

theorem Indexed.finish {ws : Waits} (h : Indexed ws) (t : Token) (kind : WaitKind)
    (wake : Wait → Wakeup) (f : Token → Wait → Option Wakeup)
    (hf : ∀ u x, f u x = if t = u then if x.kind = kind then some (wake x) else none else none) :
    (ws.finish t kind wake).1 = ws.pending.entries.filterMap (fun e => f e.1 e.2) ∧
      (ws.finish t kind wake).2.pending = ws.pending.filter (fun u x => (f u x).isNone) ∧
      (ws.finish t kind wake).2.lastToken = ws.lastToken ∧
      Indexed (ws.finish t kind wake).2 := by
  have hfst := ws.pending.filterMap_entries_at t
    fun x => if x.kind = kind then some (wake x) else none
  simp only [hf, hfst]
  cases hx : ws.pending.get? t with
  | none =>
    have hr : ws.finish t kind wake = ([], ws) := by simp only [Waits.finish, hx]
    rw [hr]
    refine ⟨rfl, (OrderedMap.filter_eq_self ?_).symm, rfl, h⟩
    intro u x hu
    have hne : ¬t = u := fun ht => by simp [ht, hu] at hx
    simp [hne]
  | some w =>
    by_cases hk : w.kind = kind
    · have hr : ws.finish t kind wake = ([wake w], ws.without t w) := by
        simp only [Waits.finish, hx, hk, if_true, release?_of_get? hx]
      rw [hr]
      refine ⟨by simp [hk], ?_, rfl, h.without hx⟩
      simp only [without, OrderedMap.erase_eq_filter]
      apply OrderedMap.filter_congr
      intro u x hu
      by_cases ht : t = u
      · subst ht
        obtain rfl : w = x := Option.some.inj (hx.symm.trans hu)
        simp [hk]
      · have hne : ¬u = t := fun he => ht he.symm
        simp [ht, hne]
    · have hr : ws.finish t kind wake = ([], ws) := by
        simp only [Waits.finish, hx, hk, if_false]
      rw [hr]
      refine ⟨by simp [hk], (OrderedMap.filter_eq_self ?_).symm, rfl, h⟩
      intro u x hu
      by_cases ht : t = u
      · subst ht
        obtain rfl : w = x := Option.some.inj (hx.symm.trans hu)
        simp [hk]
      · simp [ht]

/-- With its list, the waits of an entity have lost the index that finds them by this entity. -/
theorem Indexed.eraseWatchers {ws : Waits} (h : Indexed ws) (g : Handle) :
    IndexedBut (some g) { ws with watchers := ws.watchers.erase g } := by
  refine ⟨h.ordered, h.issued, h.byScript, h.bySite, h.siteScript, ?_⟩
  intro f
  have hw := h.watchers f
  change (ws.watchers.erase g).get? f =
    if ws.watching f = [] ∨ some g = some f then none else some (ws.watching f)
  by_cases hf : g = f
  · simp [OrderedMap.get?_erase, hf]
  · simpa [OrderedMap.get?_erase, hf] using hw

theorem IndexedBut.restored {ws : Waits} {g : Handle} (h : IndexedBut (some g) ws)
    (hg : ws.watching g = []) : Indexed ws := by
  refine ⟨h.ordered, h.issued, h.byScript, h.bySite, h.siteScript, ?_⟩
  intro f
  rw [h.watchers f]
  by_cases hf : g = f
  · subst hf
    simp [hg]
  · simp [hf]

theorem Indexed.destroyed {ws : Waits} (h : Indexed ws) (g : Handle) :
    (ws.deliver (.entityDestroyed g)).1 =
        (ws.pending.filter fun _ x => decide (x.watched = some g)).entries.map
          (fun e => .resume e.2.script none) ∧
      (ws.deliver (.entityDestroyed g)).2.pending =
        ws.pending.filter (fun _ x => decide (x.watched ≠ some g)) ∧
      (ws.deliver (.entityDestroyed g)).2.lastToken = ws.lastToken ∧
      Indexed (ws.deliver (.entityDestroyed g)).2 := by
  have hlist : (ws.watchers.get? g).getD [] = ws.watching g := by
    rw [h.watchers g]
    split <;> simp_all
  have hl : ∀ e ∈ (ws.pending.filter fun _ x => decide (x.watched = some g)).entries,
      ws.pending.get? e.1 = some e.2 := by
    intro e he
    exact OrderedMap.get?_eq_some_iff.2 (List.mem_filter.1 he).1
  have hrelease := (h.eraseWatchers g).releaseEach _ hl (OrderedMap.keys_nodup _)
  have hkeys : (ws.pending.filter fun _ x => decide (x.watched = some g)).entries.map Prod.fst =
      ws.watching g := rfl
  rw [hkeys] at hrelease
  obtain ⟨hfst, hpending, hlast, hindexed⟩ := hrelease
  have hleft : ws.pending.filter (fun t _ => decide (t ∉ ws.watching g)) =
      ws.pending.filter fun _ x => decide (x.watched ≠ some g) := by
    apply OrderedMap.filter_congr
    intro t x hx
    simp [mem_watching, hx]
  simp only [Waits.deliver, hlist]
  refine ⟨by rw [hfst], hpending.trans hleft, hlast, hindexed.restored ?_⟩
  rw [List.eq_nil_iff_forall_not_mem]
  intro t ht
  obtain ⟨x, hx, hw⟩ := mem_watching.1 ht
  rw [hpending, hleft, OrderedMap.get?_filter] at hx
  simp [Option.filter_eq_some_iff, hw] at hx

theorem Indexed.deliver {ws : Waits} (h : Indexed ws) (n : Notice) :
    (ws.deliver n).1 = ws.pending.entries.filterMap (fun e => n.wakeup? e.1 e.2) ∧
      (ws.deliver n).2.pending = ws.pending.filter (fun t x => (n.wakeup? t x).isNone) ∧
      (ws.deliver n).2.lastToken = ws.lastToken ∧ Indexed (ws.deliver n).2 := by
  cases n with
  | alarmFired u => exact h.finish u .alarm _ _ fun _ _ => rfl
  | commandFinished u result => exact h.finish u .command _ _ fun _ _ => rfl
  | windowClosed u result => exact h.finish u .window _ _ fun _ _ => rfl
  | commandDisqualified u reason => exact h.finish u .command _ _ fun _ _ => rfl
  | entityDestroyed g =>
    obtain ⟨hfst, hpending, hlast, hindexed⟩ := h.destroyed g
    refine ⟨?_, ?_, hlast, hindexed⟩
    · rw [hfst, OrderedMap.filter, ← List.filterMap_eq_map, List.filterMap_filter]
      simp [Notice.wakeup?]
    · rw [hpending]
      apply OrderedMap.filter_congr
      intro t x _
      by_cases hw : x.watched = some g <;> simp [Notice.wakeup?, hw]
  | worldPaused paused =>
    refine ⟨by simp [Waits.deliver, Notice.wakeup?], ?_, rfl, ?_⟩
    · exact (OrderedMap.filter_eq_self (by simp [Notice.wakeup?])).symm
    · exact ⟨h.ordered, h.issued, h.byScript, h.bySite, h.siteScript, h.watchers⟩

theorem Indexed.get?_deliver {ws : Waits} (h : Indexed ws) (n : Notice) (t : Token) (x : Wait) :
    (ws.deliver n).2.pending.get? t = some x ↔
      ws.pending.get? t = some x ∧ n.wakeup? t x = none := by
  rw [(h.deliver n).2.1, OrderedMap.get?_filter]
  simp [Option.filter_eq_some_iff]

theorem scripts_filterMap (n : Notice) (l : List (Token × Wait)) :
    (l.filterMap fun e => n.wakeup? e.1 e.2).map Wakeup.script =
      (l.filter fun e => (n.wakeup? e.1 e.2).isSome).map fun e => e.2.script := by
  induction l with
  | nil => rfl
  | cons e l ih =>
    cases hk : n.wakeup? e.1 e.2 with
    | none => simp [hk, ih]
    | some k => simp [hk, ih, Notice.script_of_wakeup? hk]

theorem Indexed.mem_scripts_deliver {ws : Waits} (h : Indexed ws) {n : Notice} {id : ScriptId} :
    id ∈ (ws.deliver n).1.map Wakeup.script ↔
      ∃ t x, ws.pending.get? t = some x ∧ x.script = id ∧ (n.wakeup? t x).isSome := by
  rw [(h.deliver n).1, scripts_filterMap]
  simp only [List.mem_map, List.mem_filter]
  constructor
  · intro h
    obtain ⟨⟨t, x⟩, ⟨he, hk⟩, hid⟩ := h
    exact ⟨t, x, OrderedMap.get?_eq_some_iff.2 he, hid, hk⟩
  · intro h
    obtain ⟨t, x, hx, hid, hk⟩ := h
    exact ⟨(t, x), ⟨OrderedMap.get?_eq_some_iff.1 hx, hk⟩, hid⟩

theorem Indexed.nodup_scripts_deliver {ws : Waits} (h : Indexed ws) (n : Notice) :
    ((ws.deliver n).1.map Wakeup.script).Nodup := by
  rw [(h.deliver n).1, scripts_filterMap]
  apply List.Nodup.map_on
  · rintro ⟨t, x⟩ ht ⟨u, y⟩ hu he
    have hx := OrderedMap.get?_eq_some_iff.2 (List.mem_filter.1 ht).1
    have hy := OrderedMap.get?_eq_some_iff.2 (List.mem_filter.1 hu).1
    obtain rfl := h.byScript.injective hx hy he
    rw [Option.some.inj (hx.symm.trans hy)]
  · exact (List.Nodup.of_map _ ws.pending.distinct).filter _

theorem Indexed.pendingFor?_deliver {ws : Waits} (h : Indexed ws) (n : Notice) (id : ScriptId) :
    (ws.deliver n).2.pendingFor? id =
      if id ∈ (ws.deliver n).1.map Wakeup.script then none else ws.pendingFor? id := by
  apply Option.ext
  intro t
  rw [Option.ite_none_left_eq_some, pendingFor?, pendingFor?, (h.deliver n).2.2.2.byScript id t,
    h.byScript id t, h.mem_scripts_deliver]
  constructor
  · intro h
    obtain ⟨x, hx, rfl⟩ := h
    obtain ⟨hx, hk⟩ := (h.get?_deliver n t x).1 hx
    refine ⟨?_, x, hx, rfl⟩
    intro h
    obtain ⟨u, y, hy, hid, hsome⟩ := h
    obtain rfl := h.byScript.injective hx hy hid.symm
    obtain rfl := Option.some.inj (hx.symm.trans hy)
    simp [hk] at hsome
  · intro h
    obtain ⟨hn, x, hx, rfl⟩ := h
    refine ⟨x, (h.get?_deliver n t x).2 ⟨hx, ?_⟩, rfl⟩
    rw [← Option.not_isSome_iff_eq_none]
    exact fun hk => hn ⟨t, x, hx, rfl, hk⟩

theorem Indexed.length_deliver {ws : Waits} (h : Indexed ws) (n : Notice) :
    (ws.deliver n).1.length + (ws.deliver n).2.size = ws.size := by
  obtain ⟨hfst, hpending, _⟩ := h.deliver n
  simp only [size, hfst, hpending, OrderedMap.size, OrderedMap.filter]
  induction ws.pending.entries with
  | nil => rfl
  | cons e l ih =>
    cases hk : n.wakeup? e.1 e.2 <;> simp only [List.filterMap_cons, List.filter_cons, hk,
      Option.isNone_none, Option.isNone_some, if_true, Bool.false_eq_true, if_false,
      List.length_cons] <;> omega

/-! ### What every release keeps -/

section Keeps

variable {P : Waits → Prop}
  (hrelease : ∀ ws t x ws', ws.release? t = some (x, ws') → P ws → P ws')

include hrelease

theorem releaseEach_keeps (tokens : List Token) {ws : Waits} (h : P ws) :
    P (releaseEach tokens ws).2 := by
  induction tokens generalizing ws with
  | nil => exact h
  | cons t tokens ih =>
    unfold releaseEach
    split
    case h_1 x ws' hr => exact ih (hrelease ws t x ws' hr h)
    case h_2 => exact ih h

theorem finish_keeps {ws : Waits} (h : P ws) (t : Token) (kind : WaitKind)
    (wake : Wait → Wakeup) : P (ws.finish t kind wake).2 := by
  unfold finish
  split
  · exact h
  · split
    · split
      case h_1 x ws' hr => exact hrelease ws t x ws' hr h
      case h_2 => exact h
    · exact h

end Keeps

/-! ### The pause of the world -/

theorem worldPaused_release? {ws : Waits} {t : Token} {x : Wait} {ws' : Waits}
    (h : ws.release? t = some (x, ws')) : ws'.worldPaused = ws.worldPaused := by
  obtain ⟨y, -, he⟩ := Option.map_eq_some_iff.1 h
  cases he
  rfl

theorem worldPaused_releaseEach (tokens : List Token) (ws : Waits) :
    (releaseEach tokens ws).2.worldPaused = ws.worldPaused :=
  releaseEach_keeps (P := fun ws' => ws'.worldPaused = ws.worldPaused)
    (fun _ _ _ _ hr h => (worldPaused_release? hr).trans h) tokens rfl

theorem worldPaused_deliver (ws : Waits) (n : Notice) :
    (ws.deliver n).2.worldPaused = n.hears ws.worldPaused := by
  cases n with
  | alarmFired | commandFinished | commandDisqualified | windowClosed =>
    exact finish_keeps (P := fun ws' => ws'.worldPaused = ws.worldPaused)
      (fun _ _ _ _ hr h => (worldPaused_release? hr).trans h) rfl _ _ _
  | entityDestroyed h => exact worldPaused_releaseEach _ _
  | worldPaused b => rfl

end Waits

end WorldScript
