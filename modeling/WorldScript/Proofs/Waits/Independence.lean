import WorldScript.Proofs.Waits.Fates

/-!
Notices that end different waits. What is left of the registry depends on the waits that are left
and on the order of its indexes, which no release disturbs. So two notices can come in either
order, and if they end different waits, each of them wakes the same scripts in both.

Main statements: `Indexed.deliver_comm` and `independent_notices_commute`.
-/
set_option autoImplicit false

namespace WorldScript

theorem Notice.hears_comm {n n' : Notice}
    (hpaused : ∀ b b', n = .worldPaused b → n' ≠ .worldPaused b') (paused : Bool) :
    Notice.hears (Notice.hears paused n) n' = Notice.hears (Notice.hears paused n') n := by
  cases n with
  | worldPaused b =>
    cases n' with
    | worldPaused b' => exact absurd rfl (hpaused b b' rfl)
    | _ => rfl
  | _ => cases n' <;> rfl

namespace Waits

/-! ### Order -/

structure KeepsOrder (ws ws' : Waits) : Prop where
  watchers : ws'.watchers.keys.Sublist ws.watchers.keys
  bySite : ws'.bySite.keys.Sublist ws.bySite.keys
  byScript : ws'.byScript.keys.Sublist ws.byScript.keys

section

variable {ws ws₁ ws₂ ws' : Waits}

theorem KeepsOrder.refl (ws : Waits) : KeepsOrder ws ws :=
  ⟨List.Sublist.refl _, List.Sublist.refl _, List.Sublist.refl _⟩

theorem KeepsOrder.trans (h : KeepsOrder ws ws₁) (h' : KeepsOrder ws₁ ws') :
    KeepsOrder ws ws' :=
  ⟨h'.watchers.trans h.watchers, h'.bySite.trans h.bySite, h'.byScript.trans h.byScript⟩

/-- A list that has lost a token stays in its place, unless it is empty now. -/
theorem keys_dropWatcher_sublist (watchers : OrderedMap Handle (List Token))
    (watched : Option Handle) (t : Token) :
    (dropWatcher watchers watched t).keys.Sublist watchers.keys := by
  unfold dropWatcher
  split
  case h_1 => exact List.Sublist.refl _
  case h_2 h =>
    split
    case h_1 => exact List.Sublist.refl _
    case h_2 tokens htokens =>
      dsimp only
      split
      case isTrue => exact OrderedMap.keys_erase_sublist _ _
      case isFalse =>
        rw [OrderedMap.keys_insert, if_pos (OrderedMap.mem_keys_iff.2 ⟨tokens, htokens⟩)]

theorem keepsOrder_release? {t : Token} {x : Wait} (h : ws.release? t = some (x, ws')) :
    KeepsOrder ws ws' := by
  obtain ⟨y, -, he⟩ := Option.map_eq_some_iff.1 h
  cases he
  exact ⟨keys_dropWatcher_sublist _ _ _, OrderedMap.keys_erase_sublist _ _,
    OrderedMap.keys_erase_sublist _ _⟩

theorem keepsOrder_deliver (ws : Waits) (n : Notice) : KeepsOrder ws (ws.deliver n).2 := by
  have hrelease : ∀ ws₁ t x ws', ws₁.release? t = some (x, ws') → KeepsOrder ws ws₁ →
      KeepsOrder ws ws' := fun _ _ _ _ hr h => h.trans (keepsOrder_release? hr)
  cases n with
  | alarmFired | commandFinished | commandDisqualified | windowClosed =>
    exact finish_keeps hrelease (.refl ws) _ _ _
  | entityDestroyed h =>
    have herase : KeepsOrder ws { ws with watchers := ws.watchers.erase h } :=
      ⟨OrderedMap.keys_erase_sublist _ _, List.Sublist.refl _, List.Sublist.refl _⟩
    exact releaseEach_keeps hrelease _ herase
  | worldPaused paused => exact ⟨List.Sublist.refl _, List.Sublist.refl _, List.Sublist.refl _⟩

/-! ### Registries with the same waits -/

theorem Finds.get?_congr {κ : Type} [DecidableEq κ] {index₁ index₂ : OrderedMap κ Token}
    {f : Wait → κ} {pending : OrderedMap Token Wait} (h₁ : Finds index₁ f pending)
    (h₂ : Finds index₂ f pending) (k : κ) : index₁.get? k = index₂.get? k :=
  Option.ext fun t => (h₁ k t).trans (h₂ k t).symm

/-- What is left of a registry is known by the waits that are left. -/
theorem Indexed.eq_of_keepsOrder (h₁ : Indexed ws₁) (h₂ : Indexed ws₂)
    (horder₁ : KeepsOrder ws ws₁) (horder₂ : KeepsOrder ws ws₂)
    (hlast : ws₁.lastToken = ws₂.lastToken) (hpending : ws₁.pending = ws₂.pending)
    (hpaused : ws₁.worldPaused = ws₂.worldPaused) : ws₁ = ws₂ := by
  have hwatching : ∀ g, ws₁.watching g = ws₂.watching g := fun g => by
    rw [watching, hpending, watching]
  have hwatchers : ws₁.watchers = ws₂.watchers := by
    refine OrderedMap.ext_of_sublist horder₁.watchers horder₂.watchers fun g => ?_
    rw [h₁.watchers g, h₂.watchers g, hwatching g]
  have hbySite : ws₁.bySite = ws₂.bySite :=
    OrderedMap.ext_of_sublist horder₁.bySite horder₂.bySite
      (h₁.bySite.get?_congr (hpending ▸ h₂.bySite))
  have hbyScript : ws₁.byScript = ws₂.byScript :=
    OrderedMap.ext_of_sublist horder₁.byScript horder₂.byScript
      (h₁.byScript.get?_congr (hpending ▸ h₂.byScript))
  cases ws₁
  cases ws₂
  simp only at hlast hpending hwatchers hbySite hbyScript hpaused
  rw [hlast, hpending, hwatchers, hbySite, hbyScript, hpaused]

/-! ### Two notices -/

/-- Two notices leave the same registry in either order, whatever waits they end. Only of the pause
of the world the later one decides. -/
theorem Indexed.deliver_comm (h : Indexed ws) {n n' : Notice}
    (hpaused : ∀ b b', n = .worldPaused b → n' ≠ .worldPaused b') :
    ((ws.deliver n).2.deliver n').2 = ((ws.deliver n').2.deliver n).2 := by
  obtain ⟨-, hpending, hlast, h₁⟩ := h.deliver n
  obtain ⟨-, hpending', hlast', h₂⟩ := h.deliver n'
  obtain ⟨-, hpending₁, hlast₁, h₁'⟩ := h₁.deliver n'
  obtain ⟨-, hpending₂, hlast₂, h₂'⟩ := h₂.deliver n
  refine h₁'.eq_of_keepsOrder h₂' ((keepsOrder_deliver ws n).trans (keepsOrder_deliver _ n'))
    ((keepsOrder_deliver ws n').trans (keepsOrder_deliver _ n)) ?_ ?_ ?_
  · rw [hlast₁, hlast, hlast₂, hlast']
  · rw [hpending₁, hpending, hpending₂, hpending', OrderedMap.filter_filter,
      OrderedMap.filter_filter]
    congr 1
    funext t x
    exact Bool.and_comm _ _
  · simp only [worldPaused_deliver]
    exact Notice.hears_comm hpaused _

/-- A notice does not miss waits that it does not end. -/
theorem Indexed.wakeups_deliver (h : Indexed ws) {n n' : Notice}
    (hapart : ∀ t x, ws.wait? t = some x → (n.wakeup? t x).isSome → n'.wakeup? t x = none) :
    ((ws.deliver n).2.deliver n').1 = (ws.deliver n').1 := by
  obtain ⟨-, hpending, -, h₁⟩ := h.deliver n
  rw [(h₁.deliver n').1, hpending, (h.deliver n').1, OrderedMap.filter, List.filterMap_filter]
  refine List.filterMap_congr fun e he => ?_
  have hwait : ws.wait? e.1 = some e.2 := OrderedMap.get?_eq_some_iff.2 he
  cases hk : n.wakeup? e.1 e.2 with
  | none => rfl
  | some k => simp [hapart e.1 e.2 hwait (by rw [hk]; rfl)]

end

/-- Two notices that end no wait both return the same wakeups in either order, and leave the same
registry, with its indexes in the same order. -/
theorem independent_notices_commute (calls : List Call) (n n' : Notice)
    (hapart : ∀ t x k k', (history calls {}).2.wait? t = some x → n.Ends t x k → ¬n'.Ends t x k')
    (hpaused : ∀ b b', n = .worldPaused b → n' ≠ .worldPaused b') :
    (((history calls {}).2.deliver n).2.deliver n').1 = ((history calls {}).2.deliver n').1 ∧
      (((history calls {}).2.deliver n').2.deliver n).1 = ((history calls {}).2.deliver n).1 ∧
      (((history calls {}).2.deliver n).2.deliver n').2 =
        (((history calls {}).2.deliver n').2.deliver n).2 := by
  obtain ⟨h, -⟩ := indexed_empty.history calls
  refine ⟨h.wakeups_deliver fun t x hx hk => ?_, h.wakeups_deliver fun t x hx hk => ?_,
    h.deliver_comm hpaused⟩
  · obtain ⟨k, hk⟩ := Option.isSome_iff_exists.1 hk
    rw [Notice.wakeup?_eq_none_iff]
    exact fun k' => hapart t x k k' hx (Notice.wakeup?_eq_some_iff.1 hk)
  · obtain ⟨k', hk'⟩ := Option.isSome_iff_exists.1 hk
    rw [Notice.wakeup?_eq_none_iff]
    exact fun k hn => hapart t x k k' hx hn (Notice.wakeup?_eq_some_iff.1 hk')

def crowded : List Call :=
  [.register ⟨⟨1⟩, 4⟩ .command (some ⟨5⟩) false, .register ⟨⟨2⟩, 4⟩ .command (some ⟨6⟩) true,
    .register ⟨⟨3⟩, 0⟩ .command (some ⟨5⟩) true]

theorem independent_notices_commute_crowded :
    (∀ t x k k', (history crowded {}).2.wait? t = some x →
        (Notice.entityDestroyed ⟨5⟩).Ends t x k →
          ¬(Notice.commandFinished ⟨2⟩ none).Ends t x k') ∧
      (∀ b b', Notice.entityDestroyed ⟨5⟩ = .worldPaused b →
        Notice.commandFinished ⟨2⟩ none ≠ .worldPaused b') ∧
      (((history crowded {}).2.deliver (.commandFinished ⟨2⟩ none)).2.deliver
          (.entityDestroyed ⟨5⟩)).1 = [.resume ⟨1⟩ none, .resume ⟨3⟩ none] ∧
      (((history crowded {}).2.deliver (.entityDestroyed ⟨5⟩)).2.deliver
          (.commandFinished ⟨2⟩ none)).1 = [.resume ⟨2⟩ (some Value.zero)] ∧
      (((history crowded {}).2.deliver (.entityDestroyed ⟨5⟩)).2.deliver
          (.commandFinished ⟨2⟩ none)).2 =
        (((history crowded {}).2.deliver (.commandFinished ⟨2⟩ none)).2.deliver
          (.entityDestroyed ⟨5⟩)).2 := by
  have hwait : (history crowded {}).2.wait? ⟨2⟩ =
      some ⟨⟨2⟩, ⟨⟨2⟩, 4⟩, .command, some ⟨6⟩, true⟩ := by decide
  have hapart : ∀ t x k k', (history crowded {}).2.wait? t = some x →
      (Notice.entityDestroyed ⟨5⟩).Ends t x k →
        ¬(Notice.commandFinished ⟨2⟩ none).Ends t x k' := by
    intro t x k k' hx hk hk'
    cases hk' with
    | command _ =>
      obtain rfl := Option.some.inj (hwait.symm.trans hx)
      cases hk with
      | destroyed hwatched => exact absurd hwatched (by decide)
  have hpaused : ∀ b b', Notice.entityDestroyed ⟨5⟩ = .worldPaused b →
      Notice.commandFinished ⟨2⟩ none ≠ .worldPaused b' := by
    intro b b' hb
    cases hb
  obtain ⟨hfinished, hdestroyed, hsame⟩ :=
    independent_notices_commute crowded _ _ hapart hpaused
  exact ⟨hapart, hpaused, hdestroyed.trans (by decide), hfinished.trans (by decide), hsame⟩

end Waits

end WorldScript
