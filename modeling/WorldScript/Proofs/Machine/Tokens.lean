import WorldScript.Proofs.Machine.Deeds
import WorldScript.Proofs.Machine.Teardown

/-!
Tokens are not shared. As long as the host gives none of its own to the world, every token stands
with one request at a time, or with one report on it.

Main statement: `keep_distinct`.
-/
set_option autoImplicit false

namespace WorldScript

namespace World

variable {w : World}

theorem nodup_call (h : w.standing.Nodup) {c : Call} (hc : c.passes = []) :
    (w.call c).standing.Nodup := by
  have hperm := w.standing_call c (by rintro t seconds rfl; cases hc)
  rw [hc, List.nil_append] at hperm
  exact (hperm.nodup_iff.1 h).sublist (List.sublist_append_right _ _)

theorem nodup_withdraw (h : w.standing.Nodup) (t : Token) (kind : WaitKind) :
    (Machine.withdraw w t kind).standing.Nodup := by
  cases kind with
  | alarm => exact nodup_call h (c := .cancelAlarm t) rfl
  | command | window => exact nodup_call h (c := .forget t) rfl

theorem nodup_withdrawEach (h : w.standing.Nodup) (released : List (Token × Wait)) :
    (released.foldl (fun w e => Machine.withdraw w e.1 e.2.kind) w).standing.Nodup := by
  induction released generalizing w with
  | nil => exact h
  | cons e released ih => exact ih (nodup_withdraw h e.1 e.2.kind)

theorem Call.passes_of_isPlain {c : Call} (hc : c.IsPlain) : c.passes = [] := by
  cases c with
  | setAlarm | cancelAlarm | forget | drain => exact hc.elim
  | issue r notify =>
    obtain rfl : notify = none := hc
    rfl
  | _ => rfl

end World

theorem Issued.nodup_start {ws : Waits} {w : World} {t : Token} (h : Issued ws w)
    (hdistinct : w.standing.Nodup) (task : Task) (ht : ws.lastToken < t.index) :
    (task.start w t).standing.Nodup := by
  have hfresh : ∀ k, (k, t) ∉ w.standing := fun k hk => absurd (h.issued k t hk) (by omega)
  have hcons : ((task.kind, t) :: w.standing).Nodup :=
    List.nodup_cons.2 ⟨hfresh task.kind, hdistinct⟩
  have hcall : ∀ c : World.Call, c.passes = [(task.kind, t)] →
      (∀ u seconds, c = .setAlarm u seconds → u ∉ w.alarms.keys) →
      (w.call c).standing.Nodup := by
    intro c hc hset
    have hperm := w.standing_call c hset
    rw [hc, List.singleton_append] at hperm
    exact (hperm.nodup_iff.1 hcons).sublist (List.sublist_append_right _ _)
  cases task with
  | alarm seconds =>
    refine hcall (.setAlarm t seconds) rfl ?_
    rintro u _ ⟨⟩ hmem
    exact hfresh .alarm (List.mem_append_left _ (World.mem_promised.2 hmem))
  | request r => exact hcall (.issue r (some t)) (by cases r <;> rfl) (by simp)

namespace Machine

variable {m : Machine}

theorem nodup_step (id : ScriptId) (h : Issued m.waits m.world)
    (hdistinct : m.world.standing.Nodup) : (m.step id).2.world.standing.Nodup := by
  cases m.effect_step id with
  | kept _ world =>
    rw [world]
    exact hdistinct
  | changed c _ world => exact world ▸ World.nodup_call hdistinct (c := .change c) rfl
  | issued r _ world => exact world ▸ World.nodup_call hdistinct (c := .issue r none) rfl
  | awaited site task t hregister world =>
    obtain ⟨ht, -⟩ := h.indexed.register hregister
    exact world ▸ h.nodup_start hdistinct task (by omega)

theorem keep_distinct : Keep fun m => Issued m.waits m.world ∧ m.world.standing.Nodup where
  spawn m u owner := fun ⟨h, hdistinct⟩ => ⟨keep_issued.spawn m u owner h, hdistinct⟩
  step m id := fun ⟨h, hdistinct⟩ => ⟨keep_issued.step m id h, nodup_step id h hdistinct⟩
  pump m := by
    rintro ⟨h, hdistinct⟩
    refine ⟨keep_issued.pump m h, ?_⟩
    rw [world_pump]
    exact World.nodup_call hdistinct (c := .drain) rfl
  reap m := fun ⟨h, hdistinct⟩ => ⟨keep_issued.reap m h, hdistinct⟩
  unload m id := by
    rintro ⟨h, hdistinct⟩
    refine ⟨keep_issued.unload m id h, ?_⟩
    obtain ⟨-, -, hworld⟩ | ⟨t, x, -, -, -, hworld⟩ := unload_cases h.indexed id
    · exact hworld ▸ hdistinct
    · exact hworld ▸ World.nodup_withdraw hdistinct t x.kind
  shutdown m := fun ⟨h, hdistinct⟩ =>
    ⟨keep_issued.shutdown m h, World.nodup_withdrawEach hdistinct _⟩

theorem Reachable.distinct (h : Reachable .tokenless m) :
    Issued m.waits m.world ∧ m.world.standing.Nodup := by
  refine keep_distinct.reachable ?_ ?_ ?_ h
  · intro worldSettings specs settings seed
    have hnone : (start (World.start worldSettings specs) settings seed).world.standing = [] := rfl
    exact ⟨⟨Waits.indexed_empty, by simp [hnone], by simp [hnone]⟩, by simp [hnone]⟩
  · rintro m w ⟨c, hc, rfl⟩ ⟨hissued, hdistinct⟩
    exact ⟨hissued.call hc, World.nodup_call hdistinct hc⟩
  · rintro m id s t - ht -
    exact False.elim ht

end Machine

end WorldScript
