import WorldScript.Proofs.Machine.Order
import WorldScript.Proofs.Machine.Safety

/-!
Passes over the scripts of a machine. Scripts are held in the order they were started in, and a tick
gives one slice to each that is running when all notices have been delivered, in this order: no
slice takes the turn of another script from it, or gives it one.

Main statements: `Reachable.ascending` and `each_tick_is_one_pass`.
-/
set_option autoImplicit false

namespace WorldScript.Machine

variable {m m' : Machine} {id : ScriptId}

/-! ### The order of scripts -/

/-- Scripts are held in the order of their numbers. -/
def Ascending (m : Machine) : Prop := m.scripts.keys.Pairwise fun i j => i.index < j.index

theorem Ascending.sublist (h : Ascending m) (hkeys : m'.scripts.keys.Sublist m.scripts.keys) :
    Ascending m' :=
  List.Pairwise.sublist hkeys h

theorem keys_put {s t : Script} (hs : m.script? id = some s)
    (hscripts : m'.scripts = m.scripts.insert id t) : m'.scripts.keys = m.scripts.keys := by
  rw [hscripts, OrderedMap.keys_insert, if_pos (OrderedMap.mem_keys_iff.2 ⟨s, hs⟩)]

theorem Named.keys_step (h : m.Named) (id : ScriptId) :
    (m.step id).2.scripts.keys = m.scripts.keys := by
  obtain he | ⟨s, hs, -, he | ⟨i, s₁, scene, hf, hstays, -, he⟩⟩ := m.step_cases id
  · rw [he]
  · have hid : s.stop.id = id := s.stays_stop.id.trans (h id s hs)
    refine keys_put hs (t := s.stop) ?_
    rw [he, withScript, hid]
  · have hid : scene.script.id = id :=
      hstays.id.trans ((Script.fetch?_eq_some hf).1.trans (h id s hs))
    refine keys_put hs (t := scene.script) ?_
    rw [he]
    simp only [withScene, hid]

theorem Named.keys_wakeEach (h : m.Named) (ks : List Wakeup) (woken : Nat) :
    (wakeEach ks woken m).2.scripts.keys = m.scripts.keys := by
  have hkeeps : (wakeEach ks woken m).2.Named ∧
      (wakeEach ks woken m).2.scripts.keys = m.scripts.keys := by
    refine wakeEach_keeps (P := fun n => n.Named ∧ n.scripts.keys = m.scripts.keys) ?_ ks woken m
      ⟨h, rfl⟩
    rintro n k s hs hpaused ⟨hnamed, hkeys⟩
    have hid : (s.woken k).id = k.script :=
      (Script.stays_woken hpaused k).1.id.trans (hnamed _ s hs)
    refine ⟨hnamed.put _, Eq.trans (keys_put hs (t := s.woken k) ?_) hkeys⟩
    rw [withScript, hid]
  exact hkeeps.2

theorem InOrder.keys_spawn (h : InOrder m) (u : CodeUnit) (owner : Option Handle) :
    (m.spawn u owner).2.scripts.keys = m.scripts.keys ++ [(m.spawn u owner).1] := by
  have hnew : (m.spawn u owner).1 ∉ m.scripts.keys := by
    intro hmem
    obtain ⟨s, hs⟩ := OrderedMap.mem_keys_iff.1 hmem
    exact absurd (h.loaded _ s hs) (Nat.not_succ_le_self _)
  exact (OrderedMap.keys_insert _ _ _).trans (if_neg hnew)

theorem InOrder.ascending_beat (h : InOrder m) (ha : Ascending m) (b : Beat) :
    Ascending (m.beat b) := by
  cases b with
  | spawn u owner =>
    rw [Ascending, Machine.beat, h.keys_spawn u owner, List.pairwise_append]
    refine ⟨ha, List.pairwise_singleton _ _, fun i hi j hj => ?_⟩
    obtain ⟨s, hs⟩ := OrderedMap.mem_keys_iff.1 hi
    obtain rfl := List.mem_singleton.1 hj
    exact Nat.lt_succ_of_le (h.loaded i s hs)
  | step id =>
    rw [Ascending, Machine.beat, h.named.keys_step]
    exact ha
  | deliver n =>
    have hnamed : ({ m with waits := (m.waits.deliver n).2 } : Machine).Named := h.named
    rw [Ascending, Machine.beat, Machine.deliver, hnamed.keys_wakeEach]
    exact ha
  | reap => exact ha.sublist (List.filter_sublist.map Prod.fst)
  | unload id =>
    obtain ⟨waits, world, he⟩ := m.unload_eq id
    rw [Machine.beat, he]
    exact ha.sublist (List.filter_sublist.map Prod.fst)
  | shutdown => exact List.Pairwise.nil
  | world w => exact ha

theorem InOrder.ascending_play (h : InOrder m) (ha : Ascending m) (bs : List Beat) :
    Ascending (m.play bs) := by
  induction bs generalizing m with
  | nil => exact ha
  | cons b bs ih => exact ih (h.beat b) (h.ascending_beat ha b)

theorem Reachable.ascending {host : Host} (hhost : ∀ s t, host.script s t → ∃ c, t = s.call c)
    (h : Reachable host m) : Ascending m := by
  obtain ⟨worldSettings, specs, settings, seed, hrun⟩ := h
  induction hrun with
  | refl => exact List.Pairwise.nil
  | tail hrun hm ih =>
    have hin : InOrder _ := Reachable.inOrder hhost ⟨worldSettings, specs, settings, seed, hrun⟩
    cases hm with
    | operate op =>
      obtain ⟨bs, he⟩ := operate_eq_play _ op
      rw [he]
      exact hin.ascending_play ih bs
    | world w => exact ih
    | script id s t hs =>
      rw [Ascending, keys_put hs rfl]
      exact ih

/-! ### Turns -/

theorem Named.afterRunFor (h : m.Named) (id : ScriptId) (budget : Nat) :
    (runFor id budget m).Named ∧
      ∀ j, j ≠ id → (runFor id budget m).script? j = m.script? j := by
  obtain ⟨k, he⟩ := runFor_eq_play id budget m
  rw [he]
  clear he
  induction k generalizing m with
  | zero => exact ⟨h, fun _ _ => rfl⟩
  | succ k ih =>
    obtain ⟨hnamed, hothers⟩ := ih (h.step id)
    exact ⟨hnamed, fun j hj => (hothers j hj).trans (h.script?_step (Ne.symm hj))⟩

theorem Named.afterRun (h : m.Named) (id : ScriptId) :
    (m.run id).Named ∧ ∀ j, j ≠ id → (m.run id).script? j = m.script? j :=
  h.afterRunFor id m.settings.instructionBudget

theorem Named.isRunning_run (h : m.Named) {j : ScriptId} (hj : j ≠ id) :
    (m.run id).isRunning j = m.isRunning j := by
  rw [isRunning, state?, (h.afterRun id).2 j hj, isRunning, state?]

/-- One slice for each script that is running at the start, none for the others. -/
theorem Named.runEach_eq (h : m.Named) {ids : List ScriptId} (hids : ids.Nodup) (ran : Nat) :
    runEach ids ran m =
      (ran + (ids.filter m.isRunning).length, (ids.filter m.isRunning).foldl Machine.run m) := by
  induction ids generalizing m ran with
  | nil => rfl
  | cons id ids ih =>
    rw [List.nodup_cons] at hids
    by_cases hrunning : m.isRunning id = true
    · have hsame : ids.filter (m.run id).isRunning = ids.filter m.isRunning :=
        List.filter_congr fun j hj => h.isRunning_run fun he => hids.1 (he ▸ hj)
      rw [runEach, if_pos hrunning, ih (h.afterRun id).1 hids.2, hsame,
        List.filter_cons_of_pos hrunning, List.length_cons, List.foldl_cons, Nat.add_assoc,
        Nat.add_comm 1]
    · rw [runEach, if_neg hrunning, ih h hids.2, List.filter_cons_of_neg hrunning]

theorem Named.script?_foldl_run (h : m.Named) {ids : List ScriptId} (hid : id ∉ ids) :
    (ids.foldl Machine.run m).script? id = m.script? id := by
  induction ids generalizing m with
  | nil => rfl
  | cons j ids ih =>
    rw [List.mem_cons, not_or] at hid
    exact (ih (h.afterRun j).1 hid.2).trans ((h.afterRun j).2 id hid.1)

/-- Those whose turn it is in the next tick: all that are running when the notices have been
delivered. -/
def ready (m : Machine) : List ScriptId := m.pump.2.scripts.keys.filter m.pump.2.isRunning

theorem mem_ready : id ∈ m.ready ↔ m.pump.2.state? id = some .running := by
  have hrunning : m.pump.2.isRunning id = true ↔ m.pump.2.state? id = some .running := by
    simp [isRunning]
  rw [ready, List.mem_filter, hrunning]
  refine ⟨And.right, fun h => ⟨?_, h⟩⟩
  obtain ⟨s, hs, -⟩ := Option.map_eq_some_iff.1 h
  exact OrderedMap.mem_keys_iff.2 ⟨s, hs⟩

/-- The scripts that run once the notices are delivered get one slice each, in the order they were
started in, and each is then as the delivery has left it. -/
theorem each_tick_is_one_pass (h : Reachable .calls m) :
    m.scripts.keys.Pairwise (fun i j => i.index < j.index) ∧
      (∀ u owner, (m.spawn u owner).2.scripts.keys = m.scripts.keys ++ [(m.spawn u owner).1]) ∧
      (∀ id j, j ≠ id → (m.run id).script? j = m.script? j) ∧
      m.ready.Pairwise (fun i j => i.index < j.index) ∧
      (∀ id, id ∈ m.ready ↔ m.pump.2.state? id = some .running) ∧
      m.tick = (m.ready.length, m.ready.foldl Machine.run m.pump.2) ∧
      ∀ before id after, m.ready = before ++ id :: after →
        (before.foldl Machine.run m.pump.2).script? id = m.pump.2.script? id := by
  have hhost : ∀ s t, Host.calls.script s t → ∃ c, t = s.call c := fun _ _ hc => hc
  have hin := h.inOrder hhost
  have hpump : Reachable .calls m.pump.2 := h.operate .pump
  have hnamed : m.pump.2.Named := hpump.isNamed
  have hready : m.ready.Pairwise fun i j => i.index < j.index :=
    List.Pairwise.filter _ (hpump.ascending hhost)
  refine ⟨h.ascending hhost, hin.keys_spawn, fun id => (h.isNamed.afterRun id).2, hready,
    fun _ => mem_ready, ?_, ?_⟩
  · have hpass := hnamed.runEach_eq m.pump.2.scripts.keys_nodup 0
    rw [Nat.zero_add] at hpass
    exact hpass
  · intro before id after he
    rw [he, List.pairwise_append] at hready
    refine hnamed.script?_foldl_run fun hid => ?_
    exact absurd (hready.2.2 id hid id (by simp)) (Nat.lt_irrefl _)

def busy : Machine := overdue.operate (.spawn (nap Binary32.one) none)

theorem each_tick_is_one_pass_busy :
    Reachable .calls busy ∧ busy.scripts.keys = [⟨1⟩, ⟨2⟩, ⟨3⟩] ∧
      (busy.run ⟨3⟩).script? ⟨1⟩ = busy.script? ⟨1⟩ ∧ busy.ready = [⟨1⟩, ⟨3⟩] ∧
      busy.tick = (2, (busy.pump.2.run ⟨1⟩).run ⟨3⟩) ∧
      (busy.pump.2.run ⟨1⟩).script? ⟨3⟩ = busy.pump.2.script? ⟨3⟩ := by
  have hoverdue : Reachable .calls overdue := reachable_overdue fun _ => trivial
  have hreachable : Reachable .calls busy := hoverdue.operate (.spawn (nap Binary32.one) none)
  have hready : busy.ready = [⟨1⟩, ⟨3⟩] := by decide
  obtain ⟨-, -, hothers, -, -, htick, hfirst⟩ := each_tick_is_one_pass hreachable
  rw [hready] at htick
  exact ⟨hreachable, by decide, hothers ⟨3⟩ ⟨1⟩ (by decide), hready, htick,
    hfirst [⟨1⟩] ⟨3⟩ [] hready⟩

end WorldScript.Machine
