import WorldScript.Machine.Unload
import WorldScript.Proofs.World.Accounts

/-!
What is withdrawn from the world. Withdrawing what a wait has asked for takes the token of the wait
out of the world, and nothing else.

Main statements: `withdraw_eq` and `withdrawEach_eq`.
-/
set_option autoImplicit false

namespace WorldScript

def Command.without (p : Token → Bool) (c : Command) : Command :=
  { c with notify := c.notify.filter fun t => !p t }

def Dialog.without (p : Token → Bool) (d : Dialog) : Dialog :=
  { d with notify := d.notify.filter fun t => !p t }

def Fade.without (p : Token → Bool) (f : Fade) : Fade :=
  { f with notify := f.notify.filter fun t => !p t }

theorem Command.without_none (c : Command) : c.without (fun _ => false) = c := by
  obtain ⟨errand, notify⟩ := c
  cases notify <;> rfl

theorem Dialog.without_none (d : Dialog) : d.without (fun _ => false) = d := by
  obtain ⟨text, notify⟩ := d
  cases notify <;> rfl

theorem Fade.without_none (f : Fade) : f.without (fun _ => false) = f := by
  obtain ⟨remaining, notify⟩ := f
  cases notify <;> rfl

theorem filter_notify_congr {notify : Option Token} {p q : Token → Bool}
    (h : ∀ t, notify = some t → p t = q t) :
    (notify.filter fun t => !p t) = notify.filter fun t => !q t := by
  cases notify with
  | none => rfl
  | some t => simp [Option.filter, h t rfl]

namespace World

variable {w : World} {p q : WaitKind → Token → Bool} {t : Token}

/-- The world without some of its tokens. Alarms go with their tokens, other requests go on without
them. -/
def without (p : WaitKind → Token → Bool) (w : World) : World :=
  { w with
    alarms := w.alarms.filter fun t _ => !p .alarm t
    commands := w.commands.map fun _ c => c.without (p .command)
    dialogs := w.dialogs.map (Dialog.without (p .window))
    fades := w.fades.map (Fade.without (p .window)) }

theorem carried_without (p : WaitKind → Token → Bool) (w : World) (k : WaitKind) :
    (w.without p).carried k = (w.carried k).filter fun t => !p k t := by
  cases k with
  | alarm =>
    simp [carried, without, OrderedMap.keys, OrderedMap.filter, List.filter_map,
      Function.comp_def]
  | command =>
    simp only [carried, without, OrderedMap.values, OrderedMap.map, List.map_map,
      List.filterMap_map, List.filter_filterMap]
    rfl
  | window =>
    simp only [carried, windowTokens, without, List.filterMap_map, List.filter_append,
      List.filter_filterMap]
    rfl

/-- Only tokens that are carried matter. -/
theorem without_congr (h : ∀ k, ∀ t ∈ w.carried k, p k t = q k t) :
    w.without p = w.without q := by
  have halarms : w.alarms.filter (fun t _ => !p .alarm t) =
      w.alarms.filter fun t _ => !q .alarm t := by
    apply OrderedMap.filter_congr
    intro t seconds ht
    rw [h .alarm t (OrderedMap.mem_keys_iff.2 ⟨seconds, ht⟩)]
  have hcommands : w.commands.map (fun _ c => c.without (p .command)) =
      w.commands.map fun _ c => c.without (q .command) := by
    apply OrderedMap.map_congr
    intro actor c hc
    have hmem : ∀ t, c.notify = some t → t ∈ w.carried .command := fun t ht =>
      List.mem_filterMap.2 ⟨c, List.mem_map_of_mem (OrderedMap.get?_eq_some_iff.1 hc), ht⟩
    simp only [Command.without, filter_notify_congr fun t ht => h .command t (hmem t ht)]
  have hdialogs : w.dialogs.map (Dialog.without (p .window)) =
      w.dialogs.map (Dialog.without (q .window)) := by
    apply List.map_congr_left
    intro d hd
    have hmem : ∀ t, d.notify = some t → t ∈ w.carried .window :=
      fun t ht => List.mem_append_left _ (List.mem_filterMap.2 ⟨d, hd, ht⟩)
    simp only [Dialog.without, filter_notify_congr fun t ht => h .window t (hmem t ht)]
  have hfades : w.fades.map (Fade.without (p .window)) =
      w.fades.map (Fade.without (q .window)) := by
    apply List.map_congr_left
    intro f hf
    have hmem : ∀ t, f.notify = some t → t ∈ w.carried .window :=
      fun t ht => List.mem_append_right _ (List.mem_filterMap.2 ⟨f, hf, ht⟩)
    simp only [Fade.without, filter_notify_congr fun t ht => h .window t (hmem t ht)]
  rw [without, without, halarms, hcommands, hdialogs, hfades]

theorem without_none (w : World) : w.without (fun _ _ => false) = w := by
  have halarms : w.alarms.filter (fun _ _ => true) = w.alarms :=
    OrderedMap.filter_eq_self fun _ _ _ => rfl
  have hcommands : w.commands.map (fun _ c => c.without fun _ => false) = w.commands := by
    apply OrderedMap.ext
    simp [OrderedMap.map, Command.without_none]
  have hdialogs : w.dialogs.map (Dialog.without fun _ => false) = w.dialogs :=
    (List.map_congr_left fun d _ => d.without_none).trans (List.map_id _)
  have hfades : w.fades.map (Fade.without fun _ => false) = w.fades :=
    (List.map_congr_left fun f _ => f.without_none).trans (List.map_id _)
  simp only [without, Bool.not_false, halarms, hcommands, hdialogs, hfades]

theorem without_without (p q : WaitKind → Token → Bool) (w : World) :
    (w.without p).without q = w.without fun k t => p k t || q k t := by
  simp [without, OrderedMap.filter_filter, OrderedMap.map, Bool.and_comm, Command.without,
    Dialog.without, Fade.without, Function.comp_def]

theorem without_eq_self (h : ∀ k, ∀ t ∈ w.carried k, p k t = false) : w.without p = w :=
  (without_congr h).trans w.without_none

/-! ### Withdrawing -/

theorem cancelAlarm_eq (w : World) (t : Token) :
    w.cancelAlarm t = w.without fun k u => decide (k = .alarm ∧ u = t) := by
  have hcommands : w.commands.map (fun _ c => c.without fun _ => false) = w.commands :=
    congrArg World.commands w.without_none
  have hdialogs : w.dialogs.map (Dialog.without fun _ => false) = w.dialogs :=
    congrArg World.dialogs w.without_none
  have hfades : w.fades.map (Fade.without fun _ => false) = w.fades :=
    congrArg World.fades w.without_none
  simp [cancelAlarm, without, OrderedMap.erase_eq_filter, hcommands, hdialogs, hfades]

theorem forget_eq (w : World) (t : Token) :
    w.forget t = w.without fun k u => decide (k ≠ .alarm ∧ u = t) := by
  have halarms : w.alarms.filter (fun _ _ => true) = w.alarms :=
    congrArg World.alarms w.without_none
  have hnotify : ∀ notify : Option Token,
      withoutToken t notify = notify.filter fun u => !decide (u = t) := by
    intro notify
    simp [withoutToken_eq_filter, eq_comm]
  simp [forget, without, halarms, hnotify, Command.without, Dialog.without, Fade.without]

theorem withdraw_eq_without (w : World) (t : Token) (kind : WaitKind) :
    Machine.withdraw w t kind =
      w.without fun k u => decide ((k = .alarm ↔ kind = .alarm) ∧ u = t) := by
  cases kind with
  | alarm => simp [Machine.withdraw, cancelAlarm_eq]
  | command | window => simp [Machine.withdraw, forget_eq]

/-- A token that is carried by requests of one kind only is withdrawn from the whole world. -/
theorem withdraw_eq {kind : WaitKind} (h : ∀ k, t ∈ w.carried k → k = kind) :
    Machine.withdraw w t kind = w.without fun _ u => decide (u = t) := by
  rw [withdraw_eq_without]
  apply without_congr
  intro k u hu
  by_cases ht : u = t
  · subst ht
    simp [h k hu]
  · simp [ht]

theorem carried_withdraw {kind k : WaitKind} {u : Token}
    (h : u ∈ (Machine.withdraw w t kind).carried k) : u ∈ w.carried k := by
  rw [withdraw_eq_without, carried_without] at h
  exact (List.mem_filter.1 h).1

theorem withdrawEach_eq (l : List (Token × Wait))
    (h : ∀ e ∈ l, ∀ k, e.1 ∈ w.carried k → k = e.2.kind) :
    l.foldl (fun w e => Machine.withdraw w e.1 e.2.kind) w =
      w.without fun _ u => decide (u ∈ l.map Prod.fst) := by
  induction l generalizing w with
  | nil => simp [without_none]
  | cons e l ih =>
    have hfirst := withdraw_eq (h e (by simp))
    have hrest : ∀ d ∈ l, ∀ k, d.1 ∈ (Machine.withdraw w e.1 e.2.kind).carried k → k = d.2.kind :=
      fun d hd k ht => h d (List.mem_cons_of_mem _ hd) k (carried_withdraw ht)
    rw [List.foldl_cons, ih hrest, hfirst, without_without]
    simp only [List.map_cons, List.mem_cons, Bool.decide_or]

end World

end WorldScript
