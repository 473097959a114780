import WorldScript.Execution.Action
import WorldScript.Machine.Unload

/-!
What in the world stands for a token: a request in progress, or a notice nobody has taken yet.
Changes and requests pass a token on from the one to the other, and do not lose it.

Main statements: `keeps_change`, `keeps_issue`, `keeps_withdraw` and `carries_start`.
-/
set_option autoImplicit false

namespace WorldScript.World

/-- The tokens under which the open dialogs and then the fades will report. -/
def windowTokens (w : World) : List Token :=
  w.dialogs.filterMap Dialog.notify ++ w.fades.filterMap Fade.notify

def Rings (w : World) (t : Token) : Prop := t ∈ w.alarms.keys ∨ .alarmFired t ∈ w.notices

def Pursues (w : World) (h : Handle) (t : Token) : Prop :=
  (∃ c, w.commands.get? h = some c ∧ c.notify = some t) ∨
    (∃ result, .commandFinished t result ∈ w.notices) ∨
    (∃ reason, .commandDisqualified t reason ∈ w.notices) ∨
    .entityDestroyed h ∈ w.notices

def Shows (w : World) (t : Token) : Prop :=
  w.windowTokens.count t = 1 ∨ ∃ result, .windowClosed t result ∈ w.notices

/-- Something in the world will end a wait, or has done so unnoticed. -/
def Carries (w : World) (t : Token) (x : Wait) : Prop :=
  match x.kind with
  | .alarm => w.Rings t
  | .command => ∃ h, x.watched = some h ∧ w.Pursues h t
  | .window => w.Shows t

/-- A later world stands for all the tokens an earlier one stood for, and has no other requests,
but for one token that may have been given out or withdrawn. -/
structure KeepsBut (one : Option Token) (w w' : World) : Prop where
  rings : ∀ t, one ≠ some t → w.Rings t → w'.Rings t
  pursues : ∀ t, one ≠ some t → ∀ h, w.Pursues h t → w'.Pursues h t
  shows : ∀ t, one ≠ some t → w.Shows t → w'.Shows t
  alarms : ∀ t, one ≠ some t → t ∈ w'.alarms.keys →
    t ∈ w.alarms.keys ∧ (.alarmFired t ∈ w'.notices → .alarmFired t ∈ w.notices)
  fired : ∀ t, .alarmFired t ∈ w'.notices → .alarmFired t ∈ w.notices ∨ t ∈ w.alarms.keys
  windows : ∀ t, one ≠ some t → t ∈ w'.windowTokens → t ∈ w.windowTokens

abbrev Keeps (w w' : World) : Prop := KeepsBut none w w'

section

variable {one : Option Token} {w w₁ w' : World} {t : Token} {x : Wait}

theorem KeepsBut.carries (k : KeepsBut one w w') (ht : one ≠ some t) (h : w.Carries t x) :
    w'.Carries t x := by
  unfold Carries at h ⊢
  cases hx : x.kind with
  | alarm =>
    simp only [hx] at h
    exact k.rings t ht h
  | command =>
    simp only [hx] at h
    obtain ⟨g, hg, hp⟩ := h
    exact ⟨g, hg, k.pursues t ht g hp⟩
  | window =>
    simp only [hx] at h
    exact k.shows t ht h

theorem Keeps.trans (k : Keeps w w₁) (k' : KeepsBut one w₁ w') : KeepsBut one w w' where
  rings t ht h := k'.rings t ht (k.rings t (by simp) h)
  pursues t ht g h := k'.pursues t ht g (k.pursues t (by simp) g h)
  shows t ht h := k'.shows t ht (k.shows t (by simp) h)
  alarms t ht h := by
    obtain ⟨h₁, hf₁⟩ := k'.alarms t ht h
    obtain ⟨h, hf⟩ := k.alarms t (by simp) h₁
    exact ⟨h, fun hn => hf (hf₁ hn)⟩
  fired t h := by
    rcases k'.fired t h with h₁ | h₁
    · exact k.fired t h₁
    · exact .inr (k.alarms t (by simp) h₁).1
  windows t ht h := k.windows t (by simp) (k'.windows t ht h)

/-- Most of what happens leaves the alarms alone and only adds to the notices. -/
theorem keeps_of_append (more : List Notice) (halarms : w'.alarms = w.alarms)
    (hnotices : w'.notices = w.notices ++ more) (hmore : ∀ t, .alarmFired t ∉ more)
    (hcommands : ∀ t h c, one ≠ some t → w.commands.get? h = some c → c.notify = some t →
      w'.Pursues h t)
    (hshows : ∀ t, one ≠ some t → w.windowTokens.count t = 1 → w'.Shows t)
    (hwindows : ∀ t, one ≠ some t → t ∈ w'.windowTokens → t ∈ w.windowTokens) :
    KeepsBut one w w' := by
  have hsub : ∀ n, n ∈ w.notices → n ∈ w'.notices := by
    intro n hn
    rw [hnotices]
    exact List.mem_append_left _ hn
  have hfired : ∀ t, .alarmFired t ∈ w'.notices → .alarmFired t ∈ w.notices := by
    intro t ht
    rw [hnotices, List.mem_append] at ht
    exact ht.resolve_right (hmore t)
  refine ⟨?_, ?_, ?_, ?_, fun t ht => .inl (hfired t ht), hwindows⟩
  · rintro t - (h | h)
    · exact .inl (halarms ▸ h)
    · exact .inr (hsub _ h)
  · rintro t ht g (⟨c, hc, hn⟩ | ⟨result, h⟩ | ⟨reason, h⟩ | h)
    · exact hcommands t g c ht hc hn
    · exact .inr (.inl ⟨result, hsub _ h⟩)
    · exact .inr (.inr (.inl ⟨reason, hsub _ h⟩))
    · exact .inr (.inr (.inr (hsub _ h)))
  · rintro t ht (h | ⟨result, h⟩)
    · exact hshows t ht h
    · exact .inr ⟨result, hsub _ h⟩
  · rintro t - h
    exact ⟨halarms ▸ h, hfired t⟩

theorem keeps_of_eq (halarms : w'.alarms = w.alarms) (hcommands : w'.commands = w.commands)
    (hdialogs : w'.dialogs = w.dialogs) (hfades : w'.fades = w.fades)
    (hnotices : w'.notices = w.notices) : Keeps w w' := by
  have hwindows : w'.windowTokens = w.windowTokens := by
    simp only [windowTokens, hdialogs, hfades]
  refine keeps_of_append [] halarms (by simp [hnotices]) (by simp) ?_ ?_ ?_
  · intro t h c _ hc hn
    exact .inl ⟨c, hcommands ▸ hc, hn⟩
  · intro t _ h
    exact .inl (hwindows ▸ h)
  · intro t _ h
    exact hwindows ▸ h

theorem Keeps.refl (w : World) : Keeps w w := keeps_of_eq rfl rfl rfl rfl rfl

/-! ### Changes and requests -/

@[simp] theorem alarms_notify (w : World) (token : Option Token) (n : Token → Notice) :
    (w.notify token n).alarms = w.alarms := by cases token <;> rfl

@[simp] theorem commands_notify (w : World) (token : Option Token) (n : Token → Notice) :
    (w.notify token n).commands = w.commands := by cases token <;> rfl

@[simp] theorem windowTokens_notify (w : World) (token : Option Token) (n : Token → Notice) :
    (w.notify token n).windowTokens = w.windowTokens := by cases token <;> rfl

@[simp] theorem notices_notify (w : World) (token : Option Token) (n : Token → Notice) :
    (w.notify token n).notices = w.notices ++ (token.map n).toList := by
  cases token <;> simp [notify, emit]

theorem keeps_destroy (w : World) (h : Handle) : Keeps w (w.destroy h) := by
  unfold destroy
  split
  · refine keeps_of_append [.entityDestroyed h] rfl rfl (by simp) ?_ ?_ ?_
    · intro t g c _ hc hn
      by_cases hg : h = g
      · subst hg
        exact .inr (.inr (.inr (by simp [emit])))
      · exact .inl ⟨c, by simpa [emit, OrderedMap.get?_erase, hg] using hc, hn⟩
    · exact fun t _ ht => .inl ht
    · exact fun t _ ht => ht
  · exact .refl w

theorem keeps_change (w : World) (c : Change) : Keeps w (w.change c) := by
  cases c with
  | destroy h => exact keeps_destroy w h
  | setHitPoints | setWallOpen | setAlignment | startCombat | endCombat | print | message =>
    exact keeps_of_eq rfl rfl rfl rfl rfl

theorem keeps_command (w : World) (actor : Handle) (c : Command) :
    KeepsBut one w (w.command actor c) := by
  refine keeps_of_append _ (alarms_notify _ _ _) (notices_notify _ _ _) ?_ ?_ ?_ ?_
  · intro t
    cases (w.commands.get? actor).bind Command.notify <;> simp
  · intro t h c' _ hc hn
    by_cases ha : actor = h
    · subst ha
      have hprevious : (w.commands.get? actor).bind Command.notify = some t := by simp [hc, hn]
      refine .inr (.inr (.inl ⟨actor.text ++ " received a new command", ?_⟩))
      simp [command, hprevious]
    · refine .inl ⟨c', ?_, hn⟩
      simpa [command, OrderedMap.get?_insert, ha] using hc
  · intro t _ ht
    rw [Shows, command, windowTokens_notify]
    exact .inl ht
  · intro t _ ht
    rw [command, windowTokens_notify] at ht
    exact ht

theorem keeps_open (halarms : w'.alarms = w.alarms) (hcommands : w'.commands = w.commands)
    (hnotices : w'.notices = w.notices)
    (hopen : w'.windowTokens.Perm (one.toList ++ w.windowTokens)) : KeepsBut one w w' := by
  refine keeps_of_append [] halarms (by simp [hnotices]) (by simp) ?_ ?_ ?_
  · intro t h c _ hc hn
    exact .inl ⟨c, hcommands ▸ hc, hn⟩
  · intro t ht h
    have hone : one.toList.count t = 0 := by
      rw [List.count_eq_zero, Option.mem_toList]
      exact ht
    exact .inl (by rw [hopen.count_eq, List.count_append, hone, h])
  · intro t ht h
    rw [hopen.mem_iff, List.mem_append, Option.mem_toList] at h
    exact h.resolve_left ht

theorem keeps_close (closed : List Token) (n : Token → Notice) (halarms : w'.alarms = w.alarms)
    (hcommands : w'.commands = w.commands) (hnotices : w'.notices = w.notices ++ closed.map n)
    (hn : ∀ t, ∃ result, n t = .windowClosed t result)
    (hclosed : w.windowTokens.Perm (closed ++ w'.windowTokens)) : Keeps w w' := by
  refine keeps_of_append _ halarms hnotices ?_ ?_ ?_ ?_
  · intro t ht
    obtain ⟨u, -, hu⟩ := List.mem_map.1 ht
    obtain ⟨result, hr⟩ := hn u
    rw [hr] at hu
    cases hu
  · intro t h c _ hc hc'
    exact .inl ⟨c, hcommands ▸ hc, hc'⟩
  · intro t _ h
    by_cases hm : t ∈ closed
    · obtain ⟨result, hr⟩ := hn t
      refine .inr ⟨result, ?_⟩
      rw [hnotices, List.mem_append, ← hr]
      exact .inr (List.mem_map_of_mem hm)
    · rw [hclosed.count_eq, List.count_append, List.count_eq_zero.2 hm, Nat.zero_add] at h
      exact .inl h
  · intro t _ h
    rw [hclosed.mem_iff]
    exact List.mem_append_right _ h

theorem keeps_issue (w : World) (r : Request) (notify : Option Token) :
    KeepsBut notify w (w.issue r notify) := by
  cases r with
  | walk actor x y => exact keeps_command w actor _
  | strike actor target => exact keeps_command w actor _
  | talk actor text =>
    have hprint : Keeps w (w.print (w.speakerName actor ++ ": " ++ text)) :=
      keeps_of_eq rfl rfl rfl rfl rfl
    exact hprint.trans (keeps_command _ actor _)
  | dialog text =>
    refine keeps_open rfl rfl rfl ?_
    simp only [windowTokens, issue, print, List.filterMap_append]
    cases notify with
    | none => simp
    | some t =>
      simp only [List.filterMap_cons, List.filterMap_nil, List.append_assoc, Option.toList_some,
        List.singleton_append]
      exact List.perm_middle
  | fade seconds =>
    refine keeps_open rfl rfl rfl ?_
    simp only [windowTokens, issue, List.filterMap_append]
    cases notify with
    | none => simp
    | some t =>
      simp only [List.filterMap_cons, List.filterMap_nil, ← List.append_assoc,
        Option.toList_some]
      exact List.perm_append_comm

/-! ### What waits ask for -/

theorem keeps_alarms {alarms : OrderedMap Token Binary32}
    (h : ∀ u, t ≠ u → (u ∈ alarms.keys ↔ u ∈ w.alarms.keys)) :
    KeepsBut (some t) w { w with alarms } where
  rings := by
    rintro u hu (hm | hm)
    · exact .inl ((h u (by simpa using hu)).2 hm)
    · exact .inr hm
  pursues _ _ _ hm := hm
  shows _ _ hm := hm
  alarms := by
    intro u hu hm
    exact ⟨(h u (by simpa using hu)).1 hm, id⟩
  fired _ hm := .inl hm
  windows _ _ hm := hm

theorem keeps_start (w : World) (task : Task) (t : Token) :
    KeepsBut (some t) w (task.start w t) := by
  cases task with
  | alarm seconds =>
    refine keeps_alarms ?_
    intro u hu
    simp [OrderedMap.mem_keys_iff, OrderedMap.get?_insert, hu]
  | request r => exact keeps_issue w r (some t)

theorem pursues_command (w : World) (actor : Handle) (c : Command) (hc : c.notify = some t) :
    (w.command actor c).Pursues actor t :=
  .inl ⟨c, by simp [command, OrderedMap.get?_insert], hc⟩

theorem carries_start (w : World) (task : Task) (t : Token) (site : Site)
    (ht : t ∉ w.windowTokens) :
    (task.start w t).Carries t ⟨site.script, site, task.kind, task.watched, task.pushesResult⟩ := by
  have hcount := List.count_eq_zero.2 ht
  rw [windowTokens, List.count_append] at hcount
  cases task with
  | alarm seconds =>
    refine .inl ?_
    simp [Task.start, setAlarm, OrderedMap.mem_keys_iff, OrderedMap.get?_insert]
  | request r =>
    cases r with
    | walk actor x y | talk actor text | strike actor target =>
      exact ⟨actor, rfl, pursues_command _ actor _ rfl⟩
    | dialog text =>
      refine .inl ?_
      simp only [Task.start, issue, print, windowTokens, List.filterMap_append, List.count_append]
      simp
      omega
    | fade seconds =>
      refine .inl ?_
      simp only [Task.start, issue, windowTokens, List.filterMap_append, List.count_append]
      simp
      omega

theorem mem_alarms_start {task : Task} (h : t ∈ (task.start w t).alarms.keys) :
    task.kind = .alarm ∧ task.watched = none ∨ t ∈ w.alarms.keys := by
  cases task with
  | alarm seconds => exact .inl ⟨rfl, rfl⟩
  | request r =>
    right
    cases r with
    | dialog text | fade seconds => exact h
    | walk | talk | strike =>
      simpa [Task.start, issue, command, print] using h

theorem withoutToken_eq_filter (t : Token) (notify : Option Token) :
    withoutToken t notify = notify.filter fun u => decide (t ≠ u) := by
  cases notify with
  | none => rfl
  | some u =>
    by_cases hu : t = u
    · simp [withoutToken, Option.filter, hu]
    · have hne : ¬u = t := fun he => hu he.symm
      simp [withoutToken, Option.filter, hu, hne]

theorem windowTokens_forget (w : World) (t : Token) :
    (w.forget t).windowTokens = w.windowTokens.filter fun u => decide (t ≠ u) := by
  simp only [windowTokens, forget, List.filterMap_map, List.filter_append, List.filter_filterMap,
    ← withoutToken_eq_filter]
  rfl

theorem keeps_forget (w : World) (t : Token) : KeepsBut (some t) w (w.forget t) := by
  refine keeps_of_append [] rfl (by simp [forget]) (by simp) ?_ ?_ ?_
  · intro u h c hu hc hn
    refine .inl ⟨{ c with notify := withoutToken t c.notify }, ?_, ?_⟩
    · simp [forget, OrderedMap.get?_map, hc]
    · have hne : ¬t = u := by simpa using hu
      simp [withoutToken_eq_filter, hn, hne]
  · intro u hu h
    refine .inl ?_
    rw [windowTokens_forget, List.count_filter (by simpa using hu)]
    exact h
  · intro u _ h
    rw [windowTokens_forget] at h
    exact (List.mem_filter.1 h).1

theorem mem_windowTokens_withdraw {u : Token} {kind : WaitKind}
    (h : u ∈ (Machine.withdraw w t kind).windowTokens) : u ∈ w.windowTokens := by
  cases kind with
  | alarm => exact h
  | command | window =>
    rw [Machine.withdraw, windowTokens_forget] at h
    exact (List.mem_filter.1 h).1

theorem keeps_withdraw (w : World) (t : Token) (kind : WaitKind) :
    KeepsBut (some t) w (Machine.withdraw w t kind) := by
  cases kind with
  | alarm =>
    refine keeps_alarms ?_
    intro u hu
    simp [OrderedMap.mem_keys_iff, OrderedMap.get?_erase, hu]
  | command | window => exact keeps_forget w t

end

end WorldScript.World
