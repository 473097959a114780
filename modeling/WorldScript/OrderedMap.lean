/-!
Finite maps that remember the order in which their keys arrived. Writing to a key that is
present keeps its place; taking a key out leaves the others in order. Every operation is
described by what it does to `keys` and to `get?`.
-/
set_option autoImplicit false

namespace WorldScript

/-- Entries in order of arrival, no key twice. -/
structure OrderedMap (κ α : Type) where
  entries : List (κ × α)
  distinct : (entries.map Prod.fst).Nodup

namespace OrderedMap

variable {κ α : Type}

theorem ext {m n : OrderedMap κ α} (h : m.entries = n.entries) : m = n := by
  cases m; cases n; cases h; rfl

def empty : OrderedMap κ α := ⟨[], List.nodup_nil⟩

instance : Inhabited (OrderedMap κ α) := ⟨empty⟩

def keys (m : OrderedMap κ α) : List κ := m.entries.map Prod.fst

def values (m : OrderedMap κ α) : List α := m.entries.map Prod.snd

def size (m : OrderedMap κ α) : Nat := m.entries.length

def isEmpty (m : OrderedMap κ α) : Bool := m.entries.isEmpty

theorem keys_nodup (m : OrderedMap κ α) : m.keys.Nodup := m.distinct

theorem size_eq_length_keys (m : OrderedMap κ α) : m.size = m.keys.length := by
  simp [size, keys]

section Search

variable [DecidableEq κ]

def find (k : κ) : List (κ × α) → Option α
  | [] => none
  | (j, a) :: rest => if j = k then some a else find k rest

/-- Write `a` beside `k`: in place if `k` is there, at the end if it is not. -/
def write (k : κ) (a : α) : List (κ × α) → List (κ × α)
  | [] => [(k, a)]
  | (j, b) :: rest => if j = k then (k, a) :: rest else (j, b) :: write k a rest

theorem map_fst_write (k : κ) (a : α) (l : List (κ × α)) :
    (write k a l).map Prod.fst =
      if k ∈ l.map Prod.fst then l.map Prod.fst else l.map Prod.fst ++ [k] := by
  induction l with
  | nil => simp [write]
  | cons e l ih =>
    obtain ⟨j, b⟩ := e
    by_cases h : j = k
    · simp [write, h]
    · have hk : ¬k = j := fun e => h e.symm
      simp only [write, h, if_false, List.map_cons, ih, List.mem_cons, hk, false_or]
      split <;> simp

theorem nodup_write {k : κ} {a : α} {l : List (κ × α)} (h : (l.map Prod.fst).Nodup) :
    ((write k a l).map Prod.fst).Nodup := by
  rw [map_fst_write]
  split
  · exact h
  · rename_i hk
    rw [List.nodup_append]
    refine ⟨h, by simp, ?_⟩
    intro x hx y hy e
    simp only [List.mem_singleton] at hy
    exact hk (hy ▸ e ▸ hx)

def get? (m : OrderedMap κ α) (k : κ) : Option α := find k m.entries

def contains (m : OrderedMap κ α) (k : κ) : Bool := (m.get? k).isSome

def insert (m : OrderedMap κ α) (k : κ) (a : α) : OrderedMap κ α :=
  ⟨write k a m.entries, nodup_write m.distinct⟩

def erase (m : OrderedMap κ α) (k : κ) : OrderedMap κ α :=
  ⟨m.entries.filter (fun e => decide (e.1 ≠ k)),
    m.distinct.sublist (List.filter_sublist.map Prod.fst)⟩

/-- Later entries win, at the place of the first one with their key. -/
def ofList (l : List (κ × α)) : OrderedMap κ α :=
  l.foldl (fun m e => m.insert e.1 e.2) empty

end Search

def filter (p : κ → α → Bool) (m : OrderedMap κ α) : OrderedMap κ α :=
  ⟨m.entries.filter (fun e => p e.1 e.2),
    m.distinct.sublist (List.filter_sublist.map Prod.fst)⟩

def map (f : κ → α → α) (m : OrderedMap κ α) : OrderedMap κ α :=
  ⟨m.entries.map (fun e => (e.1, f e.1 e.2)), by
    have h : (m.entries.map (fun e => (e.1, f e.1 e.2))).map Prod.fst = m.entries.map Prod.fst := by
      simp [Function.comp_def]
    rw [h]; exact m.distinct⟩

@[simp] theorem keys_map (f : κ → α → α) (m : OrderedMap κ α) : (m.map f).keys = m.keys := by
  simp [keys, map, Function.comp_def]

theorem filter_filter (p q : κ → α → Bool) (m : OrderedMap κ α) :
    (m.filter p).filter q = m.filter fun k a => q k a && p k a := by
  apply ext
  simp [filter, List.filter_filter]

theorem filter_map (f : κ → α → α) (p : κ → α → Bool) (m : OrderedMap κ α) :
    (m.map f).filter p = (m.filter fun k a => p k (f k a)).map f := by
  apply ext
  simp [filter, map, List.filter_map, Function.comp_def]

@[simp] theorem keys_empty : (empty : OrderedMap κ α).keys = [] := rfl

section Laws

variable [DecidableEq κ]

def modify (k : κ) (f : α → α) (m : OrderedMap κ α) : OrderedMap κ α :=
  m.map (fun j a => if j = k then f a else a)

@[simp] theorem keys_modify (k : κ) (f : α → α) (m : OrderedMap κ α) :
    (m.modify k f).keys = m.keys := keys_map _ m

theorem find_eq_none_iff {k : κ} {l : List (κ × α)} :
    find k l = none ↔ k ∉ l.map Prod.fst := by
  induction l with
  | nil => simp [find]
  | cons e l ih =>
    obtain ⟨j, b⟩ := e
    by_cases h : j = k
    · simp [find, h]
    · have hk : ¬k = j := fun e => h e.symm
      simpa [find, h, hk] using ih

theorem find_write (k j : κ) (a : α) (l : List (κ × α)) :
    find j (write k a l) = if k = j then some a else find j l := by
  induction l with
  | nil => simp [find, write]
  | cons e l ih =>
    obtain ⟨i, b⟩ := e
    by_cases hi : i = k
    · by_cases hk : k = j <;> simp [find, write, hi, hk]
    · grind [find, write]

@[simp] theorem get?_empty (k : κ) : (empty : OrderedMap κ α).get? k = none := rfl

theorem get?_eq_none_iff {m : OrderedMap κ α} {k : κ} : m.get? k = none ↔ k ∉ m.keys :=
  find_eq_none_iff

theorem contains_iff_mem_keys {m : OrderedMap κ α} {k : κ} :
    m.contains k = true ↔ k ∈ m.keys := by
  unfold contains
  cases h : m.get? k with
  | none => simpa using get?_eq_none_iff.1 h
  | some a =>
    have : ¬(k ∉ m.keys) := fun hn => by rw [get?_eq_none_iff.2 hn] at h; simp at h
    simpa using this

theorem get?_insert (m : OrderedMap κ α) (k j : κ) (a : α) :
    (m.insert k a).get? j = if k = j then some a else m.get? j :=
  find_write k j a m.entries

theorem keys_insert (m : OrderedMap κ α) (k : κ) (a : α) :
    (m.insert k a).keys = if k ∈ m.keys then m.keys else m.keys ++ [k] :=
  map_fst_write k a m.entries

theorem find_filter_ne (k j : κ) (l : List (κ × α)) :
    find j (l.filter (fun e => decide (e.1 ≠ k))) = if k = j then none else find j l := by
  induction l with
  | nil => simp [find]
  | cons e l ih => grind [find]

theorem get?_erase (m : OrderedMap κ α) (k j : κ) :
    (m.erase k).get? j = if k = j then none else m.get? j :=
  find_filter_ne k j m.entries

theorem keys_erase (m : OrderedMap κ α) (k : κ) :
    (m.erase k).keys = m.keys.filter (fun j => decide (j ≠ k)) := by
  simp [keys, erase, List.filter_map, Function.comp_def]

theorem keys_erase_sublist (m : OrderedMap κ α) (k : κ) : (m.erase k).keys.Sublist m.keys := by
  rw [keys_erase]
  exact List.filter_sublist

theorem find_map (f : κ → α → α) (k : κ) (l : List (κ × α)) :
    find k (l.map (fun e => (e.1, f e.1 e.2))) = (find k l).map (f k) := by
  induction l with
  | nil => rfl
  | cons e l ih =>
    obtain ⟨j, b⟩ := e
    by_cases h : j = k
    · simp [find, h]
    · simpa [find, h] using ih

theorem get?_map (f : κ → α → α) (m : OrderedMap κ α) (k : κ) :
    (m.map f).get? k = (m.get? k).map (f k) :=
  find_map f k m.entries

theorem get?_modify (m : OrderedMap κ α) (k j : κ) (f : α → α) :
    (m.modify k f).get? j = if j = k then (m.get? j).map f else m.get? j := by
  unfold modify
  rw [get?_map]
  by_cases h : j = k <;> simp [h]

theorem find_eq_some_of_mem {k : κ} {a : α} {l : List (κ × α)}
    (hd : (l.map Prod.fst).Nodup) (h : (k, a) ∈ l) : find k l = some a := by
  induction l with
  | nil => simp at h
  | cons e l ih =>
    obtain ⟨j, b⟩ := e
    simp only [List.map_cons, List.nodup_cons] at hd
    rcases List.mem_cons.1 h with h | h
    · cases h; simp [find]
    · have hj : ¬j = k := fun e => hd.1 (e ▸ List.mem_map_of_mem (f := Prod.fst) h)
      simp [find, hj, ih hd.2 h]

theorem mem_of_find_eq_some {k : κ} {a : α} {l : List (κ × α)} (h : find k l = some a) :
    (k, a) ∈ l := by
  induction l with
  | nil => simp [find] at h
  | cons e l ih =>
    obtain ⟨j, b⟩ := e
    by_cases hj : j = k
    · simp [find, hj] at h; simp [hj, h]
    · simp [find, hj] at h; exact List.mem_cons_of_mem _ (ih h)

theorem get?_eq_some_iff {m : OrderedMap κ α} {k : κ} {a : α} :
    m.get? k = some a ↔ (k, a) ∈ m.entries :=
  ⟨mem_of_find_eq_some, find_eq_some_of_mem m.distinct⟩

theorem mem_keys_iff {m : OrderedMap κ α} {k : κ} : k ∈ m.keys ↔ ∃ a, m.get? k = some a := by
  rw [← contains_iff_mem_keys, contains, Option.isSome_iff_exists]

theorem entries_eq (m : OrderedMap κ α) :
    m.entries.map some = m.keys.map fun k => (m.get? k).map fun a => (k, a) := by
  rw [keys, List.map_map]
  refine List.map_congr_left fun e he => ?_
  have hget : m.get? e.1 = some e.2 := get?_eq_some_iff.2 he
  simp only [Function.comp_apply, hget, Option.map_some]

theorem ext_get? {m n : OrderedMap κ α} (hkeys : m.keys = n.keys)
    (hget : ∀ k, m.get? k = n.get? k) : m = n := by
  apply ext
  rw [← List.map_inj_right fun _ _ => Option.some.inj, entries_eq m, entries_eq n, hkeys]
  simp only [hget]

theorem filter_mem_of_sublist {l l' : List κ} (h : l'.Sublist l) (hl : l.Nodup) :
    l.filter (fun k => decide (k ∈ l')) = l' := by
  induction h with
  | slnil => rfl
  | @cons l' l k h ih =>
    obtain ⟨hk, hl⟩ := List.nodup_cons.1 hl
    have hk' : k ∉ l' := fun hmem => hk (h.subset hmem)
    simp only [List.filter_cons, hk', decide_false, Bool.false_eq_true, if_false, ih hl]
  | @cons_cons l' l k h ih =>
    obtain ⟨hk, hl⟩ := List.nodup_cons.1 hl
    have hsame : l.filter (fun j => decide (j ∈ k :: l')) = l.filter fun j => decide (j ∈ l') := by
      apply List.filter_congr
      intro j hj
      have hne : j ≠ k := fun he => hk (he ▸ hj)
      simp [hne]
    simp only [List.filter_cons, List.mem_cons_self, decide_true, if_true]
    rw [hsame, ih hl]

theorem ext_of_sublist {m n o : OrderedMap κ α} (hm : m.keys.Sublist o.keys)
    (hn : n.keys.Sublist o.keys) (hget : ∀ k, m.get? k = n.get? k) : m = n := by
  refine ext_get? ?_ hget
  rw [← filter_mem_of_sublist hm o.keys_nodup, ← filter_mem_of_sublist hn o.keys_nodup]
  apply List.filter_congr
  intro k _
  rw [decide_eq_decide, mem_keys_iff, mem_keys_iff, hget]

theorem entries_insert_of_notMem {m : OrderedMap κ α} {k : κ} (h : k ∉ m.keys) (a : α) :
    (m.insert k a).entries = m.entries ++ [(k, a)] := by
  obtain ⟨l, hl⟩ := m
  simp only [keys] at h
  simp only [insert]
  clear hl
  induction l with
  | nil => rfl
  | cons e l ih =>
    simp only [List.map_cons, List.mem_cons, not_or] at h
    have hj : ¬e.1 = k := fun he => h.1 he.symm
    simp [write, hj, ih h.2]

theorem get?_filter (p : κ → α → Bool) (m : OrderedMap κ α) (k : κ) :
    (m.filter p).get? k = (m.get? k).filter (p k) := by
  apply Option.ext
  intro a
  rw [get?_eq_some_iff, Option.filter_eq_some_iff, get?_eq_some_iff]
  simp [filter, and_comm]

theorem mem_keys_filter {p : κ → α → Bool} {m : OrderedMap κ α} {k : κ} :
    k ∈ (m.filter p).keys ↔ ∃ a, m.get? k = some a ∧ p k a = true := by
  simp [mem_keys_iff, get?_filter, Option.filter_eq_some_iff]

theorem erase_eq_filter (m : OrderedMap κ α) (k : κ) :
    m.erase k = m.filter fun j _ => decide (j ≠ k) := rfl

theorem filter_congr {p q : κ → α → Bool} {m : OrderedMap κ α}
    (h : ∀ k a, m.get? k = some a → p k a = q k a) : m.filter p = m.filter q := by
  apply ext
  apply List.filter_congr
  intro e he
  exact h e.1 e.2 (get?_eq_some_iff.2 he)

theorem map_congr {f g : κ → α → α} {m : OrderedMap κ α}
    (h : ∀ k a, m.get? k = some a → f k a = g k a) : m.map f = m.map g := by
  apply ext
  apply List.map_congr_left
  intro e he
  rw [h e.1 e.2 (get?_eq_some_iff.2 he)]

theorem modify_congr {f g : α → α} {m : OrderedMap κ α} {k : κ}
    (h : ∀ a, m.get? k = some a → f a = g a) : m.modify k f = m.modify k g := by
  apply map_congr
  intro j a ha
  split
  case isTrue hj => exact h a (hj ▸ ha)
  case isFalse => rfl

theorem filter_eq_self {p : κ → α → Bool} {m : OrderedMap κ α}
    (h : ∀ k a, m.get? k = some a → p k a = true) : m.filter p = m := by
  apply ext
  apply List.filter_eq_self.2
  intro e he
  exact h e.1 e.2 (get?_eq_some_iff.2 he)

theorem erase_eq_self {m : OrderedMap κ α} {k : κ} (h : m.get? k = none) : m.erase k = m := by
  rw [erase_eq_filter]
  apply filter_eq_self
  intro j a hj
  have hne : j ≠ k := fun he => by simp [he, h] at hj
  simp [hne]

theorem write_map (f : κ → α → α) (k : κ) (a : α) (l : List (κ × α)) :
    write k (f k a) (l.map fun e => (e.1, f e.1 e.2)) =
      (write k a l).map fun e => (e.1, f e.1 e.2) := by
  induction l with
  | nil => rfl
  | cons e l ih =>
    obtain ⟨j, b⟩ := e
    by_cases hj : j = k
    · simp [write, hj]
    · simp [write, hj, ih]

theorem insert_map (f : κ → α → α) (m : OrderedMap κ α) (k : κ) (a : α) :
    (m.map f).insert k (f k a) = (m.insert k a).map f := ext (write_map f k a m.entries)

theorem erase_map (f : κ → α → α) (m : OrderedMap κ α) (k : κ) :
    (m.map f).erase k = (m.erase k).map f := filter_map f (fun j _ => decide (j ≠ k)) m

/-- A search of the entries that looks at one key only sees what is written there. -/
theorem filterMap_entries_at {β : Type} (m : OrderedMap κ α) (k : κ) (f : α → Option β) :
    m.entries.filterMap (fun e => if k = e.1 then f e.2 else none) =
      ((m.get? k).bind f).toList := by
  obtain ⟨l, hl⟩ := m
  simp only [get?]
  induction l with
  | nil => rfl
  | cons e l ih =>
    simp only [List.map_cons, List.nodup_cons] at hl
    by_cases hk : k = e.1
    · have hn : find k l = none := find_eq_none_iff.2 (hk ▸ hl.1)
      have hs := ih hl.2
      rw [hn] at hs
      subst hk
      cases hf : f e.2 <;> simp [find, hf, hs]
    · have hj : ¬e.1 = k := fun he => hk he.symm
      simp [find, hk, hj, ih hl.2]

end Laws

end OrderedMap

end WorldScript
