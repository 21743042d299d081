import Mathlib.Data.List.AList
import Mathlib.Data.List.Basic
import Mathlib.Tactic.Common

/-!
# Maps into finite sets, with an inserting subscript

A hash map whose values are sets is read and written through a subscript that
creates the entry it is asked for.  `SetMap κ α` is the finite map, the sets
being duplicate-free lists; the point of the file is to say which observations
an inserting subscript changes and which it leaves alone.

## Main definitions

* `SetMap.get m k` — the set at `k`, empty when there is no entry.
* `SetMap.subscript m k` — the map after `m[k]`: an empty entry is created when
  there is none.
* `SetMap.insertAt m k a` — the map after `m[k].insert(a)`.
* `SetMap.NoEmpty m` — every entry has a member.
* `SetMap.NodupSets m` — no set holds an element twice.
* `SetMap.rename f g m` — the map with its keys and members renamed.

## Main results

* `SetMap.get_subscript` — a subscript changes no set.
* `SetMap.mem_get_insertAt` — an insertion changes one set by one element.
* `SetMap.mem_get_foldl_insertAt` — what a run of insertions leaves.
* `SetMap.mem_get_rename` — what a renaming leaves.
-/

/-- A fold whose steps all return to the start. -/
theorem List.foldl_eq_self {α β : Type*} {f : α → β → α} {a : α} {l : List β}
    (h : ∀ b ∈ l, f a b = a) : l.foldl f a = a := by
  induction l with
  | nil => rfl
  | cons b l ih =>
    rw [List.foldl_cons, h b List.mem_cons_self]
    exact ih fun c hc => h c (List.mem_cons_of_mem _ hc)

/-- A finite map from keys to finite sets. -/
abbrev SetMap (κ α : Type*) := AList fun _ : κ => List α

namespace SetMap

variable {κ α : Type*}

/-- The number of entries. -/
def size (m : SetMap κ α) : ℕ := m.keys.length

theorem size_eq_zero {m : SetMap κ α} : m.size = 0 ↔ ∀ k, k ∉ m := by
  rw [size, List.length_eq_zero_iff, List.eq_nil_iff_forall_not_mem]
  rfl

/-- The map after `m.clear()`. -/
def clear (_ : SetMap κ α) : SetMap κ α := ∅

/-- The elements of all sets. -/
def values (m : SetMap κ α) : List α := m.entries.flatMap (·.2)

variable [DecidableEq κ]

/-- The set at a key; empty when the map has no entry there. -/
def get (m : SetMap κ α) (k : κ) : List α := (m.lookup k).getD []

/-- The map after `m[k]` has been evaluated. -/
def subscript (m : SetMap κ α) (k : κ) : SetMap κ α :=
  if k ∈ m then m else m.insert k []

/-! ### Missing entries -/

@[simp] theorem get_empty (k : κ) : get (∅ : SetMap κ α) k = [] := rfl

theorem get_eq_nil {m : SetMap κ α} {k : κ} (h : k ∉ m) : m.get k = [] := by
  rw [get, AList.lookup_eq_none.mpr h]
  rfl

theorem mem_of_mem_get {m : SetMap κ α} {k : κ} {a : α} (h : a ∈ m.get k) : k ∈ m := by
  by_contra hk
  rw [get_eq_nil hk] at h
  exact List.not_mem_nil h

theorem mem_values {m : SetMap κ α} {k : κ} {a : α} (h : a ∈ m.get k) : a ∈ m.values := by
  unfold get at h
  cases hk : m.lookup k with
  | none => simp [hk] at h
  | some l =>
    rw [hk] at h
    exact List.mem_flatMap.mpr ⟨⟨k, l⟩, AList.mem_lookup_iff.mp hk, h⟩

/-! ### The subscript -/

@[simp] theorem mem_subscript {m : SetMap κ α} {k k' : κ} :
    k' ∈ m.subscript k ↔ k' = k ∨ k' ∈ m := by
  unfold subscript
  split
  · next h => exact ⟨Or.inr, fun h' => h'.elim (fun e => e ▸ h) id⟩
  · exact AList.mem_insert m

/-- **A subscript changes no set.** -/
@[simp] theorem get_subscript (m : SetMap κ α) (k k' : κ) :
    (m.subscript k).get k' = m.get k' := by
  unfold subscript
  split
  · rfl
  · next h =>
    by_cases hk : k' = k
    · subst hk
      rw [get_eq_nil h, get, AList.lookup_insert]
      rfl
    · rw [get, AList.lookup_insert_ne hk, get]

/-- Reading an entry that is there leaves the map as it is. -/
theorem subscript_of_mem {m : SetMap κ α} {k : κ} (h : k ∈ m) : m.subscript k = m :=
  if_pos h

theorem get_foldl_subscript {β : Type*} (key : β → κ) (l : List β) (m : SetMap κ α) (k : κ) :
    (l.foldl (fun m x => m.subscript (key x)) m).get k = m.get k := by
  induction l generalizing m with
  | nil => rfl
  | cons x l ih => rw [List.foldl_cons, ih, get_subscript]

theorem mem_foldl_subscript {β : Type*} (key : β → κ) (l : List β) (m : SetMap κ α) (k : κ) :
    k ∈ l.foldl (fun m x => m.subscript (key x)) m ↔ (∃ x ∈ l, k = key x) ∨ k ∈ m := by
  induction l generalizing m with
  | nil => simp
  | cons x l ih =>
    rw [List.foldl_cons, ih, mem_subscript]
    simp only [List.mem_cons, exists_eq_or_imp, or_assoc, or_left_comm]

/-! ### Maps without empty entries -/

/-- Every entry has a member. -/
def NoEmpty (m : SetMap κ α) : Prop := ∀ k ∈ m, ∃ a, a ∈ m.get k

/-- The keys of a map without empty entries are the keys with members. -/
theorem NoEmpty.mem_iff {m : SetMap κ α} (h : m.NoEmpty) {k : κ} :
    k ∈ m ↔ ∃ a, a ∈ m.get k := by
  constructor
  · exact h k
  · intro hk
    obtain ⟨a, ha⟩ := hk
    exact mem_of_mem_get ha

theorem noEmpty_empty : NoEmpty (∅ : SetMap κ α) :=
  fun k hk => absurd hk (AList.notMem_empty k)

/-! ### Insertions -/

section

variable [DecidableEq α]

/-- The map after `m[k].insert(a)` has been evaluated. -/
def insertAt (m : SetMap κ α) (k : κ) (a : α) : SetMap κ α :=
  m.insert k (List.insert a (m.get k))

@[simp] theorem mem_insertAt {m : SetMap κ α} {k k' : κ} {a : α} :
    k' ∈ m.insertAt k a ↔ k' = k ∨ k' ∈ m :=
  AList.mem_insert m

/-- **An insertion changes one set by one element.** -/
@[simp] theorem mem_get_insertAt {m : SetMap κ α} {k k' : κ} {a b : α} :
    b ∈ (m.insertAt k a).get k' ↔ k' = k ∧ b = a ∨ b ∈ m.get k' := by
  unfold insertAt
  by_cases hk : k' = k
  · subst hk
    rw [get, AList.lookup_insert, Option.getD_some, List.mem_insert_iff]
    simp
  · rw [get, AList.lookup_insert_ne hk, ← get]
    simp [hk]

theorem mem_foldl_insertAt {β : Type*} (key : β → κ) (val : β → α) (l : List β)
    (m : SetMap κ α) (k : κ) :
    k ∈ l.foldl (fun m x => m.insertAt (key x) (val x)) m ↔
      (∃ x ∈ l, k = key x) ∨ k ∈ m := by
  induction l generalizing m with
  | nil => simp
  | cons x l ih =>
    rw [List.foldl_cons, ih, mem_insertAt]
    simp only [List.mem_cons, exists_eq_or_imp, or_assoc, or_left_comm]

/-- **What a run of insertions leaves**: each set gains the elements inserted
under its key. -/
theorem mem_get_foldl_insertAt {β : Type*} (key : β → κ) (val : β → α) (l : List β)
    (m : SetMap κ α) (k : κ) (a : α) :
    a ∈ (l.foldl (fun m x => m.insertAt (key x) (val x)) m).get k ↔
      (∃ x ∈ l, k = key x ∧ a = val x) ∨ a ∈ m.get k := by
  induction l generalizing m with
  | nil => simp
  | cons x l ih =>
    rw [List.foldl_cons, ih, mem_get_insertAt]
    simp only [List.mem_cons, exists_eq_or_imp, or_assoc, or_left_comm]

theorem NoEmpty.insertAt {m : SetMap κ α} (h : m.NoEmpty) (k : κ) (a : α) :
    (m.insertAt k a).NoEmpty := by
  intro k' hk'
  rcases mem_insertAt.mp hk' with rfl | hk'
  · exact ⟨a, mem_get_insertAt.mpr (Or.inl ⟨rfl, rfl⟩)⟩
  · obtain ⟨b, hb⟩ := h k' hk'
    exact ⟨b, mem_get_insertAt.mpr (Or.inr hb)⟩

theorem NoEmpty.foldl_insertAt {β : Type*} (key : β → κ) (val : β → α) (l : List β)
    {m : SetMap κ α} (h : m.NoEmpty) :
    (l.foldl (fun m x => m.insertAt (key x) (val x)) m).NoEmpty := by
  induction l generalizing m with
  | nil => exact h
  | cons x l ih => exact ih (h.insertAt (key x) (val x))

/-! ### Sets without repetitions -/

omit [DecidableEq α] in
/-- No set holds an element twice. -/
def NodupSets (m : SetMap κ α) : Prop := ∀ k, (m.get k).Nodup

omit [DecidableEq α] in
theorem nodupSets_empty : NodupSets (∅ : SetMap κ α) := by
  intro k
  rw [get_empty]
  exact List.nodup_nil

omit [DecidableEq α] in
theorem NodupSets.subscript {m : SetMap κ α} (h : m.NodupSets) (k : κ) :
    (m.subscript k).NodupSets := by
  intro k'
  rw [get_subscript]
  exact h k'

theorem NodupSets.insertAt {m : SetMap κ α} (h : m.NodupSets) (k : κ) (a : α) :
    (m.insertAt k a).NodupSets := by
  intro k'
  unfold SetMap.insertAt
  by_cases hk : k' = k
  · subst hk
    rw [get, AList.lookup_insert, Option.getD_some]
    exact (h k').insert
  · rw [get, AList.lookup_insert_ne hk, ← get]
    exact h k'

theorem NodupSets.foldl_insertAt {β : Type*} (key : β → κ) (val : β → α) (l : List β)
    {m : SetMap κ α} (h : m.NodupSets) :
    (l.foldl (fun m x => m.insertAt (key x) (val x)) m).NodupSets := by
  induction l generalizing m with
  | nil => exact h
  | cons x l ih => exact ih (h.insertAt (key x) (val x))

end

/-! ### Renaming -/

/-- The keys, each with each of its members. -/
def pairs (m : SetMap κ α) : List (κ × α) := m.keys.flatMap fun k => (m.get k).map (k, ·)

theorem mem_pairs {m : SetMap κ α} {p : κ × α} : p ∈ m.pairs ↔ p.2 ∈ m.get p.1 := by
  unfold pairs
  rw [List.mem_flatMap]
  constructor
  · intro h
    obtain ⟨k, -, hp⟩ := h
    obtain ⟨a, ha, rfl⟩ := List.mem_map.mp hp
    exact ha
  · intro h
    exact ⟨p.1, mem_of_mem_get h, List.mem_map.mpr ⟨p.2, h, rfl⟩⟩

section

variable {κ' α' : Type*} [DecidableEq κ'] [DecidableEq α']

/-- The map with its keys and members renamed.  Keys with one new name share an entry. -/
def rename (f : κ → κ') (g : α → α') (m : SetMap κ α) : SetMap κ' α' :=
  m.pairs.foldl (fun m' p => m'.insertAt (f p.1) (g p.2))
    (m.keys.foldl (fun m' k => m'.subscript (f k)) ∅)

/-- **What a renaming leaves.** -/
theorem mem_get_rename {f : κ → κ'} {g : α → α'} {m : SetMap κ α} {k' : κ'} {a' : α'} :
    a' ∈ (m.rename f g).get k' ↔ ∃ k a, a ∈ m.get k ∧ f k = k' ∧ g a = a' := by
  unfold rename
  rw [mem_get_foldl_insertAt (fun p : κ × α => f p.1) (fun p => g p.2), get_foldl_subscript,
    get_empty]
  constructor
  · intro h
    obtain ⟨p, hp, rfl, rfl⟩ := h.resolve_right List.not_mem_nil
    exact ⟨p.1, p.2, mem_pairs.mp hp, rfl, rfl⟩
  · intro h
    obtain ⟨k, a, ha, rfl, rfl⟩ := h
    exact Or.inl ⟨(k, a), mem_pairs.mpr ha, rfl, rfl⟩

theorem mem_rename {f : κ → κ'} {g : α → α'} {m : SetMap κ α} {k' : κ'} :
    k' ∈ m.rename f g ↔ ∃ k ∈ m, f k = k' := by
  unfold rename
  rw [mem_foldl_insertAt (fun p : κ × α => f p.1) (fun p => g p.2), mem_foldl_subscript]
  constructor
  · rintro (⟨p, hp, rfl⟩ | ⟨k, hk, rfl⟩ | h)
    · exact ⟨p.1, mem_of_mem_get (mem_pairs.mp hp), rfl⟩
    · exact ⟨k, hk, rfl⟩
    · exact absurd h (AList.notMem_empty k')
  · intro h
    obtain ⟨k, hk, rfl⟩ := h
    exact Or.inr (Or.inl ⟨k, hk, rfl⟩)

theorem NoEmpty.rename {m : SetMap κ α} (h : m.NoEmpty) (f : κ → κ') (g : α → α') :
    (m.rename f g).NoEmpty := by
  intro k' hk'
  obtain ⟨k, hk, rfl⟩ := mem_rename.mp hk'
  obtain ⟨a, ha⟩ := h k hk
  exact ⟨g a, mem_get_rename.mpr ⟨k, a, ha, rfl, rfl⟩⟩

end

end SetMap
