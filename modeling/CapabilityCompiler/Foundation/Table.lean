import Mathlib.Data.List.Forall2
import Mathlib.Data.List.Basic

/-! Tables: bindings of keys in the order of their insertion, at most one for each key. -/
namespace CapabilityCompiler.Foundation

/-- Keys with their values, as a dictionary lists them. -/
abbrev Table (κ α : Type) := List (κ × α)

namespace Table
variable {κ α β : Type}

/-- Replace every value. -/
def mapValues (f : α → β) (table : Table κ α) : Table κ β := table.map fun p => (p.1, f p.2)

@[simp] theorem length_mapValues (f : α → β) (table : Table κ α) :
    (mapValues f table).length = table.length := by
  simp [mapValues]

@[simp] theorem mapValues_id (table : Table κ α) : mapValues id table = table :=
  List.map_id table

/-- Both tables bind the same keys in the same order, to related values. -/
def Matches (r : α → β → Prop) (first : Table κ α) (second : Table κ β) : Prop :=
  List.Forall₂ (fun p q => p.1 = q.1 ∧ r p.2 q.2) first second

theorem Matches.length_eq {r : α → β → Prop} {first : Table κ α} {second : Table κ β}
    (h : Matches r first second) : first.length = second.length :=
  List.Forall₂.length_eq h

theorem Matches.mapValues {γ δ : Type} {r : α → β → Prop} {first : Table κ α}
    {second : Table κ β} {r' : γ → δ → Prop} {f : α → γ} {g : β → δ}
    (h : Matches r first second) (hr : ∀ a b, r a b → r' (f a) (g b)) :
    Matches r' (mapValues f first) (mapValues g second) := by
  induction h with
  | nil => exact .nil
  | cons hpq _ ih => exact .cons ⟨hpq.1, hr _ _ hpq.2⟩ ih

/-- The keys of a table are bound once each. -/
def Unique (table : Table κ α) : Prop := (table.map Prod.fst).Nodup

theorem Unique.mapValues {table : Table κ α} (h : Unique table) (f : α → β) :
    Unique (mapValues f table) := by
  have hkeys : (Table.mapValues f table).map Prod.fst = table.map Prod.fst := by
    simp [Table.mapValues]
  unfold Unique
  rw [hkeys]
  exact h

theorem Unique.filter {table : Table κ α} (h : Unique table) (p : κ × α → Bool) :
    Unique (table.filter p) :=
  List.Nodup.sublist (List.filter_sublist.map Prod.fst) h

section Lookup
variable [DecidableEq κ]

def get? (key : κ) : Table κ α → Option α
  | [] => none
  | (k, value) :: rest => if k = key then some value else get? key rest

/-- Assign to a key: its place is kept, a new key comes last. -/
def put (key : κ) (value : α) : Table κ α → Table κ α
  | [] => [(key, value)]
  | (k, v) :: rest => if k = key then (k, value) :: rest else (k, v) :: put key value rest

def erase (key : κ) (table : Table κ α) : Table κ α := table.filter (·.1 ≠ key)

@[simp] theorem get?_nil (key : κ) : get? key ([] : Table κ α) = none := rfl

@[simp] theorem get?_cons (key k : κ) (value : α) (rest : Table κ α) :
    get? key ((k, value) :: rest) = if k = key then some value else get? key rest := rfl

@[simp] theorem get?_put_self (key : κ) (value : α) (table : Table κ α) :
    get? key (put key value table) = some value := by
  induction table with
  | nil => simp [put]
  | cons p rest ih =>
    obtain ⟨k, v⟩ := p
    rw [put]
    split
    · rename_i hk
      simp [hk]
    · rename_i hk
      rw [get?_cons, if_neg hk, ih]

theorem get?_put_of_ne {key other : κ} (h : other ≠ key) (value : α) (table : Table κ α) :
    get? other (put key value table) = get? other table := by
  induction table with
  | nil => simp [put, h.symm]
  | cons p rest ih =>
    obtain ⟨k, v⟩ := p
    rw [put]
    split
    · rename_i hk
      have hother : k ≠ other := fun heq => h (heq.symm.trans hk)
      rw [get?_cons, get?_cons, if_neg hother, if_neg hother]
    · rw [get?_cons, get?_cons, ih]

theorem get?_put (key other : κ) (value : α) (table : Table κ α) :
    get? other (put key value table) = if other = key then some value else get? other table := by
  split
  · rename_i h
    rw [h, get?_put_self]
  · rename_i h
    exact get?_put_of_ne h value table

/-- Assigning what is there changes nothing. -/
theorem put_of_get? {key : κ} {value : α} {table : Table κ α} (h : get? key table = some value) :
    put key value table = table := by
  induction table with
  | nil => simp at h
  | cons p rest ih =>
    obtain ⟨k, v⟩ := p
    rw [get?_cons] at h
    rw [put]
    split at h
    · rename_i hk
      rw [if_pos hk, Option.some.inj h]
    · rename_i hk
      rw [if_neg hk, ih h]

theorem length_put_of_get? {key : κ} {found : α} {table : Table κ α}
    (h : get? key table = some found) (value : α) : (put key value table).length = table.length := by
  induction table with
  | nil => simp at h
  | cons p rest ih =>
    obtain ⟨k, v⟩ := p
    rw [get?_cons] at h
    rw [put]
    split at h
    · rename_i hk
      rw [if_pos hk, List.length_cons, List.length_cons]
    · rename_i hk
      rw [if_neg hk, List.length_cons, List.length_cons, ih h]

@[simp] theorem get?_mapValues (f : α → β) (key : κ) (table : Table κ α) :
    get? key (mapValues f table) = (get? key table).map f := by
  induction table with
  | nil => rfl
  | cons p rest ih =>
    obtain ⟨k, v⟩ := p
    have hrest : get? key (List.map (fun p => (p.1, f p.2)) rest) = (get? key rest).map f := ih
    simp only [mapValues, List.map_cons, get?_cons, hrest]
    split
    · rfl
    · rfl

theorem get?_erase_self (key : κ) (table : Table κ α) : get? key (erase key table) = none := by
  induction table with
  | nil => rfl
  | cons p rest ih =>
    obtain ⟨k, v⟩ := p
    by_cases hk : k = key
    · simpa [erase, hk] using ih
    · simpa [erase, hk] using ih

theorem get?_erase_of_ne {key other : κ} (h : other ≠ key) (table : Table κ α) :
    get? other (erase key table) = get? other table := by
  induction table with
  | nil => rfl
  | cons p rest ih =>
    obtain ⟨k, v⟩ := p
    by_cases hk : k = key
    · have hother : k ≠ other := fun heq => h (heq.symm.trans hk)
      simpa [erase, hk, hk ▸ hother, hother] using ih
    · have hkept : erase key ((k, v) :: rest) = (k, v) :: erase key rest := by
        simp [erase, hk]
      rw [hkept, get?_cons, get?_cons, ih]

theorem mem_of_get? {key : κ} {value : α} {table : Table κ α} (h : get? key table = some value) :
    (key, value) ∈ table := by
  induction table with
  | nil => simp at h
  | cons p rest ih =>
    obtain ⟨k, v⟩ := p
    rw [get?_cons] at h
    split at h
    · rename_i hk
      rw [Option.some.injEq] at h
      subst hk h
      exact List.mem_cons_self
    · exact List.mem_cons_of_mem _ (ih h)

/-- Erasing one key after the other keeps the bindings of all others. -/
theorem filter_erase (key : κ) (keys : List κ) (table : Table κ α) :
    (erase key table).filter (fun entry => decide (entry.1 ∉ keys)) =
      table.filter fun entry => decide (entry.1 ∉ key :: keys) := by
  rw [erase, List.filter_filter]
  refine List.filter_congr fun entry _ => ?_
  by_cases hkey : entry.1 = key
  · simp [hkey]
  · simp [hkey]

/-! Tables whose keys are bound once. -/

/-- The bindings of the keys that satisfy a test. -/
theorem get?_filter (p : κ → Bool) (key : κ) (table : Table κ α) :
    get? key (table.filter fun entry => p entry.1) = if p key then get? key table else none := by
  induction table with
  | nil => simp
  | cons entry rest ih =>
    obtain ⟨k, v⟩ := entry
    by_cases hk : k = key
    · subst hk
      cases hp : p k with
      | true => simp [hp]
      | false => simpa [hp] using ih
    · cases hp : p k with
      | true => simp [hp, hk, ih]
      | false => simpa [hp, hk] using ih

theorem get?_of_mem {table : Table κ α} (h : Unique table) {key : κ} {value : α}
    (hmem : (key, value) ∈ table) : get? key table = some value := by
  induction table with
  | nil => exact absurd hmem List.not_mem_nil
  | cons entry rest ih =>
    obtain ⟨k, v⟩ := entry
    obtain ⟨hfresh, hrest⟩ := List.nodup_cons.mp h
    rcases List.mem_cons.mp hmem with heq | hmem
    · obtain ⟨rfl, rfl⟩ := Prod.mk.inj heq
      simp
    · have hne : k ≠ key := by
        rintro rfl
        exact hfresh (List.mem_map.mpr ⟨(k, value), hmem, rfl⟩)
      rw [get?_cons, if_neg hne]
      exact ih hrest hmem

theorem mem_iff_get? {table : Table κ α} (h : Unique table) {key : κ} {value : α} :
    (key, value) ∈ table ↔ get? key table = some value :=
  ⟨get?_of_mem h, mem_of_get?⟩

theorem keys_put_of_get? {key : κ} {found : α} {table : Table κ α}
    (h : get? key table = some found) (value : α) :
    (put key value table).map Prod.fst = table.map Prod.fst := by
  induction table with
  | nil => simp at h
  | cons entry rest ih =>
    obtain ⟨k, v⟩ := entry
    rw [get?_cons] at h
    rw [put]
    split at h
    · rename_i hk
      rw [if_pos hk]
      rfl
    · rename_i hk
      rw [if_neg hk, List.map_cons, List.map_cons, ih h]

/-- A new key comes last. -/
theorem put_of_get?_none {key : κ} {table : Table κ α} (h : get? key table = none) (value : α) :
    put key value table = table ++ [(key, value)] := by
  induction table with
  | nil => rfl
  | cons entry rest ih =>
    obtain ⟨k, v⟩ := entry
    rw [get?_cons] at h
    split at h
    · exact absurd h (by simp)
    · rename_i hk
      rw [put, if_neg hk, ih h, List.cons_append]

theorem mem_put {key : κ} {value : α} {table : Table κ α} {entry : κ × α}
    (h : entry ∈ put key value table) : entry ∈ table ∨ entry = (key, value) := by
  induction table with
  | nil => exact .inr (List.mem_singleton.mp h)
  | cons p rest ih =>
    obtain ⟨k, v⟩ := p
    rw [put] at h
    split at h
    · rename_i hk
      rcases List.mem_cons.mp h with rfl | hrest
      · exact .inr (by rw [hk])
      · exact .inl (List.mem_cons_of_mem _ hrest)
    · rcases List.mem_cons.mp h with rfl | hrest
      · exact .inl List.mem_cons_self
      · exact (ih hrest).imp_left (List.mem_cons_of_mem _)

theorem length_put_le (key : κ) (value : α) (table : Table κ α) :
    (put key value table).length ≤ table.length + 1 := by
  cases hfound : Table.get? key table with
  | some found =>
    rw [length_put_of_get? hfound]
    omega
  | none =>
    simp [put_of_get?_none hfound]

theorem not_mem_of_get?_none {key : κ} {table : Table κ α} (h : get? key table = none) :
    key ∉ table.map Prod.fst := by
  induction table with
  | nil => simp
  | cons entry rest ih =>
    obtain ⟨k, v⟩ := entry
    rw [get?_cons] at h
    split at h
    · exact absurd h (by simp)
    · rename_i hk
      rw [List.map_cons, List.mem_cons, not_or]
      exact ⟨fun heq => hk heq.symm, ih h⟩

theorem Unique.put {table : Table κ α} (h : Unique table) (key : κ) (value : α) :
    Unique (put key value table) := by
  cases hfound : Table.get? key table with
  | some found =>
    unfold Unique
    rw [keys_put_of_get? hfound]
    exact h
  | none =>
    unfold Unique
    rw [put_of_get?_none hfound, List.map_append, List.map_singleton]
    refine List.nodup_append.mpr ⟨h, List.pairwise_singleton _ _, ?_⟩
    rintro a ha b hb rfl
    obtain rfl := List.mem_singleton.mp hb
    exact not_mem_of_get?_none hfound ha

section Matches
variable {r : α → β → Prop} {first : Table κ α} {second : Table κ β}

theorem Matches.get? (h : Matches r first second) (key : κ) :
    (get? key first = none ∧ get? key second = none) ∨
      ∃ a b, get? key first = some a ∧ get? key second = some b ∧ r a b := by
  induction h with
  | nil => exact .inl ⟨rfl, rfl⟩
  | @cons p q _ _ hpq _ ih =>
    obtain ⟨k, a⟩ := p
    obtain ⟨k', b⟩ := q
    obtain ⟨rfl, hab⟩ : k = k' ∧ r a b := hpq
    rw [get?_cons, get?_cons]
    by_cases hk : k = key
    · rw [if_pos hk, if_pos hk]
      exact .inr ⟨a, b, rfl, rfl, hab⟩
    · rw [if_neg hk, if_neg hk]
      exact ih

theorem Matches.put (h : Matches r first second) (key : κ) {a : α} {b : β} (hab : r a b) :
    Matches r (put key a first) (put key b second) := by
  induction h with
  | nil => exact .cons ⟨rfl, hab⟩ .nil
  | @cons p q _ _ hpq hrest ih =>
    obtain ⟨k, c⟩ := p
    obtain ⟨k', d⟩ := q
    obtain ⟨rfl, hcd⟩ : k = k' ∧ r c d := hpq
    rw [Table.put, Table.put]
    by_cases hk : k = key
    · rw [if_pos hk, if_pos hk]
      exact .cons ⟨rfl, hab⟩ hrest
    · rw [if_neg hk, if_neg hk]
      exact .cons ⟨rfl, hcd⟩ ih

end Matches
end Lookup
end Table
end CapabilityCompiler.Foundation
