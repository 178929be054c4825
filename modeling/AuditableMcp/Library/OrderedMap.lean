import Mathlib.Data.List.Nodup

-- A map that remembers the order in which its keys were first set.
-- Setting a key that is present keeps the key's place.
structure OrderedMap (κ α : Type) where
  entries : List (κ × α)

namespace OrderedMap

variable {κ α : Type} [DecidableEq κ]

def empty : OrderedMap κ α := ⟨[]⟩

def lookup : List (κ × α) → κ → Option α
  | [], _ => none
  | (k, v) :: rest, key => if k = key then some v else lookup rest key

def insert : List (κ × α) → κ → α → List (κ × α)
  | [], key, value => [(key, value)]
  | (k, v) :: rest, key, value =>
      if k = key then (k, value) :: rest else (k, v) :: insert rest key value

def get (m : OrderedMap κ α) (key : κ) : Option α := lookup m.entries key

def set (m : OrderedMap κ α) (key : κ) (value : α) : OrderedMap κ α := ⟨insert m.entries key value⟩

def delete (m : OrderedMap κ α) (key : κ) : OrderedMap κ α :=
  ⟨m.entries.filter fun entry => entry.1 ≠ key⟩

def has (m : OrderedMap κ α) (key : κ) : Bool := (m.get key).isSome

theorem lookup_insert (entries : List (κ × α)) (key other : κ) (value : α) :
    lookup (insert entries key value) other = if key = other then some value else lookup entries other := by
  induction entries with
  | nil => rfl
  | cons entry rest ih =>
      obtain ⟨k, v⟩ := entry
      by_cases hk : k = key
      · subst hk
        by_cases ho : k = other <;> simp [insert, lookup, ho]
      · by_cases ho : k = other
        · subst ho
          simp [insert, lookup, hk, Ne.symm hk]
        · simp [insert, lookup, hk, ho, ih]

theorem get_set (m : OrderedMap κ α) (key other : κ) (value : α) :
    (m.set key value).get other = if key = other then some value else m.get other :=
  lookup_insert m.entries key other value

@[simp] theorem get_set_self (m : OrderedMap κ α) (key : κ) (value : α) :
    (m.set key value).get key = some value := by simp [get_set]

theorem get_set_of_ne (m : OrderedMap κ α) {key other : κ} (value : α) (h : key ≠ other) :
    (m.set key value).get other = m.get other := by simp [get_set, h]

theorem lookup_filter_ne (entries : List (κ × α)) (key other : κ) :
    lookup (entries.filter fun entry => entry.1 ≠ key) other =
      if key = other then none else lookup entries other := by
  induction entries with
  | nil => simp [lookup]
  | cons entry rest ih =>
      obtain ⟨k, v⟩ := entry
      by_cases hk : k = key
      · subst hk
        by_cases ho : k = other
        · subst ho
          simpa [List.filter_cons] using ih
        · simpa [List.filter_cons, lookup, ho] using ih
      · by_cases ho : k = other
        · subst ho
          simp [lookup, hk, Ne.symm hk]
        · simpa [List.filter_cons, lookup, hk, ho] using ih

theorem get_delete (m : OrderedMap κ α) (key other : κ) :
    (m.delete key).get other = if key = other then none else m.get other :=
  lookup_filter_ne m.entries key other

theorem delete_of_get_none {m : OrderedMap κ α} {key : κ} (h : m.get key = none) : m.delete key = m := by
  obtain ⟨entries⟩ := m
  have hkept (entries : List (κ × α)) (h : lookup entries key = none) :
      entries.filter (fun entry => entry.1 ≠ key) = entries := by
    induction entries with
    | nil => rfl
    | cons entry rest ih =>
        by_cases hk : entry.1 = key
        · simp [lookup, hk] at h
        · rw [lookup, if_neg hk] at h
          simpa [hk] using ih h
  exact congrArg OrderedMap.mk (hkept entries h)

@[simp] theorem get_empty (key : κ) : (empty : OrderedMap κ α).get key = none := rfl

theorem has_eq_true (m : OrderedMap κ α) (key : κ) : m.has key = true ↔ ∃ value, m.get key = some value := by
  simp [has, Option.isSome_iff_exists]

def keys (m : OrderedMap κ α) : List κ := m.entries.map Prod.fst

theorem keys_insert (entries : List (κ × α)) (key : κ) (value : α) :
    (insert entries key value).map Prod.fst =
      if key ∈ entries.map Prod.fst then entries.map Prod.fst else entries.map Prod.fst ++ [key] := by
  induction entries with
  | nil => rfl
  | cons entry rest ih =>
      obtain ⟨k, v⟩ := entry
      by_cases hk : k = key
      · simp [insert, hk]
      · by_cases hrest : key ∈ rest.map Prod.fst
        · simp only [insert, hk, if_false, List.map_cons, ih, hrest, if_true, List.mem_cons, or_true]
        · simp only [insert, hk, if_false, List.map_cons, ih, hrest, List.mem_cons, Ne.symm hk, or_false,
            List.cons_append]

theorem nodup_keys_set {m : OrderedMap κ α} (h : m.keys.Nodup) (key : κ) (value : α) :
    (m.set key value).keys.Nodup := by
  have hkeys : (m.set key value).keys = if key ∈ m.keys then m.keys else m.keys ++ [key] :=
    keys_insert m.entries key value
  rw [hkeys]
  by_cases hk : key ∈ m.keys
  · rwa [if_pos hk]
  · rw [if_neg hk]
    exact List.nodup_append.mpr ⟨h, List.nodup_singleton key, fun a ha b hb => by
      rw [List.mem_singleton.mp hb]
      exact fun he => hk (he ▸ ha)⟩

theorem nodup_keys_delete {m : OrderedMap κ α} (h : m.keys.Nodup) (key : κ) : (m.delete key).keys.Nodup :=
  List.Nodup.sublist (List.Sublist.map Prod.fst List.filter_sublist) h

theorem mem_of_get {m : OrderedMap κ α} {key : κ} {value : α} (h : m.get key = some value) : (key, value) ∈ m.entries := by
  obtain ⟨entries⟩ := m
  induction entries with
  | nil => cases h
  | cons entry rest ih =>
      obtain ⟨k, v⟩ := entry
      by_cases hk : k = key
      · simp only [get, lookup, hk, if_true, Option.some_inj] at h
        simp [hk, h]
      · exact List.mem_cons_of_mem _ (ih (by simpa [get, lookup, hk] using h))

-- Where no key stands twice, the entries are what `get` reads.
theorem mem_entries_iff {m : OrderedMap κ α} (h : m.keys.Nodup) (key : κ) (value : α) :
    (key, value) ∈ m.entries ↔ m.get key = some value := by
  obtain ⟨entries⟩ := m
  induction entries with
  | nil => simp [get, lookup]
  | cons entry rest ih =>
      obtain ⟨k, v⟩ := entry
      have hnodup : k ∉ rest.map Prod.fst ∧ (rest.map Prod.fst).Nodup := List.nodup_cons.mp h
      have hrest := ih hnodup.2
      by_cases hk : k = key
      · have hnot : (key, value) ∉ rest := fun hm => hnodup.1 (hk ▸ List.mem_map_of_mem hm)
        simp [get, lookup, hk, hnot, eq_comm]
      · simpa [get, lookup, hk, Ne.symm hk] using hrest

-- How many entries pass a test.
theorem countP_insert_le (test : κ × α → Bool) (entries : List (κ × α)) (key : κ) (value : α) :
    (insert entries key value).countP test ≤ entries.countP test + if test (key, value) then 1 else 0 := by
  induction entries with
  | nil => simp [insert, List.countP_cons]
  | cons entry rest ih =>
      obtain ⟨k, v⟩ := entry
      by_cases hk : k = key
      · subst hk
        simp only [insert, if_true, List.countP_cons]
        omega
      · simp only [insert, hk, if_false, List.countP_cons]
        omega

theorem countP_delete_le (test : κ × α → Bool) (m : OrderedMap κ α) (key : κ) :
    (m.delete key).entries.countP test ≤ m.entries.countP test := List.Sublist.countP_le List.filter_sublist

theorem countP_delete_lt {test : κ × α → Bool} {m : OrderedMap κ α} {key : κ} {value : α} (h : m.get key = some value)
    (htest : test (key, value) = true) : (m.delete key).entries.countP test < m.entries.countP test := by
  have hsplit := List.countP_eq_countP_filter_add m.entries test fun entry => entry.1 ≠ key
  have hgone : 0 < (m.entries.filter fun entry => !decide (entry.1 ≠ key)).countP test :=
    List.countP_pos_iff.mpr ⟨(key, value), List.mem_filter.mpr ⟨mem_of_get h, by simp⟩, htest⟩
  change (m.entries.filter fun entry => entry.1 ≠ key).countP test < m.entries.countP test
  omega

theorem mem_keys_iff {m : OrderedMap κ α} (h : m.keys.Nodup) (key : κ) :
    key ∈ m.keys ↔ (m.get key).isSome = true := by
  constructor
  · intro hk
    obtain ⟨⟨k, value⟩, hm, rfl⟩ := List.mem_map.mp hk
    rw [(mem_entries_iff h k value).mp hm]
    rfl
  · intro hk
    obtain ⟨value, hget⟩ := Option.isSome_iff_exists.mp hk
    exact List.mem_map.mpr ⟨(key, value), (mem_entries_iff h key value).mpr hget, rfl⟩

theorem lookup_map {β : Type} (f : α → β) (entries : List (κ × α)) (key : κ) :
    lookup (entries.map fun entry => (entry.1, f entry.2)) key = (lookup entries key).map f := by
  induction entries with
  | nil => rfl
  | cons entry rest ih =>
      by_cases hk : entry.1 = key
      · simp [lookup, hk]
      · simp [lookup, hk, ih]

theorem lookup_eq_none_of_notMem {entries : List (κ × α)} {key : κ} (h : key ∉ entries.map Prod.fst) :
    lookup entries key = none := by
  induction entries with
  | nil => rfl
  | cons entry rest ih =>
      simp only [List.map_cons, List.mem_cons, not_or] at h
      simp [lookup, Ne.symm h.1, ih h.2]

end OrderedMap

-- A list used as a set: adding a member that is present changes nothing.
def addTo {α : Type} [DecidableEq α] (members : List α) (member : α) : List α :=
  if member ∈ members then members else members ++ [member]

@[simp] theorem mem_addTo {α : Type} [DecidableEq α] (members : List α) (member other : α) :
    other ∈ addTo members member ↔ other ∈ members ∨ other = member := by
  unfold addTo
  split
  · rename_i h
    constructor
    · exact Or.inl
    · rintro (ho | rfl)
      · exact ho
      · exact h
  · simp
