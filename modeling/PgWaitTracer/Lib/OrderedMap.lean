import Mathlib.Data.List.Basic
import Mathlib.Data.List.Nodup

/-!
# Maps that remember the order of insertion

A map with distinct keys whose entries stand in the order in which they were put. Putting a key anew
moves it to the end, so that the first entry is the least recently used one.

## Main definitions

* `OrderedMap`: the map.
* `OrderedMap.get?`, `OrderedMap.delete`, `OrderedMap.put`,
  `OrderedMap.evict`: lookup, deletion, insertion at the end, and the deletion of the
  oldest entries down to a size.

## Main results

* `OrderedMap.get?_eq_some_iff`: a lookup finds the entry of its key.
* `OrderedMap.get?_put`, `OrderedMap.get?_delete`: what later lookups
  find.
* `OrderedMap.size_evict_le`: the size after an eviction.
-/

namespace PgWaitTracer

/-- A map with distinct keys, in the order of insertion. -/
structure OrderedMap (κ ν : Type*) where
  entries : List (κ × ν)
  nodup : (entries.map Prod.fst).Nodup

namespace OrderedMap

variable {κ ν : Type*}

/-- The map without entries. -/
def empty : OrderedMap κ ν := ⟨[], List.nodup_nil⟩

/-- The number of entries. -/
def size (m : OrderedMap κ ν) : ℕ := m.entries.length

/-! ### Evictions -/

/-- The oldest entries are deleted while there are more than `n`. -/
def evictOldest (n : ℕ) : List (κ × ν) → List (κ × ν)
  | [] => []
  | e :: es => if n < es.length + 1 then evictOldest n es else e :: es

theorem evictOldest_suffix (n : ℕ) (es : List (κ × ν)) : evictOldest n es <:+ es := by
  induction es with
  | nil => exact List.suffix_rfl
  | cons e es ih =>
    rw [evictOldest]
    split_ifs
    · exact ih.trans (List.suffix_cons e es)
    · exact List.suffix_rfl

theorem length_evictOldest_le (n : ℕ) (es : List (κ × ν)) : (evictOldest n es).length ≤ n := by
  induction es with
  | nil => exact Nat.zero_le n
  | cons e es ih =>
    rw [evictOldest]
    split_ifs with h
    · exact ih
    · exact Nat.not_lt.mp h

/-- The map after the deletion of its oldest entries while there are more than `n`. -/
def evict (m : OrderedMap κ ν) (n : ℕ) : OrderedMap κ ν where
  entries := evictOldest n m.entries
  nodup := m.nodup.sublist ((evictOldest_suffix n m.entries).sublist.map Prod.fst)

theorem mem_of_mem_evict {m : OrderedMap κ ν} {n : ℕ} {e : κ × ν}
    (h : e ∈ (m.evict n).entries) : e ∈ m.entries :=
  (evictOldest_suffix n m.entries).subset h

theorem size_evict_le (m : OrderedMap κ ν) (n : ℕ) : (m.evict n).size ≤ n :=
  length_evictOldest_le n m.entries

/-! ### Lookup, deletion, insertion -/

variable [DecidableEq κ]

/-- The value of a key. -/
def get? (m : OrderedMap κ ν) (k : κ) : Option ν := m.entries.lookup k

/-- The map without a key. -/
def delete (m : OrderedMap κ ν) (k : κ) : OrderedMap κ ν where
  entries := m.entries.filter fun e => e.1 ≠ k
  nodup := m.nodup.sublist (List.filter_sublist.map Prod.fst)

/-- The entry at the end of the map, in place of an older one of its key. -/
def put (m : OrderedMap κ ν) (k : κ) (v : ν) : OrderedMap κ ν where
  entries := (m.delete k).entries ++ [(k, v)]
  nodup := by
    rw [List.map_append, List.nodup_append]
    refine ⟨(m.delete k).nodup, List.nodup_singleton _, fun a ha b hb => ?_⟩
    obtain ⟨e, he, rfl⟩ := List.mem_map.mp ha
    obtain rfl : b = k := by simpa using hb
    simpa using (List.mem_filter.mp he).2

/-! ### Entries -/

theorem mem_delete {m : OrderedMap κ ν} {k : κ} {e : κ × ν} :
    e ∈ (m.delete k).entries ↔ e ∈ m.entries ∧ e.1 ≠ k := by
  simp [delete]

theorem mem_put {m : OrderedMap κ ν} {k : κ} {v : ν} {e : κ × ν} :
    e ∈ (m.put k v).entries ↔ e ∈ m.entries ∧ e.1 ≠ k ∨ e = (k, v) := by
  rw [put, List.mem_append, mem_delete, List.mem_singleton]

/-! ### Sizes -/

theorem size_put_le {m : OrderedMap κ ν} {k : κ} {v w : ν} (h : (k, w) ∈ m.entries) :
    (m.put k v).size ≤ m.size := by
  have hlt : (m.delete k).entries.length < m.entries.length :=
    List.length_filter_lt_length_iff_exists.mpr ⟨(k, w), h, by simp⟩
  rw [size, size, put, List.length_append, List.length_singleton]
  exact hlt

/-! ### Lookups -/

/-- **A lookup finds the entry of its key.** -/
theorem get?_eq_some_iff {m : OrderedMap κ ν} {k : κ} {v : ν} :
    m.get? k = some v ↔ (k, v) ∈ m.entries := by
  obtain ⟨entries, hnodup⟩ := m
  rw [get?]
  induction entries with
  | nil => simp
  | cons e es ih =>
    obtain ⟨k', v'⟩ := e
    rw [List.map_cons, List.nodup_cons] at hnodup
    rw [List.lookup_cons]
    by_cases hk : k = k'
    · subst hk
      have hnew : (k, v) ∉ es := fun h => hnodup.1 (List.mem_map.mpr ⟨_, h, rfl⟩)
      simp [hnew, eq_comm]
    · have hb : (k == k') = false := by simpa using hk
      rw [hb]
      simpa [hk] using ih hnodup.2

theorem get?_put (m : OrderedMap κ ν) (k k' : κ) (v : ν) :
    (m.put k v).get? k' = if k' = k then some v else m.get? k' := by
  ext w
  rw [get?_eq_some_iff, mem_put]
  split_ifs with h
  · simp [h, eq_comm]
  · simp [h, get?_eq_some_iff]

theorem get?_delete (m : OrderedMap κ ν) (k k' : κ) :
    (m.delete k).get? k' = if k' = k then none else m.get? k' := by
  ext w
  rw [get?_eq_some_iff, mem_delete]
  split_ifs with h
  · simp [h]
  · simp [h, get?_eq_some_iff]

@[simp] theorem get?_empty (k : κ) : (empty : OrderedMap κ ν).get? k = none := rfl

end OrderedMap

end PgWaitTracer
