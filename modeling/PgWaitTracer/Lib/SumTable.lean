import Mathlib.Algebra.BigOperators.Finsupp.Basic
import PgWaitTracer.Lib.GrowTable

/-!
# Tables of sums

An open-addressed table whose rows are a key and an amount. An amount is added to the row of its
key, or makes a row. Such a table is a finitely supported function, to which a single value is added.

## Main definitions

* `SumTable.add`: an amount is added under a key.
* `SumTable.Holds`: the table is a finitely supported function.

## Main results

* `SumTable.Holds.add`: adding to the table adds to the function.
* `SumTable.Holds.sum_rows`: a sum over the rows is a sum over the function.
-/

open GrowTable

namespace SumTable

variable {K M R : Type*} [DecidableEq K] [AddCommMonoid M] (row : K × M ≃ R) (hash : K → ℕ)

/-- The key of a row. -/
def keyOf (r : R) : K := (row.symm r).1

/-- The amount in a row. -/
def amountOf (r : R) : M := (row.symm r).2

/-- The rows, in the order of their slots. -/
def rows (t : GrowTable R) : List R := t.slots.filterMap id

/-- An amount is added under a key, in a table that grows before it has no room. -/
def add (init : ℕ) (t : GrowTable R) (k : K) (m : M) : GrowTable R :=
  let t := reserve (keyOf row) hash init t
  putNogrow (keyOf row) hash t
    (row (k, ((find? (keyOf row) hash t k).map (amountOf row)).getD 0 + m))

/-- The table is a finitely supported function. -/
structure Holds (t : GrowTable R) (s : K →₀ M) : Prop where
  wellFormed : WellFormed (keyOf row) hash t
  find?_iff : ∀ k r, find? (keyOf row) hash t k = some r ↔ s k ≠ 0 ∧ r = row (k, s k)

variable {row hash}

omit [DecidableEq K] [AddCommMonoid M] in
@[simp] theorem keyOf_row (k : K) (m : M) : keyOf row (row (k, m)) = k := by
  rw [keyOf, Equiv.symm_apply_apply]

omit [DecidableEq K] [AddCommMonoid M] in
@[simp] theorem amountOf_row (k : K) (m : M) : amountOf row (row (k, m)) = m := by
  rw [amountOf, Equiv.symm_apply_apply]

theorem holds_empty : Holds row hash {} 0 :=
  ⟨wellFormed_empty, fun k r => ⟨fun h => absurd h (by simp [find?, slotOf, LinearProbe.probe,
    LinearProbe.probeOrder]), fun h => absurd rfl h.1⟩⟩

variable {t : GrowTable R} {s : K →₀ M}

theorem Holds.amount_eq (h : Holds row hash t s) (k : K) :
    ((find? (keyOf row) hash t k).map (amountOf row)).getD 0 = s k := by
  rcases hfind : find? (keyOf row) hash t k with _ | r
  · by_contra hne
    have hsome := (h.find?_iff k (row (k, s k))).2 ⟨fun hz => hne hz.symm, rfl⟩
    rw [hfind] at hsome
    exact absurd hsome (by simp)
  · obtain ⟨-, rfl⟩ := (h.find?_iff k r).1 hfind
    simp

theorem Holds.find?_congr {t' : GrowTable R} (h : Holds row hash t s) (h' : Holds row hash t' s)
    (k : K) : find? (keyOf row) hash t k = find? (keyOf row) hash t' k := by
  refine Option.ext fun r => ?_
  rw [h.find?_iff, h'.find?_iff]

/-- **Adding to the table adds to the function.** The amount must be one that never cancels. -/
theorem Holds.add {init : ℕ} (hinit : 2 ≤ init) {t : GrowTable R} {s : K →₀ M}
    (h : Holds row hash t s) (k : K) {m : M} (hm : ∀ x, x + m ≠ 0) :
    Holds row hash (add row hash init t k m) (s + Finsupp.single k m) := by
  obtain ⟨hst, -, -, hmem⟩ := h.wellFormed.reserve hinit
  have hsame : find? (keyOf row) hash (reserve (keyOf row) hash init t) k =
      find? (keyOf row) hash t k := h.wellFormed.toStored.find?_congr hst hmem k
  have hput : SumTable.add row hash init t k m =
      put (keyOf row) hash init t (row (k, s k + m)) := by
    rw [SumTable.add, put, hsame, h.amount_eq]
  obtain ⟨hwf, hfind⟩ := h.wellFormed.put init hinit (row (k, s k + m))
  rw [hput]
  refine ⟨hwf, fun k' r => ?_⟩
  rw [hfind, keyOf_row, Finsupp.add_apply]
  by_cases hk : k' = k
  · subst hk
    rw [if_pos rfl, Finsupp.single_eq_same, Option.some_inj]
    exact ⟨fun hr => ⟨hm _, hr.symm⟩, fun hr => hr.2.symm⟩
  · rw [if_neg hk, Finsupp.single_eq_of_ne hk, add_zero, h.find?_iff]

theorem mem_rows {r : R} : r ∈ rows t ↔ some r ∈ t.slots := by
  rw [rows, List.mem_filterMap]
  exact ⟨fun ⟨o, ho, hr⟩ => hr ▸ ho, fun h => ⟨some r, h, rfl⟩⟩

theorem Holds.mem_rows_iff (h : Holds row hash t s) {r : R} :
    r ∈ rows t ↔ s (keyOf row r) ≠ 0 ∧ amountOf row r = s (keyOf row r) := by
  have hself : row (keyOf row r, amountOf row r) = r := row.apply_symm_apply r
  rw [mem_rows]
  constructor
  · intro hr
    obtain ⟨hne, heq⟩ := (h.find?_iff _ r).1
      (h.wellFormed.toStored.find?_eq_some.2 ⟨hr, rfl⟩)
    exact ⟨hne, by rw [heq, keyOf_row, amountOf_row]⟩
  · rintro ⟨hne, heq⟩
    exact (h.wellFormed.toStored.find?_eq_some.1
      ((h.find?_iff _ r).2 ⟨hne, by rw [← heq, hself]⟩)).1

/-- **A sum over the rows is a sum over the function.** -/
theorem Holds.sum_rows {N : Type*} [AddCommMonoid N] (h : Holds row hash t s) (g : K → M → N) :
    ((rows t).map fun r => g (keyOf row r) (amountOf row r)).sum = s.sum g := by
  have hnodup : ((rows t).map (keyOf row)).Nodup := h.wellFormed.toStored.nodup_rows
  have hsupport : ((rows t).map (keyOf row)).toFinset = s.support := by
    ext k
    rw [List.mem_toFinset, List.mem_map, Finsupp.mem_support_iff]
    constructor
    · rintro ⟨r, hr, rfl⟩
      exact (h.mem_rows_iff.1 hr).1
    · intro hk
      exact ⟨row (k, s k), h.mem_rows_iff.2 (by simpa using hk), keyOf_row k _⟩
  calc ((rows t).map fun r => g (keyOf row r) (amountOf row r)).sum
      = (((rows t).map (keyOf row)).map fun k => g k (s k)).sum := by
        rw [List.map_map]
        exact congrArg List.sum (List.map_congr_left fun r hr => by
          rw [Function.comp_apply, (h.mem_rows_iff.1 hr).2])
    _ = ((rows t).map (keyOf row)).toFinset.sum fun k => g k (s k) :=
        (List.sum_toFinset _ hnodup).symm
    _ = s.sum g := by rw [hsupport, Finsupp.sum]

end SumTable
