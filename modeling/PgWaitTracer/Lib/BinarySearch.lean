import Mathlib.Data.List.Basic
import Mathlib.Order.Basic

/-!
# Binary search for the point where a predicate turns

The usual loop over `lo` and `hi`: a predicate that holds up to some index and not from there on is
tried in the middle. The number of rounds is bounded by `fuel`, of which `hi - lo` is enough.

## Main definitions

* `BinarySearch.lowerBound`: the first index where the predicate fails.

## Main results

* `BinarySearch.lowerBound_spec`: the predicate holds before the result and not from it on.
* `BinarySearch.drop_lowerBound`: on a list, the rest behind the result.
-/

namespace BinarySearch

/-- The rounds of the search between `lo` and `hi`. -/
def rounds (p : ℕ → Bool) : ℕ → ℕ → ℕ → ℕ
  | 0, lo, _ => lo
  | fuel + 1, lo, hi =>
    if lo < hi then
      if p ((lo + hi) / 2) then rounds p fuel ((lo + hi) / 2 + 1) hi
      else rounds p fuel lo ((lo + hi) / 2)
    else lo

/-- The first of `n` indices where the predicate fails. -/
def lowerBound (p : ℕ → Bool) (n : ℕ) : ℕ := rounds p n 0 n

/-- The predicate does not hold again once it has failed. -/
def Turns (p : ℕ → Bool) (n : ℕ) : Prop := ∀ i j, i ≤ j → j < n → p j = true → p i = true

theorem rounds_spec {p : ℕ → Bool} {n : ℕ} (hp : Turns p n) {fuel lo hi : ℕ} (hfuel : hi - lo ≤ fuel)
    (hlohi : lo ≤ hi) (hhi : hi ≤ n) (hbefore : ∀ i < lo, p i = true)
    (hafter : ∀ i, hi ≤ i → i < n → p i = false) :
    rounds p fuel lo hi ≤ n ∧ (∀ i < rounds p fuel lo hi, p i = true) ∧
      ∀ i, rounds p fuel lo hi ≤ i → i < n → p i = false := by
  induction fuel generalizing lo hi with
  | zero =>
    obtain rfl : lo = hi := by omega
    exact ⟨hhi, hbefore, hafter⟩
  | succ fuel ih =>
    rw [rounds]
    split_ifs with hlt hmid
    · refine ih (by omega) (by omega) hhi (fun i hi' => ?_) hafter
      exact hp i ((lo + hi) / 2) (by omega) (by omega) hmid
    · refine ih (by omega) (by omega) (by omega) hbefore fun i hi' hn => ?_
      by_contra hpi
      exact hmid (hp ((lo + hi) / 2) i hi' hn (by simpa using hpi))
    · obtain rfl : lo = hi := by omega
      exact ⟨hhi, hbefore, hafter⟩

/-- **The search finds the point where the predicate turns.** -/
theorem lowerBound_spec {p : ℕ → Bool} {n : ℕ} (hp : Turns p n) :
    lowerBound p n ≤ n ∧ (∀ i < lowerBound p n, p i = true) ∧
      ∀ i, lowerBound p n ≤ i → i < n → p i = false :=
  rounds_spec hp (Nat.le_refl n) (Nat.zero_le n) (Nat.le_refl n) (fun _ h => absurd h (by omega))
    fun _ h h' => absurd h (by omega)

/-- On a list whose elements satisfy the predicate up to some point, what the search leaves is what
does not satisfy it. -/
theorem drop_lowerBound {α : Type*} {p : α → Bool} {l : List α}
    (hl : l.Pairwise fun a b => p b = true → p a = true) :
    l.drop (lowerBound (fun i => (l[i]?).any p) l.length) = l.filter (!p ·) := by
  have hturns : Turns (fun i => (l[i]?).any p) l.length := by
    intro i j hij hj hpj
    rcases Nat.eq_or_lt_of_le hij with rfl | hlt
    · exact hpj
    · dsimp only at hpj ⊢
      rw [List.getElem?_eq_getElem hj] at hpj
      rw [List.getElem?_eq_getElem (by omega)]
      exact List.pairwise_iff_getElem.1 hl i j _ hj hlt hpj
  obtain ⟨hle, hbefore, hafter⟩ := lowerBound_spec hturns
  generalize lowerBound (fun i => (l[i]?).any p) l.length = n at *
  have htake : (l.take n).filter (!p ·) = [] := by
    rw [List.filter_eq_nil_iff]
    intro a ha
    obtain ⟨i, hi, rfl⟩ := List.mem_take_iff_getElem.1 ha
    have hpi := hbefore i (by omega)
    rw [List.getElem?_eq_getElem (by omega), Option.any_some] at hpi
    simp [hpi]
  have hdrop : (l.drop n).filter (!p ·) = l.drop n := by
    rw [List.filter_eq_self]
    intro a ha
    obtain ⟨i, hi, rfl⟩ := List.mem_drop_iff_getElem.1 ha
    have hpi := hafter (n + i) (by omega) (by omega)
    rw [List.getElem?_eq_getElem (by omega), Option.any_some] at hpi
    simp [hpi]
  calc l.drop n = (l.take n).filter (!p ·) ++ (l.drop n).filter (!p ·) := by
        rw [htake, hdrop, List.nil_append]
    _ = l.filter (!p ·) := by rw [← List.filter_append, List.take_append_drop]

end BinarySearch
