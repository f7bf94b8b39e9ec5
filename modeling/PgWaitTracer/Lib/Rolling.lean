import Mathlib.Algebra.GroupWithZero.Nat
import Mathlib.Data.List.Basic
import Mathlib.Algebra.Order.Group.Nat
import Mathlib.Algebra.BigOperators.Group.List.Basic

/-!
# Time spent inside a trailing window

A set of intervals of the time line, and the part of it inside `[t - R, t]` as `t` moves. Time is
`ℕ`; an interval is a pair of its ends.

## Main definitions

* `Rolling.overlap`: the length of the intersection of two intervals.
* `Rolling.spent`: the total length of a list of intervals inside `[t - R, t]`.

## Main results

* `Rolling.overlap_slide`, `Rolling.spent_slide`: once the intervals have ended, moving the window
  on only loses length.
* `Rolling.overlap_grow`: an interval that is still running gains at most the elapsed time.
* `Rolling.overlap_join`: the interval spanning two disjoint ones covers at least both.
-/

namespace Rolling

/-- The length of `[s, e] ∩ [a, b]`. -/
def overlap (s e a b : ℕ) : ℕ := min e b - max s a

/-- The total length of the intervals inside `[t - R, t]`. -/
def spent (R : ℕ) (ws : List (ℕ × ℕ)) (t : ℕ) : ℕ :=
  (ws.map fun w => overlap w.1 w.2 (t - R) t).sum

theorem overlap_of_le {s e a b : ℕ} (h : e ≤ a) : overlap s e a b = 0 := by
  unfold overlap
  omega

theorem overlap_slide {s e t t' : ℕ} (R : ℕ) (he : e ≤ t) (ht : t ≤ t') :
    overlap s e (t' - R) t' ≤ overlap s e (t - R) t := by
  unfold overlap
  omega

theorem overlap_grow {t t' : ℕ} (s R : ℕ) (ht : t ≤ t') :
    overlap s t' (t' - R) t' ≤ overlap s t (t - R) t + (t' - t) := by
  unfold overlap
  omega

theorem overlap_of_running {c t : ℕ} (s R : ℕ) (h : t ≤ c) :
    overlap s c (t - R) t = overlap s t (t - R) t := by
  unfold overlap
  omega

theorem overlap_of_future {s t : ℕ} (R : ℕ) (h : t ≤ s) : overlap s t (t - R) t = 0 := by
  unfold overlap
  omega

theorem overlap_le_elapsed (s R t : ℕ) : overlap s t (t - R) t ≤ t - s := by
  unfold overlap
  omega

theorem overlap_join {s₀ e₀ s₁ e₁ : ℕ} (a b : ℕ) (h₀ : s₀ ≤ e₀) (h : e₀ ≤ s₁) (h₁ : s₁ ≤ e₁) :
    overlap s₀ e₀ a b + overlap s₁ e₁ a b ≤ overlap (min s₀ s₁) (max e₀ e₁) a b := by
  unfold overlap
  omega

@[simp] theorem spent_nil (R t : ℕ) : spent R [] t = 0 := rfl

@[simp] theorem spent_cons (R : ℕ) (w : ℕ × ℕ) (ws : List (ℕ × ℕ)) (t : ℕ) :
    spent R (w :: ws) t = overlap w.1 w.2 (t - R) t + spent R ws t := by
  simp [spent]

@[simp] theorem spent_append (R : ℕ) (ws vs : List (ℕ × ℕ)) (t : ℕ) :
    spent R (ws ++ vs) t = spent R ws t + spent R vs t := by
  simp [spent]

theorem spent_slide (R : ℕ) {t t' : ℕ} (ht : t ≤ t') : (ws : List (ℕ × ℕ)) →
    (∀ w ∈ ws, w.2 ≤ t) → spent R ws t' ≤ spent R ws t
  | [], _ => le_refl _
  | w :: ws, h => by
    rw [spent_cons, spent_cons]
    exact Nat.add_le_add (overlap_slide R (h w List.mem_cons_self) ht)
      (spent_slide R ht ws fun v hv => h v (List.mem_cons_of_mem w hv))

end Rolling
