import Mathlib.Algebra.GroupWithZero.Nat
import Mathlib.Order.Monotone.Basic

/-!
# Sequence locks

A writer increments a counter before and after it changes a value. A reader that finds the same even
counter twice has seen no change in between, as long as a counter of fixed width has not gone round.

## Main definitions

* `SeqLock.Versioned`: a value with its counter.
* `SeqLock.Step`: what the writer may do.
* `SeqLock.groupsBegun`: how many groups of changes begin between two counters.

## Main results

* `SeqLock.eq_of_count_eq`: the value is the same while the counter stays even.
* `SeqLock.count_eq_of_word_eq`: equal words of 32 bits are equal counters.
-/

namespace SeqLock

/-- A value, and how often its counter has been incremented. -/
structure Versioned (α : Type*) where
  count : ℕ
  val : α

/-- A step of the writer: it begins a group of changes, changes the value in it, and ends it. -/
inductive Step {α : Type*} : Versioned α → Versioned α → Prop
  | idle (r : Versioned α) : Step r r
  | enter (r : Versioned α) (heven : r.count % 2 = 0) : Step r ⟨r.count + 1, r.val⟩
  | change (r : Versioned α) (val : α) (hodd : r.count % 2 = 1) : Step r ⟨r.count, val⟩
  | leave (r : Versioned α) (hodd : r.count % 2 = 1) : Step r ⟨r.count + 1, r.val⟩

variable {α : Type*} {hist : ℕ → Versioned α}

theorem Step.count_le {r r' : Versioned α} (h : Step r r') : r.count ≤ r'.count := by
  cases h with
  | idle => exact Nat.le_refl _
  | enter => exact Nat.le_succ _
  | change => exact Nat.le_refl _
  | leave => exact Nat.le_succ _

theorem Step.eq_of_count_eq {r r' : Versioned α} (h : Step r r') (heven : r.count % 2 = 0)
    (hcount : r'.count = r.count) : r' = r := by
  cases h with
  | idle => rfl
  | enter => exact absurd hcount (Nat.succ_ne_self _)
  | change val hodd => omega
  | leave hodd => omega

theorem monotone_count (h : ∀ t, Step (hist t) (hist (t + 1))) :
    Monotone fun t => (hist t).count :=
  monotone_nat_of_le_succ fun t => (h t).count_le

/-- **The value is the same while the counter stays even.** -/
theorem eq_of_count_eq (h : ∀ t, Step (hist t) (hist (t + 1))) {s t : ℕ} (hst : s ≤ t)
    (heven : (hist s).count % 2 = 0) (hcount : (hist t).count = (hist s).count) :
    hist t = hist s := by
  induction t, hst using Nat.le_induction with
  | base => rfl
  | succ t hst ih =>
    have hle : (hist s).count ≤ (hist t).count := monotone_count h hst
    have hstep := (h t).count_le
    have heq : (hist t).count = (hist s).count := by omega
    rw [(h t).eq_of_count_eq (by rw [heq, heven]) (by rw [hcount, heq]), ih heq]

/-- How many groups begin while the counter goes from `a` to `b`. -/
def groupsBegun (a b : ℕ) : ℕ := (b + 1) / 2 - (a + 1) / 2

theorem count_eq_of_word_eq {a b : ℕ} (hab : a ≤ b) (hfew : groupsBegun a b < 2 ^ 31)
    (hword : UInt32.ofNat b = UInt32.ofNat a) : b = a := by
  rw [← UInt32.toNat_inj, UInt32.toNat_ofNat', UInt32.toNat_ofNat'] at hword
  rw [groupsBegun] at hfew
  omega

end SeqLock
