import Mathlib.Data.Nat.Basic

/-!
# Masks of 32 bits

A mask stands for the set of its bits. The operators of masks are those of sets.

## Main definitions

* `BitMask.bitAt`: a bit of a mask.

## Main results

* `BitMask.ext_bits`: masks with the same bits are equal.
* `BitMask.and_not_eq_zero_iff`: one mask is contained in another one.
-/

namespace BitMask

/-- Bit `i` of a mask. -/
def bitAt (m : UInt32) (i : ℕ) : Bool := m.toBitVec.getLsbD i

variable (a b : UInt32) (i : ℕ)

@[simp] theorem bitAt_zero : bitAt 0 i = false := BitVec.getLsbD_zero

@[simp] theorem bitAt_and : bitAt (a &&& b) i = (bitAt a i && bitAt b i) := by
  rw [bitAt, UInt32.toBitVec_and, BitVec.getLsbD_and, bitAt, bitAt]

@[simp] theorem bitAt_or : bitAt (a ||| b) i = (bitAt a i || bitAt b i) := by
  rw [bitAt, UInt32.toBitVec_or, BitVec.getLsbD_or, bitAt, bitAt]

variable {a b i}

theorem lt_of_bitAt (h : bitAt a i = true) : i < 32 := BitVec.lt_of_getLsbD h

theorem bitAt_not (hi : i < 32) : bitAt (~~~a) i = !bitAt a i := by
  rw [bitAt, UInt32.toBitVec_not, BitVec.getLsbD_not, decide_eq_true hi, Bool.true_and, bitAt]

@[simp] theorem bitAt_and_not : bitAt (a &&& ~~~b) i = (bitAt a i && !bitAt b i) := by
  rw [bitAt_and]
  cases ha : bitAt a i with
  | true => rw [bitAt_not (lt_of_bitAt ha)]
  | false => rfl

theorem ext_bits (h : ∀ i, bitAt a i = bitAt b i) : a = b :=
  UInt32.toBitVec_inj.1 (BitVec.eq_of_getLsbD_eq fun i _ => h i)

theorem eq_zero_iff : a = 0 ↔ ∀ i, bitAt a i = false := by
  constructor
  · rintro rfl i
    exact bitAt_zero i
  · exact fun h => ext_bits fun i => (h i).trans (bitAt_zero i).symm

theorem and_not_eq_zero_iff :
    a &&& ~~~b = 0 ↔ ∀ i, bitAt a i = true → bitAt b i = true := by
  rw [eq_zero_iff]
  refine forall_congr' fun i => ?_
  rw [bitAt_and_not]
  cases bitAt a i <;> cases bitAt b i <;> decide

theorem bitAt_of_twoPow {j : ℕ} (hb : b.toBitVec = BitVec.twoPow 32 j) (hj : j < 32) :
    bitAt b i = decide (i = j) := by
  rw [bitAt, hb, BitVec.getLsbD_twoPow, decide_eq_true hj, Bool.true_and, decide_eq_decide]
  exact eq_comm

theorem and_eq_zero_iff_of_twoPow {j : ℕ} (hb : b.toBitVec = BitVec.twoPow 32 j) (hj : j < 32) :
    a &&& b = 0 ↔ bitAt a j = false := by
  rw [eq_zero_iff]
  constructor
  · intro h
    have := h j
    rwa [bitAt_and, bitAt_of_twoPow hb hj, decide_eq_true rfl, Bool.and_true] at this
  · intro h i
    rw [bitAt_and, bitAt_of_twoPow hb hj]
    by_cases hij : i = j
    · rw [hij, h, Bool.false_and]
    · rw [decide_eq_false hij, Bool.and_false]

end BitMask
