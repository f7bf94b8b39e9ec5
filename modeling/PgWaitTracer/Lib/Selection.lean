import Mathlib.Data.List.Count
import PgWaitTracer.Lib.StableSort

/-!
# Selections of the first elements

The first `m` elements of a sorted list are a selection: what they leave out is not smaller than
what they are. A program may sort only some of the elements, and some of those may be wrong. What it
finds is still a selection, in whichever order equal elements come, if and only if for every wrong
element there are `m` smaller ones that were sorted, and for every lost element `m` that are not
greater.

## Main definitions

* `StableSort.Selects`: a list selects the first elements of another one.
* `StableSort.preferSorter`: a sorting function where one element comes first among equal ones.

## Main results

* `StableSort.forall_selects_iff`: when sorting other elements does.
-/

namespace StableSort

variable {β K : Type*} [LinearOrder K] (key : β → K)

/-- The list `r` selects the first `m` elements of `c`. -/
structure Selects [DecidableEq β] (m : ℕ) (c r : List β) : Prop where
  subperm : r.Subperm c
  length_eq : r.length = min c.length m
  le_left : ∀ d ∈ c.diff r, ∀ x ∈ r, key x ≤ key d

variable {key} {m : ℕ}

/-! ### The first elements of a sorted list -/

theorem le_of_mem_take_of_mem_drop {l : List β} (h : Sorted key l) {x y : β} (hx : x ∈ l.take m)
    (hy : y ∈ l.drop m) : key x ≤ key y :=
  List.Pairwise.rel_of_mem_take_of_mem_drop (R := fun x y => key x ≤ key y) h hx hy

theorem countP_lt_of_mem_take {l : List β} (h : Sorted key l) {x : β} (hx : x ∈ l.take m) :
    l.countP (fun y => key y < key x) < m := by
  have hsplit : l.countP (fun y => key y < key x) =
      (l.take m).countP fun y => key y < key x := by
    conv_lhs => rw [← List.take_append_drop m l]
    rw [List.countP_append, Nat.add_eq_left, List.countP_eq_zero]
    intro y hy
    rw [decide_eq_true_eq]
    exact not_lt.mpr (le_of_mem_take_of_mem_drop h hx hy)
  have hself : (l.take m).countP (fun y => key y < key x) < (l.take m).length := by
    refine List.countP_le_length.lt_of_ne fun heq => ?_
    have hall := List.countP_eq_length.mp heq x hx
    rw [decide_eq_true_eq] at hall
    exact lt_irrefl _ hall
  rw [hsplit]
  exact hself.trans_le (List.length_take_le m l)

theorem le_of_le_countP {l : List β} (h : Sorted key l) {v : K}
    (hv : m ≤ l.countP fun y => key y ≤ v) {x : β} (hx : x ∈ l.take m) : key x ≤ v := by
  by_contra hgt
  rw [not_le] at hgt
  have hle : l.countP (fun y => key y ≤ v) ≤ l.countP fun y => key y < key x :=
    List.countP_mono_left fun y _ hy => by
      rw [decide_eq_true_eq] at hy ⊢
      exact hy.trans_lt hgt
  exact absurd (countP_lt_of_mem_take h hx) (not_lt.mpr (hv.trans hle))

/-! ### An order of equal elements -/

section Ties

variable [DecidableEq β] (key)

/-- Smaller, or of the same key and not `a` after another one. -/
def Before (a x y : β) : Prop := key x < key y ∨ key x = key y ∧ (x = a ∨ y ≠ a)

instance (a : β) : DecidableRel (Before key a) := fun _ _ => inferInstanceAs (Decidable (_ ∨ _))

theorem pairwise_before (a : β) (l : List β) :
    (l.insertionSort (Before key a)).Pairwise (Before key a) := by
  have : IsTrans β (Before key a) := by
    refine ⟨fun x y z hxy hyz => ?_⟩
    rcases hxy with hxy | ⟨hxy, hxa⟩
    · rcases hyz with hyz | ⟨hyz, -⟩
      · exact Or.inl (hxy.trans hyz)
      · exact Or.inl (hyz ▸ hxy)
    · rcases hyz with hyz | ⟨hyz, hya⟩
      · exact Or.inl (hxy ▸ hyz)
      · refine Or.inr ⟨hxy.trans hyz, ?_⟩
        rcases hxa with hxa | hxa
        · exact Or.inl hxa
        · exact Or.inr (hya.resolve_left hxa)
  have : Std.Total (Before key a) := by
    refine ⟨fun x y => ?_⟩
    rcases lt_trichotomy (key x) (key y) with h | h | h
    · exact Or.inl (Or.inl h)
    · by_cases hx : x = a
      · exact Or.inl (Or.inr ⟨h, Or.inl hx⟩)
      · exact Or.inr (Or.inr ⟨h.symm, Or.inr hx⟩)
    · exact Or.inr (Or.inl h)
  exact List.pairwise_insertionSort _ l

/-- A sorting function where `a` comes first among elements of its key. -/
def preferSorter (a : β) : Sorter key where
  sort := List.insertionSort (Before key a)
  perm := List.perm_insertionSort _
  sorted := fun l => (pairwise_before key a l).imp fun h => h.elim le_of_lt fun h => h.1.le

variable {key}

/-- An element is one of the first `m`, in some order of equal ones, if fewer than `m` are
smaller. -/
theorem mem_take_preferSorter {c : List β} {a : β} (ha : a ∈ c)
    (hfew : c.countP (fun y => key y < key a) < m) : a ∈ ((preferSorter key a).sort c).take m := by
  have hperm := (preferSorter key a).perm c
  have hsorted : ((preferSorter key a).sort c).Pairwise (Before key a) := pairwise_before key a c
  have hmem := hperm.mem_iff.mpr ha
  generalize (preferSorter key a).sort c = l at hperm hsorted hmem
  by_contra hno
  have hdrop : a ∈ l.drop m := by
    rw [← List.take_append_drop m l] at hmem
    exact (List.mem_append.mp hmem).resolve_left hno
  -- all of the first `m` come before `a`, and are not `a`
  have hsmaller : ∀ y ∈ l.take m, key y < key a := by
    intro y hy
    rcases List.Pairwise.rel_of_mem_take_of_mem_drop hsorted hy hdrop with h | ⟨-, h⟩
    · exact h
    · obtain rfl := h.resolve_right fun hne => hne rfl
      exact absurd hy hno
  have hlen : m ≤ l.length := by
    by_contra hshort
    rw [List.drop_eq_nil_of_le (Nat.le_of_not_le hshort)] at hdrop
    exact List.not_mem_nil hdrop
  have hmany : m ≤ l.countP fun y => key y < key a := by
    calc m = (l.take m).countP fun y => key y < key a := by
          rw [List.countP_eq_length.mpr fun y hy => decide_eq_true (hsmaller y hy),
            List.length_take_of_le hlen]
      _ ≤ l.countP fun y => key y < key a := (List.take_sublist m l).countP_le
  rw [hperm.countP_eq] at hmany
  omega

/-! ### Selections -/

/-- **When sorting other elements selects the first ones.** Some elements that are sorted are right,
and the other ones are wrong; some are lost. In whichever order equal elements come, the first `m`
are a selection if and only if `m` sorted elements are smaller than each wrong one, and `m` are not
greater than each lost one. -/
theorem forall_selects_iff {c sorted right wrong lost : List β}
    (hsorted : sorted.Perm (right ++ wrong)) (hc : c.Perm (right ++ lost))
    (hwrong : ∀ w ∈ wrong, w ∉ c) :
    (∀ s : Sorter key, Selects key m c ((s.sort sorted).take m)) ↔
      (∀ w ∈ wrong, m ≤ sorted.countP fun y => key y < key w) ∧
        ∀ d ∈ lost, m ≤ sorted.countP fun y => key y ≤ key d := by
  constructor
  · intro hall
    refine ⟨fun w hw => ?_, fun d hd => ?_⟩
    · by_contra hfew
      have hmem := mem_take_preferSorter
        (hsorted.mem_iff.mpr (List.mem_append_right _ hw)) (not_le.mp hfew)
      exact hwrong w hw ((hall (preferSorter key w)).subperm.subset hmem)
    · by_contra hfew
      have hsel := hall (insertionSorter key)
      have hsub : (((insertionSorter key).sort sorted).take m).Subperm sorted :=
        (List.take_sublist m _).subperm.trans ((insertionSorter key).perm sorted).subperm
      generalize ((insertionSorter key).sort sorted).take m = r at hsel hsub
      have hdc : d ∈ c := hc.mem_iff.mpr (List.mem_append_right _ hd)
      have hcount : r.count d < c.count d := by
        have hle := hsub.count_le d
        rw [hsorted.count_eq, List.count_append,
          List.count_eq_zero_of_not_mem fun hw => hwrong d hw hdc] at hle
        have hlost := List.count_pos_iff.mpr hd
        rw [hc.count_eq, List.count_append]
        omega
      have hleft : d ∈ c.diff r := by
        rw [← List.count_pos_iff, List.count_diff]
        omega
      rcases Nat.le_total c.length m with hcm | hmc
      · have hlen := hsel.length_eq
        rw [Nat.min_eq_left hcm] at hlen
        have hrc := hsel.subperm.perm_of_length_le hlen.ge
        rw [hrc.count_eq] at hcount
        exact lt_irrefl _ hcount
      · have hlen := hsel.length_eq
        rw [Nat.min_eq_right hmc] at hlen
        have hmany : m ≤ sorted.countP fun y => key y ≤ key d := by
          calc m = r.countP fun y => key y ≤ key d := by
                rw [List.countP_eq_length.mpr fun y hy =>
                  decide_eq_true (hsel.le_left d hleft y hy), hlen]
            _ ≤ sorted.countP fun y => key y ≤ key d := hsub.countP_le _
        exact hfew hmany
  · rintro ⟨hw, hl⟩ s
    have hperm := s.perm sorted
    have hs := s.sorted sorted
    generalize s.sort sorted = l at hperm hs
    have hcount : ∀ p : β → Bool, l.countP p = sorted.countP p := hperm.countP_eq
    have hsub : (l.take m).Subperm (right ++ wrong) :=
      (List.take_sublist m l).subperm.trans (hperm.trans hsorted).subperm
    have hright : ∀ x ∈ l.take m, x ∉ wrong := by
      intro x hx hxw
      have hfew := countP_lt_of_mem_take hs hx
      rw [hcount] at hfew
      exact absurd (hw x hxw) (not_le.mpr hfew)
    have hrc : (l.take m).Subperm c := by
      have hfilter := hsub.filter fun x => x ∉ wrong
      rw [List.filter_eq_self.mpr fun x hx => decide_eq_true (hright x hx), List.filter_append,
        List.filter_eq_nil_iff (l := wrong) |>.mpr fun x hx => by simpa using hx,
        List.append_nil] at hfilter
      exact hfilter.trans ((List.filter_sublist).subperm.trans
        ((List.sublist_append_left right lost).subperm.trans hc.symm.subperm))
    refine ⟨hrc, ?_, fun d hd x hx => ?_⟩
    · rcases Nat.lt_or_ge sorted.length m with hshort | hlong
      · -- as all are taken, none is wrong and none is lost
        have hfew : ∀ p : β → Bool, ¬ m ≤ sorted.countP p := fun p h =>
          absurd (h.trans List.countP_le_length) (not_le.mpr hshort)
        obtain rfl : wrong = [] := List.eq_nil_iff_forall_not_mem.mpr fun w h => hfew _ (hw w h)
        obtain rfl : lost = [] := List.eq_nil_iff_forall_not_mem.mpr fun d h => hfew _ (hl d h)
        have hlen : c.length = sorted.length := (hc.trans hsorted.symm).length_eq
        rw [List.length_take, hperm.length_eq, hlen, Nat.min_comm]
      · have hlen : (l.take m).length = m := by
          rw [List.length_take, hperm.length_eq, Nat.min_eq_left hlong]
        have hle := hrc.length_le
        rw [hlen] at hle ⊢
        exact (Nat.min_eq_right hle).symm
    · by_cases hdl : d ∈ lost
      · have hmany := hl d hdl
        rw [← hcount] at hmany
        exact le_of_le_countP hs hmany hx
      · -- it was sorted, and not taken
        have hmore : (l.take m).count d < l.count d := by
          rw [← List.count_pos_iff, List.count_diff, hc.count_eq, List.count_append,
            List.count_eq_zero_of_not_mem hdl] at hd
          rw [hperm.count_eq, hsorted.count_eq, List.count_append]
          omega
        refine le_of_mem_take_of_mem_drop hs hx ?_
        rw [← List.take_append_drop m l, List.count_append] at hmore
        rw [List.take_append_drop] at hmore
        exact List.count_pos_iff.mp (by omega)

end Ties

end StableSort
