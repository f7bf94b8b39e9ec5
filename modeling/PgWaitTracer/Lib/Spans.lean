import Mathlib.Data.List.Perm.Basic
import Mathlib.Data.Set.Basic
import Mathlib.Order.Interval.Set.Defs
import Mathlib.Order.Lattice

/-!
# Lists of half-open spans

A span is a half-open interval of numbers. A list of spans is sorted and merged by insertion and one
pass over the result, and the parts of an interval that it leaves uncovered are found by walking
along it. Spans that follow each other without a hole tile an interval.

## Main definitions

* `Span`, `Spans.cover`: the numbers in some span of a list.
* `Spans.normalize`: sort by start, then merge what overlaps or touches.
* `Spans.Normalized`: sorted, and each span ends before the next one starts.
* `Spans.gaps`: the parts of an interval outside a list.
* `Spans.Tiles`: each span starts where the one before it stops.

## Main results

* `Spans.cover_normalize`, `Spans.pairwise_normalize`, `Spans.normalized_normalize`.
* `Spans.mem_cover_gaps`, `Spans.gaps_ordered`: the gaps are what the list does not cover.
* `Spans.Tiles.cover_eq`, `Spans.Tiles.pairwise`: a tiling is a partition.
-/

/-- A half-open interval. -/
structure Span where
  start : ℕ
  stop : ℕ
  deriving DecidableEq, Repr

namespace Spans

/-- The numbers in some span. -/
def cover (l : List Span) : Set ℕ := {t | ∃ s ∈ l, s.start ≤ t ∧ t < s.stop}

variable {l : List Span}

@[simp] theorem mem_cover {t : ℕ} :
    t ∈ cover l ↔ ∃ s ∈ l, s.start ≤ t ∧ t < s.stop := Iff.rfl

@[simp] theorem cover_nil : cover [] = ∅ := by
  ext t
  simp

theorem mem_cover_cons {s : Span} {t : ℕ} :
    t ∈ cover (s :: l) ↔ (s.start ≤ t ∧ t < s.stop) ∨ t ∈ cover l := by
  simp

/-- A span ends before another one starts. -/
def Before (a b : Span) : Prop := a.start ≤ b.start ∧ a.stop < b.start

/-- Spans with an end past their start, sorted and apart from each other. -/
structure Normalized (l : List Span) : Prop where
  ordered : ∀ s ∈ l, s.start ≤ s.stop
  apart : l.Pairwise Before

/-! ### Sorting -/

/-- A span is inserted behind those that do not start later. -/
def insertByStart (x : Span) : List Span → List Span
  | [] => [x]
  | y :: l => if y.start ≤ x.start then y :: insertByStart x l else x :: y :: l

/-- Insertion sort by start. -/
def sortByStart (l : List Span) : List Span := l.foldl (fun l x => insertByStart x l) []

/-- Starts do not decrease. -/
def Sorted (l : List Span) : Prop := l.Pairwise fun a b => a.start ≤ b.start

theorem perm_insertByStart (x : Span) (l : List Span) : (insertByStart x l).Perm (x :: l) := by
  induction l with
  | nil => exact List.Perm.refl _
  | cons y l ih =>
    rw [insertByStart]
    split_ifs
    · exact (ih.cons y).trans (List.Perm.swap x y l)
    · exact List.Perm.refl _

theorem Sorted.insertByStart {l : List Span} (h : Sorted l) (x : Span) :
    Sorted (insertByStart x l) := by
  induction l with
  | nil => exact List.pairwise_singleton _ _
  | cons y l ih =>
    obtain ⟨hy, hl⟩ := List.pairwise_cons.1 h
    rw [Spans.insertByStart]
    split_ifs with hle
    · refine List.pairwise_cons.2 ⟨fun z hz => ?_, ih hl⟩
      rcases List.mem_cons.1 ((perm_insertByStart x l).subset hz) with rfl | hz
      · exact hle
      · exact hy z hz
    · refine List.pairwise_cons.2 ⟨fun z hz => ?_, h⟩
      rcases List.mem_cons.1 hz with rfl | hz
      · omega
      · have := hy z hz
        omega

theorem foldl_insertByStart (l acc : List Span) (h : Sorted acc) :
    Sorted (l.foldl (fun l x => insertByStart x l) acc) ∧
      (l.foldl (fun l x => insertByStart x l) acc).Perm (acc ++ l) := by
  induction l generalizing acc with
  | nil => exact ⟨h, by rw [List.append_nil]; exact List.Perm.refl _⟩
  | cons x l ih =>
    obtain ⟨hs, hp⟩ := ih _ (h.insertByStart x)
    refine ⟨hs, hp.trans ?_⟩
    exact ((perm_insertByStart x acc).append_right l).trans List.perm_middle.symm

theorem sorted_sortByStart (l : List Span) : Sorted (sortByStart l) :=
  (foldl_insertByStart l [] List.Pairwise.nil).1

theorem mem_sortByStart {s : Span} : s ∈ sortByStart l ↔ s ∈ l :=
  (foldl_insertByStart l [] List.Pairwise.nil).2.mem_iff

/-! ### Merging -/

/-- A span with the end of another one, if that is later. -/
def extend (w s : Span) : Span := { w with stop := if w.stop < s.stop then s.stop else w.stop }

theorem extend_start (w s : Span) : (extend w s).start = w.start := rfl

theorem extend_stop (w s : Span) : (extend w s).stop = max w.stop s.stop := by
  rw [extend]
  dsimp only
  split_ifs <;> omega

/-- The spans from `w` on, merged where one starts no later than the last one ends. -/
def coalesce (w : Span) : List Span → List Span
  | [] => [w]
  | s :: l =>
    if s.start ≤ w.stop then coalesce (extend w s) l else w :: coalesce s l

/-- The list sorted and merged. -/
def normalize (l : List Span) : List Span :=
  match sortByStart l with
  | [] => []
  | w :: l => coalesce w l

theorem Sorted.extend {w x : Span} {l : List Span} (h : Sorted (w :: x :: l)) :
    Sorted (extend w x :: l) := by
  obtain ⟨hw, hl⟩ := List.pairwise_cons.1 h
  exact List.pairwise_cons.2 ⟨fun z hz => hw z (List.mem_cons_of_mem x hz),
    (List.pairwise_cons.1 hl).2⟩

theorem start_le_of_mem_coalesce {w : Span} (h : Sorted (w :: l)) :
    ∀ s ∈ coalesce w l, w.start ≤ s.start := by
  induction l generalizing w with
  | nil =>
    intro s hs
    rw [List.mem_singleton.1 hs]
  | cons x l ih =>
    obtain ⟨hw, hl⟩ := List.pairwise_cons.1 h
    rw [coalesce]
    split_ifs with hle
    · exact ih h.extend
    · intro s hs
      rcases List.mem_cons.1 hs with rfl | hs
      · exact Nat.le_refl _
      · exact (hw x List.mem_cons_self).trans (ih hl s hs)

theorem pairwise_coalesce {w : Span} (h : Sorted (w :: l)) : (coalesce w l).Pairwise Before := by
  induction l generalizing w with
  | nil => exact List.pairwise_singleton _ _
  | cons x l ih =>
    obtain ⟨hw, hl⟩ := List.pairwise_cons.1 h
    rw [coalesce]
    split_ifs with hle
    · exact ih h.extend
    · refine List.pairwise_cons.2 ⟨fun s hs => ?_, ih hl⟩
      have hstart := start_le_of_mem_coalesce hl s hs
      have hx := hw x List.mem_cons_self
      exact ⟨by omega, by omega⟩

theorem mem_cover_coalesce {w : Span} (h : Sorted (w :: l)) (t : ℕ) :
    t ∈ cover (coalesce w l) ↔ t ∈ cover (w :: l) := by
  induction l generalizing w with
  | nil => rfl
  | cons x l ih =>
    obtain ⟨hw, hl⟩ := List.pairwise_cons.1 h
    rw [coalesce]
    split_ifs with hle
    · rw [ih h.extend, mem_cover_cons, mem_cover_cons, mem_cover_cons, ← or_assoc]
      refine or_congr_left ?_
      have hx := hw x List.mem_cons_self
      -- the span that is merged starts inside the last one or where it ends
      rw [extend_start, extend_stop]
      omega
    · rw [mem_cover_cons, ih hl, ← mem_cover_cons]

theorem ordered_coalesce {w : Span} (h : ∀ s ∈ w :: l, s.start ≤ s.stop) :
    ∀ s ∈ coalesce w l, s.start ≤ s.stop := by
  induction l generalizing w with
  | nil => exact h
  | cons x l ih =>
    obtain ⟨hw, hx, hl⟩ := by simpa only [List.forall_mem_cons] using h
    rw [coalesce]
    split_ifs with hle
    · refine ih (List.forall_mem_cons.2 ⟨?_, hl⟩)
      rw [extend_start, extend_stop]
      omega
    · exact List.forall_mem_cons.2 ⟨hw, ih (List.forall_mem_cons.2 ⟨hx, hl⟩)⟩

/-- **Sorted and apart**, whatever the list. -/
theorem pairwise_normalize (l : List Span) : (normalize l).Pairwise Before := by
  have h := sorted_sortByStart l
  rw [normalize]
  split
  · exact List.Pairwise.nil
  · rename_i w l' hl
    exact pairwise_coalesce (hl ▸ h)

/-- **The same numbers are covered.** -/
theorem cover_normalize (l : List Span) : cover (normalize l) = cover l := by
  have h := sorted_sortByStart l
  have hmem : cover (sortByStart l) = cover l := by
    ext t
    simp only [mem_cover, mem_sortByStart]
  rw [← hmem, normalize]
  split
  · rename_i hl
    rw [hl]
  · rename_i w l' hl
    rw [hl]
    exact Set.ext fun t => mem_cover_coalesce (hl ▸ h) t

theorem normalized_normalize (h : ∀ s ∈ l, s.start ≤ s.stop) : Normalized (normalize l) := by
  refine ⟨?_, pairwise_normalize l⟩
  have hsort : ∀ s ∈ sortByStart l, s.start ≤ s.stop := fun s hs => h s (mem_sortByStart.1 hs)
  rw [normalize]
  split
  · exact fun _ hs => absurd hs List.not_mem_nil
  · rename_i w l' hl
    exact ordered_coalesce (hl ▸ hsort)

/-! ### Gaps -/

/-- The parts from `cursor` to `stop` outside the spans of a list. -/
def gaps (stop : ℕ) : ℕ → List Span → List Span
  | cursor, [] => if cursor < stop then [⟨cursor, stop⟩] else []
  | cursor, s :: l =>
    if cursor < stop then
      if stop ≤ s.start then [⟨cursor, stop⟩]
      else
        (if cursor < s.start then [⟨cursor, s.start⟩] else []) ++
          gaps stop (if cursor < s.stop then min s.stop stop else cursor) l
    else []

theorem mem_cover_append {l' : List Span} {t : ℕ} :
    t ∈ cover (l ++ l') ↔ t ∈ cover l ∨ t ∈ cover l' := by
  simp only [mem_cover, List.mem_append, or_and_right, exists_or]

theorem mem_cover_singleton {s : Span} {t : ℕ} : t ∈ cover [s] ↔ s.start ≤ t ∧ t < s.stop := by
  simp

/-- **The gaps are what the list does not cover.** -/
theorem mem_cover_gaps (h : Normalized l) (stop cursor t : ℕ) :
    t ∈ cover (gaps stop cursor l) ↔ (cursor ≤ t ∧ t < stop) ∧ t ∉ cover l := by
  induction l generalizing cursor with
  | nil =>
    rw [gaps, cover_nil]
    split_ifs with hlt
    · rw [mem_cover_singleton]
      simp
    · simp
      omega
  | cons s l ih =>
    obtain ⟨hord, hl⟩ := List.forall_mem_cons.1 h.ordered
    obtain ⟨hs, hpair⟩ := List.pairwise_cons.1 h.apart
    have ih := ih ⟨hl, hpair⟩
    -- the spans behind this one start past its end
    have hlater : t ∈ cover l → s.stop < t := by
      rintro ⟨x, hx, hxt, -⟩
      have := (hs x hx).2
      omega
    rw [gaps]
    by_cases hlt : cursor < stop
    · rw [if_pos hlt]
      by_cases hstop : stop ≤ s.start
      · rw [if_pos hstop, mem_cover_singleton, mem_cover_cons]
        refine ⟨fun ht => ⟨ht, ?_⟩, fun ht => ht.1⟩
        dsimp only at ht
        rintro (hin | hin)
        · omega
        · have := hlater hin
          omega
      · rw [if_neg hstop, mem_cover_append, ih, mem_cover_cons]
        have hpart : t ∈ cover (if cursor < s.start then [⟨cursor, s.start⟩] else []) ↔
            cursor ≤ t ∧ t < s.start := by
          split_ifs
          · exact mem_cover_singleton
          · simp only [cover_nil, Set.mem_empty_iff_false, false_iff]
            omega
        rw [hpart]
        by_cases hin : t ∈ cover l
        · have := hlater hin
          simp only [hin, not_true, and_false, or_false, or_true, iff_false]
          omega
        · simp only [hin, not_false_eq_true, and_true, or_false]
          split_ifs <;> omega
    · rw [if_neg hlt, cover_nil]
      simp only [Set.mem_empty_iff_false, false_iff]
      omega

/-- The gaps are in order, apart from each other and inside the interval. -/
theorem gaps_ordered (h : Normalized l) (stop cursor : ℕ) :
    (gaps stop cursor l).Pairwise (fun a b => a.stop ≤ b.start) ∧
      ∀ s ∈ gaps stop cursor l, cursor ≤ s.start ∧ s.start < s.stop ∧ s.stop ≤ stop := by
  induction l generalizing cursor with
  | nil =>
    rw [gaps]
    split_ifs with hlt
    · refine ⟨List.pairwise_singleton _ _, fun s hs => ?_⟩
      rw [List.mem_singleton.1 hs]
      exact ⟨Nat.le_refl _, hlt, Nat.le_refl _⟩
    · exact ⟨List.Pairwise.nil, fun _ hs => absurd hs List.not_mem_nil⟩
  | cons s l ih =>
    obtain ⟨hord, hl⟩ := List.forall_mem_cons.1 h.ordered
    obtain ⟨-, hpair⟩ := List.pairwise_cons.1 h.apart
    rw [gaps]
    by_cases hlt : cursor < stop
    · rw [if_pos hlt]
      by_cases hstop : stop ≤ s.start
      · rw [if_pos hstop]
        refine ⟨List.pairwise_singleton _ _, fun x hx => ?_⟩
        rw [List.mem_singleton.1 hx]
        exact ⟨Nat.le_refl _, hlt, Nat.le_refl _⟩
      · rw [if_neg hstop]
        obtain ⟨hpw, hin⟩ := ih ⟨hl, hpair⟩ (if cursor < s.stop then min s.stop stop else cursor)
        by_cases hgap : cursor < s.start
        · rw [if_pos hgap, List.singleton_append]
          refine ⟨List.pairwise_cons.2 ⟨fun x hx => ?_, hpw⟩, List.forall_mem_cons.2 ⟨?_, fun x hx => ?_⟩⟩
          · have := (hin x hx).1
            dsimp only
            split_ifs at this <;> omega
          · exact ⟨Nat.le_refl _, hgap, by dsimp only; omega⟩
          · have := hin x hx
            split_ifs at this <;> omega
        · rw [if_neg hgap, List.nil_append]
          refine ⟨hpw, fun x hx => ?_⟩
          have := hin x hx
          split_ifs at this <;> omega
    · rw [if_neg hlt]
      exact ⟨List.Pairwise.nil, fun _ hx => absurd hx List.not_mem_nil⟩

theorem length_gaps_le (l : List Span) (stop cursor : ℕ) :
    (gaps stop cursor l).length ≤ (l.takeWhile fun s => s.start < stop).length + 1 := by
  induction l generalizing cursor with
  | nil =>
    rw [gaps]
    split_ifs <;> simp
  | cons s l ih =>
    rw [gaps]
    by_cases hlt : cursor < stop
    · rw [if_pos hlt]
      by_cases hstop : stop ≤ s.start
      · rw [if_pos hstop]
        simp
      · have htake : (s :: l).takeWhile (fun s => s.start < stop) =
            s :: l.takeWhile fun s => s.start < stop := by
          rw [List.takeWhile_cons_of_pos]
          simpa using hstop
        have hle := ih (if cursor < s.stop then min s.stop stop else cursor)
        have hpart : (if cursor < s.start then [(⟨cursor, s.start⟩ : Span)] else []).length ≤ 1 := by
          split_ifs <;> simp
        rw [if_neg hstop, htake, List.length_append, List.length_cons]
        omega
    · rw [if_neg hlt]
      exact Nat.zero_le _

theorem gaps_drop (h : Normalized l) {n : ℕ} {stop cursor : ℕ}
    (hn : ∀ s ∈ l.take n, s.stop ≤ cursor) (t : ℕ) :
    t ∈ cover (gaps stop cursor (l.drop n)) ↔ (cursor ≤ t ∧ t < stop) ∧ t ∉ cover l := by
  have hdrop : Normalized (l.drop n) :=
    ⟨fun s hs => h.ordered s (List.mem_of_mem_drop hs), h.apart.drop⟩
  rw [mem_cover_gaps hdrop]
  refine and_congr_right fun ht => not_congr ?_
  conv_rhs => rw [← List.take_append_drop n l]
  rw [mem_cover_append]
  refine ⟨Or.inr, ?_⟩
  rintro (⟨s, hs, -, hlt⟩ | hin)
  · have := hn s hs
    omega
  · exact hin

/-! ### Tilings -/

/-- Spans from `lo` to `hi`, each of which starts where the one before it stops. -/
def Tiles : ℕ → ℕ → List Span → Prop
  | lo, hi, [] => lo = hi
  | lo, hi, s :: l => s.start = lo ∧ s.start ≤ s.stop ∧ Tiles s.stop hi l

theorem Tiles.le {lo hi : ℕ} (h : Tiles lo hi l) : lo ≤ hi := by
  induction l generalizing lo with
  | nil => exact Nat.le_of_eq h
  | cons s l ih =>
    obtain ⟨rfl, hs, hl⟩ := h
    exact hs.trans (ih hl)

theorem Tiles.snoc {lo mid hi : ℕ} (h : Tiles lo mid l) (hle : mid ≤ hi) :
    Tiles lo hi (l ++ [⟨mid, hi⟩]) := by
  induction l generalizing lo with
  | nil =>
    obtain rfl : lo = mid := h
    exact ⟨rfl, hle, rfl⟩
  | cons s l ih => exact ⟨h.1, h.2.1, ih h.2.2⟩

theorem Tiles.mem {lo hi : ℕ} (h : Tiles lo hi l) {s : Span} (hs : s ∈ l) :
    lo ≤ s.start ∧ s.start ≤ s.stop ∧ s.stop ≤ hi := by
  induction l generalizing lo with
  | nil => cases hs
  | cons a l ih =>
    obtain ⟨rfl, ha, hl⟩ := h
    rcases List.mem_cons.1 hs with rfl | hs
    · exact ⟨le_refl _, ha, hl.le⟩
    · obtain ⟨hlo, hspan⟩ := ih hl hs
      exact ⟨ha.trans hlo, hspan⟩

/-- **A tiling covers the interval.** -/
theorem Tiles.cover_eq {lo hi : ℕ} (h : Tiles lo hi l) : cover l = Set.Ico lo hi := by
  ext t
  rw [Set.mem_Ico]
  induction l generalizing lo with
  | nil =>
    obtain rfl : lo = hi := h
    simp
  | cons s l ih =>
    obtain ⟨rfl, hs, hl⟩ := h
    have hle := hl.le
    rw [mem_cover_cons, ih hl]
    omega

/-- **A tiling is of spans apart from each other.** -/
theorem Tiles.pairwise {lo hi : ℕ} (h : Tiles lo hi l) :
    l.Pairwise fun a b => a.stop ≤ b.start := by
  induction l generalizing lo with
  | nil => exact List.Pairwise.nil
  | cons s l ih => exact List.pairwise_cons.2 ⟨fun b hb => (h.2.2.mem hb).1, ih h.2.2⟩

end Spans
