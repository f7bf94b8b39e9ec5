import Mathlib.Data.List.Chain
import PgWaitTracer.Server.Fidelity

/-!
# The ranges of a window and its fidelity

The ranges of `windowFidelityRanges` divide the window: they meet, neighbours differ, an instant is
in an exact range when some generation covers it exactly, and in a sampled range only when a sampled
span covers it. What can be read off the ranges agrees with the verdict of `windowFidelity` unless
every sampled span that makes the verdict is hidden by the exact spans of other generations: the
verdict compares a sampled span with the exact coverage of its own generation only.

## Main results

* `sweepRanges_charted` : the sweep charts the window.
* `windowFidelityRanges_correct_iff` : the ranges are correct exactly when the sampled spans are
  visible.
-/

namespace PgWaitTracer

open Spans

/-! ### Span lists of bounded size -/

variable {out : List FidRange} {cut dst dst' ex ex₀ l sm sm₀ : List Span} {gc : PlacedCov}
  {s : Span} {cursor fromWall start stop t toWall : ℕ}

theorem mem_cover_fidSpanPush {l' : List Span} (h : fidSpanPush l s = some l') (t : ℕ) :
    t ∈ cover l' ↔ t ∈ cover l ∨ (s.start ≤ t ∧ t < s.stop) := by
  rw [fidSpanPush] at h
  split_ifs at h with hempty hfull
  · obtain rfl := Option.some.inj h
    refine ⟨Or.inl, ?_⟩
    rintro (hin | hin)
    · exact hin
    · omega
  · obtain rfl := Option.some.inj h
    rw [mem_cover_append, mem_cover_singleton]

theorem mem_cover_foldlM {α : Type*} {f : List Span → α → Option (List Span)} {S : α → ℕ → Prop}
    (hf : ∀ acc x acc', f acc x = some acc' → ∀ t, t ∈ cover acc' ↔ t ∈ cover acc ∨ S x t)
    {l : List α} {acc r : List Span} (h : l.foldlM f acc = some r) (t : ℕ) :
    t ∈ cover r ↔ t ∈ cover acc ∨ ∃ x ∈ l, S x t := by
  induction l generalizing acc with
  | nil =>
    obtain rfl := Option.some.inj h
    simp
  | cons x l ih =>
    rw [List.foldlM_cons, Option.bind_eq_bind, Option.bind_eq_some_iff] at h
    obtain ⟨acc', hx, h⟩ := h
    rw [ih h, hf acc x acc' hx]
    simp only [List.mem_cons, exists_eq_or_imp, or_assoc]

theorem mem_cover_pushBefore {c : Span} (h : pushBefore stop c cursor dst = some dst')
    (hc : c.start < stop) (t : ℕ) :
    t ∈ cover dst' ↔ t ∈ cover dst ∨ (cursor ≤ t ∧ t < c.start) := by
  rw [pushBefore, if_pos hc] at h
  split_ifs at h with hgap
  · exact mem_cover_fidSpanPush h t
  · obtain rfl := Option.some.inj h
    refine ⟨Or.inl, ?_⟩
    rintro (hin | hin)
    · exact hin
    · omega

/-- What the cuts leave, together with what is left behind the last one. -/
theorem mem_cover_subtractCuts (hcut : Sorted cut) {r : ℕ × List Span}
    (h : subtractCuts stop cut cursor dst = some r) (t : ℕ) :
    t ∈ cover r.2 ∨ (r.1 ≤ t ∧ t < stop) ↔
      t ∈ cover dst ∨ ((cursor ≤ t ∧ t < stop) ∧ t ∉ cover cut) := by
  induction cut generalizing cursor dst with
  | nil =>
    obtain rfl := Option.some.inj h
    simp
  | cons c cut ih =>
    obtain ⟨hstart, hsorted⟩ := List.pairwise_cons.1 hcut
    have hlater : t ∈ cover cut → c.start ≤ t := by
      rintro ⟨x, hx, hxt, -⟩
      exact (hstart x hx).trans hxt
    rw [subtractCuts] at h
    rw [mem_cover_cons]
    by_cases hend : stop ≤ cursor
    · rw [if_pos hend] at h
      obtain rfl := Option.some.inj h
      refine or_congr_right ⟨fun ht => ?_, fun ht => ht.1⟩
      omega
    rw [if_neg hend] at h
    by_cases hpast : c.stop ≤ cursor
    · rw [if_pos hpast] at h
      rw [ih hsorted h]
      refine or_congr_right (and_congr_right fun ht => not_congr ⟨Or.inr, ?_⟩)
      rintro (hin | hin)
      · omega
      · exact hin
    rw [if_neg hpast] at h
    by_cases hbeyond : stop ≤ c.start
    · rw [if_pos hbeyond] at h
      obtain rfl := Option.some.inj h
      refine or_congr_right ⟨fun ht => ⟨ht, ?_⟩, fun ht => ht.1⟩
      rintro (hin | hin)
      · omega
      · have := hlater hin
        omega
    rw [if_neg hbeyond, Option.bind_eq_bind, Option.bind_eq_some_iff] at h
    obtain ⟨dst', hdst, h⟩ := h
    rw [ih hsorted h, mem_cover_pushBefore hdst (Nat.not_le.1 hbeyond), or_assoc]
    refine or_congr_right ?_
    by_cases hin : t ∈ cover cut
    · have := hlater hin
      simp only [hin, not_true, and_false, or_true, or_false, iff_false]
      omega
    · simp only [hin, not_false_eq_true, and_true, or_false]
      split_ifs <;> omega

theorem mem_cover_subtractSpan (hcut : Sorted cut) (h : subtractSpan cut dst s = some dst')
    (t : ℕ) : t ∈ cover dst' ↔ t ∈ cover dst ∨ ((s.start ≤ t ∧ t < s.stop) ∧ t ∉ cover cut) := by
  rw [subtractSpan, Option.bind_eq_bind, Option.bind_eq_some_iff] at h
  obtain ⟨r, hcuts, h⟩ := h
  rw [← mem_cover_subtractCuts hcut hcuts]
  dsimp only at h
  split_ifs at h with hrest
  · exact mem_cover_fidSpanPush h t
  · obtain rfl := Option.some.inj h
    refine ⟨Or.inl, ?_⟩
    rintro (hin | hin)
    · exact hin
    · omega

/-- **What is left of the spans is what the cuts do not cover.** -/
theorem mem_cover_fidSpansSubtract {src : List Span} (hcut : Sorted cut)
    (h : fidSpansSubtract src cut = some dst) (t : ℕ) :
    t ∈ cover dst ↔ t ∈ cover src ∧ t ∉ cover cut := by
  rw [mem_cover_foldlM (S := fun s t => (s.start ≤ t ∧ t < s.stop) ∧ t ∉ cover cut)
    (fun acc x acc' hx t => mem_cover_subtractSpan hcut hx t) h]
  simp only [cover_nil, Set.mem_empty_iff_false, false_or, mem_cover]
  constructor
  · rintro ⟨s, hs, ht, hout⟩
    exact ⟨⟨s, hs, ht⟩, hout⟩
  · rintro ⟨⟨s, hs, ht⟩, hout⟩
    exact ⟨s, hs, ht, hout⟩

/-! ### The order of what is left -/

/-- Sorted spans that start no later than `b`. -/
structure SortedUpTo (b : ℕ) (l : List Span) : Prop where
  sorted : Sorted l
  start_le : ∀ s ∈ l, s.start ≤ b

theorem SortedUpTo.mono {b b' : ℕ} (h : SortedUpTo b l) (hb : b ≤ b') : SortedUpTo b' l :=
  ⟨h.sorted, fun s hs => (h.start_le s hs).trans hb⟩

theorem SortedUpTo.push {l' : List Span} (h : SortedUpTo s.start l)
    (hpush : fidSpanPush l s = some l') : SortedUpTo s.start l' := by
  rw [fidSpanPush] at hpush
  split_ifs at hpush
  · obtain rfl := Option.some.inj hpush
    exact h
  · obtain rfl := Option.some.inj hpush
    refine ⟨List.pairwise_append.2 ⟨h.sorted, List.pairwise_singleton _ _, ?_⟩, ?_⟩
    · intro a ha b hb
      rw [List.mem_singleton.1 hb]
      exact h.start_le a ha
    · intro a ha
      rcases List.mem_append.1 ha with ha | ha
      · exact h.start_le a ha
      · rw [List.mem_singleton.1 ha]

theorem SortedUpTo.pushBefore {c : Span} (h : SortedUpTo cursor dst)
    (hpush : pushBefore stop c cursor dst = some dst') : SortedUpTo cursor dst' := by
  rw [PgWaitTracer.pushBefore] at hpush
  by_cases hgap : cursor < c.start
  · rw [if_pos hgap] at hpush
    exact SortedUpTo.push h hpush
  · rw [if_neg hgap] at hpush
    obtain rfl := Option.some.inj hpush
    exact h

theorem SortedUpTo.subtractCuts {r : ℕ × List Span} (h : SortedUpTo cursor dst)
    (hle : cursor ≤ stop) (hcuts : subtractCuts stop cut cursor dst = some r) :
    SortedUpTo r.1 r.2 ∧ r.1 ≤ stop := by
  induction cut generalizing cursor dst with
  | nil =>
    obtain rfl := Option.some.inj hcuts
    exact ⟨h, hle⟩
  | cons c cut ih =>
    rw [PgWaitTracer.subtractCuts] at hcuts
    by_cases hend : stop ≤ cursor
    · rw [if_pos hend] at hcuts
      obtain rfl := Option.some.inj hcuts
      exact ⟨h, hle⟩
    rw [if_neg hend] at hcuts
    by_cases hpast : c.stop ≤ cursor
    · rw [if_pos hpast] at hcuts
      exact ih h hle hcuts
    rw [if_neg hpast] at hcuts
    by_cases hbeyond : stop ≤ c.start
    · rw [if_pos hbeyond] at hcuts
      obtain rfl := Option.some.inj hcuts
      exact ⟨h, hle⟩
    rw [if_neg hbeyond, Option.bind_eq_bind, Option.bind_eq_some_iff] at hcuts
    obtain ⟨dst', hdst, hcuts⟩ := hcuts
    refine ih ((h.pushBefore hdst).mono ?_) ?_ hcuts <;> split_ifs <;> omega

theorem SortedUpTo.subtractSpan (h : SortedUpTo s.start dst) (hs : s.start ≤ s.stop)
    (hsub : subtractSpan cut dst s = some dst') : SortedUpTo s.stop dst' := by
  rw [PgWaitTracer.subtractSpan, Option.bind_eq_bind, Option.bind_eq_some_iff] at hsub
  obtain ⟨r, hcuts, hsub⟩ := hsub
  obtain ⟨hr, hle⟩ := h.subtractCuts hs hcuts
  dsimp only at hsub
  split_ifs at hsub
  · exact (SortedUpTo.push hr hsub).mono hle
  · obtain rfl := Option.some.inj hsub
    exact hr.mono hle

theorem sorted_foldlM_subtractSpan {src : List Span} (hsrc : Normalized src) {b : ℕ}
    {acc : List Span} (hacc : SortedUpTo b acc) (hb : ∀ s ∈ src, b ≤ s.start)
    (h : src.foldlM (subtractSpan cut) acc = some dst) : Sorted dst := by
  induction src generalizing b acc with
  | nil =>
    obtain rfl := Option.some.inj h
    exact hacc.sorted
  | cons s src ih =>
    rw [List.foldlM_cons, Option.bind_eq_bind, Option.bind_eq_some_iff] at h
    obtain ⟨acc', hs, h⟩ := h
    obtain ⟨hord, hords⟩ := List.forall_mem_cons.1 hsrc.ordered
    obtain ⟨hbefore, happart⟩ := List.pairwise_cons.1 hsrc.apart
    have hacc' := (hacc.mono (hb s List.mem_cons_self)).subtractSpan hord hs
    exact ih ⟨hords, happart⟩ hacc' (fun x hx => (hbefore x hx).2.le) h

theorem sorted_fidSpansSubtract {src : List Span} (hsrc : Normalized src)
    (h : fidSpansSubtract src cut = some dst) : Sorted dst :=
  sorted_foldlM_subtractSpan hsrc ⟨.nil, fun _ hs => absurd hs List.not_mem_nil⟩
    (fun _ _ => Nat.zero_le _) h

/-! ### The union -/

instance : Std.Total fidSpanLe := ⟨fun a b => by
  rw [fidSpanLe, fidSpanLe]
  omega⟩

instance : IsTrans Span fidSpanLe := ⟨fun a b c hab hbc => by
  rw [fidSpanLe] at *
  omega⟩

theorem sorted_insertionSort_fidSpanLe (l : List Span) : Sorted (l.insertionSort fidSpanLe) := by
  refine (List.pairwise_insertionSort fidSpanLe l).imp fun {a b} hab => ?_
  rw [fidSpanLe] at hab
  omega

theorem mem_cover_fidSpansUnion (l : List Span) (t : ℕ) :
    t ∈ cover (fidSpansUnion l) ↔ t ∈ cover l := by
  have hsorted := sorted_insertionSort_fidSpanLe l
  have hmem : t ∈ cover (l.insertionSort fidSpanLe) ↔ t ∈ cover l := by
    simp only [mem_cover, List.mem_insertionSort]
  rw [fidSpansUnion, ← hmem]
  cases hl : l.insertionSort fidSpanLe with
  | nil => rfl
  | cons w l' => exact mem_cover_coalesce (hl ▸ hsorted) t

theorem normalized_fidSpansUnion (h : ∀ s ∈ l, s.start ≤ s.stop) :
    Normalized (fidSpansUnion l) := by
  have hsorted := sorted_insertionSort_fidSpanLe l
  have hord : ∀ s ∈ l.insertionSort fidSpanLe, s.start ≤ s.stop := fun s hs =>
    h s ((List.mem_insertionSort fidSpanLe).1 hs)
  rw [fidSpansUnion]
  cases hl : l.insertionSort fidSpanLe with
  | nil => exact ⟨fun _ hs => absurd hs List.not_mem_nil, .nil⟩
  | cons w l' => exact ⟨ordered_coalesce (hl ▸ hord), pairwise_coalesce (hl ▸ hsorted)⟩

theorem sorted_of_normalized (h : Normalized l) : Sorted l :=
  h.apart.imp fun hab => hab.1

/-! ### The sweep -/

/-- The fidelity of an instant, exact before sampled. -/
def Shows (ex sm : List Span) (t : ℕ) : Fidelity → Prop
  | .exact => t ∈ cover ex
  | .sampled => t ∉ cover ex ∧ t ∈ cover sm
  | .none => t ∉ cover ex ∧ t ∉ cover sm
  | .mixed => False

/-- The ranges meet, from `start` to `stop`, and none is empty. -/
def Contiguous (start : ℕ) : List FidRange → ℕ → Prop
  | [], stop => start = stop
  | r :: l, stop => r.fromNs = start ∧ start < r.toNs ∧ Contiguous r.toNs l stop

/-- The ranges divide the time from `start` to `stop` by the fidelity of its instants. -/
structure Charted (ex sm : List Span) (start stop : ℕ) (out : List FidRange) : Prop where
  contiguous : Contiguous start out stop
  distinct : (out.map FidRange.fid).IsChain (· ≠ ·)
  shows : ∀ r ∈ out, ∀ t, r.fromNs ≤ t → t < r.toNs → Shows ex sm t r.fid

theorem contiguous_append {mid : ℕ} {l l' : List FidRange} (h : Contiguous start l mid)
    (h' : Contiguous mid l' stop) : Contiguous start (l ++ l') stop := by
  induction l generalizing start with
  | nil =>
    obtain rfl : start = mid := h
    exact h'
  | cons r l ih => exact ⟨h.1, h.2.1, ih h.2.2⟩

theorem contiguous_concat {l : List FidRange} {r : FidRange}
    (h : Contiguous start (l ++ [r]) stop) :
    Contiguous start l r.fromNs ∧ r.fromNs < r.toNs ∧ r.toNs = stop := by
  induction l generalizing start with
  | nil =>
    obtain ⟨h₁, h₂, h₃⟩ := h
    exact ⟨h₁.symm, h₁ ▸ h₂, h₃⟩
  | cons x l ih =>
    obtain ⟨h₁, h₂, h₃⟩ := h
    obtain ⟨hl, hr⟩ := ih h₃
    exact ⟨⟨h₁, h₂, hl⟩, hr⟩

/-- A range that shows one fidelity extends the chart. -/
theorem Charted.push {cap : ℕ} {fid : Fidelity} {out' : List FidRange}
    (h : Charted ex sm start cursor out) (hlt : cursor < stop)
    (hshows : ∀ t, cursor ≤ t → t < stop → Shows ex sm t fid)
    (hpush : pushRange cap out ⟨cursor, stop, fid⟩ = some out') :
    Charted ex sm start stop out' := by
  have hone : Contiguous cursor [⟨cursor, stop, fid⟩] stop := ⟨rfl, hlt, rfl⟩
  have hnew : ∀ r ∈ out ++ [⟨cursor, stop, fid⟩], ∀ t, r.fromNs ≤ t → t < r.toNs →
      Shows ex sm t r.fid := by
    intro r hr
    rcases List.mem_append.1 hr with hr | hr
    · exact h.shows r hr
    · rw [List.mem_singleton.1 hr]
      exact hshows
  rw [pushRange] at hpush
  cases hlast : out.getLast? with
  | none =>
    rw [hlast] at hpush
    dsimp only at hpush
    split_ifs at hpush
    obtain rfl := Option.some.inj hpush
    obtain rfl := List.getLast?_eq_none_iff.1 hlast
    exact ⟨contiguous_append h.contiguous hone, List.isChain_singleton _, hnew⟩
  | some last =>
    rw [hlast] at hpush
    dsimp only at hpush
    obtain ⟨l, rfl⟩ := List.getLast?_eq_some_iff.1 hlast
    obtain ⟨hfront, hle, hmeet⟩ := contiguous_concat h.contiguous
    by_cases hsame : last.fid = fid ∧ last.toNs = cursor
    · rw [if_pos hsame, List.dropLast_concat] at hpush
      obtain rfl := Option.some.inj hpush
      refine ⟨contiguous_append hfront ⟨rfl, by dsimp only; omega, rfl⟩, ?_, ?_⟩
      · simpa only [List.map_append, List.map_cons, List.map_nil] using h.distinct
      · intro r hr t hfrom hto
        rcases List.mem_append.1 hr with hr | hr
        · exact h.shows r (List.mem_append_left _ hr) t hfrom hto
        · obtain rfl := List.mem_singleton.1 hr
          by_cases ht : t < last.toNs
          · exact h.shows last (List.mem_append_right _ (List.mem_singleton_self _)) t hfrom ht
          · rw [hsame.1]
            exact hshows t (by omega) hto
    · rw [if_neg hsame] at hpush
      split_ifs at hpush
      obtain rfl := Option.some.inj hpush
      refine ⟨contiguous_append h.contiguous hone, ?_, hnew⟩
      have hfids : ((l ++ [last]) ++ [(⟨cursor, stop, fid⟩ : FidRange)]).map FidRange.fid =
          l.map FidRange.fid ++ last.fid :: fid :: [] := by simp
      have hold := h.distinct
      rw [List.map_append] at hold
      rw [hfids, List.isChain_append_cons_cons]
      exact ⟨hold, fun heq => hsame ⟨heq, hmeet⟩, List.isChain_singleton _⟩

theorem mem_cover_dropWhile (l : List Span) (ht : cursor ≤ t) :
    t ∈ cover (l.dropWhile (·.stop ≤ cursor)) ↔ t ∈ cover l := by
  induction l with
  | nil => rfl
  | cons s l ih =>
    rw [List.dropWhile_cons]
    split_ifs with hs
    · rw [ih, mem_cover_cons]
      refine ⟨Or.inr, ?_⟩
      rintro (hin | hin)
      · simp only [decide_eq_true_eq] at hs
        omega
      · exact hin
    · rfl

theorem head_dropWhile_stop (h : (l.dropWhile (·.stop ≤ cursor)).head? = some s) :
    cursor < s.stop := by
  have := List.head?_dropWhile_not (fun s : Span => decide (s.stop ≤ cursor)) l
  rw [h] at this
  simpa using this

theorem head_start_le (hl : Sorted l) (hs : l.head? = some s) (ht : t ∈ cover l) : s.start ≤ t := by
  obtain ⟨x, hx, hxt, -⟩ := ht
  cases l with
  | nil => cases hs
  | cons y l =>
    obtain rfl := Option.some.inj hs
    rcases List.mem_cons.1 hx with rfl | hx
    · exact hxt
    · exact ((List.pairwise_cons.1 hl).1 x hx).trans hxt

theorem firstStart_le (l : List Span) (stop : ℕ) : firstStart l stop ≤ stop := by
  rw [firstStart]
  split
  · split_ifs <;> omega
  · exact le_rfl

theorem lt_firstStart (hlt : cursor < stop) (hl : ∀ s, l.head? = some s → cursor < s.start) :
    cursor < firstStart l stop := by
  rw [firstStart]
  split
  · rename_i s hs
    have := hl s hs
    split_ifs <;> omega
  · exact hlt

theorem not_mem_cover_of_lt_firstStart (hl : Sorted l) (ht : t < firstStart l stop) :
    t ∉ cover l := by
  intro hin
  rw [firstStart] at ht
  split at ht
  · rename_i s hs
    have := head_start_le hl hs hin
    split_ifs at ht <;> omega
  · rename_i hnil
    rw [List.head?_eq_none_iff.1 hnil, cover_nil] at hin
    exact hin

/-- What the sweep still has to look at. -/
structure Ahead (ex₀ sm₀ : List Span) (cursor : ℕ) (ex sm : List Span) : Prop where
  exSorted : Sorted ex
  smSorted : Sorted sm
  exCover : ∀ t, cursor ≤ t → (t ∈ cover ex ↔ t ∈ cover ex₀)
  smCover : ∀ t, cursor ≤ t → (t ∈ cover sm ↔ t ∈ cover sm₀)

theorem Ahead.dropWhile (h : Ahead ex₀ sm₀ cursor ex sm) :
    Ahead ex₀ sm₀ cursor (ex.dropWhile (·.stop ≤ cursor)) (sm.dropWhile (·.stop ≤ cursor)) where
  exSorted := h.exSorted.sublist (List.dropWhile_sublist _)
  smSorted := h.smSorted.sublist (List.dropWhile_sublist _)
  exCover t ht := (mem_cover_dropWhile ex ht).trans (h.exCover t ht)
  smCover t ht := (mem_cover_dropWhile sm ht).trans (h.smCover t ht)

theorem Ahead.mono (h : Ahead ex₀ sm₀ cursor ex sm) (hle : cursor ≤ stop) :
    Ahead ex₀ sm₀ stop ex sm :=
  ⟨h.exSorted, h.smSorted, fun t ht => h.exCover t (hle.trans ht),
    fun t ht => h.smCover t (hle.trans ht)⟩

/-- **One round of the sweep.** The fidelity at the cursor lasts up to the end that `nextRange`
gives, and that end is past the cursor. -/
theorem nextRange_shows (h : Ahead ex₀ sm₀ cursor ex sm) (hdisj : ∀ t ∈ cover sm₀, t ∉ cover ex₀)
    (hex : ∀ e, ex.head? = some e → cursor < e.stop)
    (hsm : ∀ s, sm.head? = some s → cursor < s.stop) (hlt : cursor < toWall) :
    cursor < (nextRange ex sm cursor toWall).2 ∧
      ∀ t, cursor ≤ t → t < (nextRange ex sm cursor toWall).2 →
        Shows ex₀ sm₀ t (nextRange ex sm cursor toWall).1 := by
  have hmem : ∀ {l : List Span} {s : Span}, l.head? = some s → s ∈ l := fun hs =>
    List.mem_of_mem_head? hs
  rw [nextRange]
  split
  · rename_i _ _ e he
    obtain ⟨he, hstart⟩ := Option.filter_eq_some_iff.1 he
    refine ⟨hex e he, fun t ht hte => (h.exCover t ht).1 ⟨e, hmem he, ?_, hte⟩⟩
    simp only [decide_eq_true_eq] at hstart
    exact hstart.trans ht
  · rename_i _ _ s _ hs
    obtain ⟨hs, hstart⟩ := Option.filter_eq_some_iff.1 hs
    simp only [decide_eq_true_eq] at hstart
    refine ⟨hsm s hs, fun t ht hts => ?_⟩
    have hin := (h.smCover t ht).1 ⟨s, hmem hs, hstart.trans ht, hts⟩
    exact ⟨hdisj t hin, hin⟩
  · rename_i hnex hnsm
    have hexLater : ∀ e, ex.head? = some e → cursor < e.start := by
      intro e he
      rw [he] at hnex
      simpa using hnex
    have hsmLater : ∀ s, sm.head? = some s → cursor < s.start := by
      intro s hs
      rw [hs] at hnsm
      simpa using hnsm
    refine ⟨lt_firstStart (lt_firstStart hlt hexLater) hsmLater, fun t ht hstop => ?_⟩
    dsimp only at hstop
    have hexOut : t ∉ cover ex :=
      not_mem_cover_of_lt_firstStart h.exSorted (hstop.trans_le (firstStart_le sm _))
    have hsmOut : t ∉ cover sm := not_mem_cover_of_lt_firstStart h.smSorted hstop
    exact ⟨fun hin => hexOut ((h.exCover t ht).2 hin), fun hin => hsmOut ((h.smCover t ht).2 hin)⟩

/-- **The sweep charts the window.** -/
theorem sweepRanges_charted (hdisj : ∀ t ∈ cover sm₀, t ∉ cover ex₀) {cap : ℕ} (fuel : ℕ)
    {out' : List FidRange} (h : Ahead ex₀ sm₀ cursor ex sm)
    (hout : Charted ex₀ sm₀ start cursor out) (hle : cursor ≤ toWall)
    (hsweep : sweepRanges toWall cap fuel ex sm cursor out = some out') :
    Charted ex₀ sm₀ start toWall out' := by
  induction fuel generalizing ex sm cursor out with
  | zero =>
    rw [sweepRanges] at hsweep
    split_ifs at hsweep with hend
    obtain rfl := Option.some.inj hsweep
    obtain rfl : cursor = toWall := by omega
    exact hout
  | succ fuel ih =>
    rw [sweepRanges] at hsweep
    by_cases hlt : cursor < toWall
    · have hdrop := h.dropWhile
      obtain ⟨hpos, hshows⟩ := nextRange_shows hdrop hdisj (fun e he => head_dropWhile_stop he)
        (fun s hs => head_dropWhile_stop hs) hlt
      rw [if_pos hlt] at hsweep
      dsimp only at hsweep
      generalize nextRange _ _ cursor toWall = r at hsweep hpos hshows
      have hstop : ¬(if toWall < r.2 then toWall else r.2) ≤ cursor := by
        split_ifs <;> omega
      rw [if_neg hstop, Option.bind_eq_bind, Option.bind_eq_some_iff] at hsweep
      obtain ⟨out₁, hpush, hsweep⟩ := hsweep
      refine ih (hdrop.mono ?_) (hout.push ?_ (fun t ht htr => hshows t ht ?_) hpush) ?_ hsweep
      · omega
      · omega
      · split_ifs at htr <;> omega
      · split_ifs <;> omega
    · rw [if_neg hlt] at hsweep
      obtain rfl := Option.some.inj hsweep
      obtain rfl : cursor = toWall := by omega
      exact hout

/-! ### What the generations cover -/

/-- A span of the generation covers an instant of the wall clock. -/
def PlacedCov.At (gc : PlacedCov) (s : Span) (t : ℕ) : Prop :=
  (s.start : ℤ) + gc.canonOffset ≤ t ∧ (t : ℤ) < s.stop + gc.canonOffset

instance (gc : PlacedCov) (s : Span) (t : ℕ) : Decidable (gc.At s t) :=
  inferInstanceAs (Decidable (_ ∧ _))

/-- Some generation covers the instant exactly. -/
def ExactAt (gens : List PlacedCov) (t : ℕ) : Prop := ∃ gc ∈ gens, ∃ s ∈ gc.exact, gc.At s t

/-- Some generation covers the instant by samples. -/
def SampledAt (gens : List PlacedCov) (t : ℕ) : Prop := ∃ gc ∈ gens, ∃ s ∈ gc.sampled, gc.At s t

/-- A sampled span that counts for the verdict of the window. -/
def PlacedCov.Counts (gc : PlacedCov) (fromWall toWall : ℕ) (s : Span) : Prop :=
  ∃ w, gc.window fromWall toWall = some w ∧ (clip w s).start < (clip w s).stop ∧
    gc.uncovered (clip w s) = true

theorem mem_place (gc : PlacedCov) (s : Span) (t : ℕ) :
    (gc.place s).start ≤ t ∧ t < (gc.place s).stop ↔ gc.At s t := by
  simp only [PlacedCov.place, PlacedCov.At]
  omega

theorem exists_at_iff (gc : PlacedCov) (l : List Span) (t : ℕ) :
    (∃ s ∈ l, gc.At s t) ↔ ∃ u : ℕ, (u : ℤ) + gc.canonOffset = t ∧ u ∈ cover l := by
  constructor
  · rintro ⟨s, hs, hstart, hstop⟩
    exact ⟨((t : ℤ) - gc.canonOffset).toNat, by omega, s, hs, by omega, by omega⟩
  · rintro ⟨u, hu, s, hs, hstart, hstop⟩
    exact ⟨s, hs, by omega, by omega⟩

theorem at_clip {w : Span} (hw : gc.window fromWall toWall = some w) (s : Span) (t : ℕ) :
    gc.At (clip w s) t ↔ (fromWall ≤ t ∧ t < toWall) ∧ gc.At s t := by
  rw [PlacedCov.window] at hw
  split_ifs at hw with hpast
  obtain rfl := Option.some.inj hw
  simp only [clip, PlacedCov.At]
  split_ifs <;> omega

theorem not_at_of_window_none (hw : gc.window fromWall toWall = none) (s : Span) (ht : t < toWall) :
    ¬gc.At s t := by
  rw [PlacedCov.window] at hw
  split_ifs at hw with hpast
  rintro ⟨hstart, -⟩
  omega

theorem not_at_of_empty (gc : PlacedCov) (hs : s.stop ≤ s.start) (t : ℕ) : ¬gc.At s t := by
  rintro ⟨hstart, hstop⟩
  omega

theorem mem_cover_addExactSpan {w : Span} (hw : gc.window fromWall toWall = some w)
    {ex' : List Span} (h : addExactSpan gc w ex s = some ex') (t : ℕ) :
    t ∈ cover ex' ↔ t ∈ cover ex ∨ ((fromWall ≤ t ∧ t < toWall) ∧ gc.At s t) := by
  rw [← at_clip hw]
  rw [addExactSpan] at h
  split_ifs at h with hempty
  · obtain rfl := Option.some.inj h
    simp only [not_at_of_empty gc hempty t, or_false]
  · rw [mem_cover_fidSpanPush h, mem_place]

theorem mem_cover_addSampledSpan (hgc : Sorted gc.exact) {w : Span}
    (hw : gc.window fromWall toWall = some w) {sm' : List Span}
    (h : addSampledSpan gc w sm s = some sm') (t : ℕ) :
    t ∈ cover sm' ↔ t ∈ cover sm ∨ (gc.Counts fromWall toWall s ∧
      ((fromWall ≤ t ∧ t < toWall) ∧ gc.At s t) ∧ ¬∃ x ∈ gc.exact, gc.At x t) := by
  have hcounts : gc.Counts fromWall toWall s ↔
      (clip w s).start < (clip w s).stop ∧ gc.uncovered (clip w s) = true := by
    rw [PlacedCov.Counts, hw]
    simp
  rw [← at_clip hw, hcounts]
  rw [addSampledSpan] at h
  split_ifs at h with hempty hslop
  · obtain rfl := Option.some.inj h
    simp only [not_at_of_empty gc hempty t, false_and, and_false, or_false]
  · obtain rfl := Option.some.inj h
    rw [Bool.not_eq_true'] at hslop
    simp only [hslop, Bool.false_eq_true, and_false, false_and, or_false]
  · rw [Option.bind_eq_bind, Option.bind_eq_some_iff] at h
    obtain ⟨pieces, hpieces, h⟩ := h
    have hunc : gc.uncovered (clip w s) = true := by simpa using hslop
    have hcover : (∃ p ∈ pieces, gc.At p t) ↔
        gc.At (clip w s) t ∧ ¬∃ x ∈ gc.exact, gc.At x t := by
      have hone : gc.At (clip w s) t ↔ ∃ p ∈ [clip w s], gc.At p t := by simp
      simp only [hone, exists_at_iff, mem_cover_fidSpansSubtract hgc hpieces]
      constructor
      · rintro ⟨u, hu, hin, hout⟩
        refine ⟨⟨u, hu, hin⟩, ?_⟩
        rintro ⟨u', hu', hin'⟩
        obtain rfl : u' = u := by omega
        exact hout hin'
      · rintro ⟨⟨u, hu, hin⟩, hout⟩
        exact ⟨u, hu, hin, fun hin' => hout ⟨u, hu, hin'⟩⟩
    rw [mem_cover_foldlM (S := fun p t => gc.At p t)
      (fun acc p acc' hp t => (mem_cover_fidSpanPush hp t).trans
        (or_congr_right (mem_place gc p t))) h, hcover]
    simp only [hunc, Nat.not_le.1 hempty, true_and]

/-- What the two lists cover once all generations are in. -/
theorem foldlM_addGenSpans {gens : List PlacedCov} (hgens : ∀ gc ∈ gens, Sorted gc.exact)
    {acc r : List Span × List Span} (h : gens.foldlM (addGenSpans fromWall toWall) acc = some r)
    (t : ℕ) :
    (t ∈ cover r.1 ↔ t ∈ cover acc.1 ∨ ((fromWall ≤ t ∧ t < toWall) ∧ ExactAt gens t)) ∧
      (t ∈ cover r.2 ↔ t ∈ cover acc.2 ∨ ∃ gc ∈ gens, ∃ s ∈ gc.sampled,
        gc.Counts fromWall toWall s ∧ ((fromWall ≤ t ∧ t < toWall) ∧ gc.At s t) ∧
          ¬∃ x ∈ gc.exact, gc.At x t) := by
  induction gens generalizing acc with
  | nil =>
    obtain rfl := Option.some.inj h
    simp [ExactAt]
  | cons gc gens ih =>
    rw [List.foldlM_cons, Option.bind_eq_bind, Option.bind_eq_some_iff] at h
    obtain ⟨acc', hgc, h⟩ := h
    obtain ⟨hsorted, hgens⟩ := List.forall_mem_cons.1 hgens
    obtain ⟨ihex, ihsm⟩ := ih hgens h
    have hstep : (t ∈ cover acc'.1 ↔ t ∈ cover acc.1 ∨
          ((fromWall ≤ t ∧ t < toWall) ∧ ∃ s ∈ gc.exact, gc.At s t)) ∧
        (t ∈ cover acc'.2 ↔ t ∈ cover acc.2 ∨ ∃ s ∈ gc.sampled,
          gc.Counts fromWall toWall s ∧ ((fromWall ≤ t ∧ t < toWall) ∧ gc.At s t) ∧
            ¬∃ x ∈ gc.exact, gc.At x t) := by
      rw [addGenSpans] at hgc
      cases hw : gc.window fromWall toWall with
      | none =>
        rw [hw] at hgc
        obtain rfl := Option.some.inj hgc
        refine ⟨⟨Or.inl, ?_⟩, ⟨Or.inl, ?_⟩⟩
        · rintro (hin | ⟨⟨-, hto⟩, s, -, hat⟩)
          · exact hin
          · exact absurd hat (not_at_of_window_none hw s hto)
        · rintro (hin | ⟨s, -, -, ⟨⟨-, hto⟩, hat⟩, -⟩)
          · exact hin
          · exact absurd hat (not_at_of_window_none hw s hto)
      | some w =>
        rw [hw] at hgc
        dsimp only at hgc
        rw [Option.bind_eq_bind, Option.bind_eq_some_iff] at hgc
        obtain ⟨ex, hex, hgc⟩ := hgc
        rw [Option.bind_eq_some_iff] at hgc
        obtain ⟨sm, hsm, hgc⟩ := hgc
        obtain rfl := Option.some.inj hgc
        refine ⟨?_, ?_⟩
        · have hf : ∀ acc s acc', addExactSpan gc w acc s = some acc' → ∀ t, t ∈ cover acc' ↔
              t ∈ cover acc ∨ ((fromWall ≤ t ∧ t < toWall) ∧ gc.At s t) :=
            fun _ _ _ hs => mem_cover_addExactSpan hw hs
          rw [mem_cover_foldlM hf hex]
          refine or_congr_right ⟨?_, ?_⟩
          · rintro ⟨s, hs, ht, hat⟩
            exact ⟨ht, s, hs, hat⟩
          · rintro ⟨ht, s, hs, hat⟩
            exact ⟨s, hs, ht, hat⟩
        · have hf : ∀ acc s acc', addSampledSpan gc w acc s = some acc' → ∀ t, t ∈ cover acc' ↔
              t ∈ cover acc ∨ (gc.Counts fromWall toWall s ∧
                ((fromWall ≤ t ∧ t < toWall) ∧ gc.At s t) ∧ ¬∃ x ∈ gc.exact, gc.At x t) :=
            fun _ _ _ hs => mem_cover_addSampledSpan hsorted hw hs
          exact mem_cover_foldlM hf hsm t
    refine ⟨?_, ?_⟩
    · rw [ihex, hstep.1, or_assoc, ← and_or_left]
      simp only [ExactAt, List.exists_mem_cons_iff]
    · rw [ihsm, hstep.2, or_assoc]
      simp only [List.exists_mem_cons_iff]

/-- Every span ends no earlier than it starts. -/
def Ordered (l : List Span) : Prop := ∀ s ∈ l, s.start ≤ s.stop

theorem foldlM_inv {α β : Type*} {P : β → Prop} {f : β → α → Option β}
    (hf : ∀ b a b', P b → f b a = some b' → P b') {l : List α} {b r : β} (hb : P b)
    (h : l.foldlM f b = some r) : P r := by
  induction l generalizing b with
  | nil =>
    obtain rfl := Option.some.inj h
    exact hb
  | cons a l ih =>
    rw [List.foldlM_cons, Option.bind_eq_bind, Option.bind_eq_some_iff] at h
    obtain ⟨b', ha, h⟩ := h
    exact ih (hf b a b' hb ha) h

theorem Ordered.push {l' : List Span} (hl : Ordered l) (h : fidSpanPush l s = some l') :
    Ordered l' := by
  rw [fidSpanPush] at h
  split_ifs at h with hempty
  · obtain rfl := Option.some.inj h
    exact hl
  · obtain rfl := Option.some.inj h
    intro x hx
    rcases List.mem_append.1 hx with hx | hx
    · exact hl x hx
    · rw [List.mem_singleton.1 hx]
      omega

theorem Ordered.addSampledSpan {w : Span} {sm' : List Span} (hsm : Ordered sm)
    (h : addSampledSpan gc w sm s = some sm') : Ordered sm' := by
  rw [PgWaitTracer.addSampledSpan] at h
  split_ifs at h
  · obtain rfl := Option.some.inj h
    exact hsm
  · obtain rfl := Option.some.inj h
    exact hsm
  · rw [Option.bind_eq_bind, Option.bind_eq_some_iff] at h
    obtain ⟨pieces, -, h⟩ := h
    exact foldlM_inv (fun _ _ _ hacc hp => hacc.push hp) hsm h

theorem ordered_addGenSpans {acc acc' : List Span × List Span}
    (hacc : Ordered acc.1 ∧ Ordered acc.2) (h : addGenSpans fromWall toWall acc gc = some acc') :
    Ordered acc'.1 ∧ Ordered acc'.2 := by
  rw [addGenSpans] at h
  cases hw : gc.window fromWall toWall with
  | none =>
    rw [hw] at h
    obtain rfl := Option.some.inj h
    exact hacc
  | some w =>
    rw [hw] at h
    dsimp only at h
    rw [Option.bind_eq_bind, Option.bind_eq_some_iff] at h
    obtain ⟨ex, hex, h⟩ := h
    rw [Option.bind_eq_some_iff] at h
    obtain ⟨sm, hsm, h⟩ := h
    obtain rfl := Option.some.inj h
    refine ⟨foldlM_inv (fun b s b' hb hs => ?_) hacc.1 hex,
      foldlM_inv (fun _ _ _ hb hs => hb.addSampledSpan hs) hacc.2 hsm⟩
    rw [addExactSpan] at hs
    split_ifs at hs
    · obtain rfl := Option.some.inj hs
      exact hb
    · exact hb.push hs

/-! ### What the verdict is computed from -/

theorem spanOverlap_pos_iff (s w : Span) :
    0 < spanOverlap s w ↔ (clip w s).start < (clip w s).stop := by
  rw [spanOverlap]
  split_ifs <;> omega

theorem exists_at_clip {w : Span} (hw : gc.window fromWall toWall = some w) (s : Span) :
    (clip w s).start < (clip w s).stop ↔ ∃ t, gc.At (clip w s) t := by
  constructor
  · intro h
    refine ⟨(((clip w s).start : ℤ) + gc.canonOffset).toNat, ?_⟩
    rw [PlacedCov.window] at hw
    split_ifs at hw with hpast
    obtain rfl := Option.some.inj hw
    have hstart : ((fromWall : ℤ) - gc.canonOffset).toNat ≤
        (clip ⟨((fromWall : ℤ) - gc.canonOffset).toNat, ((toWall : ℤ) - gc.canonOffset).toNat⟩
          s).start := by
      simp only [clip]
      split_ifs <;> omega
    refine ⟨by omega, by omega⟩
  · rintro ⟨t, ht⟩
    by_contra hempty
    exact not_at_of_empty gc (Nat.not_lt.1 hempty) t ht

theorem FidelityScan.foldl_addSampled (gc : PlacedCov) (w : Span) (l : List Span)
    (st : FidelityScan) :
    (l.foldl (addSampled gc w) st).hasExact = st.hasExact ∧
      ((l.foldl (addSampled gc w) st).hasUncoveredSamples = true ↔
        st.hasUncoveredSamples = true ∨ ∃ s ∈ l, (clip w s).start < (clip w s).stop ∧
          gc.uncovered (clip w s) = true) := by
  induction l generalizing st with
  | nil => simp
  | cons s l ih =>
    obtain ⟨hex, hsm⟩ := ih (addSampled gc w st s)
    rw [List.foldl_cons, hex, hsm, List.exists_mem_cons_iff, ← or_assoc]
    rw [addSampled]
    split_ifs with hempty
    · simp [Nat.not_lt.2 hempty]
    · simp [Nat.not_le.1 hempty]

theorem FidelityScan.foldl_addGen (fromWall toWall : ℕ) (gens : List PlacedCov)
    (st : FidelityScan) :
    ((gens.foldl (addGen fromWall toWall) st).hasExact = true ↔ st.hasExact = true ∨
        ∃ t, (fromWall ≤ t ∧ t < toWall) ∧ ExactAt gens t) ∧
      ((gens.foldl (addGen fromWall toWall) st).hasUncoveredSamples = true ↔
        st.hasUncoveredSamples = true ∨
          ∃ gc ∈ gens, ∃ s ∈ gc.sampled, gc.Counts fromWall toWall s) := by
  induction gens generalizing st with
  | nil => simp [ExactAt]
  | cons gc gens ih =>
    obtain ⟨ihex, ihsm⟩ := ih (addGen fromWall toWall st gc)
    rw [List.foldl_cons, ihex, ihsm]
    have hstep : ((addGen fromWall toWall st gc).hasExact = true ↔ st.hasExact = true ∨
          ∃ t, (fromWall ≤ t ∧ t < toWall) ∧ ∃ s ∈ gc.exact, gc.At s t) ∧
        ((addGen fromWall toWall st gc).hasUncoveredSamples = true ↔
          st.hasUncoveredSamples = true ∨ ∃ s ∈ gc.sampled, gc.Counts fromWall toWall s) := by
      rw [addGen]
      cases hw : gc.window fromWall toWall with
      | none =>
        refine ⟨⟨Or.inl, ?_⟩, ⟨Or.inl, ?_⟩⟩
        · rintro (h | ⟨t, ⟨-, hto⟩, s, -, hat⟩)
          · exact h
          · exact absurd hat (not_at_of_window_none hw s hto)
        · rintro (h | ⟨s, -, w, hw', -⟩)
          · exact h
          · rw [hw] at hw'
            cases hw'
      | some w =>
        dsimp only
        obtain ⟨hex, hsm⟩ := foldl_addSampled gc w gc.sampled { st with
          hasExact := st.hasExact || gc.exact.any (fun s => 0 < spanOverlap s w) }
        rw [hex, hsm]
        refine ⟨?_, ?_⟩
        · rw [Bool.or_eq_true, List.any_eq_true]
          refine or_congr_right ⟨?_, ?_⟩
          · rintro ⟨s, hs, hpos⟩
            rw [decide_eq_true_eq, spanOverlap_pos_iff, exists_at_clip hw] at hpos
            obtain ⟨t, hat⟩ := hpos
            rw [at_clip hw] at hat
            exact ⟨t, hat.1, s, hs, hat.2⟩
          · rintro ⟨t, ht, s, hs, hat⟩
            refine ⟨s, hs, ?_⟩
            rw [decide_eq_true_eq, spanOverlap_pos_iff, exists_at_clip hw]
            exact ⟨t, (at_clip hw s t).2 ⟨ht, hat⟩⟩
        · refine or_congr_right ?_
          simp only [PlacedCov.Counts, hw, Option.some.injEq, exists_eq_left']
    refine ⟨?_, ?_⟩
    · rw [hstep.1, or_assoc, ← exists_or]
      simp only [ExactAt, List.exists_mem_cons_iff, ← and_or_left]
    · rw [hstep.2, or_assoc]
      simp only [List.exists_mem_cons_iff]

/-! ### Ranges and verdict -/

theorem Shows.unique {fid fid' : Fidelity} (h : Shows ex sm t fid) (h' : Shows ex sm t fid') :
    fid = fid' := by
  cases fid <;> cases fid' <;> simp only [Shows] at h h' <;> tauto

theorem Contiguous.exists_range (h : Contiguous start out stop) (hstart : start ≤ t)
    (hstop : t < stop) : ∃ r ∈ out, r.fromNs ≤ t ∧ t < r.toNs := by
  induction out generalizing start with
  | nil =>
    obtain rfl : start = stop := h
    omega
  | cons r out ih =>
    obtain ⟨hfrom, -, hrest⟩ := h
    by_cases ht : t < r.toNs
    · exact ⟨r, List.mem_cons_self, by omega, ht⟩
    · obtain ⟨x, hx, hin⟩ := ih hrest (Nat.not_lt.1 ht)
      exact ⟨x, List.mem_cons_of_mem r hx, hin⟩

theorem Contiguous.within (h : Contiguous start out stop) :
    start ≤ stop ∧ ∀ r ∈ out, start ≤ r.fromNs ∧ r.fromNs < r.toNs ∧ r.toNs ≤ stop := by
  induction out generalizing start with
  | nil =>
    obtain rfl : start = stop := h
    exact ⟨le_rfl, fun _ hr => absurd hr List.not_mem_nil⟩
  | cons r out ih =>
    obtain ⟨hfrom, hlt, hrest⟩ := h
    obtain ⟨hle, hin⟩ := ih hrest
    refine ⟨by omega, List.forall_mem_cons.2 ⟨by omega, fun x hx => ?_⟩⟩
    have := hin x hx
    omega

theorem Charted.range_iff (h : Charted ex sm start stop out) (fid : Fidelity) (t : ℕ) :
    (∃ r ∈ out, r.fid = fid ∧ r.fromNs ≤ t ∧ t < r.toNs) ↔
      (start ≤ t ∧ t < stop) ∧ Shows ex sm t fid := by
  constructor
  · rintro ⟨r, hr, rfl, hfrom, hto⟩
    have := h.contiguous.within.2 r hr
    exact ⟨by omega, h.shows r hr t hfrom hto⟩
  · rintro ⟨⟨hstart, hstop⟩, hshows⟩
    obtain ⟨r, hr, hfrom, hto⟩ := h.contiguous.exists_range hstart hstop
    exact ⟨r, hr, (h.shows r hr t hfrom hto).unique hshows, hfrom, hto⟩

theorem Charted.any_iff (h : Charted ex sm start stop out) (fid : Fidelity) :
    (out.any fun r => r.fid = fid) = true ↔
      ∃ t, (start ≤ t ∧ t < stop) ∧ Shows ex sm t fid := by
  simp only [← h.range_iff fid, List.any_eq_true, decide_eq_true_eq]
  constructor
  · rintro ⟨r, hr, hfid⟩
    exact ⟨r.fromNs, r, hr, hfid, le_rfl, (h.contiguous.within.2 r hr).2.1⟩
  · rintro ⟨t, r, hr, hfid, -⟩
    exact ⟨r, hr, hfid⟩

/-- The ranges meet from the start of the window to its end, neighbours differ, an instant is exact
when some exact span covers it and sampled only when some sampled span does, and the fidelity that
the ranges show is the verdict of the window. -/
structure RangesCorrect (gens : List PlacedCov) (fromWall toWall : ℕ) (out : List FidRange) :
    Prop where
  contiguous : Contiguous fromWall out toWall
  distinct : (out.map FidRange.fid).IsChain (· ≠ ·)
  exact_iff : ∀ t, fromWall ≤ t → t < toWall →
    ((∃ r ∈ out, r.fid = .exact ∧ r.fromNs ≤ t ∧ t < r.toNs) ↔ ExactAt gens t)
  sampled : ∀ r ∈ out, r.fid = .sampled → ∀ t, r.fromNs ≤ t → t < r.toNs → SampledAt gens t
  agrees : fidelityOf (out.any fun r => r.fid = .exact) (out.any fun r => r.fid = .sampled) =
    (windowFidelity gens fromWall toWall).1

/-- If sampled spans count for the verdict, one of them covers an instant of the window that no
generation covers exactly. -/
def SampledVisible (gens : List PlacedCov) (fromWall toWall : ℕ) : Prop :=
  (∃ gc ∈ gens, ∃ s ∈ gc.sampled, gc.Counts fromWall toWall s) →
    ∃ gc ∈ gens, ∃ s ∈ gc.sampled, gc.Counts fromWall toWall s ∧
      ∃ t, (fromWall ≤ t ∧ t < toWall) ∧ gc.At s t ∧ ¬ExactAt gens t

/-- The chart behind the ranges, by what the generations cover. -/
theorem exists_charted {gens : List PlacedCov} (hgens : ∀ gc ∈ gens, Sorted gc.exact) {cap : ℕ}
    (h : windowFidelityRanges gens fromWall toWall cap = some out) :
    ∃ ex sm, Charted ex sm fromWall toWall out ∧
      (∀ t, t ∈ cover ex ↔ (fromWall ≤ t ∧ t < toWall) ∧ ExactAt gens t) ∧
      ∀ t, t ∈ cover sm ↔ (fromWall ≤ t ∧ t < toWall) ∧ ¬ExactAt gens t ∧
        ∃ gc ∈ gens, ∃ s ∈ gc.sampled, gc.Counts fromWall toWall s ∧ gc.At s t := by
  rw [windowFidelityRanges] at h
  split_ifs at h with hrefuse
  rw [Option.bind_eq_bind, Option.bind_eq_some_iff] at h
  obtain ⟨⟨ex, sm⟩, hlists, h⟩ := h
  rw [Option.bind_eq_bind, Option.bind_eq_some_iff] at h
  obtain ⟨smOnly, honly, h⟩ := h
  have hordered : Ordered ex ∧ Ordered sm := foldlM_inv
    (P := fun acc => Ordered acc.1 ∧ Ordered acc.2) (fun _ _ _ => ordered_addGenSpans)
    ⟨fun _ hs => absurd hs List.not_mem_nil, fun _ hs => absurd hs List.not_mem_nil⟩ hlists
  have hexNorm := normalized_fidSpansUnion hordered.1
  have hsmNorm := normalized_fidSpansUnion hordered.2
  have hex : ∀ t, t ∈ cover (fidSpansUnion ex) ↔
      (fromWall ≤ t ∧ t < toWall) ∧ ExactAt gens t := by
    intro t
    rw [mem_cover_fidSpansUnion, (foldlM_addGenSpans hgens hlists t).1]
    simp
  have hsm : ∀ t, t ∈ cover smOnly ↔ t ∈ cover sm ∧ t ∉ cover (fidSpansUnion ex) := by
    intro t
    rw [mem_cover_fidSpansSubtract (sorted_of_normalized hexNorm) honly, mem_cover_fidSpansUnion]
  have hahead : Ahead (fidSpansUnion ex) smOnly fromWall (fidSpansUnion ex) smOnly :=
    ⟨sorted_of_normalized hexNorm, sorted_fidSpansSubtract hsmNorm honly, fun _ _ => Iff.rfl,
      fun _ _ => Iff.rfl⟩
  refine ⟨fidSpansUnion ex, smOnly, ?_, hex, fun t => ?_⟩
  · refine sweepRanges_charted (fun t ht => ((hsm t).1 ht).2) _ hahead ?_ (by omega) h
    exact ⟨rfl, .nil, fun _ hr => absurd hr List.not_mem_nil⟩
  · rw [hsm, hex, (foldlM_addGenSpans hgens hlists t).2]
    simp only [cover_nil, Set.mem_empty_iff_false, false_or]
    constructor
    · rintro ⟨⟨gc, hgc, s, hs, hcounts, ⟨ht, hat⟩, -⟩, hout⟩
      exact ⟨ht, fun hin => hout ⟨ht, hin⟩, gc, hgc, s, hs, hcounts, hat⟩
    · rintro ⟨ht, hout, gc, hgc, s, hs, hcounts, hat⟩
      refine ⟨⟨gc, hgc, s, hs, hcounts, ⟨ht, hat⟩, ?_⟩, fun hin => hout hin.2⟩
      rintro ⟨x, hx, hatx⟩
      exact hout ⟨gc, hgc, x, hx, hatx⟩

theorem fidelityOf_right_inj {a b b' : Bool} : fidelityOf a b = fidelityOf a b' ↔ b = b' := by
  cases a <;> cases b <;> cases b' <;> simp [fidelityOf]

/-- **The ranges are correct exactly when the sampled spans of the verdict are visible.** That they
divide the window by what the generations cover always holds. -/
theorem windowFidelityRanges_correct_iff (gens : List PlacedCov)
    (hgens : ∀ gc ∈ gens, Sorted gc.exact) (fromWall toWall cap : ℕ) (out : List FidRange)
    (h : windowFidelityRanges gens fromWall toWall cap = some out) :
    RangesCorrect gens fromWall toWall out ↔ SampledVisible gens fromWall toWall := by
  obtain ⟨ex, sm, hchart, hex, hsm⟩ := exists_charted hgens h
  obtain ⟨hscanEx, hscanSm⟩ := FidelityScan.foldl_addGen fromWall toWall gens {}
  have hanyEx : (out.any fun r => r.fid = .exact) =
      (gens.foldl (FidelityScan.addGen fromWall toWall) {}).hasExact := by
    rw [Bool.eq_iff_iff, hchart.any_iff, hscanEx]
    simp only [Shows, hex, Bool.false_eq_true, false_or]
    exact exists_congr fun t => ⟨fun ht => ht.2, fun ht => ⟨ht.1, ht⟩⟩
  have hanySm : (out.any fun r => r.fid = .sampled) = true ↔
      ∃ gc ∈ gens, ∃ s ∈ gc.sampled, gc.Counts fromWall toWall s ∧
        ∃ t, (fromWall ≤ t ∧ t < toWall) ∧ gc.At s t ∧ ¬ExactAt gens t := by
    rw [hchart.any_iff]
    simp only [Shows, hsm]
    constructor
    · rintro ⟨t, ht, -, -, hout, gc, hgc, s, hs, hcounts, hat⟩
      exact ⟨gc, hgc, s, hs, hcounts, t, ht, hat, hout⟩
    · rintro ⟨gc, hgc, s, hs, hcounts, t, ht, hat, hout⟩
      exact ⟨t, ht, fun hin => hout ((hex t).1 hin).2, ht, hout, gc, hgc, s, hs, hcounts, hat⟩
  have hagrees : fidelityOf (out.any fun r => r.fid = .exact) (out.any fun r => r.fid = .sampled) =
      (windowFidelity gens fromWall toWall).1 ↔ SampledVisible gens fromWall toWall := by
    rw [windowFidelity, hanyEx]
    dsimp only
    rw [fidelityOf_right_inj, Bool.eq_iff_iff, hanySm, hscanSm, SampledVisible]
    simp only [Bool.false_eq_true, false_or]
    refine ⟨fun hiff => hiff.2, fun hvis => ⟨?_, hvis⟩⟩
    rintro ⟨gc, hgc, s, hs, hcounts, -⟩
    exact ⟨gc, hgc, s, hs, hcounts⟩
  refine ⟨fun hcorrect => hagrees.1 hcorrect.agrees, fun hvis => ?_⟩
  refine ⟨hchart.contiguous, hchart.distinct, fun t hfrom hto => ?_, fun r hr hfid t hfrom hto => ?_,
    hagrees.2 hvis⟩
  · rw [hchart.range_iff]
    simp only [Shows, hex]
    exact ⟨fun ht => ht.2.2, fun ht => ⟨⟨hfrom, hto⟩, ⟨hfrom, hto⟩, ht⟩⟩
  · have hshows := hchart.shows r hr t hfrom hto
    rw [hfid] at hshows
    obtain ⟨-, -, gc, hgc, s, hs, -, hat⟩ := (hsm t).1 hshows.2
    exact ⟨gc, hgc, s, hs, hat⟩

/-- Samples over `[5, 25)` between exact spans, with a period of 2 ns. -/
def sampledBetween : PlacedCov where
  exact := [⟨0, 10⟩, ⟨20, 30⟩]
  sampled := [⟨5, 25⟩]
  samplePeriodNs := 2
  canonOffset := 0

/-- A generation that covers `[8, 24)` exactly. -/
def exactAcross : PlacedCov where
  exact := [⟨8, 24⟩]
  canonOffset := 0

/-- Samples with nothing else over them show in the ranges as in the verdict. -/
theorem windowFidelityRanges_correct_oneGeneration :
    RangesCorrect [sampledBetween] 0 50
      [⟨0, 10, .exact⟩, ⟨10, 20, .sampled⟩, ⟨20, 30, .exact⟩, ⟨30, 50, .none⟩] := by
  refine (windowFidelityRanges_correct_iff [sampledBetween] ?_ 0 50 10 _ (by decide)).2 fun _ => ?_
  · simp [sampledBetween, Sorted]
  · refine ⟨sampledBetween, List.mem_singleton_self _, ⟨5, 25⟩, List.mem_singleton_self _,
      ⟨⟨0, 50⟩, by decide, by decide, by decide⟩, 15, by decide, by decide, ?_⟩
    rintro ⟨gc, hgc, s, hs, hat⟩
    obtain rfl := List.mem_singleton.1 hgc
    revert s
    decide

/-- The exact span of another generation hides the samples: the verdict is mixed, and no range is
sampled. -/
theorem windowFidelityRanges_hiddenSamples :
    windowFidelityRanges [sampledBetween, exactAcross] 0 50 10 =
        some [⟨0, 30, .exact⟩, ⟨30, 50, .none⟩] ∧
      (windowFidelity [sampledBetween, exactAcross] 0 50).1 = .mixed ∧
      ¬RangesCorrect [sampledBetween, exactAcross] 0 50 [⟨0, 30, .exact⟩, ⟨30, 50, .none⟩] := by
  refine ⟨by decide, by decide, fun h => ?_⟩
  have hagrees := h.agrees
  revert hagrees
  decide

end PgWaitTracer
