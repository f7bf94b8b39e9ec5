import Mathlib.Data.List.Pairwise
import PgWaitTracer.Server.Coverage

/-!
# The gaps of exact coverage

A backend span is called measured only when no hole in the exact coverage falls inside it. The holes
are read off the exact spans of all generations, in the order of the generations: between the
running maximum of the span ends and the start of the next span. The list of gaps has a fixed
capacity, and what does not fit is collapsed into one gap that runs to the end of the window.

## Main results

* `map_span_exactGapsLoop` : what the loop returns is the list of holes, collapsed at the capacity.
* `serverExactGaps_reported_iff` : every hole is within the gaps exactly when they all fit. The
  collapsed gap takes the slot of the last hole that did fit, and that hole is lost.
-/

namespace PgWaitTracer

open Spans

/-- `struct pgwt_gen_cov` with its offset: wall time is monotonic time plus `canonOffset`. -/
structure PlacedCov extends GenCov where
  canonOffset : ℤ

/-- A monotonic time on the wall clock, as the code's `uint64_t`. -/
def PlacedCov.wall (gc : PlacedCov) (t : ℕ) : ℕ := (((t : ℤ) + gc.canonOffset) % 2 ^ 64).toNat

/-- Why a span over a gap is not measured. -/
inductive GapReason
  | coverage
  | restart
  deriving DecidableEq, Repr

/-- `SPAN_GAP_COVERAGE` and `SPAN_GAP_RESTART`. -/
def GapReason.text : GapReason → String
  | coverage => "a hole in exact coverage falls inside this span: it is not bridged " ++
      "into a fully measured duration"
  | restart => "a capture generation boundary (daemon restart) falls inside this span: " ++
      "it is not bridged into a fully measured duration"

/-- `struct pgwt_span_gap`. -/
structure SpanGap where
  span : Span
  reason : GapReason
  deriving DecidableEq, Repr

/-- An exact span on the wall clock with the index of its generation. -/
structure VisitedSpan where
  gen : ℕ
  start : ℕ
  stop : ℕ
  deriving DecidableEq, Repr

/-- The exact spans of a generation that end after the wall clock's zero. -/
def PlacedCov.visited (gc : PlacedCov) (g : ℕ) : List VisitedSpan :=
  gc.exact.filterMap fun s =>
    if (s.stop : ℤ) + gc.canonOffset ≤ 0 then none else some ⟨g, gc.wall s.start, gc.wall s.stop⟩

/-- The spans in the order of the two loops. -/
def visitedSpans (gens : List PlacedCov) : List VisitedSpan :=
  gens.zipIdx.flatMap fun e => e.1.visited e.2

/-- `prev_end` and `prev_gen`, once there is a span (`have_prev`). -/
abbrev PrevSpan := Option (ℕ × ℕ)

/-- The hole of the window before a span. -/
def holeBefore (fromNs toNs : ℕ) (prev : PrevSpan) (v : VisitedSpan) : Option Span :=
  match prev with
  | none => none
  | some (prevEnd, _) =>
    let gs := if fromNs < prevEnd then prevEnd else fromNs
    let ge := if v.start < toNs then v.start else toNs
    if prevEnd < v.start ∧ gs < ge then some ⟨gs, ge⟩ else none

/-- The running maximum after a span. -/
def PrevSpan.advance (prev : PrevSpan) (v : VisitedSpan) : PrevSpan :=
  match prev with
  | none => some (v.stop, v.gen)
  | some (prevEnd, prevGen) =>
    if prevEnd < v.stop then some (v.stop, v.gen) else some (prevEnd, prevGen)

/-- The reason of a hole before a span of generation `g`. -/
def PrevSpan.reason (prev : PrevSpan) (g : ℕ) : GapReason :=
  match prev with
  | none => .coverage
  | some (_, prevGen) => if prevGen ≠ g then .restart else .coverage

/-- The loop of `server_exact_gaps` over the spans, with the gaps written so far. -/
def exactGapsLoop (fromNs toNs max : ℕ) :
    List VisitedSpan → PrevSpan → List SpanGap → List SpanGap
  | [], _, out => out
  | v :: vs, prev, out =>
    match holeBefore fromNs toNs prev v with
    | none => exactGapsLoop fromNs toNs max vs (prev.advance v) out
    | some hole =>
      if max ≤ out.length then out.take (max - 1) ++ [⟨⟨hole.start, toNs⟩, .coverage⟩]
      else exactGapsLoop fromNs toNs max vs (prev.advance v) (out ++ [⟨hole, prev.reason v.gen⟩])

/-- `server_exact_gaps`. -/
def serverExactGaps (gens : List PlacedCov) (fromNs toNs max : ℕ) : List SpanGap :=
  if max = 0 ∨ toNs ≤ fromNs then [] else exactGapsLoop fromNs toNs max (visitedSpans gens) none []

/-- Every hole that the spans leave in the window. -/
def holesFrom (fromNs toNs : ℕ) : List VisitedSpan → PrevSpan → List Span
  | [], _ => []
  | v :: vs, prev =>
    (holeBefore fromNs toNs prev v).toList ++ holesFrom fromNs toNs vs (prev.advance v)

/-- The holes of the exact coverage of all generations. -/
def exactHoles (gens : List PlacedCov) (fromNs toNs : ℕ) : List Span :=
  holesFrom fromNs toNs (visitedSpans gens) none

/-- Every hole of the window is within the gaps that are returned. -/
def HolesReported (gens : List PlacedCov) (fromNs toNs max : ℕ) : Prop :=
  ∀ hole ∈ exactHoles gens fromNs toNs,
    cover [hole] ⊆ cover ((serverExactGaps gens fromNs toNs max).map SpanGap.span)

/-- The exact spans do not run backwards and lie on the wall clock after its zero. -/
def PlacedCov.Dated (gc : PlacedCov) : Prop :=
  ∀ s ∈ gc.exact, s.start ≤ s.stop ∧ 0 ≤ (s.start : ℤ) + gc.canonOffset ∧
    (s.stop : ℤ) + gc.canonOffset < 2 ^ 64

/-! ### What the loop returns -/

/-- A list of holes in `max` slots: the first hole too many becomes a gap to the end of the window
in the last slot. -/
def collapse (toNs max : ℕ) (l : List Span) : List Span :=
  match l[max]? with
  | none => l
  | some hole => l.take (max - 1) ++ [⟨hole.start, toNs⟩]

theorem map_span_exactGapsLoop (fromNs toNs : ℕ) {max : ℕ} (vs : List VisitedSpan)
    (prev : PrevSpan) {out : List SpanGap} (hout : out.length ≤ max) :
    (exactGapsLoop fromNs toNs max vs prev out).map SpanGap.span =
      collapse toNs max (out.map SpanGap.span ++ holesFrom fromNs toNs vs prev) := by
  induction vs generalizing prev out with
  | nil => simp [exactGapsLoop, holesFrom, collapse, hout]
  | cons v vs ih =>
    simp only [exactGapsLoop, holesFrom]
    cases hh : holeBefore fromNs toNs prev v with
    | none => simpa using ih (prev.advance v) hout
    | some hole =>
      by_cases hfull : max ≤ out.length
      · have hlen : out.length = max := le_antisymm hout hfull
        simp only [hfull, if_true, collapse]
        rw [List.getElem?_append_right (by simp [hlen])]
        simp [hlen, List.take_append]
      · have hroom : (out ++ [⟨hole, prev.reason v.gen⟩] : List SpanGap).length ≤ max := by
          rw [List.length_append, List.length_singleton]
          omega
        simp only [hfull, if_false, ih (prev.advance v) hroom]
        simp

theorem map_span_serverExactGaps (gens : List PlacedCov) {fromNs toNs max : ℕ} (hmax : 1 ≤ max)
    (hft : fromNs < toNs) : (serverExactGaps gens fromNs toNs max).map SpanGap.span =
      collapse toNs max (exactHoles gens fromNs toNs) := by
  rw [serverExactGaps, if_neg (by omega)]
  exact map_span_exactGapsLoop fromNs toNs (visitedSpans gens) none (Nat.zero_le max)

/-! ### The order of the holes -/

/-- Holes that are not empty and follow one another in the window. -/
structure HolesInOrder (toNs : ℕ) (l : List Span) : Prop where
  nonempty : ∀ s ∈ l, s.start < s.stop
  within : ∀ s ∈ l, s.stop ≤ toNs
  ordered : l.Pairwise fun a b => a.stop ≤ b.start

theorem holeBefore_eq_some {fromNs toNs : ℕ} {prev : PrevSpan} {v : VisitedSpan} {hole : Span}
    (h : holeBefore fromNs toNs prev v = some hole) :
    (∃ e ∈ prev, e.1 ≤ hole.start) ∧ hole.start < hole.stop ∧ hole.stop ≤ toNs ∧
      hole.stop ≤ v.start := by
  obtain _ | ⟨prevEnd, prevGen⟩ := prev
  · cases h
  · simp only [holeBefore] at h
    obtain ⟨⟨hprev, hne⟩, h⟩ := Option.ite_none_right_eq_some.1 h
    obtain rfl := Option.some.inj h
    refine ⟨⟨_, rfl, ?_⟩, hne, ?_, ?_⟩
    · dsimp only
      split <;> omega
    · dsimp only
      split <;> omega
    · dsimp only
      split <;> omega

theorem PrevSpan.advance_bounds (prev : PrevSpan) (v : VisitedSpan) :
    ∃ e, prev.advance v = some e ∧ v.stop ≤ e.1 ∧ ∀ e' ∈ prev, e'.1 ≤ e.1 := by
  obtain _ | ⟨prevEnd, prevGen⟩ := prev
  · exact ⟨_, rfl, le_rfl, by simp⟩
  · simp only [PrevSpan.advance]
    split
    · exact ⟨_, rfl, le_rfl, by simp; omega⟩
    · exact ⟨_, rfl, by dsimp only; omega, by simp⟩

theorem holesFrom_bounds (fromNs toNs : ℕ) {vs : List VisitedSpan}
    (hvs : ∀ v ∈ vs, v.start ≤ v.stop) (prev : PrevSpan) :
    HolesInOrder toNs (holesFrom fromNs toNs vs prev) ∧
      ∀ e ∈ prev, ∀ s ∈ holesFrom fromNs toNs vs prev, e.1 ≤ s.start := by
  induction vs generalizing prev with
  | nil => exact ⟨⟨by simp [holesFrom], by simp [holesFrom], .nil⟩, by simp [holesFrom]⟩
  | cons v vs ih =>
    obtain ⟨hord, hlow⟩ := ih (fun w hw => hvs w (List.mem_cons_of_mem v hw)) (prev.advance v)
    obtain ⟨e, he, hve, hpe⟩ := prev.advance_bounds v
    have hlow' : ∀ s ∈ holesFrom fromNs toNs vs (prev.advance v), e.1 ≤ s.start := hlow e he
    cases hh : holeBefore fromNs toNs prev v with
    | none =>
      simp only [holesFrom, hh, Option.toList_none, List.nil_append]
      exact ⟨hord, fun e' he' s hs => (hpe e' he').trans (hlow' s hs)⟩
    | some hole =>
      obtain ⟨⟨e₀, he₀, hstart⟩, hne, hto, hv⟩ := holeBefore_eq_some hh
      have hvv := hvs v List.mem_cons_self
      simp only [holesFrom, hh, Option.toList_some, List.singleton_append]
      refine ⟨⟨?_, ?_, List.pairwise_cons.2 ⟨fun s hs => ?_, hord.ordered⟩⟩, ?_⟩
      · exact List.forall_mem_cons.2 ⟨hne, hord.nonempty⟩
      · exact List.forall_mem_cons.2 ⟨hto, hord.within⟩
      · have := hlow' s hs
        omega
      · intro e' he' s hs
        obtain rfl := Option.mem_unique he' he₀
        rcases List.mem_cons.1 hs with rfl | hs
        · exact hstart
        · exact (hpe e' he').trans (hlow' s hs)

theorem PlacedCov.Dated.visited {gc : PlacedCov} (h : gc.Dated) {g : ℕ} {v : VisitedSpan}
    (hv : v ∈ gc.visited g) : v.start ≤ v.stop := by
  obtain ⟨s, hs, hv⟩ := List.mem_filterMap.1 hv
  obtain ⟨hss, h0, h64⟩ := h s hs
  split at hv
  · cases hv
  · obtain rfl := Option.some.inj hv
    have hst : (s.start : ℤ) ≤ s.stop := by exact_mod_cast hss
    simp only [PlacedCov.wall]
    rw [Int.emod_eq_of_lt h0 (by omega), Int.emod_eq_of_lt (by omega) h64]
    omega

theorem holesInOrder_exactHoles {gens : List PlacedCov} (h : ∀ gc ∈ gens, gc.Dated)
    (fromNs toNs : ℕ) : HolesInOrder toNs (exactHoles gens fromNs toNs) := by
  refine (holesFrom_bounds fromNs toNs (fun v hv => ?_) none).1
  obtain ⟨⟨gc, g⟩, he, hv⟩ := List.mem_flatMap.1 hv
  exact (h gc (List.fst_mem_of_mem_zipIdx he)).visited hv

/-! ### What the collapse loses -/

theorem cover_subset_collapse_of_length_le {toNs max : ℕ} {l : List Span} (h : l.length ≤ max) :
    ∀ hole ∈ l, cover [hole] ⊆ cover (collapse toNs max l) := by
  intro hole hhole t ht
  rw [mem_cover_singleton] at ht
  rw [collapse, List.getElem?_eq_none h]
  exact ⟨hole, hhole, ht⟩

theorem not_mem_cover_collapse {toNs max : ℕ} {l : List Span} (h : HolesInOrder toNs l)
    (hmax : 1 ≤ max) (hlen : max < l.length) :
    (l.get ⟨max - 1, by omega⟩).start ∉ cover (collapse toNs max l) := by
  rintro ⟨s, hs, hstart, hstop⟩
  have hord := List.pairwise_iff_get.1 h.ordered
  simp only [collapse, List.getElem?_eq_getElem hlen, List.mem_append, List.mem_singleton] at hs
  rcases hs with hs | rfl
  · obtain ⟨i, hi, rfl⟩ := List.mem_take_iff_getElem.1 hs
    have := hord ⟨i, by omega⟩ ⟨max - 1, by omega⟩ (by simp; omega)
    simp only [List.get_eq_getElem] at this hstop
    omega
  · have hlast := hord ⟨max - 1, by omega⟩ ⟨max, hlen⟩ (by simp; omega)
    have hne := h.nonempty _ (List.get_mem l ⟨max - 1, by omega⟩)
    simp only [List.get_eq_getElem] at hlast hne hstart
    omega

/-- **Every hole is reported when the holes fit, and only then.** Whatever the coverage, holes that
fit are all within the gaps. Where the spans are dated, one hole more than there are slots loses the
hole that was in the last slot. -/
theorem serverExactGaps_reported_iff (gens : List PlacedCov) (fromNs toNs max : ℕ)
    (hmax : 1 ≤ max) (hft : fromNs < toNs) :
    ((exactHoles gens fromNs toNs).length ≤ max → HolesReported gens fromNs toNs max) ∧
      ((∀ gc ∈ gens, gc.Dated) → (HolesReported gens fromNs toNs max ↔
        (exactHoles gens fromNs toNs).length ≤ max)) := by
  have hfits : (exactHoles gens fromNs toNs).length ≤ max →
      HolesReported gens fromNs toNs max := by
    intro hlen
    rw [HolesReported, map_span_serverExactGaps gens hmax hft]
    exact cover_subset_collapse_of_length_le hlen
  refine ⟨hfits, fun hdated => ⟨fun hrep => ?_, hfits⟩⟩
  by_contra hlen
  rw [not_le] at hlen
  have hin := holesInOrder_exactHoles hdated fromNs toNs
  rw [HolesReported, map_span_serverExactGaps gens hmax hft] at hrep
  have hmem := List.get_mem (exactHoles gens fromNs toNs) ⟨max - 1, by omega⟩
  refine not_mem_cover_collapse hin hmax hlen (hrep _ hmem ?_)
  exact mem_cover_singleton.2 ⟨le_rfl, hin.nonempty _ hmem⟩

/-- Exact coverage of `[0, 10)`, `[20, 30)` and `[40, 50)`. -/
def threeSpans : List PlacedCov :=
  [{ exact := [⟨0, 10⟩, ⟨20, 30⟩, ⟨40, 50⟩], canonOffset := 0 }]

/-- The coverage `threeSpans` is dated, and both its holes fit in two slots. -/
theorem serverExactGaps_reported_twoHoles :
    (∀ gc ∈ threeSpans, gc.Dated) ∧ HolesReported threeSpans 0 50 2 := by
  have hdated : ∀ gc ∈ threeSpans, gc.Dated := by
    simp [threeSpans, PlacedCov.Dated]
  obtain ⟨-, hiff⟩ := serverExactGaps_reported_iff threeSpans 0 50 2 (by decide) (by decide)
  exact ⟨hdated, (hiff hdated).2 (by decide)⟩

/-- With one slot the hole `[10, 20)` is lost: the gap that is returned is `[30, 50)`. -/
theorem serverExactGaps_lastSlot :
    (serverExactGaps threeSpans 0 50 1).map SpanGap.span = [⟨30, 50⟩] ∧
      ⟨10, 20⟩ ∈ exactHoles threeSpans 0 50 ∧ ¬ HolesReported threeSpans 0 50 1 := by
  have hgaps : (serverExactGaps threeSpans 0 50 1).map SpanGap.span = [⟨30, 50⟩] := by decide
  have hhole : (⟨10, 20⟩ : Span) ∈ exactHoles threeSpans 0 50 := by decide
  refine ⟨hgaps, hhole, fun hrep => ?_⟩
  have hmem := hrep _ hhole (mem_cover_singleton.2 ⟨le_rfl, by decide⟩)
  rw [hgaps, mem_cover_singleton] at hmem
  exact absurd hmem.1 (by decide)

end PgWaitTracer
