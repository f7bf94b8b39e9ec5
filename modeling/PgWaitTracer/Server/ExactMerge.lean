import Mathlib.Algebra.BigOperators.Group.List.Basic
import PgWaitTracer.Lib.BinarySearch
import PgWaitTracer.Lib.Spans
import PgWaitTracer.Trace.Event

/-!
# Exact wins

The loader of the server (`server_load_events_fi_mode`, `src/server.c`) has exact records and samples
of one time. Where there is exact coverage a sample is left out: of the interval of a sample, what
exact coverage leaves and the window holds is emitted piece by piece, and the pieces behind the first
are marked as continuations. The number of records that this takes is bounded beforehand.

A segment is a run of loaded records of one file, with the coverage of its generation and its window
on the monotonic clock; times are numbers of ns. Growing an array succeeds.

## Main results

* `mergeSegments_eq`: the bound is never hit, so every piece is emitted.
* `exactMerge_conserves`: the pieces of a sample are what exact coverage leaves of it.
-/

namespace PgWaitTracer

open Spans

/-! ### Spans -/

/-- `spans_normalize`. -/
def spansNormalize (l : List Span) : List Span := Spans.normalize l

/-- `spans_first_ending_after`: the first span that ends after a time. -/
def spansFirstEndingAfter (l : List Span) (monoNs : ℕ) : ℕ :=
  BinarySearch.lowerBound (fun i => (l[i]?).any fun s => s.stop ≤ monoNs) l.length

/-- `spans_contain`, ends included. -/
def spansContain (l : List Span) (monoNs : ℕ) : Bool :=
  let i := BinarySearch.lowerBound (fun i => (l[i]?).any fun s => s.stop < monoNs) l.length
  (l[i]?).any fun s => s.start ≤ monoNs && monoNs ≤ s.stop

/-! ### Segments -/

/-- `INT_MAX`. -/
def intMax : ℕ := 2147483647

/-- The loaded records of a file, the coverage of its generation, the offset of its wall clock, and
the window. -/
structure MergeSegment where
  events : List TraceEvent
  exact : List Span
  sampled : List Span
  off : UInt64
  fromM : ℕ
  toM : ℕ

/-- The start of the interval of a record, clamped at 0. -/
def TraceEvent.startNs (ev : TraceEvent) : ℕ := if ev.dur ≤ ev.ts then ev.ts - ev.dur else 0

/-- The spans that a sample may meet. -/
def MergeSegment.spansFor (seg : MergeSegment) (ev : TraceEvent) : List Span :=
  seg.exact.drop (spansFirstEndingAfter seg.exact ev.startNs)

/-- What the bound counts for a sample: the spans it meets. -/
def MergeSegment.extraParts (seg : MergeSegment) (ev : TraceEvent) : ℕ :=
  if ev.isSample then ((seg.spansFor ev).takeWhile fun s => s.start < ev.ts).length else 0

/-- The bound before the check: a result for every record, and one for every span that a sample
meets. -/
def mergeLimit (segs : List MergeSegment) : ℕ :=
  (segs.map fun seg => (seg.events.map fun ev => 1 + seg.extraParts ev).sum).sum

/-- `merge_max_events`, unless there are too many. -/
def mergeMaxEvents (segs : List MergeSegment) : Option ℕ :=
  if mergeLimit segs ≤ intMax then some (mergeLimit segs) else none

/-! ### The merge -/

/-- The merged records and the capacity of their array. -/
structure Merged where
  out : List TraceEvent
  capacity : ℕ

/-- The record on the wall clock. -/
def TraceEvent.shift (off : UInt64) (ev : TraceEvent) : TraceEvent :=
  { ev with timestampNs := ev.timestampNs + off }

/-- `merge_append_event`; `none` is `PGWT_MERGE_APPEND_CAPACITY`. -/
def mergeAppendEvent (maxEvents : ℕ) (off : UInt64) (m : Merged) (ev : TraceEvent) :
    Option Merged :=
  if maxEvents ≤ m.out.length then none
  else if m.capacity ≤ m.out.length then
    let next := if m.capacity < maxEvents / 2 then m.capacity * 2 else maxEvents
    if next ≤ m.capacity then none else some ⟨m.out ++ [ev.shift off], next⟩
  else some ⟨m.out ++ [ev.shift off], m.capacity⟩

/-- A part inside the window, if it is not empty. -/
def MergeSegment.clip (seg : MergeSegment) (part : Span) : Option Span :=
  let start := if seg.fromM < part.start then part.start else seg.fromM
  let stop := if part.stop < seg.toM then part.stop else seg.toM
  if stop ≤ start then none else some ⟨start, stop⟩

/-- The record of a part of a sample. -/
def TraceEvent.part (ev : TraceEvent) (contributed : Bool) (s : Span) : TraceEvent :=
  { ev with
    timestampNs := UInt64.ofNat s.stop
    durationNs := UInt64.ofNat (s.stop - s.start)
    flags := if contributed then ev.flags ||| flagSampleCont else ev.flags &&& ~~~flagSampleCont }

/-- `merge_append_sample_part`; `contributed` says that a part of the sample is there already. -/
def mergeAppendSamplePart (maxEvents : ℕ) (seg : MergeSegment) (ev : TraceEvent)
    (m : Merged × Bool) (part : Span) : Option (Merged × Bool) :=
  match seg.clip part with
  | none => some m
  | some s => (mergeAppendEvent maxEvents seg.off m.1 (ev.part m.2 s)).map (·, true)

/-- The walk of a sample along the spans: a part in front of each span, and one behind the last. -/
def mergeSampleParts (maxEvents : ℕ) (seg : MergeSegment) (ev : TraceEvent) :
    Merged × Bool → ℕ → List Span → Option (Merged × Bool)
  | m, cursor, [] =>
    if cursor < ev.ts then mergeAppendSamplePart maxEvents seg ev m ⟨cursor, ev.ts⟩ else some m
  | m, cursor, s :: l =>
    if cursor < ev.ts then
      if ev.ts ≤ s.start then mergeAppendSamplePart maxEvents seg ev m ⟨cursor, ev.ts⟩
      else
        (if cursor < s.start then mergeAppendSamplePart maxEvents seg ev m ⟨cursor, s.start⟩
          else some m).bind fun m =>
            mergeSampleParts maxEvents seg ev m
              (if cursor < s.stop then min s.stop ev.ts else cursor) l
    else some m

/-- `PGWT_EVENT_EXIT` intervals outside exact coverage are dropped where there are samples. -/
def MergeSegment.phantomExit (seg : MergeSegment) (ev : TraceEvent) : Bool :=
  ev.newEvent = eventExit && !seg.sampled.isEmpty &&
    !spansContain seg.exact (ev.timestampNs - ev.durationNs / 2).toNat

/-- An exact record is kept: it ends in the window, or was admitted as open at its right end. -/
def MergeSegment.keeps (seg : MergeSegment) (ev : TraceEvent) : Bool :=
  (ev.flags &&& flagRightOpen ≠ 0 || seg.fromM ≤ ev.ts && ev.ts ≤ seg.toM) && !seg.phantomExit ev

/-- A record in the loop of the merge. -/
def mergeEvent (maxEvents : ℕ) (seg : MergeSegment) (m : Merged) (ev : TraceEvent) :
    Option Merged :=
  if ev.isSample then
    (mergeSampleParts maxEvents seg ev (m, false) ev.startNs (seg.spansFor ev)).map Prod.fst
  else if seg.keeps ev then mergeAppendEvent maxEvents seg.off m ev
  else some m

/-- The records of a segment in the loop of the merge. -/
def mergeSegment (maxEvents : ℕ) (m : Merged) (seg : MergeSegment) : Option Merged :=
  seg.events.foldlM (mergeEvent maxEvents seg) m

/-- The merge; `none` is a failed allocation. -/
def mergeSegments (maxEvents : ℕ) (segs : List MergeSegment) : Option (List TraceEvent) :=
  let total := (segs.map fun seg => seg.events.length).sum
  let m : Merged := ⟨[], if 0 < total then total else 16⟩
  (segs.foldlM (mergeSegment maxEvents) m).map Merged.out

/-! ### What is emitted -/

/-- The records of the parts of a sample. -/
def partRecords (ev : TraceEvent) : Bool → List Span → List TraceEvent
  | _, [] => []
  | contributed, s :: l => ev.part contributed s :: partRecords ev true l

/-- The parts of a sample in the window. -/
def MergeSegment.parts (seg : MergeSegment) (ev : TraceEvent) : List Span :=
  (gaps ev.ts ev.startNs (seg.spansFor ev)).filterMap seg.clip

/-- What a record leaves in the merge. -/
def MergeSegment.emitted (seg : MergeSegment) (ev : TraceEvent) : List TraceEvent :=
  if ev.isSample then (partRecords ev false (seg.parts ev)).map (TraceEvent.shift seg.off)
  else if seg.keeps ev then [ev.shift seg.off]
  else []

/-! ### The bound -/

/-- **Below the bound**, appending succeeds. -/
theorem mergeAppendEvent_eq {maxEvents : ℕ} {m : Merged} (hcap : 0 < m.capacity)
    (hlt : m.out.length < maxEvents) (off : UInt64) (ev : TraceEvent) :
    ∃ c, 0 < c ∧ mergeAppendEvent maxEvents off m ev = some ⟨m.out ++ [ev.shift off], c⟩ := by
  rw [mergeAppendEvent, if_neg (by omega)]
  by_cases hfull : m.capacity ≤ m.out.length
  · rw [if_pos hfull]
    by_cases hhalf : m.capacity < maxEvents / 2
    · simp only [if_pos hhalf]
      rw [if_neg (by omega)]
      exact ⟨_, by omega, rfl⟩
    · simp only [if_neg hhalf]
      rw [if_neg (by omega)]
      exact ⟨_, by omega, rfl⟩
  · rw [if_neg hfull]
    exact ⟨_, hcap, rfl⟩

theorem partRecords_append (ev : TraceEvent) (c : Bool) (l l' : List Span) :
    partRecords ev c (l ++ l') =
      partRecords ev c l ++ partRecords ev (c || !l.isEmpty) l' := by
  induction l generalizing c with
  | nil => simp [partRecords]
  | cons s l ih => simp [partRecords, ih]

theorem length_partRecords (ev : TraceEvent) (c : Bool) (l : List Span) :
    (partRecords ev c l).length = l.length := by
  induction l generalizing c with
  | nil => rfl
  | cons s l ih => simp [partRecords, ih]

/-- The merge after some parts of a sample. -/
def Merged.Emits (seg : MergeSegment) (ev : TraceEvent) (m : Merged × Bool) (parts : List Span)
    (m' : Merged × Bool) : Prop :=
  0 < m'.1.capacity ∧ m'.2 = (m.2 || !parts.isEmpty) ∧
    m'.1.out = m.1.out ++ (partRecords ev m.2 parts).map (TraceEvent.shift seg.off)

variable {seg : MergeSegment}

theorem mergeAppendSamplePart_emits {maxEvents : ℕ} {ev : TraceEvent} {m : Merged × Bool}
    (hcap : 0 < m.1.capacity) (hlt : m.1.out.length < maxEvents) (part : Span) :
    ∃ m', mergeAppendSamplePart maxEvents seg ev m part = some m' ∧
      Merged.Emits seg ev m ([part].filterMap seg.clip) m' := by
  rw [mergeAppendSamplePart]
  cases hclip : seg.clip part with
  | none => exact ⟨m, rfl, hcap, by simp [hclip], by simp [hclip, partRecords]⟩
  | some s =>
    obtain ⟨c, hc, happend⟩ := mergeAppendEvent_eq hcap hlt seg.off (ev.part m.2 s)
    simp only [happend, Option.map_some]
    exact ⟨_, rfl, hc, by simp [hclip], by simp [hclip, partRecords]⟩

theorem Merged.Emits.trans {ev : TraceEvent} {m₁ m₂ m₃ : Merged × Bool} {l l' : List Span}
    (h : Merged.Emits seg ev m₁ l m₂) (h' : Merged.Emits seg ev m₂ l' m₃) :
    Merged.Emits seg ev m₁ (l ++ l') m₃ := by
  obtain ⟨-, hb, hout⟩ := h
  obtain ⟨hcap, hb', hout'⟩ := h'
  refine ⟨hcap, ?_, ?_⟩
  · rw [hb', hb]
    cases l <;> simp
  · rw [hout', hout, hb, partRecords_append, List.map_append, List.append_assoc]

/-- **The walk of a sample** emits its parts. -/
theorem mergeSampleParts_emits (maxEvents : ℕ) (seg : MergeSegment) (ev : TraceEvent)
    (l : List Span) (m : Merged × Bool) (cursor : ℕ) (hcap : 0 < m.1.capacity)
    (hlt : m.1.out.length + (l.takeWhile fun s => s.start < ev.ts).length < maxEvents) :
    ∃ m', mergeSampleParts maxEvents seg ev m cursor l = some m' ∧
      Merged.Emits seg ev m ((gaps ev.ts cursor l).filterMap seg.clip) m' := by
  have hnone : Merged.Emits seg ev m [] m := ⟨hcap, by simp, by simp [partRecords]⟩
  induction l generalizing m cursor with
  | nil =>
    rw [mergeSampleParts, gaps]
    split_ifs
    · exact mergeAppendSamplePart_emits hcap (by simpa using hlt) _
    · exact ⟨m, rfl, hnone⟩
  | cons s l ih =>
    rw [mergeSampleParts, gaps]
    by_cases hcur : cursor < ev.ts
    · rw [if_pos hcur, if_pos hcur]
      by_cases hstop : ev.ts ≤ s.start
      · rw [if_pos hstop, if_pos hstop]
        exact mergeAppendSamplePart_emits hcap (by omega) _
      · rw [if_neg hstop, if_neg hstop, List.filterMap_append]
        have htake : (s :: l).takeWhile (fun s => s.start < ev.ts) =
            s :: l.takeWhile fun s => s.start < ev.ts := by
          rw [List.takeWhile_cons_of_pos]
          simpa using hstop
        rw [htake, List.length_cons] at hlt
        -- the part in front of the span, which takes one place at most
        obtain ⟨m₁, hm₁, hemits⟩ : ∃ m₁,
            (if cursor < s.start then mergeAppendSamplePart maxEvents seg ev m ⟨cursor, s.start⟩
              else some m) = some m₁ ∧
            Merged.Emits seg ev m
              ((if cursor < s.start then [(⟨cursor, s.start⟩ : Span)] else []).filterMap seg.clip)
              m₁ := by
          split_ifs
          · exact mergeAppendSamplePart_emits hcap (by omega) _
          · exact ⟨m, rfl, hnone⟩
        have hlen : m₁.1.out.length ≤ m.1.out.length + 1 := by
          rw [hemits.2.2, List.length_append, List.length_map, length_partRecords]
          have := List.length_filterMap_le seg.clip
            (if cursor < s.start then [(⟨cursor, s.start⟩ : Span)] else [])
          split_ifs at this ⊢ <;> simp_all
        rw [hm₁, Option.bind_some]
        obtain ⟨m₂, hm₂, hemits₂⟩ := ih m₁ (if cursor < s.stop then min s.stop ev.ts else cursor)
          hemits.1 (by omega) ⟨hemits.1, by simp, by simp [partRecords]⟩
        exact ⟨m₂, hm₂, hemits.trans hemits₂⟩
    · rw [if_neg hcur, if_neg hcur]
      exact ⟨m, rfl, hnone⟩

theorem mergeEvent_eq (maxEvents : ℕ) (seg : MergeSegment) (ev : TraceEvent) {m : Merged}
    (hcap : 0 < m.capacity) (hlt : m.out.length + (1 + seg.extraParts ev) ≤ maxEvents) :
    ∃ c, 0 < c ∧ mergeEvent maxEvents seg m ev = some ⟨m.out ++ seg.emitted ev, c⟩ := by
  rw [mergeEvent, MergeSegment.emitted]
  by_cases hs : ev.isSample
  · rw [MergeSegment.extraParts, if_pos hs] at hlt
    obtain ⟨m', hm', hc, -, hout⟩ := mergeSampleParts_emits maxEvents seg ev (seg.spansFor ev)
      (m, false) ev.startNs hcap (by dsimp only; omega)
    refine ⟨m'.1.capacity, hc, ?_⟩
    rw [if_pos hs, if_pos hs, hm', Option.map_some, MergeSegment.parts, ← hout]
  · rw [if_neg hs, if_neg hs]
    split_ifs
    · exact mergeAppendEvent_eq hcap (by omega) seg.off ev
    · exact ⟨m.capacity, hcap, by rw [List.append_nil]⟩

theorem length_emitted_le (seg : MergeSegment) (ev : TraceEvent) :
    (seg.emitted ev).length ≤ 1 + seg.extraParts ev := by
  rw [MergeSegment.emitted, MergeSegment.extraParts]
  split_ifs
  · rw [List.length_map, length_partRecords, MergeSegment.parts]
    have h₁ := List.length_filterMap_le seg.clip (gaps ev.ts ev.startNs (seg.spansFor ev))
    have h₂ := length_gaps_le (seg.spansFor ev) ev.ts ev.startNs
    omega
  · simp
  · simp

theorem length_flatMap_emitted_le (seg : MergeSegment) (evs : List TraceEvent) :
    (evs.flatMap seg.emitted).length ≤ (evs.map fun ev => 1 + seg.extraParts ev).sum := by
  induction evs with
  | nil => exact Nat.le_refl 0
  | cons ev evs ih =>
    have h := length_emitted_le seg ev
    rw [List.flatMap_cons, List.length_append, List.map_cons, List.sum_cons]
    omega

theorem mergeSegment_eq (maxEvents : ℕ) (seg : MergeSegment) (evs : List TraceEvent) {m : Merged}
    (hcap : 0 < m.capacity)
    (hlt : m.out.length + (evs.map fun ev => 1 + seg.extraParts ev).sum ≤ maxEvents) :
    ∃ c, 0 < c ∧
      evs.foldlM (mergeEvent maxEvents seg) m = some ⟨m.out ++ evs.flatMap seg.emitted, c⟩ := by
  induction evs generalizing m with
  | nil => exact ⟨m.capacity, hcap, by simp⟩
  | cons ev evs ih =>
    rw [List.map_cons, List.sum_cons] at hlt
    obtain ⟨c, hc, hstep⟩ := mergeEvent_eq maxEvents seg ev hcap (by omega)
    have hlen := length_emitted_le seg ev
    obtain ⟨c', hc', hrest⟩ := ih (m := ⟨m.out ++ seg.emitted ev, c⟩) hc (by
      rw [List.length_append]
      omega)
    refine ⟨c', hc', ?_⟩
    rw [List.foldlM_cons, hstep, Option.bind_eq_bind, Option.bind_some, hrest,
      List.flatMap_cons, List.append_assoc]

theorem foldlM_mergeSegment (maxEvents : ℕ) (segs : List MergeSegment) {m : Merged}
    (hcap : 0 < m.capacity) (hlt : m.out.length + mergeLimit segs ≤ maxEvents) :
    ∃ c, segs.foldlM (mergeSegment maxEvents) m =
      some ⟨m.out ++ segs.flatMap fun seg => seg.events.flatMap seg.emitted, c⟩ := by
  induction segs generalizing m with
  | nil => exact ⟨m.capacity, by simp⟩
  | cons seg segs ih =>
    rw [mergeLimit, List.map_cons, List.sum_cons, ← mergeLimit] at hlt
    obtain ⟨c, hc, hseg⟩ := mergeSegment_eq maxEvents seg seg.events hcap (by omega)
    have hlen := length_flatMap_emitted_le seg seg.events
    obtain ⟨c', hrest⟩ := ih (m := ⟨m.out ++ seg.events.flatMap seg.emitted, c⟩) hc (by
      rw [List.length_append]
      omega)
    refine ⟨c', ?_⟩
    rw [List.foldlM_cons, mergeSegment, hseg, Option.bind_eq_bind, Option.bind_some, hrest,
      List.flatMap_cons, List.append_assoc]

/-- **The bound is never hit**: the merge emits what every record leaves. -/
theorem mergeSegments_eq {segs : List MergeSegment} {maxEvents : ℕ}
    (h : mergeMaxEvents segs = some maxEvents) :
    mergeSegments maxEvents segs = some (segs.flatMap fun seg => seg.events.flatMap seg.emitted) := by
  have hmax : maxEvents = mergeLimit segs := by
    rw [mergeMaxEvents] at h
    split_ifs at h
    exact (Option.some.inj h).symm
  unfold mergeSegments
  extract_lets total m
  have hcap : 0 < m.capacity := by
    dsimp only [m]
    split_ifs <;> omega
  obtain ⟨c, hc⟩ := foldlM_mergeSegment maxEvents segs hcap (by rw [hmax]; simp [m])
  rw [hc]
  rfl

/-! ### The parts of a sample -/

/-- The interval of a record of the merge, on the monotonic clock. -/
def TraceEvent.monoSpan (off : UInt64) (ev : TraceEvent) : Span :=
  ⟨(ev.timestampNs - off).toNat - ev.durationNs.toNat, (ev.timestampNs - off).toNat⟩

theorem spansFirstEndingAfter_spec {l : List Span} (h : Normalized l) (t : ℕ) :
    ∀ s ∈ l.take (spansFirstEndingAfter l t), s.stop ≤ t := by
  have hturns : BinarySearch.Turns (fun i => (l[i]?).any fun s => s.stop ≤ t) l.length := by
    intro i j hij hj hpj
    dsimp only at hpj ⊢
    rcases Nat.eq_or_lt_of_le hij with rfl | hlt
    · exact hpj
    · have hi : i < l.length := by omega
      have hbefore := List.pairwise_iff_getElem.1 h.apart i j hi hj hlt
      have hord := h.ordered _ (List.getElem_mem hj)
      rw [List.getElem?_eq_getElem hj, Option.any_some, decide_eq_true_eq] at hpj
      rw [List.getElem?_eq_getElem hi, Option.any_some, decide_eq_true_eq]
      have := hbefore.2
      omega
  obtain ⟨-, hbefore, -⟩ := BinarySearch.lowerBound_spec hturns
  intro s hs
  obtain ⟨i, hi, rfl⟩ := List.mem_take_iff_getElem.1 hs
  have hp := hbefore i (by
    rw [spansFirstEndingAfter] at hi
    omega)
  rw [List.getElem?_eq_getElem (by omega), Option.any_some, decide_eq_true_eq] at hp
  exact hp

theorem clip_eq_some {part s : Span} (h : seg.clip part = some s) :
    s.start = max part.start seg.fromM ∧ s.stop = min part.stop seg.toM ∧ s.start < s.stop := by
  rw [MergeSegment.clip] at h
  simp only [Option.ite_none_left_eq_some, Option.some.injEq] at h
  obtain ⟨hlt, rfl⟩ := h
  refine ⟨?_, ?_, by dsimp only; omega⟩
  · dsimp only
    split_ifs <;> omega
  · dsimp only
    split_ifs <;> omega

theorem mem_cover_filterMap_clip (seg : MergeSegment) (l : List Span) (t : ℕ) :
    t ∈ cover (l.filterMap seg.clip) ↔ t ∈ cover l ∧ seg.fromM ≤ t ∧ t < seg.toM := by
  simp only [mem_cover, List.mem_filterMap]
  constructor
  · rintro ⟨s, ⟨part, hpart, hclip⟩, h₁, h₂⟩
    obtain ⟨hstart, hstop, -⟩ := clip_eq_some hclip
    exact ⟨⟨part, hpart, by omega, by omega⟩, by omega, by omega⟩
  · rintro ⟨⟨part, hpart, h₁, h₂⟩, h₃, h₄⟩
    obtain ⟨s, hclip⟩ : ∃ s, seg.clip part = some s := by
      rw [MergeSegment.clip, if_neg]
      · exact ⟨_, rfl⟩
      · split_ifs <;> omega
    obtain ⟨hstart, hstop, -⟩ := clip_eq_some hclip
    exact ⟨s, ⟨part, hpart, hclip⟩, by omega, by omega⟩

theorem startNs_eq (ev : TraceEvent) : ev.startNs = ev.ts - ev.dur := by
  rw [TraceEvent.startNs]
  split_ifs <;> omega

theorem parts_ordered (h : Normalized seg.exact) (ev : TraceEvent) :
    (seg.parts ev).Pairwise (fun a b => a.stop ≤ b.start) ∧
      ∀ s ∈ seg.parts ev, s.start < s.stop ∧ s.stop ≤ ev.ts := by
  have hdrop : Normalized (seg.spansFor ev) :=
    ⟨fun s hs => h.ordered s (List.mem_of_mem_drop hs), h.apart.drop⟩
  obtain ⟨hpair, hin⟩ := gaps_ordered hdrop ev.ts ev.startNs
  rw [MergeSegment.parts]
  refine ⟨List.pairwise_filterMap.2 (hpair.imp fun {a b} hab => ?_), fun s hs => ?_⟩
  · intro s hs s' hs'
    obtain ⟨-, hstop, -⟩ := clip_eq_some hs
    obtain ⟨hstart', -, -⟩ := clip_eq_some hs'
    omega
  · obtain ⟨part, hpart, hclip⟩ := List.mem_filterMap.1 hs
    obtain ⟨-, hstop, hlt⟩ := clip_eq_some hclip
    have := (hin part hpart).2.2
    exact ⟨hlt, by omega⟩

theorem mem_cover_parts (h : Normalized seg.exact) (ev : TraceEvent) (t : ℕ) :
    t ∈ cover (seg.parts ev) ↔
      ((ev.ts - ev.dur ≤ t ∧ t < ev.ts) ∧ t ∉ cover seg.exact) ∧ seg.fromM ≤ t ∧ t < seg.toM := by
  rw [MergeSegment.parts, mem_cover_filterMap_clip, MergeSegment.spansFor,
    gaps_drop h (spansFirstEndingAfter_spec h ev.startNs), startNs_eq]

theorem monoSpan_part (off : UInt64) (ev : TraceEvent) (c : Bool) {s : Span} (hlt : s.start < s.stop)
    (hle : s.stop ≤ ev.ts) : ((ev.part c s).shift off).monoSpan off = s := by
  have hmax := ev.timestampNs.toNat_lt
  have hstop : (UInt64.ofNat s.stop).toNat = s.stop := by
    rw [UInt64.toNat_ofNat_of_lt']
    exact lt_of_le_of_lt hle hmax
  have hdur : (UInt64.ofNat (s.stop - s.start)).toNat = s.stop - s.start := by
    rw [UInt64.toNat_ofNat_of_lt']
    exact lt_of_le_of_lt (by rw [TraceEvent.ts] at hle; omega) hmax
  obtain ⟨start, stop⟩ := s
  simp only [TraceEvent.monoSpan, TraceEvent.shift, TraceEvent.part, UInt64.add_sub_cancel, hstop,
    hdur, Span.mk.injEq, and_true]
  dsimp only at hlt
  omega

theorem map_monoSpan_partRecords (off : UInt64) (ev : TraceEvent) (c : Bool) {l : List Span}
    (h : ∀ s ∈ l, s.start < s.stop ∧ s.stop ≤ ev.ts) :
    ((partRecords ev c l).map (TraceEvent.shift off)).map (TraceEvent.monoSpan off) = l := by
  induction l generalizing c with
  | nil => rfl
  | cons s l ih =>
    obtain ⟨hs, hl⟩ := List.forall_mem_cons.1 h
    rw [partRecords, List.map_cons, List.map_cons, monoSpan_part off ev c hs.1 hs.2, ih true hl]

theorem or_and_cancel (f c : UInt32) : (f ||| c) &&& c = c := by
  apply UInt32.toBitVec_inj.mp
  ext i
  simp
  cases f.toBitVec[i] <;> simp

theorem and_not_and (f c : UInt32) : f &&& ~~~c &&& c = 0 := by
  rw [UInt32.and_assoc]
  simp

theorem flags_partRecords (off : UInt64) (ev : TraceEvent) (c : Bool) (l : List Span) {i : ℕ}
    {o : TraceEvent} (h : ((partRecords ev c l).map (TraceEvent.shift off))[i]? = some o) :
    o.flags &&& flagSampleCont ≠ 0 ↔ c = true ∨ i ≠ 0 := by
  induction l generalizing c i with
  | nil => simp [partRecords] at h
  | cons s l ih =>
    rw [partRecords, List.map_cons] at h
    cases i with
    | zero =>
      obtain rfl : (ev.part c s).shift off = o := by simpa using h
      cases c with
      | false => simp [TraceEvent.shift, TraceEvent.part, and_not_and]
      | true => simp [TraceEvent.shift, TraceEvent.part, or_and_cancel, flagSampleCont]
    | succ i =>
      rw [List.getElem?_cons_succ] at h
      simp [ih true h]

/-- **The merge conserves the time of samples outside exact coverage.** The bound is never hit. What
is emitted for a sample are disjoint pieces, in order, that cover exactly what the window holds of its
interval outside exact coverage, the ones behind the first marked as continuations. Normalized
coverage is what normalizing gives: sorted, disjoint, and of the same union. -/
theorem exactMerge_conserves (segs : List MergeSegment)
    (hnorm : ∀ seg ∈ segs, Normalized seg.exact) :
    (∀ maxEvents, mergeMaxEvents segs = some maxEvents → mergeSegments maxEvents segs =
        some (segs.flatMap fun seg => seg.events.flatMap seg.emitted)) ∧
      (∀ seg ∈ segs, ∀ ev ∈ seg.events, ev.isSample →
        ((seg.emitted ev).map (TraceEvent.monoSpan seg.off)).Pairwise
            (fun a b => a.stop ≤ b.start) ∧
          (∀ t, t ∈ cover ((seg.emitted ev).map (TraceEvent.monoSpan seg.off)) ↔
            ((ev.ts - ev.dur ≤ t ∧ t < ev.ts) ∧ t ∉ cover seg.exact) ∧
              seg.fromM ≤ t ∧ t < seg.toM) ∧
          ∀ i o, (seg.emitted ev)[i]? = some o → (o.flags &&& flagSampleCont ≠ 0 ↔ i ≠ 0)) ∧
      ∀ l : List Span, (spansNormalize l).Pairwise Before ∧ cover (spansNormalize l) = cover l ∧
        ((∀ s ∈ l, s.start ≤ s.stop) → Normalized (spansNormalize l)) := by
  refine ⟨fun maxEvents h => mergeSegments_eq h, fun seg hseg ev _ hs => ?_, fun l => ?_⟩
  · obtain ⟨hpair, hin⟩ := parts_ordered (hnorm seg hseg) ev
    have hemitted : seg.emitted ev =
        (partRecords ev false (seg.parts ev)).map (TraceEvent.shift seg.off) := by
      rw [MergeSegment.emitted, if_pos hs]
    have hspans : (seg.emitted ev).map (TraceEvent.monoSpan seg.off) = seg.parts ev := by
      rw [hemitted, map_monoSpan_partRecords _ _ _ hin]
    rw [hspans]
    refine ⟨hpair, mem_cover_parts (hnorm seg hseg) ev, fun i o ho => ?_⟩
    rw [hemitted] at ho
    simpa using flags_partRecords seg.off ev false (seg.parts ev) ho
  · exact ⟨pairwise_normalize l, cover_normalize l, normalized_normalize⟩

/-- A sample over two exact spans, in a window that cuts it at both ends, leaves three pieces. -/
theorem exactMerge_conserves_three_pieces :
    let sample : TraceEvent := ⟨100, 7, 0, 0, flagSample, 90, 0, cpuNsUnknown⟩
    let seg : MergeSegment := ⟨[sample], [⟨30, 40⟩, ⟨60, 61⟩], [], 5, 20, 70⟩
    mergeMaxEvents [seg] = some 3 ∧
      (seg.emitted sample).map (TraceEvent.monoSpan 5) = [⟨20, 30⟩, ⟨40, 60⟩, ⟨61, 70⟩] ∧
      ((seg.emitted sample).map (TraceEvent.monoSpan 5)).Pairwise (fun a b => a.stop ≤ b.start) := by
  intro sample seg
  have hnorm : ∀ s ∈ [seg], Normalized s.exact := by
    intro s hs
    rw [List.mem_singleton.1 hs]
    exact ⟨by decide, by simp [seg, Before]⟩
  refine ⟨by decide, by decide, ?_⟩
  exact ((exactMerge_conserves [seg] hnorm).2.1 seg List.mem_cons_self sample List.mem_cons_self
    (by decide)).1

end PgWaitTracer
