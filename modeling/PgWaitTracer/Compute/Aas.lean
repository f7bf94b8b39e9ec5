import Mathlib.Algebra.BigOperators.Ring.Finset
import Mathlib.Tactic.FieldSimp
import Mathlib.Tactic.Linarith
import PgWaitTracer.Compute.RankedViews

/-!
# The chart of average active sessions

The chart cuts a window into buckets of one width and adds up, in every bucket, the time that the
records of the trace spend in it (`pgwt_compute_aas`, `src/compute.c`). The width is rounded up, so
that the last bucket can end after the window. With details, the events with most time in the window
get a series of their own, filled in a second pass.

Times are natural numbers: the arithmetic on them is taken to fit in 64 bits. Doubles of the source
are rational numbers, an array is a function of its index. Allocations succeed.

## Main results

* `AasGrid.sum_overlapNs`: what a record has in all buckets together.
* `aasRun_eq`: buckets and events are filled independently of each other.
-/

namespace PgWaitTracer

/-! ### Categories -/

/-- The `PGWT_CAT_*` constants. -/
inductive EventCategory
  | fgPlan | fgExec | fgCmd | maint | bg | ioWorker
  deriving DecidableEq, Repr

/-- `pgwt_event_category`. -/
def eventCategory (mask : UInt32) (ev : TraceEvent) : Option EventCategory :=
  if ev.flags &&& flagIoWorker ≠ 0 then some .ioWorker
  else if isIdleEvent mask ev.oldEvent then none
  else if ev.flags &&& flagMaint ≠ 0 then some .maint
  else if ev.flags &&& flagBackground ≠ 0 then some .bg
  else if ev.flags &&& flagPlan ≠ 0 then some .fgPlan
  else if ev.flags &&& flagExec ≠ 0 then some .fgExec
  else some .fgCmd

/-! ### Buckets -/

/-- The buckets of a window. -/
structure AasGrid where
  fromNs : ℕ
  toNs : ℕ
  bucketNs : ℕ
  numBuckets : ℕ

/-- The buckets that `pgwt_compute_aas` takes for a window that is not empty. -/
def aasGrid (fromNs toNs numBuckets : ℕ) : AasGrid :=
  let rangeNs := toNs - fromNs
  let bucketNs := (rangeNs + numBuckets - 1) / numBuckets
  let bucketNs := if bucketNs = 0 then 1 else bucketNs
  ⟨fromNs, toNs, bucketNs, (rangeNs + bucketNs - 1) / bucketNs⟩

namespace AasGrid

/-- `first_b`. -/
def firstBucket (g : AasGrid) (ev : TraceEvent) : ℕ :=
  let evStart := ev.ts - ev.dur
  if evStart ≤ g.fromNs then 0 else (evStart - g.fromNs) / g.bucketNs

/-- `last_b`. -/
def lastBucket (g : AasGrid) (ev : TraceEvent) : ℕ :=
  min (if g.toNs ≤ ev.ts then g.numBuckets - 1 else (ev.ts - g.fromNs - 1) / g.bucketNs)
    (g.numBuckets - 1)

/-- The record reaches into the window. -/
def reaches (g : AasGrid) (ev : TraceEvent) : Bool :=
  !(ev.ts ≤ g.fromNs || g.toNs ≤ ev.ts - ev.dur)

/-- What a record has in a bucket. -/
def overlapNs (g : AasGrid) (ev : TraceEvent) (b : ℕ) : ℕ :=
  let bStart := g.fromNs + b * g.bucketNs
  let bEnd := bStart + g.bucketNs
  if g.firstBucket ev ≤ b ∧ b ≤ g.lastBucket ev then min ev.ts bEnd - max (ev.ts - ev.dur) bStart
  else 0

end AasGrid

theorem aasGrid_bucketNs_pos (fromNs toNs numBuckets : ℕ) :
    0 < (aasGrid fromNs toNs numBuckets).bucketNs := by
  simp only [aasGrid]
  split_ifs with hzero
  · exact Nat.one_pos
  · exact Nat.pos_of_ne_zero hzero

theorem aasGrid_cover {fromNs toNs : ℕ} (numBuckets : ℕ) (h : fromNs < toNs) :
    toNs - fromNs ≤ (aasGrid fromNs toNs numBuckets).numBuckets *
        (aasGrid fromNs toNs numBuckets).bucketNs ∧
      (aasGrid fromNs toNs numBuckets).numBuckets * (aasGrid fromNs toNs numBuckets).bucketNs <
        toNs - fromNs + (aasGrid fromNs toNs numBuckets).bucketNs := by
  have hpos := aasGrid_bucketNs_pos fromNs toNs numBuckets
  set w := (aasGrid fromNs toNs numBuckets).bucketNs with hw
  have hnum : (aasGrid fromNs toNs numBuckets).numBuckets = (toNs - fromNs + w - 1) / w := rfl
  have hdiv := Nat.div_add_mod (toNs - fromNs + w - 1) w
  have hmod := Nat.mod_lt (toNs - fromNs + w - 1) hpos
  rw [hnum, Nat.mul_comm]
  omega

namespace AasGrid

/-- The end of the last bucket. -/
def gridEnd (g : AasGrid) : ℕ := g.fromNs + g.numBuckets * g.bucketNs

theorem sum_bucketPart (ts start fromNs w n : ℕ) :
    ∑ b ∈ Finset.range n,
        (min ts (fromNs + b * w + w) - max start (fromNs + b * w)) =
      min ts (fromNs + n * w) - max start fromNs := by
  induction n with
  | zero => simp only [Finset.range_zero, Finset.sum_empty]; omega
  | succ n ih =>
    rw [Finset.sum_range_succ, ih, Nat.succ_mul, ← Nat.add_assoc]
    have hle : fromNs ≤ fromNs + n * w := Nat.le_add_right _ _
    omega

theorem overlapNs_eq {g : AasGrid} (hw : 0 < g.bucketNs) {ev : TraceEvent}
    (hreach : g.reaches ev = true) {b : ℕ} (hb : b < g.numBuckets) :
    g.overlapNs ev b = min ev.ts (g.fromNs + b * g.bucketNs + g.bucketNs) -
      max (ev.ts - ev.dur) (g.fromNs + b * g.bucketNs) := by
  simp only [overlapNs]
  split_ifs with hvisit
  · rfl
  have hts : g.fromNs < ev.ts ∧ ev.ts - ev.dur < g.toNs := by simpa [reaches] using hreach
  by_cases hfirst : g.firstBucket ev ≤ b
  · -- behind the last bucket
    have hlast : g.lastBucket ev < b := by
      by_contra hno
      exact hvisit ⟨hfirst, Nat.not_lt.1 hno⟩
    simp only [lastBucket] at hlast
    split_ifs at hlast with hto
    · omega
    · have hdiv : (ev.ts - g.fromNs - 1) / g.bucketNs < b := by omega
      rw [Nat.div_lt_iff_lt_mul hw] at hdiv
      omega
  · -- before the first bucket
    simp only [firstBucket] at hfirst
    split_ifs at hfirst with hstart
    · exact absurd (Nat.zero_le b) hfirst
    · rw [Nat.not_le, Nat.lt_iff_add_one_le, Nat.le_div_iff_mul_le hw, Nat.succ_mul] at hfirst
      omega

/-- **A record in all buckets.** -/
theorem sum_overlapNs {g : AasGrid} (hw : 0 < g.bucketNs) {ev : TraceEvent}
    (hreach : g.reaches ev = true) :
    ∑ b ∈ Finset.range g.numBuckets, g.overlapNs ev b =
      min ev.ts g.gridEnd - max (ev.ts - ev.dur) g.fromNs := by
  rw [gridEnd, ← sum_bucketPart]
  exact Finset.sum_congr rfl fun b hb => overlapNs_eq hw hreach (Finset.mem_range.1 hb)

end AasGrid

/-! ### The chart of a bucket -/

/-- `struct pgwt_aas_bucket`. During the loop the times are ns and `offcpuAas` is DB time. -/
structure AasBucket where
  classAas : WaitClass → ℚ := fun _ => 0
  offcpuAas : ℚ := 0
  catAas : EventCategory → ℚ := fun _ => 0

namespace AasBucket

/-- The CPU part of an interval on CPU in a bucket. -/
def cpuNs (ev : TraceEvent) (ov : ℚ) : ℚ :=
  let cpu := if ev.cpuNs ≠ cpuNsUnknown then
    if 0 < ev.dur then ev.cpuNs.toNat * (ov / ev.dur) else 0 else ov
  if ov < cpu then ov else cpu

/-- What a record with a category has in a bucket. -/
def add (s : AasBucket) (ev : TraceEvent) (cat : Option EventCategory) (ov : ℚ) : AasBucket :=
  let cls := waitClassIndex ev.oldEvent
  let share := if cls = .cpu then cpuNs ev ov else ov
  let s := if cat = some .ioWorker then s else
    { s with
      offcpuAas := s.offcpuAas + ov
      classAas := fun c => if c = cls then s.classAas c + share else s.classAas c }
  { s with catAas := fun c => if cat = some c then s.catAas c + ov else s.catAas c }

/-- DB time becomes what is off CPU, and ns become sessions. -/
def normalize (s : AasBucket) (bucketNs : ℚ) : AasBucket :=
  let offNs := s.offcpuAas - s.classAas .cpu - waitTotalNs s.classAas
  { classAas := fun c => s.classAas c / bucketNs
    offcpuAas := (if offNs < 0 then 0 else offNs) / bucketNs
    catAas := fun c => s.catAas c / bucketNs }

/-- The height of the chart in a bucket. -/
def total (s : AasBucket) : ℚ := (classOrder.map s.classAas).sum + s.offcpuAas

theorem sum_classOrder_add (m : WaitClass → ℚ) (cls : WaitClass) (x : ℚ) :
    (classOrder.map fun c => if c = cls then m c + x else m c).sum = (classOrder.map m).sum + x := by
  have hone : (classOrder.map fun c => if c = cls then x else 0).sum = x := by
    cases cls <;> simp [classOrder]
  conv_rhs => rw [← hone, ← List.sum_map_add]
  refine congrArg List.sum (List.map_congr_left fun c _ => ?_)
  split_ifs
  · rfl
  · rw [add_zero]

theorem sum_classOrder_eq (m : WaitClass → ℚ) :
    (classOrder.map m).sum = m .cpu + waitTotalNs m := by
  simp [waitTotalNs, classOrder]

theorem cpuNs_le (ev : TraceEvent) (ov : ℚ) : cpuNs ev ov ≤ ov := by
  simp only [cpuNs]
  generalize (if ev.cpuNs ≠ cpuNsUnknown then
    if 0 < ev.dur then ev.cpuNs.toNat * (ov / ev.dur) else 0 else ov) = cpu
  split_ifs with hlt
  · exact le_rfl
  · exact not_lt.1 hlt

/-- Classes do not have more than the DB time of a bucket. -/
def Within (s : AasBucket) : Prop := (classOrder.map s.classAas).sum ≤ s.offcpuAas

theorem within_empty : ({} : AasBucket).Within := by
  simp [Within]

theorem Within.add {s : AasBucket} (h : s.Within) (ev : TraceEvent) (cat : Option EventCategory)
    (ov : ℚ) : (s.add ev cat ov).Within := by
  by_cases hio : cat = some .ioWorker
  · simpa only [Within, AasBucket.add, if_pos hio] using h
  · rw [Within] at h ⊢
    simp only [AasBucket.add, if_neg hio]
    rw [sum_classOrder_add]
    have hshare : (if waitClassIndex ev.oldEvent = .cpu then cpuNs ev ov else ov) ≤ ov := by
      split_ifs
      · exact cpuNs_le ev ov
      · exact le_rfl
    linarith

/-- **The height of the chart** is the DB time of the bucket. -/
theorem Within.total_normalize {s : AasBucket} (h : s.Within) {w : ℚ} (hw : w ≠ 0) :
    (s.normalize w).total * w = s.offcpuAas := by
  have hclass : (classOrder.map s.classAas).sum = s.classAas .cpu + waitTotalNs s.classAas :=
    sum_classOrder_eq _
  rw [Within, hclass] at h
  have hoff : ¬ s.offcpuAas - s.classAas .cpu - waitTotalNs s.classAas < 0 := by
    push Not
    linarith
  have hdiv : (classOrder.map fun c => s.classAas c / w).sum =
      (s.classAas .cpu + waitTotalNs s.classAas) / w := by
    simp only [div_eq_mul_inv]
    rw [← hclass, List.sum_map_mul_right]
  simp only [total, normalize]
  rw [if_neg hoff, hdiv]
  field_simp
  ring

end AasBucket

/-! ### Events -/

/-- `struct aas_event_accum`. -/
structure AasEventAccum where
  eventId : UInt32
  totalNs : ℕ := 0
  deriving DecidableEq, Repr

/-- `AAS_EVT_HT_SIZE`. -/
def aasEvtHtSize : ℕ := 512

/-- `event_id & AAS_EVT_HT_MASK`. -/
def aasEvtHash (id : UInt32) : ℕ := (id &&& 511).toNat

/-- The time of a record in the window, of a record that reaches into it. -/
def AasGrid.clipNs (g : AasGrid) (ev : TraceEvent) : ℕ :=
  min ev.ts g.toNs - max (ev.ts - ev.dur) g.fromNs

/-- A record in the row of its event. -/
def AasGrid.addEvent (g : AasGrid) (r : AasEventAccum) (ev : TraceEvent) : AasEventAccum :=
  { r with totalNs := r.totalNs + g.clipNs ev }

/-- `AAS_MAX_EVENT_SERIES`. -/
def aasMaxEventSeries : ℕ := 16

/-- `struct pgwt_aas_event_series`, without the name. -/
structure AasSeries where
  eventId : UInt32
  totalAas : ℚ
  deriving DecidableEq, Repr

/-- `cmp_aas_event_series`. -/
def aasSeriesLe (a b : AasSeries) : Bool :=
  if a.totalAas ≠ b.totalAas then b.totalAas < a.totalAas else a.eventId ≤ b.eventId

theorem keyed_aasEvents (g : AasGrid) :
    Tally.Keyed AasEventAccum.eventId (fun id => { eventId := id }) g.addEvent :=
  ⟨fun _ => rfl, fun _ _ => rfl⟩

/-! ### The chart -/

/-- Buckets and events in the first pass. -/
structure AasState where
  buckets : ℕ → AasBucket := fun _ => {}
  events : GrowTable AasEventAccum := { slots := List.replicate aasEvtHtSize none }

/-- The record is looked at. -/
def AasGrid.takes (mask : UInt32) (f : Filter) (g : AasGrid) (ev : TraceEvent) : Bool :=
  filterMatches f ev && !isIdleEvent mask ev.oldEvent && g.reaches ev

/-- A record in the first pass. A slot of the table of events is free as long as it has no time, so
that a record without time takes none. -/
def aasStep (mask : UInt32) (f : Filter) (g : AasGrid) (detail : Bool) (s : AasState)
    (ev : TraceEvent) : Option AasState :=
  if !g.takes mask f ev then some s
  else
    let cat := eventCategory mask ev
    let buckets := fun b => (s.buckets b).add ev cat (g.overlapNs ev b)
    if detail ∧ cat ≠ some .ioWorker then
      (Tally.visitRow AasEventAccum.eventId aasEvtHash (fun id => { eventId := id })
        TraceEvent.oldEvent g.addEvent (fun ev => 0 < g.clipNs ev) s.events ev).map fun t =>
          ⟨buckets, t⟩
    else some { s with buckets := buckets }

/-- The series of the events with most time. -/
def aasSeries (g : AasGrid) (maxSeries : ℤ) (events : GrowTable AasEventAccum) : List AasSeries :=
  let maxSeries := if maxSeries ≤ 0 ∨ (aasMaxEventSeries : ℤ) < maxSeries then aasMaxEventSeries
    else maxSeries.toNat
  let all := (events.slots.filterMap id).map fun r =>
    (⟨r.eventId, r.totalNs / ((g.toNs - g.fromNs : ℕ) : ℚ)⟩ : AasSeries)
  (all.mergeSort aasSeriesLe).take maxSeries

/-- A record in the second pass. -/
def aasEventStep (mask : UInt32) (f : Filter) (g : AasGrid) (series : List AasSeries)
    (m : ℕ → ℕ → ℚ) (ev : TraceEvent) : ℕ → ℕ → ℚ :=
  if !(sessionTakes mask f ev && g.reaches ev) then m
  else
    match series.findIdx? fun s => s.eventId = ev.oldEvent with
    | none => m
    | some si => fun b s => if s = si then m b s + g.overlapNs ev b else m b s

/-- `struct pgwt_aas_result`. -/
structure AasResult where
  bucketNs : ℕ
  numBuckets : ℕ
  buckets : ℕ → AasBucket
  maxAas : ℚ
  series : List AasSeries
  eventAas : ℕ → ℕ → ℚ

/-- The largest of the first heights, and at least 0. -/
def maxHeight (n : ℕ) (height : ℕ → ℚ) : ℚ :=
  ((List.range n).map height).foldl (fun m h => if m < h then h else m) 0

/-- The chart after the first pass. -/
def aasResult (mask : UInt32) (f : Filter) (g : AasGrid) (detail : Bool) (maxSeries : ℤ)
    (evs : List TraceEvent) (s : AasState) : AasResult :=
  let buckets := fun b => (s.buckets b).normalize g.bucketNs
  let series := if detail then aasSeries g maxSeries s.events else []
  let m := evs.foldl (aasEventStep mask f g series) fun _ _ => 0
  let eventAas := fun b s => m b s / g.bucketNs
  { bucketNs := g.bucketNs
    numBuckets := g.numBuckets
    buckets := buckets
    maxAas := if series.isEmpty then maxHeight g.numBuckets fun b => (buckets b).total
      else maxHeight g.numBuckets fun b => ((List.range series.length).map (eventAas b)).sum
    series := series
    eventAas := eventAas }

/-- `pgwt_compute_aas`. -/
def computeAas (mask : UInt32) (f : Filter) (fromNs toNs numBuckets : ℕ) (detail : Bool)
    (maxSeries : ℤ) (evs : List TraceEvent) : Option AasResult :=
  if toNs - fromNs = 0 ∨ numBuckets = 0 then some ⟨1000000000, 0, fun _ => {}, 0, [], fun _ _ => 0⟩
  else
    let g := aasGrid fromNs toNs numBuckets
    (evs.foldlM (aasStep mask f g detail) {}).map (aasResult mask f g detail maxSeries evs)

/-! ### The first pass -/

section Pass

variable (mask : UInt32) (f : Filter) (g : AasGrid)

/-- The records of the table of events. -/
def AasGrid.lists (ev : TraceEvent) : Bool := sessionTakes mask f ev && g.reaches ev

/-- A record in the buckets. -/
def aasBucketStep (m : ℕ → AasBucket) (ev : TraceEvent) : ℕ → AasBucket :=
  if g.takes mask f ev then fun b => (m b).add ev (eventCategory mask ev) (g.overlapNs ev b) else m

/-- The table of events after the first pass. -/
def aasEventTable (evs : List TraceEvent) : Option (GrowTable AasEventAccum) :=
  (evs.filter (g.lists mask f)).foldlM
    (Tally.visitRow AasEventAccum.eventId aasEvtHash (fun id => { eventId := id })
      TraceEvent.oldEvent g.addEvent fun ev => 0 < g.clipNs ev)
    { slots := List.replicate aasEvtHtSize none }

variable {mask f g}

theorem eventCategory_eq_ioWorker (ev : TraceEvent) :
    eventCategory mask ev = some .ioWorker ↔ ev.flags &&& flagIoWorker ≠ 0 := by
  rw [eventCategory]
  split_ifs with h <;> simp [h]

theorem lists_iff (ev : TraceEvent) :
    g.lists mask f ev = true ↔
      g.takes mask f ev = true ∧ eventCategory mask ev ≠ some .ioWorker := by
  rw [Ne, eventCategory_eq_ioWorker]
  simp only [AasGrid.lists, AasGrid.takes, sessionTakes, Bool.and_eq_true, decide_eq_true_eq]
  tauto

theorem aasStep_eq (detail : Bool) (s : AasState) (ev : TraceEvent) :
    aasStep mask f g detail s ev =
      (if detail = true ∧ g.lists mask f ev = true then
        Tally.visitRow AasEventAccum.eventId aasEvtHash (fun id => { eventId := id })
          TraceEvent.oldEvent g.addEvent (fun ev => 0 < g.clipNs ev) s.events ev
      else some s.events).map fun t => ⟨aasBucketStep mask f g s.buckets ev, t⟩ := by
  simp only [aasStep, aasBucketStep, lists_iff]
  by_cases htakes : g.takes mask f ev = true
  · by_cases hshow : detail = true ∧ eventCategory mask ev ≠ some .ioWorker
    · have hlist : detail = true ∧ g.takes mask f ev = true ∧
          eventCategory mask ev ≠ some .ioWorker := ⟨hshow.1, htakes, hshow.2⟩
      rw [if_neg (by simp [htakes]), if_pos hshow, if_pos hlist, if_pos htakes]
    · have hlist : ¬ (detail = true ∧ g.takes mask f ev = true ∧
          eventCategory mask ev ≠ some .ioWorker) := fun h => hshow ⟨h.1, h.2.2⟩
      rw [if_neg (by simp [htakes]), if_neg hshow, if_neg hlist, if_pos htakes]
      rfl
  · have hlist : ¬ (detail = true ∧ g.takes mask f ev = true ∧
        eventCategory mask ev ≠ some .ioWorker) := fun h => htakes h.2.1
    rw [if_pos (by simp [htakes]), if_neg hlist, if_neg htakes]
    rfl

theorem aasEventTable_snoc (evs : List TraceEvent) (ev : TraceEvent) :
    aasEventTable mask f g (evs ++ [ev]) =
      (aasEventTable mask f g evs).bind fun t =>
        if g.lists mask f ev = true then
          Tally.visitRow AasEventAccum.eventId aasEvtHash (fun id => { eventId := id })
            TraceEvent.oldEvent g.addEvent (fun ev => 0 < g.clipNs ev) t ev
        else some t := by
  rw [aasEventTable, List.filter_append, List.foldlM_append]
  refine congrArg _ (funext fun t => ?_)
  by_cases hlist : g.lists mask f ev = true
  · rw [if_pos hlist, List.filter_cons_of_pos hlist]
    exact bind_pure _
  · rw [if_neg hlist, List.filter_cons_of_neg hlist]
    rfl

/-- **Buckets and events are filled independently of each other.** -/
theorem aasRun_eq (detail : Bool) (evs : List TraceEvent) :
    evs.foldlM (aasStep mask f g detail) {} =
      (if detail then aasEventTable mask f g evs
        else some { slots := List.replicate aasEvtHtSize none }).map
          fun t => ⟨evs.foldl (aasBucketStep mask f g) fun _ => {}, t⟩ := by
  induction evs using List.reverseRecOn with
  | nil => cases detail <;> rfl
  | append_singleton evs ev ih =>
    have hrun : (evs ++ [ev]).foldlM (aasStep mask f g detail) {} =
        (evs.foldlM (aasStep mask f g detail) {}).bind fun s => aasStep mask f g detail s ev := by
      rw [List.foldlM_append]
      refine congrArg _ (funext fun s => ?_)
      exact bind_pure _
    rw [hrun, ih, List.foldl_append, List.foldl_cons, List.foldl_nil]
    simp only [aasStep_eq]
    cases detail with
    | false => rfl
    | true =>
      simp only [if_true, true_and, aasEventTable_snoc]
      cases aasEventTable mask f g evs <;> rfl

end Pass

end PgWaitTracer
