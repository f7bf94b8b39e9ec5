import Mathlib.Algebra.BigOperators.Group.List.Basic
import Mathlib.Algebra.Order.Ring.Rat
import PgWaitTracer.Compute.Filter
import PgWaitTracer.Summary.RecordTimes

/-!
# The time model

DB time and what it is made of, computed from the records of the trace (`pgwt_compute_time_model`)
and from the per-second records of the summary (`tm_summary_visitor`,
`pgwt_compute_time_model_from_summaries`), both in `src/compute.c`. The accumulators, doubles of the
source, are rational numbers.

Left out is what the two do not share or do not compare: categories and I/O worker utilisation, the
rows per event, the named parts of idle time, and filters on the summary side.

## Main results

* `tmEvents_eq_sum`, `recTotals_recordTimes`: what is accumulated is a sum
  over the records of the trace and over the calls of the writer.
-/

namespace PgWaitTracer

/-! ### Accumulators -/

/-- Accumulators of the time model. -/
@[ext] structure TmAccum where
  dbTimeNs : ℚ
  idleNs : ℚ
  classNs : WaitClass → ℚ
  cpuNs : ℚ
  cpuClampedNs : ℚ
  waitGapCpuNs : ℚ
  hasMeasured : Bool

namespace TmAccum

instance : Zero TmAccum := ⟨⟨0, 0, fun _ => 0, 0, 0, 0, false⟩⟩

instance : Add TmAccum := ⟨fun a b =>
  ⟨a.dbTimeNs + b.dbTimeNs, a.idleNs + b.idleNs, fun c => a.classNs c + b.classNs c,
    a.cpuNs + b.cpuNs, a.cpuClampedNs + b.cpuClampedNs, a.waitGapCpuNs + b.waitGapCpuNs,
    a.hasMeasured || b.hasMeasured⟩⟩

@[simp] theorem zero_dbTimeNs : (0 : TmAccum).dbTimeNs = 0 := rfl
@[simp] theorem zero_idleNs : (0 : TmAccum).idleNs = 0 := rfl
@[simp] theorem zero_classNs (c : WaitClass) : (0 : TmAccum).classNs c = 0 := rfl
@[simp] theorem zero_cpuNs : (0 : TmAccum).cpuNs = 0 := rfl
@[simp] theorem zero_cpuClampedNs : (0 : TmAccum).cpuClampedNs = 0 := rfl
@[simp] theorem zero_waitGapCpuNs : (0 : TmAccum).waitGapCpuNs = 0 := rfl
@[simp] theorem zero_hasMeasured : (0 : TmAccum).hasMeasured = false := rfl

variable (a b : TmAccum)

@[simp] theorem add_dbTimeNs : (a + b).dbTimeNs = a.dbTimeNs + b.dbTimeNs := rfl
@[simp] theorem add_idleNs : (a + b).idleNs = a.idleNs + b.idleNs := rfl
@[simp] theorem add_classNs (c : WaitClass) : (a + b).classNs c = a.classNs c + b.classNs c := rfl
@[simp] theorem add_cpuNs : (a + b).cpuNs = a.cpuNs + b.cpuNs := rfl
@[simp] theorem add_cpuClampedNs : (a + b).cpuClampedNs = a.cpuClampedNs + b.cpuClampedNs := rfl
@[simp] theorem add_waitGapCpuNs : (a + b).waitGapCpuNs = a.waitGapCpuNs + b.waitGapCpuNs := rfl
@[simp] theorem add_hasMeasured : (a + b).hasMeasured = (a.hasMeasured || b.hasMeasured) := rfl

instance : AddMonoid TmAccum where
  add_assoc a b c := by ext <;> simp [add_assoc, Bool.or_assoc]
  zero_add a := by ext <;> simp
  add_zero a := by ext <;> simp
  nsmul := nsmulRec

end TmAccum

/-- What the time model reports, in ns. -/
@[ext] structure TmResult where
  dbTimeNs : ℚ
  idleNs : ℚ
  classNs : WaitClass → ℚ
  cpuNs : ℚ
  offcpuNs : ℚ
  cpuClampedNs : ℚ
  waitGapCpuNs : ℚ
  hasMeasuredCpu : Bool

/-- The time of all classes but CPU. -/
def waitTotalNs (classNs : WaitClass → ℚ) : ℚ := ((classOrder.filter (· ≠ .cpu)).map classNs).sum

/-- DB time without CPU and waits. -/
def TmAccum.residual (t : TmAccum) : ℚ := t.dbTimeNs - t.cpuNs - waitTotalNs t.classNs

/-- The class CPU is the CPU time. -/
def TmAccum.setCpuClass (t : TmAccum) : TmAccum :=
  { t with classNs := fun c => if c = WaitClass.cpu then t.cpuNs else t.classNs c }

/-- The rest of DB time is off CPU, if something was measured. A rest below 0 counts as clamped. -/
def TmAccum.result (t : TmAccum) : TmResult where
  dbTimeNs := t.dbTimeNs
  idleNs := t.idleNs
  classNs := t.classNs
  cpuNs := t.cpuNs
  offcpuNs := if t.hasMeasured then max t.residual 0 else 0
  cpuClampedNs := if t.hasMeasured ∧ t.residual < 0 then t.cpuClampedNs + -t.residual
    else t.cpuClampedNs
  waitGapCpuNs := t.waitGapCpuNs
  hasMeasuredCpu := t.hasMeasured

/-! ### From records -/

/-- `event_window_ns`; a bound of 0 is none. -/
def eventWindowNs (ev : TraceEvent) (fromNs toNs : ℕ) : ℕ :=
  if ev.ts < ev.dur then 0
  else
    let start := ev.ts - ev.dur
    let start := if fromNs ≠ 0 ∧ start < fromNs then fromNs else start
    let stop := if toNs ≠ 0 ∧ toNs < ev.ts then toNs else ev.ts
    stop - start

/-- `event_window_frac`. -/
def eventWindowFrac (clip dur : ℕ) : ℚ :=
  if dur = 0 then 0 else if clip = dur then 1 else clip / dur

/-- A record in the loop of `pgwt_compute_time_model`. -/
def tmEvent (mask : UInt32) (f : Filter) (fromNs toNs : ℕ) (t : TmAccum) (ev : TraceEvent) :
    TmAccum :=
  if !filterMatches f ev then t
  else
    let clip : ℚ := eventWindowNs ev fromNs toNs
    let frac := eventWindowFrac (eventWindowNs ev fromNs toNs) ev.dur
    if ev.flags &&& flagIoWorker ≠ 0 then t
    else if isIdleEvent mask ev.oldEvent then { t with idleNs := t.idleNs + clip }
    else
      let t := { t with dbTimeNs := t.dbTimeNs + clip }
      if waitClassIndex ev.oldEvent = .cpu then
        if ev.cpuNs ≠ cpuNsUnknown then
          let m := ev.cpuNs.toNat * frac
          { t with
            cpuClampedNs := if clip < m then t.cpuClampedNs + (m - clip) else t.cpuClampedNs
            cpuNs := t.cpuNs + if clip < m then clip else m
            hasMeasured := t.hasMeasured || 0 < frac }
        else { t with cpuNs := t.cpuNs + clip }
      else
        { t with
          classNs := fun c => if c = waitClassIndex ev.oldEvent then t.classNs c + clip
            else t.classNs c
          waitGapCpuNs := if ev.cpuNs ≠ cpuNsUnknown then t.waitGapCpuNs + ev.cpuNs.toNat * frac
            else t.waitGapCpuNs }

/-- The accumulators after the loop of `pgwt_compute_time_model`. -/
def tmEvents (mask : UInt32) (f : Filter) (fromNs toNs : ℕ) (evs : List TraceEvent) : TmAccum :=
  evs.foldl (tmEvent mask f fromNs toNs) 0

/-- `pgwt_compute_time_model`: the class CPU is what was measured or inferred. -/
def computeTimeModel (mask : UInt32) (f : Filter) (fromNs toNs : ℕ) (evs : List TraceEvent) :
    TmResult :=
  (tmEvents mask f fromNs toNs evs).setCpuClass.result

/-! ### From summaries -/

/-- What `tm_summary_visitor` takes from a record, without a filter. -/
def recTotals (rec : TimeScalars ℕ) : TmAccum where
  dbTimeNs := ((classOrder.filter (· ≠ .activity)).map fun c => (rec.classNs c : ℚ)).sum
  idleNs := rec.idleNs
  classNs := fun c => if c = .activity then 0 else rec.classNs c
  cpuNs := rec.cpuMeasuredNs + rec.cpuUnknownNs
  cpuClampedNs := rec.cpuClampedNs
  waitGapCpuNs := rec.waitGapCpuNs
  hasMeasured := 0 < rec.cpuMeasuredRecords

/-- `tm_summary_visitor`, without a filter. -/
def tmSummaryVisitor (t : TmAccum) (rec : TimeScalars ℕ) : TmAccum := t + recTotals rec

/-- `pgwt_compute_time_model_from_summaries`, on the records that are visited. The class CPU is the
whole time of its intervals if nothing was measured. -/
def timeModelFromSummaries (recs : List (TimeScalars ℕ)) : TmResult :=
  let t := recs.foldl tmSummaryVisitor 0
  if t.hasMeasured then t.setCpuClass.result else t.result

/-! ### Sums -/

theorem ite_eq_map {α β : Type*} (g : α → β) {p : Prop} [Decidable p] {a b : α} {a' b' : β}
    (ha : p → a' = g a) (hb : ¬p → b' = g b) :
    (if p then a' else b') = g (if p then a else b) := by
  split_ifs with h
  · exact ha h
  · exact hb h

theorem tmEvent_eq (mask : UInt32) (f : Filter) (fromNs toNs : ℕ) (t : TmAccum) (ev : TraceEvent) :
    tmEvent mask f fromNs toNs t ev = t + tmEvent mask f fromNs toNs 0 ev := by
  simp only [tmEvent]
  refine ite_eq_map (t + ·) (fun _ => (add_zero t).symm) fun _ => ?_
  refine ite_eq_map (t + ·) (fun _ => (add_zero t).symm) fun _ => ?_
  refine ite_eq_map (t + ·) (fun _ => ?_) fun _ => ?_
  · ext <;> simp
  refine ite_eq_map (t + ·) (fun _ => ?_) fun _ => ?_
  · refine ite_eq_map (t + ·) (fun _ => ?_) fun _ => ?_
    · ext <;> simp [add_ite]
    · ext <;> simp
  · ext <;> simp [add_ite]

theorem tmEvents_eq_sum (mask : UInt32) (f : Filter) (fromNs toNs : ℕ) (evs : List TraceEvent) :
    tmEvents mask f fromNs toNs evs = (evs.map (tmEvent mask f fromNs toNs 0)).sum := by
  suffices h : ∀ t, evs.foldl (tmEvent mask f fromNs toNs) t =
      t + (evs.map (tmEvent mask f fromNs toNs 0)).sum by
    rw [tmEvents, h, zero_add]
  induction evs with
  | nil => exact fun t => (add_zero t).symm
  | cons ev evs ih =>
    intro t
    rw [List.foldl_cons, ih, tmEvent_eq, List.map_cons, List.sum_cons, add_assoc]

/-- Scalars add up. -/
def TimeScalars.add (a b : TimeScalars ℕ) : TimeScalars ℕ where
  classNs := fun c => a.classNs c + b.classNs c
  idleNs := a.idleNs + b.idleNs
  cpuMeasuredNs := a.cpuMeasuredNs + b.cpuMeasuredNs
  cpuUnknownNs := a.cpuUnknownNs + b.cpuUnknownNs
  cpuClampedNs := a.cpuClampedNs + b.cpuClampedNs
  waitGapCpuNs := a.waitGapCpuNs + b.waitGapCpuNs
  cpuMeasuredRecords := a.cpuMeasuredRecords + b.cpuMeasuredRecords

namespace TimeScalars

variable (t s : TimeScalars ℕ)

theorem add_addClass (c : WaitClass) (ns : ℕ) :
    (t.add s).addClass c ns = t.add (s.addClass c ns) := by
  ext <;> simp [addClass, TimeScalars.add, add_assoc, add_ite]

theorem add_addMeasured (m clamped : ℕ) :
    (t.add s).addMeasured m clamped = t.add (s.addMeasured m clamped) := by
  ext <;> simp [addMeasured, TimeScalars.add, add_assoc]

end TimeScalars

theorem accumTimes_add (mask : UInt32) (t s : TimeScalars ℕ) (ev : UInt32)
    (dur tns cpuNs : UInt64) (cc : AccumCloseCtx) :
    accumTimes UInt64.toNat mask (t.add s) ev dur tns cpuNs cc =
      t.add (accumTimes UInt64.toNat mask s ev dur tns cpuNs cc) := by
  simp only [accumTimes, TimeScalars.add_addClass, TimeScalars.add_addMeasured]
  refine ite_eq_map t.add (fun _ => ?_) fun _ => ?_
  · ext <;> simp [TimeScalars.add, add_assoc]
  refine ite_eq_map t.add (fun _ => ?_) fun _ => ?_
  · refine ite_eq_map t.add (fun _ => ?_) fun _ => ?_
    · ext <;> simp [TimeScalars.add, add_assoc]
    refine ite_eq_map t.add (fun _ => ?_) fun _ => ?_
    · ext <;> simp [TimeScalars.add, add_assoc]
    · exact ite_eq_map t.add (fun _ => rfl) fun _ => rfl
  · refine ite_eq_map t.add (fun _ => rfl) fun _ => ?_
    ext <;> simp [TimeScalars.add, add_assoc]

theorem timesStep_eq (mask : UInt32) (t : TimeScalars ℕ) (c : AccumCall) :
    timesStep UInt64.toNat mask t c =
      t.add (timesStep UInt64.toNat mask TimeScalars.zero c) := by
  have hzero : t.add TimeScalars.zero = t := rfl
  conv_lhs => rw [← hzero]
  cases c with
  | event evt queryId ioWorker effEvent cc =>
    simp only [timesStep, accumTimes_add]
    exact ite_eq_map t.add (fun _ => rfl) fun _ => ite_eq_map t.add (fun _ => rfl) fun _ => rfl
  | openCredit pid we ns measuredNs measured =>
    simp only [timesStep, creditTimes, TimeScalars.add_addClass]
    refine ite_eq_map t.add (fun _ => rfl) fun _ => ite_eq_map t.add (fun _ => ?_) fun _ => rfl
    ext <;> simp [TimeScalars.add, add_assoc]
  | openCpu measuredNs unknownNs records =>
    ext <;> simp [timesStep, TimeScalars.add, add_assoc]
  | queryAdd queryId ev count total longest => rfl

theorem recTotals_zero : recTotals TimeScalars.zero = 0 := by
  ext <;> simp [recTotals, TimeScalars.zero]

theorem recTotals_add (a b : TimeScalars ℕ) : recTotals (a.add b) = recTotals a + recTotals b := by
  ext
  case dbTimeNs => simp [recTotals, TimeScalars.add, List.sum_map_add]
  case classNs c =>
    by_cases h : c = WaitClass.activity <;> simp [recTotals, TimeScalars.add, h]
  case cpuNs =>
    simp only [recTotals, TimeScalars.add, TmAccum.add_cpuNs]
    push_cast
    exact add_add_add_comm _ _ _ _
  case hasMeasured =>
    rw [TmAccum.add_hasMeasured, Bool.eq_iff_iff, Bool.or_eq_true]
    simp only [recTotals, TimeScalars.add, decide_eq_true_eq, Nat.add_pos_iff_pos_or_pos]
  all_goals simp [recTotals, TimeScalars.add]

/-- What a call adds to the time model. -/
def callTotals (mask : UInt32) (c : AccumCall) : TmAccum :=
  recTotals (timesStep UInt64.toNat mask TimeScalars.zero c)

theorem recTotals_recordTimes (mask : UInt32) (calls : List AccumCall) :
    recTotals (recordTimes mask calls) = (calls.map (callTotals mask)).sum := by
  suffices h : ∀ t, recTotals (calls.foldl (timesStep UInt64.toNat mask) t) =
      recTotals t + (calls.map (callTotals mask)).sum by
    rw [recordTimes, h, recTotals_zero, zero_add]
  induction calls with
  | nil => exact fun t => (add_zero _).symm
  | cons c calls ih =>
    intro t
    rw [List.foldl_cons, ih, timesStep_eq, recTotals_add, List.map_cons, List.sum_cons, add_assoc]
    rfl

theorem foldl_tmSummaryVisitor (mask : UInt32) (recs : List (ℕ × List AccumCall)) :
    (recs.map fun r => recordTimes mask r.2).foldl tmSummaryVisitor 0 =
      ((recs.flatMap Prod.snd).map (callTotals mask)).sum := by
  suffices h : ∀ t, (recs.map fun r => recordTimes mask r.2).foldl tmSummaryVisitor t =
      t + ((recs.flatMap Prod.snd).map (callTotals mask)).sum by
    rw [h, zero_add]
  induction recs with
  | nil => exact fun t => (add_zero t).symm
  | cons r recs ih =>
    intro t
    rw [List.map_cons, List.foldl_cons, ih, tmSummaryVisitor, recTotals_recordTimes,
      List.flatMap_cons, List.map_append, List.sum_append, add_assoc]

end PgWaitTracer
