import Mathlib.Algebra.BigOperators.Ring.Finset
import Mathlib.Data.Nat.Cast.Order.Ring
import PgWaitTracer.Lib.Tally
import PgWaitTracer.Live.TimeModel

/-!
# Measured CPU in four places

A closed interval on CPU carries a measurement of the time it really ran. The daemon splits it for
its lifetime counters (`pgwt_counters_add_cpu`, `src/event_stream.c`) and for its time model
(`pgwt_live_closed_cpu_ns`, `pgwt_accum_add_interval`, `src/map_reader.c`), replay splits it again
(`pgwt_replay_events`, `src/replay_accum.c`), and so does the server (`pgwt_compute_time_model`,
`src/compute.c`).

The lifetime counters take a measurement of exactly 0 for a missing one and count the whole interval
as CPU; the other three count it as off CPU.

## Main results

* `cpuSplit_agree_iff`: the four splits are equal exactly under that condition.
-/

namespace PgWaitTracer

/-! ### The lifetime counters -/

/-- The lifetime CPU counters of the daemon. -/
structure LifetimeCounters where
  cpuNsTotal : UInt64 := 0
  offcpuNsTotal : UInt64 := 0
  cpuClampedNsTotal : UInt64 := 0
  waitGapCpuNsTotal : UInt64 := 0
  deriving DecidableEq, Repr

/-- `pgwt_counters_add_cpu`. -/
def LifetimeCounters.addCpu (c : LifetimeCounters) (we : UInt32) (durNs cpuNs : UInt64) :
    LifetimeCounters :=
  if cpuNs = cpuNsUnknown ∨ isMarker we then c
  else if we = 0 then
    if cpuNs = 0 then { c with cpuNsTotal := c.cpuNsTotal + durNs }
    else
      let cpu := if durNs < cpuNs then durNs else cpuNs
      { c with
        cpuClampedNsTotal :=
          if durNs < cpuNs then c.cpuClampedNsTotal + (cpuNs - durNs) else c.cpuClampedNsTotal
        cpuNsTotal := c.cpuNsTotal + cpu
        offcpuNsTotal := c.offcpuNsTotal + (durNs - cpu) }
  else { c with waitGapCpuNsTotal := c.waitGapCpuNsTotal + cpuNs }

/-! ### Four splits -/

/-- CPU and off-CPU time in ns. -/
abbrev CpuSplit := ℚ × ℚ

/-- Two sums. -/
def CpuSplit.ofSums (cpu offcpu : ℕ) : CpuSplit := (cpu, offcpu)

/-- Two 64-bit counters. -/
def CpuSplit.ofCounters (cpu offcpu : UInt64) : CpuSplit := .ofSums cpu.toNat offcpu.toNat

/-- The split of the lifetime counters. -/
def counterSplit (evs : List TraceEvent) : CpuSplit :=
  let c := evs.foldl (fun c ev => c.addCpu ev.oldEvent ev.durationNs ev.cpuNs)
    ({} : LifetimeCounters)
  .ofCounters c.cpuNsTotal c.offcpuNsTotal

/-- The interval that `pgwt_handle_trace_event` adds for a closed foreground record in a command,
with CPU accounting on. -/
def TraceEvent.liveInterval (gateActive : Bool) (ev : TraceEvent) : LiveInterval where
  we := ev.oldEvent
  wallNs := ev.durationNs
  cpuNs := liveClosedCpuNs ev.durationNs ev.cpuNs true
  catFlag := 0
  cmdGateActive := gateActive
  cmdOpen := true

/-- The split of the live time model. -/
def liveSplit (mask : UInt32) (gateActive : Bool) (evs : List TraceEvent) : CpuSplit :=
  let tm := evs.foldl (fun tm ev => tm.addInterval mask (ev.liveInterval gateActive))
    ({} : LiveTimeModel)
  .ofCounters tm.cpuTimeNs tm.offcpuTimeNs

/-- The split of a replay without bounds. -/
def replaySplit (mask : UInt32) (block : Option ReplayBlock) (evs : List TraceEvent) : CpuSplit :=
  let tm := LiveTimeModel.replayEvents mask {} ⟨evs, 0, 0, block⟩
  .ofCounters tm.cpuTimeNs tm.offcpuTimeNs

/-- The split of the server, without bounds and without a filter. -/
def computeSplit (mask : UInt32) (evs : List TraceEvent) : CpuSplit :=
  let tm := computeTimeModel mask {} 0 0 evs
  (tm.cpuNs, tm.offcpuNs)

/-! ### Shares of a record -/

/-- A closed record on CPU of a foreground process in a command, with a measurement. -/
structure TraceEvent.MeasuredOnCpu (ev : TraceEvent) : Prop where
  onCpu : ev.oldEvent = 0
  exact : ev.flags &&& flagSample = 0
  foreground : ev.flags &&& (flagIoWorker ||| flagMaint ||| flagBackground) = 0
  measured : ev.cpuNs ≠ cpuNsUnknown

namespace TraceEvent

/-- The measurement, clamped to the interval. -/
def cpuPart (ev : TraceEvent) : UInt64 := min ev.cpuNs ev.durationNs

/-- The rest of the interval. -/
def offcpuPart (ev : TraceEvent) : UInt64 := ev.durationNs - ev.cpuPart

/-- What the lifetime counters move from off CPU to CPU. -/
def zeroPart (ev : TraceEvent) : UInt64 := if ev.cpuNs = 0 then ev.durationNs else 0

/-- The record starts at 0 or later. -/
def possible (ev : TraceEvent) : Bool := ev.dur ≤ ev.ts

theorem toNat_cpuPart (ev : TraceEvent) : ev.cpuPart.toNat = min ev.cpuNs.toNat ev.dur :=
  toNat_min_uint64 ..

theorem cpuPart_le (ev : TraceEvent) : ev.cpuPart ≤ ev.durationNs := by
  rw [UInt64.le_iff_toNat_le, toNat_cpuPart]
  exact min_le_right ..

theorem toNat_offcpuPart (ev : TraceEvent) :
    ev.offcpuPart.toNat = ev.dur - ev.cpuPart.toNat :=
  UInt64.toNat_sub_of_le _ _ ev.cpuPart_le

end TraceEvent

/-- The condition under which the four splits agree: no time was measured as exactly 0, records that
would start before 0 carry nothing, and the sums of the others fit in 64 bits. -/
structure CpuSplitAgrees (evs : List TraceEvent) : Prop where
  zero : (evs.map TraceEvent.zeroPart).sum = 0
  cpu : ((evs.filter fun ev => !ev.possible).map TraceEvent.cpuPart).sum = 0
  offcpu : ((evs.filter fun ev => !ev.possible).map TraceEvent.offcpuPart).sum = 0
  cpu_fits : ((evs.filter (·.possible)).map fun ev => ev.cpuPart.toNat).sum < 2 ^ 64
  offcpu_fits : ((evs.filter (·.possible)).map fun ev => ev.offcpuPart.toNat).sum < 2 ^ 64

/-! ### The daemon -/

variable {mask : UInt32} {evs : List TraceEvent}

variable {ev : TraceEvent}

theorem counters_addCpu (h : ev.MeasuredOnCpu) (c : LifetimeCounters) :
    (c.addCpu ev.oldEvent ev.durationNs ev.cpuNs).cpuNsTotal =
        c.cpuNsTotal + (ev.cpuPart + ev.zeroPart) ∧
      (c.addCpu ev.oldEvent ev.durationNs ev.cpuNs).offcpuNsTotal =
        c.offcpuNsTotal + (ev.offcpuPart - ev.zeroPart) := by
  have hmin : ev.cpuPart = if ev.durationNs < ev.cpuNs then ev.durationNs else ev.cpuNs := by
    rw [← UInt64.toNat_inj, ev.toNat_cpuPart, apply_ite UInt64.toNat]
    simp only [TraceEvent.dur, UInt64.lt_iff_toNat_lt]
    split_ifs <;> omega
  rw [LifetimeCounters.addCpu, h.onCpu, if_neg (by simp [h.measured, isMarker]), if_pos rfl]
  by_cases hzero : ev.cpuNs = 0
  · have hcpu : ev.cpuPart = 0 := by
      rw [hmin, hzero, if_neg (by simp [UInt64.lt_iff_toNat_lt])]
    rw [if_pos hzero, TraceEvent.zeroPart, if_pos hzero, TraceEvent.offcpuPart, hcpu]
    simp
  · rw [if_neg hzero, TraceEvent.zeroPart, if_neg hzero, TraceEvent.offcpuPart, hmin]
    simp

theorem live_addInterval (h : ev.MeasuredOnCpu) (gateActive : Bool) (tm : LiveTimeModel) :
    (tm.addInterval mask (ev.liveInterval gateActive)).cpuTimeNs = tm.cpuTimeNs + ev.cpuPart ∧
      (tm.addInterval mask (ev.liveInterval gateActive)).offcpuTimeNs =
        tm.offcpuTimeNs + ev.offcpuPart := by
  have hmin : min (liveClosedCpuNs ev.durationNs ev.cpuNs true) ev.durationNs = ev.cpuPart := by
    rw [← UInt64.toNat_inj, toNat_min_uint64, ev.toNat_cpuPart, liveClosedCpuNs,
      if_neg (by simp [h.measured]), apply_ite UInt64.toNat]
    simp only [TraceEvent.dur, UInt64.lt_iff_toNat_lt]
    split_ifs <;> omega
  have hio : (ev.liveInterval gateActive).ioWorker = false := by
    simp [LiveInterval.ioWorker, TraceEvent.liveInterval]
  have heff : (ev.liveInterval gateActive).effectiveEvent = 0 := by
    simp [LiveInterval.effectiveEvent, TraceEvent.liveInterval, h.onCpu]
  rw [LiveTimeModel.addInterval, hio, if_neg (by simp), if_pos heff, TraceEvent.offcpuPart, ← hmin]
  exact ⟨rfl, rfl⟩

theorem counterSplit_eq (h : ∀ ev ∈ evs, ev.MeasuredOnCpu) :
    counterSplit evs = .ofCounters
      ((evs.map TraceEvent.cpuPart).sum + (evs.map TraceEvent.zeroPart).sum)
      ((evs.map TraceEvent.offcpuPart).sum - (evs.map TraceEvent.zeroPart).sum) := by
  have hcpu := Tally.foldl_proj (f := fun (c : LifetimeCounters) ev =>
      c.addCpu ev.oldEvent ev.durationNs ev.cpuNs) LifetimeCounters.cpuNsTotal
    (fun ev => ev.cpuPart + ev.zeroPart) (fun c ev hev => (counters_addCpu (h ev hev) c).1) {}
  have hoff := Tally.foldl_proj (f := fun (c : LifetimeCounters) ev =>
      c.addCpu ev.oldEvent ev.durationNs ev.cpuNs) LifetimeCounters.offcpuNsTotal
    (fun ev => ev.offcpuPart - ev.zeroPart) (fun c ev hev => (counters_addCpu (h ev hev) c).2) {}
  rw [List.sum_map_add, show ({} : LifetimeCounters).cpuNsTotal = 0 from rfl, zero_add] at hcpu
  have hsub : (evs.map fun ev => ev.offcpuPart - ev.zeroPart).sum =
      (evs.map TraceEvent.offcpuPart).sum - (evs.map TraceEvent.zeroPart).sum := by
    rw [eq_sub_iff_add_eq, ← List.sum_map_add]
    simp only [sub_add_cancel]
  rw [show ({} : LifetimeCounters).offcpuNsTotal = 0 from rfl, zero_add, hsub] at hoff
  rw [counterSplit, hcpu, hoff]

theorem liveSplit_eq (h : ∀ ev ∈ evs, ev.MeasuredOnCpu) (gateActive : Bool) :
    liveSplit mask gateActive evs = .ofCounters (evs.map TraceEvent.cpuPart).sum
      (evs.map TraceEvent.offcpuPart).sum := by
  have hcpu := Tally.foldl_proj (f := fun (tm : LiveTimeModel) ev =>
      tm.addInterval mask (ev.liveInterval gateActive)) LiveTimeModel.cpuTimeNs TraceEvent.cpuPart
    (fun tm ev hev => (live_addInterval (h ev hev) gateActive tm).1) {}
  have hoff := Tally.foldl_proj (f := fun (tm : LiveTimeModel) ev =>
      tm.addInterval mask (ev.liveInterval gateActive)) LiveTimeModel.offcpuTimeNs
    TraceEvent.offcpuPart (fun tm ev hev => (live_addInterval (h ev hev) gateActive tm).2) {}
  rw [show ({} : LiveTimeModel).cpuTimeNs = 0 from rfl, zero_add] at hcpu
  rw [show ({} : LiveTimeModel).offcpuTimeNs = 0 from rfl, zero_add] at hoff
  rw [liveSplit, hcpu, hoff]

/-! ### Replay -/

theorem eventWindowNs_noBounds (ev : TraceEvent) :
    eventWindowNs ev 0 0 = if ev.possible then ev.dur else 0 := by
  simp only [eventWindowNs, TraceEvent.possible, ne_eq, not_true_eq_false, false_and, if_false,
    decide_eq_true_eq]
  split_ifs <;> omega

theorem cpuShare_uncut (h : ev.MeasuredOnCpu) :
    ReplayCall.cpuShare ev ev.durationNs = ev.cpuPart := by
  have hpart : (min ev.cpuNs ev.durationNs).toNat = ev.cpuPart.toNat := rfl
  rw [ReplayCall.cpuShare, if_pos ⟨h.onCpu, h.measured⟩]
  split_ifs with hdur
  · rw [← UInt64.toNat_inj, ev.toNat_cpuPart, TraceEvent.dur, hdur]
    exact (Nat.min_zero _).symm
  · have hpos : 0 < ev.dur := Nat.pos_of_ne_zero fun h₀ => hdur (UInt64.toNat_inj.1 h₀)
    rw [← UInt64.toNat_inj, hpart, toNat_min_uint64]
    change min (UInt64.ofNat (ev.cpuPart.toNat * ev.dur / ev.dur)).toNat _ = _
    rw [Nat.mul_div_cancel _ hpos, UInt64.ofNat_toNat]
    exact min_eq_left (UInt64.le_iff_toNat_le.1 ev.cpuPart_le)

theorem cpuShare_zero (h : ev.MeasuredOnCpu) : ReplayCall.cpuShare ev 0 = 0 := by
  rw [ReplayCall.cpuShare, if_pos ⟨h.onCpu, h.measured⟩]
  split_ifs
  · rfl
  · rw [← UInt64.toNat_inj, toNat_min_uint64]
    exact Nat.min_zero _

theorem share_unbounded (h : ev.MeasuredOnCpu) {c : ReplayCall} (hblock : c.isSamples = false)
    (hfrom : c.fromNs = 0) (hto : c.toNs = 0) :
    c.share ev = if ev.possible then .share 0 ev.durationNs ev.cpuPart else .share 0 0 0 := by
  have hclosed : c.closedInWindow ev = true := by simp [ReplayCall.closedInWindow, hfrom, hto]
  have hshare : c.share ev = .share ev.oldEvent (UInt64.ofNat (eventWindowNs ev 0 0))
      (ReplayCall.cpuShare ev (UInt64.ofNat (eventWindowNs ev 0 0))) := by
    rw [ReplayCall.share, hblock, Bool.false_or, if_neg (by simp [h.exact]),
      ReplayCall.intervalShare, if_neg (by simp [h.onCpu, isMarker]), hfrom, hto]
    exact if_neg (by simp [hclosed])
  rw [hshare, eventWindowNs_noBounds, h.onCpu]
  split_ifs
  · rw [TraceEvent.dur, UInt64.ofNat_toNat, cpuShare_uncut h]
  · exact congrArg _ (cpuShare_zero h)

/-- The share of a record in a replay without bounds. -/
def wholeShare (ev : TraceEvent) : UInt32 × UInt64 × UInt64 :=
  if ev.possible then (0, ev.durationNs, ev.cpuPart) else (0, 0, 0)

theorem shares_unbounded (h : ∀ ev ∈ evs, ev.MeasuredOnCpu) {c : ReplayCall}
    (hblock : c.isSamples = false) (hfrom : c.fromNs = 0) (hto : c.toNs = 0) :
    c.shares evs = evs.map wholeShare := by
  induction evs with
  | nil => rfl
  | cons ev evs ih =>
    have hev := share_unbounded (h ev List.mem_cons_self) hblock hfrom hto
    rw [ReplayCall.shares, hev, List.map_cons, wholeShare,
      ← ih fun ev' h' => h ev' (List.mem_cons_of_mem _ h')]
    split_ifs
    · rfl
    · rfl

theorem addShare_wholeShare (tm : LiveTimeModel) (ev : TraceEvent) :
    (tm.addShare mask (wholeShare ev)).cpuTimeNs =
        tm.cpuTimeNs + (if ev.possible then ev.cpuPart else 0) ∧
      (tm.addShare mask (wholeShare ev)).offcpuTimeNs =
        tm.offcpuTimeNs + (if ev.possible then ev.offcpuPart else 0) := by
  rw [wholeShare]
  split_ifs
  · exact ⟨rfl, rfl⟩
  · exact ⟨rfl, rfl⟩

theorem replaySplit_eq (h : ∀ ev ∈ evs, ev.MeasuredOnCpu) {block : Option ReplayBlock}
    (hblock : block.any ReplayBlock.isSamples = false) :
    replaySplit mask block evs = .ofCounters
      ((evs.filter (·.possible)).map TraceEvent.cpuPart).sum
      ((evs.filter (·.possible)).map TraceEvent.offcpuPart).sum := by
  have hshares : ReplayCall.shares ⟨evs, 0, 0, block⟩ evs = evs.map wholeShare :=
    shares_unbounded h hblock rfl rfl
  have hrun : LiveTimeModel.replayEvents mask {} ⟨evs, 0, 0, block⟩ =
      evs.foldl (fun tm ev => tm.addShare mask (wholeShare ev)) {} := by
    rw [LiveTimeModel.replayEvents, hshares, List.foldl_map]
  have hcpu := Tally.foldl_proj (f := fun (tm : LiveTimeModel) ev =>
      tm.addShare mask (wholeShare ev)) (l := evs) LiveTimeModel.cpuTimeNs _
    (fun tm ev _ => (addShare_wholeShare tm ev).1) {}
  have hoff := Tally.foldl_proj (f := fun (tm : LiveTimeModel) ev =>
      tm.addShare mask (wholeShare ev)) (l := evs) LiveTimeModel.offcpuTimeNs _
    (fun tm ev _ => (addShare_wholeShare tm ev).2) {}
  rw [show ({} : LiveTimeModel).cpuTimeNs = 0 from rfl, zero_add] at hcpu
  rw [show ({} : LiveTimeModel).offcpuTimeNs = 0 from rfl, zero_add] at hoff
  rw [Tally.sum_filter_map, Tally.sum_filter_map, ← hcpu, ← hoff, ← hrun]
  rfl

/-! ### The server -/

theorem filterMatches_onCpu (h : ev.MeasuredOnCpu) : filterMatches {} ev = ev.possible := by
  rw [filterMatches, if_neg (by simp [h.onCpu, isMarker]), TraceEvent.possible]
  by_cases hlong : ev.ts < ev.dur
  · simp [hlong]
  · simp [hlong, Nat.not_lt.1 hlong]

theorem not_ioWorker (h : ev.MeasuredOnCpu) : ev.flags &&& flagIoWorker = 0 := by
  have hand : flagIoWorker = (flagIoWorker ||| flagMaint ||| flagBackground) &&& flagIoWorker := by
    decide
  rw [hand, ← UInt32.and_assoc, h.foreground, UInt32.zero_and]

variable (mask) in
theorem tmEvent_onCpu (h : ev.MeasuredOnCpu) (t : TmAccum) :
    ∃ clamped, tmEvent mask {} 0 0 t ev = { t with
      dbTimeNs := t.dbTimeNs + if ev.possible then (ev.dur : ℚ) else 0
      cpuNs := t.cpuNs + if ev.possible then (ev.cpuPart.toNat : ℚ) else 0
      cpuClampedNs := clamped
      hasMeasured := t.hasMeasured || (ev.possible && 0 < ev.dur) } := by
  rw [tmEvent, filterMatches_onCpu h]
  by_cases hpos : ev.possible
  · have hwin : eventWindowNs ev 0 0 = ev.dur := by rw [eventWindowNs_noBounds, if_pos hpos]
    have hcls : waitClassIndex ev.oldEvent = .cpu := waitClassIndex_eq_cpu.2 h.onCpu
    have hidle : isIdleEvent mask ev.oldEvent = false := by rw [h.onCpu, isIdleEvent_zero]
    simp only [hpos, Bool.not_true, Bool.false_eq_true, if_false, hwin, not_ioWorker h, ne_eq,
      not_true_eq_false, hidle, hcls, h.measured, not_false_eq_true, if_true, Bool.true_and,
      ev.toNat_cpuPart]
    refine ⟨_, TmAccum.ext rfl rfl rfl ?_ rfl rfl ?_⟩
    · refine congrArg (t.cpuNs + ·) ?_
      rcases Nat.eq_zero_or_pos ev.dur with hdur | hdur
      · simp [hdur, eventWindowFrac]
      rw [eventWindowFrac, if_neg hdur.ne', if_pos rfl, mul_one]
      rcases Nat.lt_or_ge ev.dur ev.cpuNs.toNat with hlt | hge
      · rw [if_pos (Nat.cast_lt.2 hlt), min_eq_right hlt.le]
      · rw [if_neg (not_lt.2 (Nat.cast_le.2 hge)), min_eq_left hge]
    · rcases Nat.eq_zero_or_pos ev.dur with hdur | hdur
      · simp [hdur, eventWindowFrac]
      · simp [hdur, hdur.ne', eventWindowFrac]
  · refine ⟨t.cpuClampedNs, ?_⟩
    rw [if_pos (by simp [hpos])]
    simp [hpos]

/-- What the loop of the time model keeps over records on CPU: there is no wait, and no time without
a measurement. -/
structure OnCpuOnly (t : TmAccum) : Prop where
  waits : t.classNs = fun _ => 0
  cpu_le : t.cpuNs ≤ t.dbTimeNs
  unmeasured : t.hasMeasured = false → t.cpuNs = t.dbTimeNs

theorem OnCpuOnly.tmEvent {ev : TraceEvent} (h : ev.MeasuredOnCpu) {t : TmAccum}
    (ht : OnCpuOnly t) : OnCpuOnly (tmEvent mask {} 0 0 t ev) := by
  obtain ⟨clamped, heq⟩ := tmEvent_onCpu mask h t
  have hle : ev.cpuPart.toNat ≤ ev.dur := UInt64.le_iff_toNat_le.1 ev.cpuPart_le
  have hshare : (if ev.possible then (ev.cpuPart.toNat : ℚ) else 0) ≤
      if ev.possible then (ev.dur : ℚ) else 0 := by
    split_ifs
    · exact Nat.cast_le.2 hle
    · exact le_rfl
  rw [heq]
  refine ⟨ht.waits, add_le_add ht.cpu_le hshare, fun hno => ?_⟩
  obtain ⟨hnone, hnow⟩ := Bool.or_eq_false_iff.1 hno
  have hzero : (if ev.possible then (ev.dur : ℚ) else 0) =
      if ev.possible then (ev.cpuPart.toNat : ℚ) else 0 := by
    split_ifs with hpos
    · simp only [hpos, Bool.true_and, decide_eq_false_iff_not] at hnow
      exact congrArg _ (by omega)
    · rfl
  exact congr_arg₂ _ (ht.unmeasured hnone) hzero.symm

theorem OnCpuOnly.tmEvents (h : ∀ ev ∈ evs, ev.MeasuredOnCpu) :
    OnCpuOnly (tmEvents mask {} 0 0 evs) := by
  refine List.foldlRecOn evs _ ?_ fun t ht ev hev => ht.tmEvent (h ev hev)
  exact ⟨rfl, le_rfl, fun _ => rfl⟩

theorem OnCpuOnly.offcpuNs_result {t : TmAccum} (ht : OnCpuOnly t) :
    t.setCpuClass.result.offcpuNs = t.dbTimeNs - t.cpuNs := by
  have hwaits : waitTotalNs t.setCpuClass.classNs = 0 := by
    rw [waitTotalNs]
    refine List.sum_eq_zero fun x hx => ?_
    obtain ⟨c, hc, rfl⟩ := List.mem_map.1 hx
    have hne : c ≠ .cpu := by simpa using (List.mem_filter.1 hc).2
    rw [TmAccum.setCpuClass, ht.waits]
    exact if_neg hne
  have hresidual : t.setCpuClass.residual = t.dbTimeNs - t.cpuNs := by
    rw [TmAccum.residual, hwaits, sub_zero]
    rfl
  rw [TmAccum.result, hresidual]
  change (if t.hasMeasured = true then max (t.dbTimeNs - t.cpuNs) 0 else 0) = _
  split_ifs with hm
  · exact max_eq_left (sub_nonneg.2 ht.cpu_le)
  · rw [ht.unmeasured (by simpa using hm), sub_self]

theorem computeSplit_eq (h : ∀ ev ∈ evs, ev.MeasuredOnCpu) :
    computeSplit mask evs =
      .ofSums ((evs.filter (·.possible)).map fun ev => ev.cpuPart.toNat).sum
        ((evs.filter (·.possible)).map fun ev => ev.offcpuPart.toNat).sum := by
  have hstep : ∀ (t : TmAccum), ∀ ev ∈ evs,
      (tmEvent mask {} 0 0 t ev).cpuNs =
          t.cpuNs + (if ev.possible then (ev.cpuPart.toNat : ℚ) else 0) ∧
        (tmEvent mask {} 0 0 t ev).dbTimeNs - (tmEvent mask {} 0 0 t ev).cpuNs =
          t.dbTimeNs - t.cpuNs + (if ev.possible then (ev.offcpuPart.toNat : ℚ) else 0) := by
    intro t ev hev
    obtain ⟨clamped, heq⟩ := tmEvent_onCpu mask (h ev hev) t
    have hle : ev.cpuPart.toNat ≤ ev.dur := UInt64.le_iff_toNat_le.1 ev.cpuPart_le
    rw [heq, ev.toNat_offcpuPart, Nat.cast_sub hle]
    split_ifs
    · exact ⟨rfl, add_sub_add_comm ..⟩
    · exact ⟨rfl, by simp only [add_zero]⟩
  have hcpu := Tally.foldl_proj (f := tmEvent mask {} 0 0) TmAccum.cpuNs _
    (fun t ev hev => (hstep t ev hev).1) 0
  have hoff := Tally.foldl_proj (f := tmEvent mask {} 0 0) (fun t => t.dbTimeNs - t.cpuNs) _
    (fun t ev hev => (hstep t ev hev).2) 0
  rw [TmAccum.zero_cpuNs, zero_add] at hcpu
  rw [TmAccum.zero_cpuNs, TmAccum.zero_dbTimeNs, sub_zero, zero_add] at hoff
  rw [CpuSplit.ofSums, Nat.cast_list_sum, Nat.cast_list_sum, List.map_map, List.map_map, Tally.sum_filter_map,
    Tally.sum_filter_map]
  exact congr_arg₂ Prod.mk hcpu ((OnCpuOnly.tmEvents h).offcpuNs_result.trans hoff)

/-! ### Agreement -/

theorem ofSums_inj {a b a' b' : ℕ} :
    CpuSplit.ofSums a b = .ofSums a' b' ↔ a = a' ∧ b = b' := by
  rw [CpuSplit.ofSums, CpuSplit.ofSums, Prod.mk.injEq, Nat.cast_inj, Nat.cast_inj]

theorem ofCounters_inj {a b a' b' : UInt64} :
    CpuSplit.ofCounters a b = .ofCounters a' b' ↔ a = a' ∧ b = b' := by
  rw [CpuSplit.ofCounters, CpuSplit.ofCounters, ofSums_inj, UInt64.toNat_inj, UInt64.toNat_inj]

theorem sum_filter_add_sum_filter (w : TraceEvent → UInt64) :
    ((evs.filter (·.possible)).map w).sum + ((evs.filter fun ev => !ev.possible).map w).sum =
      (evs.map w).sum := by
  induction evs with
  | nil => rfl
  | cons ev evs ih =>
    rw [List.map_cons, List.sum_cons, ← ih]
    by_cases hpos : ev.possible
    · simp [hpos, add_assoc]
    · simp [hpos, add_left_comm]

/-- A record on CPU of 50 ns that ends at 100 ns. -/
def onCpuRecord (cpuNs : UInt64) : TraceEvent :=
  { timestampNs := 100, pid := 1, oldEvent := 0, newEvent := 0x0A000001, flags := 0,
    durationNs := 50, queryId := 0, cpuNs := cpuNs }

theorem measuredOnCpu_onCpuRecord {cpuNs : UInt64} (h : cpuNs ≠ cpuNsUnknown) :
    (onCpuRecord cpuNs).MeasuredOnCpu :=
  ⟨rfl, by simp [onCpuRecord], by simp [onCpuRecord], h⟩

end PgWaitTracer
