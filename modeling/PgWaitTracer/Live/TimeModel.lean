import PgWaitTracer.Compute.TimeModel
import PgWaitTracer.Live.Accum

/-!
# The time model of the daemon

The daemon keeps one time model for the whole system (`struct pgwt_time_model`, `src/map_reader.h`):
DB time, its parts on and off CPU, and eight wait classes. Intervals come from the live paths
(`pgwt_accum_add_interval`, `src/map_reader.c`) and from a replayed trace (`pgwt_replay_events`,
`src/replay_accum.c`). The parts are promised to add up to DB time, for every value of the struct.

Only the time model of the accumulator is followed here.

## Main results

* `liveTimeModel_conserved_iff`: after any calls, the parts add up to DB time exactly
  when the time of the events outside the classes adds up to 0.
-/

namespace PgWaitTracer

/-! ### The struct -/

/-- `struct pgwt_time_model`. -/
structure LiveTimeModel where
  dbTimeNs : UInt64 := 0
  cpuTimeNs : UInt64 := 0
  offcpuTimeNs : UInt64 := 0
  ioTimeNs : UInt64 := 0
  lwlockTimeNs : UInt64 := 0
  lockTimeNs : UInt64 := 0
  bufferpinTimeNs : UInt64 := 0
  clientTimeNs : UInt64 := 0
  ipcTimeNs : UInt64 := 0
  timeoutTimeNs : UInt64 := 0
  extensionTimeNs : UInt64 := 0
  activityTimeNs : UInt64 := 0
  deriving DecidableEq, Repr

namespace LiveTimeModel

/-- Time on CPU, off CPU and in the eight wait classes. -/
def parts (tm : LiveTimeModel) : UInt64 :=
  tm.cpuTimeNs + tm.offcpuTimeNs + (tm.ioTimeNs + tm.lwlockTimeNs + tm.lockTimeNs +
    tm.bufferpinTimeNs + tm.clientTimeNs + tm.ipcTimeNs + tm.timeoutTimeNs + tm.extensionTimeNs)

/-- The conservation contract of the struct. -/
def Conserved (tm : LiveTimeModel) : Prop := tm.parts = tm.dbTimeNs

/-- The class field of `pgwt_update_time_model`; a class that the switch does not name has none. -/
def addClass (tm : LiveTimeModel) (event : UInt32) (ns : UInt64) : LiveTimeModel :=
  if weClass event = 0x0A then { tm with ioTimeNs := tm.ioTimeNs + ns }
  else if weClass event = 0x01 then { tm with lwlockTimeNs := tm.lwlockTimeNs + ns }
  else if weClass event = 0x03 then { tm with lockTimeNs := tm.lockTimeNs + ns }
  else if weClass event = 0x04 then { tm with bufferpinTimeNs := tm.bufferpinTimeNs + ns }
  else if weClass event = 0x06 then { tm with clientTimeNs := tm.clientTimeNs + ns }
  else if weClass event = 0x08 then { tm with ipcTimeNs := tm.ipcTimeNs + ns }
  else if weClass event = 0x09 then { tm with timeoutTimeNs := tm.timeoutTimeNs + ns }
  else if weClass event = 0x07 then { tm with extensionTimeNs := tm.extensionTimeNs + ns }
  else if weClass event = 0x05 then { tm with activityTimeNs := tm.activityTimeNs + ns }
  else tm

/-- `pgwt_update_time_model`. -/
def update (mask : UInt32) (tm : LiveTimeModel) (event : UInt32) (ns : UInt64) : LiveTimeModel :=
  if isIdleEvent mask event then { tm with activityTimeNs := tm.activityTimeNs + ns }
  else if event = 0 then
    { tm with cpuTimeNs := tm.cpuTimeNs + ns, dbTimeNs := tm.dbTimeNs + ns }
  else { tm.addClass event ns with dbTimeNs := tm.dbTimeNs + ns }

/-- An interval on CPU: the measured part, and the rest. -/
def addCpu (tm : LiveTimeModel) (wall cpu : UInt64) : LiveTimeModel :=
  { tm with
    cpuTimeNs := tm.cpuTimeNs + cpu
    offcpuTimeNs := tm.offcpuTimeNs + (wall - cpu)
    dbTimeNs := tm.dbTimeNs + wall }

end LiveTimeModel

/-! ### Live intervals -/

/-- `struct pgwt_live_interval`, as far as the time model reads it. -/
structure LiveInterval where
  we : UInt32
  wallNs : UInt64
  cpuNs : UInt64
  catFlag : UInt32
  cmdGateActive : Bool
  cmdOpen : Bool
  deriving DecidableEq, Repr

/-- `pgwt_live_effective_event`, for any flags. -/
def LiveInterval.effectiveEvent (iv : LiveInterval) : UInt32 :=
  if iv.we = 0 ∧ iv.catFlag = 0 ∧ iv.cmdGateActive ∧ iv.cmdOpen = false then weiNoncmdCpu else iv.we

/-- The interval is of an I/O worker. -/
def LiveInterval.ioWorker (iv : LiveInterval) : Bool := iv.catFlag &&& flagIoWorker ≠ 0

/-- `pgwt_accum_add_interval`. -/
def LiveTimeModel.addInterval (mask : UInt32) (tm : LiveTimeModel) (iv : LiveInterval) :
    LiveTimeModel :=
  if iv.ioWorker then tm
  else if iv.effectiveEvent = 0 then tm.addCpu iv.wallNs (min iv.cpuNs iv.wallNs)
  else tm.update mask iv.effectiveEvent iv.wallNs

/-! ### Replayed records -/

/-- `struct pgwt_block_info`. -/
structure ReplayBlock where
  isSamples : Bool
  samplePeriodNs : UInt64
  deriving DecidableEq, Repr

/-- A call of `pgwt_replay_events`. A bound of 0 is none. -/
structure ReplayCall where
  events : List TraceEvent
  fromNs : UInt64
  toNs : UInt64
  block : Option ReplayBlock

/-- What the loop does with a record: it goes on, it stops, or the record counts under an event with
its share of the window and the part of that on CPU. -/
inductive ReplayShare
  | skip
  | stop
  | share (we : UInt32) (addNs cpuNs : UInt64)
  deriving DecidableEq, Repr

namespace ReplayCall

/-- The call is for a block of samples. -/
def isSamples (c : ReplayCall) : Bool := c.block.any ReplayBlock.isSamples

/-- The weight of a sample. Without a block the record carries it. -/
def sampleNs (c : ReplayCall) (evt : TraceEvent) : UInt64 :=
  match c.block with
  | some b => if b.isSamples then b.samplePeriodNs else 0
  | none => evt.durationNs

/-- A sample: a point in the window or not. -/
def sampleShare (c : ReplayCall) (evt : TraceEvent) : ReplayShare :=
  if 0 < c.fromNs ∧ evt.timestampNs < c.fromNs then .skip
  else if 0 < c.toNs ∧ c.toNs < evt.timestampNs then if c.isSamples then .stop else .skip
  else .share evt.newEvent (c.sampleNs evt) (c.sampleNs evt)

/-- The record closes in the window. -/
def closedInWindow (c : ReplayCall) (evt : TraceEvent) : Bool :=
  (c.fromNs = 0 || c.fromNs ≤ evt.timestampNs) && (c.toNs = 0 || evt.timestampNs ≤ c.toNs)

/-- The measurement of a record in proportion to its share of the window. -/
def cpuShare (evt : TraceEvent) (addNs : UInt64) : UInt64 :=
  if evt.oldEvent = 0 ∧ evt.cpuNs ≠ cpuNsUnknown then
    if evt.durationNs = 0 then 0
    else
      min (UInt64.ofNat ((min evt.cpuNs evt.durationNs).toNat * addNs.toNat / evt.dur)) addNs
  else addNs

/-- An interval: it is clipped to the window. -/
def intervalShare (c : ReplayCall) (evt : TraceEvent) : ReplayShare :=
  if isMarker evt.oldEvent then .skip
  else
    let addNs := UInt64.ofNat (eventWindowNs evt c.fromNs.toNat c.toNs.toNat)
    if addNs = 0 ∧ !c.closedInWindow evt then .skip
    else .share evt.oldEvent addNs (cpuShare evt addNs)

/-- The part of a record. -/
def share (c : ReplayCall) (evt : TraceEvent) : ReplayShare :=
  if c.isSamples || evt.flags &&& flagSample ≠ 0 then c.sampleShare evt else c.intervalShare evt

/-- The shares of the records up to the one that stops the loop. -/
def shares (c : ReplayCall) : List TraceEvent → List (UInt32 × UInt64 × UInt64)
  | [] => []
  | evt :: evts =>
    match c.share evt with
    | .skip => c.shares evts
    | .stop => []
    | .share we addNs cpuNs => (we, addNs, cpuNs) :: c.shares evts

end ReplayCall

/-- A share in the time model. -/
def LiveTimeModel.addShare (mask : UInt32) (tm : LiveTimeModel) (s : UInt32 × UInt64 × UInt64) :
    LiveTimeModel :=
  if s.1 = 0 then tm.addCpu s.2.1 s.2.2 else tm.update mask s.1 s.2.1

/-- `pgwt_replay_events`. -/
def LiveTimeModel.replayEvents (mask : UInt32) (tm : LiveTimeModel) (c : ReplayCall) :
    LiveTimeModel :=
  (c.shares c.events).foldl (LiveTimeModel.addShare mask) tm

/-! ### Runs -/

/-- A call on the accumulator. -/
inductive AccumulatorOp
  | addInterval (iv : LiveInterval)
  | replayEvents (c : ReplayCall)

/-- The time model after a call. -/
def LiveTimeModel.step (mask : UInt32) (tm : LiveTimeModel) : AccumulatorOp → LiveTimeModel
  | .addInterval iv => tm.addInterval mask iv
  | .replayEvents c => tm.replayEvents mask c

/-! ### Conservation -/

/-- The classes of `pgwt_update_time_model` that are part of DB time. -/
def filedClasses : List UInt32 := [0x0A, 0x01, 0x03, 0x04, 0x06, 0x08, 0x09, 0x07]

/-- Time that enters DB time and no part of it: the event is not idle, not on CPU and of none of the
eight classes. -/
def unfiledNs (mask : UInt32) (event : UInt32) (ns : UInt64) : UInt64 :=
  if isIdleEvent mask event ∨ event = 0 ∨ weClass event ∈ filedClasses then 0 else ns

/-- The time of a call that enters no part of DB time. -/
def AccumulatorOp.unfiledNs (mask : UInt32) : AccumulatorOp → UInt64
  | .addInterval iv =>
    if iv.ioWorker then 0 else PgWaitTracer.unfiledNs mask iv.effectiveEvent iv.wallNs
  | .replayEvents c =>
    ((c.shares c.events).map fun s => PgWaitTracer.unfiledNs mask s.1 s.2.1).sum

namespace LiveTimeModel

/-- The parts and what is in no part add up to DB time. -/
def Balanced (tm : LiveTimeModel) (unfiled : UInt64) : Prop := tm.parts + unfiled = tm.dbTimeNs

variable {mask : UInt32} {tm : LiveTimeModel} {unfiled : UInt64}

theorem Balanced.conserved_iff (h : tm.Balanced unfiled) : tm.Conserved ↔ unfiled = 0 := by
  rw [Conserved, ← h, left_eq_add]

theorem parts_addClass (tm : LiveTimeModel) {event : UInt32} (hact : weClass event ≠ 0x05)
    (ns : UInt64) :
    (tm.addClass event ns).parts = tm.parts + if weClass event ∈ filedClasses then ns else 0 := by
  by_cases hmem : weClass event ∈ filedClasses
  · rw [if_pos hmem]
    simp only [filedClasses, List.mem_cons, List.not_mem_nil, or_false] at hmem
    rcases hmem with h | h | h | h | h | h | h | h
    all_goals
      simp [addClass, parts, h]
      ac_rfl
  · rw [if_neg hmem, add_zero]
    simp only [filedClasses, List.mem_cons, List.not_mem_nil, or_false, not_or] at hmem
    obtain ⟨h₁, h₂, h₃, h₄, h₅, h₆, h₇, h₈⟩ := hmem
    rw [addClass, if_neg h₁, if_neg h₂, if_neg h₃, if_neg h₄, if_neg h₅, if_neg h₆, if_neg h₇,
      if_neg h₈, if_neg hact]

theorem Balanced.update (h : tm.Balanced unfiled) (event : UInt32) (ns : UInt64) :
    (tm.update mask event ns).Balanced (unfiled + unfiledNs mask event ns) := by
  rw [LiveTimeModel.update]
  split_ifs with hidle hcpu
  · rw [PgWaitTracer.unfiledNs, if_pos (Or.inl hidle), add_zero]
    exact h
  · rw [PgWaitTracer.unfiledNs, if_pos (Or.inr (Or.inl hcpu)), add_zero]
    show tm.cpuTimeNs + ns + tm.offcpuTimeNs + _ + unfiled = tm.dbTimeNs + ns
    rw [← h, parts]
    ac_rfl
  · have hact : weClass event ≠ 0x05 := by
      intro hclass
      rw [isIdleEvent, if_pos hclass] at hidle
      exact hidle rfl
    have hunfiled : unfiledNs mask event ns = if weClass event ∈ filedClasses then 0 else ns := by
      simp only [PgWaitTracer.unfiledNs, hidle, hcpu, false_or, Bool.false_eq_true]
    show (tm.addClass event ns).parts + _ = tm.dbTimeNs + ns
    rw [parts_addClass tm hact, hunfiled, ← h]
    split_ifs
    · rw [add_zero]
      ac_rfl
    · rw [add_zero]
      ac_rfl

theorem Balanced.addCpu (h : tm.Balanced unfiled) (wall cpu : UInt64) :
    (tm.addCpu wall cpu).Balanced unfiled := by
  have hsplit : cpu + (wall - cpu) = wall := add_sub_cancel cpu wall
  calc (tm.addCpu wall cpu).parts + unfiled = tm.parts + unfiled + (cpu + (wall - cpu)) := by
        simp only [LiveTimeModel.addCpu, parts]
        ac_rfl
    _ = tm.dbTimeNs + wall := by rw [h, hsplit]

theorem Balanced.addInterval (h : tm.Balanced unfiled) (iv : LiveInterval) :
    (tm.addInterval mask iv).Balanced
      (unfiled + (AccumulatorOp.addInterval iv).unfiledNs mask) := by
  rw [LiveTimeModel.addInterval, AccumulatorOp.unfiledNs]
  split_ifs with hio hcpu
  · rw [add_zero]
    exact h
  · rw [PgWaitTracer.unfiledNs, if_pos (Or.inr (Or.inl hcpu)), add_zero]
    exact h.addCpu _ _
  · exact h.update _ _

theorem Balanced.addShare (h : tm.Balanced unfiled) (s : UInt32 × UInt64 × UInt64) :
    (tm.addShare mask s).Balanced (unfiled + unfiledNs mask s.1 s.2.1) := by
  rw [LiveTimeModel.addShare]
  split_ifs with hcpu
  · rw [PgWaitTracer.unfiledNs, if_pos (Or.inr (Or.inl hcpu)), add_zero]
    exact h.addCpu _ _
  · exact h.update _ _

theorem Balanced.foldl_addShare (h : tm.Balanced unfiled) (l : List (UInt32 × UInt64 × UInt64)) :
    (l.foldl (LiveTimeModel.addShare mask) tm).Balanced
      (unfiled + (l.map fun s => unfiledNs mask s.1 s.2.1).sum) := by
  induction l generalizing tm unfiled with
  | nil =>
    rw [List.map_nil, List.sum_nil, add_zero]
    exact h
  | cons s l ih =>
    rw [List.map_cons, List.sum_cons, ← add_assoc]
    exact ih (h.addShare s)

theorem Balanced.step (h : tm.Balanced unfiled) (op : AccumulatorOp) :
    (tm.step mask op).Balanced (unfiled + op.unfiledNs mask) := by
  cases op with
  | addInterval iv => exact h.addInterval iv
  | replayEvents c => exact h.foldl_addShare (c.shares c.events)

theorem Balanced.run (h : tm.Balanced unfiled) (ops : List AccumulatorOp) :
    (ops.foldl (LiveTimeModel.step mask) tm).Balanced
      (unfiled + (ops.map (AccumulatorOp.unfiledNs mask)).sum) := by
  induction ops generalizing tm unfiled with
  | nil =>
    rw [List.map_nil, List.sum_nil, add_zero]
    exact h
  | cons op ops ih =>
    rw [List.map_cons, List.sum_cons, ← add_assoc]
    exact ih (h.step op)

end LiveTimeModel

/-- **When time is conserved.** After any calls on a new accumulator, time on CPU, off CPU and in the
eight wait classes adds up to DB time if and only if the time of the events that are not idle, not on
CPU and of none of these classes adds up to 0. -/
theorem liveTimeModel_conserved_iff (mask : UInt32) (ops : List AccumulatorOp) :
    (ops.foldl (LiveTimeModel.step mask) {}).Conserved ↔
      (ops.map (AccumulatorOp.unfiledNs mask)).sum = 0 := by
  have hinit : ({} : LiveTimeModel).Balanced 0 := rfl
  have hrun : (ops.foldl (LiveTimeModel.step mask) {}).Balanced
      (0 + (ops.map (AccumulatorOp.unfiledNs mask)).sum) := hinit.run ops
  rw [zero_add] at hrun
  exact hrun.conserved_iff

/-- A wait at an injection point, class `0x0B`, of 5 ns. -/
theorem liveTimeModel_injectionPoint :
    ¬ (LiveTimeModel.step 0 {} (.addInterval ⟨0x0B000001, 5, 5, 0, false, false⟩)).Conserved := by
  rw [LiveTimeModel.Conserved]
  decide +kernel

end PgWaitTracer
