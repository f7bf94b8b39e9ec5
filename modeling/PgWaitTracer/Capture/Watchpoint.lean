import PgWaitTracer.Lib.Run
import PgWaitTracer.Lib.Spans
import PgWaitTracer.Overlay.Collect
import PgWaitTracer.Sampler.QueryAttr

/-!
# The watchpoint of a backend

In the exact tier a hardware watchpoint fires at every write of the wait event of a backend
(`on_watchpoint`, `src/bpf/pg_wait_tracer.bpf.c`). The entry of the backend in the state map holds
the event that it is in and since when; a fire that changes the event closes the interval with a
record. The exit of the process closes the last one (`on_exit`), the scheduler accounts its time on
CPU (`on_sched_switch`), and the daemon makes the entry when it attaches, and again when a fire was
missed (`preseed_state_map`, `pgwt_sweep_stale_state`, `src/backend.c`).

The steps are those of one process, one at a time. Neither the map nor the ring is full, the
process is not deleted from the map, and the test hooks are off. What a step reads of the clock, of
the memory of the process and of the attribution maps is its input.

## Main results

* `intervalMove_apply`: the moves of a step.
-/

namespace PgWaitTracer

/-! ### The programs -/

/-- What the programs and the daemon are configured for. -/
structure CaptureConfig where
  lightweightMode : Bool
  admissionOpen : Bool
  cpuAccounting : Bool
  exactCpuActive : Bool
  deriving DecidableEq, Repr

/-- What a step does: an interval starts that closes none, or one is closed with a record, by a fire
or at the exit, or without one in lightweight mode. -/
inductive WatchMark
  | seeded (ts : UInt64) (event : UInt32)
  | transition (evt : TraceEvent)
  | exit (evt : TraceEvent)
  | accum (event : UInt32) (durationNs : UInt64)
  deriving DecidableEq, Repr

/-- `read_task_cpu_ns_for`. -/
def readTaskCpuNsFor (cfg : CaptureConfig) (st : PidState) (now : UInt64) : UInt64 :=
  if cfg.cpuAccounting then
    if st.onCpuTs ≠ 0 ∧ now ≥ st.onCpuTs then st.cpuNsTotal + (now - st.onCpuTs) else st.cpuNsTotal
  else 0

/-- The time on CPU since the base. -/
def cpuDelta (cfg : CaptureConfig) (st : PidState) (now : UInt64) : UInt64 :=
  let cpuNow := readTaskCpuNsFor cfg st now
  if cpuNow ≠ 0 ∧ st.lastCpuNs ≠ 0 ∧ cpuNow ≥ st.lastCpuNs then cpuNow - st.lastCpuNs else 0

/-- The record that closes an interval. -/
def closingRecord (cfg : CaptureConfig) (pid : UInt32) (st : PidState) (now : UInt64)
    (newEvent : UInt32) (attr : OpenStretchAttr) : TraceEvent where
  timestampNs := now
  pid := pid
  oldEvent := st.lastEvent
  newEvent := newEvent
  flags := (if attr.cmdOpen ≠ 0 then flagCmdOpen else 0) |||
    (if attr.quality = queryQualityPg13Synth then flagQuerySynth else 0)
  durationNs := now - st.lastTs
  queryId := attr.queryId
  cpuNs := cpuDelta cfg st now

/-- `on_watchpoint`. -/
def onWatchpoint (cfg : CaptureConfig) (pid : UInt32) (entry : Option PidState) (now : UInt64)
    (newEvent : UInt32) (attr : OpenStretchAttr) : Option PidState × List WatchMark :=
  if !cfg.admissionOpen then (entry, [])
  else
    match entry with
    | none =>
      (some
        { lastEvent := newEvent, wpLive := 1, cmdOpen := 0, lastTs := now, cpuNsTotal := 0
          onCpuTs := now, lastCpuNs := 0 },
        [.seeded now newEvent])
    | some st =>
      let opened :=
        { st with
          lastEvent := newEvent
          lastTs := now
          lastCpuNs := readTaskCpuNsFor cfg st now
          onCpuTs := if st.onCpuTs = 0 then now else st.onCpuTs }
      if st.wpLive = 0 then (some { opened with wpLive := 1 }, [.seeded now newEvent])
      else if newEvent = st.lastEvent then (some st, [])
      else
        (some opened,
          [if cfg.lightweightMode then .accum st.lastEvent (now - st.lastTs)
            else .transition (closingRecord cfg pid st now newEvent attr)])

/-- `on_exit`. The base of the CPU time stays. -/
def onExit (cfg : CaptureConfig) (pid : UInt32) (entry : Option PidState) (now : UInt64)
    (attr : OpenStretchAttr) : Option PidState × List WatchMark :=
  match entry with
  | none => (none, [])
  | some st =>
    if st.wpLive ≠ 0 ∧ cfg.admissionOpen then
      (some { st with lastTs := now },
        [if cfg.lightweightMode then .accum st.lastEvent (now - st.lastTs)
          else .exit (closingRecord cfg pid st now eventExit attr)])
    else (some st, [])

/-- The side of a switch that the process is on. -/
inductive SwitchSide
  | prev | next
  deriving DecidableEq, Repr

/-- `on_sched_switch`. -/
def onSchedSwitch (cfg : CaptureConfig) (st : PidState) (now : UInt64) : SwitchSide → PidState
  | .prev =>
    if cfg.cpuAccounting ∧ cfg.exactCpuActive ∧ st.onCpuTs ≠ 0 ∧ now ≥ st.onCpuTs then
      { st with cpuNsTotal := st.cpuNsTotal + (now - st.onCpuTs), onCpuTs := 0 }
    else st
  | .next => if cfg.cpuAccounting ∧ cfg.exactCpuActive then { st with onCpuTs := now } else st

/-! ### The daemon -/

/-- What `preseed_state_map` reads in the memory of the process: the wait event, if it can be read,
and whether it is inside a command. -/
structure SeedReads where
  wei : Option UInt32
  inCommand : Bool
  deriving DecidableEq, Repr

/-- The event that a reading seeds. -/
def seedEvent (wei : UInt32) : UInt32 := if classifyWei wei = .garbage then 0 else wei

/-- `preseed_state_map`. -/
def preseedStateMap (cfg : CaptureConfig) (entry : Option PidState) (attachTs : UInt64)
    (r : SeedReads) : Option PidState × List WatchMark :=
  match r.wei with
  | none => (entry, [])
  | some wei =>
    let prevCmdOpen := (entry.map PidState.cmdOpen).getD 0
    (some
      { lastEvent := seedEvent wei
        wpLive := 1
        cmdOpen := if prevCmdOpen ≠ 0 then prevCmdOpen else if r.inCommand then 1 else 0
        lastTs := attachTs
        cpuNsTotal := 0
        onCpuTs := if cfg.cpuAccounting ∧ seedEvent wei = 0 then attachTs else 0
        lastCpuNs := 0 },
      [.seeded attachTs (seedEvent wei)])

/-- `PGWT_SWEEP_FROZEN_NS`. -/
def sweepFrozenNs : UInt64 := 1000000000

/-- What `pgwt_sweep_stale_state` reads for a backend: whether it is attached, the clock, the wait
event twice, the clock again and what the seed reads. -/
structure SweepReads where
  attached : Bool
  nowNs : UInt64
  first : Option UInt32
  second : Option UInt32
  seedNs : UInt64
  seed : SeedReads
  deriving DecidableEq, Repr

/-- `pgwt_sweep_stale_state`, for one backend. No fire is between its reads. -/
def sweepStaleState (cfg : CaptureConfig) (entry : Option PidState) (r : SweepReads) :
    Option PidState × List WatchMark :=
  match entry, r.first with
  | some st, some weiA =>
    if r.attached && st.wpLive ≠ 0 && st.lastTs ≤ r.nowNs && sweepFrozenNs ≤ r.nowNs - st.lastTs &&
        classifyWei weiA ≠ .garbage && weiA ≠ st.lastEvent && r.second = some weiA then
      preseedStateMap cfg entry r.seedNs r.seed
    else (entry, [])
  | _, _ => (entry, [])

/-- The open stretch as a reader gets it, if there is one. -/
def reportedStretch (cfg : CaptureConfig) (pid : UInt32) (entry : Option PidState) (nowNs : UInt64)
    (attr : OpenStretchAttr) : Option TraceEvent :=
  (entry.filter fun st => openStretchGate st nowNs = .built).map fun st =>
    buildOpenStretch pid st nowNs cfg.cpuAccounting attr

/-! ### Runs -/

/-- A step of a run. A read of the open stretch, or its flush, which is the last of a capture,
leaves the entry. -/
inductive WatchStep
  | watchpoint (now : UInt64) (newEvent : UInt32) (attr : OpenStretchAttr)
  | exit (now : UInt64) (attr : OpenStretchAttr)
  | schedSwitch (now : UInt64) (side : SwitchSide)
  | preseed (attachTs : UInt64) (reads : SeedReads)
  | sweep (reads : SweepReads)
  | openStretch (now : UInt64) (attr : OpenStretchAttr)
  deriving DecidableEq, Repr

/-- The entry, the last reading of the clock and what the steps did, in order. -/
structure WatchRun where
  entry : Option PidState
  clock : UInt64
  marks : List WatchMark := []
  deriving DecidableEq, Repr

/-- What a step makes of the entry, and what it does. -/
def WatchStep.apply (cfg : CaptureConfig) (pid : UInt32) (entry : Option PidState) :
    WatchStep → Option PidState × List WatchMark
  | .watchpoint now newEvent attr => onWatchpoint cfg pid entry now newEvent attr
  | .exit now attr => onExit cfg pid entry now attr
  | .schedSwitch now side => (entry.map fun st => onSchedSwitch cfg st now side, [])
  | .preseed attachTs reads => preseedStateMap cfg entry attachTs reads
  | .sweep reads => sweepStaleState cfg entry reads
  | .openStretch _ _ => (entry, [])

/-- The first reading of the clock. -/
def WatchStep.begins : WatchStep → UInt64
  | .watchpoint now _ _ => now
  | .exit now _ => now
  | .schedSwitch now _ => now
  | .preseed attachTs _ => attachTs
  | .sweep reads => reads.nowNs
  | .openStretch now _ => now

/-- The last reading of the clock. -/
def WatchStep.ends : WatchStep → UInt64
  | .sweep reads => reads.seedNs
  | op => op.begins

/-- A step of a run. -/
def watchStep (cfg : CaptureConfig) (pid : UInt32) (s : WatchRun) (op : WatchStep) :
    WatchRun where
  entry := (op.apply cfg pid s.entry).1
  clock := op.ends
  marks := s.marks ++ (op.apply cfg pid s.entry).2

/-- The clock does not go back. -/
def WatchStep.NotBack (s : WatchRun) (op : WatchStep) : Prop :=
  s.clock ≤ op.begins ∧ op.begins ≤ op.ends

/-- A run from an entry. -/
def watchRun (cfg : CaptureConfig) (pid : UInt32) (entry : Option PidState) (clock : UInt64)
    (ops : List WatchStep) : WatchRun :=
  ops.foldl (watchStep cfg pid) { entry, clock }

/-! ### The open interval -/

/-- The interval of an entry: whether there is one, its event and its start. -/
def PidState.interval (st : PidState) : UInt16 × UInt32 × UInt64 :=
  (st.wpLive, st.lastEvent, st.lastTs)

/-- The entry has an interval of an event since a time. -/
structure OpenSince (entry : Option PidState) (event : UInt32) (since : UInt64) : Prop where
  live : ∃ st, entry = some st ∧ st.wpLive ≠ 0 ∧ st.lastEvent = event ∧ st.lastTs = since

/-- A record closes an interval at a time. -/
structure Closes (evt : TraceEvent) (event : UInt32) (since now : UInt64) : Prop where
  timestampNs : evt.timestampNs = now
  durationNs : evt.durationNs = now - since
  oldEvent : evt.oldEvent = event

/-- What a step does to the interval that is open. The exit starts the next one with the same
event. -/
inductive IntervalMove (entry entry' : Option PidState) (now : UInt64) : List WatchMark → Prop
  | keep (h : entry'.map PidState.interval = entry.map PidState.interval) :
      IntervalMove entry entry' now []
  | seed (event : UInt32) (h : OpenSince entry' event now) :
      IntervalMove entry entry' now [.seeded now event]
  | transition (event : UInt32) (since : UInt64) (evt : TraceEvent)
      (h : OpenSince entry event since) (hevt : Closes evt event since now)
      (h' : OpenSince entry' evt.newEvent now) : IntervalMove entry entry' now [.transition evt]
  | exit (event : UInt32) (since : UInt64) (evt : TraceEvent) (h : OpenSince entry event since)
      (hevt : Closes evt event since now) (h' : OpenSince entry' event now) :
      IntervalMove entry entry' now [.exit evt]

section Moves

theorem wpLive_one : (1 : UInt16) ≠ 0 := by decide

variable {cfg : CaptureConfig} {pid : UInt32} {entry : Option PidState}

theorem intervalMove_onWatchpoint (hfull : cfg.lightweightMode = false)
    (hopen : cfg.admissionOpen = true) (now : UInt64) (newEvent : UInt32) (attr : OpenStretchAttr) :
    IntervalMove entry (onWatchpoint cfg pid entry now newEvent attr).1 now
      (onWatchpoint cfg pid entry now newEvent attr).2 := by
  unfold onWatchpoint
  rw [if_neg (by simp [hopen])]
  cases entry with
  | none => exact .seed newEvent ⟨_, rfl, wpLive_one, rfl, rfl⟩
  | some st =>
    dsimp only
    by_cases hlive : st.wpLive = 0
    · rw [if_pos hlive]
      exact .seed newEvent ⟨_, rfl, wpLive_one, rfl, rfl⟩
    by_cases hsame : newEvent = st.lastEvent
    · rw [if_neg hlive, if_pos hsame]
      exact .keep rfl
    · rw [if_neg hlive, if_neg hsame, hfull]
      exact .transition st.lastEvent st.lastTs (closingRecord cfg pid st now newEvent attr)
        ⟨st, rfl, hlive, rfl, rfl⟩ ⟨rfl, rfl, rfl⟩ ⟨_, rfl, hlive, rfl, rfl⟩

theorem intervalMove_onExit (hfull : cfg.lightweightMode = false) (now : UInt64)
    (attr : OpenStretchAttr) :
    IntervalMove entry (onExit cfg pid entry now attr).1 now (onExit cfg pid entry now attr).2 := by
  unfold onExit
  cases entry with
  | none => exact .keep rfl
  | some st =>
    dsimp only
    by_cases hlive : st.wpLive ≠ 0 ∧ cfg.admissionOpen = true
    · rw [if_pos hlive, hfull]
      exact .exit st.lastEvent st.lastTs (closingRecord cfg pid st now eventExit attr)
        ⟨st, rfl, hlive.1, rfl, rfl⟩ ⟨rfl, rfl, rfl⟩ ⟨_, rfl, hlive.1, rfl, rfl⟩
    · rw [if_neg hlive]
      exact .keep rfl

theorem interval_onSchedSwitch (st : PidState) (now : UInt64) (side : SwitchSide) :
    (onSchedSwitch cfg st now side).interval = st.interval := by
  cases side with
  | prev =>
    rw [onSchedSwitch]
    split_ifs <;> rfl
  | next =>
    rw [onSchedSwitch]
    split_ifs <;> rfl

theorem intervalMove_preseedStateMap (attachTs : UInt64) (r : SeedReads) :
    IntervalMove entry (preseedStateMap cfg entry attachTs r).1 attachTs
      (preseedStateMap cfg entry attachTs r).2 := by
  rw [preseedStateMap]
  cases r.wei with
  | none => exact .keep rfl
  | some wei => exact .seed (seedEvent wei) ⟨_, rfl, wpLive_one, rfl, rfl⟩

theorem intervalMove_sweepStaleState (r : SweepReads) :
    IntervalMove entry (sweepStaleState cfg entry r).1 r.seedNs
      (sweepStaleState cfg entry r).2 := by
  unfold sweepStaleState
  split
  · split_ifs
    · exact intervalMove_preseedStateMap r.seedNs r.seed
    · exact .keep rfl
  · exact .keep rfl

/-- **The moves of a step.** -/
theorem intervalMove_apply (hfull : cfg.lightweightMode = false)
    (hopen : cfg.admissionOpen = true) (op : WatchStep) :
    IntervalMove entry (op.apply cfg pid entry).1 op.ends (op.apply cfg pid entry).2 := by
  cases op with
  | watchpoint now newEvent attr => exact intervalMove_onWatchpoint hfull hopen now newEvent attr
  | exit now attr => exact intervalMove_onExit hfull now attr
  | schedSwitch now side =>
    refine .keep ?_
    cases entry with
    | none => rfl
    | some st => exact congrArg some (interval_onSchedSwitch st now side)
  | preseed attachTs reads => exact intervalMove_preseedStateMap attachTs reads
  | sweep reads => exact intervalMove_sweepStaleState reads
  | openStretch now attr => exact .keep rfl

end Moves

end PgWaitTracer
