import Mathlib.Data.UInt

/-!
# Trace events, markers and wait classes

The record every component of the tracer passes around (`struct pgwt_trace_event`,
`src/pg_wait_tracer.h`), the sentinel event ids, the wait classes
(`pgwt_wait_class_index`, `src/compute.c`, and its copy `summary_wait_class_index`,
`src/summary_writer.c`) and the idle rule (`src/idle_rule.c`).

Fields keep their C widths. Arithmetic on times is done on natural numbers through
`TraceEvent.ts` and `TraceEvent.dur`.
-/

namespace PgWaitTracer

/-- One trace record, `struct pgwt_trace_event`. `flags` is a reader-side annotation and is not
persisted. -/
structure TraceEvent where
  timestampNs : UInt64
  pid : UInt32
  oldEvent : UInt32
  newEvent : UInt32
  flags : UInt32
  durationNs : UInt64
  queryId : UInt64
  cpuNs : UInt64
  deriving DecidableEq, Repr, Inhabited

namespace TraceEvent

/-- The close timestamp as a number. -/
def ts (ev : TraceEvent) : ℕ := ev.timestampNs.toNat

/-- The duration as a number. -/
def dur (ev : TraceEvent) : ℕ := ev.durationNs.toNat

end TraceEvent

/-! ### Sentinels -/

/-- `PGWT_CPU_NS_UNKNOWN`: no CPU measurement. -/
def cpuNsUnknown : UInt64 := 0xFFFFFFFFFFFFFFFF

/-- `PGWT_EVENT_EXIT`: process exit. -/
def eventExit : UInt32 := 0xFFFFFFFF

/-- `PGWT_MARKER_EXEC_START`. -/
def markerExecStart : UInt32 := 0xFFFFFFF0

/-- `PGWT_MARKER_EXEC_END`. -/
def markerExecEnd : UInt32 := 0xFFFFFFF1

/-- `PGWT_MARKER_PLAN_START`. -/
def markerPlanStart : UInt32 := 0xFFFFFFF2

/-- `PGWT_MARKER_PLAN_END`. -/
def markerPlanEnd : UInt32 := 0xFFFFFFF3

/-- `PGWT_MARKER_ESCALATE_START`. -/
def markerEscalateStart : UInt32 := 0xFFFFFFF4

/-- `PGWT_MARKER_ESCALATE_END`. -/
def markerEscalateEnd : UInt32 := 0xFFFFFFF5

/-- `PGWT_MARKER_CMD_START`. -/
def markerCmdStart : UInt32 := 0xFFFFFFF6

/-- `PGWT_MARKER_CMD_END`. -/
def markerCmdEnd : UInt32 := 0xFFFFFFF7

/-- `PGWT_IS_MARKER`: the eight sentinel ids from `EXEC_START` to `CMD_END`. -/
def isMarker (e : UInt32) : Bool := 0xFFFFFFF0 ≤ e && e ≤ 0xFFFFFFF7

/-- `PGWT_EVENT_FLAG_SAMPLE`. -/
def flagSample : UInt32 := 0x1

/-- `PGWT_EVENT_FLAG_CMD_OPEN`. -/
def flagCmdOpen : UInt32 := 0x2

/-- `PGWT_EVENT_FLAG_IO_WORKER`. -/
def flagIoWorker : UInt32 := 0x4

/-- `PGWT_EVENT_FLAG_MAINT`. -/
def flagMaint : UInt32 := 0x8

/-- `PGWT_EVENT_FLAG_BACKGROUND`. -/
def flagBackground : UInt32 := 0x10

/-- `PGWT_EVENT_FLAG_PLAN`. -/
def flagPlan : UInt32 := 0x20

/-- `PGWT_EVENT_FLAG_EXEC`. -/
def flagExec : UInt32 := 0x40

/-- `PGWT_EVENT_FLAG_QUERY_SYNTH`: a seed for a query that ran before the capture did. -/
def flagQuerySynth : UInt32 := 0x80

/-- `PGWT_EVENT_FLAG_SAMPLE_CONT`. -/
def flagSampleCont : UInt32 := 0x100

/-- `PGWT_EVENT_FLAG_QUERY_BACKFILL`. -/
def flagQueryBackfill : UInt32 := 0x200

/-- `PGWT_EVENT_FLAG_QUERY_UNATTRIB`. -/
def flagQueryUnattrib : UInt32 := 0x400

/-- `PGWT_EVENT_FLAG_RIGHT_OPEN`. -/
def flagRightOpen : UInt32 := 0x800

/-- `PGWT_EVENT_FLAG_EDGE_CLOSE`. -/
def flagEdgeClose : UInt32 := 0x1000

/-- The record is a sample. -/
def TraceEvent.isSample (ev : TraceEvent) : Bool := ev.flags &&& flagSample ≠ 0

theorem UInt32.or_and_distrib (a b c : UInt32) : (a ||| b) &&& c = (a &&& c) ||| (b &&& c) := by
  apply UInt32.toNat_inj.mp
  simp [Nat.and_or_distrib_right]

theorem toNat_min_uint64 (a b : UInt64) : (min a b).toNat = min a.toNat b.toNat := by
  have h : min a b = if a ≤ b then a else b := rfl
  rw [h, min_def, apply_ite UInt64.toNat]
  simp only [UInt64.le_iff_toNat_le]

/-! ### Wait classes -/

/-- The wait classes, in the order of the `PGWT_CLASS_*` constants. -/
inductive WaitClass
  | cpu | io | lock | lwlock | ipc | client | timeout | bufferpin | activity | extension | unknown
  deriving DecidableEq, Repr, Inhabited

/-- The classes in the order of their indices. -/
def classOrder : List WaitClass :=
  [.cpu, .io, .lock, .lwlock, .ipc, .client, .timeout, .bufferpin, .activity, .extension, .unknown]

/-- `WE_CLASS`: the class byte of a wait event id. -/
def weClass (e : UInt32) : UInt32 := (e >>> 24) &&& 0xFF

/-- `WE_EVENT`: the event number within its class. -/
def weEvent (e : UInt32) : UInt32 := e &&& 0x00FFFFFF

/-- `PGWT_WEI_NONCMD_CPU`: on-CPU time outside a command, an Activity id assigned by tagging. -/
def weiNoncmdCpu : UInt32 := 0x05FFFFFF

/-- `WEI(PG_WAIT_CLIENT, 0)`: Client:ClientRead. -/
def weiClientRead : UInt32 := 0x06000000

/-- `pgwt_wait_class_index`; `summary_wait_class_index` is the same table. -/
def waitClassIndex (e : UInt32) : WaitClass :=
  if e = 0 then .cpu
  else if weClass e = 0x0A then .io
  else if weClass e = 0x03 then .lock
  else if weClass e = 0x01 then .lwlock
  else if weClass e = 0x08 then .ipc
  else if weClass e = 0x06 then .client
  else if weClass e = 0x09 then .timeout
  else if weClass e = 0x04 then .bufferpin
  else if weClass e = 0x05 then .activity
  else if weClass e = 0x07 then .extension
  else .unknown

/-- `pgwt_is_idle_event`: the events outside DB Time. `mask` is the installed Timeout pacing mask
(`pgwt_idle_rule_set_timeout_mask`); event numbers from 32 on are never pacing. -/
def isIdleEvent (mask : UInt32) (e : UInt32) : Bool :=
  if weClass e = 0x05 then true
  else if e = weiClientRead then true
  else if weClass e = 0x09 then weEvent e < 32 && (mask >>> weEvent e) &&& 1 != 0
  else false

/-- `pgwt_is_hidden_event`: the Activity class. -/
def isHiddenEvent (e : UInt32) : Bool := weClass e = 0x05

/-- `pgwt_is_session_idle_event`: the events that mean no command is running. -/
def isSessionIdleEvent (e : UInt32) : Bool := weClass e = 0x05 || e = weiClientRead

@[simp] theorem isIdleEvent_zero (mask : UInt32) : isIdleEvent mask 0 = false := by
  simp [isIdleEvent, weClass, weiClientRead]

theorem isIdleEvent_of_sessionIdle {mask e : UInt32} (h : isSessionIdleEvent e = true) :
    isIdleEvent mask e = true := by
  rw [isSessionIdleEvent, Bool.or_eq_true, decide_eq_true_eq, decide_eq_true_eq] at h
  rw [isIdleEvent]
  split_ifs with h5 hc ht
  · rfl
  · rfl
  all_goals exact absurd h (not_or.mpr ⟨h5, hc⟩)

theorem ite_class_ne {p : Prop} [Decidable p] {a b c : WaitClass} (ha : a ≠ c) (hb : b ≠ c) :
    (if p then a else b) ≠ c := by
  split
  · exact ha
  · exact hb

theorem isIdleEvent_of_activity {mask e : UInt32} (h : waitClassIndex e = .activity) :
    isIdleEvent mask e = true := by
  have h5 : weClass e = 0x05 := by
    by_contra h5
    refine absurd h ?_
    rw [waitClassIndex, if_neg h5]
    iterate 9 refine ite_class_ne nofun ?_
    exact nofun
  simp [isIdleEvent, h5]

theorem waitClassIndex_eq_cpu {e : UInt32} : waitClassIndex e = .cpu ↔ e = 0 := by
  refine ⟨fun h => ?_, fun h => by simp [waitClassIndex, h]⟩
  by_contra h0
  refine absurd h ?_
  rw [waitClassIndex, if_neg h0]
  iterate 9 refine ite_class_ne nofun ?_
  exact nofun

end PgWaitTracer
