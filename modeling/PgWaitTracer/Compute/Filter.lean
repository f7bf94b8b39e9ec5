import PgWaitTracer.Trace.Event

/-!
# Filters

The request filter every raw computation applies (`pgwt_filter_matches`, `src/compute.c`) and the
class names it compares with (`pgwt_class_name`, `src/wait_event.c`).
-/

namespace PgWaitTracer

/-- `pgwt_class_name`. -/
def className (e : UInt32) : String :=
  match waitClassIndex e with
  | .cpu => "CPU"
  | .io => "IO"
  | .lock => "Lock"
  | .lwlock => "LWLock"
  | .ipc => "IPC"
  | .client => "Client"
  | .timeout => "Timeout"
  | .bufferpin => "BufferPin"
  | .activity => "Activity"
  | .extension => "Extension"
  | .unknown => "Unknown"

/-- `strcasecmp(a, b) == 0`. -/
def strcaseEq (a b : String) : Bool := a.toList.map Char.toLower == b.toList.map Char.toLower

/-- `struct pgwt_filter`: an empty class name, a zero pid and a zero query id do not filter; the
event filter has a flag of its own, since event 0 is CPU. -/
structure Filter where
  className : String := ""
  eventId : UInt32 := 0
  hasEventFilter : Bool := false
  pid : UInt32 := 0
  queryId : UInt64 := 0
  deriving Repr, DecidableEq

/-- `pgwt_filter_matches`: markers and records longer than their own end are refused. -/
def filterMatches (f : Filter) (ev : TraceEvent) : Bool :=
  if isMarker ev.oldEvent then false
  else if ev.ts < ev.dur then false
  else if f.className ≠ "" ∧ strcaseEq (className ev.oldEvent) f.className = false then false
  else if f.hasEventFilter = true ∧ ev.oldEvent ≠ f.eventId then false
  else if f.pid ≠ 0 ∧ ev.pid ≠ f.pid then false
  else if f.queryId ≠ 0 ∧ ev.queryId ≠ f.queryId then false
  else true

/-- `interval_overlaps`. -/
def intervalOverlaps (eventEnd duration fromNs toNs : ℕ) : Bool :=
  eventEnd - duration < toNs && fromNs < eventEnd

end PgWaitTracer
