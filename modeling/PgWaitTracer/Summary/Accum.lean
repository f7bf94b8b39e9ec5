import PgWaitTracer.Lib.LinearProbe
import PgWaitTracer.Trace.Event

/-!
# The per-second accumulator of the summary writer

Every second of a capture is summarised into one record: time per wait class, idle time, the split
of CPU time into measured and unmeasured, and three open-addressing tables for events, sessions and
queries (`src/summary_writer.h`, `src/summary_writer.c`). A record of the trace is added when its
interval closes (`accum_event`); the share of a second that an interval still open takes is added
when the second ends (`accum_open_credit`).

What is a free slot is decided differently in each table, by the content of the row.
-/

namespace PgWaitTracer

open LinearProbe

/-! ### Rows -/

/-- `HISTOGRAM_BUCKETS`. -/
abbrev histogramBuckets : ℕ := 16

/-- `struct pgwt_summary_event`. -/
structure SummaryEvent where
  eventId : UInt32
  count : UInt64
  totalNs : UInt64
  maxNs : UInt64
  histogram : Fin histogramBuckets → UInt64

/-- `struct pgwt_summary_session`. -/
structure SummarySession where
  pid : UInt32
  dbTimeNs : UInt64
  cpuNs : UInt64
  topWaitId : UInt32
  topWaitNs : UInt64
  cpuOffcpuNs : UInt64
  cpuMeasuredRecords : UInt32
  deriving DecidableEq, Repr

/-- `struct pgwt_summary_query_event`. -/
structure SummaryQueryEvent where
  eventId : UInt32
  count : UInt64
  totalNs : UInt64
  deriving DecidableEq, Repr

/-- `SUMMARY_QUERY_TOP_EVENTS`. -/
def queryTopEvents : ℕ := 8

/-- `struct pgwt_summary_query`. The list of top events is within its array. -/
structure SummaryQuery where
  queryId : UInt64
  count : UInt64
  totalNs : UInt64
  topWaitId : UInt32
  topWaitNs : UInt64
  classNs : WaitClass → UInt64
  topEvents : List SummaryQueryEvent
  idleNs : UInt64
  topEvents_le : topEvents.length ≤ queryTopEvents

/-- An event row of zeros. -/
def SummaryEvent.zero : SummaryEvent := ⟨0, 0, 0, 0, fun _ => 0⟩

/-- A session row of zeros. -/
def SummarySession.zero : SummarySession := ⟨0, 0, 0, 0, 0, 0, 0⟩

/-- A query row of zeros. -/
def SummaryQuery.zero : SummaryQuery := ⟨0, 0, 0, 0, 0, fun _ => 0, [], 0, Nat.zero_le _⟩

/-- An empty event slot. -/
def SummaryEvent.vacant (e : SummaryEvent) : Bool := e.eventId = 0 && e.count = 0 && e.totalNs = 0

/-- An empty session slot. -/
def SummarySession.vacant (s : SummarySession) : Bool := s.pid = 0 && s.dbTimeNs = 0

/-- An empty query slot. -/
def SummaryQuery.vacant (q : SummaryQuery) : Bool := q.queryId = 0 && q.count = 0

/-! ### The accumulator -/

/-- The times of a record outside the tables: per class, idle, and the CPU split. The counters of the
writer are 64-bit words; with numbers in their place, nothing wraps around. -/
@[ext] structure TimeScalars (N : Type) where
  classNs : WaitClass → N
  idleNs : N
  cpuMeasuredNs : N
  cpuUnknownNs : N
  cpuClampedNs : N
  waitGapCpuNs : N
  cpuMeasuredRecords : N

/-- No time. -/
def TimeScalars.zero {N : Type} [Zero N] : TimeScalars N := ⟨fun _ => 0, 0, 0, 0, 0, 0, 0⟩

/-- `SUMMARY_MAX_EVENTS`. -/
def summaryMaxEvents : ℕ := 1024

/-- `SUMMARY_MAX_SESSIONS`. -/
def summaryMaxSessions : ℕ := 1024

/-- `SUMMARY_MAX_QUERIES`. -/
def summaryMaxQueries : ℕ := 2048

/-- `struct pgwt_summary_accum`, without the second it stands for. -/
structure SummaryAccum where
  totalEvents : UInt32
  times : TimeScalars UInt64
  events : List SummaryEvent
  numEvents : ℕ
  eventsOverflow : UInt32
  sessions : List SummarySession
  numSessions : ℕ
  sessionsOverflow : UInt32
  queries : List SummaryQuery
  numQueries : ℕ

/-- `accum_reset`. -/
def accumReset : SummaryAccum where
  totalEvents := 0
  times := TimeScalars.zero
  events := List.replicate summaryMaxEvents SummaryEvent.zero
  numEvents := 0
  eventsOverflow := 0
  sessions := List.replicate summaryMaxSessions SummarySession.zero
  numSessions := 0
  sessionsOverflow := 0
  queries := List.replicate summaryMaxQueries SummaryQuery.zero
  numQueries := 0

/-! ### Tables -/

/-- `hash32`. -/
def hash32 (x : UInt32) : UInt32 :=
  let x := ((x >>> 16) ^^^ x) * 0x45d9f3b
  let x := ((x >>> 16) ^^^ x) * 0x45d9f3b
  (x >>> 16) ^^^ x

/-- `hash64`. -/
def hash64 (x : UInt64) : UInt64 :=
  let x := (x ^^^ (x >>> 30)) * 0xbf58476d1ce4e5b9
  let x := (x ^^^ (x >>> 27)) * 0x94d049bb133111eb
  x ^^^ (x >>> 31)

/-- The row of an event: id 0 is CPU time, and an empty slot has id 0 too. -/
def SummaryEvent.found (id : UInt32) (e : SummaryEvent) : Bool :=
  e.eventId = id && (id ≠ 0 || 0 < e.count || 0 < e.totalNs)

/-- `find_or_insert_event`: the slot of the event, which is new in the table or not. -/
def findOrInsertEvent (acc : SummaryAccum) (id : UInt32) : Option (SummaryAccum × ℕ) :=
  match probe (fun e => e.found id || e.vacant) acc.events (hash32 id).toNat with
  | none => none
  | some j =>
    if (acc.events[j]?).any (·.found id) then some (acc, j)
    else some ({ acc with
      events := acc.events.modify j fun e => { e with eventId := id }
      numEvents := acc.numEvents + 1 }, j)

/-- The row of a session. -/
def SummarySession.found (pid : UInt32) (s : SummarySession) : Bool := s.pid = pid

/-- `find_or_insert_session`. There is no test for pid 0, which an empty slot matches. -/
def findOrInsertSession (acc : SummaryAccum) (pid : UInt32) : Option (SummaryAccum × ℕ) :=
  match probe (fun s => s.found pid || s.vacant) acc.sessions (hash32 pid).toNat with
  | none => none
  | some j =>
    if (acc.sessions[j]?).any (·.found pid) then some (acc, j)
    else some ({ acc with
      sessions := acc.sessions.modify j fun s => { s with pid := pid }
      numSessions := acc.numSessions + 1 }, j)

/-- The row of a query. -/
def SummaryQuery.found (id : UInt64) (q : SummaryQuery) : Bool := q.queryId = id

/-- `find_or_insert_query`. Query id 0 is not kept. -/
def findOrInsertQuery (acc : SummaryAccum) (id : UInt64) : Option (SummaryAccum × ℕ) :=
  if id = 0 then none
  else
    match probe (fun q => q.found id || q.vacant) acc.queries (hash64 id).toNat with
    | none => none
    | some j =>
      if (acc.queries[j]?).any (·.found id) then some (acc, j)
      else some ({ acc with
        queries := acc.queries.modify j fun q => { q with queryId := id }
        numQueries := acc.numQueries + 1 }, j)

/-! ### Queries -/

/-- `count` intervals of an event in the list of top events: at its place, at the end, or nowhere if
the list is full. -/
def addTopEvent (l : List SummaryQueryEvent) (ev : UInt32) (count total : UInt64) :
    List SummaryQueryEvent :=
  match l.findIdx? (·.eventId = ev) with
  | some i => l.modify i fun e =>
      { e with count := e.count + count, totalNs := e.totalNs + total }
  | none => if l.length < queryTopEvents then l ++ [⟨ev, count, total⟩] else l

theorem length_addTopEvent_le {l : List SummaryQueryEvent} (h : l.length ≤ queryTopEvents)
    (ev : UInt32) (count total : UInt64) :
    (addTopEvent l ev count total).length ≤ queryTopEvents := by
  rw [addTopEvent]
  split
  · rw [List.length_modify]
    exact h
  · split_ifs with hlt
    · rw [List.length_append]
      exact hlt
    · exact h

/-- `mask` is the Timeout pacing mask of the idle rule. -/
def addToQuery (mask : UInt32) (q : SummaryQuery) (ev : UInt32) (count total longest : UInt64) :
    SummaryQuery where
  queryId := q.queryId
  count := if isIdleEvent mask ev then q.count else q.count + count
  totalNs := if isIdleEvent mask ev then q.totalNs else q.totalNs + total
  topWaitId := if ev ≠ 0 ∧ !isIdleEvent mask ev ∧ q.topWaitNs < longest then ev else q.topWaitId
  topWaitNs := if ev ≠ 0 ∧ !isIdleEvent mask ev ∧ q.topWaitNs < longest then longest
    else q.topWaitNs
  classNs := fun c => if !isIdleEvent mask ev ∧ c = waitClassIndex ev then q.classNs c + total
    else q.classNs c
  topEvents := addTopEvent q.topEvents ev count total
  idleNs := if isIdleEvent mask ev then q.idleNs + total else q.idleNs
  topEvents_le := length_addTopEvent_le q.topEvents_le ev count total

/-- `accum_query_add`. -/
def accumQueryAdd (mask : UInt32) (acc : SummaryAccum) (queryId : UInt64) (ev : UInt32)
    (count total longest : UInt64) : SummaryAccum :=
  match findOrInsertQuery acc queryId with
  | none => acc
  | some (acc, j) =>
    { acc with queries := acc.queries.modify j (addToQuery mask · ev count total longest) }

/-! ### Closing records -/

/-- `struct accum_close_ctx`: what the open credits already placed for the interval that closes. -/
structure AccumCloseCtx where
  alreadyNs : UInt64 := 0
  alreadyCpuNs : UInt64 := 0
  frozenEff : UInt32 := 0
  cpuCredited : Bool := false
  tierUnknown : Bool := false
  deriving DecidableEq, Repr

/-- Time added to a class. -/
def TimeScalars.addClass {N : Type} [Add N] (t : TimeScalars N) (c : WaitClass) (ns : N) :
    TimeScalars N :=
  { t with classNs := fun c' => if c' = c then t.classNs c' + ns else t.classNs c' }

/-- A measured on-CPU gap: `m` is what of the measurement this record adds, `clamped` what the clamp
took off. -/
def TimeScalars.addMeasured {N : Type} [Add N] [One N] (t : TimeScalars N) (m clamped : N) :
    TimeScalars N :=
  { t with
    cpuMeasuredNs := t.cpuMeasuredNs + m
    cpuClampedNs := t.cpuClampedNs + clamped
    cpuMeasuredRecords := t.cpuMeasuredRecords + 1 }

/-- The excess of `a` over `b`. -/
def excess (a b : UInt64) : UInt64 := if b < a then a - b else 0

theorem toNat_excess (a b : UInt64) : (excess a b).toNat = a.toNat - b.toNat := by
  rw [excess]
  split_ifs with h
  · exact UInt64.toNat_sub_of_le _ _ (UInt64.le_of_lt h)
  · have := UInt64.le_iff_toNat_le.mp (UInt64.not_lt.mp h)
    simp
    omega

/-- The time accumulators of `accum_event`: `tns` is the part of the duration `dur` that is not
credited yet, and `num` reads a word as a counter. -/
def accumTimes {N : Type} [Add N] [One N] (num : UInt64 → N) (mask : UInt32) (t : TimeScalars N)
    (ev : UInt32) (dur tns cpuNs : UInt64) (cc : AccumCloseCtx) : TimeScalars N :=
  if isIdleEvent mask ev then { t with idleNs := t.idleNs + num tns }
  else
    let cls := waitClassIndex ev
    let t := t.addClass cls (num tns)
    if cls = .cpu then
      if cc.cpuCredited ∧ cc.tierUnknown then { t with cpuUnknownNs := t.cpuUnknownNs + num tns }
      else if cpuNs = cpuNsUnknown then { t with cpuUnknownNs := t.cpuUnknownNs + num tns }
      else if cc.cpuCredited then
        t.addMeasured (num (excess (min cpuNs dur) cc.alreadyCpuNs)) (num (excess cpuNs dur))
      else t.addMeasured (num (min cpuNs tns)) (num (excess cpuNs tns))
    else if cpuNs = cpuNsUnknown then t
    else { t with waitGapCpuNs := t.waitGapCpuNs + num cpuNs }

/-- The measurement of an on-CPU gap for its session, if there is one. -/
def sessionMeasured (mask : UInt32) (ev : UInt32) (dur tns cpuNs : UInt64) (cc : AccumCloseCtx) :
    Option UInt64 :=
  if isIdleEvent mask ev ∨ waitClassIndex ev ≠ .cpu then none
  else if cc.cpuCredited ∧ cc.tierUnknown then none
  else if cpuNs = cpuNsUnknown then none
  else if cc.cpuCredited then some (excess (min cpuNs dur) cc.alreadyCpuNs)
  else some (min cpuNs tns)

/-- `pgwt_duration_to_bucket`: below 1 µs, and then by powers of two. -/
def durationToBucket (ns : UInt64) : Fin histogramBuckets :=
  let us := (ns / 1000).toNat
  if us < 1 then 0
  else if us < 2 then 1
  else if us < 4 then 2
  else if us < 8 then 3
  else if us < 16 then 4
  else if us < 32 then 5
  else if us < 64 then 6
  else if us < 128 then 7
  else if us < 256 then 8
  else if us < 512 then 9
  else if us < 1024 then 10
  else if us < 2048 then 11
  else if us < 4096 then 12
  else if us < 8192 then 13
  else if us < 16384 then 14
  else 15

/-- A closing record in the row of its event. -/
def SummaryEvent.addRecord (e : SummaryEvent) (dur tns : UInt64) : SummaryEvent :=
  { e with
    count := e.count + 1
    totalNs := e.totalNs + tns
    maxNs := max e.maxNs dur
    histogram := fun b => if b = durationToBucket dur then e.histogram b + 1 else e.histogram b }

/-- The per-event part of `accum_event`. -/
def accumEventRow (acc : SummaryAccum) (ev : UInt32) (dur tns : UInt64) : SummaryAccum :=
  match findOrInsertEvent acc ev with
  | none => { acc with eventsOverflow := acc.eventsOverflow + 1 }
  | some (acc, j) => { acc with events := acc.events.modify j (·.addRecord dur tns) }

/-- A counter that stops at its largest value. -/
def saturatingSucc (n : UInt32) : UInt32 := if n = 0xFFFFFFFF then n else n + 1

/-- A share of time in the row of its session. `measured` is the measured part of an on-CPU gap. -/
def SummarySession.addTime (mask : UInt32) (s : SummarySession) (ev : UInt32) (tns : UInt64)
    (measured : Option UInt64) : SummarySession :=
  { s with
    dbTimeNs := if isIdleEvent mask ev then s.dbTimeNs else s.dbTimeNs + tns
    cpuNs := if ev = 0 then s.cpuNs + tns else s.cpuNs
    cpuOffcpuNs := match measured with
      | some m => if ev = 0 then s.cpuOffcpuNs + excess tns m else s.cpuOffcpuNs
      | none => s.cpuOffcpuNs
    cpuMeasuredRecords := match measured with
      | some _ => if ev = 0 then saturatingSucc s.cpuMeasuredRecords else s.cpuMeasuredRecords
      | none => s.cpuMeasuredRecords }

/-- The longest wait of a session, never an idle one. -/
def SummarySession.addWait (mask : UInt32) (s : SummarySession) (ev : UInt32) (dur : UInt64) :
    SummarySession :=
  if ev ≠ 0 ∧ !isIdleEvent mask ev ∧ s.topWaitNs < dur then
    { s with topWaitId := ev, topWaitNs := dur }
  else s

/-- The per-session part of `accum_event`. -/
def accumSessionRow (mask : UInt32) (acc : SummaryAccum) (pid ev : UInt32) (dur tns : UInt64)
    (measured : Option UInt64) : SummaryAccum :=
  match findOrInsertSession acc pid with
  | none =>
    if isIdleEvent mask ev then acc
    else { acc with sessionsOverflow := acc.sessionsOverflow + 1 }
  | some (acc, j) => { acc with
      sessions := acc.sessions.modify j fun s =>
        (s.addTime mask ev tns measured).addWait mask ev dur }

/-- The label an interval is filed under: the one its written seconds used, if there are any. -/
def AccumCloseCtx.label (cc : AccumCloseCtx) (effEvent : UInt32) : UInt32 :=
  if cc.cpuCredited then cc.frozenEff else effEvent

/-- `accum_event`: exits, markers and the records of I/O workers are dropped; the result says
whether it was the last. -/
def accumEvent (mask : UInt32) (acc : SummaryAccum) (evt : TraceEvent) (queryId : UInt64)
    (ioWorker : Bool) (effEvent : UInt32) (cc : AccumCloseCtx) : SummaryAccum × Bool :=
  let ev := cc.label effEvent
  let dur := evt.durationNs
  let tns := excess dur cc.alreadyNs
  if ev = eventExit ∨ isMarker ev then (acc, false)
  else if ioWorker then (acc, true)
  else
    let acc := { acc with
      totalEvents := acc.totalEvents + 1
      times := accumTimes (fun x => x) mask acc.times ev dur tns evt.cpuNs cc }
    let acc := accumEventRow acc ev dur tns
    let acc := accumSessionRow mask acc evt.pid ev dur tns
      (sessionMeasured mask ev dur tns evt.cpuNs cc)
    (accumQueryAdd mask acc queryId ev 1 dur dur, false)

/-! ### Open credits -/

/-- A share of time of an open interval: idle, or in its class. -/
def creditTimes {N : Type} [Add N] (mask : UInt32) (t : TimeScalars N) (we : UInt32) (ns : N) :
    TimeScalars N :=
  if isIdleEvent mask we then { t with idleNs := t.idleNs + ns }
  else t.addClass (waitClassIndex we) ns

/-- The per-event part of `accum_open_credit`: time without a count. -/
def creditEventRow (acc : SummaryAccum) (we : UInt32) (ns : UInt64) : SummaryAccum :=
  match findOrInsertEvent acc we with
  | none => { acc with eventsOverflow := acc.eventsOverflow + 1 }
  | some (acc, j) => { acc with
      events := acc.events.modify j fun e => { e with totalNs := e.totalNs + ns } }

/-- The per-session part of `accum_open_credit`. -/
def creditSessionRow (mask : UInt32) (acc : SummaryAccum) (pid we : UInt32) (ns : UInt64)
    (measured : Option UInt64) : SummaryAccum :=
  match findOrInsertSession acc pid with
  | none => { acc with sessionsOverflow := acc.sessionsOverflow + 1 }
  | some (acc, j) => { acc with
      sessions := acc.sessions.modify j (·.addTime mask we ns measured) }

/-- `accum_open_credit`: the time of an interval that is still open, with no count. -/
def accumOpenCredit (mask : UInt32) (acc : SummaryAccum) (pid we : UInt32) (ns measuredNs : UInt64)
    (measured : Bool) : SummaryAccum :=
  if ns = 0 then acc
  else
    let acc := { acc with times := creditTimes mask acc.times we ns }
    let acc := creditEventRow acc we ns
    if isIdleEvent mask we then acc
    else creditSessionRow mask acc pid we ns (if measured then some measuredNs else none)

end PgWaitTracer
