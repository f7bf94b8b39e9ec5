import Mathlib.Algebra.Order.Floor.Defs
import Mathlib.Data.Rat.Floor
import PgWaitTracer.Compute.Lifecycle
import PgWaitTracer.Compute.TimeModel
import PgWaitTracer.Compute.TopEvents
import PgWaitTracer.Lib.Tally

/-!
# The ranked views

Top events, top sessions and top queries of a window, computed from the records of the trace
(`pgwt_compute_top_events`, `pgwt_compute_top_sessions`, `pgwt_compute_top_queries`,
`src/compute.c`). Time is clipped to the window, and a record is counted where it closes.

Accumulators in ns are natural numbers: a sum is taken to fit in 64 bits. Doubles of the source are
rational numbers. Allocations succeed. Left out is how rows are printed: names, percentages,
percentiles and the wait that stands for a row.

## Main results

* `topEvents_cases`: top events are computed exactly when the events that are listed
  are not more than the slots of the table, and then the rows are those of the records.
-/

namespace PgWaitTracer

open LinearProbe

/-! ### Windows -/

/-- `event_right_open`. -/
def eventRightOpen (ev : TraceEvent) (toNs : ℕ) : Bool :=
  if ev.flags &&& flagRightOpen ≠ 0 then true else toNs ≠ 0 && toNs < ev.ts

/-- `event_occurrence_in_window`; a bound of 0 is none. -/
def eventOccurrenceInWindow (ev : TraceEvent) (fromNs toNs : ℕ) : Bool :=
  if fromNs ≠ 0 ∧ ev.ts < fromNs then false
  else if eventRightOpen ev toNs then false
  else toNs = 0 || if ev.isSample then ev.ts ≤ toNs else ev.ts < toNs

/-- What an interval on CPU gives to its row, what is clamped away from its measurement, and whether
a measurement takes part. -/
structure CpuRow where
  rowNs : ℕ
  clampedNs : ℚ
  measured : Bool

/-- The split of an interval on CPU, as top events and top sessions make it. -/
def cpuRow (ev : TraceEvent) (clip : ℕ) : CpuRow :=
  if ev.cpuNs ≠ cpuNsUnknown then
    let frac := eventWindowFrac clip ev.dur
    let m := ev.cpuNs.toNat * frac
    { rowNs := ⌊(if clip < m then (clip : ℚ) else m) + 1 / 2⌋₊
      clampedNs := if clip < m then m - clip else 0
      measured := 0 < frac }
  else ⟨clip, 0, false⟩

/-! ### Top events -/

/-- The split of a record: a wait is not split. -/
def eventCpu (ev : TraceEvent) (clip : ℕ) : CpuRow :=
  if waitClassIndex ev.oldEvent = .cpu then cpuRow ev clip else ⟨clip, 0, false⟩

/-- An observation in the row of its event. A continuation of a sample is not counted again, and
latencies come from exact records. -/
def TopEventAccum.observe (r : TopEventAccum) (ev : TraceEvent) : TopEventAccum :=
  let r := if ev.flags &&& flagSampleCont = 0 ∨ r.count = 0 then { r with count := r.count + 1 }
    else r
  if ev.isSample then r
  else
    { r with
      exactCount := r.exactCount + 1
      exactTotalNs := r.exactTotalNs + ev.dur
      maxNs := max r.maxNs ev.dur
      hist := fun b => if b = durationToBucket ev.durationNs then r.hist b + 1 else r.hist b }

/-- A record in the row of its event. -/
def TopEventAccum.addRecord (fromNs toNs : ℕ) (r : TopEventAccum) (ev : TraceEvent) :
    TopEventAccum :=
  let r := { r with totalNs := r.totalNs + (eventCpu ev (eventWindowNs ev fromNs toNs)).rowNs }
  if eventOccurrenceInWindow ev fromNs toNs then r.observe ev else r

/-- The row of an event that was not met before. -/
def TopEventAccum.new (id : UInt32) : TopEventAccum := { TopEventAccum.zero with eventId := id }

/-- The accumulators of `pgwt_compute_top_events`. -/
structure TopEventsState where
  ht : GrowTable TopEventAccum := { slots := List.replicate eventHtSize none }
  dbTimeNs : ℕ := 0
  offcpuNs : ℕ := 0
  cpuClampedNs : ℚ := 0
  hasMeasuredCpu : Bool := false

/-- The record is looked at by top events. -/
def topEventsTakes (f : Filter) (ev : TraceEvent) : Bool :=
  filterMatches f ev && !isHiddenEvent ev.oldEvent && ev.flags &&& flagIoWorker = 0

/-- A record in the loop of `pgwt_compute_top_events`. There is no next state if the search for a
slot does not end. -/
def topEventsStep (mask : UInt32) (f : Filter) (fromNs toNs : ℕ) (s : TopEventsState)
    (ev : TraceEvent) : Option TopEventsState :=
  if !topEventsTakes f ev then some s
  else
    let clip := eventWindowNs ev fromNs toNs
    let cpu := eventCpu ev clip
    (Tally.fileRow TopEventAccum.eventId eventHtHash .new TraceEvent.oldEvent
      (TopEventAccum.addRecord fromNs toNs) s.ht ev).map fun ht =>
      { ht := ht
        dbTimeNs := if isIdleEvent mask ev.oldEvent then s.dbTimeNs else s.dbTimeNs + clip
        offcpuNs := s.offcpuNs + (clip - cpu.rowNs)
        cpuClampedNs := s.cpuClampedNs + cpu.clampedNs
        hasMeasuredCpu := s.hasMeasuredCpu || cpu.measured }

/-- The accumulators that `struct pgwt_events_result` is made of. A row is the slot it is taken
from. -/
structure TopEventsResult where
  rows : List TopEventAccum
  dbTimeNs : ℕ
  offcpuNs : ℕ
  cpuClampedNs : ℚ
  hasMeasuredCpu : Bool

/-- `pgwt_compute_top_events`. -/
def topEvents (mask : UInt32) (f : Filter) (fromNs toNs : ℕ) (evs : List TraceEvent) :
    Option TopEventsResult :=
  (evs.foldlM (topEventsStep mask f fromNs toNs) {}).map fun s =>
    { rows := (s.ht.slots.filterMap id).mergeSort eventRowLe
      dbTimeNs := s.dbTimeNs
      offcpuNs := s.offcpuNs
      cpuClampedNs := s.cpuClampedNs
      hasMeasuredCpu := s.hasMeasuredCpu }

/-! ### Waits of a session or a query -/

/-- `struct wait_ht_entry`. An event id of 0 is an empty slot. -/
structure WaitHtEntry where
  eventId : UInt32 := 0
  totalNs : ℕ := 0
  deriving DecidableEq, Repr

/-- `WAIT_HT_SIZE`. -/
def waitHtSize : ℕ := 256

/-- `wait_ht_find_or_insert`, and the time that is added to the slot. A full table takes no new
event. -/
def waitHtAdd (waits : List WaitHtEntry) (id : UInt32) (ns : ℕ) : List WaitHtEntry :=
  match probe (fun e => e.eventId = id || e.eventId = 0) waits (hash32 id).toNat with
  | none => waits
  | some j => waits.modify j fun e => ⟨id, e.totalNs + ns⟩

/-! ### Top sessions -/

/-- `struct session_accum`. -/
structure SessionAccum where
  pid : UInt32
  totalNs : ℕ := 0
  cpuNs : ℕ := 0
  offcpuNs : ℕ := 0
  waitNs : ℕ := 0
  waits : List WaitHtEntry := List.replicate waitHtSize {}

/-- The record is looked at by top sessions, and by top queries. -/
def sessionTakes (mask : UInt32) (f : Filter) (ev : TraceEvent) : Bool :=
  filterMatches f ev && !isIdleEvent mask ev.oldEvent && ev.flags &&& flagIoWorker = 0

/-- A record in the row of its session. -/
def SessionAccum.addRecord (fromNs toNs : ℕ) (s : SessionAccum) (ev : TraceEvent) : SessionAccum :=
  let clip := eventWindowNs ev fromNs toNs
  let s := { s with totalNs := s.totalNs + clip }
  if ev.oldEvent = 0 then
    let row := (cpuRow ev clip).rowNs
    { s with cpuNs := s.cpuNs + row, offcpuNs := s.offcpuNs + (clip - row) }
  else { s with waitNs := s.waitNs + clip, waits := waitHtAdd s.waits ev.oldEvent clip }

/-- The accumulators of `pgwt_compute_top_sessions`. -/
structure TopSessionsState where
  table : Tally.IndexedRows UInt32 SessionAccum := {}
  cpuClampedNs : ℚ := 0
  hasMeasuredCpu : Bool := false

/-- A record in the loop of `pgwt_compute_top_sessions`. -/
def topSessionsStep (mask : UInt32) (f : Filter) (fromNs toNs : ℕ) (s : TopSessionsState)
    (ev : TraceEvent) : TopSessionsState :=
  let clip := eventWindowNs ev fromNs toNs
  let cpu := eventCpu ev clip
  if !sessionTakes mask f ev then s
  else
    { table := Tally.indexRow pidIndexHash (fun pid => { pid := pid }) TraceEvent.pid
        (SessionAccum.addRecord fromNs toNs) 128 s.table ev
      cpuClampedNs := s.cpuClampedNs + cpu.clampedNs
      hasMeasuredCpu := s.hasMeasuredCpu || cpu.measured }

/-- The accumulators that `struct pgwt_sessions_result` is made of. -/
structure TopSessionsResult where
  rows : List SessionAccum
  cpuClampedNs : ℚ
  hasMeasuredCpu : Bool

/-- `cmp_session_row_desc`. -/
def sessionRowLe (a b : SessionAccum) : Bool :=
  if a.totalNs ≠ b.totalNs then b.totalNs < a.totalNs else a.pid ≤ b.pid

/-- `pgwt_compute_top_sessions`. -/
def topSessions (mask : UInt32) (f : Filter) (fromNs toNs : ℕ) (evs : List TraceEvent) :
    TopSessionsResult :=
  let s := evs.foldl (topSessionsStep mask f fromNs toNs) {}
  { rows := s.table.rows.mergeSort sessionRowLe
    cpuClampedNs := s.cpuClampedNs
    hasMeasuredCpu := s.hasMeasuredCpu }

/-! ### Top queries -/

/-- `struct query_accum`. -/
structure QueryAccum where
  queryId : UInt64
  count : ℕ := 0
  totalNs : ℕ := 0
  fullNs : ℕ := 0
  exactCount : ℕ := 0
  classNs : WaitClass → ℕ := fun _ => 0
  waits : List WaitHtEntry := List.replicate waitHtSize {}

/-- A record in the row of its query. -/
def QueryAccum.addRecord (fromNs toNs : ℕ) (q : QueryAccum) (ev : TraceEvent) : QueryAccum :=
  let clip := eventWindowNs ev fromNs toNs
  let counts := eventOccurrenceInWindow ev fromNs toNs &&
    (ev.flags &&& flagSampleCont = 0 || q.count = 0)
  let exact := counts && !ev.isSample
  { q with
    count := if counts then q.count + 1 else q.count
    exactCount := if exact then q.exactCount + 1 else q.exactCount
    fullNs := if exact then q.fullNs + ev.dur else q.fullNs
    totalNs := q.totalNs + clip
    classNs := fun c => if c = waitClassIndex ev.oldEvent then q.classNs c + clip else q.classNs c
    waits := if ev.oldEvent ≠ 0 then waitHtAdd q.waits ev.oldEvent clip else q.waits }

/-- `pgwt_qid_index_hash`. -/
def qidIndexHash (key : UInt64) : ℕ := (hash64 key).toNat

/-- The accumulators of `pgwt_compute_top_queries`. -/
structure TopQueriesState where
  table : Tally.IndexedRows UInt64 QueryAccum := {}
  dbTimeNs : ℕ := 0
  unattributedNs : ℕ := 0
  unattributedCount : ℕ := 0
  backfilledNs : ℕ := 0

/-- A record in the loop of `pgwt_compute_top_queries`. -/
def topQueriesStep (mask : UInt32) (f : Filter) (fromNs toNs : ℕ) (s : TopQueriesState)
    (ev : TraceEvent) : TopQueriesState :=
  let clip := eventWindowNs ev fromNs toNs
  if !sessionTakes mask f ev then s
  else if ev.queryId = 0 then
    if ev.flags &&& flagQueryUnattrib ≠ 0 then
      { s with
        unattributedNs := s.unattributedNs + clip
        unattributedCount := if eventOccurrenceInWindow ev fromNs toNs then s.unattributedCount + 1
          else s.unattributedCount }
    else s
  else
    { s with
      backfilledNs := if ev.flags &&& flagQueryBackfill ≠ 0 then s.backfilledNs + clip
        else s.backfilledNs
      dbTimeNs := s.dbTimeNs + clip
      table := Tally.indexRow qidIndexHash (fun id => { queryId := id }) TraceEvent.queryId
        (QueryAccum.addRecord fromNs toNs) 128 s.table ev }

/-- The accumulators that `struct pgwt_queries_result` is made of. -/
structure TopQueriesResult where
  rows : List QueryAccum
  dbTimeNs : ℕ
  unattributedNs : ℕ
  unattributedCount : ℕ
  backfilledNs : ℕ

/-- `cmp_query_row_desc`. -/
def queryRowLe (a b : QueryAccum) : Bool :=
  if a.totalNs ≠ b.totalNs then b.totalNs < a.totalNs else a.queryId ≤ b.queryId

/-- `pgwt_compute_top_queries`. -/
def topQueries (mask : UInt32) (f : Filter) (fromNs toNs : ℕ) (evs : List TraceEvent) :
    TopQueriesResult :=
  let s := evs.foldl (topQueriesStep mask f fromNs toNs) {}
  { rows := s.table.rows.mergeSort queryRowLe
    dbTimeNs := s.dbTimeNs
    unattributedNs := s.unattributedNs
    unattributedCount := s.unattributedCount
    backfilledNs := s.backfilledNs }

/-! ### What top events add up -/

variable {mask : UInt32} {f : Filter} {fromNs toNs : ℕ}

/-- The records that top events look at. -/
def topEventsTaken (f : Filter) (evs : List TraceEvent) : List TraceEvent :=
  evs.filter (topEventsTakes f)

/-- The ids of the events that are listed. -/
def listedIds (f : Filter) (evs : List TraceEvent) : Finset UInt32 :=
  ((topEventsTaken f evs).map TraceEvent.oldEvent).toFinset

/-- What a record adds to DB time. -/
def dbNs (mask : UInt32) (fromNs toNs : ℕ) (ev : TraceEvent) : ℕ :=
  if isIdleEvent mask ev.oldEvent then 0 else eventWindowNs ev fromNs toNs

/-- What a record adds to off-CPU time. -/
def offcpuNs (fromNs toNs : ℕ) (ev : TraceEvent) : ℕ :=
  eventWindowNs ev fromNs toNs - (eventCpu ev (eventWindowNs ev fromNs toNs)).rowNs

theorem keyed_topEvents (fromNs toNs : ℕ) :
    Tally.Keyed TopEventAccum.eventId .new (TopEventAccum.addRecord fromNs toNs) := by
  refine ⟨fun id => rfl, fun r ev => ?_⟩
  simp only [TopEventAccum.addRecord, TopEventAccum.observe]
  split_ifs <;> rfl

theorem addRecord_totalNs (fromNs toNs : ℕ) (r : TopEventAccum) (ev : TraceEvent) :
    (r.addRecord fromNs toNs ev).totalNs =
      r.totalNs + (eventCpu ev (eventWindowNs ev fromNs toNs)).rowNs := by
  simp only [TopEventAccum.addRecord, TopEventAccum.observe]
  split_ifs <;> rfl

variable (mask f fromNs toNs) in
theorem foldlM_topEventsStep (evs : List TraceEvent) (s : TopEventsState) :
    ∃ clamped measured, evs.foldlM (topEventsStep mask f fromNs toNs) s =
      ((topEventsTaken f evs).foldlM (Tally.fileRow TopEventAccum.eventId eventHtHash .new
        TraceEvent.oldEvent (TopEventAccum.addRecord fromNs toNs)) s.ht).map fun ht =>
        { ht := ht
          dbTimeNs := s.dbTimeNs + ((topEventsTaken f evs).map (dbNs mask fromNs toNs)).sum
          offcpuNs := s.offcpuNs + ((topEventsTaken f evs).map (offcpuNs fromNs toNs)).sum
          cpuClampedNs := clamped
          hasMeasuredCpu := measured } := by
  induction evs generalizing s with
  | nil => exact ⟨s.cpuClampedNs, s.hasMeasuredCpu, rfl⟩
  | cons ev evs ih =>
    rw [List.foldlM_cons, topEventsStep, topEventsTaken, List.filter_cons]
    by_cases htakes : topEventsTakes f ev
    · rw [if_neg (by simp [htakes]), if_pos htakes, List.foldlM_cons, List.map_cons, List.map_cons,
        List.sum_cons, List.sum_cons, ← add_assoc, ← add_assoc]
      have hdb : (if isIdleEvent mask ev.oldEvent then s.dbTimeNs
          else s.dbTimeNs + eventWindowNs ev fromNs toNs) =
          s.dbTimeNs + dbNs mask fromNs toNs ev := by
        rw [dbNs, add_ite, add_zero]
      dsimp only
      rw [hdb]
      cases Tally.fileRow TopEventAccum.eventId eventHtHash .new TraceEvent.oldEvent
        (TopEventAccum.addRecord fromNs toNs) s.ht ev with
      | none => exact ⟨0, false, rfl⟩
      | some ht => exact ih _
    · rw [if_pos (by simp [htakes]), if_neg (by simp [htakes])]
      exact ih s

/-- **When top events are computed.** There is a result exactly when the events that are listed are
not more than the slots of the table, and then it has the rows, the DB time and the off-CPU time of
the records that are looked at. -/
theorem topEvents_cases (mask : UInt32) (f : Filter) (fromNs toNs : ℕ) (evs : List TraceEvent) :
    (eventHtSize < (listedIds f evs).card ∧ topEvents mask f fromNs toNs evs = none) ∨
      (listedIds f evs).card ≤ eventHtSize ∧ ∃ r, topEvents mask f fromNs toNs evs = some r ∧
        Tally.Tallied TopEventAccum.eventId .new TraceEvent.oldEvent
          (TopEventAccum.addRecord fromNs toNs) r.rows (topEventsTaken f evs) ∧
        r.dbTimeNs = ((topEventsTaken f evs).map (dbNs mask fromNs toNs)).sum ∧
        r.offcpuNs = ((topEventsTaken f evs).map (offcpuNs fromNs toNs)).sum := by
  obtain ⟨clamped, measured, hrun⟩ :=
    foldlM_topEventsStep mask f fromNs toNs evs {}
  rw [topEvents, hrun]
  rcases Tally.fileRows_holds eventHtHash TraceEvent.oldEvent
    (keyed_topEvents fromNs toNs) eventHtSize (topEventsTaken f evs) with
    ⟨hlt, hnone⟩ | ⟨hle, t, ht, hold⟩
  · exact Or.inl ⟨hlt, by rw [← Tally.fileRows, hnone]; rfl⟩
  · refine Or.inr ⟨hle, _, by rw [← Tally.fileRows, ht]; rfl, ?_, Nat.zero_add _, Nat.zero_add _⟩
    exact hold.tallied.perm (List.mergeSort_perm _ _)

/-! ### What top sessions and top queries add up -/

/-- The records that top sessions and top queries look at. -/
def sessionTaken (mask : UInt32) (f : Filter) (evs : List TraceEvent) : List TraceEvent :=
  evs.filter (sessionTakes mask f)

/-- The records of queries. -/
def queryTaken (mask : UInt32) (f : Filter) (evs : List TraceEvent) : List TraceEvent :=
  (sessionTaken mask f evs).filter (·.queryId ≠ 0)

theorem keyed_topSessions (fromNs toNs : ℕ) :
    Tally.Keyed SessionAccum.pid (fun pid => { pid := pid })
      (SessionAccum.addRecord fromNs toNs) := by
  refine ⟨fun id => rfl, fun r ev => ?_⟩
  simp only [SessionAccum.addRecord]
  split_ifs <;> rfl

theorem keyed_topQueries (fromNs toNs : ℕ) :
    Tally.Keyed QueryAccum.queryId (fun id => { queryId := id })
      (QueryAccum.addRecord fromNs toNs) :=
  ⟨fun _ => rfl, fun _ _ => rfl⟩

theorem topSessions_rows (mask : UInt32) (f : Filter) (fromNs toNs : ℕ) (evs : List TraceEvent) :
    Tally.Tallied SessionAccum.pid (fun pid => { pid := pid }) TraceEvent.pid
      (SessionAccum.addRecord fromNs toNs) (topSessions mask f fromNs toNs evs).rows
      (sessionTaken mask f evs) := by
  have htable : ∀ s, (evs.foldl (topSessionsStep mask f fromNs toNs) s).table =
      (sessionTaken mask f evs).foldl (Tally.indexRow pidIndexHash (fun pid => { pid := pid })
        TraceEvent.pid (SessionAccum.addRecord fromNs toNs) 128) s.table := by
    induction evs with
    | nil => exact fun _ => rfl
    | cons ev evs ih =>
      intro s
      rw [List.foldl_cons, ih, sessionTaken, sessionTaken, List.filter_cons, topSessionsStep]
      by_cases htakes : sessionTakes mask f ev
      · rw [if_neg (by simp [htakes]), if_pos htakes, List.foldl_cons]
      · rw [if_pos (by simp [htakes]), if_neg (by simp [htakes])]
  refine Tally.Tallied.perm ?_ (List.mergeSort_perm _ _)
  rw [htable]
  exact Tally.indexRows_tallied (keyed_topSessions fromNs toNs) (by decide) _

theorem topQueries_rows (mask : UInt32) (f : Filter) (fromNs toNs : ℕ) (evs : List TraceEvent) :
    Tally.Tallied QueryAccum.queryId (fun id => { queryId := id }) TraceEvent.queryId
      (QueryAccum.addRecord fromNs toNs) (topQueries mask f fromNs toNs evs).rows
      (queryTaken mask f evs) := by
  have htable : ∀ s, (evs.foldl (topQueriesStep mask f fromNs toNs) s).table =
      (queryTaken mask f evs).foldl (Tally.indexRow qidIndexHash (fun id => { queryId := id })
        TraceEvent.queryId (QueryAccum.addRecord fromNs toNs) 128) s.table := by
    induction evs with
    | nil => exact fun _ => rfl
    | cons ev evs ih =>
      intro s
      rw [List.foldl_cons, ih, queryTaken, queryTaken, sessionTaken, sessionTaken,
        List.filter_cons, topQueriesStep]
      by_cases htakes : sessionTakes mask f ev
      · rw [if_neg (by simp [htakes]), if_pos htakes, List.filter_cons]
        by_cases hquery : ev.queryId = 0
        · have hkeep : decide (ev.queryId ≠ 0) = false := by simp [hquery]
          rw [if_pos hquery, hkeep, if_neg Bool.false_ne_true]
          split_ifs <;> rfl
        · have hkeep : decide (ev.queryId ≠ 0) = true := by simp [hquery]
          rw [if_neg hquery, if_pos hkeep, List.foldl_cons]
      · rw [if_pos (by simp [htakes]), if_neg (by simp [htakes])]
  refine Tally.Tallied.perm ?_ (List.mergeSort_perm _ _)
  rw [htable]
  exact Tally.indexRows_tallied (keyed_topQueries fromNs toNs) (by decide) _

/-- The record is counted as not attributed to a query. -/
def unattributed (mask : UInt32) (f : Filter) (ev : TraceEvent) : Bool :=
  sessionTakes mask f ev && ev.queryId = 0 && ev.flags &&& flagQueryUnattrib ≠ 0

theorem topQueries_unattributed (mask : UInt32) (f : Filter) (fromNs toNs : ℕ)
    (evs : List TraceEvent) :
    (topQueries mask f fromNs toNs evs).unattributedNs =
        (evs.map fun ev => if unattributed mask f ev then eventWindowNs ev fromNs toNs else 0).sum ∧
      (topQueries mask f fromNs toNs evs).unattributedCount =
        (evs.map fun ev => if unattributed mask f ev ∧ eventOccurrenceInWindow ev fromNs toNs then 1
          else 0).sum := by
  have hstep : ∀ s ev, (topQueriesStep mask f fromNs toNs s ev).unattributedNs =
        s.unattributedNs + (if unattributed mask f ev then eventWindowNs ev fromNs toNs else 0) ∧
      (topQueriesStep mask f fromNs toNs s ev).unattributedCount = s.unattributedCount +
        (if unattributed mask f ev ∧ eventOccurrenceInWindow ev fromNs toNs then 1 else 0) := by
    intro s ev
    rw [topQueriesStep, unattributed]
    by_cases htakes : sessionTakes mask f ev
    · by_cases hquery : ev.queryId = 0
      · by_cases hflag : ev.flags &&& flagQueryUnattrib = 0
        · simp [htakes, hquery, hflag]
        · by_cases hocc : eventOccurrenceInWindow ev fromNs toNs
          · simp [htakes, hquery, hflag, hocc]
          · simp [htakes, hquery, hflag, hocc]
      · simp [htakes, hquery]
    · simp [htakes]
  have htime := Tally.foldl_proj (l := evs) TopQueriesState.unattributedNs _
    (fun s ev _ => (hstep s ev).1) {}
  have hcount := Tally.foldl_proj (l := evs) TopQueriesState.unattributedCount _
    (fun s ev _ => (hstep s ev).2) {}
  exact ⟨htime.trans (Nat.zero_add _), hcount.trans (Nat.zero_add _)⟩

/-! ### What the time model adds up -/

theorem computeTimeModel_dbTimeNs (mask : UInt32) (f : Filter) (fromNs toNs : ℕ)
    (evs : List TraceEvent) :
    (computeTimeModel mask f fromNs toNs evs).dbTimeNs =
      (evs.map fun ev => if sessionTakes mask f ev then (eventWindowNs ev fromNs toNs : ℚ)
        else 0).sum := by
  have hstep : ∀ (t : TmAccum), ∀ ev ∈ evs, (tmEvent mask f fromNs toNs t ev).dbTimeNs =
      t.dbTimeNs + if sessionTakes mask f ev then (eventWindowNs ev fromNs toNs : ℚ) else 0 := by
    intro t ev _
    simp only [tmEvent, sessionTakes]
    split_ifs <;> simp_all
  exact (Tally.foldl_proj TmAccum.dbTimeNs _ hstep 0).trans (zero_add _)

/-- The record is idle time. -/
def idleTakes (mask : UInt32) (f : Filter) (ev : TraceEvent) : Bool :=
  filterMatches f ev && isIdleEvent mask ev.oldEvent && ev.flags &&& flagIoWorker = 0

theorem computeTimeModel_idleNs (mask : UInt32) (f : Filter) (fromNs toNs : ℕ)
    (evs : List TraceEvent) :
    (computeTimeModel mask f fromNs toNs evs).idleNs =
      (evs.map fun ev => if idleTakes mask f ev then (eventWindowNs ev fromNs toNs : ℚ)
        else 0).sum := by
  have hstep : ∀ (t : TmAccum), ∀ ev ∈ evs, (tmEvent mask f fromNs toNs t ev).idleNs =
      t.idleNs + if idleTakes mask f ev then (eventWindowNs ev fromNs toNs : ℚ) else 0 := by
    intro t ev _
    simp only [tmEvent, idleTakes]
    split_ifs <;> simp_all
  exact (Tally.foldl_proj TmAccum.idleNs _ hstep 0).trans (zero_add _)

end PgWaitTracer
