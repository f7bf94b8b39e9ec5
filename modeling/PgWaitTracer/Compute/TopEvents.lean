import Mathlib.Data.List.Sort
import PgWaitTracer.Compute.Filter
import PgWaitTracer.Lib.Filing
import PgWaitTracer.Summary.Accum

/-!
# Top events from summaries

The Top Events view of a long window is added up from the per-second records
(`te_summary_visitor`, `pgwt_compute_top_events_from_summaries`, `src/compute.c`). The entries of an
event are collected in a table of 2048 slots, probed from the low bits of the event id, and a slot
is free as long as its count is 0. The records of the writer also have entries with time and no
count: the shares of intervals that were still open.

Counters are numbers here: a sum of 64-bit counters is taken to fit.
-/

namespace PgWaitTracer

open LinearProbe

/-- `struct top_event_accum`, without the occupancy bit, which this path does not use. -/
structure TopEventAccum where
  eventId : UInt32
  count : ℕ
  totalNs : ℕ
  exactCount : ℕ
  exactTotalNs : ℕ
  maxNs : ℕ
  hist : Fin histogramBuckets → ℕ

/-- A slot of zeros. -/
def TopEventAccum.zero : TopEventAccum := ⟨0, 0, 0, 0, 0, 0, fun _ => 0⟩

/-- `EVENT_HT_SIZE`. -/
def eventHtSize : ℕ := 2048

/-- `event_id & EVENT_HT_MASK`. -/
def eventHtHash (id : UInt32) : ℕ := (id &&& 2047).toNat

/-- `struct te_summary_ctx`, without the filter. -/
structure TeSummaryCtx where
  ht : List TopEventAccum
  numEntries : ℕ
  dbTimeNs : ℕ

/-- `summary_event_matches_filter`. -/
def summaryEventMatchesFilter (f : Filter) (id : UInt32) : Bool :=
  if isMarker id then false
  else if f.className ≠ "" ∧ strcaseEq (className id) f.className = false then false
  else if f.hasEventFilter = true ∧ id ≠ f.eventId then false
  else true

/-- The search for the slot of an event. It has no end if all slots have a count and another id. -/
def teSlot (ht : List TopEventAccum) (id : UInt32) : Option ℕ :=
  probe (fun s => s.count = 0 || s.eventId = id) ht (eventHtHash id)

/-- Count and time of an entry in a slot, which gets the id if it was free. -/
def TopEventAccum.add (s : TopEventAccum) (id : UInt32) (count total : UInt64) : TopEventAccum :=
  { s with
    eventId := if s.count = 0 then id else s.eventId
    count := s.count + count.toNat
    totalNs := s.totalNs + total.toNat
    exactCount := s.exactCount + count.toNat
    exactTotalNs := s.exactTotalNs + total.toNat }

/-- Longest interval and histogram of an entry in a slot. -/
def TopEventAccum.addLatency (s : TopEventAccum) (se : SummaryEvent) : TopEventAccum :=
  { s with
    maxNs := max s.maxNs se.maxNs.toNat
    hist := fun b => s.hist b + (se.histogram b).toNat }

/-- An entry is added to DB time if it is not idle, and to its slot. -/
def teAdd (mask : UInt32) (ctx : TeSummaryCtx) (id : UInt32) (count total : UInt64)
    (latency : TopEventAccum → TopEventAccum) : Option TeSummaryCtx :=
  (teSlot ctx.ht id).map fun j =>
    { ht := ctx.ht.modify j fun s => latency (s.add id count total)
      numEntries := if (ctx.ht[j]?).any (·.count = 0) then ctx.numEntries + 1 else ctx.numEntries
      dbTimeNs := if isIdleEvent mask id then ctx.dbTimeNs else ctx.dbTimeNs + total.toNat }

/-- An entry of the event table of a record: empty slots, hidden events and events that do not match
are passed by. -/
def teEvent (mask : UInt32) (f : Filter) (ctx : TeSummaryCtx) (se : SummaryEvent) :
    Option TeSummaryCtx :=
  if se.eventId = 0 ∧ se.count = 0 then some ctx
  else if isHiddenEvent se.eventId then some ctx
  else if !summaryEventMatchesFilter f se.eventId then some ctx
  else teAdd mask ctx se.eventId se.count se.totalNs (·.addLatency se)

/-- A top event of the query that is filtered for. -/
def teQueryEvent (mask : UInt32) (f : Filter) (ctx : TeSummaryCtx) (e : SummaryQueryEvent) :
    Option TeSummaryCtx :=
  if isHiddenEvent e.eventId then some ctx
  else if !summaryEventMatchesFilter f e.eventId then some ctx
  else teAdd mask ctx e.eventId e.count e.totalNs id

/-- `te_summary_visitor`. -/
def teSummaryVisitor (mask : UInt32) (f : Filter) (ctx : TeSummaryCtx) (rec : SummaryAccum) :
    Option TeSummaryCtx :=
  if f.queryId ≠ 0 then
    match rec.queries.find? fun q => !q.vacant && q.queryId = f.queryId with
    | some q => q.topEvents.foldlM (teQueryEvent mask f) ctx
    | none => some ctx
  else rec.events.foldlM (teEvent mask f) ctx

/-- `struct pgwt_events_result`: a row is the slot it is taken from, with its times in ns. -/
structure EventsResult where
  rows : List TopEventAccum
  dbTimeNs : ℕ

/-- `cmp_event_row_desc`. -/
def eventRowLe (a b : TopEventAccum) : Bool :=
  if a.totalNs ≠ b.totalNs then b.totalNs < a.totalNs else a.eventId ≤ b.eventId

/-- The context before the first record. -/
def teSummaryStart : TeSummaryCtx := ⟨List.replicate eventHtSize TopEventAccum.zero, 0, 0⟩

/-- `pgwt_compute_top_events_from_summaries`, on the records that are visited. -/
def topEventsFromSummaries (mask : UInt32) (f : Filter) (recs : List SummaryAccum) :
    Option EventsResult :=
  (recs.foldlM (teSummaryVisitor mask f) teSummaryStart).map fun ctx =>
    ⟨(ctx.ht.filter fun s => s.count ≠ 0).mergeSort eventRowLe, ctx.dbTimeNs⟩

/-! ### Entries that are filed -/

/-- Events that the view lists. -/
def listsEvent (f : Filter) (id : UInt32) : Bool :=
  !isHiddenEvent id && summaryEventMatchesFilter f id

/-- The entries of the records. -/
def recordEvents (recs : List SummaryAccum) : List SummaryEvent := recs.flatMap (·.events)

/-- The entries that are filed in the table. -/
def filedEvents (f : Filter) (recs : List SummaryAccum) : List SummaryEvent :=
  (recordEvents recs).filter fun e =>
    !(e.eventId = 0 && e.count = 0) && listsEvent f e.eventId

/-- An entry as something to file: only a count claims the slot. -/
def SummaryEvent.filing (e : SummaryEvent) : Filing.Entry UInt32 :=
  ⟨e.eventId, e.count ≠ 0, e.totalNs.toNat⟩

/-- The owner of a slot. -/
def TopEventAccum.owner (s : TopEventAccum) : Option UInt32 :=
  if s.count = 0 then none else some s.eventId

/-- An entry that is filed. -/
def teFile (mask : UInt32) (ctx : TeSummaryCtx) (e : SummaryEvent) : Option TeSummaryCtx :=
  teAdd mask ctx e.eventId e.count e.totalNs (·.addLatency e)

theorem teEvent_eq (mask : UInt32) (f : Filter) (ctx : TeSummaryCtx) (e : SummaryEvent) :
    teEvent mask f ctx e = if !(e.eventId = 0 && e.count = 0) && listsEvent f e.eventId then
      teFile mask ctx e else some ctx := by
  rw [teEvent, listsEvent, teFile]
  by_cases h₁ : e.eventId = 0 ∧ e.count = 0
  · simp [h₁]
  · by_cases h₂ : isHiddenEvent e.eventId = true <;>
      by_cases h₃ : summaryEventMatchesFilter f e.eventId = true <;>
      simp [h₁, h₂, h₃]

theorem foldlM_teEvent (mask : UInt32) (f : Filter) (es : List SummaryEvent) (ctx : TeSummaryCtx) :
    es.foldlM (teEvent mask f) ctx = (es.filter fun e =>
      !(e.eventId = 0 && e.count = 0) && listsEvent f e.eventId).foldlM (teFile mask) ctx := by
  induction es generalizing ctx with
  | nil => rfl
  | cons e es ih =>
    rw [List.foldlM_cons, teEvent_eq, List.filter_cons]
    split_ifs with h
    · rw [List.foldlM_cons]
      exact congrArg _ (funext ih)
    · exact ih ctx

theorem foldlM_teSummaryVisitor {mask : UInt32} {f : Filter} (hq : f.queryId = 0)
    (recs : List SummaryAccum) (ctx : TeSummaryCtx) :
    recs.foldlM (teSummaryVisitor mask f) ctx = (filedEvents f recs).foldlM (teFile mask) ctx := by
  rw [filedEvents, ← foldlM_teEvent, recordEvents]
  induction recs generalizing ctx with
  | nil => rfl
  | cons rec recs ih =>
    rw [List.foldlM_cons, teSummaryVisitor, if_neg (by simp [hq]), List.flatMap_cons,
      List.foldlM_append]
    exact congrArg _ (funext ih)

end PgWaitTracer
