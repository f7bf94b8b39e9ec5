import PgWaitTracer.Compute.Filter

/-!
# Concurrency and bursts

`pgwt_compute_concurrency` (`src/compute.c`) answers two questions about a window. For every bucket:
which wait event had the most sessions in it at the same time. And: where did many sessions enter one
wait event within a short time, a burst.

Allocations succeed, so the result is never a failed one. The name of an event is read from the
tables of `src/wait_event.c` (`pgwt_event_full_name`), which are a parameter here.

## Main results

* `concurrencyOf_map`: of the records that qualify, the result depends only on end,
  duration, process and event.
-/

namespace PgWaitTracer

/-! ### Results -/

/-- `struct pgwt_burst`. `pids` is a sample. -/
structure Burst where
  timestampNs : ℕ
  eventId : UInt32
  eventName : String
  numSessions : ℤ
  pids : List UInt32
  deriving DecidableEq, Repr

/-- `struct pgwt_concurrency_result`. -/
structure ConcurrencyResult where
  peakSessions : List ℕ := []
  peakEvent : List UInt32 := []
  numBuckets : ℕ := 0
  bucketNs : ℕ := 0
  bursts : List Burst := []
  burstsTotal : ℕ := 0
  deriving DecidableEq, Repr

/-- `concurrency_qualifies`: a wait that overlaps the window. -/
def concurrencyQualifies (mask : UInt32) (f : Filter) (fromNs toNs : ℕ) (ev : TraceEvent) : Bool :=
  if !filterMatches f ev || isIdleEvent mask ev.oldEvent then false
  else if ev.oldEvent = 0 then false
  else if ev.ts < fromNs then false
  else if toNs < ev.ts ∧ toNs < ev.ts - ev.dur then false
  else true

/-! ### Peaks -/

/-- The state of the first phase: which process was seen in a bucket on an event, how many there
were, and the peaks. -/
structure PeakState where
  seen : ℕ × UInt32 × UInt32 → Bool := fun _ => false
  counts : ℕ × UInt32 → ℕ := fun _ => 0
  peakSessions : List ℕ
  peakEvent : List UInt32

/-- A process is on an event in a bucket. The first event to reach a count keeps the bucket. -/
def PeakState.enter (st : PeakState) (event pid : UInt32) (b : ℕ) : PeakState :=
  if st.seen (b, event, pid) then st
  else
    let cnt := st.counts (b, event) + 1
    let higher := st.peakSessions.getD b 0 < cnt
    { seen := Function.update st.seen (b, event, pid) true
      counts := Function.update st.counts (b, event) cnt
      peakSessions := if higher then st.peakSessions.set b cnt else st.peakSessions
      peakEvent := if higher then st.peakEvent.set b event else st.peakEvent }

/-- A 64-bit word as an `int`: the low 32 bits, with their sign. -/
def toInt (q : ℕ) : ℤ := Int.bmod q (2 ^ 32)

/-- The buckets that an interval overlaps. An interval that ends where the window starts overlaps
none. -/
def overlappedBuckets (fromNs bucketNs numBuckets startNs endNs : ℕ) : List ℕ :=
  if endNs ≤ fromNs then []
  else
    let hi := min (toInt ((endNs - fromNs - 1) / bucketNs)) (numBuckets - 1)
    let lo := min ((startNs - fromNs) / bucketNs) numBuckets
    List.range' lo (hi + 1 - lo).toNat

/-- A record in the buckets that it overlaps. -/
def PeakState.step (fromNs bucketNs numBuckets : ℕ) (st : PeakState) (ev : TraceEvent) : PeakState :=
  (overlappedBuckets fromNs bucketNs numBuckets (ev.ts - ev.dur) ev.ts).foldl
    (fun st b => st.enter ev.oldEvent ev.pid b) st

/-! ### Bursts -/

/-- `struct burst_entry`: a process enters a wait. -/
structure BurstEntry where
  startNs : ℕ
  pid : UInt32
  eventId : UInt32
  deriving DecidableEq, Repr

/-- The entry of a record. -/
def burstEntry (ev : TraceEvent) : BurstEntry := ⟨ev.ts - ev.dur, ev.pid, ev.oldEvent⟩

/-- `cmp_burst_entry`, as an order: by event, time and process, so equal entries are the same. -/
def BurstEntry.le (x y : BurstEntry) : Bool :=
  if x.eventId ≠ y.eventId then x.eventId < y.eventId
  else if x.startNs ≠ y.startNs then x.startNs < y.startNs
  else x.pid ≤ y.pid

/-- `cmp_burst_desc`, as an order: the largest first, then by time and event. -/
def Burst.le (x y : Burst) : Bool :=
  if x.numSessions ≠ y.numSessions then y.numSessions < x.numSessions
  else if x.timestampNs ≠ y.timestampNs then x.timestampNs < y.timestampNs
  else x.eventId ≤ y.eventId

/-- `PGWT_BURST_PID_SAMPLE`. -/
def burstPidSample : ℕ := 64

/-- What does not change while bursts are looked for. -/
structure BurstConfig where
  fromNs : ℕ
  bucketNs : ℕ
  numBuckets : ℕ
  burstWindowNs : ℕ
  burstThreshold : ℤ
  fullName : UInt32 → String

/-- The sliding window over the entries of an event: it starts at `i` and is filled up to `j`, and
`win` counts its entries by process. A time that wraps around can leave `i` past `j`, so the counts
have a sign. -/
structure BurstScan where
  i : ℕ := 0
  j : ℕ := 0
  win : UInt32 → ℤ := fun _ => 0
  distinct : ℤ := 0
  perBucket : List (Option Burst)
  total : ℕ

/-- An entry comes into the window. -/
def BurstScan.add (s : BurstScan) (e : BurstEntry) : BurstScan :=
  { s with
    win := Function.update s.win e.pid (s.win e.pid + 1)
    distinct := if s.win e.pid = 0 then s.distinct + 1 else s.distinct
    j := s.j + 1 }

/-- An entry leaves the window. -/
def BurstScan.remove (s : BurstScan) (e : BurstEntry) : BurstScan :=
  { s with
    win := Function.update s.win e.pid (s.win e.pid - 1)
    distinct := if s.win e.pid - 1 = 0 then s.distinct - 1 else s.distinct
    i := s.i + 1 }

/-- The burst of the window, in its bucket if it is the largest there. -/
def BurstScan.report (cfg : BurstConfig) (es : List BurstEntry) (first : BurstEntry)
    (s : BurstScan) : BurstScan :=
  let b := if cfg.fromNs < first.startNs then
      min ((first.startNs - cfg.fromNs) / cfg.bucketNs) (cfg.numBuckets - 1) else 0
  let burst : Burst :=
    { timestampNs := first.startNs
      eventId := first.eventId
      eventName := cfg.fullName first.eventId
      numSessions := s.distinct
      pids := (((es.drop s.i).take (s.j - s.i)).map BurstEntry.pid).eraseDups.take burstPidSample }
  let larger := match s.perBucket.getD b none with
    | none => true
    | some old => old.numSessions < s.distinct
  { s with
    total := s.total + 1
    perBucket := if larger then s.perBucket.set b (some burst) else s.perBucket }

/-- A round of the pass: the window is filled from its first entry on, and a burst takes all the
entries of its onset with it. -/
def BurstScan.round (cfg : BurstConfig) (es : List BurstEntry) (first : BurstEntry)
    (s : BurstScan) : BurstScan :=
  let wend := (first.startNs + cfg.burstWindowNs) % 2 ^ 64
  let s := ((es.drop s.j).takeWhile fun e => e.startNs ≤ wend).foldl BurstScan.add s
  if cfg.burstThreshold ≤ s.distinct then
    let onset := (es.drop (s.i + 1)).takeWhile fun e => e.startNs ≤ wend
    (first :: onset).foldl BurstScan.remove (s.report cfg es first)
  else s.remove first

/-- The pass over the entries of an event; every round goes on by an entry at least. -/
def BurstScan.run (cfg : BurstConfig) (es : List BurstEntry) : ℕ → BurstScan → BurstScan
  | 0, s => s
  | fuel + 1, s =>
    match es[s.i]? with
    | none => s
    | some first => run cfg es fuel (s.round cfg es first)

/-- The pass over the entries of all events. -/
def scanBursts (cfg : BurstConfig) (entries : List BurstEntry) : List (Option Burst) × ℕ :=
  (entries.splitBy fun x y => x.eventId == y.eventId).foldl
    (fun acc es =>
      let s := BurstScan.run cfg es es.length { perBucket := acc.1, total := acc.2 }
      (s.perBucket, s.total))
    (List.replicate cfg.numBuckets none, 0)

/-! ### The computation -/

/-- The length of a bucket. -/
def concurrencyBucketNs (fromNs toNs numBuckets : ℕ) : ℕ := max ((toNs - fromNs) / numBuckets) 1

/-- Both phases, for records that qualify. -/
def concurrencyOf (fullName : UInt32 → String) (fromNs toNs numBuckets burstWindowNs : ℕ)
    (burstThreshold : ℤ) (qualified : List TraceEvent) : ConcurrencyResult :=
  let bucketNs := concurrencyBucketNs fromNs toNs numBuckets
  let peaks := qualified.foldl (PeakState.step fromNs bucketNs numBuckets)
    { peakSessions := List.replicate numBuckets 0, peakEvent := List.replicate numBuckets 0 }
  let entries := (qualified.map burstEntry).mergeSort BurstEntry.le
  let found := scanBursts ⟨fromNs, bucketNs, numBuckets, burstWindowNs, burstThreshold, fullName⟩
    entries
  { peakSessions := peaks.peakSessions
    peakEvent := peaks.peakEvent
    numBuckets := numBuckets
    bucketNs := bucketNs
    bursts := (found.1.filterMap id).mergeSort Burst.le
    burstsTotal := found.2 }

/-- `pgwt_compute_concurrency`. -/
def computeConcurrency (mask : UInt32) (fullName : UInt32 → String) (events : List TraceEvent)
    (f : Filter) (fromNs toNs : UInt64) (numBuckets : ℤ) (burstWindowNs : UInt64)
    (burstThreshold : ℤ) : ConcurrencyResult :=
  if events = [] ∨ toNs.toNat ≤ fromNs.toNat ∨ numBuckets ≤ 0 then {}
  else concurrencyOf fullName fromNs.toNat toNs.toNat numBuckets.toNat burstWindowNs.toNat
    burstThreshold (events.filter (concurrencyQualifies mask f fromNs.toNat toNs.toNat))

/-! ### What the result depends on -/

/-- The records agree in what the computation reads of a record that qualifies. -/
structure SameWait (ev ev' : TraceEvent) : Prop where
  ts : ev'.ts = ev.ts
  dur : ev'.dur = ev.dur
  pid : ev'.pid = ev.pid
  oldEvent : ev'.oldEvent = ev.oldEvent

theorem SameWait.step_eq {ev ev' : TraceEvent} (h : SameWait ev ev')
    (fromNs bucketNs numBuckets : ℕ) (st : PeakState) :
    st.step fromNs bucketNs numBuckets ev' = st.step fromNs bucketNs numBuckets ev := by
  rw [PeakState.step, PeakState.step, h.ts, h.dur, h.pid, h.oldEvent]

theorem SameWait.burstEntry_eq {ev ev' : TraceEvent} (h : SameWait ev ev') :
    burstEntry ev' = burstEntry ev := by
  rw [burstEntry, burstEntry, h.ts, h.dur, h.pid, h.oldEvent]

theorem concurrencyOf_map (fullName : UInt32 → String) (fromNs toNs numBuckets burstWindowNs : ℕ)
    (burstThreshold : ℤ) {g : TraceEvent → TraceEvent} {evs : List TraceEvent}
    (hg : ∀ ev ∈ evs, SameWait ev (g ev)) :
    concurrencyOf fullName fromNs toNs numBuckets burstWindowNs burstThreshold (evs.map g) =
      concurrencyOf fullName fromNs toNs numBuckets burstWindowNs burstThreshold evs := by
  have hentries : (evs.map g).map burstEntry = evs.map burstEntry := by
    rw [List.map_map]
    exact List.map_congr_left fun ev hev => (hg ev hev).burstEntry_eq
  have hpeaks (bucketNs : ℕ) (st : PeakState) :
      (evs.map g).foldl (PeakState.step fromNs bucketNs numBuckets) st =
        evs.foldl (PeakState.step fromNs bucketNs numBuckets) st := by
    rw [List.foldl_map]
    refine List.foldl_ext _ _ _ fun st ev hev => ?_
    exact (hg ev hev).step_eq fromNs bucketNs numBuckets st
  simp only [concurrencyOf, hentries, hpeaks]

end PgWaitTracer
