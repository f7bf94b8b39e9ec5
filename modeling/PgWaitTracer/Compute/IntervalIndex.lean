import PgWaitTracer.Compute.Concurrency
import PgWaitTracer.Compute.ExecIndex
import PgWaitTracer.Lib.BinarySearch

/-!
# The wait-interval index

`src/interval_index.c` keeps the waits of a stream as intervals, one chunk for each committed block,
and answers a concurrency request from them: it selects the intervals that overlap the window, turns
them into records again and calls `pgwt_compute_concurrency`. A chunk that cannot overlap is skipped
by its bounds; in a chunk, the ends are searched for the first that reaches the window, and the scan
stops where no interval can have started in time.

Allocations succeed, and the arguments are not null.

## Main results

* `IntervalIndex.selectWalk_eq`: the walk selects the intervals that overlap the window.
* `IntervalIndex.query_eq_computeConcurrency`: an answer is the one of the plain
  computation over all records that were fed.
-/

namespace PgWaitTracer

/-! ### State -/

/-- `struct pgwt_wait_interval`. The start is the true one, clipped to no window. -/
structure WaitInterval where
  startNs : ℕ
  endNs : ℕ
  pid : UInt32
  eventId : UInt32
  deriving DecidableEq, Repr

/-- The bounds of a chunk for the prefilter. -/
structure ChunkBounds where
  minEndNs : ℕ := uint64Max
  maxEndNs : ℕ := 0
  minStartNs : ℕ := uint64Max
  maxDurationNs : ℕ := 0
  deriving DecidableEq, Repr

/-- `struct pgwt_interval_index_chunk`. -/
structure IntervalChunk where
  blockIdx : ℤ
  firstRow : ℕ
  nRows : ℕ
  blockFirstNs : ℕ
  blockLastNs : ℕ
  bounds : ChunkBounds
  deriving DecidableEq, Repr

/-- `enum pgwt_interval_index_refusal`, without `OK` and the refusals of null arguments and failed
allocations. -/
inductive IntervalIndexRefusal
  | version | unsealed | buildFailed | empty | range | badWindow | badBuckets | gap | filtered
  | noIntervals
  deriving DecidableEq, Repr

/-- `PGWT_INTERVAL_INDEX_VERSION`. -/
def intervalIndexVersion : ℕ := 2

/-- `struct pgwt_interval_index`; the defaults are those of `pgwt_interval_index_init`. -/
structure IntervalIndex where
  version : ℕ := intervalIndexVersion
  isSealed : Bool := false
  failed : Bool := false
  buildRefusal : Option IntervalIndexRefusal := none
  rows : List WaitInterval := []
  chunks : List IntervalChunk := []
  coverFromNs : ℕ := 0
  coverToNs : ℕ := 0
  nextBlockIdx : ℤ := 0
  lastEventNs : Option ℕ := none

/-! ### Building -/

/-- `pgwt_interval_index_stores`: the part of `concurrency_qualifies` without the window. -/
def intervalIndexStores (mask : UInt32) (f : Filter) (ev : TraceEvent) : Bool :=
  if !filterMatches f ev || isIdleEvent mask ev.oldEvent then false
  else if ev.oldEvent = 0 then false
  else true

/-- The interval of a record. -/
def waitInterval (ev : TraceEvent) : WaitInterval := ⟨ev.ts - ev.dur, ev.ts, ev.pid, ev.oldEvent⟩

/-- An interval in the bounds. -/
def ChunkBounds.add (b : ChunkBounds) (iv : WaitInterval) : ChunkBounds where
  minEndNs := min b.minEndNs iv.endNs
  maxEndNs := max b.maxEndNs iv.endNs
  minStartNs := min b.minStartNs iv.startNs
  maxDurationNs := max b.maxDurationNs (iv.endNs - iv.startNs)

/-- `chunk_bounds_from_rows`. -/
def chunkBoundsFromRows (rows : List WaitInterval) (firstRow nRows : ℕ) : ChunkBounds :=
  ((rows.drop firstRow).take nRows).foldl ChunkBounds.add {}

namespace IntervalIndex

/-- `fail_build`: the first failure is kept, and the index never answers again. -/
def failBuild (idx : IntervalIndex) (why : IntervalIndexRefusal) : IntervalIndex :=
  { idx with
    failed := true
    buildRefusal := idx.buildRefusal.or (some why)
    isSealed := false }

/-- The loop of `pgwt_interval_index_add_block`. The result says whether every record was
accepted. -/
def addEvents (mask : UInt32) (firstNs lastNs : ℕ) : List WaitInterval → Option ℕ →
    List TraceEvent → List WaitInterval × Option ℕ × Bool
  | rows, last, [] => (rows, last, true)
  | rows, last, ev :: evs =>
    if ev.ts < firstNs ∨ lastNs < ev.ts then (rows, last, false)
    else if last.any fun t => ev.ts < t then (rows, last, false)
    else if intervalIndexStores mask {} ev then
      addEvents mask firstNs lastNs (rows ++ [waitInterval ev]) (some ev.ts) evs
    else addEvents mask firstNs lastNs rows (some ev.ts) evs

/-- What an accepted block leaves behind. -/
def appendChunk (idx : IntervalIndex) (b : IndexedBlock) (rows : List WaitInterval)
    (last : Option ℕ) : IntervalIndex :=
  { idx with
    rows := rows
    chunks := idx.chunks ++ [{
      blockIdx := b.blockIdx
      firstRow := idx.rows.length
      nRows := rows.length - idx.rows.length
      blockFirstNs := b.firstNs.toNat
      blockLastNs := b.lastNs.toNat
      bounds := chunkBoundsFromRows rows idx.rows.length (rows.length - idx.rows.length) }]
    lastEventNs := last
    coverFromNs := if idx.chunks = [] then b.firstNs.toNat else idx.coverFromNs
    coverToNs := b.lastNs.toNat
    nextBlockIdx := b.blockIdx + 1
    isSealed := false }

/-- `pgwt_interval_index_add_block`. -/
def addBlock (mask : UInt32) (idx : IntervalIndex) (b : IndexedBlock) : IntervalIndex :=
  if idx.version ≠ intervalIndexVersion then idx.failBuild .version
  else if idx.failed then idx
  else if b.blockIdx ≠ idx.nextBlockIdx then idx.failBuild .gap
  else if b.lastNs.toNat < b.firstNs.toNat then idx.failBuild .gap
  else if idx.chunks.getLast?.any fun prev => b.firstNs.toNat < prev.blockLastNs then
    idx.failBuild .gap
  else
    match addEvents mask b.firstNs.toNat b.lastNs.toNat idx.rows idx.lastEventNs b.events with
    | (rows, _, false) => { idx with rows := rows }.failBuild .gap
    | (rows, last, true) => idx.appendChunk b rows last

/-- The ends do not decrease. -/
def endsAscend (rows : List WaitInterval) : Bool :=
  (rows.zip rows.tail).all fun p => p.1.endNs ≤ p.2.endNs

/-- A chunk is within the rows, and has the bounds of its rows. -/
def chunkVerified (rows : List WaitInterval) (ch : IntervalChunk) : Bool :=
  ch.firstRow + ch.nRows ≤ rows.length && ch.bounds = chunkBoundsFromRows rows ch.firstRow ch.nRows

/-- `pgwt_interval_index_seal`. -/
def sealIndex (idx : IntervalIndex) : IntervalIndex :=
  if idx.version ≠ intervalIndexVersion then idx.failBuild .version
  else if idx.failed then idx
  else if idx.chunks = [] then { idx with isSealed := true }
  else if !endsAscend idx.rows then idx.failBuild .gap
  else if !idx.chunks.all (chunkVerified idx.rows) then idx.failBuild .gap
  else { idx with isSealed := true }

/-! ### Querying -/

/-- `is_unfiltered`. -/
def isUnfiltered (f : Filter) : Bool :=
  f.className = "" && !f.hasEventFilter && f.pid = 0 && f.queryId = 0

/-- `lower_bound_end`: the first row of `[lo, hi)` that ends at `fromNs` or later. -/
def lowerBoundEnd (rows : List WaitInterval) (lo hi fromNs : ℕ) : ℕ :=
  lo + BinarySearch.lowerBound (fun k => (rows[lo + k]?).any (·.endNs < fromNs)) (hi - lo)

/-- Where the scan of a chunk stops. The sum saturates. -/
def scanLimit (ch : IntervalChunk) (toNs : ℕ) : ℕ :=
  if uint64Max - toNs < ch.bounds.maxDurationNs then uint64Max
  else toNs + ch.bounds.maxDurationNs

/-- The rows of a chunk that are selected. -/
def selectChunk (rows : List WaitInterval) (fromNs toNs : ℕ) (ch : IntervalChunk) :
    List WaitInterval :=
  if ch.nRows = 0 ∨ ch.bounds.maxEndNs < fromNs ∨ toNs < ch.bounds.minStartNs then []
  else
    let stop := ch.firstRow + ch.nRows
    let lb := lowerBoundEnd rows ch.firstRow stop fromNs
    (((rows.drop lb).take (stop - lb)).takeWhile fun iv => iv.endNs ≤ scanLimit ch toNs).filter
      fun iv => iv.startNs ≤ toNs

/-- `select_walk`. -/
def selectWalk (idx : IntervalIndex) (fromNs toNs : ℕ) : List WaitInterval :=
  idx.chunks.flatMap (selectChunk idx.rows fromNs toNs)

/-- The record that `select_walk` makes of an interval. -/
def materialise (iv : WaitInterval) : TraceEvent where
  timestampNs := UInt64.ofNat iv.endNs
  pid := iv.pid
  oldEvent := iv.eventId
  newEvent := 0
  flags := 0
  durationNs := UInt64.ofNat (iv.endNs - iv.startNs)
  queryId := 0
  cpuNs := cpuNsUnknown

/-- `pgwt_interval_index_query`. -/
def query (mask : UInt32) (fullName : UInt32 → String) (idx : IntervalIndex) (f : Filter)
    (fromNs toNs : UInt64) (numBuckets : ℤ) (burstWindowNs : UInt64) (burstThreshold : ℤ) :
    Except IntervalIndexRefusal ConcurrencyResult :=
  if idx.version ≠ intervalIndexVersion then .error .version
  else if idx.failed then .error (idx.buildRefusal.getD .buildFailed)
  else if !idx.isSealed then .error .unsealed
  else if idx.chunks = [] then .error .empty
  else if !isUnfiltered f then .error .filtered
  else if toNs.toNat ≤ fromNs.toNat then .error .badWindow
  else if numBuckets ≤ 0 then .error .badBuckets
  else if fromNs.toNat < idx.coverFromNs ∨ idx.coverToNs < toNs.toNat then .error .range
  else if idx.selectWalk fromNs.toNat toNs.toNat = [] then .error .noIntervals
  else .ok (computeConcurrency mask fullName
    ((idx.selectWalk fromNs.toNat toNs.toNat).map materialise) f fromNs toNs numBuckets burstWindowNs
    burstThreshold)

/-! ### Selection -/

/-- The interval overlaps the window. -/
def overlaps (fromNs toNs : ℕ) (iv : WaitInterval) : Bool := fromNs ≤ iv.endNs && iv.startNs ≤ toNs

/-- The rows of a chunk. -/
def chunkRows (rows : List WaitInterval) (ch : IntervalChunk) : List WaitInterval :=
  (rows.drop ch.firstRow).take ch.nRows

/-- The order of the rows. -/
def Ascending (rows : List WaitInterval) : Prop := rows.Pairwise fun x y => x.endNs ≤ y.endNs

/-- The bounds hold for an interval. -/
structure Bounds (b : ChunkBounds) (iv : WaitInterval) : Prop where
  end_le : iv.endNs ≤ b.maxEndNs
  le_start : b.minStartNs ≤ iv.startNs
  duration_le : iv.endNs - iv.startNs ≤ b.maxDurationNs

variable {ch : IntervalChunk} {idx : IntervalIndex} {evs : List TraceEvent}
  {rows : List WaitInterval} {mask : UInt32} {iv : WaitInterval}

theorem Bounds.add {b : ChunkBounds} (h : Bounds b iv) (iv' : WaitInterval) :
    Bounds (b.add iv') iv :=
  ⟨h.end_le.trans (le_max_left _ _), (min_le_left _ _).trans h.le_start,
    h.duration_le.trans (le_max_left _ _)⟩

theorem bounds_add_self (b : ChunkBounds) (iv : WaitInterval) : Bounds (b.add iv) iv :=
  ⟨le_max_right _ _, min_le_right _ _, le_max_right _ _⟩

theorem bounds_foldl_add (b : ChunkBounds) (h : iv ∈ rows ∨ Bounds b iv) :
    Bounds (rows.foldl ChunkBounds.add b) iv := by
  induction rows generalizing b with
  | nil => exact h.resolve_left List.not_mem_nil
  | cons r rows ih =>
    refine ih (b.add r) ?_
    rcases h with h | h
    · rcases List.mem_cons.1 h with rfl | h
      · exact Or.inr (bounds_add_self b iv)
      · exact Or.inl h
    · exact Or.inr (h.add r)

theorem bounds_of_verified (h : chunkVerified rows ch = true) (hiv : iv ∈ chunkRows rows ch) :
    Bounds ch.bounds iv := by
  rw [chunkVerified, Bool.and_eq_true, decide_eq_true_eq, decide_eq_true_eq] at h
  rw [h.2, chunkBoundsFromRows]
  exact bounds_foldl_add _ (Or.inl hiv)

theorem ascending_of_endsAscend (h : endsAscend rows = true) : Ascending rows := by
  induction rows with
  | nil => exact List.Pairwise.nil
  | cons r rows ih =>
    cases rows with
    | nil => exact List.pairwise_singleton _ _
    | cons r' rows =>
      rw [endsAscend, List.tail_cons, List.zip_cons_cons, List.all_cons, Bool.and_eq_true,
        decide_eq_true_eq] at h
      have hasc : Ascending (r' :: rows) := ih h.2
      refine List.pairwise_cons.2 ⟨?_, hasc⟩
      intro x hx
      rcases List.mem_cons.1 hx with rfl | hx
      · exact h.1
      · exact h.1.trans ((List.pairwise_cons.1 hasc).1 x hx)

theorem Ascending.not_of_mem_dropWhile (h : Ascending rows) {limit : ℕ}
    (hiv : iv ∈ rows.dropWhile fun iv => iv.endNs ≤ limit) : limit < iv.endNs := by
  induction rows with
  | nil => cases hiv
  | cons r rows ih =>
    have hr := List.pairwise_cons.1 h
    rw [List.dropWhile_cons] at hiv
    split at hiv
    · exact ih hr.2 hiv
    · rename_i hlt
      have hlt : limit < r.endNs := not_le.1 fun hle => hlt (decide_eq_true hle)
      rcases List.mem_cons.1 hiv with rfl | hiv
      · exact hlt
      · exact hlt.trans_le (hr.1 iv hiv)

theorem Ascending.sublist {rows' : List WaitInterval} (h : Ascending rows)
    (hs : rows'.Sublist rows) : Ascending rows' :=
  List.Pairwise.sublist hs h

theorem filter_takeWhile_eq {α : Type*} {p q : α → Bool} {l : List α}
    (h : ∀ x ∈ l.dropWhile p, q x = false) : (l.takeWhile p).filter q = l.filter q := by
  have hnil : (l.dropWhile p).filter q = [] :=
    List.filter_eq_nil_iff.2 fun x hx => by rw [h x hx]; exact Bool.false_ne_true
  calc (l.takeWhile p).filter q = (l.takeWhile p).filter q ++ (l.dropWhile p).filter q := by
        rw [hnil, List.append_nil]
    _ = l.filter q := by rw [← List.filter_append, List.takeWhile_append_dropWhile]

theorem filter_drop_eq {α : Type*} {q : α → Bool} {l : List α} {k : ℕ}
    (h : ∀ x ∈ l.take k, q x = false) : (l.drop k).filter q = l.filter q := by
  have hnil : (l.take k).filter q = [] :=
    List.filter_eq_nil_iff.2 fun x hx => by rw [h x hx]; exact Bool.false_ne_true
  calc (l.drop k).filter q = (l.take k).filter q ++ (l.drop k).filter q := by
        rw [hnil, List.nil_append]
    _ = l.filter q := by rw [← List.filter_append, List.take_append_drop]

theorem lt_start_of_scanLimit {toNs : ℕ} (hb : Bounds ch.bounds iv) (hmax : iv.endNs ≤ uint64Max)
    (h : scanLimit ch toNs < iv.endNs) : toNs < iv.startNs := by
  have hd := hb.duration_le
  rw [scanLimit] at h
  split_ifs at h
  · omega
  · omega

theorem getElem?_chunkRows {i : ℕ} (h : (chunkRows rows ch)[i]? = some iv) :
    i < ch.nRows ∧ rows[ch.firstRow + i]? = some iv := by
  rw [chunkRows, List.getElem?_take] at h
  split_ifs at h with hi
  rw [List.getElem?_drop] at h
  exact ⟨hi, h⟩

/-- The search splits the rows of a chunk at the first that ends at `fromNs` or later. -/
theorem lowerBoundEnd_spec (h : Ascending rows) (hlen : ch.firstRow + ch.nRows ≤ rows.length)
    (fromNs : ℕ) :
    ∃ k ≤ ch.nRows, lowerBoundEnd rows ch.firstRow (ch.firstRow + ch.nRows) fromNs = ch.firstRow + k ∧
      (∀ iv ∈ (chunkRows rows ch).take k, iv.endNs < fromNs) ∧
      ∀ iv ∈ (chunkRows rows ch).drop k, fromNs ≤ iv.endNs := by
  have hget (i : ℕ) (hi : i < ch.nRows) : ∃ iv, rows[ch.firstRow + i]? = some iv :=
    ⟨_, List.getElem?_eq_getElem (by omega)⟩
  have hturns : BinarySearch.Turns (fun k => (rows[ch.firstRow + k]?).any (·.endNs < fromNs))
      ch.nRows := by
    intro i j hij hj hpj
    obtain ⟨x, hx⟩ := hget i (hij.trans_lt hj)
    obtain ⟨y, hy⟩ := hget j hj
    simp only [hy, Option.any_some, decide_eq_true_eq] at hpj
    simp only [hx, Option.any_some, decide_eq_true_eq]
    obtain ⟨hix, rfl⟩ := List.getElem?_eq_some_iff.1 hx
    obtain ⟨hjy, rfl⟩ := List.getElem?_eq_some_iff.1 hy
    rcases hij.eq_or_lt with rfl | hlt
    · exact hpj
    · exact (List.pairwise_iff_getElem.1 h _ _ hix hjy (by omega)).trans_lt hpj
  obtain ⟨hle, hbefore, hafter⟩ := BinarySearch.lowerBound_spec hturns
  refine ⟨_, hle, ?_, ?_, ?_⟩
  · rw [lowerBoundEnd, Nat.add_sub_cancel_left]
  · intro iv hiv
    obtain ⟨i, hi⟩ := List.mem_iff_getElem?.1 hiv
    rw [List.getElem?_take] at hi
    split_ifs at hi with hik
    obtain ⟨-, hrow⟩ := getElem?_chunkRows hi
    have hp := hbefore i hik
    simpa only [hrow, Option.any_some, decide_eq_true_eq] using hp
  · intro iv hiv
    obtain ⟨i, hi⟩ := List.mem_iff_getElem?.1 hiv
    rw [List.getElem?_drop] at hi
    obtain ⟨hin, hrow⟩ := getElem?_chunkRows hi
    have hp := hafter _ (Nat.le_add_right _ i) hin
    simpa only [hrow, Option.any_some, decide_eq_false_iff_not, not_lt] using hp

/-- A chunk gives its rows that overlap the window. -/
theorem selectChunk_eq (h : Ascending rows) (hmax : ∀ iv ∈ rows, iv.endNs ≤ uint64Max)
    (hch : chunkVerified rows ch = true) (fromNs toNs : ℕ) :
    selectChunk rows fromNs toNs ch = (chunkRows rows ch).filter (overlaps fromNs toNs) := by
  have hbounds {iv : WaitInterval} (hiv : iv ∈ chunkRows rows ch) := bounds_of_verified hch hiv
  have hmem {iv : WaitInterval} (hiv : iv ∈ chunkRows rows ch) : iv ∈ rows :=
    List.mem_of_mem_drop (List.mem_of_mem_take hiv)
  rw [selectChunk]
  split_ifs with hskip
  · refine (List.filter_eq_nil_iff.2 fun iv hiv => ?_).symm
    rw [overlaps, Bool.and_eq_true, decide_eq_true_eq, decide_eq_true_eq]
    rintro ⟨hfrom, hto⟩
    rcases hskip with hn | hend | hstart
    · rw [chunkRows, hn, List.take_zero] at hiv
      cases hiv
    · exact absurd (hfrom.trans (hbounds hiv).end_le) (not_le.2 hend)
    · exact absurd ((hbounds hiv).le_start.trans hto) (not_le.2 hstart)
  · have hlen : ch.firstRow + ch.nRows ≤ rows.length := by
      rw [chunkVerified, Bool.and_eq_true, decide_eq_true_eq] at hch
      exact hch.1
    obtain ⟨k, hk, hlb, hbefore, hafter⟩ := lowerBoundEnd_spec h hlen fromNs
    have hrest : (rows.drop (ch.firstRow + k)).take (ch.firstRow + ch.nRows - (ch.firstRow + k)) =
        (chunkRows rows ch).drop k := by
      rw [chunkRows, List.drop_take, List.drop_drop, Nat.add_sub_add_left]
    have hasc : Ascending (chunkRows rows ch) :=
      h.sublist ((List.take_sublist _ _).trans (List.drop_sublist _ _))
    simp only
    rw [hlb, hrest]
    calc _ = ((chunkRows rows ch).drop k).filter fun iv => iv.startNs ≤ toNs := by
          refine filter_takeWhile_eq fun iv hiv => ?_
          have hiv' : iv ∈ chunkRows rows ch :=
            List.mem_of_mem_drop ((List.dropWhile_sublist _).mem hiv)
          have hlimit := (hasc.sublist (List.drop_sublist k _)).not_of_mem_dropWhile hiv
          refine decide_eq_false (not_le.2 ?_)
          exact lt_start_of_scanLimit (hbounds hiv') (hmax iv (hmem hiv')) hlimit
      _ = ((chunkRows rows ch).drop k).filter (overlaps fromNs toNs) := by
          refine List.filter_congr fun iv hiv => ?_
          rw [overlaps, decide_eq_true (hafter iv hiv), Bool.true_and]
      _ = (chunkRows rows ch).filter (overlaps fromNs toNs) := by
          refine filter_drop_eq fun iv hiv => ?_
          rw [overlaps, decide_eq_false (not_le.2 (hbefore iv hiv)), Bool.false_and]

/-! ### Feeding -/

/-- The rows of a stream. -/
def streamRows (mask : UInt32) (evs : List TraceEvent) : List WaitInterval :=
  (evs.filter (intervalIndexStores mask {})).map waitInterval

theorem streamRows_append (mask : UInt32) (evs evs' : List TraceEvent) :
    streamRows mask (evs ++ evs') = streamRows mask evs ++ streamRows mask evs' := by
  rw [streamRows, List.filter_append, List.map_append]
  rfl

theorem addEvents_eq {firstNs lastNs : ℕ} {rows' : List WaitInterval} {last last' : Option ℕ}
    (h : addEvents mask firstNs lastNs rows last evs = (rows', last', true)) :
    rows' = rows ++ streamRows mask evs := by
  induction evs generalizing rows last with
  | nil =>
    cases h
    exact (List.append_nil _).symm
  | cons ev evs ih =>
    rw [addEvents] at h
    split_ifs at h with h₁ h₂ h₃
    · cases h
    · cases h
    · rw [ih h, List.append_assoc, streamRows, streamRows, List.filter_cons_of_pos h₃]
      rfl
    · rw [ih h, streamRows, streamRows, List.filter_cons_of_neg h₃]

/-- What an index holds that has not failed: the rows of the stream, cut into chunks; and if it is
sealed, in order and with the right bounds. -/
structure Fed (mask : UInt32) (idx : IntervalIndex) (evs : List TraceEvent) : Prop where
  rows : idx.rows = streamRows mask evs
  tiles : idx.chunks.flatMap (chunkRows idx.rows) = idx.rows
  within : ∀ ch ∈ idx.chunks, ch.firstRow + ch.nRows ≤ idx.rows.length
  verified : idx.isSealed = true → idx.chunks ≠ [] →
    Ascending idx.rows ∧ ∀ ch ∈ idx.chunks, chunkVerified idx.rows ch = true

theorem fed_init (mask : UInt32) : Fed mask {} [] := by
  refine ⟨rfl, rfl, ?_, ?_⟩
  · rintro ch ⟨⟩
  · rintro ⟨⟩

theorem chunkRows_append (h : ch.firstRow + ch.nRows ≤ rows.length) (new : List WaitInterval) :
    chunkRows (rows ++ new) ch = chunkRows rows ch := by
  rw [chunkRows, chunkRows, List.drop_append_of_le_length (by omega),
    List.take_append_of_le_length (by rw [List.length_drop]; omega)]

theorem Fed.appendChunk (h : Fed mask idx evs) (b : IndexedBlock) (last : Option ℕ) :
    Fed mask (idx.appendChunk b (idx.rows ++ streamRows mask b.events) last) (evs ++ b.events) := by
  have hlen : (idx.rows ++ streamRows mask b.events).length - idx.rows.length =
      (streamRows mask b.events).length := by
    rw [List.length_append, Nat.add_sub_cancel_left]
  refine ⟨?_, ?_, ?_, ?_⟩
  · show idx.rows ++ streamRows mask b.events = _
    rw [streamRows_append, h.rows]
  · simp only [IntervalIndex.appendChunk, List.flatMap_append, List.flatMap_cons, List.flatMap_nil,
      List.append_nil]
    have hold : idx.chunks.flatMap (chunkRows (idx.rows ++ streamRows mask b.events)) = idx.rows :=
      calc _ = idx.chunks.flatMap (chunkRows idx.rows) :=
            List.flatMap_congr fun ch hch => chunkRows_append (h.within ch hch) _
        _ = idx.rows := h.tiles
    rw [hold, chunkRows]
    simp only [hlen, List.drop_left, List.take_length]
  · intro ch hch
    rcases List.mem_append.1 hch with hch | hch
    · refine (h.within ch hch).trans ?_
      show _ ≤ (idx.rows ++ streamRows mask b.events).length
      rw [List.length_append]
      exact Nat.le_add_right _ _
    · rw [List.mem_singleton.1 hch]
      show idx.rows.length + ((idx.rows ++ _).length - idx.rows.length) ≤ (idx.rows ++ _).length
      rw [List.length_append]
      omega
  · rintro ⟨⟩

/-- An operation on the index while it is built. -/
inductive IndexOp
  | addBlock (b : IndexedBlock)
  | sealIndex

/-- The index after an operation. -/
def step (mask : UInt32) (idx : IntervalIndex) : IndexOp → IntervalIndex
  | .addBlock b => idx.addBlock mask b
  | .sealIndex => idx.sealIndex

/-- The records that an operation feeds. -/
def IndexOp.events : IndexOp → List TraceEvent
  | .addBlock b => b.events
  | .sealIndex => []

theorem fed_addBlock (h : Fed mask idx evs) (b : IndexedBlock) :
    (idx.addBlock mask b).failed = true ∨ Fed mask (idx.addBlock mask b) (evs ++ b.events) := by
  rw [IntervalIndex.addBlock]
  split_ifs with h₁ h₂
  · exact Or.inl rfl
  · exact Or.inl h₂
  · exact Or.inl rfl
  · exact Or.inl rfl
  · exact Or.inl rfl
  · split
    · exact Or.inl rfl
    · rename_i rows last hadd
      rw [addEvents_eq hadd]
      exact Or.inr (h.appendChunk b last)

theorem fed_sealIndex (h : Fed mask idx evs) :
    idx.sealIndex.failed = true ∨ Fed mask idx.sealIndex evs := by
  rw [IntervalIndex.sealIndex]
  split_ifs with h₁ h₂ h₃ h₄ h₅
  · exact Or.inl rfl
  · exact Or.inl h₂
  · exact Or.inr ⟨h.rows, h.tiles, h.within, fun _ hne => absurd h₃ hne⟩
  · exact Or.inl rfl
  · exact Or.inl rfl
  · refine Or.inr ⟨h.rows, h.tiles, h.within, fun _ _ => ⟨?_, ?_⟩⟩
    · exact ascending_of_endsAscend (by simpa using h₄)
    · exact List.all_eq_true.1 (by simpa using h₅)

theorem failed_step (h : idx.failed = true) (mask : UInt32) (op : IndexOp) :
    (idx.step mask op).failed = true := by
  cases op with
  | addBlock b =>
    rw [step, IntervalIndex.addBlock]
    split_ifs
    · rfl
    · exact h
  | sealIndex =>
    rw [step, IntervalIndex.sealIndex]
    split_ifs
    · rfl
    · exact h

theorem fed_run (mask : UInt32) (ops : List IndexOp) (idx : IntervalIndex) (evs : List TraceEvent)
    (h : idx.failed = true ∨ Fed mask idx evs) :
    (ops.foldl (step mask) idx).failed = true ∨
      Fed mask (ops.foldl (step mask) idx) (evs ++ ops.flatMap IndexOp.events) := by
  induction ops generalizing idx evs with
  | nil =>
    rw [List.flatMap_nil, List.append_nil]
    exact h
  | cons op ops ih =>
    rw [List.foldl_cons, List.flatMap_cons, ← List.append_assoc]
    refine ih (idx.step mask op) (evs ++ op.events) ?_
    rcases h with h | h
    · exact Or.inl (failed_step h mask op)
    · cases op with
      | addBlock b => exact fed_addBlock h b
      | sealIndex =>
        rw [IndexOp.events, List.append_nil]
        exact fed_sealIndex h

/-! ### Answers -/

theorem filterMatches_of_isUnfiltered {f : Filter} (h : isUnfiltered f = true) (ev : TraceEvent) :
    filterMatches f ev = (!isMarker ev.oldEvent && !decide (ev.ts < ev.dur)) := by
  simp only [isUnfiltered, Bool.and_eq_true, decide_eq_true_eq, Bool.not_eq_true'] at h
  obtain ⟨⟨⟨hc, he⟩, hp⟩, hq⟩ := h
  rw [filterMatches, hc, he, hp, hq]
  simp only [ne_eq, not_true_eq_false, false_and, Bool.false_eq_true, if_false]
  split_ifs with h₁ h₂
  · rw [h₁]
    rfl
  · rw [decide_eq_true h₂, Bool.not_true, Bool.and_false]
  · rw [decide_eq_false h₂, Bool.eq_false_iff.2 h₁]
    rfl

theorem concurrencyQualifies_eq {f : Filter} (h : isUnfiltered f = true) (mask : UInt32)
    (fromNs toNs : ℕ) (ev : TraceEvent) :
    concurrencyQualifies mask f fromNs toNs ev =
      (overlaps fromNs toNs (waitInterval ev) && intervalIndexStores mask {} ev) := by
  have hf : filterMatches f ev = filterMatches {} ev := by
    rw [filterMatches_of_isUnfiltered h, filterMatches_of_isUnfiltered (f := {}) rfl]
  have hov : overlaps fromNs toNs (waitInterval ev) =
      decide (fromNs ≤ ev.ts ∧ ev.ts - ev.dur ≤ toNs) := (Bool.decide_and _ _).symm
  rw [concurrencyQualifies, intervalIndexStores, hf, hov]
  split_ifs with h₁ h₂ h₃ h₄
  · rw [Bool.and_false]
  · rw [Bool.and_false]
  · rw [Bool.and_true, decide_eq_false (by omega)]
  · rw [Bool.and_true, decide_eq_false (by omega)]
  · rw [Bool.and_true, decide_eq_true (by omega)]

theorem sameWait_materialise {ev : TraceEvent} (h : intervalIndexStores mask {} ev = true) :
    SameWait ev (materialise (waitInterval ev)) := by
  have hdur : ev.dur ≤ ev.ts := by
    rw [intervalIndexStores, filterMatches_of_isUnfiltered (f := {}) rfl] at h
    by_contra hlt
    rw [decide_eq_true (not_le.1 hlt)] at h
    simp at h
  refine ⟨?_, ?_, rfl, rfl⟩
  · show (UInt64.ofNat ev.timestampNs.toNat).toNat = ev.ts
    rw [UInt64.ofNat_toNat]
    rfl
  · show (UInt64.ofNat (ev.ts - (ev.ts - ev.dur))).toNat = ev.dur
    rw [Nat.sub_sub_self hdur]
    show (UInt64.ofNat ev.durationNs.toNat).toNat = ev.dur
    rw [UInt64.ofNat_toNat]
    rfl

theorem qualifies_eq_of_sameWait {ev ev' : TraceEvent} (hs : SameWait ev ev') {f : Filter}
    (h : isUnfiltered f = true) (mask : UInt32) (fromNs toNs : ℕ) :
    concurrencyQualifies mask f fromNs toNs ev' = concurrencyQualifies mask f fromNs toNs ev := by
  rw [concurrencyQualifies, concurrencyQualifies, filterMatches_of_isUnfiltered h,
    filterMatches_of_isUnfiltered h, hs.ts, hs.dur, hs.oldEvent]

theorem selectWalk_eq (h : Fed mask idx evs) (hsealed : idx.isSealed = true) (hne : idx.chunks ≠ [])
    {f : Filter} (hf : isUnfiltered f = true) (fromNs toNs : ℕ) :
    idx.selectWalk fromNs toNs =
      (evs.filter (concurrencyQualifies mask f fromNs toNs)).map waitInterval := by
  obtain ⟨hasc, hver⟩ := h.verified hsealed hne
  have hmax : ∀ iv ∈ idx.rows, iv.endNs ≤ uint64Max := by
    intro iv hiv
    rw [h.rows, streamRows] at hiv
    obtain ⟨ev, -, rfl⟩ := List.mem_map.1 hiv
    exact Nat.le_pred_of_lt ev.timestampNs.toNat_lt
  calc idx.selectWalk fromNs toNs
      = idx.chunks.flatMap fun ch => (chunkRows idx.rows ch).filter (overlaps fromNs toNs) :=
        List.flatMap_congr fun ch hch => selectChunk_eq hasc hmax (hver ch hch) fromNs toNs
    _ = (idx.chunks.flatMap (chunkRows idx.rows)).filter (overlaps fromNs toNs) := by
        rw [List.filter_flatMap]
    _ = (streamRows mask evs).filter (overlaps fromNs toNs) := by rw [h.tiles, h.rows]
    _ = _ := by
        rw [streamRows, List.filter_map, List.filter_filter]
        refine congrArg (List.map waitInterval) (List.filter_congr fun ev _ => ?_)
        rw [concurrencyQualifies_eq hf]
        rfl

/-- **The index answers as the plain computation.** Whatever blocks were fed and however often the
index was sealed on the way, an answer is the one of `pgwt_compute_concurrency` over all records of
the blocks, with the same arguments. -/
theorem query_eq_computeConcurrency (mask : UInt32) (fullName : UInt32 → String)
    (ops : List IndexOp) (f : Filter) (fromNs toNs : UInt64) (numBuckets : ℤ) (burstWindowNs : UInt64)
    (burstThreshold : ℤ) (r : ConcurrencyResult)
    (h : (ops.foldl (step mask) {}).query mask fullName f fromNs toNs numBuckets burstWindowNs
      burstThreshold = .ok r) :
    r = computeConcurrency mask fullName (ops.flatMap IndexOp.events) f fromNs toNs numBuckets
      burstWindowNs burstThreshold := by
  have hrun := fed_run mask ops {} [] (Or.inr (fed_init mask))
  rw [List.nil_append] at hrun
  generalize ops.foldl (step mask) {} = idx at h hrun
  generalize ops.flatMap IndexOp.events = evs at hrun ⊢
  rw [query] at h
  split_ifs at h with h₁ h₂ h₃ h₄ h₅ h₆ h₇ h₈ h₉
  have hsealed : idx.isSealed = true := by simpa using h₃
  have hf : isUnfiltered f = true := by simpa using h₅
  have hsel := selectWalk_eq (hrun.resolve_left h₂) hsealed h₄ hf fromNs.toNat toNs.toNat
  rw [hsel, List.map_map] at h
  rw [hsel, List.map_eq_nil_iff] at h₉
  generalize hq : evs.filter (concurrencyQualifies mask f fromNs.toNat toNs.toNat) = quals at h h₉
  have hsame : ∀ ev ∈ quals, SameWait ev (materialise (waitInterval ev)) := by
    intro ev hev
    rw [← hq] at hev
    have hqual := (List.mem_filter.1 hev).2
    rw [concurrencyQualifies_eq hf, Bool.and_eq_true] at hqual
    exact sameWait_materialise hqual.2
  have hkeep : (quals.map (materialise ∘ waitInterval)).filter
      (concurrencyQualifies mask f fromNs.toNat toNs.toNat) =
        quals.map (materialise ∘ waitInterval) := by
    refine List.filter_eq_self.2 fun ev' hev' => ?_
    obtain ⟨ev, hev, rfl⟩ := List.mem_map.1 hev'
    rw [Function.comp_apply, qualifies_eq_of_sameWait (hsame ev hev) hf]
    rw [← hq] at hev
    exact (List.mem_filter.1 hev).2
  have hevs : evs ≠ [] := by
    rintro rfl
    exact h₉ hq.symm
  rw [← Except.ok.inj h, computeConcurrency, computeConcurrency, if_neg, if_neg, hkeep, hq]
  · exact concurrencyOf_map fullName _ _ _ _ _ hsame
  · exact fun hor => hor.elim hevs (not_or.2 ⟨h₆, h₇⟩)
  · rw [List.map_eq_nil_iff]
    exact fun hor => hor.elim h₉ (not_or.2 ⟨h₆, h₇⟩)

/-- Two processes wait on one event; the wait of the second goes on past the window `[120, 200]`. -/
def twoWaits : IndexedBlock where
  blockIdx := 0
  firstNs := 100
  lastNs := 300
  events := [⟨150, 1, 0x0A000001, 0, 0, 100, 0, 0⟩, ⟨260, 2, 0x0A000001, 0, 0, 120, 0, 0⟩]

theorem query_eq_computeConcurrency_twoWaits :
    ∃ r, (([.addBlock twoWaits, .sealIndex] : List IndexOp).foldl (step 0) {}).query 0 (fun _ => "")
        {} 120 200 4 30 2 = .ok r ∧
      r = computeConcurrency 0 (fun _ => "") twoWaits.events {} 120 200 4 30 2 := by
  have hok : ((([.addBlock twoWaits, .sealIndex] : List IndexOp).foldl (step 0) {}).query 0
      (fun _ => "") {} 120 200 4 30 2).toBool = true := by decide +kernel
  cases hq : (([.addBlock twoWaits, .sealIndex] : List IndexOp).foldl (step 0) {}).query 0
      (fun _ => "") {} 120 200 4 30 2 with
  | error e =>
    rw [hq] at hok
    cases hok
  | ok r => exact ⟨r, rfl, query_eq_computeConcurrency 0 _ _ {} 120 200 4 30 2 r hq⟩

end IntervalIndex

end PgWaitTracer
