import PgWaitTracer.Compute.Executions

/-!
# The executions index

`src/exec_index.c` builds the boundaries of executions once per committed block, carries open
executions across blocks, and answers a window from the index alone. Its marker handling is written
independently of `pgwt_compute_executions`.

## Main results

* `ExecIndex.Fed`: what the index holds after the blocks of a stream: the rows of the
  whole stream, tiled by the chunks.
* `ExecIndex.query_rows`: the prefilter drops no retained row, so a query returns the
  retained rows of the index in order.
-/

namespace PgWaitTracer

/-! ### State -/

/-- `struct pgwt_exec_index_entry`: one execution, independent of any window. -/
structure ExecIndexEntry where
  pid : UInt32
  queryId : UInt64
  startNs : ℕ
  closeNs : ℕ
  closeQueryId : UInt64
  planStartNs : ℕ
  planEndNs : ℕ
  hasPlan : Bool
  closed : Bool
  closeInferred : Bool
  deriving DecidableEq, Repr

/-- `struct exec_pid_carry`, innermost row first. -/
structure ExecPidCarry where
  openRows : List ℕ := []
  plan : PlanCarry := {}
  deriving DecidableEq, Repr

/-- The rows of an index and the per-process state carried across blocks. -/
structure ExecCore where
  rows : List ExecIndexEntry := []
  pids : UInt32 → ExecPidCarry := fun _ => {}

/-- `struct pgwt_exec_index_chunk`: the rows opened in one block, and the bounds that
`pgwt_exec_index_seal` computes for them. -/
structure ExecIndexChunk where
  blockIdx : ℤ
  firstRow : ℕ
  nRows : ℕ
  blockFirstNs : ℕ
  blockLastNs : ℕ
  minStartNs : ℕ := 0
  maxEndNs : ℕ := 0
  deriving DecidableEq, Repr

/-- `enum pgwt_exec_index_refusal`, without `OK` and the refusals of null arguments and failed
allocations. -/
inductive ExecIndexRefusal
  | version | unsealed | buildFailed | empty | range | badWindow | gap
  deriving DecidableEq, Repr

/-- `PGWT_EXEC_INDEX_VERSION`. -/
def execIndexVersion : ℕ := 1

/-- `UINT64_MAX`. -/
def uint64Max : ℕ := 2 ^ 64 - 1

/-- `struct pgwt_exec_index`; the defaults are those of `pgwt_exec_index_init`. -/
structure ExecIndex where
  version : ℕ := execIndexVersion
  isSealed : Bool := false
  failed : Bool := false
  buildRefusal : Option ExecIndexRefusal := none
  core : ExecCore := {}
  chunks : List ExecIndexChunk := []
  coverFromNs : ℕ := 0
  coverToNs : ℕ := 0
  nextBlockIdx : ℤ := 0
  lastEventNs : Option ℕ := none

/-! ### Building -/

namespace ExecCore

/-- `EXEC_START`: append an open row and push it. -/
def execStart (c : ExecCore) (ev : TraceEvent) : ExecCore :=
  let st := c.pids ev.pid
  let attached := st.plan.attaches ev.queryId
  { rows := c.rows ++ [{
      pid := ev.pid
      queryId := ev.queryId
      startNs := ev.ts
      closeNs := 0
      closeQueryId := 0
      planStartNs := if attached then st.plan.readyPlanStartNs else 0
      planEndNs := if attached then st.plan.readyPlanEndNs else 0
      hasPlan := attached
      closed := false
      closeInferred := false }]
    pids := Function.update c.pids ev.pid
      { openRows := c.rows.length :: st.openRows, plan := st.plan.consume } }

/-- What an `EXEC_END` does to the row it pops. -/
def close (ev : TraceEvent) (e : ExecIndexEntry) : ExecIndexEntry :=
  if e.startNs ≤ ev.ts then
    { e with closed := true, closeNs := ev.ts, closeInferred := false, closeQueryId := ev.queryId }
  else e

/-- What a `CMD_END` does to every row it pops. -/
def closeInferred (ev : TraceEvent) (e : ExecIndexEntry) : ExecIndexEntry :=
  if !e.closed ∧ e.startNs ≤ ev.ts then
    { e with closed := true, closeNs := ev.ts, closeInferred := true, closeQueryId := 0 }
  else e

/-- `EXEC_END`. -/
def execEnd (c : ExecCore) (ev : TraceEvent) : ExecCore :=
  let st := c.pids ev.pid
  match st.openRows with
  | [] => c
  | i :: stack =>
    { rows := c.rows.modify i (close ev)
      pids := Function.update c.pids ev.pid { st with openRows := stack } }

/-- `CMD_END`. -/
def cmdEnd (c : ExecCore) (ev : TraceEvent) : ExecCore :=
  let st := c.pids ev.pid
  { rows := st.openRows.foldl (fun rows i => rows.modify i (closeInferred ev)) c.rows
    pids := Function.update c.pids ev.pid { openRows := [], plan := st.plan.clear } }

/-- The marker state machine: every record other than the five markers is inert. -/
def step (c : ExecCore) (ev : TraceEvent) : ExecCore :=
  let st := c.pids ev.pid
  if ev.oldEvent = markerPlanStart then
    { c with pids := Function.update c.pids ev.pid { st with plan := st.plan.start ev } }
  else if ev.oldEvent = markerPlanEnd then
    { c with pids := Function.update c.pids ev.pid { st with plan := st.plan.finish ev } }
  else if ev.oldEvent = markerExecStart then c.execStart ev
  else if ev.oldEvent = markerExecEnd then c.execEnd ev
  else if ev.oldEvent = markerCmdEnd then c.cmdEnd ev
  else c

end ExecCore

/-- A committed block as it is fed to the index: its number, its header bounds and its records. -/
structure IndexedBlock where
  blockIdx : ℤ
  firstNs : UInt64
  lastNs : UInt64
  events : List TraceEvent

namespace ExecIndex

/-- `fail_build`: the first failure is kept, and the index never answers again. -/
def failBuild (idx : ExecIndex) (why : ExecIndexRefusal) : ExecIndex :=
  { idx with
    failed := true
    buildRefusal := idx.buildRefusal.or (some why)
    isSealed := false }

/-- The loop of `pgwt_exec_index_add_block`: records stay within the bounds of their block and in
stream order. The result says whether every record was accepted. -/
def addEvents (firstNs lastNs : ℕ) : ExecCore → Option ℕ → List TraceEvent →
    ExecCore × Option ℕ × Bool
  | c, last, [] => (c, last, true)
  | c, last, ev :: evs =>
    if ev.ts < firstNs ∨ lastNs < ev.ts then (c, last, false)
    else if last.any fun t => ev.ts < t then (c, last, false)
    else addEvents firstNs lastNs (c.step ev) (some ev.ts) evs

/-- What an accepted block leaves behind: a chunk for the rows it opened, and a coverage that
reaches its end. -/
def appendChunk (idx : ExecIndex) (b : IndexedBlock) (c : ExecCore) (last : Option ℕ) :
    ExecIndex :=
  { idx with
    core := c
    chunks := idx.chunks ++ [{
      blockIdx := b.blockIdx
      firstRow := idx.core.rows.length
      nRows := c.rows.length - idx.core.rows.length
      blockFirstNs := b.firstNs.toNat
      blockLastNs := b.lastNs.toNat }]
    lastEventNs := last
    coverFromNs := if idx.chunks = [] then b.firstNs.toNat else idx.coverFromNs
    coverToNs := b.lastNs.toNat
    nextBlockIdx := b.blockIdx + 1
    isSealed := false }

/-- `pgwt_exec_index_add_block`; the result says whether the block was accepted. -/
def addBlock (idx : ExecIndex) (b : IndexedBlock) : ExecIndex × Bool :=
  if idx.version ≠ execIndexVersion then (idx.failBuild .version, false)
  else if idx.failed then (idx, false)
  else if b.blockIdx ≠ idx.nextBlockIdx then (idx.failBuild .gap, false)
  else if b.lastNs.toNat < b.firstNs.toNat then (idx.failBuild .gap, false)
  else if idx.chunks.getLast?.any fun prev =>
      b.firstNs.toNat < prev.blockFirstNs || b.lastNs.toNat < prev.blockLastNs then
    (idx.failBuild .gap, false)
  else
    match addEvents b.firstNs.toNat b.lastNs.toNat idx.core idx.lastEventNs b.events with
    | (c, _, false) => ({ idx with core := c }.failBuild .gap, false)
    | (c, last, true) => (idx.appendChunk b c last, true)

/-- Feed blocks in order; `none` once a block is not accepted. -/
def addBlocks : ExecIndex → List IndexedBlock → Option ExecIndex
  | idx, [] => some idx
  | idx, b :: bs => if (idx.addBlock b).2 then addBlocks (idx.addBlock b).1 bs else none

/-- The rows of a chunk. -/
def chunkRows (rows : List ExecIndexEntry) (ch : ExecIndexChunk) : List ExecIndexEntry :=
  (rows.drop ch.firstRow).take ch.nRows

/-- The prefilter bounds of a chunk; a row still open at the end of the capture meets every later
window. -/
def sealChunk (rows : List ExecIndexEntry) (ch : ExecIndexChunk) : ExecIndexChunk :=
  if ch.nRows = 0 then { ch with minStartNs := uint64Max, maxEndNs := 0 }
  else
    { ch with
      minStartNs := (chunkRows rows ch).foldl (fun mn e => min mn e.startNs) uint64Max
      maxEndNs := (chunkRows rows ch).foldl
        (fun mx e => max mx (if e.closed then e.closeNs else uint64Max)) 0 }

/-- `pgwt_exec_index_seal`. -/
def sealIndex (idx : ExecIndex) : ExecIndex :=
  if idx.version ≠ execIndexVersion then idx.failBuild .version
  else if idx.failed then idx
  else { idx with chunks := idx.chunks.map (sealChunk idx.core.rows), isSealed := true }

/-! ### Querying -/

/-- `pgwt_exec_index_retains`. -/
def retains (startNs endNs : ℕ) (inProgress : Bool) (fromNs toNs : ℕ) : Bool :=
  if toNs < startNs then false
  else if !inProgress && endNs < fromNs then false
  else true

/-- A row of the index as a window sees it: a close past the window is not one, and the counters
are poisoned. -/
def entryRow (fromNs toNs : ℕ) (e : ExecIndexEntry) : Execution :=
  let inProgress := !e.closed || toNs < e.closeNs
  { pid := e.pid
    queryId := if e.queryId = 0 ∧ inProgress = false ∧ e.closeInferred = false then e.closeQueryId
      else e.queryId
    startNs := e.startNs
    endNs := if inProgress then 0 else e.closeNs
    planStartNs := e.planStartNs
    planEndNs := e.planEndNs
    hasPlan := e.hasPlan
    inProgress := inProgress
    endInferred := if inProgress then false else e.closeInferred
    startedBeforeWindow := e.startNs < fromNs
    matchesEventFilter := -1
    nEvents := -1
    nWorkers := -1 }

/-- The row of an entry that a window retains. -/
def retainedRow (fromNs toNs : ℕ) (e : ExecIndexEntry) : Option Execution :=
  let r := entryRow fromNs toNs e
  if retains r.startNs r.endNs r.inProgress fromNs toNs then some r else none

/-- `struct pgwt_exec_index_query_result` of an answered query. -/
structure QueryResult where
  rows : List Execution
  chunksTotal : ℕ
  chunksScanned : ℕ
  rowsExamined : ℕ

/-- The prefilter of `pgwt_exec_index_query`. -/
def scans (fromNs toNs : ℕ) (ch : ExecIndexChunk) : Bool :=
  !(ch.nRows = 0 || toNs < ch.minStartNs || ch.maxEndNs < fromNs)

/-- `pgwt_exec_index_query`. -/
def query (idx : ExecIndex) (fromNs toNs : UInt64) : Except ExecIndexRefusal QueryResult :=
  if idx.version ≠ execIndexVersion then .error .version
  else if idx.failed then .error (idx.buildRefusal.getD .buildFailed)
  else if !idx.isSealed then .error .unsealed
  else if idx.chunks = [] then .error .empty
  else if toNs.toNat < fromNs.toNat then .error .badWindow
  else if fromNs.toNat < idx.coverFromNs ∨ idx.coverToNs < toNs.toNat then .error .range
  else
    let scanned := idx.chunks.filter (scans fromNs.toNat toNs.toNat)
    .ok
      { rows := scanned.flatMap fun ch =>
          (chunkRows idx.core.rows ch).filterMap (retainedRow fromNs.toNat toNs.toNat)
        chunksTotal := idx.chunks.length
        chunksScanned := scanned.length
        rowsExamined := (scanned.map (·.nRows)).sum }

/-! ### Chunks tile the rows -/

/-- The chunks cut the rows from `a` to `b` into consecutive parts. -/
def Tiles : ℕ → List ExecIndexChunk → ℕ → Prop
  | a, [], b => a = b
  | a, ch :: chs, b => ch.firstRow = a ∧ Tiles (a + ch.nRows) chs b

theorem Tiles.append (ch : ExecIndexChunk) : {a b : ℕ} → {chs : List ExecIndexChunk} →
    Tiles a chs b → ch.firstRow = b → Tiles a (chs ++ [ch]) (b + ch.nRows)
  | _, _, [], h, hch => by
    obtain rfl : _ = _ := h
    exact ⟨hch, rfl⟩
  | _, _, _ :: _, h, hch => ⟨h.1, h.2.append ch hch⟩

theorem Tiles.le : {a b : ℕ} → {chs : List ExecIndexChunk} → Tiles a chs b → a ≤ b
  | _, _, [], h => le_of_eq h
  | _, _, _ :: _, h => le_trans (Nat.le_add_right _ _) h.2.le

theorem Tiles.flatMap_chunkRows (rows : List ExecIndexEntry) : {a b : ℕ} →
    {chs : List ExecIndexChunk} → Tiles a chs b →
      chs.flatMap (chunkRows rows) = (rows.drop a).take (b - a)
  | a, b, [], h => by
    obtain rfl : a = b := h
    simp
  | a, b, ch :: chs, h => by
    have ih := h.2.flatMap_chunkRows rows
    have hle := h.2.le
    have hsplit : b - a = ch.nRows + (b - (a + ch.nRows)) := by omega
    rw [List.flatMap_cons, ih, chunkRows, h.1, hsplit, List.take_add, List.drop_drop]

theorem sealChunk_rows (rows : List ExecIndexEntry) (ch : ExecIndexChunk) :
    (sealChunk rows ch).firstRow = ch.firstRow ∧ (sealChunk rows ch).nRows = ch.nRows := by
  unfold sealChunk
  split_ifs <;> exact ⟨rfl, rfl⟩

theorem chunkRows_sealChunk (rows : List ExecIndexEntry) (ch : ExecIndexChunk) :
    chunkRows rows (sealChunk rows ch) = chunkRows rows ch := by
  obtain ⟨hfirst, hn⟩ := sealChunk_rows rows ch
  rw [chunkRows, chunkRows, hfirst, hn]

/-! ### The prefilter -/

theorem foldl_min_le (init : ℕ) : (l : List ExecIndexEntry) → (e : ExecIndexEntry) → e ∈ l →
    l.foldl (fun mn e => min mn e.startNs) init ≤ e.startNs
  | x :: l, e, he => by
    rw [List.foldl_cons]
    have hinit : ∀ (l : List ExecIndexEntry) (m : ℕ),
        l.foldl (fun mn e => min mn e.startNs) m ≤ m := by
      intro l
      induction l with
      | nil => exact fun m => le_refl m
      | cons y l ih => exact fun m => le_trans (ih _) (min_le_left _ _)
    rcases List.mem_cons.1 he with rfl | he
    · exact le_trans (hinit l _) (min_le_right _ _)
    · exact foldl_min_le _ l e he

theorem le_foldl_max (g : ExecIndexEntry → ℕ) (init : ℕ) : (l : List ExecIndexEntry) →
    (e : ExecIndexEntry) → e ∈ l → g e ≤ l.foldl (fun mx e => max mx (g e)) init
  | x :: l, e, he => by
    rw [List.foldl_cons]
    have hinit : ∀ (l : List ExecIndexEntry) (m : ℕ),
        m ≤ l.foldl (fun mx e => max mx (g e)) m := by
      intro l
      induction l with
      | nil => exact fun m => le_refl m
      | cons y l ih => exact fun m => le_trans (le_max_left _ _) (ih _)
    rcases List.mem_cons.1 he with rfl | he
    · exact le_trans (le_max_right _ _) (hinit l _)
    · exact le_foldl_max g _ l e he

/-- **The prefilter is safe.** A chunk it skips has no row that the window retains. -/
theorem filterMap_eq_nil_of_not_scans {rows : List ExecIndexEntry} {ch : ExecIndexChunk}
    {fromNs toNs : ℕ} (hft : fromNs ≤ toNs) (hto : toNs ≤ uint64Max)
    (h : scans fromNs toNs (sealChunk rows ch) = false) :
    (chunkRows rows ch).filterMap (retainedRow fromNs toNs) = [] := by
  by_cases hn : ch.nRows = 0
  · simp [chunkRows, hn]
  rw [scans, (sealChunk_rows rows ch).2, sealChunk, if_neg hn] at h
  simp only [hn, decide_false, Bool.false_or, Bool.not_eq_false', Bool.or_eq_true,
    decide_eq_true_eq] at h
  refine List.filterMap_eq_nil_iff.2 fun e he => ?_
  rcases h with hmin | hmax
  · have hstart : toNs < e.startNs := lt_of_lt_of_le hmin (foldl_min_le _ _ e he)
    simp [retainedRow, entryRow, retains, hstart]
  · -- every row of the chunk is closed before the window
    have hend := lt_of_le_of_lt
      (le_foldl_max (fun e => if e.closed then e.closeNs else uint64Max) 0 _ e he) hmax
    have hclosed : e.closed = true := by
      by_contra hopen
      rw [Bool.not_eq_true] at hopen
      simp only [hopen, Bool.false_eq_true, if_false] at hend
      omega
    simp only [hclosed, if_true] at hend
    have hpast : ¬toNs < e.closeNs := by omega
    simp [retainedRow, entryRow, retains, hclosed, hpast, hend]

theorem flatMap_filter_scans (rows : List ExecIndexEntry) {fromNs toNs : ℕ}
    (hft : fromNs ≤ toNs) (hto : toNs ≤ uint64Max) : (chs : List ExecIndexChunk) →
    ((chs.map (sealChunk rows)).filter (scans fromNs toNs)).flatMap
        (fun ch => (chunkRows rows ch).filterMap (retainedRow fromNs toNs)) =
      (chs.flatMap (chunkRows rows)).filterMap (retainedRow fromNs toNs)
  | [] => rfl
  | ch :: chs => by
    have ih := flatMap_filter_scans rows hft hto chs
    rw [List.map_cons, List.flatMap_cons, List.filterMap_append, ← ih]
    cases hs : scans fromNs toNs (sealChunk rows ch) with
    | true => rw [List.filter_cons_of_pos hs, List.flatMap_cons, chunkRows_sealChunk]
    | false =>
      rw [List.filter_cons_of_neg (by rw [hs]; exact Bool.false_ne_true),
        filterMap_eq_nil_of_not_scans hft hto hs, List.nil_append]

/-! ### What feeding blocks builds -/

/-- The index after the blocks of `stream`: the rows of the whole stream, tiled by the chunks, with
the records in order. -/
structure Fed (idx : ExecIndex) (stream : List TraceEvent) : Prop where
  core : idx.core = stream.foldl ExecCore.step {}
  sorted : stream.Pairwise fun x y => x.ts ≤ y.ts
  last : ∀ ev ∈ stream, ∃ t, idx.lastEventNs = some t ∧ ev.ts ≤ t
  tiles : Tiles 0 idx.chunks idx.core.rows.length
  version : idx.version = execIndexVersion
  failed : idx.failed = false

theorem length_foldl_modify (g : ExecIndexEntry → ExecIndexEntry) : (is : List ℕ) →
    (rows : List ExecIndexEntry) →
      (is.foldl (fun rows i => rows.modify i g) rows).length = rows.length
  | [], _ => rfl
  | i :: is, rows => by
    rw [List.foldl_cons, length_foldl_modify g is, List.length_modify]

theorem length_rows_step (c : ExecCore) (ev : TraceEvent) :
    c.rows.length ≤ (c.step ev).rows.length := by
  unfold ExecCore.step
  split_ifs
  · exact le_refl _
  · exact le_refl _
  · simp [ExecCore.execStart]
  · simp only [ExecCore.execEnd]
    split
    · exact le_refl _
    · simp
  · simp [ExecCore.cmdEnd, length_foldl_modify]
  · exact le_refl _

theorem length_rows_foldl : (evs : List TraceEvent) → (c : ExecCore) →
    c.rows.length ≤ (evs.foldl ExecCore.step c).rows.length
  | [], _ => le_refl _
  | ev :: evs, c => le_trans (length_rows_step c ev) (length_rows_foldl evs (c.step ev))

/-- What the loop over the records of a block establishes when it accepts them all. -/
theorem addEvents_accepted {firstNs lastNs : ℕ} : (evs : List TraceEvent) → (c : ExecCore) →
    (last : Option ℕ) → (c' : ExecCore) → (last' : Option ℕ) →
    addEvents firstNs lastNs c last evs = (c', last', true) →
      c' = evs.foldl ExecCore.step c ∧ (evs.Pairwise fun x y => x.ts ≤ y.ts) ∧
        (∀ t, last = some t → ∀ ev ∈ evs, t ≤ ev.ts) ∧
        (∀ ev ∈ evs, ∃ t, last' = some t ∧ ev.ts ≤ t) ∧
        ∀ t, last = some t → ∃ t', last' = some t' ∧ t ≤ t'
  | [], c, last, c', last', h => by
    simp only [addEvents, Prod.mk.injEq, and_true] at h
    obtain ⟨rfl, rfl⟩ := h
    exact ⟨rfl, List.Pairwise.nil, by simp, by simp, fun t ht => ⟨t, ht, le_refl t⟩⟩
  | ev :: evs, c, last, c', last', h => by
    rw [addEvents] at h
    split_ifs at h with hbounds horder
    · simp at h
    · simp at h
    obtain ⟨hc, hsorted, hfirst, hlast, hnext⟩ :=
      addEvents_accepted evs (c.step ev) (some ev.ts) c' last' h
    obtain ⟨t', ht', hle'⟩ := hnext ev.ts rfl
    have hprev : ∀ t, last = some t → t ≤ ev.ts := by
      rintro t rfl
      simpa using horder
    refine ⟨hc, List.pairwise_cons.2 ⟨hfirst ev.ts rfl, hsorted⟩, ?_, ?_, ?_⟩
    · intro t ht x hx
      rcases List.mem_cons.1 hx with rfl | hx
      · exact hprev t ht
      · exact le_trans (hprev t ht) (hfirst ev.ts rfl x hx)
    · intro x hx
      rcases List.mem_cons.1 hx with rfl | hx
      · exact ⟨t', ht', hle'⟩
      · exact hlast x hx
    · exact fun t ht => ⟨t', ht', le_trans (hprev t ht) hle'⟩

/-- An accepted block extends the stream by its records. -/
theorem Fed.addBlock {idx : ExecIndex} {stream : List TraceEvent} (h : Fed idx stream)
    {b : IndexedBlock} (hb : (idx.addBlock b).2 = true) :
    Fed (idx.addBlock b).1 (stream ++ b.events) := by
  rw [ExecIndex.addBlock] at hb ⊢
  split_ifs at hb ⊢ with hver hfail hidx hbounds hprev
  rcases hadd : addEvents b.firstNs.toNat b.lastNs.toNat idx.core idx.lastEventNs b.events with
    ⟨c, last, ok⟩
  rw [hadd] at hb
  cases ok with
  | false => exact absurd hb Bool.false_ne_true
  | true =>
    obtain ⟨rfl, hsorted, hfirst, hlast, hnext⟩ := addEvents_accepted _ _ _ _ _ hadd
    have hlen := length_rows_foldl b.events idx.core
    change Fed (idx.appendChunk b _ last) _
    refine ⟨?_, ?_, ?_, ?_, h.version, h.failed⟩
    · rw [List.foldl_append, ← h.core]
      rfl
    · refine List.pairwise_append.2 ⟨h.sorted, hsorted, fun x hx y hy => ?_⟩
      obtain ⟨t, ht, hle⟩ := h.last x hx
      exact le_trans hle (hfirst t ht y hy)
    · intro ev hev
      rcases List.mem_append.1 hev with hev | hev
      · obtain ⟨t, ht, hle⟩ := h.last ev hev
        obtain ⟨t', ht', hle'⟩ := hnext t ht
        exact ⟨t', ht', le_trans hle hle'⟩
      · exact hlast ev hev
    · have happ := h.tiles.append {
        blockIdx := b.blockIdx
        firstRow := idx.core.rows.length
        nRows := (b.events.foldl ExecCore.step idx.core).rows.length - idx.core.rows.length
        blockFirstNs := b.firstNs.toNat
        blockLastNs := b.lastNs.toNat } rfl
      rw [Nat.add_sub_cancel' hlen] at happ
      exact happ

theorem Fed.addBlocks : (bs : List IndexedBlock) → (idx idx' : ExecIndex) →
    (stream : List TraceEvent) → Fed idx stream → idx.addBlocks bs = some idx' →
      Fed idx' (stream ++ bs.flatMap (·.events))
  | [], idx, idx', stream, h, hadd => by
    obtain rfl : idx = idx' := Option.some.inj hadd
    simpa using h
  | b :: bs, idx, idx', stream, h, hadd => by
    rw [ExecIndex.addBlocks] at hadd
    split_ifs at hadd with hb
    have hfed := Fed.addBlocks bs _ idx' _ (h.addBlock hb) hadd
    rwa [List.append_assoc, ← List.flatMap_cons] at hfed

theorem fed_init : Fed {} [] :=
  ⟨rfl, List.Pairwise.nil, by simp, rfl, rfl, rfl⟩

/-- **A query returns the retained rows of the index.** -/
theorem query_rows {idx : ExecIndex} {stream : List TraceEvent} (h : Fed idx stream)
    {fromNs toNs : UInt64} {res : QueryResult} (hq : idx.sealIndex.query fromNs toNs = .ok res) :
    res.rows = (stream.foldl ExecCore.step {}).rows.filterMap
      (retainedRow fromNs.toNat toNs.toNat) := by
  have hseal : idx.sealIndex =
      { idx with chunks := idx.chunks.map (sealChunk idx.core.rows), isSealed := true } := by
    rw [sealIndex, if_neg (not_not.2 h.version), h.failed]
    rfl
  rw [hseal, query] at hq
  split_ifs at hq with h1 h2 h3 h4 hwin hrange
  have hto : toNs.toNat ≤ uint64Max := by
    have hlt := toNs.toNat_lt
    rw [uint64Max]
    omega
  obtain rfl := Except.ok.inj hq
  have htiles := h.tiles.flatMap_chunkRows idx.core.rows
  rw [Nat.sub_zero, List.drop_zero, List.take_length] at htiles
  change ((idx.chunks.map (sealChunk idx.core.rows)).filter _).flatMap _ = _
  rw [flatMap_filter_scans _ (not_lt.1 hwin) hto, htiles, h.core]

end ExecIndex

end PgWaitTracer
