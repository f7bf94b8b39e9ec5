import Mathlib.Data.List.Sort
import PgWaitTracer.Lib.Run
import PgWaitTracer.Server.FileScan

/-!
# The index of retained markers

A view of executions needs all the structural markers from the start of the trace to its left edge.
Once such a view has been asked for, the server keeps the markers of every committed block when it
first sees the block (`cov_decode_markers`, `cov_scan_file` and `coverage_refresh`, `src/server.c`).
A block that cannot be queued or decoded, and a marker for which there is no room, make the index
unusable for good.

Two losses do not: a header that cannot be read leaves its block out of the queue, and when the
array of escalation markers cannot grow, the decode ends in the middle of a block without moving
its watermark, so that the next one retains the same markers again.

A path of the trace directory names a capture by the clocks of its header. What a capture commits is
never changed; a refresh sees the blocks that are committed by then.

## Main results

* `markRun_kept` : in a run in which no header with markers behind it is missed and the escalation
  array can grow, a usable index holds all the markers.
-/

namespace PgWaitTracer

/-! ### Decoding the queue -/

/-- What can go wrong in one decode of the queue: blocks that do not decode, and records at which
one of the two arrays cannot grow. -/
structure DecodeFaults where
  decodeFails : ℕ → Bool
  escFails : ℕ → ℕ → Bool
  xmFails : ℕ → ℕ → Bool

/-- The flags of the server that concern the retained markers. -/
structure MarkFlags where
  retainExecMarks : Bool := false
  xmUnusable : Bool := false
  anySamples : Bool := false
  deriving DecidableEq, Repr

/-- The state of the decode loop. -/
structure MarkDecode where
  xmarks : List ExecMark
  wantXm : Bool
  gaveUp : Bool := false
  aborted : Bool := false
  deriving DecidableEq, Repr

/-- A marker as it is retained. -/
def TraceEvent.toExecMark (ev : TraceEvent) : ExecMark where
  ts := ev.timestampNs
  queryId := ev.queryId
  pid := ev.pid
  flags := ev.flags &&& 0xFFFF
  marker := ev.oldEvent - markerExecStart

/-- The record is a marker of an escalation. -/
def TraceEvent.isEscalation (ev : TraceEvent) : Bool :=
  ev.oldEvent = markerEscalateStart || ev.oldEvent = markerEscalateEnd

/-- One record of the block `b`, at the place `p` of the queue. -/
def decodeMarkRecord (f : DecodeFaults) (fc : ScanCov) (wantEsc : Bool) (b p : ℕ)
    (st : MarkDecode) (r : TraceEvent × ℕ) : MarkDecode :=
  if st.aborted then st
  else if wantEsc && fc.escDone ≤ p && r.1.isEscalation && f.escFails b r.2 then
    { st with aborted := true }
  else if st.wantXm && fc.xmDone ≤ p && isMarker r.1.oldEvent then
    if f.xmFails b r.2 then { st with wantXm := false, gaveUp := true }
    else { st with xmarks := st.xmarks ++ [r.1.toExecMark] }
  else st

/-- The records of the block `b`, if it decodes. -/
def DecodeFaults.decode (f : DecodeFaults) (b : ℕ) (block : ReaderBlock) :
    Option (List TraceEvent) :=
  match f.decodeFails b, block.content with
  | false, .decoded _ records => some records
  | _, _ => none

/-- One block of the queue. -/
def decodeMarkBlock (f : DecodeFaults) (fc : ScanCov) (wantEsc : Bool) (blocks : List ReaderBlock)
    (st : MarkDecode) (q : ℕ × ℕ) : MarkDecode :=
  let b := q.1
  let p := q.2
  let xmHere := st.wantXm && fc.xmDone ≤ p
  if st.aborted || !(wantEsc && fc.escDone ≤ p || xmHere) then st
  else
    match blocks[b]? with
    | none => st
    | some block =>
      match f.decode b block with
      | none => if xmHere then { st with gaveUp := true } else st
      | some records => records.zipIdx.foldl (decodeMarkRecord f fc wantEsc b p) st

/-- `cov_decode_markers`. -/
def ScanCov.covDecodeMarkers (fc : ScanCov) (f : DecodeFaults) (flags : MarkFlags)
    (blocks : List ReaderBlock) : ScanCov :=
  let n := fc.pendingTb.length
  let wantEsc := (flags.anySamples || fc.hasSamples) && fc.escDone < n
  let wantXm := flags.retainExecMarks && !flags.xmUnusable && fc.xmDone < n
  if !wantEsc && !wantXm then fc
  else
    let st := fc.pendingTb.zipIdx.foldl (decodeMarkBlock f fc wantEsc blocks)
      { xmarks := fc.xmarks, wantXm := wantXm }
    { fc with
      xmarks := st.xmarks
      marksIncomplete := fc.marksIncomplete || st.gaveUp
      escDone := if wantEsc && !st.aborted then n else fc.escDone
      xmDone := if st.wantXm && !st.aborted then n else fc.xmDone }

/-! ### Refreshing the entries -/

/-- A file of the trace directory at a refresh: the clocks of its header, the blocks committed by
then, and what goes wrong. `late` is the decode when samples appear for the first time. -/
structure DirFile where
  path : String
  start : UInt64
  clock : UInt64
  opens : Bool
  opensLate : Bool
  refresh : Refresh
  faults : DecodeFaults
  late : DecodeFaults

/-- The blocks of each capture, by path and header clocks. -/
def Captures : Type := String → UInt64 → UInt64 → List ReaderBlock

/-- The committed blocks of a file. -/
def DirFile.blocks (caps : Captures) (f : DirFile) : List ReaderBlock :=
  (caps f.path f.start f.clock).take f.refresh.committed

/-- An entry of the server with its path. -/
structure CovEntry where
  path : String
  cov : ScanCov
  deriving DecidableEq, Repr

/-- The server as far as the retained markers go. -/
structure MarkServer where
  flags : MarkFlags := {}
  cov : List CovEntry := []
  deriving DecidableEq, Repr

/-- A loss that is noticed makes the index unusable for good. -/
def MarkFlags.latch (flags : MarkFlags) (fc : ScanCov) : MarkFlags :=
  { flags with xmUnusable := flags.xmUnusable || fc.marksIncomplete }

/-- `cov_scan_file` on the entry of a file, with the decode. -/
def covScanMarks (caps : Captures) (flags : MarkFlags) (fc : ScanCov) (f : DirFile) :
    MarkFlags × ScanCov :=
  if f.opens = false then (flags, { fc with valid := false })
  else
    let fc := covScanRefresh f.refresh.queueFails fc
      ⟨f.start, f.clock, f.refresh.view (caps f.path f.start f.clock)⟩
    let flags := flags.latch fc
    if f.blocks caps = [] then (flags, fc)
    else
      let fc := fc.covDecodeMarkers f.faults flags (f.blocks caps)
      (flags.latch fc, fc)

/-- The entry of a path, or a new one. -/
def covFind (path : String) (cov : List CovEntry) : ScanCov :=
  ((cov.find? (·.path = path)).map (·.cov)).getD {}

/-- The entry of a path is replaced, or added where there is room for 256. -/
def covPut (path : String) (fc : ScanCov) (cov : List CovEntry) : List CovEntry :=
  if cov.any (·.path = path) then
    cov.map fun e => if e.path = path then ⟨path, fc⟩ else e
  else if cov.length < 256 then cov ++ [⟨path, fc⟩]
  else cov

/-- One file of the refresh. -/
def refreshFile (caps : Captures) (srv : MarkServer) (f : DirFile) : MarkServer :=
  if srv.cov.any (·.path = f.path) || srv.cov.length < 256 then
    let r := covScanMarks caps srv.flags (covFind f.path srv.cov) f
    { flags := { r.1 with anySamples := r.1.anySamples || r.2.hasSamples }
      cov := covPut f.path r.2 srv.cov }
  else srv

/-- The blocks that the entry has scanned. -/
def CovEntry.blocks (caps : Captures) (e : CovEntry) : List ReaderBlock :=
  (caps e.path e.cov.hdrStartWallNs e.cov.hdrMonoNs).take e.cov.blocksScanned

/-- The decode of an entry when samples appear for the first time. The file is as the scan of the
same refresh has found it. -/
def lateDecode (caps : Captures) (dir : List DirFile) (r : MarkFlags × List CovEntry)
    (e : CovEntry) : MarkFlags × List CovEntry :=
  match dir.find? (·.path = e.path) with
  | some f =>
    if e.cov.valid && !e.cov.pendingTb.isEmpty && f.opensLate then
      let fc := e.cov.covDecodeMarkers f.late r.1 (e.blocks caps)
      (r.1.latch fc, r.2 ++ [⟨e.path, fc⟩])
    else (r.1, r.2 ++ [e])
  | none => (r.1, r.2 ++ [e])

/-- The start of a file on the wall clock, by which entries are sorted. -/
def CovEntry.wallStart (e : CovEntry) : ℤ :=
  (e.cov.hdrStartWallNs.toNat : ℤ) - e.cov.hdrMonoNs.toNat + e.cov.monoFirst

/-- The order of entries after a refresh. -/
def CovEntry.before (a b : CovEntry) : Prop := a.wallStart ≤ b.wallStart

instance : DecidableRel CovEntry.before := fun a b =>
  inferInstanceAs (Decidable (a.wallStart ≤ b.wallStart))

/-- `coverage_refresh`, as far as the retained markers go. -/
def MarkServer.coverageRefresh (caps : Captures) (srv : MarkServer) (dir : List DirFile) :
    MarkServer :=
  let hadSamples := srv.flags.anySamples
  let srv := dir.foldl (refreshFile caps)
    { srv with cov := srv.cov.filter fun e => dir.any (·.path = e.path) }
  let r := if srv.flags.anySamples && !hadSamples then
      srv.cov.foldl (lateDecode caps dir) (srv.flags, [])
    else (srv.flags, srv.cov)
  let cov := if r.1.xmUnusable then
      r.2.map fun e => { e with cov := { e.cov with xmarks := [] } }
    else r.2
  { flags := r.1, cov := cov.insertionSort CovEntry.before }

/-! ### Runs -/

/-- What happens to the server: a view of executions is asked for, or the directory is scanned. -/
inductive MarkOp
  | retain
  | refresh (dir : List DirFile)

/-- One operation. -/
def markStep (caps : Captures) (srv : MarkServer) : MarkOp → MarkServer
  | .retain => { srv with flags := { srv.flags with retainExecMarks := true } }
  | .refresh dir => srv.coverageRefresh caps dir

/-- `exec_prefix_index_usable`. `hatch` is the environment variable that turns the index off. -/
def execPrefixIndexUsable (hatch : Bool) (srv : MarkServer) : Bool :=
  !hatch && srv.flags.retainExecMarks && !srv.flags.xmUnusable &&
    srv.cov.all fun e =>
      !e.cov.valid || (!e.cov.marksIncomplete && e.cov.pendingTb.length ≤ e.cov.xmDone)

/-! ### What a decode retains -/

/-- The markers among the records, as they are retained. -/
def marksOf (records : List TraceEvent) : List ExecMark :=
  (records.filter fun ev => isMarker ev.oldEvent).map TraceEvent.toExecMark

/-- The markers of one block of a capture. -/
def marksAt (blocks : List ReaderBlock) (i : ℕ) : List ExecMark :=
  (blocks[i]?.map fun b => marksOf b.content.records).getD []

/-- An entry holds the markers of the blocks that are decoded, and its queue leaves none of the
scanned markers out. -/
structure ScanCov.MarksKept (fc : ScanCov) (blocks : List ReaderBlock) : Prop where
  scanned_le : fc.blocksScanned ≤ blocks.length
  pending_lt : ∀ i ∈ fc.pendingTb, i < fc.blocksScanned
  pending : fc.pendingTb.flatMap (marksAt blocks) =
    (List.range fc.blocksScanned).flatMap (marksAt blocks)
  xmDone_le : fc.xmDone ≤ fc.pendingTb.length
  xmarks : fc.xmarks = (fc.pendingTb.take fc.xmDone).flatMap (marksAt blocks)
  scanned_pos : fc.valid = true → 0 < fc.blocksScanned
  monoFirst : 0 < fc.blocksScanned → fc.monoFirst = indexFirst blocks

section Decode

variable {f : DecodeFaults} (fc : ScanCov) (wantEsc : Bool)

variable {st : MarkDecode}

theorem decodeMarkRecord_unwanted (b p : ℕ) (h : st.wantXm = false) (r : TraceEvent × ℕ) :
    (decodeMarkRecord f fc wantEsc b p st r).xmarks = st.xmarks ∧
      (decodeMarkRecord f fc wantEsc b p st r).wantXm = false ∧
      (decodeMarkRecord f fc wantEsc b p st r).gaveUp = st.gaveUp := by
  rw [decodeMarkRecord]
  split_ifs <;> simp_all

theorem foldl_decodeMarkRecord_unwanted (b p : ℕ) (records : List (TraceEvent × ℕ))
    (h : st.wantXm = false) :
    (records.foldl (decodeMarkRecord f fc wantEsc b p) st).xmarks = st.xmarks ∧
      (records.foldl (decodeMarkRecord f fc wantEsc b p) st).wantXm = false ∧
      (records.foldl (decodeMarkRecord f fc wantEsc b p) st).gaveUp = st.gaveUp := by
  induction records generalizing st with
  | nil => exact ⟨rfl, h, rfl⟩
  | cons r records ih =>
    obtain ⟨hx, hw, hg⟩ := decodeMarkRecord_unwanted fc wantEsc b p h r
    obtain ⟨hx', hw', hg'⟩ := ih hw
    exact ⟨hx'.trans hx, hw', hg'.trans hg⟩

theorem decodeMarkBlock_unwanted (blocks : List ReaderBlock) (h : st.wantXm = false) (q : ℕ × ℕ) :
    (decodeMarkBlock f fc wantEsc blocks st q).xmarks = st.xmarks ∧
      (decodeMarkBlock f fc wantEsc blocks st q).wantXm = false ∧
      (decodeMarkBlock f fc wantEsc blocks st q).gaveUp = st.gaveUp := by
  have hsame : st.xmarks = st.xmarks ∧ st.wantXm = false ∧ st.gaveUp = st.gaveUp := ⟨rfl, h, rfl⟩
  rw [decodeMarkBlock]
  simp only [h, Bool.false_and, Bool.false_eq_true, if_false, Bool.or_false]
  split_ifs
  · exact hsame
  · cases blocks[q.1]? with
    | none => exact hsame
    | some block =>
      dsimp only
      cases f.decode q.1 block with
      | none => exact hsame
      | some records => exact foldl_decodeMarkRecord_unwanted fc wantEsc q.1 q.2 _ h

theorem foldl_decodeMarkBlock_unwanted (blocks : List ReaderBlock) (queue : List (ℕ × ℕ))
    (h : st.wantXm = false) :
    (queue.foldl (decodeMarkBlock f fc wantEsc blocks) st).xmarks = st.xmarks ∧
      (queue.foldl (decodeMarkBlock f fc wantEsc blocks) st).wantXm = false ∧
      (queue.foldl (decodeMarkBlock f fc wantEsc blocks) st).gaveUp = st.gaveUp := by
  induction queue generalizing st with
  | nil => exact ⟨rfl, h, rfl⟩
  | cons q queue ih =>
    obtain ⟨hx, hw, hg⟩ := decodeMarkBlock_unwanted fc wantEsc blocks h q
    obtain ⟨hx', hw', hg'⟩ := ih hw
    exact ⟨hx'.trans hx, hw', hg'.trans hg⟩

theorem prefix_decodeMarkRecord (b p : ℕ) (st : MarkDecode) (r : TraceEvent × ℕ) :
    st.xmarks <+: (decodeMarkRecord f fc wantEsc b p st r).xmarks := by
  rw [decodeMarkRecord]
  split_ifs
  · exact List.prefix_rfl
  · exact List.prefix_rfl
  · exact List.prefix_rfl
  · exact List.prefix_append st.xmarks _
  · exact List.prefix_rfl

theorem decodeMarkBlock_cases (blocks : List ReaderBlock) (st : MarkDecode) (q : ℕ × ℕ) :
    decodeMarkBlock f fc wantEsc blocks st q = st ∨
      decodeMarkBlock f fc wantEsc blocks st q = { st with gaveUp := true } ∨
      ∃ records : List (TraceEvent × ℕ), decodeMarkBlock f fc wantEsc blocks st q =
        records.foldl (decodeMarkRecord f fc wantEsc q.1 q.2) st := by
  rw [decodeMarkBlock]
  by_cases hskip : (st.aborted || !(wantEsc && decide (fc.escDone ≤ q.2) ||
      st.wantXm && decide (fc.xmDone ≤ q.2))) = true
  · exact .inl (if_pos hskip)
  rw [if_neg hskip]
  cases blocks[q.1]? with
  | none => exact .inl rfl
  | some block =>
    dsimp only
    cases f.decode q.1 block with
    | none =>
      dsimp only
      split_ifs
      · exact .inr (.inl rfl)
      · exact .inl rfl
    | some records => exact .inr (.inr ⟨records.zipIdx, rfl⟩)

theorem prefix_decodeMarkBlock (blocks : List ReaderBlock) (st : MarkDecode) (q : ℕ × ℕ) :
    st.xmarks <+: (decodeMarkBlock f fc wantEsc blocks st q).xmarks := by
  obtain h | h | ⟨records, h⟩ := decodeMarkBlock_cases (f := f) fc wantEsc blocks st q
  · rw [h]
  · rw [h]
  · rw [h]
    exact List.foldlRecOn (motive := fun st' : MarkDecode => st.xmarks <+: st'.xmarks) records _
      List.prefix_rfl fun st' h r _ => h.trans (prefix_decodeMarkRecord fc wantEsc _ _ st' r)

theorem decodeMarkRecord_aborted (hesc : ∀ b i, f.escFails b i = false) (b p : ℕ)
    (hst : st.aborted = false) (r : TraceEvent × ℕ) :
    (decodeMarkRecord f fc wantEsc b p st r).aborted = false := by
  rw [decodeMarkRecord, hesc, hst, if_neg Bool.false_ne_true, Bool.and_false,
    if_neg Bool.false_ne_true]
  split_ifs
  · rfl
  · rfl
  · exact hst

theorem decodeMarkBlock_aborted (hesc : ∀ b i, f.escFails b i = false) (blocks : List ReaderBlock)
    (hst : st.aborted = false) (q : ℕ × ℕ) :
    (decodeMarkBlock f fc wantEsc blocks st q).aborted = false := by
  obtain h | h | ⟨records, h⟩ := decodeMarkBlock_cases (f := f) fc wantEsc blocks st q
  · rw [h, hst]
  · rw [h, hst]
  · rw [h]
    exact List.foldlRecOn (motive := fun st' : MarkDecode => st'.aborted = false) records _ hst
      fun st' h r _ => decodeMarkRecord_aborted fc wantEsc hesc _ _ h r

/-- One record of a loop that neither stops nor gives up. -/
theorem decodeMarkRecord_kept (b p : ℕ) (r : TraceEvent × ℕ)
    (hab : (decodeMarkRecord f fc wantEsc b p st r).aborted = false)
    (hg : (decodeMarkRecord f fc wantEsc b p st r).gaveUp = false) :
    st.aborted = false ∧ st.gaveUp = false ∧
      (decodeMarkRecord f fc wantEsc b p st r).wantXm = st.wantXm ∧
      (decodeMarkRecord f fc wantEsc b p st r).xmarks =
        st.xmarks ++ if st.wantXm && fc.xmDone ≤ p then marksOf [r.1] else [] := by
  cases hst : st.aborted with
  | true =>
    rw [decodeMarkRecord, hst, if_pos rfl] at hab
    exact absurd (hst.symm.trans hab) (by decide)
  | false =>
    rw [decodeMarkRecord, hst, if_neg Bool.false_ne_true] at hab hg ⊢
    by_cases hesc : (wantEsc && decide (fc.escDone ≤ p) && r.1.isEscalation &&
        f.escFails b r.2) = true
    · rw [if_pos hesc] at hab
      cases hab
    rw [if_neg hesc] at hab hg ⊢
    by_cases hgo : (st.wantXm && decide (fc.xmDone ≤ p)) = true
    · rw [hgo, Bool.true_and] at hg ⊢
      rw [if_pos rfl]
      by_cases hm : isMarker r.1.oldEvent = true
      · have hmark : marksOf [r.1] = [r.1.toExecMark] := by simp [marksOf, hm]
        rw [if_pos hm] at hg ⊢
        rw [hmark]
        split_ifs at hg ⊢
        exact ⟨rfl, hg, rfl, rfl⟩
      · have hmark : marksOf [r.1] = [] := by simp [marksOf, hm]
        rw [if_neg hm] at hg ⊢
        rw [hmark, List.append_nil]
        exact ⟨rfl, hg, rfl, rfl⟩
    · rw [Bool.not_eq_true] at hgo
      rw [hgo, Bool.false_and, if_neg Bool.false_ne_true] at hg ⊢
      rw [if_neg Bool.false_ne_true, List.append_nil]
      exact ⟨rfl, hg, rfl, rfl⟩

theorem marksOf_append (xs ys : List TraceEvent) :
    marksOf (xs ++ ys) = marksOf xs ++ marksOf ys := by
  rw [marksOf, List.filter_append, List.map_append, marksOf, marksOf]

theorem foldl_decodeMarkRecord_kept (b p : ℕ) (records : List (TraceEvent × ℕ))
    (hab : (records.foldl (decodeMarkRecord f fc wantEsc b p) st).aborted = false)
    (hg : (records.foldl (decodeMarkRecord f fc wantEsc b p) st).gaveUp = false) :
    st.aborted = false ∧ st.gaveUp = false ∧
      (records.foldl (decodeMarkRecord f fc wantEsc b p) st).wantXm = st.wantXm ∧
      (records.foldl (decodeMarkRecord f fc wantEsc b p) st).xmarks =
        st.xmarks ++ if st.wantXm && fc.xmDone ≤ p then marksOf (records.map Prod.fst) else [] := by
  induction records generalizing st with
  | nil => exact ⟨hab, hg, rfl, by simp [marksOf]⟩
  | cons r records ih =>
    obtain ⟨hab', hg', hw', hx'⟩ := ih hab hg
    obtain ⟨hab'', hg'', hw, hx⟩ := decodeMarkRecord_kept fc wantEsc b p r hab' hg'
    refine ⟨hab'', hg'', hw'.trans hw, ?_⟩
    have hcons : marksOf (r.1 :: records.map Prod.fst) =
        marksOf [r.1] ++ marksOf (records.map Prod.fst) := marksOf_append [r.1] _
    rw [List.foldl_cons, hx', hx, hw, List.map_cons, hcons]
    split_ifs
    · rw [List.append_assoc]
    · rw [List.append_nil]

/-- One block of the queue. A block that is not there holds no markers. -/
theorem decodeMarkBlock_kept (blocks : List ReaderBlock) (q : ℕ × ℕ)
    (hab : (decodeMarkBlock f fc wantEsc blocks st q).aborted = false)
    (hg : (decodeMarkBlock f fc wantEsc blocks st q).gaveUp = false) :
    st.aborted = false ∧ st.gaveUp = false ∧
      (decodeMarkBlock f fc wantEsc blocks st q).wantXm = st.wantXm ∧
      (decodeMarkBlock f fc wantEsc blocks st q).xmarks =
        st.xmarks ++ if st.wantXm && fc.xmDone ≤ q.2 then marksAt blocks q.1 else [] := by
  cases hst : st.aborted with
  | true =>
    rw [decodeMarkBlock, hst, Bool.true_or, if_pos rfl] at hab
    exact absurd (hst.symm.trans hab) (by decide)
  | false =>
    rw [decodeMarkBlock, hst, Bool.false_or] at hab hg ⊢
    by_cases hgo : (wantEsc && decide (fc.escDone ≤ q.2) ||
        st.wantXm && decide (fc.xmDone ≤ q.2)) = true
    · rw [hgo, Bool.not_true, if_neg Bool.false_ne_true] at hab hg ⊢
      cases hblock : blocks[q.1]? with
      | none =>
        have hnil : marksAt blocks q.1 = [] := by rw [marksAt, hblock]; rfl
        rw [hblock] at hg
        rw [hnil, ite_self, List.append_nil]
        exact ⟨rfl, hg, rfl, rfl⟩
      | some block =>
        rw [hblock] at hab hg
        dsimp only at hab hg ⊢
        cases hdec : f.decode q.1 block with
        | none =>
          rw [hdec] at hab hg
          dsimp only at hab hg ⊢
          split_ifs at hg ⊢
          exact ⟨rfl, hg, rfl, by rw [List.append_nil]⟩
        | some records =>
          rw [hdec] at hab hg
          obtain ⟨-, hg', hw, hx⟩ :=
            foldl_decodeMarkRecord_kept fc wantEsc q.1 q.2 records.zipIdx hab hg
          refine ⟨rfl, hg', hw, ?_⟩
          have hrec : block.content.records = records := by
            rw [DecodeFaults.decode] at hdec
            split at hdec
            · rename_i hc
              rw [hc]
              exact Option.some.inj hdec
            · exact absurd hdec nofun
          dsimp only
          rw [hx, marksAt, hblock, Option.map_some, Option.getD_some, hrec, List.zipIdx_map_fst]
    · rw [Bool.not_eq_true] at hgo
      rw [hgo, Bool.not_false, if_pos rfl] at hg ⊢
      rw [Bool.or_eq_false_iff] at hgo
      exact ⟨rfl, hg, rfl, by simp [hgo.2]⟩

theorem foldl_decodeMarkBlock_kept (blocks : List ReaderBlock) (queue : List ℕ) (p₀ : ℕ)
    (hab : ((queue.zipIdx p₀).foldl (decodeMarkBlock f fc wantEsc blocks) st).aborted = false)
    (hg : ((queue.zipIdx p₀).foldl (decodeMarkBlock f fc wantEsc blocks) st).gaveUp = false) :
    st.aborted = false ∧ st.gaveUp = false ∧
      ((queue.zipIdx p₀).foldl (decodeMarkBlock f fc wantEsc blocks) st).wantXm = st.wantXm ∧
      ((queue.zipIdx p₀).foldl (decodeMarkBlock f fc wantEsc blocks) st).xmarks =
        st.xmarks ++ if st.wantXm then
          (queue.drop (fc.xmDone - p₀)).flatMap (marksAt blocks) else [] := by
  induction queue generalizing p₀ st with
  | nil => exact ⟨hab, hg, rfl, by simp⟩
  | cons i queue ih =>
    rw [List.zipIdx_cons, List.foldl_cons] at hab hg ⊢
    obtain ⟨hab', hg', hw', hx'⟩ := ih (p₀ + 1) hab hg
    obtain ⟨hab'', hg'', hw, hx⟩ := decodeMarkBlock_kept fc wantEsc blocks (i, p₀) hab' hg'
    refine ⟨hab'', hg'', hw'.trans hw, ?_⟩
    rw [hx', hx, hw]
    cases st.wantXm with
    | false => simp
    | true =>
      by_cases hp : fc.xmDone ≤ p₀
      · have h₀ : fc.xmDone - p₀ = 0 := by omega
        have h₁ : fc.xmDone - (p₀ + 1) = 0 := by omega
        simp [hp, h₀, h₁]
      · obtain ⟨k, hk⟩ : ∃ k, fc.xmDone - p₀ = k + 1 := ⟨fc.xmDone - p₀ - 1, by omega⟩
        have h₁ : fc.xmDone - (p₀ + 1) = k := by omega
        simp [hp, hk, h₁]

end Decode

theorem marksAt_take (blocks : List ReaderBlock) {n i : ℕ} (h : i < n) :
    marksAt (blocks.take n) i = marksAt blocks i := by
  rw [marksAt, List.getElem?_take_of_lt h, marksAt]

theorem covDecodeMarkers_frame (fc : ScanCov) (f : DecodeFaults) (flags : MarkFlags)
    (blocks : List ReaderBlock) :
    let fc' := fc.covDecodeMarkers f flags blocks
    fc'.hdrStartWallNs = fc.hdrStartWallNs ∧ fc'.hdrMonoNs = fc.hdrMonoNs ∧
      fc'.blocksScanned = fc.blocksScanned ∧ fc'.pendingTb = fc.pendingTb ∧
      fc'.valid = fc.valid ∧ fc'.monoFirst = fc.monoFirst := by
  rw [ScanCov.covDecodeMarkers]
  dsimp only
  generalize (!_ && !_ : Bool) = idle
  cases idle <;> exact ⟨rfl, rfl, rfl, rfl, rfl, rfl⟩

variable {caps : Captures} {blocks : List ReaderBlock} {fc : ScanCov}

/-- **The decode of the queue** that does not give up leaves its watermark, or moves it to the end
with the markers of all the blocks that were waiting. -/
theorem covDecodeMarkers_spec {f : DecodeFaults} {flags : MarkFlags}
    (hgave : (fc.covDecodeMarkers f flags blocks).marksIncomplete = false) :
    let fc' := fc.covDecodeMarkers f flags blocks
    fc.marksIncomplete = false ∧ fc.xmarks <+: fc'.xmarks ∧
      (fc'.xmDone = fc.xmDone ∧
          ((flags.retainExecMarks = true → ∀ b i, f.escFails b i = false) →
            fc'.xmarks = fc.xmarks) ∨
        flags.retainExecMarks = true ∧ fc'.xmDone = fc.pendingTb.length ∧
          fc'.xmarks = fc.xmarks ++ (fc.pendingTb.drop fc.xmDone).flatMap (marksAt blocks)) := by
  rw [ScanCov.covDecodeMarkers] at hgave ⊢
  dsimp only at hgave ⊢
  generalize ((flags.anySamples || fc.hasSamples) &&
    decide (fc.escDone < fc.pendingTb.length)) = wantEsc at hgave ⊢
  generalize hX : (flags.retainExecMarks && !flags.xmUnusable &&
    decide (fc.xmDone < fc.pendingTb.length)) = wantXm at hgave ⊢
  by_cases hidle : (!wantEsc && !wantXm) = true
  · rw [if_pos hidle] at hgave ⊢
    exact ⟨hgave, List.prefix_rfl, .inl ⟨rfl, fun _ => rfl⟩⟩
  rw [if_neg hidle] at hgave ⊢
  dsimp only at hgave ⊢
  rw [Bool.or_eq_false_iff] at hgave
  obtain ⟨hinc, hg⟩ := hgave
  have hprefix : fc.xmarks <+: (fc.pendingTb.zipIdx.foldl (decodeMarkBlock f fc wantEsc blocks)
      { xmarks := fc.xmarks, wantXm := wantXm }).xmarks :=
    List.foldlRecOn (motive := fun st : MarkDecode => fc.xmarks <+: st.xmarks) fc.pendingTb.zipIdx _
      List.prefix_rfl fun st h q _ => h.trans (prefix_decodeMarkBlock fc wantEsc blocks st q)
  refine ⟨hinc, hprefix, ?_⟩
  cases wantXm with
  | false =>
    obtain ⟨hx, hw, -⟩ := foldl_decodeMarkBlock_unwanted (f := f) fc wantEsc blocks
      fc.pendingTb.zipIdx
      (show (⟨fc.xmarks, false, false, false⟩ : MarkDecode).wantXm = false from rfl)
    rw [hx, hw, Bool.false_and, if_neg Bool.false_ne_true]
    exact .inl ⟨rfl, fun _ => rfl⟩
  | true =>
    have hretain : flags.retainExecMarks = true := by
      rw [Bool.and_eq_true, Bool.and_eq_true] at hX
      exact hX.1.1
    cases hab : (fc.pendingTb.zipIdx.foldl (decodeMarkBlock f fc wantEsc blocks)
        { xmarks := fc.xmarks, wantXm := true }).aborted with
    | true =>
      rw [Bool.not_true, Bool.and_false, if_neg Bool.false_ne_true]
      refine .inl ⟨rfl, fun hesc => absurd hab (Bool.eq_false_iff.1 ?_)⟩
      exact List.foldlRecOn (motive := fun st : MarkDecode => st.aborted = false)
        fc.pendingTb.zipIdx _ rfl
        fun st h q _ => decodeMarkBlock_aborted fc wantEsc (hesc hretain) blocks h q
    | false =>
      obtain ⟨-, -, hw, hx⟩ := foldl_decodeMarkBlock_kept fc wantEsc blocks fc.pendingTb 0 hab hg
      rw [hw, hx]
      exact .inr ⟨hretain, rfl, rfl⟩

theorem covDecodeMarkers_kept {f : DecodeFaults} {flags : MarkFlags}
    (hesc : flags.retainExecMarks = true → ∀ b i, f.escFails b i = false) (h : fc.MarksKept blocks)
    {n : ℕ} (hn : fc.blocksScanned ≤ n)
    (hgave : (fc.covDecodeMarkers f flags (blocks.take n)).marksIncomplete = false) :
    (fc.covDecodeMarkers f flags (blocks.take n)).MarksKept blocks ∧
      fc.marksIncomplete = false := by
  have hmarks : ∀ is ⊆ fc.pendingTb,
      is.flatMap (marksAt (blocks.take n)) = is.flatMap (marksAt blocks) := fun is his =>
    List.flatMap_congr fun i hi => marksAt_take blocks ((h.pending_lt i (his hi)).trans_le hn)
  obtain ⟨hinc, -, hdone⟩ := covDecodeMarkers_spec hgave
  obtain ⟨-, -, hs, hp, hv, hm⟩ := covDecodeMarkers_frame fc f flags (blocks.take n)
  generalize fc.covDecodeMarkers f flags (blocks.take n) = fc' at *
  refine ⟨⟨by rw [hs]; exact h.scanned_le, by rw [hp, hs]; exact h.pending_lt,
    by rw [hp, hs]; exact h.pending, ?_, ?_, by rw [hv, hs]; exact h.scanned_pos,
    by rw [hm, hs]; exact h.monoFirst⟩, hinc⟩
  all_goals rw [hp]; rcases hdone with ⟨hd, hx⟩ | ⟨-, hd, hx⟩
  · rw [hd]
    exact h.xmDone_le
  · exact hd.le
  · rw [hd, hx hesc, h.xmarks]
  · rw [hd, hx, hmarks _ (List.drop_subset _ _), List.take_length, h.xmarks,
      ← List.flatMap_append, List.take_append_drop]

/-! ### What a scan queues -/

theorem covScanHeader_frame (queueFails : ℕ → Bool) (fc : ScanCov) (r : ReaderBlock × ℕ) :
    (covScanHeader queueFails fc r).blocksScanned = fc.blocksScanned ∧
      (covScanHeader queueFails fc r).xmDone = fc.xmDone ∧
      (covScanHeader queueFails fc r).xmarks = fc.xmarks := by
  rw [covScanHeader]
  cases r.1.content.header with
  | none => exact ⟨rfl, rfl, rfl⟩
  | some info =>
    dsimp only
    split_ifs <;> exact ⟨rfl, rfl, rfl⟩

theorem foldl_covScanHeader_frame (queueFails : ℕ → Bool) (rs : List (ReaderBlock × ℕ))
    (fc : ScanCov) :
    (rs.foldl (covScanHeader queueFails) fc).blocksScanned = fc.blocksScanned ∧
      (rs.foldl (covScanHeader queueFails) fc).xmDone = fc.xmDone ∧
      (rs.foldl (covScanHeader queueFails) fc).xmarks = fc.xmarks := by
  induction rs generalizing fc with
  | nil => exact ⟨rfl, rfl, rfl⟩
  | cons r rs ih =>
    obtain ⟨hs, hd, hx⟩ := covScanHeader_frame queueFails fc r
    obtain ⟨hs', hd', hx'⟩ := ih (covScanHeader queueFails fc r)
    exact ⟨hs'.trans hs, hd'.trans hd, hx'.trans hx⟩

theorem opened_frame {fc' : ScanCov} {view : FileView} {first : ReaderBlock}
    (h : fc.opened view first = fc') :
    fc'.blocksScanned = fc.blocksScanned ∧ fc'.xmDone = fc.xmDone ∧ fc'.xmarks = fc.xmarks ∧
      fc'.pendingTb = fc.pendingTb ∧ fc'.marksIncomplete = fc.marksIncomplete ∧
      fc'.hdrStartWallNs = view.startTimeNs ∧ fc'.hdrMonoNs = view.clockOffsetNs ∧
      fc'.monoFirst = if fc.blocksScanned = 0 then first.indexTs else fc.monoFirst := by
  subst h
  rw [ScanCov.opened]
  dsimp only
  split_ifs <;> exact ⟨rfl, rfl, rfl, rfl, rfl, rfl, rfl, rfl⟩

theorem marksOf_records_of_isSample {b : ReaderBlock} {info : BlockMeta}
    (hinfo : b.content.header = some info) (hs : info.isSample = true) :
    marksOf b.content.records = [] := by
  rw [marksOf, List.map_eq_nil_iff, List.filter_eq_nil_iff]
  intro ev hev
  have hshape := b.shape info hinfo ev hev
  rw [DecodedAs, if_pos hs] at hshape
  rw [hshape.2.1]
  decide

theorem records_of_header_none {c : BlockContent} (h : c.header = none) : c.records = [] := by
  cases c with
  | unreadable => rfl
  | damaged info => cases h
  | decoded info records => cases h

/-- The headers of a scan queue every block that holds markers, unless the scan gives up. A header
that cannot be read hides none. -/
theorem foldl_covScanHeader_queue (queueFails : ℕ → Bool) {rs : List ReaderBlock} {k : ℕ}
    (hrs : ∀ r ∈ rs.zipIdx k, blocks[r.2]? = some r.1 ∨
      r.1.content.header = none ∧ marksAt blocks r.2 = [])
    (hgave : ((rs.zipIdx k).foldl (covScanHeader queueFails) fc).marksIncomplete = false) :
    fc.marksIncomplete = false ∧
      ∃ queue, ((rs.zipIdx k).foldl (covScanHeader queueFails) fc).pendingTb =
          fc.pendingTb ++ queue ∧ queue.Sublist (List.range' k rs.length) ∧
        ∀ i ∈ List.range' k rs.length, i ∉ queue → marksAt blocks i = [] := by
  induction rs generalizing k fc with
  | nil => exact ⟨hgave, [], by simp, List.nil_sublist _, nofun⟩
  | cons b rs ih =>
    rw [List.zipIdx_cons] at hrs hgave ⊢
    rw [List.foldl_cons] at hgave ⊢
    obtain ⟨hb, hbs⟩ := List.forall_mem_cons.1 hrs
    obtain ⟨hinc, queue, hqueue, hsub, hmarks⟩ := ih hbs hgave
    rw [hqueue, List.length_cons, List.range'_succ]
    dsimp only at hb
    have hskip : marksAt blocks k = [] → (covScanHeader queueFails fc (b, k)).pendingTb =
        fc.pendingTb → ∃ queue', (covScanHeader queueFails fc (b, k)).pendingTb ++ queue =
          fc.pendingTb ++ queue' ∧ queue'.Sublist (k :: List.range' (k + 1) rs.length) ∧
        ∀ i ∈ k :: List.range' (k + 1) rs.length, i ∉ queue' → marksAt blocks i = [] :=
      fun hnil hsame => ⟨queue, by rw [hsame], hsub.cons k, fun i hi hout =>
        (List.mem_cons.1 hi).elim (fun h => h ▸ hnil) fun hi => hmarks i hi hout⟩
    cases hhead : b.content.header with
    | none =>
      have hsame : covScanHeader queueFails fc (b, k) = fc := by rw [covScanHeader, hhead]
      rw [hsame] at hinc
      refine ⟨hinc, hskip ?_ (by rw [hsame])⟩
      rcases hb with hb | hb
      · rw [marksAt, hb, Option.map_some, Option.getD_some, records_of_header_none hhead]
        rfl
      · exact hb.2
    | some info =>
      have hb' : blocks[k]? = some b := hb.resolve_right (by simp [hhead])
      have hat : marksAt blocks k = marksOf b.content.records := by
        rw [marksAt, hb', Option.map_some, Option.getD_some]
      cases hs : info.isSample with
      | true =>
        have hscan : (covScanHeader queueFails fc (b, k)).marksIncomplete = fc.marksIncomplete ∧
            (covScanHeader queueFails fc (b, k)).pendingTb = fc.pendingTb := by
          rw [covScanHeader, hhead]
          simp [hs]
        rw [hscan.1] at hinc
        exact ⟨hinc, hskip (hat.trans (marksOf_records_of_isSample hhead hs)) hscan.2⟩
      | false =>
        cases hfail : queueFails k with
        | true =>
          have hscan : (covScanHeader queueFails fc (b, k)).marksIncomplete = true := by
            rw [covScanHeader, hhead]
            simp [hs, hfail]
          exact absurd (hinc.symm.trans hscan) Bool.false_ne_true
        | false =>
          have hscan : (covScanHeader queueFails fc (b, k)).marksIncomplete = fc.marksIncomplete ∧
              (covScanHeader queueFails fc (b, k)).pendingTb = fc.pendingTb ++ [k] := by
            rw [covScanHeader, hhead]
            simp [hs, hfail]
          rw [hscan.1] at hinc
          refine ⟨hinc, k :: queue, by rw [hscan.2, List.append_assoc, List.singleton_append],
            hsub.cons_cons k, fun i hi hout => ?_⟩
          obtain ⟨hne, hout⟩ := not_or.1 (mt List.mem_cons.2 hout)
          exact hmarks i ((List.mem_cons.1 hi).resolve_left hne) hout

theorem flatMap_eq_of_sublist {α β : Type} {f : α → List β} {xs ys : List α} (h : xs.Sublist ys)
    (hnodup : ys.Nodup) (hout : ∀ y ∈ ys, y ∉ xs → f y = []) : xs.flatMap f = ys.flatMap f := by
  induction h with
  | slnil => rfl
  | cons a hsub ih =>
    obtain ⟨ha, hnodup⟩ := List.nodup_cons.1 hnodup
    rw [List.flatMap_cons, hout a List.mem_cons_self fun h => ha (hsub.subset h), List.nil_append]
    exact ih hnodup fun y hy => hout y (List.mem_cons_of_mem a hy)
  | cons_cons a hsub ih =>
    obtain ⟨ha, hnodup⟩ := List.nodup_cons.1 hnodup
    rw [List.flatMap_cons, List.flatMap_cons, ih hnodup fun y hy hx => ?_]
    refine hout y (List.mem_cons_of_mem a hy) fun h => ?_
    rcases List.mem_cons.1 h with rfl | h
    · exact ha hy
    · exact hx h

/-- Where the scan of a file goes on. -/
def ScanCov.scanFrom (fc : ScanCov) (view : FileView) : ℕ :=
  if fc.rewritten view then 0 else fc.blocksScanned

theorem marksKept_empty (blocks : List ReaderBlock) : ScanCov.MarksKept {} blocks :=
  ⟨Nat.zero_le _, nofun, rfl, le_rfl, rfl, nofun, nofun⟩

theorem ScanCov.MarksKept.of_unscanned (h : fc.MarksKept blocks) (hzero : fc.blocksScanned = 0)
    (blocks' : List ReaderBlock) : fc.MarksKept blocks' := by
  have hpending : fc.pendingTb = [] := by
    rw [List.eq_nil_iff_forall_not_mem]
    intro i hi
    have := h.pending_lt i hi
    omega
  have hx := h.xmarks
  rw [hpending, List.take_nil, List.flatMap_nil] at hx
  refine ⟨by omega, h.pending_lt, ?_, h.xmDone_le, ?_, h.scanned_pos, fun hpos => by omega⟩
  · rw [hpending, hzero]
    rfl
  · rw [hx, hpending, List.take_nil, List.flatMap_nil]

theorem getElem?_of_view {r : Refresh} {i : ℕ} {v : ReaderBlock}
    (h : (r.view blocks)[i]? = some v) :
    blocks[i]? = some v ∨ i < r.committed ∧ r.misses i = true ∧ v.content.header = none := by
  rw [getElem?_view] at h
  by_cases hi : i < r.committed
  · rw [if_pos hi] at h
    obtain ⟨b, hb, rfl⟩ := Option.map_eq_some_iff.1 h
    cases hmi : r.misses i with
    | true => exact .inr ⟨hi, rfl, rfl⟩
    | false => exact .inl hb
  · rw [if_neg hi] at h
    cases h

theorem range_eq_append {m n : ℕ} (h : m ≤ n) :
    List.range n = List.range m ++ List.range' m (n - m) := by
  obtain ⟨d, rfl⟩ := Nat.exists_eq_add_of_le h
  rw [Nat.add_sub_cancel_left, List.range_eq_range', List.range_eq_range',
    ← List.range'_append_1, Nat.zero_add]

section Scan

variable {caps : UInt64 → UInt64 → List ReaderBlock} {fc : ScanCov} {start clock : UInt64}

theorem scanBase {P : ScanCov → List ReaderBlock → Prop} (hempty : ∀ blocks, P {} blocks)
    (hzero : ∀ blocks blocks', P fc blocks → fc.blocksScanned = 0 → P fc blocks')
    (h : P fc (caps fc.hdrStartWallNs fc.hdrMonoNs)) (start clock : UInt64)
    (blocks : List ReaderBlock) :
    P (if fc.rewritten ⟨start, clock, blocks⟩ then {} else fc) (caps start clock) ∧
      (if fc.rewritten ⟨start, clock, blocks⟩ then {} else fc : ScanCov).blocksScanned =
        fc.scanFrom ⟨start, clock, blocks⟩ ∧
      fc.scanFrom ⟨start, clock, blocks⟩ ≤ blocks.length := by
  rw [ScanCov.scanFrom]
  by_cases hre : fc.rewritten ⟨start, clock, blocks⟩ = true
  · rw [if_pos hre, if_pos hre]
    exact ⟨hempty _, rfl, Nat.zero_le _⟩
  rw [if_neg hre, if_neg hre]
  by_cases hnone : fc.blocksScanned = 0
  · exact ⟨hzero _ _ h hnone, rfl, by omega⟩
  have hsame : fc.hdrStartWallNs = start ∧ fc.hdrMonoNs = clock ∧
      fc.blocksScanned ≤ blocks.length := by
    simp only [ScanCov.rewritten, Nat.pos_of_ne_zero hnone, decide_true, Bool.true_and,
      Bool.or_eq_true, decide_eq_true_eq, not_or, not_not, Nat.not_lt] at hre
    exact ⟨hre.1.1, hre.1.2, hre.2⟩
  obtain ⟨rfl, rfl, hle⟩ := hsame
  exact ⟨h, rfl, hle⟩

/-- **One scan.** It queues every new block that holds markers, unless it gives up. -/
theorem covScanRefresh_queue (r : Refresh)
    (hle : fc.scanFrom ⟨start, clock, r.view (caps start clock)⟩ ≤
      (r.view (caps start clock)).length)
    (hmiss : ∀ i, fc.scanFrom ⟨start, clock, r.view (caps start clock)⟩ ≤ i →
      i < r.committed → r.misses i = true → marksAt (caps start clock) i = [])
    (hgave : (covScanRefresh r.queueFails fc
      ⟨start, clock, r.view (caps start clock)⟩).marksIncomplete = false) :
    let fc₀ : ScanCov := if fc.rewritten ⟨start, clock, r.view (caps start clock)⟩ then {} else fc
    let fc' := covScanRefresh r.queueFails fc ⟨start, clock, r.view (caps start clock)⟩
    fc'.hdrStartWallNs = start ∧ fc'.hdrMonoNs = clock ∧
      fc'.blocksScanned = (r.view (caps start clock)).length ∧
      fc'.valid = !(r.view (caps start clock)).isEmpty ∧
      fc'.xmDone = fc₀.xmDone ∧ fc'.xmarks = fc₀.xmarks ∧
      fc'.monoFirst = (if fc₀.blocksScanned = 0 ∧ r.view (caps start clock) ≠ [] then
        indexFirst (caps start clock) else fc₀.monoFirst) ∧
      ∃ queue, fc'.pendingTb = fc₀.pendingTb ++ queue ∧
        queue.Sublist (List.range' fc₀.blocksScanned
          ((r.view (caps start clock)).length - fc₀.blocksScanned)) ∧
        ∀ i, fc₀.blocksScanned ≤ i → i < (r.view (caps start clock)).length → i ∉ queue →
          marksAt (caps start clock) i = [] := by
  dsimp only
  have hfrom : (if fc.rewritten ⟨start, clock, r.view (caps start clock)⟩ then {} else fc :
      ScanCov).blocksScanned = fc.scanFrom ⟨start, clock, r.view (caps start clock)⟩ := by
    rw [ScanCov.scanFrom]
    split_ifs <;> rfl
  rw [covScanRefresh] at hgave ⊢
  dsimp only at hgave ⊢
  generalize (if fc.rewritten ⟨start, clock, r.view (caps start clock)⟩ then {} else fc : ScanCov) =
    fc₀ at hfrom hgave ⊢
  rw [← hfrom] at hmiss hle
  cases hview : r.view (caps start clock) with
  | nil =>
    rw [hview, List.length_nil] at hle
    exact ⟨rfl, rfl, Nat.le_zero.1 hle, rfl, rfl, rfl, (if_neg fun h => h.2 rfl).symm, [],
      (List.append_nil _).symm, List.nil_sublist _, fun i _ hi => absurd hi (Nat.not_lt_zero i)⟩
  | cons first rest =>
    rw [hview] at hgave
    dsimp only at hgave ⊢
    have hfirst : first.indexTs = indexFirst (caps start clock) := indexFirst_view hview
    have hne : first :: rest ≠ [] := List.cons_ne_nil first rest
    rw [← hview] at hgave hne ⊢
    generalize hop : fc₀.opened ⟨start, clock, r.view (caps start clock)⟩ first = fc₁ at hgave ⊢
    obtain ⟨hs₁, hx₁, hm₁, hp₁, -, hstart₁, hclock₁, hmono₁⟩ := opened_frame hop
    have hv₁ : fc₁.valid = true := by
      rw [← hop, ScanCov.opened]
      split_ifs <;> rfl
    have hrs : ∀ p ∈ ((r.view (caps start clock)).drop fc₀.blocksScanned).zipIdx fc₀.blocksScanned,
        (caps start clock)[p.2]? = some p.1 ∨
          p.1.content.header = none ∧ marksAt (caps start clock) p.2 = [] := by
      rintro ⟨v, i⟩ hmem
      obtain ⟨hki, hv⟩ := List.mk_mem_zipIdx_iff_le_and_getElem?_sub.1 hmem
      rw [List.getElem?_drop, Nat.add_sub_cancel' hki] at hv
      exact (getElem?_of_view hv).imp_right fun h => ⟨h.2.2, hmiss i hki h.1 h.2.1⟩
    obtain ⟨-, queue, hqueue, hsub, hmarks⟩ := foldl_covScanHeader_queue r.queueFails hrs hgave
    obtain ⟨hv, hs, hc, hm, -⟩ := foldl_covScanHeader_extent r.queueFails
      (((r.view (caps start clock)).drop fc₀.blocksScanned).zipIdx fc₀.blocksScanned) fc₁
    obtain ⟨-, hxd, hxm⟩ := foldl_covScanHeader_frame r.queueFails
      (((r.view (caps start clock)).drop fc₀.blocksScanned).zipIdx fc₀.blocksScanned) fc₁
    generalize ((((r.view (caps start clock)).drop fc₀.blocksScanned).zipIdx
      fc₀.blocksScanned).foldl (covScanHeader r.queueFails) fc₁) = fc₂ at *
    rw [List.length_drop] at hsub hmarks
    refine ⟨hs.trans hstart₁, hc.trans hclock₁, rfl, ?_, hxd.trans hx₁,
      hxm.trans hm₁, ?_, queue, by rw [← hp₁]; exact hqueue, hsub, fun i hki hi hout =>
        hmarks i (List.mem_range'_1.2 ⟨hki, by omega⟩) hout⟩
    · rw [List.isEmpty_eq_false_iff.2 hne]
      exact hv.trans hv₁
    · rw [hm, hmono₁, hfirst]
      simp only [hne, ne_eq, not_false_eq_true, and_true]

/-- What a scan queues leaves none of the markers out. -/
theorem covScanRefresh_kept (h : fc.MarksKept (caps fc.hdrStartWallNs fc.hdrMonoNs)) (r : Refresh)
    (hmiss : ∀ i, fc.scanFrom ⟨start, clock, r.view (caps start clock)⟩ ≤ i →
      i < r.committed → r.misses i = true → marksAt (caps start clock) i = [])
    (hgave : (covScanRefresh r.queueFails fc
      ⟨start, clock, r.view (caps start clock)⟩).marksIncomplete = false) :
    let fc' := covScanRefresh r.queueFails fc ⟨start, clock, r.view (caps start clock)⟩
    fc'.MarksKept (caps fc'.hdrStartWallNs fc'.hdrMonoNs) ∧ fc'.hdrStartWallNs = start ∧
      fc'.hdrMonoNs = clock ∧ fc'.blocksScanned ≤ r.committed := by
  obtain ⟨hbase, hfrom, hle⟩ := scanBase (P := ScanCov.MarksKept) marksKept_empty
    (fun blocks blocks' h hzero => h.of_unscanned hzero blocks') h start clock
    (r.view (caps start clock))
  have hlen : (r.view (caps start clock)).length ≤ r.committed ∧
      (r.view (caps start clock)).length ≤ (caps start clock).length := by
    rw [Refresh.view, List.length_mapIdx, List.length_take]
    omega
  obtain ⟨hs, hc, hn, hv, hxd, hxm, hm, queue, hqueue, hsub, hmarks⟩ :=
    covScanRefresh_queue r hle hmiss hgave
  dsimp only
  generalize covScanRefresh r.queueFails fc ⟨start, clock, r.view (caps start clock)⟩ = fc' at *
  generalize (if fc.rewritten ⟨start, clock, r.view (caps start clock)⟩ then {} else fc : ScanCov) =
    fc₀ at *
  rw [← hfrom] at hle
  have hlt : ∀ i ∈ queue, i < fc'.blocksScanned := fun i hi => by
    have := List.mem_range'_1.1 (hsub.subset hi)
    omega
  rw [hs, hc]
  refine ⟨⟨?_, fun i hi => ?_, ?_, ?_, ?_, fun hvalid => ?_, fun hpos => ?_⟩, rfl, rfl, ?_⟩
  · rw [hn]
    exact hlen.2
  · rw [hqueue, List.mem_append] at hi
    rcases hi with hi | hi
    · exact (hbase.pending_lt i hi).trans_le (hn ▸ hle)
    · exact hlt i hi
  · rw [hqueue, List.flatMap_append, hbase.pending, hn,
      flatMap_eq_of_sublist hsub List.nodup_range' fun i hi hout => ?_, ← List.flatMap_append,
      range_eq_append hle]
    have := List.mem_range'_1.1 hi
    exact hmarks i this.1 (by omega) hout
  · have := hbase.xmDone_le
    rw [hxd, hqueue, List.length_append]
    omega
  · rw [hxm, hxd, hqueue, List.take_append_of_le_length hbase.xmDone_le, hbase.xmarks]
  · rw [hv] at hvalid
    rw [hn]
    exact List.length_pos_iff.2 (by simpa using hvalid)
  · rw [hn] at hpos
    have hne := List.ne_nil_of_length_pos hpos
    rw [hm]
    split_ifs with hzero
    · rfl
    · exact hbase.monoFirst (Nat.pos_of_ne_zero fun h => hzero ⟨h, hne⟩)
  · rw [hn]
    exact hlen.1

end Scan

/-! ### What a run keeps -/

/-- The entry holds the markers of its file, and says so. -/
def CovEntry.Kept (caps : Captures) (e : CovEntry) : Prop :=
  e.cov.MarksKept (caps e.path e.cov.hdrStartWallNs e.cov.hdrMonoNs) ∧
    e.cov.marksIncomplete = false

/-- As long as the index is usable every entry holds the markers of its file. -/
def MarkServer.Kept (caps : Captures) (srv : MarkServer) : Prop :=
  srv.flags.xmUnusable = false → ∀ e ∈ srv.cov, e.Kept caps

/-- The scan of a file loses no marker that it does not notice: a new header that is missed has no
markers behind it, and the array of escalations can grow while markers are retained. -/
structure DirFile.Lossless (caps : Captures) (srv : MarkServer) (f : DirFile) : Prop where
  headers : f.opens = true → ∀ i, (covFind f.path srv.cov).scanFrom
      ⟨f.start, f.clock, f.refresh.view (caps f.path f.start f.clock)⟩ ≤ i →
    i < f.refresh.committed → f.refresh.misses i = true →
      marksAt (caps f.path f.start f.clock) i = []
  escalations : f.opens = true → srv.flags.retainExecMarks = true →
    ∀ b i, f.faults.escFails b i = false

/-- The operation loses no marker that it does not notice. -/
def MarkOp.Lossless (caps : Captures) (srv : MarkServer) : MarkOp → Prop
  | .retain => True
  | .refresh dir =>
    Run.Allowed (refreshFile caps) (DirFile.Lossless caps)
        { srv with cov := srv.cov.filter fun e => dir.any (·.path = e.path) } dir ∧
      (srv.flags.retainExecMarks = true → ∀ f ∈ dir, ∀ b i, f.late.escFails b i = false)

theorem covFind_kept {cov : List CovEntry} (h : ∀ e ∈ cov, e.Kept caps) (path : String) :
    CovEntry.Kept caps ⟨path, covFind path cov⟩ := by
  rw [covFind]
  cases hfind : cov.find? (·.path = path) with
  | none => exact ⟨marksKept_empty _, rfl⟩
  | some e =>
    obtain rfl : e.path = path := by simpa using List.find?_some hfind
    exact h e (List.mem_of_find?_eq_some hfind)

theorem mem_covPut {path : String} {cov : List CovEntry} {e : CovEntry}
    (h : e ∈ covPut path fc cov) : e = ⟨path, fc⟩ ∨ e ∈ cov := by
  rw [covPut] at h
  split_ifs at h
  · obtain ⟨e', he', rfl⟩ := List.mem_map.1 h
    split_ifs
    · exact .inl rfl
    · exact .inr he'
  · exact (List.mem_append.1 h).symm.imp_left List.mem_singleton.1
  · exact .inr h

/-- The scan of one file. -/
theorem covScanMarks_kept {srv : MarkServer} {f : DirFile} (hf : f.Lossless caps srv)
    (h : srv.flags.xmUnusable = false → ∀ e ∈ srv.cov, e.Kept caps) :
    let r := covScanMarks caps srv.flags (covFind f.path srv.cov) f
    r.1.retainExecMarks = srv.flags.retainExecMarks ∧
      (r.1.xmUnusable = false → srv.flags.xmUnusable = false ∧ CovEntry.Kept caps ⟨f.path, r.2⟩) := by
  dsimp only
  rw [covScanMarks]
  cases hopens : f.opens with
  | false =>
    rw [if_pos rfl]
    refine ⟨rfl, fun hu => ⟨hu, ?_⟩⟩
    obtain ⟨hkept, hinc⟩ := covFind_kept (h hu) f.path
    exact ⟨{ hkept with scanned_pos := nofun }, hinc⟩
  | true =>
    rw [if_neg (by decide)]
    dsimp only
    generalize hscan : covScanRefresh f.refresh.queueFails (covFind f.path srv.cov)
      ⟨f.start, f.clock, f.refresh.view (caps f.path f.start f.clock)⟩ = fc
    have hone : srv.flags.xmUnusable = false → fc.marksIncomplete = false →
        fc.MarksKept (caps f.path f.start f.clock) ∧ fc.hdrStartWallNs = f.start ∧
          fc.hdrMonoNs = f.clock ∧ fc.blocksScanned ≤ f.refresh.committed := by
      intro hu hinc
      obtain ⟨hkept, hs, hc, hle⟩ := covScanRefresh_kept
        (covFind_kept (h hu) f.path).1 f.refresh (hf.headers hopens) (by rw [hscan]; exact hinc)
      rw [hscan] at hkept hs hc hle
      rw [hs, hc] at hkept
      exact ⟨hkept, hs, hc, hle⟩
    by_cases hnone : f.blocks caps = []
    · rw [if_pos hnone]
      refine ⟨rfl, fun hu => ?_⟩
      obtain ⟨hu, hinc⟩ := Bool.or_eq_false_iff.1 hu
      obtain ⟨hkept, hs, hc, -⟩ := hone hu hinc
      refine ⟨hu, ?_, hinc⟩
      dsimp only
      rw [hs, hc]
      exact hkept
    · rw [if_neg hnone]
      refine ⟨rfl, fun hu => ?_⟩
      obtain ⟨hu, hinc⟩ := Bool.or_eq_false_iff.1 hu
      obtain ⟨hu, hinc'⟩ := Bool.or_eq_false_iff.1 hu
      obtain ⟨hkept, hs, hc, hle⟩ := hone hu hinc'
      obtain ⟨hkept', -⟩ := covDecodeMarkers_kept (f := f.faults)
        (show (srv.flags.latch fc).retainExecMarks = true → _ from hf.escalations hopens)
        hkept hle hinc
      obtain ⟨hs', hc', -⟩ :=
        covDecodeMarkers_frame fc f.faults (srv.flags.latch fc) (f.blocks caps)
      refine ⟨hu, ?_, hinc⟩
      dsimp only
      rw [hs', hc', hs, hc]
      exact hkept'

theorem refreshFile_kept {srv : MarkServer} {f : DirFile} (hf : f.Lossless caps srv)
    (h : srv.Kept caps) :
    (refreshFile caps srv f).Kept caps ∧
      (refreshFile caps srv f).flags.retainExecMarks = srv.flags.retainExecMarks := by
  rw [refreshFile]
  split_ifs with hroom
  · obtain ⟨hretain, hkept⟩ := covScanMarks_kept hf h
    refine ⟨fun hu e he => ?_, hretain⟩
    obtain ⟨hu', hnew⟩ := hkept hu
    rcases mem_covPut he with rfl | he
    · exact hnew
    · exact h hu' e he
  · exact ⟨h, rfl⟩

/-- The decode of an entry when samples appear for the first time. -/
theorem lateDecode_kept {dir : List DirFile} {r : MarkFlags × List CovEntry}
    (hesc : r.1.retainExecMarks = true → ∀ f ∈ dir, ∀ b i, f.late.escFails b i = false)
    {e : CovEntry} (he : r.1.xmUnusable = false → e.Kept caps)
    (h : r.1.xmUnusable = false → ∀ e ∈ r.2, e.Kept caps) :
    (lateDecode caps dir r e).1.retainExecMarks = r.1.retainExecMarks ∧
      ((lateDecode caps dir r e).1.xmUnusable = false →
        r.1.xmUnusable = false ∧ ∀ e' ∈ (lateDecode caps dir r e).2, e'.Kept caps) := by
  have hsame : r.1.xmUnusable = false →
      r.1.xmUnusable = false ∧ ∀ e' ∈ r.2 ++ [e], e'.Kept caps := by
    intro hu
    refine ⟨hu, fun e' he' => ?_⟩
    rcases List.mem_append.1 he' with he' | he'
    · exact h hu e' he'
    · rw [List.mem_singleton.1 he']
      exact he hu
  rw [lateDecode]
  cases hfind : dir.find? (·.path = e.path) with
  | none => exact ⟨rfl, hsame⟩
  | some f =>
    dsimp only
    split_ifs
    · refine ⟨rfl, fun hu => ?_⟩
      obtain ⟨hu, hinc⟩ := Bool.or_eq_false_iff.1 hu
      refine ⟨hu, fun e' he' => ?_⟩
      rcases List.mem_append.1 he' with he' | he'
      · exact h hu e' he'
      · obtain ⟨hkept, -⟩ := covDecodeMarkers_kept (f := f.late)
          (fun hr => hesc hr f (List.mem_of_find?_eq_some hfind)) (he hu).1 le_rfl hinc
        obtain ⟨hs, hc, -⟩ := covDecodeMarkers_frame e.cov f.late r.1 (e.blocks caps)
        rw [List.mem_singleton.1 he']
        refine ⟨?_, hinc⟩
        dsimp only
        rw [hs, hc]
        exact hkept
    · exact ⟨rfl, hsame⟩

theorem foldl_lateDecode_kept {dir : List DirFile} (entries : List CovEntry)
    {r : MarkFlags × List CovEntry}
    (hesc : r.1.retainExecMarks = true → ∀ f ∈ dir, ∀ b i, f.late.escFails b i = false)
    (he : r.1.xmUnusable = false → ∀ e ∈ entries, e.Kept caps)
    (h : r.1.xmUnusable = false → ∀ e ∈ r.2, e.Kept caps)
    (hu : (entries.foldl (lateDecode caps dir) r).1.xmUnusable = false) :
    ∀ e ∈ (entries.foldl (lateDecode caps dir) r).2, e.Kept caps := by
  induction entries generalizing r with
  | nil => exact h hu
  | cons e entries ih =>
    obtain ⟨hretain, hkept⟩ := lateDecode_kept hesc
      (fun hu => he hu e List.mem_cons_self) h
    exact ih (by rw [hretain]; exact hesc)
      (fun hu e' he' => he (hkept hu).1 e' (List.mem_cons_of_mem e he'))
      (fun hu => (hkept hu).2) hu

/-- One operation. -/
theorem markStep_kept {srv : MarkServer} {op : MarkOp} (h : srv.Kept caps)
    (hop : op.Lossless caps srv) : (markStep caps srv op).Kept caps := by
  cases op with
  | retain => exact h
  | refresh dir =>
    obtain ⟨hfiles, hlate⟩ := hop
    rw [markStep, MarkServer.coverageRefresh]
    dsimp only
    have hstart : ({ srv with cov := srv.cov.filter fun e => dir.any (·.path = e.path) } :
        MarkServer).Kept caps := fun hu e he => h hu e (List.mem_filter.1 he).1
    generalize hsrv : dir.foldl (refreshFile caps)
      { srv with cov := srv.cov.filter fun e => dir.any (·.path = e.path) } = srv₁
    obtain ⟨hkept, hretain⟩ : srv₁.Kept caps ∧
        srv₁.flags.retainExecMarks = srv.flags.retainExecMarks := by
      have hfile : ∀ (s : MarkServer) (f : DirFile),
          (s.Kept caps ∧ s.flags.retainExecMarks = srv.flags.retainExecMarks) →
          f.Lossless caps s → (refreshFile caps s f).Kept caps ∧
            (refreshFile caps s f).flags.retainExecMarks = srv.flags.retainExecMarks := by
        intro s f hs hf
        obtain ⟨hk, hr⟩ := refreshFile_kept hf hs.1
        exact ⟨hk, hr.trans hs.2⟩
      rw [← hsrv]
      exact hfiles.invariant hfile dir _ ⟨hstart, rfl⟩
    generalize hr : (if (srv₁.flags.anySamples && !srv.flags.anySamples) = true then
      srv₁.cov.foldl (lateDecode caps dir) (srv₁.flags, []) else (srv₁.flags, srv₁.cov)) = r
    have hdecoded : r.1.xmUnusable = false → ∀ e ∈ r.2, e.Kept caps := by
      rw [← hr]
      split_ifs
      · exact foldl_lateDecode_kept srv₁.cov (by rw [hretain]; exact hlate) hkept fun _ => nofun
      · exact hkept
    intro hu e he
    change r.1.xmUnusable = false at hu
    dsimp only at he
    rw [hu, if_neg Bool.false_ne_true, List.mem_insertionSort] at he
    exact hdecoded hu e he

theorem flatMap_range_marksAt (blocks : List ReaderBlock) (n : ℕ) :
    (List.range n).flatMap (marksAt blocks) =
      marksOf ((blocks.take n).flatMap (·.content.records)) := by
  induction n with
  | zero => rfl
  | succ n ih =>
    rw [List.range_succ, List.flatMap_append, ih, List.take_add_one, List.flatMap_append,
      marksOf_append, List.flatMap_singleton, marksAt]
    cases blocks[n]? with
    | none => rfl
    | some b => rw [Option.map_some, Option.getD_some, Option.toList_some, List.flatMap_singleton]

/-- **What a run keeps.** If no refresh of the run loses a marker that it does not notice, a usable
index holds the markers of all the blocks that have been scanned, in the order of the file. -/
theorem markRun_kept {ops : List MarkOp}
    (hrun : Run.Allowed (markStep caps) (MarkOp.Lossless caps) {} ops) {hatch : Bool}
    (husable : execPrefixIndexUsable hatch (ops.foldl (markStep caps) {}) = true) :
    ∀ e ∈ (ops.foldl (markStep caps) {}).cov, e.cov.valid = true →
      e.cov.xmarks = marksOf ((e.blocks caps).flatMap (·.content.records)) ∧
        e.cov.monoFirst = indexFirst (e.blocks caps) := by
  have hkept : (ops.foldl (markStep caps) {}).Kept caps :=
    hrun.invariant (fun srv op h hop => markStep_kept h hop) ops {} fun _ => nofun
  simp only [execPrefixIndexUsable, Bool.and_eq_true, Bool.not_eq_eq_eq_not, Bool.not_true,
    List.all_eq_true, Bool.or_eq_true, decide_eq_true_eq] at husable
  obtain ⟨⟨-, hu⟩, hall⟩ := husable
  intro e he hvalid
  obtain ⟨h, -⟩ := hkept hu e he
  have hdone : e.cov.pendingTb.length ≤ e.cov.xmDone := by
    rcases hall e he with hv | hv
    · rw [hvalid] at hv
      cases hv
    · exact hv.2
  have hpos := h.scanned_pos hvalid
  refine ⟨?_, ?_⟩
  · rw [h.xmarks, List.take_of_length_le hdone, h.pending, flatMap_range_marksAt, CovEntry.blocks]
  · rw [h.monoFirst hpos, CovEntry.blocks, indexFirst, indexFirst, List.head?_take,
      if_neg hpos.ne']

end PgWaitTracer
