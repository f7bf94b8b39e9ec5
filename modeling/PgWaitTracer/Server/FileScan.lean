import PgWaitTracer.Server.LoadRange

/-!
# The header scan of a trace file

`cov_scan_file` (`src/server.c`) is called at every refresh and reads the headers of the blocks that
it has not seen yet. From them it keeps the extent of the file, the longest sample period and the
queue of the blocks of transitions. The first timestamp of the file is that of the first index entry.
A header that cannot be read is passed over, and the watermark moves past it.

A daemon that restarts writes `current.trace` anew; the entry then starts over.

## Main results

* `covScanRun_scanned` : what a growing run of refreshes leaves in the entry.
-/

namespace PgWaitTracer

/-! ### The scan -/

/-- `struct pgwt_exec_mark`: a retained marker, counted from `EXEC_START`. -/
structure ExecMark where
  ts : UInt64
  queryId : UInt64
  pid : UInt32
  flags : UInt32
  marker : UInt32
  deriving DecidableEq, Repr

/-- `struct pgwt_file_cov`, as far as the scan fills it. -/
structure ScanCov where
  valid : Bool := false
  hdrStartWallNs : UInt64 := 0
  hdrMonoNs : UInt64 := 0
  monoFirst : ℕ := 0
  monoLast : ℕ := 0
  hasSamples : Bool := false
  maxSamplePeriodNs : ℕ := 0
  blocksScanned : ℕ := 0
  pendingTb : List ℕ := []
  escDone : ℕ := 0
  xmDone : ℕ := 0
  xmarks : List ExecMark := []
  marksIncomplete : Bool := false
  deriving DecidableEq, Repr

/-- What `pgwt_reader_open` finds: the clocks of the file header and the committed blocks. A block
that cannot be read at the time is `unreadable`. -/
structure FileView where
  startTimeNs : UInt64
  clockOffsetNs : UInt64
  blocks : List ReaderBlock

/-- The header clocks moved or the file has fewer blocks: it has been written anew. -/
def ScanCov.rewritten (fc : ScanCov) (view : FileView) : Bool :=
  0 < fc.blocksScanned &&
    (fc.hdrStartWallNs ≠ view.startTimeNs || fc.hdrMonoNs ≠ view.clockOffsetNs ||
      view.blocks.length < fc.blocksScanned)

/-- One header of the scan. `queueFails` says that the queue of transitions could not grow. -/
def covScanHeader (queueFails : ℕ → Bool) (fc : ScanCov) (r : ReaderBlock × ℕ) : ScanCov :=
  match r.1.content.header with
  | none => fc
  | some info =>
    let fc := { fc with monoLast := max fc.monoLast info.lastNs }
    if info.isSample then
      { fc with
        hasSamples := true
        maxSamplePeriodNs := max fc.maxSamplePeriodNs info.samplePeriodNs.toNat }
    else if queueFails r.2 then { fc with marksIncomplete := true }
    else { fc with pendingTb := fc.pendingTb ++ [r.2] }

/-- The entry of a file with blocks before its headers are scanned. A new entry starts at the first
index entry. -/
def ScanCov.opened (fc : ScanCov) (view : FileView) (first : ReaderBlock) : ScanCov :=
  let fc := { fc with
    valid := true
    hdrStartWallNs := view.startTimeNs
    hdrMonoNs := view.clockOffsetNs }
  if fc.blocksScanned = 0 then { fc with monoFirst := first.indexTs, monoLast := first.indexTs }
  else fc

/-- `cov_scan_file` up to the decode of the markers, on the entry of earlier refreshes. -/
def covScanRefresh (queueFails : ℕ → Bool) (fc : ScanCov) (view : FileView) : ScanCov :=
  let fc := if fc.rewritten view then {} else fc
  match view.blocks with
  | [] => { fc with
      valid := false
      hdrStartWallNs := view.startTimeNs
      hdrMonoNs := view.clockOffsetNs }
  | first :: _ =>
    let fc := ((view.blocks.drop fc.blocksScanned).zipIdx fc.blocksScanned).foldl
      (covScanHeader queueFails) (fc.opened view first)
    { fc with blocksScanned := view.blocks.length }

/-! ### Runs of refreshes -/

/-- A block of which nothing can be read for now. -/
def ReaderBlock.hide (b : ReaderBlock) : ReaderBlock where
  indexTs := b.indexTs
  fileOffset := b.fileOffset
  content := .unreadable
  indexTs_le := b.indexTs_le
  indexed := nofun
  shape := nofun

/-- A refresh sees the blocks that are committed, and may fail to read some of them. -/
structure Refresh where
  committed : ℕ
  misses : ℕ → Bool
  queueFails : ℕ → Bool

/-- The blocks of a file as a refresh sees them. -/
def Refresh.view (r : Refresh) (blocks : List ReaderBlock) : List ReaderBlock :=
  (blocks.take r.committed).mapIdx fun i b => if r.misses i then b.hide else b

/-- The entry after a run of refreshes over one capture. -/
def covScanRun (start clock : UInt64) (blocks : List ReaderBlock) (fc : ScanCov)
    (refreshes : List Refresh) : ScanCov :=
  refreshes.foldl (fun fc r => covScanRefresh r.queueFails fc ⟨start, clock, r.view blocks⟩) fc

/-- The first refresh that sees a block reads its header, or nobody does. -/
def readAt (refreshes : List Refresh) (i : ℕ) : Bool :=
  (refreshes.find? fun r => i < r.committed).any fun r => !r.misses i

/-- The file grows from `k` blocks to `n`. -/
inductive Growing : ℕ → ℕ → List Refresh → Prop
  /-- Nothing happens. -/
  | done (n : ℕ) : Growing n n []
  /-- A refresh sees `m` blocks. -/
  | more {k n : ℕ} {r : Refresh} {rest : List Refresh} (hle : k ≤ r.committed)
      (hrest : Growing r.committed n rest) : Growing k n (r :: rest)

variable {Q : BlockMeta → Prop} {blocks : List ReaderBlock} {fc : ScanCov} {clock start : UInt64}
  {k : ℕ} {read : ℕ → Bool}

theorem Growing.le {n : ℕ} {refreshes : List Refresh} (h : Growing k n refreshes) : k ≤ n := by
  induction h with
  | done n => exact le_rfl
  | more hle _ ih => exact hle.trans ih

/-! ### What a run leaves -/

/-- The first timestamp that the index of a file names. -/
def indexFirst (blocks : List ReaderBlock) : ℕ := (blocks.head?.map (·.indexTs)).getD 0

/-- Of the blocks from `lo` to `hi`, one header that was read says `Q`. -/
def HeaderRead (blocks : List ReaderBlock) (read : ℕ → Bool) (lo hi : ℕ) (Q : BlockMeta → Prop) :
    Prop :=
  ∃ i b info, lo ≤ i ∧ i < hi ∧ blocks[i]? = some b ∧ read i = true ∧
    b.content.header = some info ∧ Q info

/-- The entry holds what the headers of the first `k` blocks say, as far as they were read. -/
structure ScanCov.Scanned (fc : ScanCov) (start clock : UInt64) (blocks : List ReaderBlock)
    (read : ℕ → Bool) (k : ℕ) : Prop where
  blocksScanned : fc.blocksScanned = k
  valid : 0 < k → fc.valid = true
  start_eq : 0 < k → fc.hdrStartWallNs = start
  clock_eq : 0 < k → fc.hdrMonoNs = clock
  monoFirst : 0 < k → fc.monoFirst = indexFirst blocks
  le_monoLast : 0 < k → ∀ x, x ≤ fc.monoLast ↔
    x ≤ indexFirst blocks ∨ HeaderRead blocks read 0 k fun info => x ≤ info.lastNs
  le_maxSamplePeriodNs : ∀ x, x ≤ fc.maxSamplePeriodNs ↔
    x = 0 ∨ HeaderRead blocks read 0 k fun info =>
      info.isSample = true ∧ x ≤ info.samplePeriodNs.toNat

theorem HeaderRead.congr {read' : ℕ → Bool} {lo hi : ℕ}
    (h : ∀ i, lo ≤ i → i < hi → read i = read' i) :
    HeaderRead blocks read lo hi Q ↔ HeaderRead blocks read' lo hi Q := by
  constructor
  · rintro ⟨i, b, info, hlo, hhi, hb, hread, hrest⟩
    exact ⟨i, b, info, hlo, hhi, hb, (h i hlo hhi) ▸ hread, hrest⟩
  · rintro ⟨i, b, info, hlo, hhi, hb, hread, hrest⟩
    exact ⟨i, b, info, hlo, hhi, hb, (h i hlo hhi).symm ▸ hread, hrest⟩

theorem headerRead_split {m : ℕ} (hkm : k ≤ m) : HeaderRead blocks read 0 m Q ↔
      HeaderRead blocks read 0 k Q ∨ HeaderRead blocks read k m Q := by
  constructor
  · rintro ⟨i, b, info, -, him, hrest⟩
    by_cases hik : i < k
    · exact .inl ⟨i, b, info, Nat.zero_le _, hik, hrest⟩
    · exact .inr ⟨i, b, info, Nat.not_lt.1 hik, him, hrest⟩
  · rintro (⟨i, b, info, hlo, hik, hrest⟩ | ⟨i, b, info, -, him, hrest⟩)
    · exact ⟨i, b, info, hlo, by omega, hrest⟩
    · exact ⟨i, b, info, Nat.zero_le _, him, hrest⟩

theorem length_view {r : Refresh} (h : r.committed ≤ blocks.length) :
    (r.view blocks).length = r.committed := by
  rw [Refresh.view, List.length_mapIdx, List.length_take, Nat.min_eq_left h]

theorem getElem?_view (r : Refresh) (blocks : List ReaderBlock) (i : ℕ) :
    (r.view blocks)[i]? = if i < r.committed then
      blocks[i]?.map fun b => if r.misses i then b.hide else b
    else none := by
  rw [Refresh.view, List.getElem?_mapIdx, List.getElem?_take]
  split_ifs <;> rfl

theorem exists_view_header {r : Refresh} :
    (∃ p ∈ ((r.view blocks).drop k).zipIdx k, ∃ info, p.1.content.header = some info ∧ Q info) ↔
      HeaderRead blocks (fun i => !r.misses i) k r.committed Q := by
  constructor
  · rintro ⟨⟨v, i⟩, hmem, info, hinfo, hQ⟩
    obtain ⟨hki, hv⟩ := List.mk_mem_zipIdx_iff_le_and_getElem?_sub.1 hmem
    rw [List.getElem?_drop, Nat.add_sub_cancel' hki, getElem?_view] at hv
    have hi : i < r.committed := by
      by_contra hi
      rw [if_neg hi] at hv
      exact absurd hv nofun
    rw [if_pos hi] at hv
    obtain ⟨b, hb, rfl⟩ := Option.map_eq_some_iff.1 hv
    cases hmiss : r.misses i with
    | true => simp [hmiss, ReaderBlock.hide, BlockContent.header] at hinfo
    | false =>
      simp only [hmiss, Bool.false_eq_true, if_false] at hinfo
      exact ⟨i, b, info, hki, hi, hb, by simp [hmiss], hinfo, hQ⟩
  · rintro ⟨i, b, info, hki, hi, hb, hread, hinfo, hQ⟩
    simp only [Bool.not_eq_true'] at hread
    refine ⟨(b, i), ?_, info, hinfo, hQ⟩
    rw [List.mk_mem_zipIdx_iff_le_and_getElem?_sub]
    refine ⟨hki, ?_⟩
    rw [List.getElem?_drop, Nat.add_sub_cancel' hki, getElem?_view, if_pos hi, hb, hread]
    rfl

theorem covScanHeader_extent (queueFails : ℕ → Bool) (fc : ScanCov) (r : ReaderBlock × ℕ) :
    (covScanHeader queueFails fc r).valid = fc.valid ∧
      (covScanHeader queueFails fc r).hdrStartWallNs = fc.hdrStartWallNs ∧
      (covScanHeader queueFails fc r).hdrMonoNs = fc.hdrMonoNs ∧
      (covScanHeader queueFails fc r).monoFirst = fc.monoFirst ∧
      (∀ x, x ≤ (covScanHeader queueFails fc r).monoLast ↔
        x ≤ fc.monoLast ∨ ∃ info, r.1.content.header = some info ∧ x ≤ info.lastNs) ∧
      ∀ x, x ≤ (covScanHeader queueFails fc r).maxSamplePeriodNs ↔
        x ≤ fc.maxSamplePeriodNs ∨ ∃ info, r.1.content.header = some info ∧
          info.isSample = true ∧ x ≤ info.samplePeriodNs.toNat := by
  rw [covScanHeader]
  cases hh : r.1.content.header with
  | none => simp
  | some info =>
    cases hs : info.isSample with
    | true => simp [hs]
    | false =>
      cases queueFails r.2 <;> simp [hs]

theorem foldl_covScanHeader_extent (queueFails : ℕ → Bool) (rs : List (ReaderBlock × ℕ))
    (fc : ScanCov) :
    (rs.foldl (covScanHeader queueFails) fc).valid = fc.valid ∧
      (rs.foldl (covScanHeader queueFails) fc).hdrStartWallNs = fc.hdrStartWallNs ∧
      (rs.foldl (covScanHeader queueFails) fc).hdrMonoNs = fc.hdrMonoNs ∧
      (rs.foldl (covScanHeader queueFails) fc).monoFirst = fc.monoFirst ∧
      (∀ x, x ≤ (rs.foldl (covScanHeader queueFails) fc).monoLast ↔
        x ≤ fc.monoLast ∨ ∃ r ∈ rs, ∃ info, r.1.content.header = some info ∧ x ≤ info.lastNs) ∧
      ∀ x, x ≤ (rs.foldl (covScanHeader queueFails) fc).maxSamplePeriodNs ↔
        x ≤ fc.maxSamplePeriodNs ∨ ∃ r ∈ rs, ∃ info, r.1.content.header = some info ∧
          info.isSample = true ∧ x ≤ info.samplePeriodNs.toNat := by
  induction rs generalizing fc with
  | nil => simp
  | cons r rs ih =>
    obtain ⟨hv, hs, hc, hf, hl, hp⟩ := ih (covScanHeader queueFails fc r)
    obtain ⟨hv', hs', hc', hf', hl', hp'⟩ := covScanHeader_extent queueFails fc r
    rw [List.foldl_cons]
    refine ⟨hv.trans hv', hs.trans hs', hc.trans hc', hf.trans hf', fun x => ?_, fun x => ?_⟩
    · rw [hl, hl']
      simp only [List.mem_cons, exists_eq_or_imp, or_assoc]
    · rw [hp, hp']
      simp only [List.mem_cons, exists_eq_or_imp, or_assoc]

theorem indexFirst_view {r : Refresh} {b : ReaderBlock} {rest : List ReaderBlock}
    (h : r.view blocks = b :: rest) : b.indexTs = indexFirst blocks := by
  have hzero : (r.view blocks)[0]? = some b := by rw [h]; rfl
  rw [getElem?_view] at hzero
  have hpos : 0 < r.committed := by
    by_contra hpos
    rw [if_neg hpos] at hzero
    exact absurd hzero nofun
  rw [if_pos hpos] at hzero
  obtain ⟨b₀, hb₀, rfl⟩ := Option.map_eq_some_iff.1 hzero
  rw [indexFirst, List.head?_eq_getElem?, hb₀, Option.map_some, Option.getD_some]
  split_ifs <;> rfl

theorem rewritten_eq_false (h : fc.Scanned start clock blocks read k) {view : List ReaderBlock}
    (hk : k ≤ view.length) : fc.rewritten ⟨start, clock, view⟩ = false := by
  rw [ScanCov.rewritten, h.blocksScanned]
  by_cases hpos : 0 < k
  · simp [hpos, h.start_eq hpos, h.clock_eq hpos, hk]
  · simp [hpos]

theorem not_headerRead_zero : ¬HeaderRead blocks read 0 0 Q := by
  rintro ⟨i, b, info, -, hi, -⟩
  exact absurd hi (Nat.not_lt_zero i)

theorem opened_extent (h : fc.Scanned start clock blocks read k) (view : List ReaderBlock)
    {first : ReaderBlock} (hfirst : first.indexTs = indexFirst blocks) :
    (fc.opened ⟨start, clock, view⟩ first).blocksScanned = k ∧
      (fc.opened ⟨start, clock, view⟩ first).valid = true ∧
      (fc.opened ⟨start, clock, view⟩ first).hdrStartWallNs = start ∧
      (fc.opened ⟨start, clock, view⟩ first).hdrMonoNs = clock ∧
      (fc.opened ⟨start, clock, view⟩ first).monoFirst = indexFirst blocks ∧
      (∀ x, x ≤ (fc.opened ⟨start, clock, view⟩ first).monoLast ↔
        x ≤ indexFirst blocks ∨ HeaderRead blocks read 0 k fun info => x ≤ info.lastNs) ∧
      (fc.opened ⟨start, clock, view⟩ first).maxSamplePeriodNs = fc.maxSamplePeriodNs := by
  rw [ScanCov.opened]
  simp only [h.blocksScanned]
  by_cases hk : k = 0
  · subst hk
    rw [if_pos rfl]
    refine ⟨rfl, rfl, rfl, rfl, hfirst, fun x => ?_, rfl⟩
    simp only [hfirst, not_headerRead_zero, or_false]
  · rw [if_neg hk]
    have hpos := Nat.pos_of_ne_zero hk
    exact ⟨rfl, rfl, rfl, rfl, h.monoFirst hpos, h.le_monoLast hpos, rfl⟩

/-- **One refresh.** It adds what the headers of the new blocks say, as far as it can read them. -/
theorem covScanRefresh_scanned (h : fc.Scanned start clock blocks read k) {r : Refresh}
    (hk : k ≤ r.committed) (hr : r.committed ≤ blocks.length) :
    (covScanRefresh r.queueFails fc ⟨start, clock, r.view blocks⟩).Scanned start clock blocks
      (fun i => if i < k then read i else !r.misses i) r.committed := by
  have hlen := length_view hr
  have hold : ∀ Q, HeaderRead blocks (fun i => if i < k then read i else !r.misses i) 0 k Q ↔
      HeaderRead blocks read 0 k Q := fun Q =>
    HeaderRead.congr fun i _ hi => if_pos hi
  have hnew : ∀ Q, HeaderRead blocks (fun i => if i < k then read i else !r.misses i) k
      r.committed Q ↔ HeaderRead blocks (fun i => !r.misses i) k r.committed Q := fun Q =>
    HeaderRead.congr fun i hi _ => if_neg (Nat.not_lt.2 hi)
  rw [covScanRefresh, rewritten_eq_false h (hk.trans hlen.ge)]
  simp only [Bool.false_eq_true, if_false]
  cases hview : r.view blocks with
  | nil =>
    have hzero : r.committed = 0 := by rw [← hlen, hview]; rfl
    obtain rfl : k = 0 := by omega
    rw [hzero]
    refine ⟨h.blocksScanned, nofun, nofun, nofun, nofun, nofun, fun x => ?_⟩
    rw [hold]
    exact h.le_maxSamplePeriodNs x
  | cons first rest =>
    obtain ⟨-, hv, hs, hc, hf, hl, hp⟩ := opened_extent h (first :: rest) (indexFirst_view hview)
    obtain ⟨hv', hs', hc', hf', hl', hp'⟩ := foldl_covScanHeader_extent r.queueFails
      (((first :: rest).drop fc.blocksScanned).zipIdx fc.blocksScanned)
      (fc.opened ⟨start, clock, first :: rest⟩ first)
    rw [hview] at hlen
    refine ⟨hlen, fun _ => hv'.trans hv, fun _ => hs'.trans hs, fun _ => hc'.trans hc,
      fun _ => hf'.trans hf, fun _ x => ?_, fun x => ?_⟩
    · rw [headerRead_split hk, hold, hnew, ← exists_view_header, ← or_assoc, ← hl x, hview,
        ← h.blocksScanned]
      exact hl' x
    · rw [headerRead_split hk, hold, hnew, ← exists_view_header, ← or_assoc,
        ← h.le_maxSamplePeriodNs x, ← hp, hview, ← h.blocksScanned]
      exact hp' x

/-- **A growing run of refreshes.** Each block is judged by the first refresh that sees it. -/
theorem covScanRun_scanned {n : ℕ} {refreshes : List Refresh} (hgrow : Growing k n refreshes)
    (hn : n ≤ blocks.length) (h : fc.Scanned start clock blocks read k) :
    (covScanRun start clock blocks fc refreshes).Scanned start clock blocks
      (fun i => if i < k then read i else readAt refreshes i) n := by
  induction hgrow generalizing fc read with
  | done n =>
    have hcongr : ∀ Q, HeaderRead blocks (fun i => if i < n then read i else readAt [] i) 0 n Q ↔
        HeaderRead blocks read 0 n Q := fun Q => HeaderRead.congr fun i _ hi => if_pos hi
    refine ⟨h.blocksScanned, h.valid, h.start_eq, h.clock_eq, h.monoFirst, fun hpos x => ?_,
      fun x => ?_⟩
    · rw [hcongr]
      exact h.le_monoLast hpos x
    · rw [hcongr]
      exact h.le_maxSamplePeriodNs x
  | @more k n r rest hle hrest ih =>
    have hr : r.committed ≤ blocks.length := hrest.le.trans hn
    have hih := ih hn (covScanRefresh_scanned h hle hr)
    have hread : (fun i => if i < r.committed then if i < k then read i else !r.misses i
        else readAt rest i) = fun i => if i < k then read i else readAt (r :: rest) i := by
      funext i
      rw [readAt, readAt, List.find?_cons]
      by_cases hi : i < r.committed
      · simp [hi]
      · have hik : ¬i < k := by omega
        simp [hi, hik]
    rw [hread] at hih
    exact hih

end PgWaitTracer
