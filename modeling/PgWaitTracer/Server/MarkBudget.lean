import Mathlib.Algebra.BigOperators.Group.List.Basic
import PgWaitTracer.Server.MarkIndex

/-!
# The budget of the retained markers

The retained markers of a file are in an array, and the arrays of all files share a budget of bytes
(`exec_mark_max_bytes`, `src/server.c`). An array grows by what it holds already, or by 1024 markers
at first; the step is at most 64 MiB and at most what is left of the budget. An array that cannot
grow makes the index unusable for good, and the refresh then releases all arrays. A file that is
gone or has been written anew gives its bytes back.

A loss that the scan notices makes the index unusable. Two are not noticed: a header that cannot
be read leaves its block out of the queue, and a file that is opened a second time in one refresh,
for the samples that have appeared, may be another one by then. A queued block that is no longer
there is skipped, and counts as decoded.

## Main results

* `covDecodeMarkers_forget` : without the capacities, the decode is that of the index of markers.
* `accounts_heldRun` : every run accounts for the bytes.
* `markBudget_run` : in a run whose losses are noticed, a loss leaves the index unusable for good.
-/

namespace PgWaitTracer

/-! ### Growth -/

/-- `sizeof(struct pgwt_exec_mark)`. -/
def execMarkSize : ℕ := 24

/-- `XM_GROW_STEP_BYTES`. -/
def xmGrowStepBytes : ℕ := 64 * 1024 * 1024

/-- The markers by which an array is to grow. -/
def growStep (budget xmBytes cap : ℕ) : ℕ :=
  let room := if xmBytes < budget then budget - xmBytes else 0
  let stepBytes := cap * execMarkSize
  let stepBytes := if stepBytes = 0 then 1024 * execMarkSize else stepBytes
  let stepBytes := if xmGrowStepBytes < stepBytes then xmGrowStepBytes else stepBytes
  let stepBytes := if room < stepBytes then room else stepBytes
  stepBytes / execMarkSize

/-- The array of a file while it is filled, with the bytes of all files and their peak. -/
structure HeldMarks where
  xmarks : List ExecMark
  capXmarks : ℕ
  xmBytes : ℕ
  xmPeakBytes : ℕ
  deriving DecidableEq, Repr

/-- A marker goes into the array, unless the array cannot grow for it. A capacity is an `int`. -/
def HeldMarks.push (budget : ℕ) (fails : Bool) (a : HeldMarks) (m : ExecMark) : Option HeldMarks :=
  if a.capXmarks ≤ a.xmarks.length then
    let step := growStep budget a.xmBytes a.capXmarks
    if step = 0 || 2 ^ 31 ≤ a.capXmarks + step || fails then none
    else some {
      xmarks := a.xmarks ++ [m]
      capXmarks := a.capXmarks + step
      xmBytes := a.xmBytes + step * execMarkSize
      xmPeakBytes := max a.xmPeakBytes (a.xmBytes + step * execMarkSize) }
  else some { a with xmarks := a.xmarks ++ [m] }

/-! ### Decoding the queue -/

/-- The state of the decode loop. -/
structure HeldDecode where
  held : HeldMarks
  wantXm : Bool
  gaveUp : Bool := false
  aborted : Bool := false
  deriving DecidableEq, Repr

/-- One record of the block `b`, at the place `p` of the queue. `f.xmFails` says at which records
the array cannot be allocated anew. -/
def heldMarkRecord (budget : ℕ) (f : DecodeFaults) (fc : ScanCov) (wantEsc : Bool) (b p : ℕ)
    (st : HeldDecode) (r : TraceEvent × ℕ) : HeldDecode :=
  if st.aborted then st
  else if wantEsc && fc.escDone ≤ p && r.1.isEscalation && f.escFails b r.2 then
    { st with aborted := true }
  else if st.wantXm && fc.xmDone ≤ p && isMarker r.1.oldEvent then
    match st.held.push budget (f.xmFails b r.2) r.1.toExecMark with
    | none => { st with wantXm := false, gaveUp := true }
    | some held => { st with held := held }
  else st

/-- One block of the queue. -/
def heldMarkBlock (budget : ℕ) (f : DecodeFaults) (fc : ScanCov) (wantEsc : Bool)
    (blocks : List ReaderBlock) (st : HeldDecode) (q : ℕ × ℕ) : HeldDecode :=
  let b := q.1
  let p := q.2
  let xmHere := st.wantXm && fc.xmDone ≤ p
  if st.aborted || !(wantEsc && fc.escDone ≤ p || xmHere) then st
  else
    match blocks[b]? with
    | none => st
    | some block =>
      match f.decode b block with
      | none => if xmHere then { st with gaveUp := true } else st
      | some records => records.zipIdx.foldl (heldMarkRecord budget f fc wantEsc b p) st

/-- An entry of the server with the capacity of its array. -/
structure HeldEntry where
  path : String
  cov : ScanCov := {}
  capXmarks : ℕ := 0
  deriving DecidableEq, Repr

/-- The server without its entries: the flags, the bytes of all arrays and their peak. -/
structure MarkLedger where
  flags : MarkFlags := {}
  xmBytes : ℕ := 0
  xmPeakBytes : ℕ := 0
  deriving DecidableEq, Repr

/-- `cov_decode_markers`, with `cov_marks_give_up` for the server. -/
def HeldEntry.covDecodeMarkers (budget : ℕ) (e : HeldEntry) (f : DecodeFaults) (l : MarkLedger)
    (blocks : List ReaderBlock) : MarkLedger × HeldEntry :=
  let n := e.cov.pendingTb.length
  let wantEsc := (l.flags.anySamples || e.cov.hasSamples) && e.cov.escDone < n
  let wantXm := l.flags.retainExecMarks && !l.flags.xmUnusable && e.cov.xmDone < n
  if !wantEsc && !wantXm then (l, e)
  else
    let st := e.cov.pendingTb.zipIdx.foldl (heldMarkBlock budget f e.cov wantEsc blocks)
      { held := ⟨e.cov.xmarks, e.capXmarks, l.xmBytes, l.xmPeakBytes⟩, wantXm := wantXm }
    let fc := { e.cov with
      xmarks := st.held.xmarks
      marksIncomplete := e.cov.marksIncomplete || st.gaveUp
      escDone := if wantEsc && !st.aborted then n else e.cov.escDone
      xmDone := if st.wantXm && !st.aborted then n else e.cov.xmDone }
    (⟨l.flags.latch fc, st.held.xmBytes, st.held.xmPeakBytes⟩,
      { e with cov := fc, capXmarks := st.held.capXmarks })

/-! ### Refreshing the entries -/

/-- A file of the trace directory, with the blocks that are found when it is opened a second time in
one refresh. -/
structure HeldFile extends DirFile where
  reopened : List ReaderBlock

/-- The server as far as the retained markers and their arrays go. -/
structure HeldServer extends MarkLedger where
  cov : List HeldEntry := []
  deriving DecidableEq, Repr

/-- `cov_reset`: the entry starts over and gives its bytes back. -/
def covReset (l : MarkLedger) (e : HeldEntry) : MarkLedger × HeldEntry :=
  let held := e.capXmarks * execMarkSize
  ({ l with xmBytes := if held < l.xmBytes then l.xmBytes - held else 0 }, { path := e.path })

/-- `cov_scan_file` on the entry of the file. -/
def HeldEntry.covScanFile (caps : Captures) (budget : ℕ) (l : MarkLedger) (e : HeldEntry)
    (f : HeldFile) : MarkLedger × HeldEntry :=
  if f.opens = false then (l, { e with cov := { e.cov with valid := false } })
  else
    let view : FileView := ⟨f.start, f.clock, f.refresh.view (caps f.path f.start f.clock)⟩
    let r := if e.cov.rewritten view then covReset l e else (l, e)
    let e := { r.2 with cov := covScanRefresh f.refresh.queueFails r.2.cov view }
    let l := { r.1 with flags := r.1.flags.latch e.cov }
    if f.blocks caps = [] then (l, e)
    else e.covDecodeMarkers budget f.faults l (f.blocks caps)

/-- Entries whose files are gone are reset and left out. -/
def HeldServer.dropAbsent (dir : List HeldFile) (srv : HeldServer) : HeldServer where
  toMarkLedger := (srv.cov.filter fun e => !dir.any (·.path = e.path)).foldl
    (fun l e => (covReset l e).1) srv.toMarkLedger
  cov := srv.cov.filter fun e => dir.any (·.path = e.path)

/-- One file of the refresh: its entry, found or added (`cov_find_or_add`), is scanned. -/
def heldRefreshFile (caps : Captures) (budget : ℕ) (srv : HeldServer) (f : HeldFile) : HeldServer :=
  let before := srv.cov.takeWhile (·.path ≠ f.path)
  match srv.cov.dropWhile (·.path ≠ f.path) with
  | e :: after =>
    let r := e.covScanFile caps budget srv.toMarkLedger f
    { r.1 with
      flags := { r.1.flags with anySamples := r.1.flags.anySamples || r.2.cov.hasSamples }
      cov := before ++ r.2 :: after }
  | [] =>
    if srv.cov.length < 256 then
      let r := HeldEntry.covScanFile caps budget srv.toMarkLedger { path := f.path } f
      { r.1 with
        flags := { r.1.flags with anySamples := r.1.flags.anySamples || r.2.cov.hasSamples }
        cov := srv.cov ++ [r.2] }
    else srv

/-- The decode of an entry when samples appear for the first time. -/
def heldLateDecode (budget : ℕ) (dir : List HeldFile) (srv : HeldServer) (e : HeldEntry) :
    HeldServer :=
  match dir.find? (·.path = e.path) with
  | some f =>
    if e.cov.valid && !e.cov.pendingTb.isEmpty && f.opensLate then
      let r := e.covDecodeMarkers budget f.late srv.toMarkLedger f.reopened
      { r.1 with cov := srv.cov ++ [r.2] }
    else { srv with cov := srv.cov ++ [e] }
  | none => { srv with cov := srv.cov ++ [e] }

/-- Once the index is unusable nobody reads the markers any more. -/
def HeldServer.releaseMarks (srv : HeldServer) : HeldServer :=
  if srv.flags.xmUnusable && 0 < srv.xmBytes then
    { srv with
      xmBytes := 0
      cov := srv.cov.map fun e => { e with cov := { e.cov with xmarks := [] }, capXmarks := 0 } }
  else srv

/-- The start of a file on the wall clock. -/
def HeldEntry.wallStart (e : HeldEntry) : ℤ :=
  (e.cov.hdrStartWallNs.toNat : ℤ) - e.cov.hdrMonoNs.toNat + e.cov.monoFirst

/-- The order of entries after a refresh. -/
def HeldEntry.before (a b : HeldEntry) : Prop := a.wallStart ≤ b.wallStart

instance : DecidableRel HeldEntry.before := fun a b =>
  inferInstanceAs (Decidable (a.wallStart ≤ b.wallStart))

/-- The files of the directory are scanned. -/
def HeldServer.scanFiles (caps : Captures) (budget : ℕ) (srv : HeldServer) (dir : List HeldFile) :
    HeldServer :=
  dir.foldl (heldRefreshFile caps budget) (srv.dropAbsent dir)

/-- `coverage_refresh`, as far as the retained markers and their arrays go. -/
def HeldServer.coverageRefresh (caps : Captures) (budget : ℕ) (srv : HeldServer)
    (dir : List HeldFile) : HeldServer :=
  let hadSamples := srv.flags.anySamples
  let srv := srv.scanFiles caps budget dir
  let srv := if srv.flags.anySamples && !hadSamples then
      srv.cov.foldl (heldLateDecode budget dir) { srv with cov := [] }
    else srv
  let srv := srv.releaseMarks.dropAbsent dir
  { srv with cov := srv.cov.insertionSort HeldEntry.before }

/-! ### Runs -/

/-- What happens to the server: a view of executions is asked for, or the directory is scanned. -/
inductive HeldOp
  | retain
  | refresh (dir : List HeldFile)

/-- One operation. -/
def heldStep (caps : Captures) (budget : ℕ) (srv : HeldServer) : HeldOp → HeldServer
  | .retain => { srv with flags := { srv.flags with retainExecMarks := true } }
  | .refresh dir => srv.coverageRefresh caps budget dir

/-- `exec_prefix_index_usable`. `hatch` is the environment variable that turns the index off. -/
def HeldServer.execPrefixIndexUsable (hatch : Bool) (srv : HeldServer) : Bool :=
  !hatch && srv.flags.retainExecMarks && !srv.flags.xmUnusable &&
    srv.cov.all fun e =>
      !e.cov.valid || (!e.cov.marksIncomplete && e.cov.pendingTb.length ≤ e.cov.xmDone)

/-! ### The bytes of the arrays -/

/-- The bytes that the arrays of the entries take. -/
def heldBytes (cov : List HeldEntry) : ℕ := (cov.map fun e => e.capXmarks * execMarkSize).sum

/-- The ledger counts the bytes of the arrays, has never counted more than the budget, and every
array has room for its markers. -/
structure MarkLedger.Accounts (budget : ℕ) (l : MarkLedger) (cov : List HeldEntry) : Prop where
  xmBytes : l.xmBytes = heldBytes cov
  le_peak : l.xmBytes ≤ l.xmPeakBytes
  peak_le : l.xmPeakBytes ≤ budget
  fits : ∀ e ∈ cov, e.cov.xmarks.length ≤ e.capXmarks

/-- The same while an array is filled, next to other arrays. -/
structure HeldMarks.Accounts (budget others : ℕ) (a : HeldMarks) : Prop where
  xmBytes : a.xmBytes = a.capXmarks * execMarkSize + others
  le_peak : a.xmBytes ≤ a.xmPeakBytes
  peak_le : a.xmPeakBytes ≤ budget
  fits : a.xmarks.length ≤ a.capXmarks

@[simp]
theorem heldBytes_nil : heldBytes [] = 0 := rfl

@[simp]
theorem heldBytes_cons (e : HeldEntry) (cov : List HeldEntry) :
    heldBytes (e :: cov) = e.capXmarks * execMarkSize + heldBytes cov := by
  rw [heldBytes, List.map_cons, List.sum_cons, heldBytes]

theorem heldBytes_perm {cov cov' : List HeldEntry} (h : cov.Perm cov') :
    heldBytes cov = heldBytes cov' := (h.map _).sum_eq

theorem growStep_le (budget xmBytes cap : ℕ) :
    growStep budget xmBytes cap * execMarkSize ≤ budget - xmBytes := by
  rw [growStep]
  refine (Nat.div_mul_le_self _ _).trans ?_
  split_ifs <;> omega

theorem HeldMarks.Accounts.push {budget others : ℕ} {a a' : HeldMarks} {fails : Bool} {m : ExecMark}
    (h : a.Accounts budget others) (hpush : a.push budget fails m = some a') :
    a'.Accounts budget others := by
  have hfits := h.fits
  have hbytes := h.xmBytes
  have hpeak := h.le_peak
  have hbudget := h.peak_le
  rw [HeldMarks.push] at hpush
  dsimp only at hpush
  split_ifs at hpush with hfull hgive
  · have hstep := growStep_le budget a.xmBytes a.capXmarks
    simp only [Bool.or_eq_true, decide_eq_true_eq, not_or] at hgive
    obtain rfl := Option.some.inj hpush
    refine ⟨?_, le_max_right _ _, max_le hbudget (by omega), ?_⟩
    · dsimp only
      rw [hbytes, Nat.add_mul]
      omega
    · rw [List.length_append, List.length_singleton]
      dsimp only
      omega
  · obtain rfl := Option.some.inj hpush
    refine ⟨hbytes, hpeak, hbudget, ?_⟩
    rw [List.length_append, List.length_singleton]
    dsimp only
    omega

section Decode

variable {budget others : ℕ} (f : DecodeFaults) (fc : ScanCov) (wantEsc : Bool)

theorem accounts_heldMarkRecord (b p : ℕ) {st : HeldDecode} (h : st.held.Accounts budget others)
    (r : TraceEvent × ℕ) :
    (heldMarkRecord budget f fc wantEsc b p st r).held.Accounts budget others := by
  rw [heldMarkRecord]
  split_ifs
  · exact h
  · exact h
  · cases hpush : st.held.push budget (f.xmFails b r.2) r.1.toExecMark with
    | none => exact h
    | some held => exact h.push hpush
  · exact h

theorem accounts_heldMarkBlock (blocks : List ReaderBlock) {st : HeldDecode}
    (h : st.held.Accounts budget others) (q : ℕ × ℕ) :
    (heldMarkBlock budget f fc wantEsc blocks st q).held.Accounts budget others := by
  rw [heldMarkBlock]
  by_cases hskip : (st.aborted || !(wantEsc && decide (fc.escDone ≤ q.2) ||
      st.wantXm && decide (fc.xmDone ≤ q.2))) = true
  · rw [if_pos hskip]
    exact h
  rw [if_neg hskip]
  cases blocks[q.1]? with
  | none => exact h
  | some block =>
    dsimp only
    cases f.decode q.1 block with
    | none =>
      dsimp only
      split_ifs <;> exact h
    | some records =>
      exact List.foldlRecOn (motive := fun st : HeldDecode => st.held.Accounts budget others)
        records.zipIdx _ h fun st h r _ => accounts_heldMarkRecord f fc wantEsc _ _ h r

end Decode

variable {e : HeldEntry} {blocks : List ReaderBlock} {fc : ScanCov}

section Entries

variable {budget : ℕ} {l : MarkLedger} {e : HeldEntry} {rest cov cov' : List HeldEntry}

theorem MarkLedger.Accounts.perm (h : l.Accounts budget cov) (hp : cov.Perm cov') :
    l.Accounts budget cov' :=
  ⟨h.xmBytes.trans (heldBytes_perm hp), h.le_peak, h.peak_le,
    fun e he => h.fits e (hp.mem_iff.2 he)⟩

theorem MarkLedger.Accounts.setFlags (h : l.Accounts budget cov) (flags : MarkFlags) :
    MarkLedger.Accounts budget { l with flags := flags } cov :=
  ⟨h.xmBytes, h.le_peak, h.peak_le, h.fits⟩

theorem MarkLedger.Accounts.setCov (h : l.Accounts budget (e :: rest))
    (hfc : fc.xmarks = e.cov.xmarks) : l.Accounts budget ({ e with cov := fc } :: rest) := by
  refine ⟨h.xmBytes, h.le_peak, h.peak_le, List.forall_mem_cons.2 ⟨?_, ?_⟩⟩
  · rw [hfc]
    exact (List.forall_mem_cons.1 h.fits).1
  · exact (List.forall_mem_cons.1 h.fits).2

theorem accounts_cons_empty {path : String} :
    l.Accounts budget ({ path := path } :: cov) ↔ l.Accounts budget cov := by
  constructor
  · intro h
    refine ⟨?_, h.le_peak, h.peak_le, (List.forall_mem_cons.1 h.fits).2⟩
    rw [h.xmBytes, heldBytes_cons, Nat.zero_mul, Nat.zero_add]
  · intro h
    refine ⟨?_, h.le_peak, h.peak_le, List.forall_mem_cons.2 ⟨le_rfl, h.fits⟩⟩
    rw [h.xmBytes, heldBytes_cons, Nat.zero_mul, Nat.zero_add]

theorem accounts_covReset (h : l.Accounts budget (e :: rest)) :
    (covReset l e).1.Accounts budget ((covReset l e).2 :: rest) := by
  have hbytes := h.xmBytes
  have hpeak := h.le_peak
  rw [heldBytes_cons] at hbytes
  refine accounts_cons_empty.2 ⟨?_, ?_, h.peak_le, (List.forall_mem_cons.1 h.fits).2⟩
  · rw [covReset]
    dsimp only
    split_ifs <;> omega
  · rw [covReset]
    dsimp only
    split_ifs <;> omega

theorem accounts_covDecodeMarkers (h : l.Accounts budget (e :: rest)) (f : DecodeFaults)
    (blocks : List ReaderBlock) :
    (e.covDecodeMarkers budget f l blocks).1.Accounts budget
      ((e.covDecodeMarkers budget f l blocks).2 :: rest) := by
  rw [HeldEntry.covDecodeMarkers]
  dsimp only
  generalize ((l.flags.anySamples || e.cov.hasSamples) &&
    decide (e.cov.escDone < e.cov.pendingTb.length)) = wantEsc
  generalize (l.flags.retainExecMarks && !l.flags.xmUnusable &&
    decide (e.cov.xmDone < e.cov.pendingTb.length)) = wantXm
  by_cases hidle : (!wantEsc && !wantXm) = true
  · rw [if_pos hidle]
    exact h
  · rw [if_neg hidle]
    have hstart : HeldMarks.Accounts budget (heldBytes rest)
        ⟨e.cov.xmarks, e.capXmarks, l.xmBytes, l.xmPeakBytes⟩ :=
      ⟨by rw [h.xmBytes, heldBytes_cons], h.le_peak, h.peak_le, (List.forall_mem_cons.1 h.fits).1⟩
    obtain ⟨hbytes, hpeak, hbudget, hfits⟩ : ((e.cov.pendingTb.zipIdx.foldl
        (heldMarkBlock budget f e.cov wantEsc blocks)
        { held := ⟨e.cov.xmarks, e.capXmarks, l.xmBytes, l.xmPeakBytes⟩
          wantXm := wantXm }).held).Accounts budget (heldBytes rest) :=
      List.foldlRecOn (motive := fun st : HeldDecode => st.held.Accounts budget (heldBytes rest))
        e.cov.pendingTb.zipIdx _ hstart
        fun st h q _ => accounts_heldMarkBlock f e.cov wantEsc blocks h q
    exact ⟨by rw [heldBytes_cons]; exact hbytes, hpeak, hbudget,
      List.forall_mem_cons.2 ⟨hfits, (List.forall_mem_cons.1 h.fits).2⟩⟩

theorem covScanRefresh_xmarks (queueFails : ℕ → Bool) {view : FileView}
    (h : fc.rewritten view = false) : (covScanRefresh queueFails fc view).xmarks = fc.xmarks := by
  rw [covScanRefresh, h, if_neg Bool.false_ne_true]
  cases view.blocks with
  | nil => rfl
  | cons first _ =>
    obtain ⟨-, -, hx⟩ := opened_frame (rfl : fc.opened view first = _)
    exact (foldl_covScanHeader_frame queueFails _ _).2.2.trans hx.1

theorem rewritten_empty (view : FileView) : ScanCov.rewritten {} view = false := rfl

theorem accounts_covScanFile (caps : Captures) (h : l.Accounts budget (e :: rest)) (f : HeldFile) :
    (e.covScanFile caps budget l f).1.Accounts budget
      ((e.covScanFile caps budget l f).2 :: rest) := by
  rw [HeldEntry.covScanFile]
  cases f.opens with
  | false =>
    rw [if_pos rfl]
    exact h.setCov rfl
  | true =>
    rw [if_neg (by decide)]
    dsimp only
    generalize (⟨f.start, f.clock, f.refresh.view (caps f.path f.start f.clock)⟩ : FileView) = view
    obtain ⟨hr, hgoes⟩ : (if e.cov.rewritten view then covReset l e else (l, e)).1.Accounts budget
        ((if e.cov.rewritten view then covReset l e else (l, e)).2 :: rest) ∧
        (if e.cov.rewritten view then covReset l e else (l, e)).2.cov.rewritten view = false := by
      split_ifs with hre
      · exact ⟨accounts_covReset h, rewritten_empty view⟩
      · exact ⟨h, Bool.not_eq_true _ ▸ hre⟩
    generalize (if e.cov.rewritten view then covReset l e else (l, e)) = r at hr hgoes ⊢
    have hscan := (hr.setCov (covScanRefresh_xmarks f.refresh.queueFails
      hgoes)).setFlags (r.1.flags.latch (covScanRefresh f.refresh.queueFails r.2.cov view))
    split_ifs
    · exact hscan
    · exact accounts_covDecodeMarkers hscan f.faults (f.blocks caps)

theorem accounts_foldl_covReset (gone : List HeldEntry) (h : l.Accounts budget (gone ++ cov)) :
    (gone.foldl (fun l e => (covReset l e).1) l).Accounts budget cov := by
  induction gone generalizing l with
  | nil => exact h
  | cons e gone ih => exact ih (accounts_cons_empty.1 (accounts_covReset h))

end Entries

/-! ### The bytes over a run -/

section Runs

variable {budget : ℕ} {srv : HeldServer}

/-- The server accounts for the arrays of its entries. -/
def HeldServer.Accounts (budget : ℕ) (srv : HeldServer) : Prop :=
  srv.toMarkLedger.Accounts budget srv.cov

theorem accounts_dropAbsent (h : srv.Accounts budget) (dir : List HeldFile) :
    (srv.dropAbsent dir).Accounts budget := by
  refine accounts_foldl_covReset _ (h.perm ?_)
  have hperm := List.filter_append_perm (fun e : HeldEntry => dir.any (·.path = e.path)) srv.cov
  exact (List.perm_append_comm.trans hperm).symm

theorem accounts_heldRefreshFile (caps : Captures) (h : srv.Accounts budget) (f : HeldFile) :
    (heldRefreshFile caps budget srv f).Accounts budget := by
  rw [heldRefreshFile]
  have hsplit : srv.cov.takeWhile (·.path ≠ f.path) ++ srv.cov.dropWhile (·.path ≠ f.path) =
    srv.cov := List.takeWhile_append_dropWhile
  cases hfound : srv.cov.dropWhile (·.path ≠ f.path) with
  | nil =>
    dsimp only
    split_ifs
    · exact ((accounts_covScanFile caps (accounts_cons_empty.2 h) f).perm
        (List.perm_append_singleton _ _).symm).setFlags _
    · exact h
  | cons e after =>
    rw [hfound] at hsplit
    have hfirst := MarkLedger.Accounts.perm h (hsplit ▸ List.perm_middle)
    exact ((accounts_covScanFile caps hfirst f).perm List.perm_middle.symm).setFlags _

theorem accounts_heldLateDecode {rest : List HeldEntry}
    (h : srv.toMarkLedger.Accounts budget (srv.cov ++ e :: rest)) (dir : List HeldFile) :
    (heldLateDecode budget dir srv e).toMarkLedger.Accounts budget
      ((heldLateDecode budget dir srv e).cov ++ rest) := by
  have hkeep : srv.toMarkLedger.Accounts budget ((srv.cov ++ [e]) ++ rest) := by
    rw [List.append_assoc, List.singleton_append]
    exact h
  rw [heldLateDecode]
  cases dir.find? (·.path = e.path) with
  | none => exact hkeep
  | some f =>
    dsimp only
    split_ifs
    · refine MarkLedger.Accounts.perm (accounts_covDecodeMarkers (h.perm List.perm_middle) f.late
        f.reopened) ?_
      rw [List.append_assoc, List.singleton_append]
      exact List.perm_middle.symm
    · exact hkeep

theorem accounts_foldl_heldLateDecode (entries : List HeldEntry)
    (h : srv.toMarkLedger.Accounts budget (srv.cov ++ entries)) (dir : List HeldFile) :
    (entries.foldl (heldLateDecode budget dir) srv).Accounts budget := by
  induction entries generalizing srv with
  | nil =>
    rw [List.append_nil] at h
    exact h
  | cons e entries ih => exact ih (accounts_heldLateDecode h dir)

theorem accounts_releaseMarks (h : srv.Accounts budget) : srv.releaseMarks.Accounts budget := by
  rw [HeldServer.releaseMarks]
  split_ifs
  · refine ⟨?_, Nat.zero_le _, h.peak_le, fun e he => ?_⟩
    · change 0 = heldBytes (srv.cov.map _)
      rw [heldBytes, List.map_map]
      exact (List.sum_eq_zero fun x hx => by
        obtain ⟨e, -, rfl⟩ := List.mem_map.1 hx
        exact Nat.zero_mul _).symm
    · obtain ⟨e, -, rfl⟩ := List.mem_map.1 he
      exact le_rfl
  · exact h

theorem accounts_heldStep (caps : Captures) (h : srv.Accounts budget) (op : HeldOp) :
    (heldStep caps budget srv op).Accounts budget := by
  cases op with
  | retain => exact h.setFlags _
  | refresh dir =>
    rw [heldStep, HeldServer.coverageRefresh]
    have hscan : (srv.scanFiles caps budget dir).Accounts budget :=
      List.foldlRecOn (motive := fun srv : HeldServer => srv.Accounts budget) dir _
        (accounts_dropAbsent h dir) fun srv h f _ => accounts_heldRefreshFile caps h f
    generalize srv.scanFiles caps budget dir = scanned at hscan ⊢
    have hlate : (if scanned.flags.anySamples && !srv.flags.anySamples then
        scanned.cov.foldl (heldLateDecode budget dir) { scanned with cov := [] }
        else scanned).Accounts budget := by
      split_ifs
      · have hstart : ({ scanned with cov := [] } : HeldServer).toMarkLedger.Accounts budget
            (({ scanned with cov := [] } : HeldServer).cov ++ scanned.cov) := hscan
        exact accounts_foldl_heldLateDecode scanned.cov hstart dir
      · exact hscan
    exact MarkLedger.Accounts.perm (accounts_dropAbsent (accounts_releaseMarks hlate) dir)
      (List.perm_insertionSort _ _).symm

/-- **Every run** counts the bytes of the arrays, within the budget. -/
theorem accounts_heldRun (caps : Captures) (budget : ℕ) (ops : List HeldOp) :
    (ops.foldl (heldStep caps budget) {}).Accounts budget :=
  List.foldlRecOn (motive := fun srv : HeldServer => srv.Accounts budget) ops _
    ⟨rfl, le_rfl, Nat.zero_le _, nofun⟩ fun _ h op _ => accounts_heldStep caps h op

end Runs

/-! ### Without the capacities -/

/-- The decode loop without the capacities. -/
def HeldDecode.forget (st : HeldDecode) : MarkDecode :=
  ⟨st.held.xmarks, st.wantXm, st.gaveUp, st.aborted⟩

theorem xmarks_push {budget : ℕ} {fails : Bool} {a a' : HeldMarks} {m : ExecMark}
    (h : a.push budget fails m = some a') : a'.xmarks = a.xmarks ++ [m] := by
  rw [HeldMarks.push] at h
  dsimp only at h
  split_ifs at h
  all_goals rw [← Option.some.inj h]

section Forget

variable (budget : ℕ) (f : DecodeFaults) (fc : ScanCov) (wantEsc : Bool)

theorem heldMarkRecord_forget (b p : ℕ) (st : HeldDecode) (r : TraceEvent × ℕ) :
    ∃ refused, ∀ f' : DecodeFaults, f'.escFails = f.escFails → f'.xmFails b r.2 = refused →
      (heldMarkRecord budget f fc wantEsc b p st r).forget =
        decodeMarkRecord f' fc wantEsc b p st.forget r := by
  refine ⟨(st.held.push budget (f.xmFails b r.2) r.1.toExecMark).isNone, fun f' hesc hxm => ?_⟩
  rw [heldMarkRecord, decodeMarkRecord, hesc, hxm]
  cases hpush : st.held.push budget (f.xmFails b r.2) r.1.toExecMark with
  | none =>
    simp only [HeldDecode.forget, Option.isNone_none, if_true]
    split_ifs <;> rfl
  | some held =>
    simp only [HeldDecode.forget, Option.isNone_some, Bool.false_eq_true, if_false]
    split_ifs
    · rfl
    · rfl
    · rw [xmarks_push hpush]
    · rfl

theorem foldl_heldMarkRecord_forget (b p : ℕ) (records : List (TraceEvent × ℕ))
    (hnodup : (records.map Prod.snd).Nodup) (st : HeldDecode) :
    ∃ refused : ℕ → Bool, ∀ f' : DecodeFaults, f'.escFails = f.escFails →
      (∀ i ∈ records.map Prod.snd, f'.xmFails b i = refused i) →
        (records.foldl (heldMarkRecord budget f fc wantEsc b p) st).forget =
          records.foldl (decodeMarkRecord f' fc wantEsc b p) st.forget := by
  induction records generalizing st with
  | nil => exact ⟨fun _ => false, fun f' _ _ => rfl⟩
  | cons r records ih =>
    obtain ⟨hr, hnodup⟩ := List.nodup_cons.1 hnodup
    obtain ⟨here, hhere⟩ := heldMarkRecord_forget budget f fc wantEsc b p st r
    obtain ⟨later, hlater⟩ := ih hnodup (heldMarkRecord budget f fc wantEsc b p st r)
    refine ⟨fun i => if i = r.2 then here else later i, fun f' hesc hxm => ?_⟩
    obtain ⟨hxr, hxs⟩ := List.forall_mem_cons.1 hxm
    rw [List.foldl_cons, List.foldl_cons, ← hhere f' hesc (hxr.trans (if_pos rfl))]
    refine hlater f' hesc fun i hi => (hxs i hi).trans (if_neg ?_)
    rintro rfl
    exact hr hi

theorem heldMarkBlock_forget (blocks : List ReaderBlock) (st : HeldDecode) (q : ℕ × ℕ) :
    ∃ refused : ℕ → Bool, ∀ f' : DecodeFaults, f'.decodeFails = f.decodeFails →
      f'.escFails = f.escFails → f'.xmFails q.1 = refused →
        (heldMarkBlock budget f fc wantEsc blocks st q).forget =
          decodeMarkBlock f' fc wantEsc blocks st.forget q := by
  by_cases hskip : (st.aborted || !(wantEsc && decide (fc.escDone ≤ q.2) ||
      st.wantXm && decide (fc.xmDone ≤ q.2))) = true
  · refine ⟨fun _ => false, fun f' _ _ _ => ?_⟩
    rw [heldMarkBlock, decodeMarkBlock, if_pos hskip]
    exact (if_pos hskip).symm
  cases hblock : blocks[q.1]? with
  | none =>
    refine ⟨fun _ => false, fun f' _ _ _ => ?_⟩
    rw [heldMarkBlock, decodeMarkBlock, if_neg hskip, hblock]
    exact (if_neg hskip).symm
  | some block =>
    cases hdec : f.decode q.1 block with
    | none =>
      refine ⟨fun _ => false, fun f' hfails _ _ => ?_⟩
      have hdec' : f'.decode q.1 block = none := by rw [← hdec, DecodeFaults.decode, hfails]; rfl
      rw [heldMarkBlock, decodeMarkBlock, if_neg hskip, hblock]
      refine Eq.trans ?_ (if_neg hskip).symm
      dsimp only
      rw [hdec, hdec']
      by_cases hhere : (st.wantXm && decide (fc.xmDone ≤ q.2)) = true
      · exact (congrArg HeldDecode.forget (if_pos hhere)).trans (if_pos hhere).symm
      · exact (congrArg HeldDecode.forget (if_neg hhere)).trans (if_neg hhere).symm
    | some records =>
      obtain ⟨refused, hrefused⟩ := foldl_heldMarkRecord_forget budget f fc
        wantEsc q.1 q.2 records.zipIdx (by rw [List.zipIdx_map_snd]; exact List.nodup_range') st
      refine ⟨refused, fun f' hfails hesc hxm => ?_⟩
      have hdec' : f'.decode q.1 block = some records := by
        rw [← hdec, DecodeFaults.decode, hfails]
        rfl
      rw [heldMarkBlock, decodeMarkBlock, if_neg hskip, hblock]
      refine Eq.trans ?_ (if_neg hskip).symm
      dsimp only
      rw [hdec, hdec']
      exact hrefused f' hesc fun i _ => congrFun hxm i

theorem foldl_heldMarkBlock_forget (blocks : List ReaderBlock) (queue : List (ℕ × ℕ))
    (hnodup : (queue.map Prod.fst).Nodup) (st : HeldDecode) :
    ∃ refused : ℕ → ℕ → Bool, ∀ f' : DecodeFaults, f'.decodeFails = f.decodeFails →
      f'.escFails = f.escFails → (∀ b ∈ queue.map Prod.fst, f'.xmFails b = refused b) →
        (queue.foldl (heldMarkBlock budget f fc wantEsc blocks) st).forget =
          queue.foldl (decodeMarkBlock f' fc wantEsc blocks) st.forget := by
  induction queue generalizing st with
  | nil => exact ⟨fun _ _ => false, fun f' _ _ _ => rfl⟩
  | cons q queue ih =>
    obtain ⟨hq, hnodup⟩ := List.nodup_cons.1 hnodup
    obtain ⟨here, hhere⟩ := heldMarkBlock_forget budget f fc wantEsc blocks st q
    obtain ⟨later, hlater⟩ := ih hnodup (heldMarkBlock budget f fc wantEsc blocks st q)
    refine ⟨fun b => if b = q.1 then here else later b, fun f' hfails hesc hxm => ?_⟩
    obtain ⟨hxq, hxs⟩ := List.forall_mem_cons.1 hxm
    rw [List.foldl_cons, List.foldl_cons, ← hhere f' hfails hesc (hxq.trans (if_pos rfl))]
    refine hlater f' hfails hesc fun b hb => (hxs b hb).trans (if_neg ?_)
    rintro rfl
    exact hq hb

end Forget

/-- **Without the capacities** the decode is that of the index of markers, with a fault wherever an
array does not grow. -/
theorem covDecodeMarkers_forget (budget : ℕ) (e : HeldEntry) (f : DecodeFaults) (l : MarkLedger)
    (blocks : List ReaderBlock) (hnodup : e.cov.pendingTb.Nodup) :
    ∃ f' : DecodeFaults, f'.decodeFails = f.decodeFails ∧ f'.escFails = f.escFails ∧
      (e.covDecodeMarkers budget f l blocks).2.cov =
        e.cov.covDecodeMarkers f' l.flags blocks := by
  obtain ⟨refused, hrefused⟩ := foldl_heldMarkBlock_forget budget f e.cov
    ((l.flags.anySamples || e.cov.hasSamples) && decide (e.cov.escDone < e.cov.pendingTb.length))
    blocks e.cov.pendingTb.zipIdx (by rw [List.zipIdx_map_fst]; exact hnodup)
    { held := ⟨e.cov.xmarks, e.capXmarks, l.xmBytes, l.xmPeakBytes⟩
      wantXm := l.flags.retainExecMarks && !l.flags.xmUnusable &&
        decide (e.cov.xmDone < e.cov.pendingTb.length) }
  have hfold := hrefused ⟨f.decodeFails, f.escFails, refused⟩ rfl rfl fun _ _ => rfl
  refine ⟨⟨f.decodeFails, f.escFails, refused⟩, rfl, rfl, ?_⟩
  rw [HeldEntry.covDecodeMarkers, ScanCov.covDecodeMarkers]
  dsimp only at hfold ⊢
  by_cases hidle : (!((l.flags.anySamples || e.cov.hasSamples) &&
      decide (e.cov.escDone < e.cov.pendingTb.length)) &&
    !(l.flags.retainExecMarks && !l.flags.xmUnusable &&
      decide (e.cov.xmDone < e.cov.pendingTb.length))) = true
  · rw [if_pos hidle, if_pos hidle]
  · rw [if_neg hidle, if_neg hidle]
    dsimp only [HeldDecode.forget] at hfold
    rw [← hfold]

theorem flags_covDecodeMarkers (budget : ℕ) (hinc : e.cov.marksIncomplete = false)
    (f : DecodeFaults) (l : MarkLedger) (blocks : List ReaderBlock) :
    (e.covDecodeMarkers budget f l blocks).1.flags =
      l.flags.latch (e.covDecodeMarkers budget f l blocks).2.cov := by
  rw [HeldEntry.covDecodeMarkers]
  dsimp only
  generalize (!_ && !_ : Bool) = idle
  cases idle with
  | false => rfl
  | true =>
    rw [if_pos rfl, MarkFlags.latch, hinc, Bool.or_false]

/-! ### What the arrays hold -/

/-- Every scanned block with markers is in the queue, and the array holds the markers of the blocks
that are decoded. After a decode that ended early it may hold some of them twice. -/
structure ScanCov.MarksHeld (fc : ScanCov) (blocks : List ReaderBlock) : Prop where
  pending_lt : ∀ i ∈ fc.pendingTb, i < fc.blocksScanned
  nodup : fc.pendingTb.Nodup
  queued : ∀ i, i < fc.blocksScanned → i ∉ fc.pendingTb → marksAt blocks i = []
  xmDone_le : fc.xmDone ≤ fc.pendingTb.length
  held : ∀ i ∈ fc.pendingTb.take fc.xmDone, marksAt blocks i <:+: fc.xmarks
  marksIncomplete : fc.marksIncomplete = false

/-- The blocks of the file that the entry is about. -/
def HeldEntry.captured (caps : Captures) (e : HeldEntry) : List ReaderBlock :=
  caps e.path e.cov.hdrStartWallNs e.cov.hdrMonoNs

/-- The block waits in the queue of an entry that has not given up. -/
def HeldEntry.Awaits (e : HeldEntry) (i : ℕ) : Prop :=
  i ∈ e.cov.pendingTb.drop e.cov.xmDone ∧ e.cov.marksIncomplete = false

/-- The markers of a block that the entry has scanned are lost: the array does not hold them, and
the block does not wait any more. -/
def HeldEntry.Loses (caps : Captures) (e : HeldEntry) : Prop :=
  ∃ i, i < e.cov.blocksScanned ∧ ¬marksAt (e.captured caps) i <:+: e.cov.xmarks ∧ ¬e.Awaits i

/-- As long as the index is usable, the arrays hold what has been decoded. -/
def HeldServer.MarksHeld (caps : Captures) (srv : HeldServer) : Prop :=
  srv.flags.xmUnusable = false → ∀ e ∈ srv.cov, e.cov.MarksHeld (e.captured caps)

theorem marksHeld_empty (blocks : List ReaderBlock) : ScanCov.MarksHeld {} blocks :=
  ⟨nofun, List.nodup_nil, fun i hi => absurd hi (Nat.not_lt_zero i), le_rfl, nofun, rfl⟩

theorem ScanCov.MarksHeld.of_unscanned (h : fc.MarksHeld blocks) (hzero : fc.blocksScanned = 0)
    (blocks' : List ReaderBlock) : fc.MarksHeld blocks' := by
  have hnone : ∀ i, i ∉ fc.pendingTb := fun i hi => by
    have := h.pending_lt i hi
    omega
  exact ⟨h.pending_lt, h.nodup, fun i hi => by omega, h.xmDone_le,
    fun i hi => absurd (List.mem_of_mem_take hi) (hnone i), h.marksIncomplete⟩

theorem ScanCov.MarksHeld.not_loses {caps : Captures} (h : e.cov.MarksHeld (e.captured caps)) :
    ¬e.Loses caps := by
  rintro ⟨i, hi, hlost, hwaits⟩
  by_cases hpending : i ∈ e.cov.pendingTb
  · rw [← List.take_append_drop e.cov.xmDone e.cov.pendingTb, List.mem_append] at hpending
    exact hlost (h.held i (hpending.resolve_right fun hi => hwaits ⟨hi, h.marksIncomplete⟩))
  · rw [h.queued i hi hpending] at hlost
    exact hlost (List.nil_infix)

/-- **The decode of the queue** that does not give up loses nothing, if it reads the blocks that the
scan has queued. -/
theorem covDecodeMarkers_marksHeld {f : DecodeFaults} {flags : MarkFlags} {seen : List ReaderBlock}
    (h : fc.MarksHeld blocks) (hseen : flags.retainExecMarks = true →
      ∀ i ∈ fc.pendingTb.drop fc.xmDone, marksAt seen i = marksAt blocks i)
    (hgave : (fc.covDecodeMarkers f flags seen).marksIncomplete = false) :
    (fc.covDecodeMarkers f flags seen).MarksHeld blocks := by
  obtain ⟨-, hprefix, hdone⟩ := covDecodeMarkers_spec hgave
  obtain ⟨-, -, hs, hp, -⟩ := covDecodeMarkers_frame fc f flags seen
  generalize fc.covDecodeMarkers f flags seen = fc' at *
  have hold : ∀ i ∈ fc.pendingTb.take fc.xmDone, marksAt blocks i <:+: fc'.xmarks :=
    fun i hi => (h.held i hi).trans hprefix.isInfix
  refine ⟨by rw [hp, hs]; exact h.pending_lt, hp ▸ h.nodup, by rw [hp, hs]; exact h.queued, ?_, ?_,
    hgave⟩
  · rw [hp]
    rcases hdone with ⟨hd, -⟩ | ⟨-, hd, -⟩
    · exact hd ▸ h.xmDone_le
    · exact hd.le
  · rw [hp]
    rcases hdone with ⟨hd, -⟩ | ⟨hretain, -, hx⟩
    · rw [hd]
      exact hold
    · intro i hi
      have hi := List.mem_of_mem_take hi
      rw [← List.take_append_drop fc.xmDone fc.pendingTb, List.mem_append] at hi
      rcases hi with hi | hi
      · exact hold i hi
      · rw [hx, ← hseen hretain i hi, List.flatMap_def]
        exact (List.infix_of_mem_flatten (List.mem_map_of_mem hi)).trans
          (List.suffix_append _ _).isInfix

section Scan

variable {caps : UInt64 → UInt64 → List ReaderBlock} {fc : ScanCov} {start clock : UInt64}

/-- A scan that misses no header with markers behind it loses nothing, unless it gives up. -/
theorem covScanRefresh_marksHeld (h : fc.MarksHeld (caps fc.hdrStartWallNs fc.hdrMonoNs))
    (r : Refresh)
    (hmiss : ∀ i, fc.scanFrom ⟨start, clock, r.view (caps start clock)⟩ ≤ i →
      i < r.committed → r.misses i = true → marksAt (caps start clock) i = [])
    (hgave : (covScanRefresh r.queueFails fc
      ⟨start, clock, r.view (caps start clock)⟩).marksIncomplete = false) :
    let fc' := covScanRefresh r.queueFails fc ⟨start, clock, r.view (caps start clock)⟩
    fc'.MarksHeld (caps start clock) ∧ fc'.hdrStartWallNs = start ∧ fc'.hdrMonoNs = clock ∧
      fc'.blocksScanned ≤ r.committed := by
  obtain ⟨hbase, hfrom, hle⟩ := scanBase (P := ScanCov.MarksHeld) marksHeld_empty
    (fun _ blocks' h hzero => h.of_unscanned hzero blocks') h start clock
    (r.view (caps start clock))
  obtain ⟨hs, hc, hn, -, hxd, hxm, -, queue, hqueue, hsub, hmarks⟩ :=
    covScanRefresh_queue r hle hmiss hgave
  dsimp only
  generalize covScanRefresh r.queueFails fc ⟨start, clock, r.view (caps start clock)⟩ = fc' at *
  generalize (if fc.rewritten ⟨start, clock, r.view (caps start clock)⟩ then {} else fc : ScanCov) =
    fc₀ at *
  rw [← hfrom] at hle
  have hnew : ∀ i ∈ queue, fc₀.blocksScanned ≤ i ∧ i < fc'.blocksScanned := fun i hi => by
    have := List.mem_range'_1.1 (hsub.subset hi)
    omega
  refine ⟨⟨fun i hi => ?_, ?_, fun i hi hout => ?_, ?_, fun i hi => ?_, hgave⟩, hs, hc, ?_⟩
  · rw [hqueue, List.mem_append] at hi
    rcases hi with hi | hi
    · exact (hbase.pending_lt i hi).trans_le (hn ▸ hle)
    · exact (hnew i hi).2
  · rw [hqueue]
    refine hbase.nodup.append (hsub.nodup List.nodup_range') fun i hi hi' => ?_
    have := hbase.pending_lt i hi
    have := (hnew i hi').1
    omega
  · rw [hqueue, List.mem_append, not_or] at hout
    by_cases hold : i < fc₀.blocksScanned
    · exact hbase.queued i hold hout.1
    · exact hmarks i (Nat.not_lt.1 hold) (hn ▸ hi) hout.2
  · have := hbase.xmDone_le
    rw [hxd, hqueue, List.length_append]
    omega
  · rw [hxd, hqueue, List.take_append_of_le_length hbase.xmDone_le] at hi
    rw [hxm]
    exact hbase.held i hi
  · rw [hn, Refresh.view, List.length_mapIdx, List.length_take]
    exact Nat.min_le_left _ _

end Scan

/-! ### Losses that are noticed -/

/-- The entry of a path, or a new one. -/
def HeldServer.entry (srv : HeldServer) (path : String) : HeldEntry :=
  (srv.cov.dropWhile (·.path ≠ path)).head?.getD { path := path }

/-- The scan of a file notices its losses while the index is usable: a new header that is missed has
no markers behind it. -/
def HeldFile.Noticed (caps : Captures) (srv : HeldServer) (f : HeldFile) : Prop :=
  srv.flags.xmUnusable = false → f.opens = true → ∀ i, (srv.entry f.path).cov.scanFrom
      ⟨f.start, f.clock, f.refresh.view (caps f.path f.start f.clock)⟩ ≤ i →
    i < f.refresh.committed → f.refresh.misses i = true →
      marksAt (caps f.path f.start f.clock) i = []

/-- The second decode of an entry notices its losses while the index is usable: the file has the
same markers in the blocks that wait. -/
def HeldEntry.Noticed (caps : Captures) (dir : List HeldFile) (srv : HeldServer) (e : HeldEntry) :
    Prop :=
  srv.flags.xmUnusable = false → srv.flags.retainExecMarks = true → e.cov.valid = true →
    ∀ f, dir.find? (·.path = e.path) = some f → f.opensLate = true →
      ∀ i ∈ e.cov.pendingTb.drop e.cov.xmDone, marksAt f.reopened i = marksAt (e.captured caps) i

/-- The operation notices its losses. -/
def HeldOp.Noticed (caps : Captures) (budget : ℕ) (srv : HeldServer) : HeldOp → Prop
  | .retain => True
  | .refresh dir =>
    let scanned := srv.scanFiles caps budget dir
    Run.Allowed (heldRefreshFile caps budget) (HeldFile.Noticed caps) (srv.dropAbsent dir) dir ∧
      (srv.flags.anySamples = false → scanned.flags.anySamples = true →
        Run.Allowed (heldLateDecode budget dir) (HeldEntry.Noticed caps dir)
          { scanned with cov := [] } scanned.cov)

section Noticed

variable {caps : Captures} {budget : ℕ}

theorem unusable_covDecodeMarkers {f : DecodeFaults} {l : MarkLedger}
    (hu : (e.covDecodeMarkers budget f l blocks).1.flags.xmUnusable = false) :
    l.flags.xmUnusable = false := by
  rw [HeldEntry.covDecodeMarkers] at hu
  dsimp only at hu
  generalize (!_ && !_ : Bool) = idle at hu
  cases idle with
  | false => exact (Bool.or_eq_false_iff.1 hu).1
  | true => exact hu

theorem marksHeld_covDecodeMarkers {f : DecodeFaults} {l : MarkLedger} {seen : List ReaderBlock}
    (h : e.cov.MarksHeld blocks) (hseen : l.flags.retainExecMarks = true →
      ∀ i ∈ e.cov.pendingTb.drop e.cov.xmDone, marksAt seen i = marksAt blocks i)
    (hu : (e.covDecodeMarkers budget f l seen).1.flags.xmUnusable = false) :
    let e' := (e.covDecodeMarkers budget f l seen).2
    e'.cov.MarksHeld blocks ∧ e'.path = e.path ∧ e'.cov.hdrStartWallNs = e.cov.hdrStartWallNs ∧
      e'.cov.hdrMonoNs = e.cov.hdrMonoNs := by
  have hpath : (e.covDecodeMarkers budget f l seen).2.path = e.path := by
    rw [HeldEntry.covDecodeMarkers]
    dsimp only
    generalize (!_ && !_ : Bool) = idle
    cases idle <;> rfl
  rw [flags_covDecodeMarkers budget h.marksIncomplete f l seen] at hu
  have hgave := (Bool.or_eq_false_iff.1 hu).2
  obtain ⟨f', -, -, hcov⟩ := covDecodeMarkers_forget budget e f l seen h.nodup
  dsimp only
  rw [hcov] at hgave ⊢
  obtain ⟨hs, hc, -⟩ := covDecodeMarkers_frame e.cov f' l.flags seen
  exact ⟨covDecodeMarkers_marksHeld h hseen hgave, hpath, hs, hc⟩

theorem covScanRefresh_reset (queueFails : ℕ → Bool) (l : MarkLedger) (e : HeldEntry)
    (view : FileView) :
    let r := if e.cov.rewritten view then covReset l e else (l, e)
    r.1.flags = l.flags ∧ r.2.path = e.path ∧
      covScanRefresh queueFails r.2.cov view = covScanRefresh queueFails e.cov view := by
  dsimp only
  split_ifs with hre
  · refine ⟨rfl, rfl, ?_⟩
    rw [covScanRefresh, covScanRefresh, if_pos hre]
    rfl
  · exact ⟨rfl, rfl, rfl⟩

variable {f : HeldFile} {srv : HeldServer} {dir : List HeldFile}

theorem unusable_covScanFile {l : MarkLedger}
    (hu : (e.covScanFile caps budget l f).1.flags.xmUnusable = false) :
    l.flags.xmUnusable = false := by
  rw [HeldEntry.covScanFile] at hu
  cases hopens : f.opens with
  | false =>
    rw [hopens, if_pos rfl] at hu
    exact hu
  | true =>
    rw [hopens, if_neg (by decide)] at hu
    dsimp only at hu
    generalize (⟨f.start, f.clock, f.refresh.view (caps f.path f.start f.clock)⟩ : FileView) = view
      at hu
    obtain ⟨hflags, -⟩ := covScanRefresh_reset f.refresh.queueFails l e view
    generalize (if e.cov.rewritten view then covReset l e else (l, e)) = r at hflags hu
    rw [← hflags]
    split_ifs at hu
    · exact (Bool.or_eq_false_iff.1 hu).1
    · exact (Bool.or_eq_false_iff.1 (unusable_covDecodeMarkers hu)).1

/-- **The scan of a file** that notices its losses. -/
theorem marksHeld_covScanFile (hf : f.Noticed caps srv) (hpath : (srv.entry f.path).path = f.path)
    (h : (srv.entry f.path).cov.MarksHeld ((srv.entry f.path).captured caps))
    (hu : ((srv.entry f.path).covScanFile caps budget srv.toMarkLedger f).1.flags.xmUnusable =
      false) :
    let e' := ((srv.entry f.path).covScanFile caps budget srv.toMarkLedger f).2
    e'.cov.MarksHeld (e'.captured caps) := by
  have hnoticed := hf (unusable_covScanFile hu)
  generalize srv.entry f.path = e at *
  generalize srv.toMarkLedger = l at *
  rw [HeldEntry.covScanFile] at hu ⊢
  cases hopens : f.opens with
  | false =>
    rw [if_pos rfl]
    exact { h with }
  | true =>
    rw [hopens, if_neg (by decide)] at hu
    rw [if_neg (by decide)]
    dsimp only at hu ⊢
    obtain ⟨hflags, hsame, hscan⟩ := covScanRefresh_reset f.refresh.queueFails l e
      ⟨f.start, f.clock, f.refresh.view (caps f.path f.start f.clock)⟩
    generalize (if e.cov.rewritten ⟨f.start, f.clock, f.refresh.view
      (caps f.path f.start f.clock)⟩ then covReset l e else (l, e)) = r at hflags hsame hscan hu ⊢
    rw [hscan] at hu ⊢
    have hone : (covScanRefresh f.refresh.queueFails e.cov ⟨f.start, f.clock,
        f.refresh.view (caps f.path f.start f.clock)⟩).marksIncomplete = false → _ := fun hinc =>
      covScanRefresh_marksHeld h f.refresh
        (by rw [hpath]; exact hnoticed hopens) (by rw [hpath]; exact hinc)
    rw [hpath] at hone
    generalize covScanRefresh f.refresh.queueFails e.cov ⟨f.start, f.clock,
      f.refresh.view (caps f.path f.start f.clock)⟩ = fc at hu hone ⊢
    have hlatch : (r.1.flags.latch fc).xmUnusable = false := by
      split_ifs at hu
      · exact hu
      · exact unusable_covDecodeMarkers hu
    obtain ⟨hheld, hs, hc, hle⟩ := hone (Bool.or_eq_false_iff.1 hlatch).2
    split_ifs with hnone
    · rw [HeldEntry.captured]
      dsimp only
      rw [hsame, hpath, hs, hc]
      exact hheld
    · rw [if_neg hnone] at hu
      have hseen : ∀ i ∈ fc.pendingTb.drop fc.xmDone,
          marksAt (f.blocks caps) i = marksAt (caps f.path f.start f.clock) i := fun i hi =>
        marksAt_take _ ((hheld.pending_lt i (List.mem_of_mem_drop hi)).trans_le hle)
      obtain ⟨hheld', hpath', hs', hc'⟩ := marksHeld_covDecodeMarkers
        (e := ⟨r.2.path, fc, r.2.capXmarks⟩) hheld (fun _ => hseen) hu
      rw [HeldEntry.captured, hpath'.trans (hsame.trans hpath), hs'.trans hs, hc'.trans hc]
      exact hheld'

theorem path_entry (srv : HeldServer) (path : String) : (srv.entry path).path = path := by
  rw [HeldServer.entry]
  have hhead := List.head?_dropWhile_not (fun e : HeldEntry => decide (e.path ≠ path)) srv.cov
  cases hfound : (srv.cov.dropWhile (·.path ≠ path)).head? with
  | none => rfl
  | some e =>
    rw [hfound] at hhead
    simpa using hhead

theorem marksHeld_entry {path : String} (h : ∀ e ∈ srv.cov, e.cov.MarksHeld (e.captured caps)) :
    (srv.entry path).cov.MarksHeld ((srv.entry path).captured caps) := by
  rw [HeldServer.entry]
  cases hfound : (srv.cov.dropWhile (·.path ≠ path)).head? with
  | none => exact marksHeld_empty _
  | some e => exact h e ((List.dropWhile_suffix _).subset (List.mem_of_head? hfound))

theorem heldRefreshFile_cases (caps : Captures) (budget : ℕ) (srv : HeldServer) (f : HeldFile) :
    heldRefreshFile caps budget srv f = srv ∨
      (heldRefreshFile caps budget srv f).flags.xmUnusable =
          ((srv.entry f.path).covScanFile caps budget srv.toMarkLedger f).1.flags.xmUnusable ∧
        ∀ e ∈ (heldRefreshFile caps budget srv f).cov, e ∈ srv.cov ∨
          e = ((srv.entry f.path).covScanFile caps budget srv.toMarkLedger f).2 := by
  rw [heldRefreshFile, HeldServer.entry]
  cases hfound : srv.cov.dropWhile (·.path ≠ f.path) with
  | nil =>
    dsimp only
    split_ifs
    · refine .inr ⟨rfl, fun e he => ?_⟩
      exact (List.mem_append.1 he).imp_right List.mem_singleton.1
    · exact .inl rfl
  | cons e₀ after =>
    refine .inr ⟨rfl, fun e he => ?_⟩
    have hafter : ∀ e ∈ after, e ∈ srv.cov := fun e he =>
      (List.dropWhile_suffix _).subset (hfound ▸ List.mem_cons_of_mem e₀ he)
    rcases List.mem_append.1 he with he | he
    · exact .inl ((List.takeWhile_prefix _).subset he)
    · exact (List.mem_cons.1 he).symm.imp_left (hafter e)

theorem unusable_heldRefreshFile
    (hu : (heldRefreshFile caps budget srv f).flags.xmUnusable = false) :
    srv.flags.xmUnusable = false := by
  rcases heldRefreshFile_cases caps budget srv f with h | ⟨h, -⟩
  · rw [h] at hu
    exact hu
  · exact unusable_covScanFile (h ▸ hu)

theorem marksHeld_heldRefreshFile (h : srv.MarksHeld caps) (hf : f.Noticed caps srv) :
    (heldRefreshFile caps budget srv f).MarksHeld caps := by
  intro hu e he
  have hall := h (unusable_heldRefreshFile hu)
  rcases heldRefreshFile_cases caps budget srv f with hsame | ⟨hflags, hmem⟩
  · rw [hsame] at he
    exact hall e he
  · rcases hmem e he with he | rfl
    · exact hall e he
    · exact marksHeld_covScanFile hf (path_entry srv f.path) (marksHeld_entry hall) (hflags ▸ hu)

theorem heldLateDecode_cases (budget : ℕ) (dir : List HeldFile) (srv : HeldServer) (e : HeldEntry) :
    heldLateDecode budget dir srv e = { srv with cov := srv.cov ++ [e] } ∨
      ∃ f, dir.find? (·.path = e.path) = some f ∧ e.cov.valid = true ∧ f.opensLate = true ∧
        heldLateDecode budget dir srv e =
          { (e.covDecodeMarkers budget f.late srv.toMarkLedger f.reopened).1 with
            cov := srv.cov ++ [(e.covDecodeMarkers budget f.late srv.toMarkLedger
              f.reopened).2] } := by
  rw [heldLateDecode]
  cases dir.find? (·.path = e.path) with
  | none => exact .inl rfl
  | some f =>
    dsimp only
    split_ifs with hopens
    · rw [Bool.and_eq_true, Bool.and_eq_true] at hopens
      exact .inr ⟨f, rfl, hopens.1.1, hopens.2, rfl⟩
    · exact .inl rfl

theorem unusable_heldLateDecode (hu : (heldLateDecode budget dir srv e).flags.xmUnusable = false) :
    srv.flags.xmUnusable = false := by
  rcases heldLateDecode_cases budget dir srv e with h | ⟨f, -, -, -, h⟩
  · rw [h] at hu
    exact hu
  · rw [h] at hu
    exact unusable_covDecodeMarkers hu

theorem marksHeld_heldLateDecode (h : srv.MarksHeld caps)
    (he : srv.flags.xmUnusable = false → e.cov.MarksHeld (e.captured caps))
    (hnoticed : e.Noticed caps dir srv) : (heldLateDecode budget dir srv e).MarksHeld caps := by
  intro hu e' he'
  have hu' := unusable_heldLateDecode hu
  rcases heldLateDecode_cases budget dir srv e with hsame | ⟨f, hfind, hv, hlate, hsame⟩
  · rw [hsame] at he'
    rcases List.mem_append.1 he' with he' | he'
    · exact h hu' e' he'
    · rw [List.mem_singleton.1 he']
      exact he hu'
  · rw [hsame] at hu he'
    rcases List.mem_append.1 he' with he' | he'
    · exact h hu' e' he'
    · obtain ⟨hheld, hpath, hs, hc⟩ := marksHeld_covDecodeMarkers (he hu')
        (fun hretain => hnoticed hu' hretain hv f hfind hlate) hu
      rw [List.mem_singleton.1 he', HeldEntry.captured, hpath, hs, hc]
      exact hheld

theorem unusable_foldl_heldLateDecode (entries : List HeldEntry)
    (hu : (entries.foldl (heldLateDecode budget dir) srv).flags.xmUnusable = false) :
    srv.flags.xmUnusable = false := by
  induction entries generalizing srv with
  | nil => exact hu
  | cons e entries ih => exact unusable_heldLateDecode (ih hu)

theorem marksHeld_foldl_heldLateDecode (entries : List HeldEntry) (h : srv.MarksHeld caps)
    (he : srv.flags.xmUnusable = false → ∀ e ∈ entries, e.cov.MarksHeld (e.captured caps))
    (hnoticed : Run.Allowed (heldLateDecode budget dir) (HeldEntry.Noticed caps dir) srv entries) :
    (entries.foldl (heldLateDecode budget dir) srv).MarksHeld caps := by
  induction entries generalizing srv with
  | nil => exact h
  | cons e entries ih =>
    refine ih (marksHeld_heldLateDecode h (fun hu => he hu e List.mem_cons_self) hnoticed.1)
      (fun hu e' he' => ?_) hnoticed.2
    exact he (unusable_heldLateDecode hu) e' (List.mem_cons_of_mem e he')

theorem flags_dropAbsent (dir : List HeldFile) (srv : HeldServer) :
    (srv.dropAbsent dir).flags = srv.flags :=
  List.foldlRecOn (motive := fun l : MarkLedger => l.flags = srv.flags) _ _ rfl
    fun _ h _ _ => h

theorem marksHeld_dropAbsent (h : srv.MarksHeld caps) (dir : List HeldFile) :
    (srv.dropAbsent dir).MarksHeld caps := by
  intro hu e he
  rw [flags_dropAbsent] at hu
  exact h hu e (List.mem_filter.1 he).1

theorem flags_releaseMarks (srv : HeldServer) : srv.releaseMarks.flags = srv.flags := by
  rw [HeldServer.releaseMarks]
  split_ifs <;> rfl

theorem marksHeld_releaseMarks (h : srv.MarksHeld caps) : srv.releaseMarks.MarksHeld caps := by
  intro hu
  rw [flags_releaseMarks] at hu
  rw [HeldServer.releaseMarks, hu, Bool.false_and, if_neg Bool.false_ne_true]
  exact h hu

theorem unusable_heldStep {op : HeldOp}
    (hu : (heldStep caps budget srv op).flags.xmUnusable = false) :
    srv.flags.xmUnusable = false := by
  cases op with
  | retain => exact hu
  | refresh dir =>
    rw [heldStep, HeldServer.coverageRefresh] at hu
    dsimp only at hu
    rw [flags_dropAbsent, flags_releaseMarks] at hu
    have hscan : (srv.scanFiles caps budget dir).flags.xmUnusable = false := by
      split_ifs at hu
      · have hlate := unusable_foldl_heldLateDecode _ hu
        exact hlate
      · exact hu
    have hfiles : ∀ (files : List HeldFile) (s : HeldServer),
        (files.foldl (heldRefreshFile caps budget) s).flags.xmUnusable = false →
          s.flags.xmUnusable = false := by
      intro files
      induction files with
      | nil => exact fun s hs => hs
      | cons f files ih => exact fun s hs => unusable_heldRefreshFile (ih _ hs)
    rw [← flags_dropAbsent dir srv]
    exact hfiles dir _ hscan

theorem marksHeld_heldStep {op : HeldOp} (h : srv.MarksHeld caps)
    (hop : op.Noticed caps budget srv) : (heldStep caps budget srv op).MarksHeld caps := by
  cases op with
  | retain => exact h
  | refresh dir =>
    obtain ⟨hfiles, hlate⟩ := hop
    have hscan : (srv.scanFiles caps budget dir).MarksHeld caps :=
      hfiles.invariant (fun srv f h hf => marksHeld_heldRefreshFile h hf) dir _
        (marksHeld_dropAbsent h dir)
    rw [heldStep, HeldServer.coverageRefresh]
    generalize srv.scanFiles caps budget dir = scanned at hscan hlate ⊢
    have hdecoded : (if scanned.flags.anySamples && !srv.flags.anySamples then
        scanned.cov.foldl (heldLateDecode budget dir) { scanned with cov := [] }
        else scanned).MarksHeld caps := by
      split_ifs with hsamples
      · rw [Bool.and_eq_true, Bool.not_eq_true'] at hsamples
        exact marksHeld_foldl_heldLateDecode scanned.cov (fun _ => nofun) hscan
          (hlate hsamples.2 hsamples.1)
      · exact hscan
    intro hu e he
    exact marksHeld_dropAbsent (marksHeld_releaseMarks hdecoded) dir hu e
      ((List.mem_insertionSort _).1 he)

end Noticed

/-- **The budget and the losses.** Every run counts the bytes of the arrays, within the budget, and
no array has more markers than capacity. In a run whose losses are noticed, once the markers of a
block are lost the index is unusable, then and after every further operation. -/
theorem markBudget_run (caps : Captures) (budget : ℕ) (ops : List HeldOp) :
    (∀ pre post, ops = pre ++ post →
      let srv := pre.foldl (heldStep caps budget) {}
      srv.xmBytes = (srv.cov.map fun e => e.capXmarks * execMarkSize).sum ∧
        srv.xmBytes ≤ srv.xmPeakBytes ∧ srv.xmPeakBytes ≤ budget ∧
        ∀ e ∈ srv.cov, e.cov.xmarks.length ≤ e.capXmarks) ∧
    (Run.Allowed (heldStep caps budget) (HeldOp.Noticed caps budget) {} ops →
      ∀ pre later post, ops = pre ++ later ++ post →
        (∃ e ∈ (pre.foldl (heldStep caps budget) {}).cov, e.Loses caps) →
          ∀ hatch, ((pre ++ later).foldl (heldStep caps budget) {}).execPrefixIndexUsable hatch =
            false) := by
  refine ⟨fun pre post _ => ?_, fun hrun pre later post hops hloss hatch => ?_⟩
  · obtain ⟨hbytes, hle, hpeak, hfits⟩ := accounts_heldRun caps budget pre
    exact ⟨hbytes, hle, hpeak, hfits⟩
  · obtain ⟨e, he, hlost⟩ := hloss
    rw [hops, List.append_assoc] at hrun
    have hheld : (pre.foldl (heldStep caps budget) {}).MarksHeld caps :=
      (hrun.of_append_left pre _ _).invariant (fun srv op h hop => marksHeld_heldStep h hop) pre {}
        fun _ => nofun
    have hlatched : (pre.foldl (heldStep caps budget) {}).flags.xmUnusable = true := by
      by_contra hu
      exact (hheld (Bool.not_eq_true _ ▸ hu) e he).not_loses hlost
    have hstays : ((pre ++ later).foldl (heldStep caps budget) {}).flags.xmUnusable = true := by
      rw [List.foldl_append]
      refine List.foldlRecOn (motive := fun srv : HeldServer => srv.flags.xmUnusable = true) later
        _ hlatched fun srv h op _ => ?_
      by_contra hu
      exact absurd h (Bool.eq_false_iff.1 (unusable_heldStep (Bool.not_eq_true _ ▸ hu)))
    rw [HeldServer.execPrefixIndexUsable, hstays, Bool.not_true, Bool.and_false, Bool.false_and]

/-- A block in which one execution starts. -/
def startBlock : ReaderBlock where
  indexTs := 10
  fileOffset := 64
  content := .decoded ⟨false, 0, 10, 10⟩ [⟨10, 7, markerExecStart, markerExecStart, 0, 11, 0, 0⟩]
  indexTs_le := by decide
  indexed := by
    rintro info ⟨⟩
    rfl
  shape := by
    rintro info ⟨⟩ ev hev
    rw [List.mem_singleton.1 hev]
    rfl

/-- A view of executions is asked for, and a refresh finds `current.trace` with one block. -/
def startRun (misses : Bool) : List HeldOp :=
  [.retain, .refresh [{
    path := "current.trace"
    start := 0
    clock := 0
    opens := true
    opensLate := true
    refresh := ⟨1, fun _ => misses, fun _ => false⟩
    faults := ⟨fun _ => false, fun _ _ => false, fun _ _ => false⟩
    late := ⟨fun _ => false, fun _ _ => false, fun _ _ => false⟩
    reopened := [startBlock] }]]

/-- Without any budget the marker is lost, and the index is unusable. -/
theorem markBudget_run_noBudget :
    ((startRun false).foldl (heldStep (fun _ _ _ => [startBlock]) 0) {}).execPrefixIndexUsable
      false = false := by
  refine (markBudget_run (fun _ _ _ => [startBlock]) 0 (startRun false)).2 ?_ (startRun false) [] []
    (by simp) ?_ false
  · refine ⟨trivial, ⟨⟨fun _ _ i _ _ hmiss => absurd hmiss Bool.false_ne_true, trivial⟩,
      fun _ hsamples => absurd hsamples (by decide +kernel)⟩, trivial⟩
  · refine ⟨_, List.mem_singleton.2 rfl, 0, by decide +kernel, by decide +kernel, fun hwaits => ?_⟩
    exact absurd hwaits.2 (by decide +kernel)

/-- A header that cannot be read hides its marker, and the index stays usable. -/
theorem markBudget_missedHeader :
    let srv := (startRun true).foldl (heldStep (fun _ _ _ => [startBlock]) 4096) {}
    (∃ e ∈ srv.cov, e.Loses fun _ _ _ => [startBlock]) ∧
      srv.execPrefixIndexUsable false = true := by
  refine ⟨⟨_, List.mem_singleton.2 rfl, 0, by decide +kernel, by decide +kernel, fun hwaits => ?_⟩,
    by decide +kernel⟩
  exact absurd hwaits.1 (by decide +kernel)

end PgWaitTracer
