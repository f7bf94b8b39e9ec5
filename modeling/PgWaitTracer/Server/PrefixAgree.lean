import PgWaitTracer.Server.CachedLoad
import PgWaitTracer.Server.ExactMerge
import PgWaitTracer.Server.FileGate
import PgWaitTracer.Server.MarkIndex

/-!
# The prefix of executions

The structural markers from the start of the trace to a right edge come from the retained index if
`exec_prefix_index_usable` says so, and from a load of markers if not
(`server_load_exec_prefix`, `src/server.c`). The index searches its array for the left edge and stops
at the first marker past the right edge, as if the array were in the order of time. It is in the order
in which blocks were committed.

The load begins with a refresh, which is the last one of a run here. Rotated files come from the cache
of decoded files or from the reader; for `current.trace` the reader stands for its cache too, which
changes nothing. The arrays of both routes can grow.

## Main results

* `execPrefix_agrees` : both give the same markers in the same order.
-/

namespace PgWaitTracer

/-! ### The request -/

/-- What the server has derived for a file: the offset of its clock, the coverage of its generation,
and whether its decoded records are cached. -/
structure FilePlace where
  canonOffset : ℤ
  exact : List Span
  sampled : List Span
  cached : Bool

/-- A request for the prefix up to `toWallNs`. It is made only for a view that begins after the
earliest time of the trace, so that its right edge is given. -/
structure PrefixRequest where
  earliestWallNs : ℤ
  toWallNs : ℤ
  pid : UInt32
  place : String → FilePlace
  lookaheadNs : ℕ
  maxBlocks : ℕ
  limit : ℕ
  positive : 0 < toWallNs
  ordered : earliestWallNs ≤ toWallNs
  limit_le : limit ≤ intMax
  fits : ∀ path, toWallNs - (place path).canonOffset ≤ clockMax

/-- The window of the request in a file. -/
def PrefixRequest.window (req : PrefixRequest) (path : String) : FileWindow where
  fromWallNs := req.earliestWallNs
  toWallNs := req.toWallNs
  canonOffset := (req.place path).canonOffset
  rightBounded := true
  pid := req.pid
  markersOnly := true
  straddle := ⟨true, req.lookaheadNs, req.maxBlocks⟩
  ordered := req.ordered
  fits := req.fits path

/-- The offset of a file as it is added to a timestamp. -/
def PrefixRequest.off (req : PrefixRequest) (path : String) : UInt64 :=
  UInt64.ofInt (req.place path).canonOffset

/-- The final check of both routes: records out of order are sorted, equal times left in place. -/
def restoreOrder (events : List TraceEvent) : List TraceEvent :=
  events.insertionSort fun a b => a.timestampNs ≤ b.timestampNs

/-- The result of a load: the records, unless an allocation failed, and whether there are too many
of them. -/
structure PrefixLoad where
  events : Option (List TraceEvent)
  overloaded : Bool
  deriving DecidableEq, Repr

/-! ### The index -/

/-- A retained marker as a record. -/
def ExecMark.event (off : UInt64) (xm : ExecMark) : TraceEvent where
  timestampNs := xm.ts + off
  pid := xm.pid
  oldEvent := markerExecStart + xm.marker
  newEvent := markerExecStart + xm.marker
  flags := xm.flags
  durationNs := 0
  queryId := xm.queryId
  cpuNs := 0

/-- `xmarks_lower_bound`. -/
def xmarksLowerBound (marks : List ExecMark) (ts : ℕ) : ℕ :=
  BinarySearch.lowerBound (fun i => (marks[i]?).any fun xm => xm.ts.toNat < ts) marks.length

/-- The markers of a file from the left edge on. The first one past the right edge ends the loop. -/
def collectMarks (req : PrefixRequest) (off : UInt64) (toM : ℕ) (st : LoadState) :
    List ExecMark → LoadState
  | [] => st
  | xm :: marks =>
    if toM < xm.ts.toNat then st
    else if req.pid ≠ 0 && xm.pid ≠ req.pid then collectMarks req off toM st marks
    else if (some req.limit).any (· ≤ st.out.length) then { st with overloaded := true }
    else collectMarks req off toM { st with out := st.out ++ [xm.event off] } marks

/-- One entry of the index. -/
def prefixEntry (req : PrefixRequest) (st : LoadState) (e : CovEntry) : LoadState :=
  let w := req.window e.path
  if st.overloaded then st
  else if !e.cov.valid || e.cov.xmarks.isEmpty then st
  else if w.toWallNs - w.canonOffset ≤ 0 then st
  else if w.toM < e.cov.monoFirst || e.cov.monoLast < w.fromM then st
  else collectMarks req (req.off e.path) w.toM st
    (e.cov.xmarks.drop (xmarksLowerBound e.cov.xmarks w.fromM))

/-- `server_load_prefix_from_index`. -/
def serverLoadPrefixFromIndex (req : PrefixRequest) (srv : MarkServer) : PrefixLoad :=
  let st := srv.cov.foldl (prefixEntry req) {}
  ⟨some (if st.overloaded then st.out else restoreOrder st.out), st.overloaded⟩

/-! ### The load of markers -/

/-- One file of the load, with the segment that the merge takes. -/
def loadEntry (caps : Captures) (req : PrefixRequest) (s : LoadState × List MergeSegment)
    (e : CovEntry) : LoadState × List MergeSegment :=
  if s.1.overloaded then s
  else
    match fileGate e.cov (req.window e.path) with
    | .skip truncated => ({ s.1 with truncated := s.1.truncated || truncated }, s.2)
    | .load rg =>
      let place := req.place e.path
      let st :=
        if place.cached then loadCached (some req.limit) rg s.1 (getCachedImmutable (e.blocks caps))
        else loadFileRange (some req.limit) rg { s.1 with straddleBlocks := 0 } (e.blocks caps)
      if s.1.out.length < st.out.length then
        (st, s.2 ++ [{
          events := st.out.drop s.1.out.length
          exact := place.exact
          sampled := place.sampled
          off := req.off e.path
          fromM := rg.fromM
          toM := rg.toM }])
      else (st, s.2)

/-- `server_load_markers_fi` after its refresh. An overload leaves nothing to the merge. -/
def serverLoadMarkers (caps : Captures) (req : PrefixRequest) (srv : MarkServer) : PrefixLoad :=
  let s := srv.cov.foldl (loadEntry caps req) ({}, [])
  match mergeMaxEvents s.2 with
  | none => ⟨none, false⟩
  | some maxEvents =>
    if s.1.overloaded then ⟨some [], true⟩
    else ⟨(mergeSegments maxEvents s.2).map restoreOrder, false⟩

/-! ### The condition on a file -/

/-- The record is a marker in the window. -/
def FileWindow.Asks (w : FileWindow) (ev : TraceEvent) : Prop :=
  isMarker ev.oldEvent = true ∧ w.fromM ≤ ev.ts ∧ ev.ts ≤ w.toM

instance (w : FileWindow) (ev : TraceEvent) : Decidable (w.Asks ev) :=
  inferInstanceAs (Decidable (_ ∧ _ ∧ _))

/-- The markers of a file are where both routes look for them. Those before the window come first
and those past it last; the headers reach over the ones in the window, and so does the first index
entry; none of these looks like an exit, none past the window like a wait; and if the file is cached
then the cache serves the window. -/
structure CovEntry.Agreeing (caps : Captures) (req : PrefixRequest) (e : CovEntry) : Prop where
  left : (marksOf ((e.blocks caps).flatMap (·.content.records))).Pairwise fun a b =>
    b.ts.toNat < (req.window e.path).fromM → a.ts.toNat < (req.window e.path).fromM
  right : (marksOf ((e.blocks caps).flatMap (·.content.records))).Pairwise fun a b =>
    (req.window e.path).toM < a.ts.toNat → (req.window e.path).toM < b.ts.toNat
  header : ∀ r ∈ fileRecords (e.blocks caps), (req.window e.path).Asks r.2 →
    r.1.firstNs ≤ r.2.ts ∧ r.2.ts ≤ r.1.lastNs
  first : ∀ r ∈ fileRecords (e.blocks caps), (req.window e.path).Asks r.2 →
    indexFirst (e.blocks caps) ≤ (req.window e.path).toM
  notExit : ∀ r ∈ fileRecords (e.blocks caps), (req.window e.path).Asks r.2 →
    r.2.newEvent ≠ eventExit
  instant : ∀ r ∈ fileRecords (e.blocks caps), isMarker r.2.oldEvent = true →
    (req.window e.path).toM < r.2.ts → r.2.dur = 0
  served : (req.place e.path).cached = true → ∀ rg,
    fileGate e.cov (req.window e.path) = .load rg → rg.CacheServes (e.blocks caps)

/-! ### What the index gives -/

/-- The retained marker is one that the request asks for in the window. -/
def FileWindow.asksMark (w : FileWindow) (xm : ExecMark) : Bool :=
  w.fromM ≤ xm.ts.toNat && xm.ts.toNat ≤ w.toM && !(w.pid ≠ 0 && xm.pid ≠ w.pid)

/-- The records that the request asks for in a file, if the window meets it. -/
def CovEntry.prefixEvents (caps : Captures) (req : PrefixRequest) (e : CovEntry) :
    List TraceEvent :=
  if e.cov.valid = false ∨ req.toWallNs - (req.place e.path).canonOffset ≤ 0 ∨
      e.cov.monoLast < (req.window e.path).fromM then []
  else ((marksOf ((e.blocks caps).flatMap (·.content.records))).filter
    (req.window e.path).asksMark).map (ExecMark.event (req.off e.path))

theorem map_snd_fileRecords (blocks : List ReaderBlock) :
    (fileRecords blocks).map Prod.snd = blocks.flatMap (·.content.records) := by
  rw [fileRecords, List.map_flatMap]
  congr 1
  funext b
  cases hc : b.content <;> simp [BlockContent.header, BlockContent.records]

theorem filter_asksMark (w : FileWindow) (blocks : List ReaderBlock) :
    (marksOf (blocks.flatMap (·.content.records))).filter w.asksMark =
      ((fileRecords blocks).filter fun r =>
        isMarker r.2.oldEvent && w.asksMark r.2.toExecMark).map fun r => r.2.toExecMark := by
  rw [marksOf, ← map_snd_fileRecords, List.filter_map, List.filter_map, List.filter_map,
    List.filter_filter, List.map_map]
  exact congrArg _ (List.filter_congr fun r _ => Bool.and_comm _ _)

theorem FileWindow.asks_of_asksMark {w : FileWindow} {ev : TraceEvent}
    (h : (isMarker ev.oldEvent && w.asksMark ev.toExecMark) = true) : w.Asks ev := by
  simp only [FileWindow.asksMark, Bool.and_eq_true, decide_eq_true_eq] at h
  exact ⟨h.1, h.2.1.1, h.2.1.2⟩

variable {caps : Captures} {e : CovEntry} {taken : List TraceEvent} {st : LoadState}
  {req : PrefixRequest}

theorem collectMarks_holds (off : UInt64) {w : FileWindow} (hpid : w.pid = req.pid)
    {marks : List ExecMark} (hleft : ∀ xm ∈ marks, w.fromM ≤ xm.ts.toNat)
    (hright : marks.Pairwise fun a b => w.toM < a.ts.toNat → w.toM < b.ts.toNat)
    (h : st.Holds (some req.limit) taken) (hst : st.overloaded = false) :
    (collectMarks req off w.toM st marks).Holds (some req.limit)
      (taken ++ (marks.filter w.asksMark).map (ExecMark.event off)) := by
  induction marks generalizing st taken with
  | nil => simpa [collectMarks] using h
  | cons xm marks ih =>
    obtain ⟨hxm, hmarks⟩ := List.forall_mem_cons.1 hleft
    obtain ⟨hone, hrest⟩ := List.pairwise_cons.1 hright
    rw [collectMarks]
    by_cases hpast : w.toM < xm.ts.toNat
    · rw [if_pos hpast]
      have hnone : (xm :: marks).filter w.asksMark = [] := by
        rw [List.filter_eq_nil_iff]
        intro xm' hmem
        have hlate : w.toM < xm'.ts.toNat := by
          rcases List.mem_cons.1 hmem with rfl | hmem
          · exact hpast
          · exact hone xm' hmem hpast
        simp [FileWindow.asksMark, Nat.not_le.2 hlate]
      rw [hnone, List.map_nil, List.append_nil]
      exact h
    rw [if_neg hpast]
    have hask : w.asksMark xm = !(req.pid ≠ 0 && xm.pid ≠ req.pid) := by
      rw [FileWindow.asksMark, hpid]
      simp [hxm, Nat.not_lt.1 hpast]
    by_cases hother : (req.pid ≠ 0 && xm.pid ≠ req.pid) = true
    · rw [if_pos hother, List.filter_cons_of_neg (by rw [hask, hother]; decide)]
      exact ih hmarks hrest h hst
    rw [if_neg hother, List.filter_cons_of_pos
      (by rw [hask, Bool.eq_false_iff.2 hother]; rfl), List.map_cons,
      ← List.singleton_append, ← List.append_assoc]
    have hpush := h.push hst (xm.event off)
    split_ifs with hfull
    · rw [if_pos hfull] at hpush
      exact hpush.append rfl _
    · rw [if_neg hfull] at hpush
      exact ih hmarks hrest hpush hst

/-- **One entry of the index** gives what the request asks for in the file. -/
theorem prefixEntry_holds (hkept : e.cov.valid = true →
      e.cov.xmarks = marksOf ((e.blocks caps).flatMap (·.content.records)) ∧
        e.cov.monoFirst = indexFirst (e.blocks caps))
    (hagree : e.cov.valid = true → e.Agreeing caps req) (h : st.Holds (some req.limit) taken) :
    (prefixEntry req st e).Holds (some req.limit) (taken ++ e.prefixEvents caps req) := by
  rw [prefixEntry]
  by_cases hov : st.overloaded = true
  · rw [if_pos hov]
    exact h.append hov _
  rw [if_neg hov]
  rw [Bool.not_eq_true] at hov
  have hskip : e.prefixEvents caps req = [] →
      st.Holds (some req.limit) (taken ++ e.prefixEvents caps req) := fun hnil => by
    rw [hnil, List.append_nil]
    exact h
  cases hvalid : e.cov.valid with
  | false =>
    rw [Bool.not_false, Bool.true_or, if_pos rfl]
    exact hskip (if_pos (.inl hvalid))
  | true =>
    obtain ⟨hx, hfirst⟩ := hkept hvalid
    have ha := hagree hvalid
    rw [Bool.not_true, Bool.false_or]
    change (if e.cov.xmarks.isEmpty = true then st
      else if req.toWallNs - (req.place e.path).canonOffset ≤ 0 then st else _).Holds _ _
    by_cases hempty : e.cov.xmarks.isEmpty = true
    · rw [if_pos hempty]
      refine hskip ?_
      rw [CovEntry.prefixEvents, ← hx, List.isEmpty_iff.1 hempty]
      exact ite_self _
    rw [if_neg hempty]
    by_cases hclock : req.toWallNs - (req.place e.path).canonOffset ≤ 0
    · rw [if_pos hclock]
      exact hskip (if_pos (.inr (.inl hclock)))
    rw [if_neg hclock]
    by_cases hlast : e.cov.monoLast < (req.window e.path).fromM
    · rw [decide_eq_true hlast, Bool.or_true, if_pos rfl]
      exact hskip (if_pos (.inr (.inr hlast)))
    rw [decide_eq_false hlast, Bool.or_false]
    have hevents : e.prefixEvents caps req =
        (e.cov.xmarks.filter (req.window e.path).asksMark).map (ExecMark.event (req.off e.path)) := by
      rw [CovEntry.prefixEvents, if_neg (by simp [hvalid, hclock, hlast]), hx]
    rw [hevents]
    by_cases hmiss : (req.window e.path).toM < e.cov.monoFirst
    · rw [decide_eq_true hmiss, if_pos rfl]
      -- The file begins past the window, so that none of its markers lies in it.
      have hnone : e.cov.xmarks.filter (req.window e.path).asksMark = [] := by
        rw [hx, filter_asksMark, List.map_eq_nil_iff, List.filter_eq_nil_iff]
        intro r hr hasks
        have := ha.first r hr (FileWindow.asks_of_asksMark hasks)
        omega
      rw [hnone, List.map_nil, List.append_nil]
      exact h
    · rw [decide_eq_false hmiss, if_neg Bool.false_ne_true]
      have hdrop : e.cov.xmarks.drop (xmarksLowerBound e.cov.xmarks (req.window e.path).fromM) =
          e.cov.xmarks.filter fun xm => !decide (xm.ts.toNat < (req.window e.path).fromM) := by
        refine BinarySearch.drop_lowerBound ?_
        rw [hx]
        simpa only [decide_eq_true_eq] using ha.left
      rw [hdrop]
      have hfilter : e.cov.xmarks.filter (req.window e.path).asksMark =
          (e.cov.xmarks.filter fun xm => !decide (xm.ts.toNat < (req.window e.path).fromM)).filter
            (req.window e.path).asksMark := by
        rw [List.filter_filter]
        refine List.filter_congr fun xm _ => ?_
        rw [FileWindow.asksMark]
        by_cases hfrom : xm.ts.toNat < (req.window e.path).fromM
        · simp [Nat.not_le.2 hfrom]
        · simp [hfrom]
      rw [hfilter]
      refine collectMarks_holds _ rfl (fun xm hxm => ?_) ?_ h hov
      · simpa using (List.mem_filter.1 hxm).2
      · rw [hx]
        exact ha.right.filter _

/-! ### What a load of markers takes -/

section Range

variable {w : FileWindow} {fc : ScanCov} {hw : ¬w.toWallNs - w.canonOffset ≤ 0}

theorem sampleTo_range (hmo : w.markersOnly = true) : (w.range fc hw).sampleTo = w.toM := by
  change w.sampleTo fc = w.toM
  rw [FileWindow.sampleTo, hmo]
  rfl

/-- A load of markers takes a marker in the window, and nothing else. -/
theorem take_range (hmo : w.markersOnly = true) {r : BlockMeta × TraceEvent}
    (hinstant : isMarker r.2.oldEvent = true → w.toM < r.2.ts → r.2.dur = 0) :
    (w.range fc hw).take r =
      if isMarker r.2.oldEvent && w.asksMark r.2.toExecMark then
        some ((w.range fc hw).loaded r.1.samplePeriodNs false r.2) else none := by
  have hfilters : (w.range fc hw).filters r.2 =
      (!(w.pid ≠ 0 && r.2.pid ≠ w.pid) && isMarker r.2.oldEvent) := by
    rw [LoadRange.filters]
    change (!(w.pid ≠ 0 && r.2.pid ≠ w.pid) && !(w.markersOnly && !isMarker r.2.oldEvent)) = _
    rw [hmo, Bool.true_and, Bool.not_not]
  have hedge : (if r.1.isSample then (w.range fc hw).sampleTo else (w.range fc hw).toM) = w.toM := by
    rw [sampleTo_range hmo]
    exact ite_self _
  split_ifs with hasks
  · rw [FileWindow.asksMark] at hasks
    simp only [Bool.and_eq_true, decide_eq_true_eq] at hasks
    obtain ⟨hmark, ⟨hfrom, hto⟩, hpid⟩ := hasks
    refine take_eq_some.2 ⟨false, admission_eq_take.2 ⟨hfrom, ?_, .inl ⟨rfl, ?_⟩⟩, rfl⟩
    · rw [hfilters, hmark, Bool.and_true]
      exact hpid
    · rw [hedge]
      exact hto
  · rw [take_eq_none_iff]
    rintro ⟨hfrom, hf, hin⟩
    rw [hfilters, Bool.and_eq_true] at hf
    rw [hedge] at hin
    rcases hin with hle | ⟨-, hs⟩
    · refine hasks ?_
      rw [FileWindow.asksMark, hf.2, Bool.true_and, Bool.and_eq_true, Bool.and_eq_true,
        decide_eq_true_eq, decide_eq_true_eq]
      exact ⟨⟨hfrom, hle⟩, hf.1⟩
    · exact hs.dur_ne (hinstant hf.2 hs.late)

theorem filterMap_eq_map_filter {α β : Type*} {f : α → Option β} {p : α → Bool} {g : α → β}
    {l : List α} (h : ∀ a ∈ l, f a = if p a then some (g a) else none) :
    l.filterMap f = (l.filter p).map g := by
  induction l with
  | nil => rfl
  | cons a l ih =>
    obtain ⟨ha, hl⟩ := List.forall_mem_cons.1 h
    rw [List.filterMap_cons, ha]
    cases hp : p a with
    | true => rw [if_pos rfl, List.filter_cons_of_pos hp, List.map_cons, ih hl]
    | false =>
      rw [if_neg Bool.false_ne_true, List.filter_cons_of_neg (by rw [hp]; decide), ih hl]

end Range

section Reached

variable {rg : LoadRange}

theorem considerBlock_frame (rg : LoadRange) (info : BlockMeta) (c : Bool) (st : LoadState) :
    (considerBlock rg info c st).1.out = st.out ∧
      (considerBlock rg info c st).1.overloaded = st.overloaded := by
  rw [considerBlock]
  split_ifs <;> exact ⟨rfl, rfl⟩

theorem considerBlock_of_reached (hsample : rg.toM ≤ rg.sampleTo) {info : BlockMeta}
    (hfrom : rg.fromM ≤ info.lastNs) (hto : info.firstNs ≤ rg.toM) (st : LoadState) :
    (considerBlock rg info (rg.candidate info) st).2 = true := by
  have hscan := (toM_le_straddleTo rg).trans (straddleTo_le_scanTo rg)
  have hedge : ¬rg.sampleTo < info.firstNs := by omega
  have honly : rg.onlyStraddlers info = false := by
    rw [LoadRange.onlyStraddlers, decide_eq_false hedge, Bool.and_false]
  rw [considerBlock, decide_eq_false hedge, Bool.and_false, if_neg Bool.false_ne_true,
    (candidate_iff rg info).2 ⟨hfrom, by omega⟩, honly]
  rfl

/-- If the headers reach over the records that the load takes then it takes them all. -/
theorem loadFileRange_holds_of_reached {limit : Option ℕ} (hsample : rg.toM ≤ rg.sampleTo)
    {blocks : List ReaderBlock} (hb : ∀ r ∈ fileRecords blocks, (rg.take r).isSome = true →
      rg.fromM ≤ r.1.lastNs ∧ r.1.firstNs ≤ rg.toM) (h : st.Holds limit taken) :
    (loadFileRange limit rg st blocks).Holds limit
      (taken ++ (fileRecords blocks).filterMap rg.take) := by
  induction blocks generalizing st taken with
  | nil => simpa [loadFileRange, fileRecords] using h
  | cons b blocks ih =>
    rw [fileRecords_cons] at hb ⊢
    have hrest := fun r hr => hb r (List.mem_append_right _ hr)
    rw [List.filterMap_append, ← List.append_assoc]
    refine ih hrest ?_
    rw [loadBlock]
    by_cases hov : st.overloaded = true
    · rw [if_pos hov]
      exact h.append hov _
    rw [if_neg hov]
    cases hc : b.content with
    | unreadable =>
      have hnil : fileRecords [b] = [] := by
        simp [fileRecords, hc, BlockContent.header]
      rw [hnil, List.filterMap_nil, List.append_nil]
      exact h.of_eq rfl rfl
    | damaged info =>
      have hnil : fileRecords [b] = [] := by
        simp [fileRecords, hc, BlockContent.header, BlockContent.records]
      obtain ⟨hout, hov⟩ := considerBlock_frame rg info (rg.candidate info) st
      rw [hnil, List.filterMap_nil, List.append_nil]
      dsimp only
      split_ifs
      · exact h.of_eq hout hov
      · exact h.of_eq hout hov
    | decoded info records =>
      have hrec : fileRecords [b] = records.map fun ev => (info, ev) := by
        simp [fileRecords, hc, BlockContent.header, BlockContent.records]
      obtain ⟨hout, hov⟩ := considerBlock_frame rg info (rg.candidate info) st
      rw [hrec] at hb ⊢
      dsimp only
      split_ifs with hgo
      · exact (foldl_loadRecord limit rg info records (h.of_eq hout hov)).1
      · have hnil : (records.map fun ev => (info, ev)).filterMap rg.take = [] := by
          rw [List.filterMap_eq_nil_iff]
          intro r hr
          by_contra hsome
          obtain ⟨hfrom, hto⟩ :=
            hb r (List.mem_append_left _ hr) (Option.isSome_iff_ne_none.2 hsome)
          obtain ⟨ev, -, rfl⟩ := List.mem_map.1 hr
          exact hgo (considerBlock_of_reached hsample hfrom hto st)
        rw [hnil, List.append_nil]
        exact h.of_eq hout hov

end Reached

/-! ### What the merge leaves of it -/

/-- What a record of the prefix says: its time, its pid, its marker and its query. -/
def TraceEvent.markKey (ev : TraceEvent) : UInt64 × UInt32 × UInt32 × UInt64 :=
  (ev.timestampNs, ev.pid, ev.oldEvent, ev.queryId)

/-- What the segments leave in the merge, as far as the prefix goes. -/
def segmentKeys (segs : List MergeSegment) : List (UInt64 × UInt32 × UInt32 × UInt64) :=
  (segs.flatMap fun seg => seg.events.flatMap seg.emitted).map TraceEvent.markKey

theorem isSample_of_isMarker {blocks : List ReaderBlock} {r : BlockMeta × TraceEvent}
    (hr : r ∈ fileRecords blocks) (hmark : isMarker r.2.oldEvent = true) :
    r.2.isSample = false := by
  have hshape := decodedAs_of_mem_fileRecords hr
  rw [isSample_of_decodedAs hshape]
  by_contra hs
  rw [Bool.not_eq_false] at hs
  rw [DecodedAs, if_pos hs] at hshape
  rw [hshape.2.1] at hmark
  exact absurd hmark (by decide)

theorem markKey_event (off : UInt64) (ev : TraceEvent) :
    (ev.toExecMark.event off).markKey = (ev.shift off).markKey := by
  have hcode : markerExecStart + (ev.oldEvent - markerExecStart) = ev.oldEvent := by
    rw [UInt32.add_comm, UInt32.sub_add_cancel]
  simp [TraceEvent.markKey, ExecMark.event, TraceEvent.toExecMark, TraceEvent.shift, hcode]

theorem emitted_loaded {rg : LoadRange} {seg : MergeSegment} {period : UInt64} {ev : TraceEvent}
    (hs : ev.isSample = false) (hexit : ev.newEvent ≠ eventExit) (hfrom : seg.fromM ≤ ev.ts)
    (hto : ev.ts ≤ seg.toM) :
    seg.emitted (rg.loaded period false ev) = [(rg.loaded period false ev).shift seg.off] ∧
      seg.extraParts (rg.loaded period false ev) = 0 ∧
      ((rg.loaded period false ev).shift seg.off).markKey = (ev.shift seg.off).markKey := by
  have hs' : (rg.loaded period false ev).isSample = false := (isSample_loaded _ _ _ _).trans hs
  have hloaded : rg.loaded period false ev =
      { ev with flags := ev.flags ||| rg.edgeFlags false ev } := by
    rw [LoadRange.loaded, asInterval_of_not_isSample period hs]
  have hkeeps : seg.keeps (rg.loaded period false ev) = true := by
    have hts : (rg.loaded period false ev).ts = ev.ts := by rw [hloaded]; rfl
    have hnew : (rg.loaded period false ev).newEvent = ev.newEvent := by rw [hloaded]
    rw [MergeSegment.keeps, MergeSegment.phantomExit, hts, hnew]
    simp [hexit, hfrom, hto]
  refine ⟨?_, ?_, ?_⟩
  · rw [MergeSegment.emitted, hs', if_neg Bool.false_ne_true, if_pos hkeeps]
  · rw [MergeSegment.extraParts, hs', if_neg Bool.false_ne_true]
  · rw [hloaded]
    rfl

/-- The records of a file that the load takes, as the merge leaves them. -/
theorem taken_segment (ha : e.Agreeing caps req)
    (hw : ¬(req.window e.path).toWallNs - (req.window e.path).canonOffset ≤ 0) (seg : MergeSegment)
    (hoff : seg.off = req.off e.path) (hfrom : seg.fromM = (req.window e.path).fromM)
    (hto : seg.toM = (req.window e.path).toM) :
    (((fileRecords (e.blocks caps)).filterMap
        ((req.window e.path).range e.cov hw).take).flatMap seg.emitted).map TraceEvent.markKey =
      (((marksOf ((e.blocks caps).flatMap (·.content.records))).filter
        (req.window e.path).asksMark).map (ExecMark.event (req.off e.path))).map
          TraceEvent.markKey ∧
    ∀ ev ∈ (fileRecords (e.blocks caps)).filterMap ((req.window e.path).range e.cov hw).take,
      seg.extraParts ev = 0 := by
  have htake : (fileRecords (e.blocks caps)).filterMap ((req.window e.path).range e.cov hw).take =
      ((fileRecords (e.blocks caps)).filter fun r =>
        isMarker r.2.oldEvent && (req.window e.path).asksMark r.2.toExecMark).map fun r =>
          ((req.window e.path).range e.cov hw).loaded r.1.samplePeriodNs false r.2 :=
    filterMap_eq_map_filter fun r hr => take_range rfl (ha.instant r hr)
  have hone : ∀ r ∈ (fileRecords (e.blocks caps)).filter fun r =>
      isMarker r.2.oldEvent && (req.window e.path).asksMark r.2.toExecMark,
      seg.emitted (((req.window e.path).range e.cov hw).loaded r.1.samplePeriodNs false r.2) =
        [(((req.window e.path).range e.cov hw).loaded r.1.samplePeriodNs false r.2).shift seg.off] ∧
      seg.extraParts (((req.window e.path).range e.cov hw).loaded r.1.samplePeriodNs false r.2) = 0 ∧
      ((((req.window e.path).range e.cov hw).loaded r.1.samplePeriodNs false r.2).shift
        seg.off).markKey = (r.2.shift seg.off).markKey := by
    intro r hr
    obtain ⟨hr, hasks⟩ := List.mem_filter.1 hr
    have hin := FileWindow.asks_of_asksMark hasks
    refine emitted_loaded (isSample_of_isMarker hr hin.1) (ha.notExit r hr hin) ?_ ?_
    · rw [hfrom]
      exact hin.2.1
    · rw [hto]
      exact hin.2.2
  rw [htake, filter_asksMark]
  generalize (fileRecords (e.blocks caps)).filter _ = rs at hone
  refine ⟨?_, ?_⟩
  · induction rs with
    | nil => rfl
    | cons r rs ih =>
      obtain ⟨⟨hemit, -, hkey⟩, hrs⟩ := List.forall_mem_cons.1 hone
      rw [List.map_cons, List.flatMap_cons, List.map_append, ih hrs, hemit, List.map_singleton, hkey,
        hoff, ← markKey_event]
      rfl
  · intro ev hev
    obtain ⟨r, hr, rfl⟩ := List.mem_map.1 hev
    exact (hone r hr).2.1

theorem segmentKeys_append (segs segs' : List MergeSegment) :
    segmentKeys (segs ++ segs') = segmentKeys segs ++ segmentKeys segs' := by
  rw [segmentKeys, List.flatMap_append, List.map_append, segmentKeys, segmentKeys]

theorem mergeLimit_of_extraParts {seg : MergeSegment}
    (h : ∀ ev ∈ seg.events, seg.extraParts ev = 0) : mergeLimit [seg] = seg.events.length := by
  have hone : seg.events.map (fun ev => 1 + seg.extraParts ev) = seg.events.map fun _ => 1 :=
    List.map_congr_left fun ev hev => by rw [h ev hev]
  rw [mergeLimit, List.map_singleton, List.sum_singleton, hone, List.map_const',
    List.sum_replicate, nsmul_eq_mul, mul_one, Nat.cast_id]

theorem mergeLimit_append (segs segs' : List MergeSegment) :
    mergeLimit (segs ++ segs') = mergeLimit segs + mergeLimit segs' := by
  rw [mergeLimit, List.map_append, List.sum_append, mergeLimit, mergeLimit]

/-- The gate of the load lets a file pass if the request asks for something in it. -/
theorem fileGate_cases (hkept : e.cov.valid = true → e.cov.monoFirst = indexFirst (e.blocks caps))
    (hagree : e.cov.valid = true → e.Agreeing caps req) :
    (∃ truncated, fileGate e.cov (req.window e.path) = .skip truncated ∧
      e.prefixEvents caps req = []) ∨
    ∃ hw, e.cov.valid = true ∧
      fileGate e.cov (req.window e.path) = .load ((req.window e.path).range e.cov hw) ∧
      e.prefixEvents caps req = ((marksOf ((e.blocks caps).flatMap (·.content.records))).filter
        (req.window e.path).asksMark).map (ExecMark.event (req.off e.path)) := by
  rw [fileGate]
  cases hvalid : e.cov.valid with
  | false => exact .inl ⟨false, rfl, if_pos (.inl hvalid)⟩
  | true =>
    rw [Bool.not_true, if_neg Bool.false_ne_true]
    by_cases hclock : (req.window e.path).toWallNs - (req.window e.path).canonOffset ≤ 0
    · rw [dif_pos hclock]
      exact .inl ⟨false, rfl, if_pos (.inr (.inl hclock))⟩
    rw [dif_neg hclock]
    by_cases hlast : e.cov.monoLast < (req.window e.path).fromM
    · left
      refine ⟨_, if_pos ?_, if_pos (.inr (.inr hlast))⟩
      rw [Bool.or_eq_true]
      exact .inr (decide_eq_true hlast)
    have hevents : e.prefixEvents caps req =
        ((marksOf ((e.blocks caps).flatMap (·.content.records))).filter
          (req.window e.path).asksMark).map (ExecMark.event (req.off e.path)) :=
      if_neg (by rintro (hv | hc | hl)
                 · exact absurd (hvalid.symm.trans hv) (by decide)
                 · exact hclock hc
                 · exact hlast hl)
    by_cases hfirst : ((req.window e.path).range e.cov hclock).scanTo < e.cov.monoFirst
    · left
      refine ⟨_, if_pos (by rw [decide_eq_true hfirst, Bool.true_or]), ?_⟩
      have hscan := (toM_le_straddleTo ((req.window e.path).range e.cov hclock)).trans
        (straddleTo_le_scanTo _)
      have hnone : (marksOf ((e.blocks caps).flatMap (·.content.records))).filter
          (req.window e.path).asksMark = [] := by
        rw [filter_asksMark, List.map_eq_nil_iff, List.filter_eq_nil_iff]
        intro r hr hasks
        have hle := (hagree hvalid).first r hr (FileWindow.asks_of_asksMark hasks)
        rw [← hkept hvalid] at hle
        exact absurd (hfirst.trans_le (hle.trans hscan)) (lt_irrefl _)
      rw [hevents, hnone, List.map_nil]
    · refine .inr ⟨hclock, rfl, if_neg ?_, hevents⟩
      rw [Bool.or_eq_true, decide_eq_true_eq, decide_eq_true_eq]
      exact not_or.2 ⟨hfirst, hlast⟩

/-- **One file of the load** leaves what the request asks for in it. -/
theorem loadEntry_spec (hkept : e.cov.valid = true → e.cov.monoFirst = indexFirst (e.blocks caps))
    (hagree : e.cov.valid = true → e.Agreeing caps req) {s : LoadState × List MergeSegment}
    (h : s.1.Holds (some req.limit) taken) :
    (∃ taken', (loadEntry caps req s e).1.Holds (some req.limit) taken') ∧
      mergeLimit (loadEntry caps req s e).2 + s.1.out.length =
        mergeLimit s.2 + (loadEntry caps req s e).1.out.length ∧
      ((loadEntry caps req s e).1.overloaded = false →
        s.1.overloaded = false ∧ segmentKeys (loadEntry caps req s e).2 =
          segmentKeys s.2 ++ (e.prefixEvents caps req).map TraceEvent.markKey) := by
  rw [loadEntry]
  by_cases hov : s.1.overloaded = true
  · rw [if_pos hov]
    exact ⟨⟨taken, h⟩, rfl, fun hf => absurd (hov.symm.trans hf) (by decide)⟩
  rw [if_neg hov]
  rw [Bool.not_eq_true] at hov
  rcases fileGate_cases hkept hagree with ⟨truncated, hgate, hnil⟩ | ⟨hw, hvalid, hgate, hevents⟩
  · rw [hgate, hnil, List.map_nil, List.append_nil]
    exact ⟨⟨taken, h.of_eq rfl rfl⟩, rfl, fun _ => ⟨hov, rfl⟩⟩
  have ha := hagree hvalid
  rw [hgate, hevents]
  dsimp only
  generalize hst : (if (req.place e.path).cached = true then
      loadCached (some req.limit) ((req.window e.path).range e.cov hw) s.1
        (getCachedImmutable (e.blocks caps))
    else loadFileRange (some req.limit) ((req.window e.path).range e.cov hw)
      { s.1 with straddleBlocks := 0 } (e.blocks caps)) = st
  have hholds : st.Holds (some req.limit) (taken ++
      (fileRecords (e.blocks caps)).filterMap ((req.window e.path).range e.cov hw).take) := by
    rw [← hst]
    split_ifs with hcached
    · rw [← (records_eq_iff _ _).2 (ha.served hcached _ hgate)]
      exact loadCached_holds _ _ h hov
    · refine loadFileRange_holds_of_reached (sampleTo_range rfl).ge (fun r hr hsome => ?_)
        (h.of_eq rfl rfl)
      rw [take_range rfl (ha.instant r hr)] at hsome
      split_ifs at hsome with hasks
      · have hin := FileWindow.asks_of_asksMark hasks
        obtain ⟨hfirst, hlast⟩ := ha.header r hr hin
        exact ⟨hin.2.1.trans hlast, hfirst.trans hin.2.2⟩
      · cases hsome
  have hout := h.out_of_not_overloaded hov
  rw [← hout] at hholds
  generalize hT : (fileRecords (e.blocks caps)).filterMap
    ((req.window e.path).range e.cov hw).take = T at hholds
  have hlen : s.1.out.length ≤ req.limit := by
    have hroom := h.overloaded_iff
    rw [hov, ← hout] at hroom
    simpa using hroom
  have hst' : st.out = s.1.out ++ T.take (req.limit - s.1.out.length) := by
    rw [hholds.out_eq, Option.elim_some, List.take_append, List.take_of_length_le hlen]
  have hseg := taken_segment ha hw
  rw [hT] at hseg
  by_cases hgrow : s.1.out.length < st.out.length
  · rw [if_pos hgrow]
    obtain ⟨hkeys, hextra⟩ := hseg {
      events := st.out.drop s.1.out.length
      exact := (req.place e.path).exact
      sampled := (req.place e.path).sampled
      off := req.off e.path
      fromM := ((req.window e.path).range e.cov hw).fromM
      toM := ((req.window e.path).range e.cov hw).toM } rfl rfl rfl
    refine ⟨⟨_, hholds⟩, ?_, fun hf => ⟨hov, ?_⟩⟩
    · rw [mergeLimit_append, mergeLimit_of_extraParts]
      · dsimp only
        rw [List.length_drop]
        omega
      · intro ev hev
        dsimp only at hev
        rw [hst', List.drop_left] at hev
        exact hextra ev (List.mem_of_mem_take hev)
    · have hdrop : st.out.drop s.1.out.length = T := by
        rw [hholds.out_of_not_overloaded hf, List.drop_left]
      rw [segmentKeys_append, ← hkeys, segmentKeys, segmentKeys, List.flatMap_singleton]
      dsimp only
      rw [hdrop]
  · rw [if_neg hgrow]
    have hsame : st.out.length = s.1.out.length := by
      rw [hst', List.length_append] at hgrow ⊢
      omega
    refine ⟨⟨_, hholds⟩, by dsimp only; rw [hsame], fun hf => ⟨hov, ?_⟩⟩
    have hnil : T = [] := by
      rw [hholds.out_of_not_overloaded hf, List.length_append] at hsame
      exact List.length_eq_zero_iff.1 (by omega)
    obtain ⟨hkeys, -⟩ := hseg {
      events := []
      exact := []
      sampled := []
      off := req.off e.path
      fromM := (req.window e.path).fromM
      toM := (req.window e.path).toM } rfl rfl rfl
    rw [← hkeys, hnil]
    exact (List.append_nil _).symm

/-! ### Agreement -/

/-- The entries of a usable index, for a request on which their files agree. -/
def EntriesAgree (caps : Captures) (req : PrefixRequest) (entries : List CovEntry) : Prop :=
  ∀ e ∈ entries, e.cov.valid = true →
    (e.cov.xmarks = marksOf ((e.blocks caps).flatMap (·.content.records)) ∧
      e.cov.monoFirst = indexFirst (e.blocks caps)) ∧ e.Agreeing caps req

theorem foldl_prefixEntry_holds {entries : List CovEntry} (he : EntriesAgree caps req entries)
    (h : st.Holds (some req.limit) taken) :
    (entries.foldl (prefixEntry req) st).Holds (some req.limit)
      (taken ++ entries.flatMap (·.prefixEvents caps req)) := by
  induction entries generalizing st taken with
  | nil => simpa using h
  | cons e entries ih =>
    obtain ⟨hone, hrest⟩ := List.forall_mem_cons.1 he
    rw [List.foldl_cons, List.flatMap_cons, ← List.append_assoc]
    exact ih hrest (prefixEntry_holds (fun hv => (hone hv).1) (fun hv => (hone hv).2) h)

theorem length_out_le {limit : ℕ} (h : st.Holds (some limit) taken) : st.out.length ≤ limit := by
  rw [h.out_eq, Option.elim_some, List.length_take]
  exact Nat.min_le_left _ _

theorem foldl_loadEntry_spec {entries : List CovEntry} (he : EntriesAgree caps req entries)
    {s : LoadState × List MergeSegment} (h : s.1.Holds (some req.limit) taken)
    (hlimit : mergeLimit s.2 = s.1.out.length) :
    mergeLimit (entries.foldl (loadEntry caps req) s).2 ≤ req.limit ∧
      ((entries.foldl (loadEntry caps req) s).1.overloaded = false →
        s.1.overloaded = false ∧ segmentKeys (entries.foldl (loadEntry caps req) s).2 =
          segmentKeys s.2 ++
            (entries.flatMap (·.prefixEvents caps req)).map TraceEvent.markKey) := by
  induction entries generalizing s taken with
  | nil => exact ⟨hlimit.trans_le (length_out_le h), fun hov => ⟨hov, (List.append_nil _).symm⟩⟩
  | cons e entries ih =>
    obtain ⟨hone, hrest⟩ := List.forall_mem_cons.1 he
    obtain ⟨⟨taken', h'⟩, hsum, hstep⟩ :=
      loadEntry_spec (fun hv => (hone hv).1.2) (fun hv => (hone hv).2) h
    obtain ⟨hle, hkeys⟩ := ih hrest h' (by omega)
    rw [List.foldl_cons]
    refine ⟨hle, fun hov => ?_⟩
    obtain ⟨hov', hkeys⟩ := hkeys hov
    obtain ⟨hf, hkeys'⟩ := hstep hov'
    refine ⟨hf, ?_⟩
    rw [hkeys, hkeys', List.flatMap_cons, List.map_append, List.append_assoc]

theorem map_markKey_restoreOrder (events : List TraceEvent) :
    (restoreOrder events).map TraceEvent.markKey =
      (events.map TraceEvent.markKey).insertionSort fun a b => a.1 ≤ b.1 :=
  List.map_insertionSort _ _ _ events fun _ _ _ _ => Iff.rfl

/-- **The index and the load of markers agree.** In a run of refreshes that lose no marker without
noticing it, and for a request on which the files agree, a usable index gives the same times, pids,
markers and queries as the load, in the same order, unless one of them is overloaded. -/
theorem execPrefix_agrees (caps : Captures) (ops : List MarkOp)
    (hrun : Run.Allowed (markStep caps) (MarkOp.Lossless caps) {} ops) (hatch : Bool)
    (husable : execPrefixIndexUsable hatch (ops.foldl (markStep caps) {}) = true)
    (req : PrefixRequest)
    (hfiles : ∀ e ∈ (ops.foldl (markStep caps) {}).cov, e.cov.valid = true → e.Agreeing caps req)
    (hindex : (serverLoadPrefixFromIndex req (ops.foldl (markStep caps) {})).overloaded = false)
    (hload : (serverLoadMarkers caps req (ops.foldl (markStep caps) {})).overloaded = false) :
    ∃ indexed loaded,
      (serverLoadPrefixFromIndex req (ops.foldl (markStep caps) {})).events = some indexed ∧
      (serverLoadMarkers caps req (ops.foldl (markStep caps) {})).events = some loaded ∧
      indexed.map TraceEvent.markKey = loaded.map TraceEvent.markKey := by
  have hkept := markRun_kept hrun husable
  generalize ops.foldl (markStep caps) {} = srv at *
  have he : EntriesAgree caps req srv.cov := fun e hmem hv => ⟨hkept e hmem hv, hfiles e hmem hv⟩
  have hempty : LoadState.Holds (some req.limit) [] {} := ⟨List.take_nil.symm, by simp⟩
  have hi := foldl_prefixEntry_holds he hempty
  obtain ⟨hle, hkeys⟩ := foldl_loadEntry_spec he (s := ({}, [])) hempty rfl
  rw [serverLoadPrefixFromIndex] at hindex ⊢
  rw [serverLoadMarkers] at hload ⊢
  dsimp only at hindex hload ⊢
  generalize srv.cov.foldl (loadEntry caps req) ({}, []) = s at *
  have hmax : mergeMaxEvents s.2 = some (mergeLimit s.2) := if_pos (hle.trans req.limit_le)
  rw [hmax] at hload ⊢
  dsimp only at hload ⊢
  cases hov : s.1.overloaded with
  | true =>
    rw [hov, if_pos rfl] at hload
    cases hload
  | false =>
    obtain ⟨-, hkeys⟩ := hkeys hov
    rw [hindex, if_neg Bool.false_ne_true, hi.out_of_not_overloaded hindex,
      if_neg Bool.false_ne_true, mergeSegments_eq hmax]
    refine ⟨_, _, rfl, rfl, ?_⟩
    rw [map_markKey_restoreOrder, map_markKey_restoreOrder]
    exact congrArg _ hkeys.symm

/-- The start of an execution. -/
def execStartAt (t : UInt64) : TraceEvent where
  timestampNs := t
  pid := 7
  oldEvent := markerExecStart
  newEvent := markerExecStart
  durationNs := 0
  queryId := 11
  cpuNs := 0
  flags := 0

/-- A block in which executions start. -/
def execBlock (times : List UInt64) (firstNs lastNs : UInt64) : ReaderBlock where
  indexTs := firstNs.toNat
  fileOffset := 64
  content := .decoded ⟨false, 0, firstNs.toNat, lastNs.toNat⟩ (times.map execStartAt)
  indexTs_le := toNat_le_clockMax firstNs
  indexed := by
    rintro info ⟨⟩
    rfl
  shape := by
    rintro info ⟨⟩ ev hev
    obtain ⟨t, -, rfl⟩ := List.mem_map.1 hev
    rfl

/-- `current.trace` with so many blocks committed, in a refresh in which nothing goes wrong. -/
def currentFile (committed : ℕ) : DirFile where
  path := "current.trace"
  start := 0
  clock := 0
  opens := true
  opensLate := true
  refresh := ⟨committed, fun _ => false, fun _ => false⟩
  faults := ⟨fun _ => false, fun _ _ => false, fun _ _ => false⟩
  late := ⟨fun _ => false, fun _ _ => false, fun _ _ => false⟩

/-- A view of executions is asked for, and the file grows from one block to two. -/
def growingRun : List MarkOp := [.retain, .refresh [currentFile 1], .refresh [currentFile 2]]

/-- The prefix from 10 to 30. -/
def prefixTenToThirty : PrefixRequest where
  earliestWallNs := 10
  toWallNs := 30
  pid := 0
  place := fun _ => ⟨0, [], [], false⟩
  lookaheadNs := 10
  maxBlocks := 64
  limit := 100
  positive := by decide
  ordered := by decide
  limit_le := by decide
  fits := fun _ => by decide

/-- With the blocks in the order of time both routes give what starts at 10 and at 20. -/
theorem execPrefix_agrees_growingRun :
    let caps : Captures := fun _ _ _ => [execBlock [10, 20] 10 20, execBlock [50] 50 50]
    let srv := growingRun.foldl (markStep caps) {}
    ((serverLoadMarkers caps prefixTenToThirty srv).events.map
        (·.map TraceEvent.timestampNs)) = some [10, 20] ∧
      ∃ indexed loaded,
        (serverLoadPrefixFromIndex prefixTenToThirty srv).events = some indexed ∧
        (serverLoadMarkers caps prefixTenToThirty srv).events = some loaded ∧
        indexed.map TraceEvent.markKey = loaded.map TraceEvent.markKey := by
  intro caps srv
  refine ⟨by decide +kernel, ?_⟩
  have hlossless : ∀ s n, (currentFile n).Lossless caps s := fun s n =>
    ⟨fun _ _ _ _ hmiss => absurd hmiss Bool.false_ne_true, fun _ _ _ _ => rfl⟩
  have hlate : ∀ n, ∀ f ∈ [currentFile n], ∀ b i, f.late.escFails b i = false := by
    intro n f hf b i
    rw [List.mem_singleton.1 hf]
    rfl
  refine execPrefix_agrees caps growingRun ?_ false (by decide +kernel) prefixTenToThirty ?_
    (by decide +kernel) (by decide +kernel)
  · exact ⟨trivial, ⟨⟨hlossless _ 1, trivial⟩, fun _ => hlate 1⟩,
      ⟨⟨hlossless _ 2, trivial⟩, fun _ => hlate 2⟩, trivial⟩
  · intro e he _
    have hscanned : ∀ e ∈ srv.cov, e.cov.blocksScanned = 2 := by decide +kernel
    have hblocks : e.blocks caps = [execBlock [10, 20] 10 20, execBlock [50] 50 50] := by
      rw [CovEntry.blocks, hscanned e he]
      rfl
    have hwindow : prefixTenToThirty.window e.path = prefixTenToThirty.window "" := rfl
    refine ⟨?_, ?_, ?_, ?_, ?_, ?_, by rintro ⟨⟩⟩
    all_goals rw [hblocks, hwindow]
    all_goals decide +kernel

/-- With a block that closed at 20 behind one that closed at 50, the index stops before it. -/
theorem execPrefix_shortIndex :
    let srv := growingRun.foldl
      (markStep fun _ _ _ => [execBlock [10, 50] 10 50, execBlock [20] 20 20]) {}
    execPrefixIndexUsable false srv = true ∧
      (serverLoadPrefixFromIndex prefixTenToThirty srv).overloaded = false ∧
      (serverLoadMarkers (fun _ _ _ => [execBlock [10, 50] 10 50, execBlock [20] 20 20])
        prefixTenToThirty srv).overloaded = false ∧
      ((serverLoadPrefixFromIndex prefixTenToThirty srv).events.map
        (·.map TraceEvent.timestampNs)) = some [10] ∧
      ((serverLoadMarkers (fun _ _ _ => [execBlock [10, 50] 10 50, execBlock [20] 20 20])
        prefixTenToThirty srv).events.map (·.map TraceEvent.timestampNs)) = some [10, 20] := by
  decide +kernel

end PgWaitTracer
