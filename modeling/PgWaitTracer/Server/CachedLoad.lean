import PgWaitTracer.Server.LoadRange

/-!
# Loading a range from the decoded file

A rotated file no longer changes, and `get_cached_immutable` (`src/server.c`) keeps its decoded
records, in the order of the file and with the samples in interval shape. The cached branch of
`server_load_events_fi_mode` admits records from that array with a loop of its own.

The loop stops at the first record past the end of the scan, as if the records were in the order of
time. They are not, and everything behind that record is lost. It also applies the marker filter to
the interval shape, in which a sample shows the event that it saw.

## Main results

* `loadCached_holds` : what the loop takes, as a function of the records before the stop.
* `loadCached_eq_loadFileRange_iff` : when the cache and the reader load the same records.
-/

namespace PgWaitTracer

/-! ### The cached branch -/

/-- `get_cached_immutable`: the records of the blocks that decode, samples in interval shape. -/
def getCachedImmutable (blocks : List ReaderBlock) : List TraceEvent :=
  blocks.flatMap fun b =>
    match b.content with
    | .decoded info records => records.map (·.asInterval info.samplePeriodNs)
    | _ => []

/-- One record of the cached branch that is not past the end of the scan. -/
def LoadRange.admitCached (rg : LoadRange) (ev : TraceEvent) : Admission :=
  if ev.isSample && rg.sampleTo < ev.ts then .skip
  else if !ev.isSample && rg.toM < ev.ts then rg.admitLate ev
  else if rg.filters ev then .take false
  else .skip

/-- A record of the cache as it enters the working array. -/
def LoadRange.loadedCached (rg : LoadRange) (rightOpen : Bool) (ev : TraceEvent) : TraceEvent :=
  { ev with flags := ev.flags ||| rg.edgeFlags rightOpen ev }

/-- The cached branch of `server_load_events_fi_mode`. The first record past the end of the scan
ends the loop. -/
def loadCached (limit : Option ℕ) (rg : LoadRange) (st : LoadState) : List TraceEvent → LoadState
  | [] => st
  | ev :: events =>
    if ev.ts < rg.fromM then loadCached limit rg st events
    else if rg.scanTo < ev.ts then { st with truncated := st.truncated || rg.straddle.enabled }
    else
      match rg.admitCached ev with
      | .skip => loadCached limit rg st events
      | .cut => loadCached limit rg { st with truncated := true } events
      | .take rightOpen =>
        if limit.any (· ≤ st.out.length) then { st with overloaded := true }
        else loadCached limit rg { st with out := st.out ++ [rg.loadedCached rightOpen ev] } events

/-! ### What the cached branch takes -/

/-- The record ends the loop of the cached branch. -/
def LoadRange.past (rg : LoadRange) (ev : TraceEvent) : Bool :=
  rg.fromM ≤ ev.ts && rg.scanTo < ev.ts

/-- The record of the cache as the loop takes it, if it gets there and does. -/
def LoadRange.takeCached (rg : LoadRange) (ev : TraceEvent) : Option TraceEvent :=
  if ev.ts < rg.fromM then none
  else
    match rg.admitCached ev with
    | .take rightOpen => some (rg.loadedCached rightOpen ev)
    | _ => none

/-- The loop takes what is admitted before the first record past the end of the scan. -/
theorem loadCached_holds {limit : Option ℕ} (rg : LoadRange) (events : List TraceEvent)
    {taken : List TraceEvent} {st : LoadState} (h : st.Holds limit taken)
    (hst : st.overloaded = false) :
    (loadCached limit rg st events).Holds limit
      (taken ++ (events.takeWhile (!rg.past ·)).filterMap rg.takeCached) := by
  induction events generalizing st taken with
  | nil => simpa [loadCached] using h
  | cons ev events ih =>
    rw [loadCached]
    by_cases hfrom : ev.ts < rg.fromM
    · rw [if_pos hfrom]
      have hpast : rg.past ev = false := by
        simp [LoadRange.past, hfrom]
      have hnone : rg.takeCached ev = none := by
        rw [LoadRange.takeCached, if_pos hfrom]
      simpa [List.takeWhile_cons, hpast, hnone] using ih h hst
    rw [if_neg hfrom]
    by_cases hscan : rg.scanTo < ev.ts
    · rw [if_pos hscan]
      have hpast : rg.past ev = true := by
        simp [LoadRange.past, hscan, Nat.not_lt.1 hfrom]
      have hstop : LoadState.Holds limit taken
          { st with truncated := st.truncated || rg.straddle.enabled } := h.of_eq rfl rfl
      simpa [List.takeWhile_cons, hpast] using hstop
    rw [if_neg hscan]
    have hpast : rg.past ev = false := by
      simp [LoadRange.past, hscan]
    have htake : rg.takeCached ev = match rg.admitCached ev with
        | .take rightOpen => some (rg.loadedCached rightOpen ev)
        | _ => none := by
      rw [LoadRange.takeCached, if_neg hfrom]
    cases hadmit : rg.admitCached ev with
    | skip => simpa [List.takeWhile_cons, hpast, htake, hadmit] using ih h hst
    | cut =>
      have hcut : LoadState.Holds limit taken { st with truncated := true } := h.of_eq rfl rfl
      simpa [List.takeWhile_cons, hpast, htake, hadmit] using ih hcut hst
    | take b =>
      have hpush := h.push hst (rg.loadedCached b ev)
      have hlist : taken ++ ((ev :: events).takeWhile (!rg.past ·)).filterMap rg.takeCached =
          taken ++ [rg.loadedCached b ev] ++
            (events.takeWhile (!rg.past ·)).filterMap rg.takeCached := by
        simp [hpast, htake, hadmit]
      rw [hlist]
      dsimp only
      split_ifs at hpush ⊢ with hfull
      · exact hpush.append rfl _
      · exact ih hpush hst

/-! ### Interval shape -/

theorem isSample_of_decodedAs {isSample : Bool} {ev : TraceEvent} (h : DecodedAs isSample ev) :
    ev.isSample = isSample := by
  cases isSample with
  | false =>
    have hflags : ev.flags = 0 := by simpa [DecodedAs] using h
    rw [TraceEvent.isSample, hflags]
    decide
  | true =>
    have hflags : ev.flags = flagSample := by
      rw [DecodedAs, if_pos rfl] at h
      exact h.1
    rw [TraceEvent.isSample, hflags]
    decide

theorem asInterval_of_not_isSample {ev : TraceEvent} (period : UInt64) (h : ev.isSample = false) :
    ev.asInterval period = ev := by
  simp [TraceEvent.asInterval, h]

theorem flags_asInterval (ev : TraceEvent) (period : UInt64) :
    (ev.asInterval period).flags = ev.flags := by
  rw [TraceEvent.asInterval]
  split_ifs <;> rfl

theorem ts_asInterval (ev : TraceEvent) (period : UInt64) : (ev.asInterval period).ts = ev.ts := by
  rw [TraceEvent.asInterval]
  split_ifs <;> rfl

theorem pid_asInterval (ev : TraceEvent) (period : UInt64) :
    (ev.asInterval period).pid = ev.pid := by
  rw [TraceEvent.asInterval]
  split_ifs <;> rfl

theorem isSample_asInterval (ev : TraceEvent) (period : UInt64) :
    (ev.asInterval period).isSample = ev.isSample := by
  rw [TraceEvent.isSample, TraceEvent.isSample, flags_asInterval]

theorem loadedCached_asInterval (rg : LoadRange) (period : UInt64) (b : Bool) (ev : TraceEvent) :
    rg.loadedCached b (ev.asInterval period) = rg.loaded period b ev := by
  have hedge : rg.closesOnEdge (ev.asInterval period) = rg.closesOnEdge ev := by
    cases h : ev.isSample with
    | false => rw [asInterval_of_not_isSample period h]
    | true => simp [LoadRange.closesOnEdge, isSample_asInterval, h]
  rw [LoadRange.loadedCached, LoadRange.loaded, LoadRange.edgeFlags, LoadRange.edgeFlags, hedge]

theorem getCachedImmutable_eq (blocks : List ReaderBlock) :
    getCachedImmutable blocks =
      (fileRecords blocks).map fun r => r.2.asInterval r.1.samplePeriodNs := by
  rw [getCachedImmutable, fileRecords, List.map_flatMap]
  congr 1
  funext b
  cases hc : b.content <;> simp [BlockContent.header, BlockContent.records]

variable {r : BlockMeta × TraceEvent} {rg : LoadRange}

theorem decodedAs_of_mem_fileRecords {blocks : List ReaderBlock} (h : r ∈ fileRecords blocks) :
    DecodedAs r.1.isSample r.2 := by
  obtain ⟨b, -, hinfo, hev⟩ := mem_fileRecords.1 h
  exact b.shape r.1 hinfo r.2 hev

/-! ### Agreement -/

/-- The records that a window asks for: those that close in it, those that were running at its right
edge as far as the lookahead goes, and the samples up to their own edge. -/
def LoadRange.Wanted (rg : LoadRange) (r : BlockMeta × TraceEvent) : Prop :=
  rg.fromM ≤ r.2.ts ∧ rg.filters r.2 = true ∧
    (r.2.ts ≤ (if r.1.isSample then rg.sampleTo else rg.toM) ∨
      r.1.isSample = false ∧ rg.Straddles r.2)

/-- A sample in the window whose event has the code of a marker. -/
def LoadRange.MarkerSample (rg : LoadRange) (r : BlockMeta × TraceEvent) : Prop :=
  r.1.isSample = true ∧ rg.fromM ≤ r.2.ts ∧ r.2.ts ≤ rg.sampleTo ∧
    (rg.pid = 0 ∨ r.2.pid = rg.pid) ∧ isMarker r.2.newEvent = true

/-- Nothing that is wanted lies behind the first record past the end of the scan, and a load of
markers meets no sample that looks like one before it. -/
structure LoadRange.CacheServes (rg : LoadRange) (blocks : List ReaderBlock) : Prop where
  behind : ∀ r ∈ (fileRecords blocks).dropWhile (fun r => !rg.past r.2), ¬rg.Wanted r
  markers : rg.markersOnly = true →
    ∀ r ∈ (fileRecords blocks).takeWhile (fun r => !rg.past r.2), ¬rg.MarkerSample r

theorem take_eq_none_iff : rg.take r = none ↔ ¬rg.Wanted r := by
  rw [← Option.not_isSome_iff_eq_none, Option.isSome_iff_exists, not_iff_not]
  constructor
  · rintro ⟨out, hout⟩
    obtain ⟨b, hadmit, -⟩ := take_eq_some.1 hout
    obtain ⟨hfrom, hfilters, ⟨-, hle⟩ | ⟨-, hs⟩⟩ := admission_eq_take.1 hadmit
    · exact ⟨hfrom, hfilters, .inl hle⟩
    · exact ⟨hfrom, hfilters, .inr hs⟩
  · rintro ⟨hfrom, hfilters, hle | hs⟩
    · exact ⟨_, take_eq_some.2 ⟨false, admission_eq_take.2 ⟨hfrom, hfilters, .inl ⟨rfl, hle⟩⟩, rfl⟩⟩
    · exact ⟨_, take_eq_some.2 ⟨true, admission_eq_take.2 ⟨hfrom, hfilters, .inr ⟨rfl, hs⟩⟩, rfl⟩⟩

theorem takeCached_transition (hshape : DecodedAs r.1.isSample r.2) (h : r.1.isSample = false) :
    rg.takeCached (r.2.asInterval r.1.samplePeriodNs) = rg.take r := by
  have hs : r.2.isSample = false := (isSample_of_decodedAs hshape).trans h
  have hadmit : ∀ ev : TraceEvent, ev.isSample = false → ¬ev.ts < rg.fromM →
      rg.admitCached ev = rg.admission false ev := by
    intro ev hev hfrom
    simp [LoadRange.admitCached, LoadRange.admission, hev, hfrom]
  rw [LoadRange.takeCached, LoadRange.take, ts_asInterval, h]
  by_cases hfrom : r.2.ts < rg.fromM
  · rw [if_pos hfrom, LoadRange.admission, if_pos hfrom]
  · rw [if_neg hfrom, hadmit _ ((isSample_asInterval _ _).trans hs) (by rwa [ts_asInterval])]
    simp only [loadedCached_asInterval]
    have hsame := asInterval_of_not_isSample r.1.samplePeriodNs hs
    generalize r.2.asInterval r.1.samplePeriodNs = ev at hsame ⊢
    subst hsame
    rfl

/-- A sample is taken alike where the marker filter lets it pass in both shapes. -/
theorem takeCached_sample (hshape : DecodedAs r.1.isSample r.2) (h : r.1.isSample = true)
    (hno : rg.markersOnly = true → ¬rg.MarkerSample r) :
    rg.takeCached (r.2.asInterval r.1.samplePeriodNs) = rg.take r := by
  have hs : r.2.isSample = true := (isSample_of_decodedAs hshape).trans h
  have hold : r.2.oldEvent = 0 := by
    rw [h, DecodedAs, if_pos rfl] at hshape
    exact hshape.2.1
  have hmark : isMarker r.2.oldEvent = false := by
    rw [hold]
    decide
  have hnew : (r.2.asInterval r.1.samplePeriodNs).oldEvent = r.2.newEvent := by
    simp [TraceEvent.asInterval, hs]
  rw [LoadRange.takeCached, LoadRange.take, ts_asInterval, h, LoadRange.admission,
    LoadRange.admitCached, isSample_asInterval, hs, ts_asInterval]
  by_cases hfrom : r.2.ts < rg.fromM
  · rw [if_pos hfrom, if_pos hfrom]
  by_cases hlate : rg.sampleTo < r.2.ts
  · simp [hfrom, hlate]
  have hfilters : rg.filters (r.2.asInterval r.1.samplePeriodNs) = rg.filters r.2 := by
    rw [LoadRange.filters, LoadRange.filters, pid_asInterval, hnew, hmark]
    cases hmo : rg.markersOnly with
    | false => simp
    | true =>
      have hnm := hno hmo
      simp only [LoadRange.MarkerSample, h, Nat.not_lt.1 hfrom, Nat.not_lt.1 hlate, true_and,
        not_and, Bool.not_eq_true] at hnm
      by_cases hpid : rg.pid = 0 ∨ r.2.pid = rg.pid
      · simp [hnm hpid]
      · push Not at hpid
        simp [hpid.1, hpid.2]
  simp only [if_neg hfrom, hlate, decide_false, Bool.and_false, Bool.false_eq_true, if_false,
    Bool.not_true, Bool.false_and, hfilters, if_true]
  cases rg.filters r.2 <;> simp [loadedCached_asInterval]

theorem takeCached_eq_take (hshape : DecodedAs r.1.isSample r.2)
    (hno : rg.markersOnly = true → ¬rg.MarkerSample r) :
    rg.takeCached (r.2.asInterval r.1.samplePeriodNs) = rg.take r := by
  cases h : r.1.isSample with
  | false => exact takeCached_transition hshape h
  | true => exact takeCached_sample hshape h hno

theorem takeCached_markerSample (hshape : DecodedAs r.1.isSample r.2)
    (hmarker : rg.MarkerSample r) :
    rg.takeCached (r.2.asInterval r.1.samplePeriodNs) =
      some (rg.loaded r.1.samplePeriodNs false r.2) := by
  obtain ⟨h, hfrom, hle, hpid, hnew⟩ := hmarker
  have hs : r.2.isSample = true := (isSample_of_decodedAs hshape).trans h
  have hold : (r.2.asInterval r.1.samplePeriodNs).oldEvent = r.2.newEvent := by
    simp [TraceEvent.asInterval, hs]
  have hfilters : rg.filters (r.2.asInterval r.1.samplePeriodNs) = true := by
    rw [LoadRange.filters, pid_asInterval, hold, hnew]
    rcases hpid with hpid | hpid <;> simp [hpid]
  rw [LoadRange.takeCached, LoadRange.admitCached, ts_asInterval, isSample_asInterval, hs]
  simp [Nat.not_lt.2 hfrom, Nat.not_lt.2 hle, hfilters, loadedCached_asInterval]

theorem isSample_loaded (rg : LoadRange) (period : UInt64) (b : Bool) (ev : TraceEvent) :
    (rg.loaded period b ev).isSample = ev.isSample := by
  have hmask : ∀ f : UInt32, ∀ b c : Bool,
      (f ||| ((if b then flagRightOpen else 0) ||| (if c then flagEdgeClose else 0))) &&&
        flagSample = f &&& flagSample := by
    intro f b c
    have hzero : ((if b then flagRightOpen else 0) ||| (if c then flagEdgeClose else 0)) &&&
        flagSample = 0 := by
      cases b <;> cases c <;> rfl
    rw [UInt32.or_and_distrib, hzero, UInt32.or_zero]
  rw [TraceEvent.isSample, TraceEvent.isSample, LoadRange.loaded, LoadRange.edgeFlags]
  simp only [flags_asInterval, hmask]

theorem isSample_of_take_markersOnly {out : TraceEvent} (hshape : DecodedAs r.1.isSample r.2)
    (hmo : rg.markersOnly = true) (h : rg.take r = some out) : out.isSample = false := by
  obtain ⟨b, hadmit, rfl⟩ := take_eq_some.1 h
  rw [isSample_loaded, isSample_of_decodedAs hshape]
  cases hs : r.1.isSample with
  | false => rfl
  | true =>
    obtain ⟨-, hfilters, -⟩ := admission_eq_take.1 hadmit
    rw [hs, DecodedAs, if_pos rfl] at hshape
    rw [LoadRange.filters, hmo, hshape.2.1, show isMarker 0 = false by decide] at hfilters
    simp at hfilters

theorem takeWhile_getCachedImmutable (rg : LoadRange) (blocks : List ReaderBlock) :
    ((getCachedImmutable blocks).takeWhile (!rg.past ·)).filterMap rg.takeCached =
      ((fileRecords blocks).takeWhile (fun r => !rg.past r.2)).filterMap
        (fun r => rg.takeCached (r.2.asInterval r.1.samplePeriodNs)) := by
  have hpast : (fun ev => !rg.past ev) ∘
      (fun r : BlockMeta × TraceEvent => r.2.asInterval r.1.samplePeriodNs) =
      fun r => !rg.past r.2 := by
    funext r
    rw [Function.comp_apply, LoadRange.past, LoadRange.past, ts_asInterval]
  rw [getCachedImmutable_eq, List.takeWhile_map, hpast, List.filterMap_map]
  rfl

theorem records_eq_iff (rg : LoadRange) (blocks : List ReaderBlock) :
    ((getCachedImmutable blocks).takeWhile (!rg.past ·)).filterMap rg.takeCached =
      (fileRecords blocks).filterMap rg.take ↔ rg.CacheServes blocks := by
  have hmem : ∀ r ∈ (fileRecords blocks).takeWhile (fun r => !rg.past r.2),
      DecodedAs r.1.isSample r.2 := fun r hr =>
    decodedAs_of_mem_fileRecords ((List.takeWhile_sublist _).subset hr)
  have hsame : (rg.markersOnly = true →
        ∀ r ∈ (fileRecords blocks).takeWhile (fun r => !rg.past r.2), ¬rg.MarkerSample r) →
      ((fileRecords blocks).takeWhile (fun r => !rg.past r.2)).filterMap
          (fun r => rg.takeCached (r.2.asInterval r.1.samplePeriodNs)) =
        ((fileRecords blocks).takeWhile (fun r => !rg.past r.2)).filterMap rg.take := fun hno =>
    List.filterMap_congr fun r hr => takeCached_eq_take (hmem r hr) fun hmo => hno hmo r hr
  have hsplit : (fileRecords blocks).filterMap rg.take =
      ((fileRecords blocks).takeWhile (fun r => !rg.past r.2)).filterMap rg.take ++
        ((fileRecords blocks).dropWhile (fun r => !rg.past r.2)).filterMap rg.take := by
    rw [← List.filterMap_append, List.takeWhile_append_dropWhile]
  rw [takeWhile_getCachedImmutable]
  constructor
  · intro heq
    have hno : rg.markersOnly = true →
        ∀ r ∈ (fileRecords blocks).takeWhile (fun r => !rg.past r.2), ¬rg.MarkerSample r := by
      intro hmo r hr hmarker
      have hout : rg.loaded r.1.samplePeriodNs false r.2 ∈ (fileRecords blocks).filterMap rg.take := by
        rw [← heq]
        exact List.mem_filterMap.2 ⟨r, hr, takeCached_markerSample (hmem r hr) hmarker⟩
      obtain ⟨r', hr', htake⟩ := List.mem_filterMap.1 hout
      have hfalse := isSample_of_take_markersOnly (decodedAs_of_mem_fileRecords hr') hmo htake
      rw [isSample_loaded, isSample_of_decodedAs (hmem r hr), hmarker.1] at hfalse
      exact Bool.false_ne_true hfalse.symm
    refine ⟨fun r hr => ?_, hno⟩
    rw [hsame hno, hsplit, List.self_eq_append_right, List.filterMap_eq_nil_iff] at heq
    exact take_eq_none_iff.1 (heq r hr)
  · rintro ⟨hbehind, hno⟩
    have hnil : ((fileRecords blocks).dropWhile (fun r => !rg.past r.2)).filterMap rg.take = [] :=
      List.filterMap_eq_nil_iff.2 fun r hr => take_eq_none_iff.2 (hbehind r hr)
    rw [hsame hno, hsplit, hnil, List.append_nil]

/-- **The cache and the reader load the same records exactly when the cache serves the window.** The
headers bound their records and the straddler budget lasts; the records may be in any order. -/
theorem loadCached_eq_loadFileRange_iff {rg : LoadRange} {blocks : List ReaderBlock}
    (hb : ∀ b ∈ blocks, b.content.Bounded) (hbudget : rg.BudgetLasts 0 blocks) :
    (∀ limit, (loadCached limit rg {} (getCachedImmutable blocks)).out =
      (loadFileRange limit rg {} blocks).out) ↔ rg.CacheServes blocks := by
  have hempty : ∀ limit, LoadState.Holds limit [] {} := fun limit => by
    cases limit <;> exact ⟨by simp, by simp⟩
  have hcached := fun limit => (loadCached_holds rg (getCachedImmutable blocks) (hempty limit) rfl)
  have hread := fun limit => loadFileRange_holds hb (hempty limit) hbudget
  simp only [List.nil_append] at hcached hread
  rw [← records_eq_iff]
  constructor
  · intro heq
    exact (hcached none).out_eq.symm.trans ((heq none).trans (hread none).out_eq)
  · intro heq limit
    rw [(hcached limit).out_eq, (hread limit).out_eq, heq]

/-- In a block whose records closed at 90 and then at 20, the cache loses the one in the window. -/
theorem loadCached_loses_record :
    (∀ b ∈ [transitionsClosing [90, 20] 20 90], b.content.Bounded) ∧
      windowTenToThirty.BudgetLasts 0 [transitionsClosing [90, 20] 20 90] ∧
      (loadCached none windowTenToThirty {}
        (getCachedImmutable [transitionsClosing [90, 20] 20 90])).out = [] ∧
      ((loadFileRange none windowTenToThirty {}
        [transitionsClosing [90, 20] 20 90]).out.map (·.ts)) = [20] := by
  refine ⟨?_, .inr (.inr (by decide)), by decide, by decide⟩
  simp only [List.mem_singleton, forall_eq]
  rintro info ⟨⟩ ev hev
  obtain ⟨t, ht, rfl⟩ := List.mem_map.1 hev
  simp only [List.mem_cons, List.not_mem_nil, or_false] at ht
  rcases ht with rfl | rfl <;> decide

/-- In the order of time the cache serves the window. -/
theorem loadCached_eq_loadFileRange_in_order :
    (loadFileRange none windowTenToThirty {} [transitionsClosing [20, 90] 20 90]).out.map (·.ts) =
        [20] ∧
      ∀ limit, (loadCached limit windowTenToThirty {}
          (getCachedImmutable [transitionsClosing [20, 90] 20 90])).out =
        (loadFileRange limit windowTenToThirty {} [transitionsClosing [20, 90] 20 90]).out := by
  refine ⟨by decide, ?_⟩
  refine (loadCached_eq_loadFileRange_iff ?_ (.inr (.inr (by decide)))).2 ⟨?_, nofun⟩
  · simp only [List.mem_singleton, forall_eq]
    rintro info ⟨⟩ ev hev
    obtain ⟨t, ht, rfl⟩ := List.mem_map.1 hev
    simp only [List.mem_cons, List.not_mem_nil, or_false] at ht
    rcases ht with rfl | rfl <;> decide
  · intro r hr
    rw [← take_eq_none_iff]
    revert r
    decide

end PgWaitTracer
