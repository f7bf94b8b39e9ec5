import PgWaitTracer.Compute.RankedViews

/-!
# Adjacent windows

A window that is cut in two gives the same numbers as its parts together: time is shared between the
parts by overlap, and an occurrence belongs to the part it closes in, a close on the cut to the
second part. Top events have no result at all if more events are listed than their table has slots.

## Main results

* `partitionsAt_iff`: they add up exactly when not more events are listed than the table
  of top events has slots.
-/

namespace PgWaitTracer

/-! ### Shares of a record -/

/-- An exact record, not marked as open on the right or as closing on an edge, that starts at 0 or
later. -/
structure TraceEvent.ExactClose (ev : TraceEvent) : Prop where
  exact : ev.flags &&& flagSample = 0
  whole : ev.flags &&& flagSampleCont = 0
  closed : ev.flags &&& flagRightOpen = 0
  inside : ev.flags &&& flagEdgeClose = 0
  possible : ev.dur ≤ ev.ts

variable {fromNs midNs toNs : ℕ}

/-- **Time is shared.** -/
theorem eventWindowNs_add (ev : TraceEvent) (hfrom : 0 < fromNs) (hmid : fromNs ≤ midNs)
    (hto : midNs ≤ toNs) :
    eventWindowNs ev fromNs midNs + eventWindowNs ev midNs toNs =
      eventWindowNs ev fromNs toNs := by
  have h₁ : fromNs ≠ 0 := by omega
  have h₂ : midNs ≠ 0 := by omega
  have h₃ : toNs ≠ 0 := by omega
  simp only [eventWindowNs, ne_eq, h₁, h₂, h₃, not_false_eq_true, true_and]
  split_ifs <;> omega

theorem eventOccurrenceInWindow_eq {ev : TraceEvent} (h : ev.ExactClose) (hfrom : 0 < fromNs)
    (hto : 0 < toNs) :
    eventOccurrenceInWindow ev fromNs toNs = (decide (fromNs ≤ ev.ts) && decide (ev.ts < toNs)) := by
  have hsample : ev.isSample = false := by simp [TraceEvent.isSample, h.exact]
  have hopen : eventRightOpen ev toNs = decide (toNs < ev.ts) := by
    simp [eventRightOpen, h.closed, hto.ne']
  rw [eventOccurrenceInWindow, hopen, hsample]
  by_cases hearly : ev.ts < fromNs
  · rw [if_pos ⟨hfrom.ne', hearly⟩, decide_eq_false (by omega), Bool.false_and]
  · rw [if_neg fun h => hearly h.2, decide_eq_true (Nat.not_lt.1 hearly), Bool.true_and]
    by_cases hlate : toNs < ev.ts
    · simp [hlate, Nat.lt_asymm hlate]
    · simp [hlate, hto.ne']

/-- **An occurrence is in one part.** -/
theorem occurrence_add {ev : TraceEvent} (h : ev.ExactClose) (hfrom : 0 < fromNs)
    (hmid : fromNs ≤ midNs) (hto : midNs ≤ toNs) (n : ℕ) :
    (if eventOccurrenceInWindow ev fromNs midNs then n else 0) +
        (if eventOccurrenceInWindow ev midNs toNs then n else 0) =
      if eventOccurrenceInWindow ev fromNs toNs then n else 0 := by
  rw [eventOccurrenceInWindow_eq h hfrom (by omega), eventOccurrenceInWindow_eq h (by omega)
    (by omega), eventOccurrenceInWindow_eq h hfrom (by omega)]
  simp only [Bool.and_eq_true, decide_eq_true_eq]
  split_ifs <;> omega

/-! ### Quantities of top events -/

/-- A quantity of the row of an event. -/
def TopEventsResult.of (r : TopEventsResult) (q : TopEventAccum → ℕ) (id : UInt32) : ℕ :=
  (r.rows.find? fun row => row.eventId = id).elim 0 q

theorem topEvents_of_add {f : Filter} {evs : List TraceEvent} {r₁ r₂ r : TopEventsResult}
    (h₁ : Tally.Tallied TopEventAccum.eventId .new TraceEvent.oldEvent
      (TopEventAccum.addRecord fromNs midNs) r₁.rows (topEventsTaken f evs))
    (h₂ : Tally.Tallied TopEventAccum.eventId .new TraceEvent.oldEvent
      (TopEventAccum.addRecord midNs toNs) r₂.rows (topEventsTaken f evs))
    (h : Tally.Tallied TopEventAccum.eventId .new TraceEvent.oldEvent
      (TopEventAccum.addRecord fromNs toNs) r.rows (topEventsTaken f evs))
    (q : TopEventAccum → ℕ) (w : ℕ → ℕ → TraceEvent → ℕ) (id : UInt32) (hzero : q (.new id) = 0)
    (hstep : ∀ a b row, ∀ ev ∈ evs, q (TopEventAccum.addRecord a b row ev) = q row + w a b ev)
    (hadd : ∀ ev ∈ evs, ev.oldEvent = id → w fromNs midNs ev + w midNs toNs ev = w fromNs toNs ev) :
    r₁.of q id + r₂.of q id = r.of q id := by
  have hmem : ∀ ev ∈ topEventsTaken f evs, ev ∈ evs := fun ev hev => (List.mem_filter.1 hev).1
  rw [TopEventsResult.of, TopEventsResult.of, TopEventsResult.of, h₁.find? (keyed_topEvents _ _),
    h₂.find? (keyed_topEvents _ _), h.find? (keyed_topEvents _ _),
    Tally.sum_rowOf q _ hzero fun row ev hev => hstep _ _ row ev (hmem ev hev),
    Tally.sum_rowOf q _ hzero fun row ev hev => hstep _ _ row ev (hmem ev hev),
    Tally.sum_rowOf q _ hzero fun row ev hev => hstep _ _ row ev (hmem ev hev),
    ← List.sum_map_add]
  refine congrArg List.sum (List.map_congr_left fun ev hev => ?_)
  obtain ⟨htaken, hid⟩ := List.mem_filter.1 hev
  exact hadd ev (hmem ev htaken) (by simpa using hid)

/-! ### Shares in a row -/

variable {ev : TraceEvent}

theorem observe_exact (h : ev.ExactClose) (r : TopEventAccum) :
    r.observe ev =
      { r with
        count := r.count + 1
        exactCount := r.exactCount + 1
        exactTotalNs := r.exactTotalNs + ev.dur
        maxNs := max r.maxNs ev.dur
        hist := fun b => if b = durationToBucket ev.durationNs then r.hist b + 1 else r.hist b } := by
  have hsample : ev.isSample = false := by simp [TraceEvent.isSample, h.exact]
  rw [TopEventAccum.observe, hsample, if_pos (Or.inl h.whole)]
  rfl

theorem addRecord_count (h : ev.ExactClose) (fromNs toNs : ℕ) (r : TopEventAccum) :
    (r.addRecord fromNs toNs ev).count =
      r.count + if eventOccurrenceInWindow ev fromNs toNs then 1 else 0 := by
  rw [TopEventAccum.addRecord, observe_exact h]
  split_ifs <;> rfl

theorem addRecord_exactCount (h : ev.ExactClose) (fromNs toNs : ℕ) (r : TopEventAccum) :
    (r.addRecord fromNs toNs ev).exactCount =
      r.exactCount + if eventOccurrenceInWindow ev fromNs toNs then 1 else 0 := by
  rw [TopEventAccum.addRecord, observe_exact h]
  split_ifs <;> rfl

theorem addRecord_hist (h : ev.ExactClose) (fromNs toNs : ℕ) (r : TopEventAccum)
    (b : Fin histogramBuckets) :
    (r.addRecord fromNs toNs ev).hist b = r.hist b + if eventOccurrenceInWindow ev fromNs toNs then
      (if b = durationToBucket ev.durationNs then 1 else 0) else 0 := by
  rw [TopEventAccum.addRecord, observe_exact h]
  by_cases hb : b = durationToBucket ev.durationNs
  · rw [if_pos hb]
    split_ifs
    · exact if_pos hb
    · rfl
  · rw [if_neg hb]
    split_ifs
    · exact if_neg hb
    · rfl

theorem eventCpu_wait (h : waitClassIndex ev.oldEvent ≠ .cpu) (clip : ℕ) :
    (eventCpu ev clip).rowNs = clip := by
  rw [eventCpu, if_neg h]

/-! ### The partition -/

/-- The windows before and behind a cut add up to the whole window, for one list of records. -/
structure PartitionsAt (mask : UInt32) (f : Filter) (fromNs midNs toNs : ℕ)
    (evs : List TraceEvent) : Prop where
  dbTime : (computeTimeModel mask f fromNs midNs evs).dbTimeNs +
    (computeTimeModel mask f midNs toNs evs).dbTimeNs =
      (computeTimeModel mask f fromNs toNs evs).dbTimeNs
  idle : (computeTimeModel mask f fromNs midNs evs).idleNs +
    (computeTimeModel mask f midNs toNs evs).idleNs =
      (computeTimeModel mask f fromNs toNs evs).idleNs
  events : ∃ r₁ r₂ r, topEvents mask f fromNs midNs evs = some r₁ ∧
    topEvents mask f midNs toNs evs = some r₂ ∧ topEvents mask f fromNs toNs evs = some r ∧
    ∀ id, (waitClassIndex id ≠ .cpu → r₁.of (·.totalNs) id + r₂.of (·.totalNs) id =
        r.of (·.totalNs) id) ∧
      r₁.of (·.count) id + r₂.of (·.count) id = r.of (·.count) id ∧
      r₁.of (·.exactCount) id + r₂.of (·.exactCount) id = r.of (·.exactCount) id ∧
      ∀ b, r₁.of (·.hist b) id + r₂.of (·.hist b) id = r.of (·.hist b) id
  unattributedNs : (topQueries mask f fromNs midNs evs).unattributedNs +
    (topQueries mask f midNs toNs evs).unattributedNs =
      (topQueries mask f fromNs toNs evs).unattributedNs
  unattributedCount : (topQueries mask f fromNs midNs evs).unattributedCount +
    (topQueries mask f midNs toNs evs).unattributedCount =
      (topQueries mask f fromNs toNs evs).unattributedCount

/-- **When adjacent windows add up.** For exact records with a close of their own, the windows before
and behind a cut add up to the whole window if and only if not more events are listed than the table
of top events has slots. -/
theorem partitionsAt_iff (mask : UInt32) (f : Filter) (fromNs midNs toNs : ℕ)
    (evs : List TraceEvent) (hfrom : 0 < fromNs) (hmid : fromNs ≤ midNs) (hto : midNs ≤ toNs)
    (h : ∀ ev ∈ evs, ev.ExactClose) :
    PartitionsAt mask f fromNs midNs toNs evs ↔ (listedIds f evs).card ≤ eventHtSize := by
  constructor
  · intro hpart
    obtain ⟨-, -, r, -, -, hr, -⟩ := hpart.events
    rcases topEvents_cases mask f fromNs toNs evs with ⟨-, hnone⟩ | ⟨hle, -⟩
    · exact absurd (hr.symm.trans hnone) (by simp)
    · exact hle
  intro hle
  have hresult : ∀ a b, ∃ r, topEvents mask f a b evs = some r ∧
      Tally.Tallied TopEventAccum.eventId .new TraceEvent.oldEvent
        (TopEventAccum.addRecord a b) r.rows (topEventsTaken f evs) := by
    intro a b
    rcases topEvents_cases mask f a b evs with ⟨hlt, -⟩ | ⟨-, r, hr, hrows, -⟩
    · exact absurd hlt (Nat.not_lt.2 hle)
    · exact ⟨r, hr, hrows⟩
  have htime : ∀ ev, (eventWindowNs ev fromNs midNs : ℚ) + eventWindowNs ev midNs toNs =
      eventWindowNs ev fromNs toNs := fun ev => by
    rw [← eventWindowNs_add ev hfrom hmid hto, Nat.cast_add]
  refine ⟨?_, ?_, ?_, ?_, ?_⟩
  · rw [computeTimeModel_dbTimeNs, computeTimeModel_dbTimeNs, computeTimeModel_dbTimeNs,
      ← List.sum_map_add]
    refine congrArg List.sum (List.map_congr_left fun ev _ => ?_)
    rw [← htime ev]
    split_ifs
    · rfl
    · exact add_zero _
  · rw [computeTimeModel_idleNs, computeTimeModel_idleNs, computeTimeModel_idleNs,
      ← List.sum_map_add]
    refine congrArg List.sum (List.map_congr_left fun ev _ => ?_)
    rw [← htime ev]
    split_ifs
    · rfl
    · exact add_zero _
  · obtain ⟨r₁, hr₁, hrows₁⟩ := hresult fromNs midNs
    obtain ⟨r₂, hr₂, hrows₂⟩ := hresult midNs toNs
    obtain ⟨r, hr, hrows⟩ := hresult fromNs toNs
    refine ⟨r₁, r₂, r, hr₁, hr₂, hr, fun id => ⟨fun hwait => ?_, ?_, ?_, fun b => ?_⟩⟩
    · refine topEvents_of_add hrows₁ hrows₂ hrows _ _ id rfl
        (fun a b row ev _ => addRecord_totalNs a b row ev) fun ev _ hid => ?_
      subst hid
      rw [eventCpu_wait hwait, eventCpu_wait hwait, eventCpu_wait hwait]
      exact eventWindowNs_add ev hfrom hmid hto
    · exact topEvents_of_add hrows₁ hrows₂ hrows _ _ id rfl
        (fun a b row ev hev => addRecord_count (h ev hev) a b row) fun ev hev _ =>
          occurrence_add (h ev hev) hfrom hmid hto 1
    · exact topEvents_of_add hrows₁ hrows₂ hrows _ _ id rfl
        (fun a b row ev hev => addRecord_exactCount (h ev hev) a b row) fun ev hev _ =>
          occurrence_add (h ev hev) hfrom hmid hto 1
    · exact topEvents_of_add hrows₁ hrows₂ hrows _ _ id rfl
        (fun a b' row ev hev => addRecord_hist (h ev hev) a b' row b) fun ev hev _ =>
          occurrence_add (h ev hev) hfrom hmid hto _
  · rw [(topQueries_unattributed ..).1, (topQueries_unattributed ..).1,
      (topQueries_unattributed ..).1, ← List.sum_map_add]
    refine congrArg List.sum (List.map_congr_left fun ev _ => ?_)
    rw [← eventWindowNs_add ev hfrom hmid hto]
    split_ifs <;> rfl
  · rw [(topQueries_unattributed ..).2, (topQueries_unattributed ..).2,
      (topQueries_unattributed ..).2, ← List.sum_map_add]
    refine congrArg List.sum (List.map_congr_left fun ev hev => ?_)
    by_cases hun : unattributed mask f ev
    · simpa [hun] using occurrence_add (h ev hev) hfrom hmid hto 1
    · simp [hun]

/-- An exact wait of 10 ns. -/
def waitRecord (id : UInt32) (timestampNs : UInt64) : TraceEvent :=
  { timestampNs := timestampNs, pid := 1, oldEvent := id, newEvent := 0, flags := 0,
    durationNs := 10, queryId := 0, cpuNs := cpuNsUnknown }

theorem exactClose_waitRecord (id : UInt32) {timestampNs : UInt64} (h : 10 ≤ timestampNs.toNat) :
    (waitRecord id timestampNs).ExactClose := by
  refine ⟨?_, ?_, ?_, ?_, h⟩
  all_goals simp [waitRecord]

/-- A wait that closes on the cut and one that spans it. -/
theorem partitionsAt_two :
    PartitionsAt 0 {} 10 20 30 [waitRecord 0x0A000001 20, waitRecord 0x0A000001 25] := by
  refine (partitionsAt_iff 0 {} 10 20 30 _ (by decide) (by decide) (by decide) ?_).2 (by decide)
  intro ev hev
  simp only [List.mem_cons, List.not_mem_nil, or_false] at hev
  rcases hev with rfl | rfl
  · exact exactClose_waitRecord _ (by decide)
  · exact exactClose_waitRecord _ (by decide)

theorem takes_waitRecord {id : UInt32} (hlow : id.toNat < 4294967280)
    (hclass : id.toNat / 2 ^ 24 = 10) : topEventsTakes {} (waitRecord id 20) = true := by
  have hmarker : isMarker id = false := by
    rw [isMarker, Bool.and_eq_false_iff, decide_eq_false_iff_not, UInt32.le_iff_toNat_le]
    exact Or.inl (Nat.not_le.2 hlow)
  have hwe : weClass id = 0x0A := by
    rw [← UInt32.toNat_inj, weClass, UInt32.toNat_and, UInt32.toNat_shiftRight]
    change (id.toNat >>> 24) &&& 255 = 10
    rw [Nat.shiftRight_eq_div_pow, hclass]
    rfl
  have hdur : (waitRecord id 20).dur ≤ (waitRecord id 20).ts := (by decide : 10 ≤ 20)
  simpa [topEventsTakes, filterMatches, isHiddenEvent, hwe, hmarker, waitRecord] using hdur

/-- One wait for each of 2049 events. -/
def manyWaits : List TraceEvent :=
  (List.range 2049).map fun i => waitRecord (0x0A000000 + UInt32.ofNat i) 20

/-- With more events than slots there is no result. -/
theorem partitionsAt_manyWaits :
    (∀ ev ∈ manyWaits, ev.ExactClose) ∧ ¬ PartitionsAt 0 {} 10 20 30 manyWaits := by
  refine ⟨fun ev hev => ?_, fun hpart => ?_⟩
  · obtain ⟨i, -, rfl⟩ := List.mem_map.1 hev
    exact exactClose_waitRecord _ (by decide)
  have htakes : ∀ i < 2049,
      topEventsTakes {} (waitRecord (0x0A000000 + UInt32.ofNat i) 20) = true := by
    intro i hi
    have hid : (0x0A000000 + UInt32.ofNat i).toNat = 167772160 + i := by
      rw [UInt32.toNat_add, UInt32.toNat_ofNat']
      change (167772160 + i % 2 ^ 32) % 2 ^ 32 = 167772160 + i
      omega
    exact takes_waitRecord (by omega) (by omega)
  have htaken : topEventsTaken {} manyWaits = manyWaits := by
    refine List.filter_eq_self.2 fun ev hev => ?_
    obtain ⟨i, hi, rfl⟩ := List.mem_map.1 hev
    exact htakes i (List.mem_range.1 hi)
  have hids : manyWaits.map TraceEvent.oldEvent =
      (List.range 2049).map fun i => 0x0A000000 + UInt32.ofNat i := List.map_map ..
  have hnodup : ((List.range 2049).map fun i => 0x0A000000 + UInt32.ofNat i).Nodup := by
    refine List.Nodup.map_on (fun i hi j hj heq => ?_) List.nodup_range
    have heq' := congrArg UInt32.toNat (add_left_cancel heq)
    rw [UInt32.toNat_ofNat', UInt32.toNat_ofNat'] at heq'
    have := List.mem_range.1 hi
    have := List.mem_range.1 hj
    omega
  have hcard : (listedIds {} manyWaits).card = 2049 := by
    rw [listedIds, htaken, hids, List.toFinset_card_of_nodup hnodup, List.length_map,
      List.length_range]
  obtain ⟨-, -, r, -, -, hr, -⟩ := hpart.events
  rcases topEvents_cases 0 {} 10 30 manyWaits with ⟨-, hnone⟩ | ⟨hle, -⟩
  · exact absurd (hr.symm.trans hnone) (by simp)
  · rw [hcard] at hle
    exact absurd hle (by decide)

end PgWaitTracer
