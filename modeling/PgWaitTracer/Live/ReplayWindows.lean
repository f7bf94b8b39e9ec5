import PgWaitTracer.Compute.WindowPartition
import PgWaitTracer.Live.TimeModel

/-!
# Adjacent replay windows

Replay keeps a row for every event of the system (`pgwt_replay_events`, `src/replay_accum.c`). The
time of a record is clipped to the window, and the record is counted if it closes in the window. Both
ends of the window belong to it, so that a close on the edge that two windows share is counted in
both, where the server gives it to the second window only. The rows are kept in an array of 4096.

Counters are natural numbers: a sum is taken to fit in 64 bits. The rows by process and by query are
left out.

## Main results

* `replayPartitions_iff`: they add up exactly when no record closes on the shared edge
  and every event is kept or dropped alike.
-/

namespace PgWaitTracer

/-! ### Rows of events -/

/-- `struct pgwt_event_stats`. -/
structure EventStats where
  waitEvent : UInt32
  count : ℕ := 0
  totalNs : ℕ := 0
  minNs : ℕ := 2 ^ 64 - 1
  maxNs : ℕ := 0
  histogram : Fin histogramBuckets → ℕ := fun _ => 0

/-- What an admitted record adds to the row of its event. -/
structure ReplayRow where
  we : UInt32
  addNs : UInt64
  occNs : UInt64
  exact : Bool
  closed : Bool

namespace ReplayCall

/-- The row part of an admitted record. An interval on CPU counts with its measurement. -/
def row (c : ReplayCall) (evt : TraceEvent) (we : UInt32) (rowAdd : UInt64) : ReplayRow :=
  if c.isSamples || evt.flags &&& flagSample ≠ 0 then ⟨we, rowAdd, c.sampleNs evt, false, true⟩
  else
    { we := we
      addNs := rowAdd
      occNs := if we = 0 ∧ evt.cpuNs ≠ cpuNsUnknown then min evt.cpuNs evt.durationNs
        else evt.durationNs
      exact := true
      closed := c.closedInWindow evt }

/-- The row parts of the records up to the one that stops the loop. -/
def rows (c : ReplayCall) : List TraceEvent → List ReplayRow
  | [] => []
  | evt :: evts =>
    match c.share evt with
    | .skip => c.rows evts
    | .stop => []
    | .share we _ rowAdd => c.row evt we rowAdd :: c.rows evts

end ReplayCall

/-- A row part in the row of its event. -/
def EventStats.addRow (s : EventStats) (r : ReplayRow) : EventStats :=
  let s := { s with
    count := if r.closed then s.count + 1 else s.count
    totalNs := s.totalNs + r.addNs.toNat }
  if r.exact && r.closed then
    { s with
      minNs := min s.minNs r.occNs.toNat
      maxNs := max s.maxNs r.occNs.toNat
      histogram := fun b => if b = durationToBucket r.occNs then s.histogram b + 1
        else s.histogram b }
  else s

theorem EventStats.histogram_addRow (s : EventStats) (r : ReplayRow) (b : Fin histogramBuckets) :
    (s.addRow r).histogram b = s.histogram b +
      if r.exact && r.closed then (if b = durationToBucket r.occNs then 1 else 0) else 0 := by
  by_cases hexact : (r.exact && r.closed) = true
  · simp only [EventStats.addRow, hexact, if_true]
    split_ifs <;> rfl
  · simp only [EventStats.addRow, hexact]
    rfl

/-- The size of the array of system events. -/
def maxSystemEvents : ℕ := 4096

namespace ReplayCall

/-- The system events after `pgwt_replay_events` on a new accumulator. -/
def systemEvents (c : ReplayCall) : List EventStats :=
  Tally.boundedRows EventStats.waitEvent (fun we => { waitEvent := we }) ReplayRow.we
    EventStats.addRow maxSystemEvents (c.rows c.events)

/-- `transitions` of `struct pgwt_replay_stats`. -/
def transitions (c : ReplayCall) : ℕ := (c.rows c.events).countP fun r => r.exact && r.closed

/-- A quantity of the row of an event. -/
def of (c : ReplayCall) (q : EventStats → ℕ) (id : UInt32) : ℕ :=
  (c.systemEvents.find? fun s => s.waitEvent = id).elim 0 q

end ReplayCall

/-! ### Exact records -/

/-- An exact record that is no marker. -/
structure TraceEvent.ExactInterval (ev : TraceEvent) : Prop where
  exact : ev.flags &&& flagSample = 0
  interval : isMarker ev.oldEvent = false

variable {evs : List TraceEvent}

namespace ReplayCall

/-- The time of a record in the window. -/
def windowNs (c : ReplayCall) (ev : TraceEvent) : ℕ :=
  eventWindowNs ev c.fromNs.toNat c.toNs.toNat

/-- The record is admitted. -/
def admits (c : ReplayCall) (ev : TraceEvent) : Bool :=
  !(decide (c.windowNs ev = 0) && !c.closedInWindow ev)

/-- The row part of an exact record. -/
def exactRow (c : ReplayCall) (ev : TraceEvent) : ReplayRow :=
  c.row ev ev.oldEvent (cpuShare ev (UInt64.ofNat (c.windowNs ev)))

/-- The events that get a row. -/
def kept (c : ReplayCall) : List UInt32 :=
  Tally.firstKeys maxSystemEvents ((c.events.filter c.admits).map TraceEvent.oldEvent)

variable {c : ReplayCall} {ev : TraceEvent}

theorem windowNs_lt (c : ReplayCall) (ev : TraceEvent) : c.windowNs ev < 2 ^ 64 := by
  have hts : ev.ts < 2 ^ 64 := ev.timestampNs.toNat_lt
  simp only [windowNs, eventWindowNs]
  split_ifs <;> omega

theorem toNat_windowNs (c : ReplayCall) (ev : TraceEvent) :
    (UInt64.ofNat (c.windowNs ev)).toNat = c.windowNs ev :=
  UInt64.toNat_ofNat_of_lt' (c.windowNs_lt ev)

theorem share_exact (h : ev.ExactInterval) (hblock : c.isSamples = false) :
    c.share ev = if c.admits ev then
      .share ev.oldEvent (UInt64.ofNat (c.windowNs ev))
        (cpuShare ev (UInt64.ofNat (c.windowNs ev))) else .skip := by
  have hskip : (UInt64.ofNat (eventWindowNs ev c.fromNs.toNat c.toNs.toNat) = 0 ∧
      (!c.closedInWindow ev) = true) ↔ c.admits ev = false := by
    rw [← UInt64.toNat_inj, admits, Bool.not_eq_false', Bool.and_eq_true, decide_eq_true_eq,
      ← c.toNat_windowNs]
    rfl
  rw [share, hblock, Bool.false_or, if_neg (by simp [h.exact]), intervalShare,
    if_neg (by simp [h.interval])]
  simp only [hskip]
  cases c.admits ev with
  | true => rfl
  | false => rfl

theorem rows_exact (hblock : c.isSamples = false) (h : ∀ ev ∈ evs, ev.ExactInterval) :
    c.rows evs = (evs.filter c.admits).map c.exactRow := by
  induction evs with
  | nil => rfl
  | cons ev evs ih =>
    rw [rows, share_exact (h ev List.mem_cons_self) hblock, List.filter_cons,
      ih fun ev' h' => h ev' (List.mem_cons_of_mem _ h')]
    split_ifs <;> rfl

theorem exactRow_eq (h : ev.ExactInterval) (hblock : c.isSamples = false) :
    c.exactRow ev =
      { we := ev.oldEvent
        addNs := cpuShare ev (UInt64.ofNat (c.windowNs ev))
        occNs := if ev.oldEvent = 0 ∧ ev.cpuNs ≠ cpuNsUnknown then min ev.cpuNs ev.durationNs
          else ev.durationNs
        exact := true
        closed := c.closedInWindow ev } := by
  rw [exactRow, row, hblock, Bool.false_or, if_neg (by simp [h.exact])]

theorem admits_of_closed (h : c.closedInWindow ev = true) : c.admits ev = true := by
  simp [admits, h]

/-! ### Quantities of an event -/

theorem keyed_systemEvents :
    Tally.Keyed EventStats.waitEvent (fun we => { waitEvent := we }) EventStats.addRow := by
  refine ⟨fun _ => rfl, fun s r => ?_⟩
  simp only [EventStats.addRow]
  split_ifs <;> rfl

/-- A quantity to which every row part adds a share, over the records of the event. -/
theorem of_eq (hblock : c.isSamples = false) (h : ∀ ev ∈ c.events, ev.ExactInterval)
    {q : EventStats → ℕ} {w : ReplayRow → ℕ} (hzero : ∀ id, q { waitEvent := id } = 0)
    (hadd : ∀ s r, q (s.addRow r) = q s + w r) (id : UInt32) :
    c.of q id = if id ∈ c.kept then ((c.events.filter fun ev => ev.oldEvent = id).map fun ev =>
      if c.admits ev then w (c.exactRow ev) else 0).sum else 0 := by
  have hwe : ∀ ev ∈ c.events, (c.exactRow ev).we = ev.oldEvent := fun ev hev => by
    rw [exactRow_eq (h ev hev) hblock]
  have hids : ((c.events.filter c.admits).map c.exactRow).map ReplayRow.we =
      (c.events.filter c.admits).map TraceEvent.oldEvent := by
    rw [List.map_map]
    exact List.map_congr_left fun ev hev => hwe ev (List.mem_filter.1 hev).1
  obtain ⟨-, hrows⟩ := Tally.boundedRows_tallied (k := ReplayRow.we) keyed_systemEvents
    maxSystemEvents ((c.events.filter c.admits).map c.exactRow)
  rw [hids] at hrows
  have hsum : ∀ l : List ReplayRow, (Tally.rowOf (fun we => ({ waitEvent := we } : EventStats))
      ReplayRow.we EventStats.addRow l id).elim 0 q =
        ((l.filter fun r => r.we = id).map w).sum := fun l =>
    Tally.sum_rowOf q w (hzero id) fun s r _ => hadd s r
  rw [of, systemEvents, rows_exact hblock h, hrows.find? keyed_systemEvents, hsum,
    List.filter_filter, Tally.sum_filter_map, List.map_map, Tally.sum_filter_map]
  split_ifs with hkept
  · rw [Tally.sum_filter_map]
    refine congrArg List.sum (List.map_congr_left fun ev hev => ?_)
    rw [Function.comp_apply, hwe ev hev, ← kept]
    by_cases hid : ev.oldEvent = id
    · simp [hid, hkept]
    · simp [hid]
  · refine List.sum_eq_zero fun x hx => ?_
    obtain ⟨ev, hev, rfl⟩ := List.mem_map.1 hx
    rw [Function.comp_apply, hwe ev hev, ← kept]
    by_cases hid : ev.oldEvent = id
    · simp [hid, hkept]
    · simp [hid]

/-- The records of an event. -/
def recordsOf (c : ReplayCall) (id : UInt32) : List TraceEvent :=
  c.events.filter fun ev => ev.oldEvent = id

theorem count_eq (hblock : c.isSamples = false) (h : ∀ ev ∈ c.events, ev.ExactInterval)
    (id : UInt32) :
    c.of (·.count) id = if id ∈ c.kept then ((c.recordsOf id).map fun ev =>
      if c.closedInWindow ev then 1 else 0).sum else 0 := by
  rw [of_eq (w := fun r => if r.closed then 1 else 0) hblock h (fun _ => rfl) fun s r => ?_]
  · congr 2
    refine List.map_congr_left fun ev hev => ?_
    rw [exactRow_eq (h ev (List.mem_filter.1 hev).1) hblock]
    by_cases hclosed : c.closedInWindow ev = true
    · rw [if_pos (admits_of_closed hclosed)]
    · simp [hclosed]
  · simp only [EventStats.addRow]
    split_ifs <;> rfl

theorem transitions_eq (hblock : c.isSamples = false) (h : ∀ ev ∈ c.events, ev.ExactInterval) :
    c.transitions = (c.events.map fun ev => if c.closedInWindow ev then 1 else 0).sum := by
  rw [transitions, rows_exact hblock h, List.countP_map, List.countP_filter,
    ← Tally.sum_filter_map, List.countP_eq_length_filter, List.map_const', List.sum_replicate]
  change _ = (c.events.filter c.closedInWindow).length * 1
  rw [Nat.mul_one]
  refine congrArg List.length (List.filter_congr fun ev hev => ?_)
  rw [Function.comp_apply, exactRow_eq (h ev hev) hblock]
  cases hclosed : c.closedInWindow ev with
  | true => simp [admits_of_closed hclosed]
  | false => rfl

/-- The bucket of an exact record. -/
def occBucket (ev : TraceEvent) : Fin histogramBuckets :=
  durationToBucket (if ev.oldEvent = 0 ∧ ev.cpuNs ≠ cpuNsUnknown then min ev.cpuNs ev.durationNs
    else ev.durationNs)

theorem histogram_eq (hblock : c.isSamples = false) (h : ∀ ev ∈ c.events, ev.ExactInterval)
    (b : Fin histogramBuckets) (id : UInt32) :
    c.of (·.histogram b) id = if id ∈ c.kept then ((c.recordsOf id).map fun ev =>
      if c.closedInWindow ev then (if b = occBucket ev then 1 else 0) else 0).sum else 0 := by
  rw [of_eq (w := fun r => if r.exact && r.closed then (if b = durationToBucket r.occNs then 1
    else 0) else 0) hblock h (fun _ => rfl) fun s r => ?_]
  · congr 2
    refine List.map_congr_left fun ev hev => ?_
    rw [exactRow_eq (h ev (List.mem_filter.1 hev).1) hblock]
    by_cases hclosed : c.closedInWindow ev = true
    · rw [if_pos (admits_of_closed hclosed), if_pos (by simpa using hclosed), if_pos hclosed]
      rfl
    · simp [hclosed]
  · exact s.histogram_addRow r b

theorem totalNs_eq (hblock : c.isSamples = false) (h : ∀ ev ∈ c.events, ev.ExactInterval)
    {id : UInt32} (hid : id ≠ 0) :
    c.of (·.totalNs) id = if id ∈ c.kept then ((c.recordsOf id).map c.windowNs).sum else 0 := by
  rw [of_eq (w := fun r => r.addNs.toNat) hblock h (fun _ => rfl) fun s r => ?_]
  · congr 2
    refine List.map_congr_left fun ev hev => ?_
    obtain ⟨hmem, hold⟩ := List.mem_filter.1 hev
    have hwait : ¬ (ev.oldEvent = 0 ∧ ev.cpuNs ≠ cpuNsUnknown) := fun h₀ =>
      hid ((of_decide_eq_true hold).symm.trans h₀.1)
    rw [exactRow_eq (h ev hmem) hblock]
    dsimp only
    rw [cpuShare, if_neg hwait, c.toNat_windowNs]
    by_cases hw : c.windowNs ev = 0
    · rw [hw, ite_self]
    · rw [if_pos (by simp [admits, hw])]
  · simp only [EventStats.addRow]
    split_ifs <;> rfl

end ReplayCall

/-! ### Two windows -/

theorem closedInWindow_add {fromNs midNs toNs : UInt64} {block : Option ReplayBlock}
    (hfrom : 0 < fromNs) (hmid : fromNs ≤ midNs) (hto : midNs ≤ toNs) (ev : TraceEvent) (n : ℕ) :
    (if (⟨evs, fromNs, midNs, block⟩ : ReplayCall).closedInWindow ev then n else 0) +
        (if (⟨evs, midNs, toNs, block⟩ : ReplayCall).closedInWindow ev then n else 0) =
      (if (⟨evs, fromNs, toNs, block⟩ : ReplayCall).closedInWindow ev then n else 0) +
        if ev.timestampNs = midNs then n else 0 := by
  have h₀ : (0 : UInt64).toNat = 0 := rfl
  simp only [ReplayCall.closedInWindow, Bool.and_eq_true, Bool.or_eq_true, decide_eq_true_eq,
    ← UInt64.toNat_inj, UInt64.le_iff_toNat_le]
  rw [UInt64.lt_iff_toNat_lt] at hfrom
  rw [UInt64.le_iff_toNat_le] at hmid hto
  split_ifs <;> omega

theorem windowNs_add {fromNs midNs toNs : UInt64} {block : Option ReplayBlock} (hfrom : 0 < fromNs)
    (hmid : fromNs ≤ midNs) (hto : midNs ≤ toNs) (ev : TraceEvent) :
    (⟨evs, fromNs, midNs, block⟩ : ReplayCall).windowNs ev +
        (⟨evs, midNs, toNs, block⟩ : ReplayCall).windowNs ev =
      (⟨evs, fromNs, toNs, block⟩ : ReplayCall).windowNs ev :=
  eventWindowNs_add ev (UInt64.lt_iff_toNat_lt.1 hfrom) (UInt64.le_iff_toNat_le.1 hmid)
    (UInt64.le_iff_toNat_le.1 hto)

/-- The event has something to count or to add in the window: a close, or the time of a wait. -/
def ReplayCall.Contributes (c : ReplayCall) (id : UInt32) : Prop :=
  ∃ ev ∈ c.events, ev.oldEvent = id ∧
    (c.closedInWindow ev = true ∨ id ≠ 0 ∧ 0 < c.windowNs ev)

/-- The numbers of two adjacent windows, replayed one by one, add up to those of both together. -/
structure ReplayPartitions (evs : List TraceEvent) (fromNs midNs toNs : UInt64)
    (block : Option ReplayBlock) : Prop where
  transitions : (⟨evs, fromNs, midNs, block⟩ : ReplayCall).transitions +
    (⟨evs, midNs, toNs, block⟩ : ReplayCall).transitions =
      (⟨evs, fromNs, toNs, block⟩ : ReplayCall).transitions
  count : ∀ id, (⟨evs, fromNs, midNs, block⟩ : ReplayCall).of (·.count) id +
    (⟨evs, midNs, toNs, block⟩ : ReplayCall).of (·.count) id =
      (⟨evs, fromNs, toNs, block⟩ : ReplayCall).of (·.count) id
  histogram : ∀ b id, (⟨evs, fromNs, midNs, block⟩ : ReplayCall).of (·.histogram b) id +
    (⟨evs, midNs, toNs, block⟩ : ReplayCall).of (·.histogram b) id =
      (⟨evs, fromNs, toNs, block⟩ : ReplayCall).of (·.histogram b) id
  totalNs : ∀ id, id ≠ 0 → (⟨evs, fromNs, midNs, block⟩ : ReplayCall).of (·.totalNs) id +
    (⟨evs, midNs, toNs, block⟩ : ReplayCall).of (·.totalNs) id =
      (⟨evs, fromNs, toNs, block⟩ : ReplayCall).of (·.totalNs) id

/-- The condition on the records: none closes on the shared edge, and an event that has something to
count or to add in a window gets a row there exactly when it gets one in both together. -/
structure ReplayCutClean (evs : List TraceEvent) (fromNs midNs toNs : UInt64)
    (block : Option ReplayBlock) : Prop where
  noClose : ∀ ev ∈ evs, ev.timestampNs ≠ midNs
  first : ∀ id, (⟨evs, fromNs, midNs, block⟩ : ReplayCall).Contributes id →
    (id ∈ (⟨evs, fromNs, midNs, block⟩ : ReplayCall).kept ↔
      id ∈ (⟨evs, fromNs, toNs, block⟩ : ReplayCall).kept)
  second : ∀ id, (⟨evs, midNs, toNs, block⟩ : ReplayCall).Contributes id →
    (id ∈ (⟨evs, midNs, toNs, block⟩ : ReplayCall).kept ↔
      id ∈ (⟨evs, fromNs, toNs, block⟩ : ReplayCall).kept)

theorem taken_add_iff {k₁ k₂ k : Prop} [Decidable k₁] [Decidable k₂] [Decidable k] {s₁ s₂ s : ℕ}
    (hs : s₁ + s₂ = s) :
    ((if k₁ then s₁ else 0) + (if k₂ then s₂ else 0) = if k then s else 0) ↔
      (0 < s₁ → (k₁ ↔ k)) ∧ (0 < s₂ → (k₂ ↔ k)) := by
  by_cases h₁ : k₁ <;> by_cases h₂ : k₂ <;> by_cases h : k <;> simp [h₁, h₂, h] <;> omega

theorem ReplayCall.closes_pos_iff (c : ReplayCall) (id : UInt32) :
    0 < ((c.recordsOf id).map fun ev => if c.closedInWindow ev then 1 else 0).sum ↔
      ∃ ev ∈ c.events, ev.oldEvent = id ∧ c.closedInWindow ev = true := by
  rw [List.sum_pos_iff_exists_pos_nat]
  constructor
  · rintro ⟨x, hx, hpos⟩
    obtain ⟨ev, hev, rfl⟩ := List.mem_map.1 hx
    obtain ⟨hmem, hid⟩ := List.mem_filter.1 hev
    refine ⟨ev, hmem, of_decide_eq_true hid, ?_⟩
    by_contra hno
    rw [if_neg hno] at hpos
    exact absurd hpos (by decide)
  · rintro ⟨ev, hev, rfl, hclosed⟩
    refine ⟨1, List.mem_map.2 ⟨ev, List.mem_filter.2 ⟨hev, by simp⟩, if_pos hclosed⟩, ?_⟩
    exact Nat.one_pos

theorem ReplayCall.windowNs_pos_iff (c : ReplayCall) (id : UInt32) :
    0 < ((c.recordsOf id).map c.windowNs).sum ↔
      ∃ ev ∈ c.events, ev.oldEvent = id ∧ 0 < c.windowNs ev := by
  rw [List.sum_pos_iff_exists_pos_nat]
  constructor
  · rintro ⟨x, hx, hpos⟩
    obtain ⟨ev, hev, rfl⟩ := List.mem_map.1 hx
    obtain ⟨hmem, hid⟩ := List.mem_filter.1 hev
    exact ⟨ev, hmem, of_decide_eq_true hid, hpos⟩
  · rintro ⟨ev, hev, rfl, hpos⟩
    exact ⟨_, List.mem_map.2 ⟨ev, List.mem_filter.2 ⟨hev, by simp⟩, rfl⟩, hpos⟩

theorem ReplayCall.closes_pos_of_bucket {c : ReplayCall} {id : UInt32} {w : TraceEvent → ℕ}
    (h : 0 < ((c.recordsOf id).map fun ev => if c.closedInWindow ev then w ev else 0).sum) :
    ∃ ev ∈ c.events, ev.oldEvent = id ∧ c.closedInWindow ev = true := by
  obtain ⟨x, hx, hpos⟩ := List.sum_pos_iff_exists_pos_nat.1 h
  obtain ⟨ev, hev, rfl⟩ := List.mem_map.1 hx
  obtain ⟨hmem, hid⟩ := List.mem_filter.1 hev
  refine ⟨ev, hmem, of_decide_eq_true hid, ?_⟩
  by_contra hno
  rw [if_neg hno] at hpos
  exact absurd hpos (Nat.lt_irrefl 0)

/-- **When adjacent replay windows add up.** For exact records that are no markers, the numbers of two
windows that share an edge, replayed into new accumulators, add up to those of both together if and
only if no record closes on the shared edge, and an event with something to count or to add in a
window gets a row there exactly when it gets one in both together. -/
theorem replayPartitions_iff (evs : List TraceEvent) (fromNs midNs toNs : UInt64)
    (block : Option ReplayBlock) (hfrom : 0 < fromNs) (hmid : fromNs ≤ midNs) (hto : midNs ≤ toNs)
    (hblock : block.any ReplayBlock.isSamples = false) (h : ∀ ev ∈ evs, ev.ExactInterval) :
    ReplayPartitions evs fromNs midNs toNs block ↔
      ReplayCutClean evs fromNs midNs toNs block := by
  set c₁ : ReplayCall := ⟨evs, fromNs, midNs, block⟩ with hc₁
  set c₂ : ReplayCall := ⟨evs, midNs, toNs, block⟩ with hc₂
  set c : ReplayCall := ⟨evs, fromNs, toNs, block⟩ with hc
  have hsplit : ∀ (l : List TraceEvent) (w : TraceEvent → ℕ), (∀ ev ∈ l, ev.timestampNs ≠ midNs) →
      (l.map fun ev => if c₁.closedInWindow ev then w ev else 0).sum +
        (l.map fun ev => if c₂.closedInWindow ev then w ev else 0).sum =
      (l.map fun ev => if c.closedInWindow ev then w ev else 0).sum := by
    intro l w hno
    rw [← List.sum_map_add]
    refine congrArg List.sum (List.map_congr_left fun ev hev => ?_)
    rw [closedInWindow_add hfrom hmid hto ev, if_neg (hno ev hev), add_zero]
  have htime : ∀ l : List TraceEvent,
      (l.map c₁.windowNs).sum + (l.map c₂.windowNs).sum = (l.map c.windowNs).sum := by
    intro l
    rw [← List.sum_map_add]
    exact congrArg List.sum (List.map_congr_left fun ev _ => windowNs_add hfrom hmid hto ev)
  have hof : ∀ {ev id}, ev ∈ evs.filter (fun ev => ev.oldEvent = id) → ev ∈ evs :=
    fun hev => (List.mem_filter.1 hev).1
  constructor
  · intro hpart
    have hnone : ∀ ev ∈ evs, ev.timestampNs ≠ midNs := by
      have htrans := hpart.transitions
      rw [c₁.transitions_eq hblock h, c₂.transitions_eq hblock h, c.transitions_eq hblock h,
        ← List.sum_map_add] at htrans
      rw [List.map_congr_left fun ev _ => closedInWindow_add hfrom hmid hto ev 1,
        List.sum_map_add, Nat.add_eq_left, List.sum_eq_zero_iff_forall_eq_nat] at htrans
      intro ev hev heq
      have hone := htrans _ (List.mem_map.2 ⟨ev, hev, rfl⟩)
      rw [if_pos heq] at hone
      exact absurd hone (by decide)
    have hcount : ∀ id : UInt32, _ := fun id => by
      have hadd := hpart.count id
      rw [c₁.count_eq hblock h, c₂.count_eq hblock h, c.count_eq hblock h] at hadd
      exact (taken_add_iff (hsplit _ (fun _ => 1) fun ev hev => hnone ev (hof hev))).1 hadd
    have htotal : ∀ id : UInt32, id ≠ 0 → _ := fun id hid => by
      have hadd := hpart.totalNs id hid
      rw [c₁.totalNs_eq hblock h hid, c₂.totalNs_eq hblock h hid, c.totalNs_eq hblock h hid] at hadd
      exact (taken_add_iff (htime _)).1 hadd
    refine ⟨hnone, ?_, ?_⟩
    · rintro id ⟨ev, hev, hold, hclosed | ⟨hid, hpos⟩⟩
      · exact (hcount id).1 ((c₁.closes_pos_iff id).2 ⟨ev, hev, hold, hclosed⟩)
      · exact (htotal id hid).1 ((c₁.windowNs_pos_iff id).2 ⟨ev, hev, hold, hpos⟩)
    · rintro id ⟨ev, hev, hold, hclosed | ⟨hid, hpos⟩⟩
      · exact (hcount id).2 ((c₂.closes_pos_iff id).2 ⟨ev, hev, hold, hclosed⟩)
      · exact (htotal id hid).2 ((c₂.windowNs_pos_iff id).2 ⟨ev, hev, hold, hpos⟩)
  · intro hclean
    have hcounts : ∀ id (w : TraceEvent → ℕ),
        (if id ∈ c₁.kept then ((c₁.recordsOf id).map fun ev =>
            if c₁.closedInWindow ev then w ev else 0).sum else 0) +
          (if id ∈ c₂.kept then ((c₂.recordsOf id).map fun ev =>
            if c₂.closedInWindow ev then w ev else 0).sum else 0) =
        if id ∈ c.kept then ((c.recordsOf id).map fun ev =>
          if c.closedInWindow ev then w ev else 0).sum else 0 := by
      intro id w
      refine (taken_add_iff (hsplit _ w fun ev hev => hclean.noClose ev (hof hev))).2 ⟨?_, ?_⟩
      · intro hpos
        obtain ⟨ev, hev, hold, hclosed⟩ := ReplayCall.closes_pos_of_bucket hpos
        exact hclean.first id ⟨ev, hev, hold, Or.inl hclosed⟩
      · intro hpos
        obtain ⟨ev, hev, hold, hclosed⟩ := ReplayCall.closes_pos_of_bucket hpos
        exact hclean.second id ⟨ev, hev, hold, Or.inl hclosed⟩
    refine ⟨?_, fun id => ?_, fun b id => ?_, fun id hid => ?_⟩
    · rw [← hc₁, ← hc₂, ← hc, c₁.transitions_eq hblock h, c₂.transitions_eq hblock h,
        c.transitions_eq hblock h]
      exact hsplit evs (fun _ => 1) hclean.noClose
    · rw [← hc₁, ← hc₂, ← hc, c₁.count_eq hblock h, c₂.count_eq hblock h, c.count_eq hblock h]
      exact hcounts id fun _ => 1
    · rw [← hc₁, ← hc₂, ← hc, c₁.histogram_eq hblock h, c₂.histogram_eq hblock h,
        c.histogram_eq hblock h]
      exact hcounts id _
    · rw [← hc₁, ← hc₂, ← hc, c₁.totalNs_eq hblock h hid, c₂.totalNs_eq hblock h hid,
        c.totalNs_eq hblock h hid]
      refine (taken_add_iff (htime _)).2 ⟨fun hpos => ?_, fun hpos => ?_⟩
      · obtain ⟨ev, hev, hold, hpos⟩ := (c₁.windowNs_pos_iff id).1 hpos
        exact hclean.first id ⟨ev, hev, hold, Or.inr ⟨hid, hpos⟩⟩
      · obtain ⟨ev, hev, hold, hpos⟩ := (c₂.windowNs_pos_iff id).1 hpos
        exact hclean.second id ⟨ev, hev, hold, Or.inr ⟨hid, hpos⟩⟩

/-- A wait that spans the shared edge. -/
theorem replayPartitions_spanning :
    ReplayPartitions [waitRecord 0x0A000001 25] 10 20 30 none := by
  refine (replayPartitions_iff _ 10 20 30 none (by decide) (by decide) (by decide) rfl ?_).2 ?_
  · intro ev hev
    obtain rfl := List.mem_singleton.1 hev
    exact ⟨by simp [waitRecord], by decide⟩
  · have hfirst : (⟨[waitRecord 0x0A000001 25], 10, 20, none⟩ : ReplayCall).kept =
        (⟨[waitRecord 0x0A000001 25], 10, 30, none⟩ : ReplayCall).kept := by decide
    have hsecond : (⟨[waitRecord 0x0A000001 25], 20, 30, none⟩ : ReplayCall).kept =
        (⟨[waitRecord 0x0A000001 25], 10, 30, none⟩ : ReplayCall).kept := by decide
    exact ⟨by decide, fun id _ => by rw [hfirst], fun id _ => by rw [hsecond]⟩

/-- A wait that closes on the shared edge is counted twice. -/
theorem replayPartitions_closeOnEdge :
    (waitRecord 0x0A000001 20).ExactInterval ∧
      (⟨[waitRecord 0x0A000001 20], 10, 20, none⟩ : ReplayCall).transitions = 1 ∧
      (⟨[waitRecord 0x0A000001 20], 20, 30, none⟩ : ReplayCall).transitions = 1 ∧
      (⟨[waitRecord 0x0A000001 20], 10, 30, none⟩ : ReplayCall).transitions = 1 ∧
      ¬ ReplayPartitions [waitRecord 0x0A000001 20] 10 20 30 none := by
  refine ⟨⟨by simp [waitRecord], by decide⟩, by decide, by decide, by decide, fun h => ?_⟩
  exact absurd h.transitions (by decide)

end PgWaitTracer
