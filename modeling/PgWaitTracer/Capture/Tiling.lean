import PgWaitTracer.Capture.Watchpoint

/-!
# Captured intervals tile the time of a backend

Every step that closes an interval starts the next one at the same reading of the clock, and every
step that stamps the start of an interval either closes the one before with a record or seeds the
entry anew. The records since a seed and the open stretch are then a partition of the time since the
seed (`on_watchpoint` and `on_exit`, `src/bpf/pg_wait_tracer.bpf.c`; `preseed_state_map`,
`src/backend.c`; `pgwt_build_open_stretch`, `src/open_interval.h`).

## Main results

* `WatchRun.Tiled.move`: a move keeps the invariant.
* `captured_tile`: the intervals of a run, and the open stretch at every instant.
-/

namespace PgWaitTracer

/-- The interval of a record. -/
def TraceEvent.span (ev : TraceEvent) : Span := ⟨ev.ts - ev.dur, ev.ts⟩

/-! ### What was observed -/

/-- The records in emission order, the time of the last seed, the records since then, the event
entered last and whether the process exited since the seed. -/
structure Observed where
  records : List TraceEvent := []
  seed : Option UInt64 := none
  since : List TraceEvent := []
  entered : Option UInt32 := none
  exited : Bool := false
  deriving DecidableEq, Repr

namespace Observed

/-- A mark more. The exit enters no event. -/
def mark (o : Observed) : WatchMark → Observed
  | .seeded ts event =>
    { o with seed := some ts, since := [], entered := some event, exited := false }
  | .transition evt =>
    { o with
      records := o.records ++ [evt]
      since := o.since ++ [evt]
      entered := some evt.newEvent }
  | .exit evt =>
    { o with records := o.records ++ [evt], since := o.since ++ [evt], exited := true }
  | .accum _ _ => o

/-- The end of the last record. -/
def lastEnd (o : Observed) : ℕ := (o.records.getLast?.map TraceEvent.ts).getD 0

/-- The record starts at the later of the end of the record before and the last seed, under the
event that was entered there. -/
def StartsRecord (o : Observed) (evt : TraceEvent) : Prop :=
  ∃ seed, o.seed = some seed ∧ evt.span.start = max o.lastEnd seed.toNat ∧
    o.entered = some evt.oldEvent

end Observed

/-- What marks say, in order. -/
def observe (marks : List WatchMark) : Observed := marks.foldl Observed.mark {}

theorem observe_append_singleton (marks : List WatchMark) (m : WatchMark) :
    observe (marks ++ [m]) = (observe marks).mark m := by
  rw [observe, List.foldl_append]
  rfl

/-- The record that a mark closes an interval with. -/
def WatchMark.record : WatchMark → Option TraceEvent
  | .transition evt => some evt
  | .exit evt => some evt
  | _ => none

/-! ### The invariant -/

/-- An interval of the entered event is open since the later of the last record and the last seed,
and the records since the seed tile the time before it. -/
structure Observed.Open (o : Observed) (entry : Option PidState) (clock : UInt64) (seed : UInt64)
    (event : UInt32) (since : UInt64) : Prop where
  opened : OpenSince entry event since
  le_clock : since ≤ clock
  seeded : o.seed = some seed
  enters : o.entered = some event
  start : since.toNat = max o.lastEnd seed.toNat
  ends : ∀ r ∈ o.records, r.ts ≤ since.toNat
  tiles : Spans.Tiles seed.toNat since.toNat (o.since.map TraceEvent.span)

/-- **The invariant.** Every record starts where the observation stood, and an interval is open
unless there was no seed yet. -/
structure WatchRun.Tiled (s : WatchRun) : Prop where
  starts : ∀ pre m post, s.marks = pre ++ m :: post → ∀ evt ∈ m.record,
    (observe pre).StartsRecord evt
  apart : (observe s.marks).records.Pairwise fun a b => a.span.stop ≤ b.span.start
  stands : (∃ seed event since, (observe s.marks).Open s.entry s.clock seed event since) ∨
    (∀ st ∈ s.entry, st.wpLive = 0) ∧ s.marks = []

variable {entry : Option PidState} {event : UInt32} {since : UInt64}

theorem Closes.span {evt : TraceEvent} {now : UInt64} (h : Closes evt event since now)
    (hle : since ≤ now) : evt.span = ⟨since.toNat, now.toNat⟩ := by
  have hdur : evt.dur = now.toNat - since.toNat := by
    rw [TraceEvent.dur, h.durationNs]
    exact UInt64.toNat_sub_of_le now since hle
  have hts : evt.ts = now.toNat := congrArg UInt64.toNat h.timestampNs
  rw [TraceEvent.span, hdur, hts, Nat.sub_sub_self (UInt64.le_iff_toNat_le.1 hle)]

theorem OpenSince.unique {event' : UInt32} {since' : UInt64} (h : OpenSince entry event since)
    (h' : OpenSince entry event' since') : event = event' ∧ since = since' := by
  obtain ⟨st, hst, -, rfl, rfl⟩ := h.live
  obtain ⟨st', hst', -, rfl, rfl⟩ := h'.live
  obtain rfl := Option.some.inj (hst.symm.trans hst')
  exact ⟨rfl, rfl⟩

theorem OpenSince.congr {entry' : Option PidState} (h : OpenSince entry event since)
    (heq : entry'.map PidState.interval = entry.map PidState.interval) :
    OpenSince entry' event since := by
  obtain ⟨st, rfl, hlive, rfl, rfl⟩ := h.live
  obtain ⟨st', rfl, hst'⟩ := Option.map_eq_some_iff.1 heq
  obtain ⟨hwp, hev, hts⟩ : st'.wpLive = st.wpLive ∧ st'.lastEvent = st.lastEvent ∧
      st'.lastTs = st.lastTs := by
    simpa [PidState.interval] using hst'
  exact ⟨st', rfl, hwp ▸ hlive, hev, hts⟩

theorem OpenSince.not_idle (h : OpenSince entry event since) : ¬∀ st ∈ entry, st.wpLive = 0 := by
  obtain ⟨st, rfl, hlive, -, -⟩ := h.live
  exact fun hidle => hlive (hidle st rfl)

/-! ### One move -/

section Move

variable {s : WatchRun} {entry' : Option PidState} {now : UInt64}

theorem starts_append (h : s.Tiled) {m : WatchMark}
    (hm : ∀ evt ∈ m.record, (observe s.marks).StartsRecord evt) :
    ∀ pre m' post, s.marks ++ [m] = pre ++ m' :: post → ∀ evt ∈ m'.record,
      (observe pre).StartsRecord evt := by
  intro pre m' post heq evt hevt
  rcases List.append_eq_append_iff.1 heq with ⟨l, rfl, hl⟩ | ⟨l, hl, hpost⟩
  · cases l with
    | nil =>
      rw [List.append_nil]
      obtain ⟨rfl, -⟩ := List.cons.inj hl
      exact hm evt hevt
    | cons a l =>
      have := congrArg List.length hl
      simp at this
  · cases l with
    | nil =>
      rw [List.append_nil] at hl
      obtain ⟨rfl, -⟩ := List.cons.inj hpost
      exact hl ▸ hm evt hevt
    | cons a l =>
      obtain ⟨rfl, -⟩ := List.cons.inj hpost
      exact h.starts pre m' l hl evt hevt

theorem WatchRun.Tiled.seed (h : s.Tiled) (hclock : s.clock ≤ now) {event : UInt32}
    (h' : OpenSince entry' event now) :
    WatchRun.Tiled { entry := entry', clock := now, marks := s.marks ++ [.seeded now event] } := by
  have hle : s.clock.toNat ≤ now.toNat := UInt64.le_iff_toNat_le.1 hclock
  have hends : ∀ r ∈ (observe s.marks).records, r.ts ≤ now.toNat := by
    rcases h.stands with ⟨seed, event₀, since, hopen⟩ | ⟨-, hnil⟩
    · have := UInt64.le_iff_toNat_le.1 hopen.le_clock
      exact fun r hr => (hopen.ends r hr).trans (this.trans hle)
    · rw [hnil]
      exact nofun
  have hlast : (observe s.marks).lastEnd ≤ now.toNat := by
    rw [Observed.lastEnd]
    cases hl : (observe s.marks).records.getLast? with
    | none => exact Nat.zero_le _
    | some r => exact hends r (List.mem_of_getLast? hl)
  refine ⟨starts_append h nofun, ?_, Or.inl ⟨now, event, now, ?_⟩⟩
  · dsimp only
    rw [observe_append_singleton]
    exact h.apart
  · dsimp only
    rw [observe_append_singleton]
    exact ⟨h', UInt64.le_refl _, rfl, rfl, (Nat.max_eq_right hlast).symm, hends, rfl⟩

/-- A record. The event stays or is the one that the record leads to. -/
theorem WatchRun.Tiled.close (h : s.Tiled) (hclock : s.clock ≤ now) {event' : UInt32}
    {evt : TraceEvent} {m : WatchMark} (hm : m.record = some evt)
    (hentered : ((observe s.marks).mark m).entered = some event')
    (hentry : OpenSince s.entry event since) (hevt : Closes evt event since now)
    (h' : OpenSince entry' event' now) :
    WatchRun.Tiled { entry := entry', clock := now, marks := s.marks ++ [m] } := by
  rcases h.stands with ⟨seed, event₀, since₀, hopen⟩ | ⟨hidle, -⟩
  swap
  · exact absurd hidle hentry.not_idle
  obtain ⟨rfl, rfl⟩ := hentry.unique hopen.opened
  have hsince : since.toNat ≤ now.toNat :=
    (UInt64.le_iff_toNat_le.1 hopen.le_clock).trans (UInt64.le_iff_toNat_le.1 hclock)
  have hspan : evt.span = ⟨since.toNat, now.toNat⟩ := hevt.span (UInt64.le_iff_toNat_le.2 hsince)
  have hts : evt.ts = now.toNat := congrArg Span.stop hspan
  have hrecords : ((observe s.marks).mark m).records = (observe s.marks).records ++ [evt] := by
    cases m with
    | transition evt' => exact congrArg (_ ++ [·]) (Option.some.inj hm)
    | exit evt' => exact congrArg (_ ++ [·]) (Option.some.inj hm)
    | seeded => cases hm
    | accum => cases hm
  have hsinceRecords : ((observe s.marks).mark m).since = (observe s.marks).since ++ [evt] ∧
      ((observe s.marks).mark m).seed = (observe s.marks).seed := by
    cases m with
    | transition evt' => exact ⟨congrArg (_ ++ [·]) (Option.some.inj hm), rfl⟩
    | exit evt' => exact ⟨congrArg (_ ++ [·]) (Option.some.inj hm), rfl⟩
    | seeded => cases hm
    | accum => cases hm
  have hseed : seed.toNat ≤ since.toNat := hopen.tiles.le
  refine ⟨starts_append h fun evt' hevt' => ?_, ?_, Or.inl ⟨seed, event', now, ?_⟩⟩
  · obtain rfl := Option.some.inj (hm.symm.trans hevt')
    exact ⟨seed, hopen.seeded, by rw [hspan, ← hopen.start], by rw [hopen.enters, hevt.oldEvent]⟩
  · dsimp only
    rw [observe_append_singleton, hrecords]
    refine List.pairwise_append.2 ⟨h.apart, List.pairwise_singleton _ _, fun a ha b hb => ?_⟩
    rw [List.mem_singleton.1 hb, hspan]
    exact hopen.ends a ha
  · dsimp only
    rw [observe_append_singleton]
    refine ⟨h', UInt64.le_refl _, hsinceRecords.2.trans hopen.seeded, hentered, ?_, ?_, ?_⟩
    · rw [Observed.lastEnd, hrecords, List.getLast?_concat, Option.map_some, Option.getD_some, hts]
      omega
    · intro r hr
      rw [hrecords] at hr
      rcases List.mem_append.1 hr with hr | hr
      · exact (hopen.ends r hr).trans hsince
      · rw [List.mem_singleton.1 hr, hts]
    · rw [hsinceRecords.1, List.map_append, List.map_singleton, hspan]
      exact hopen.tiles.snoc hsince

/-- **A move keeps the invariant.** -/
theorem WatchRun.Tiled.move (h : s.Tiled) (hclock : s.clock ≤ now) {marks : List WatchMark}
    (hmove : IntervalMove s.entry entry' now marks) :
    WatchRun.Tiled { entry := entry', clock := now, marks := s.marks ++ marks } := by
  cases hmove with
  | keep hkeep =>
    rw [List.append_nil]
    refine ⟨h.starts, h.apart, ?_⟩
    rcases h.stands with ⟨seed, event, since, hopen⟩ | ⟨hidle, hnil⟩
    · exact Or.inl ⟨seed, event, since, hopen.opened.congr hkeep,
        UInt64.le_trans hopen.le_clock hclock, hopen.seeded, hopen.enters, hopen.start, hopen.ends,
        hopen.tiles⟩
    · refine Or.inr ⟨fun st hst => ?_, hnil⟩
      obtain ⟨st', hst', heq⟩ :=
        Option.map_eq_some_iff.1 (hkeep.symm.trans (congrArg (Option.map _) hst))
      exact (congrArg Prod.fst heq).symm.trans (hidle st' hst')
  | seed event h' => exact h.seed hclock h'
  | transition event since evt hentry hevt h' => exact h.close hclock rfl rfl hentry hevt h'
  | exit event since evt hentry hevt h' =>
    rcases h.stands with ⟨seed, event₀, since₀, hopen⟩ | ⟨hidle, -⟩
    · obtain ⟨rfl, -⟩ := hentry.unique hopen.opened
      exact h.close hclock rfl hopen.enters hentry hevt h'
    · exact absurd hidle hentry.not_idle

end Move

/-! ### Runs -/

section Runs

variable {cfg : CaptureConfig} {pid : UInt32}

theorem WatchRun.Tiled.start {clock : UInt64} (hidle : ∀ st ∈ entry, st.wpLive = 0) :
    WatchRun.Tiled { entry, clock } := by
  refine ⟨fun pre m post heq => ?_, List.Pairwise.nil, Or.inr ⟨hidle, rfl⟩⟩
  exact absurd (congrArg List.length heq) (by simp)

theorem tiled_watchRun (hfull : cfg.lightweightMode = false) (hopen : cfg.admissionOpen = true)
    {clock : UInt64} (hidle : ∀ st ∈ entry, st.wpLive = 0) {ops : List WatchStep}
    (hclock : Run.Allowed (watchStep cfg pid) WatchStep.NotBack { entry, clock } ops) :
    (watchRun cfg pid entry clock ops).Tiled :=
  hclock.invariant (fun _ op h hback => h.move (UInt64.le_trans hback.1 hback.2)
    (intervalMove_apply hfull hopen op)) ops _ (.start hidle)

theorem tiles_reportedStretch {o : Observed} {clock seed : UInt64}
    (h : o.Open entry clock seed event since) (hmarker : isMarker event = false) {now : UInt64}
    (hnow : clock ≤ now) (attr : OpenStretchAttr) :
    Spans.Tiles seed.toNat now.toNat
      ((o.since ++ (reportedStretch cfg pid entry now attr).toList).map TraceEvent.span) := by
  obtain ⟨st, rfl, hlive, rfl, rfl⟩ := h.opened.live
  have hle : st.lastTs ≤ now := UInt64.le_trans h.le_clock hnow
  rw [reportedStretch]
  by_cases hlt : now ≤ st.lastTs
  · have hgate : openStretchGate st now = .skipNotOpen := by
      rw [openStretchGate, if_neg hlive, if_pos hlt]
    have hnone : (some st).filter (fun st => openStretchGate st now = .built) = none := by
      simp [hgate]
    rw [hnone, UInt64.le_antisymm hlt hle]
    simpa using h.tiles
  · have hgate : openStretchGate st now = .built := by
      rw [openStretchGate, if_neg hlive, if_neg hlt, if_neg (by simp [hmarker])]
    have hsome : (some st).filter (fun st => openStretchGate st now = .built) = some st := by
      simp [hgate]
    have hspan : (buildOpenStretch pid st now cfg.cpuAccounting attr).span =
        ⟨st.lastTs.toNat, now.toNat⟩ :=
      (show Closes _ st.lastEvent st.lastTs now from ⟨rfl, rfl, rfl⟩).span hle
    rw [hsome, Option.map_some, Option.toList_some, List.map_append, List.map_singleton, hspan]
    exact h.tiles.snoc (UInt64.le_iff_toNat_le.1 hle)

theorem reportedStretch_marker (h : OpenSince entry event since) (hmarker : isMarker event = true)
    (now : UInt64) (attr : OpenStretchAttr) : reportedStretch cfg pid entry now attr = none := by
  obtain ⟨st, rfl, hlive, rfl, rfl⟩ := h.live
  have hgate : openStretchGate st now ≠ .built := by
    rw [openStretchGate, if_neg hlive, if_pos hmarker]
    split_ifs <;> decide
  simp [reportedStretch, hgate]

/-- **Captured intervals tile the observed time.** The intervals of the records are in emission order
and apart from each other; each starts at the later of the end of the record before and the last
seed, under the event entered there; and at every instant the records since the last seed and the
reported open stretch are a partition of the time since the seed, unless the event entered last is
a marker, for which none is reported. -/
theorem captured_tile (hfull : cfg.lightweightMode = false) (hopen : cfg.admissionOpen = true)
    {entry : Option PidState} {clock : UInt64} (hidle : ∀ st ∈ entry, st.wpLive = 0)
    {ops : List WatchStep}
    (hclock : Run.Allowed (watchStep cfg pid) WatchStep.NotBack { entry, clock } ops) :
    let s := watchRun cfg pid entry clock ops
    let o := observe s.marks
    (o.records.Pairwise fun a b => a.span.stop ≤ b.span.start) ∧
      (∀ pre m post, s.marks = pre ++ m :: post → ∀ evt ∈ m.record,
        (observe pre).StartsRecord evt) ∧
      ∀ seed, o.seed = some seed → ∀ now, s.clock ≤ now → ∀ attr,
        let spans :=
          (o.since ++ (reportedStretch cfg pid s.entry now attr).toList).map TraceEvent.span
        (o.entered.any isMarker = false →
          Spans.cover spans = Set.Ico seed.toNat now.toNat ∧
            spans.Pairwise fun a b => a.stop ≤ b.start) ∧
          (o.entered.any isMarker = true → reportedStretch cfg pid s.entry now attr = none) := by
  intro s o
  have h : s.Tiled := tiled_watchRun hfull hopen hidle hclock
  refine ⟨h.apart, h.starts, fun seed hseed now hnow attr => ?_⟩
  rcases h.stands with ⟨seed', event, since, hstands⟩ | ⟨-, hnil⟩
  swap
  · rw [show o = observe s.marks from rfl, hnil] at hseed
    cases hseed
  obtain rfl : seed' = seed := Option.some.inj (hstands.seeded.symm.trans hseed)
  have hentered : o.entered.any isMarker = isMarker event := by
    rw [show o.entered = some event from hstands.enters]
    rfl
  rw [hentered]
  refine ⟨fun hmarker => ?_, fun hmarker => ?_⟩
  · have htiles : Spans.Tiles seed'.toNat now.toNat
        ((o.since ++ (reportedStretch cfg pid s.entry now attr).toList).map TraceEvent.span) :=
      tiles_reportedStretch hstands hmarker hnow attr
    exact ⟨htiles.cover_eq, htiles.pairwise⟩
  · exact reportedStretch_marker hstands.opened hmarker now attr

/-- Full trace mode with CPU accounting. -/
def fullTrace : CaptureConfig := ⟨false, true, true, true⟩

/-- A backend that is seeded on CPU, waits for its client and exits. -/
theorem captured_tile_exit :
    let s := watchRun fullTrace 7 none 0
      [.preseed 10 ⟨some 0, true⟩, .watchpoint 15 0x06000000 ⟨1, 1, 0⟩, .exit 19 ⟨1, 0, 0⟩]
    Spans.cover (((observe s.marks).since ++
      (reportedStretch fullTrace 7 s.entry 21 ⟨1, 0, 0⟩).toList).map TraceEvent.span) =
      Set.Ico 10 21 :=
  ((captured_tile rfl rfl (by simp) (by simp [Run.Allowed, WatchStep.NotBack, watchStep,
    WatchStep.begins, WatchStep.ends])).2.2 10 rfl 21 (by decide) ⟨1, 0, 0⟩).1 rfl |>.1

/-- The open stretch of a write of a marker is not reported. -/
theorem captured_marker_not_tile :
    ∃ ops : List WatchStep,
      Run.Allowed (watchStep fullTrace 7) WatchStep.NotBack { entry := none, clock := 0 } ops ∧
      let s := watchRun fullTrace 7 none 0 ops
      (observe s.marks).seed = some 10 ∧ s.clock ≤ 21 ∧
        Spans.cover (((observe s.marks).since ++
          (reportedStretch fullTrace 7 s.entry 21 ⟨1, 0, 0⟩).toList).map TraceEvent.span) ≠
          Set.Ico 10 21 := by
  refine ⟨[.preseed 10 ⟨some 0, true⟩, .watchpoint 15 0xFFFFFFF0 ⟨1, 1, 0⟩], ?_, rfl, by decide, ?_⟩
  · simp [Run.Allowed, WatchStep.NotBack, watchStep, WatchStep.begins, WatchStep.ends]
  · intro heq
    obtain ⟨a, ha, -, hstop⟩ := (Set.ext_iff.1 heq 18).2 ⟨by decide, by decide⟩
    obtain rfl : a = ⟨10, 15⟩ := List.mem_singleton.1 ha
    exact absurd hstop (by decide)

end Runs

end PgWaitTracer
