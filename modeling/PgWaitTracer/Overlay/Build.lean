import Mathlib.Order.CompletePartialOrder
import Mathlib.Order.Interval.Set.Disjoint
import PgWaitTracer.Compute.TimeModel
import PgWaitTracer.Lib.LinearProbe

/-!
# The overlay of open intervals

A wait that is still running has no record. The server asks the daemon for the open intervals and
`pgwt_overlay_build` (`src/open_overlay.c`) turns the answer into spans on the wall clock, clipped to
the window and to the time of the snapshot. An interval that a record in the window already closes is
dropped: the high-water mark of the process, over the records that the window admitted, is past its
start.

Times on the monotonic clock are numbers of ns, offsets are integers; sums of the two do not leave
64 bits. The allocations of the table and of the spans may fail.

## Main results

* `hwFind_of_mem` : the mark of a process covers all its records.
* `overlayBuild_spans` : an overlay that is included never counts time twice.
-/

namespace PgWaitTracer

open LinearProbe

/-! ### Answers and requests -/

/-- `enum pgwt_overlay_status`. -/
inductive OverlayStatus
  | included | unavailable | refused
  deriving DecidableEq, Repr

/-- `struct pgwt_open_interval`: one open interval as the daemon reports it. -/
structure ReportedInterval where
  pid : UInt32
  incarnation : UInt64
  generation : UInt64
  eventId : UInt32
  catFlag : UInt32
  categoryId : UInt32
  category : String
  openStartNs : UInt64
  cpuNsTotal : UInt64
  onCpuTs : UInt64
  lastCpuNs : UInt64
  cpuNs : UInt64
  cmdBankedNs : UInt64
  cmdAnchorNs : UInt64
  queryId : UInt64
  queryQuality : UInt16
  cmdOpen : Bool
  cmdSweepOpen : Bool
  cmdSeen : Bool
  cmdGatePresent : Bool
  cmdInWindow : Bool
  inCommand : Bool
  deriving DecidableEq, Repr, Inhabited

/-- `struct pgwt_open_snapshot` of the server. -/
structure OpenSnapshot where
  status : OverlayStatus
  reason : String
  snapshotNs : UInt64
  snapshotWallNs : UInt64
  nowMonoNs : UInt64
  nowWallNs : UInt64
  anchorOffsetNs : ℤ
  committedThroughNs : UInt64
  committedThroughWallNs : UInt64
  daemonGeneration : UInt64
  cpuAccounting : Bool
  items : List ReportedInterval
  deriving DecidableEq, Repr

/-- `struct pgwt_overlay_span`. -/
structure OverlaySpan where
  pid : UInt32
  incarnation : UInt64
  eventId : UInt32
  catFlag : UInt32
  categoryId : UInt32
  category : String
  queryId : UInt64
  queryQuality : UInt16
  inCommand : Bool
  fromWallNs : ℕ
  toWallNs : ℕ
  wallNs : ℕ
  cpuNs : ℕ
  stretchFromWallNs : ℕ
  stretchToWallNs : ℕ
  deriving DecidableEq, Repr

/-- `enum pgwt_overlay_route`. -/
inductive OverlayRoute
  | raw | summary
  deriving DecidableEq, Repr

/-- `enum pgwt_overlay_tier`. -/
inductive OverlayTier
  | exact | sampled | lightweight
  deriving DecidableEq, Repr

/-- `struct pgwt_overlay_request`. -/
structure OverlayRequest where
  fromWallNs : ℕ
  toWallNs : ℕ
  route : OverlayRoute
  tier : OverlayTier
  expectGeneration : UInt64
  filtersActive : Bool
  accept : Option (OverlaySpan → Bool)

/-- `struct pgwt_overlay_records`: the admitted records and the wall time of each. -/
structure OverlayRecords where
  events : List TraceEvent
  wallOf : TraceEvent → ℕ

/-- `struct pgwt_overlay`. -/
structure Overlay where
  status : OverlayStatus
  reason : String
  snapshotWallNs : ℕ := 0
  committedThroughWallNs : ℕ := 0
  daemonGeneration : UInt64 := 0
  spans : List OverlaySpan := []
  deriving DecidableEq, Repr

/-- `pgwt_overlay_refuse`. -/
def Overlay.refuse (ov : Overlay) (reason : String) : Overlay :=
  { ov with status := .refused, reason := reason, spans := [] }

/-- `pgwt_overlay_unavailable`. -/
def Overlay.unavailable (ov : Overlay) (reason : String) : Overlay :=
  { ov with status := .unavailable, reason := reason, spans := [] }

/-- `pgwt_overlay_wanted`: why there is no overlay, if there is a reason. -/
def overlayUnwanted : Option OverlayRequest → Option String
  | none => some "no request"
  | some req =>
    if req.route = .summary then
      some "summary route already credits open waits per sealed second"
    else if req.tier = .sampled then some "sampled tier has no watchpoint intervals"
    else if req.tier = .lightweight then some "lightweight tier has no watchpoint intervals"
    else if req.toWallNs ≤ req.fromWallNs then some "empty window"
    else none

/-- `mono_to_wall`. -/
def monoToWall (mono : UInt64) (offset : ℤ) : Option ℕ :=
  if mono.toNat + offset ≤ 0 then none else some (mono.toNat + offset).toNat

/-! ### High-water marks -/

/-- `struct hw_slot`. -/
structure HwSlot where
  pid : UInt32 := 0
  used : Bool := false
  maxWallNs : ℕ := 0
  seen : Bool := false
  deriving DecidableEq, Repr

/-- A slot that no process has. -/
def HwSlot.vacant (s : HwSlot) : Bool := !s.used

/-- The doubling loop of `hw_init`. -/
def hwWant (goal : ℕ) : ℕ → ℕ → ℕ
  | 0, want => want
  | fuel + 1, want => if want < goal then hwWant goal fuel (want * 2) else want

/-- `hw_init`: a table without rows for `n` processes. -/
def hwInit (n : ℕ) : List HwSlot := .replicate (hwWant (n * 4 + 16) (n * 4 + 16) 16) {}

/-- The hash of a pid, in 64 bits. -/
def hwHash (pid : UInt32) : ℕ := pid.toNat * 2654435761 % 2 ^ 64

/-- Where `hw_find` ends: at the slot of the pid, or at the first that is not used. -/
def hwProbe (t : List HwSlot) (pid : UInt32) : Option ℕ :=
  probe (stops HwSlot.pid HwSlot.vacant pid) t (hwHash pid)

/-- `hw_find` without insertion. -/
def hwFind (t : List HwSlot) (pid : UInt32) : Option HwSlot :=
  (hwProbe t pid).bind fun j => t[j]?.filter (·.used)

/-- `hw_find` with insertion. -/
def hwInsert (t : List HwSlot) (pid : UInt32) : List HwSlot :=
  match hwProbe t pid with
  | some j => if t[j]?.any (·.used) then t else t.set j { pid := pid, used := true }
  | none => t

/-- The record closes an interval: it is no marker and no sample. -/
def closesInterval (ev : TraceEvent) : Bool :=
  !(isMarker ev.newEvent || isMarker ev.oldEvent) && !ev.isSample

/-- One record of the pass over the admitted array. -/
def hwNote (wallOf : TraceEvent → ℕ) (t : List HwSlot) (ev : TraceEvent) : List HwSlot :=
  match hwProbe t ev.pid with
  | some j =>
    match t[j]? with
    | some s =>
      if s.used && closesInterval ev then
        t.set j { s with seen := true, maxWallNs := max s.maxWallNs (wallOf ev) }
      else t
    | none => t
  | none => t

/-- The table after the insertion of the open pids and the pass over the records. -/
def hwTable (items : List ReportedInterval) (rec : OverlayRecords) : List HwSlot :=
  rec.events.foldl (hwNote rec.wallOf)
    (items.foldl (fun t it => hwInsert t it.pid) (hwInit items.length))

/-! ### Spans -/

/-- `prorate`. -/
def prorate (value num den : ℕ) : ℕ :=
  if den = 0 ∨ den ≤ num then value else value * num / den

/-- What becomes of an interval. -/
inductive SpanOutcome
  | none
  | refuse (reason : String)
  | span (sp : OverlaySpan)
  deriving DecidableEq, Repr

/-- The span of an interval over `[start, stop)`. -/
def ReportedInterval.toSpan (it : ReportedInterval) (start stop stretchFrom stretchTo : ℕ) :
    OverlaySpan where
  pid := it.pid
  incarnation := it.incarnation
  eventId := it.eventId
  catFlag := it.catFlag
  categoryId := it.categoryId
  category := it.category
  queryId := it.queryId
  queryQuality := it.queryQuality
  inCommand := it.inCommand
  fromWallNs := start
  toWallNs := stop
  wallNs := stop - start
  cpuNs :=
    if it.cpuNs = cpuNsUnknown then cpuNsUnknown.toNat
    else min (prorate it.cpuNs.toNat (stop - start) (stretchTo - stretchFrom)) (stop - start)
  stretchFromWallNs := stretchFrom
  stretchToWallNs := stretchTo

/-- One interval of the span loop, up to the check against the spans before it. -/
def overlaySpan (snap : OpenSnapshot) (req : OverlayRequest) (hw : List HwSlot)
    (snapshotWall : ℕ) (it : ReportedInterval) : SpanOutcome :=
  if it.catFlag &&& flagIoWorker ≠ 0 then .none
  else
    match monoToWall it.openStartNs snap.anchorOffsetNs with
    | none => .none
    | some sFrom =>
      if snapshotWall ≤ sFrom then .none
      else
        let start := max sFrom req.fromWallNs
        let stop := min req.toWallNs snapshotWall
        if stop ≤ start then .none
        else if (hwFind hw it.pid).any fun s => s.seen && sFrom < s.maxWallNs then .none
        else if snap.committedThroughNs < it.openStartNs then
          .refuse "closed-record prefix is not published through the open interval start"
        else
          let sp := it.toSpan start stop sFrom snapshotWall
          if req.accept.any fun accept => !accept sp then .none else .span sp

/-- Two spans of one process overlap. -/
def OverlaySpan.clashes (a b : OverlaySpan) : Bool :=
  a.pid = b.pid && a.fromWallNs < b.toWallNs && b.fromWallNs < a.toWallNs

/-- The span loop. -/
def overlaySpans (one : ReportedInterval → SpanOutcome) (spans : List OverlaySpan) :
    List ReportedInterval → Except String (List OverlaySpan)
  | [] => .ok spans
  | it :: items =>
    match one it with
    | .none => overlaySpans one spans items
    | .refuse reason => .error reason
    | .span sp =>
      if spans.any (·.clashes sp) then
        .error "daemon reported overlapping open intervals for one pid"
      else overlaySpans one (spans ++ [sp]) items

/-- `pgwt_overlay_build` from the clocks on. -/
def overlayBuildFrom (allocFails : Bool) (snap : OpenSnapshot) (req : OverlayRequest)
    (rec : OverlayRecords) (ov : Overlay) (snapshotWall : ℕ) : Overlay :=
  if snapshotWall ≤ req.fromWallNs then
    ov.unavailable "the daemon snapshot predates the window (stale snapshot or clock skew)"
  else if snap.items = [] then { ov with status := .included, reason := "", spans := [] }
  else if allocFails then ov.unavailable "out of memory"
  else
    match overlaySpans (overlaySpan snap req (hwTable snap.items rec) snapshotWall) [] snap.items with
    | .error reason => ov.unavailable reason
    | .ok spans => { ov with status := .included, reason := "", spans := spans }

/-- `pgwt_overlay_build`. -/
def overlayBuild (allocFails : Bool) (snap : Option OpenSnapshot) (req : Option OverlayRequest)
    (rec : Option OverlayRecords) : Overlay :=
  let ov : Overlay := { status := .unavailable, reason := "overlay not requested" }
  match overlayUnwanted req, req, snap with
  | some why, _, _ => ov.refuse why
  | none, none, _ => ov.refuse "no request"
  | none, some _, none => ov.unavailable "no daemon snapshot"
  | none, some req, some snap =>
    if snap.status = .refused then ov.refuse snap.reason
    else if snap.status = .unavailable then
      ov.unavailable (if snap.reason = "" then "daemon snapshot unusable" else snap.reason)
    else if req.filtersActive && req.accept.isNone then
      ov.unavailable "the request is filtered but no span filter was supplied"
    else
      match rec with
      | none => ov.unavailable "admitted record view missing"
      | some rec =>
        if req.expectGeneration ≠ 0 ∧ req.expectGeneration ≠ snap.daemonGeneration then
          ov.unavailable "daemon generation changed since the trace was opened (restart)"
        else
          match monoToWall snap.snapshotNs snap.anchorOffsetNs,
              monoToWall snap.committedThroughNs snap.anchorOffsetNs with
          | some snapshotWall, some committedWall =>
            overlayBuildFrom allocFails snap req rec
              { ov with
                snapshotWallNs := snapshotWall
                committedThroughWallNs := committedWall
                daemonGeneration := snap.daemonGeneration } snapshotWall
          | _, _ => ov.unavailable "daemon clock anchor is inconsistent"

/-! ### The table covers the records -/

/-- The process has a slot. -/
def HasPid (t : List HwSlot) (pid : UInt32) : Prop := ∃ s ∈ occupied HwSlot.vacant t, s.pid = pid

/-- The mark of the process is `w` or later. -/
def Marked (t : List HwSlot) (pid : UInt32) (w : ℕ) : Prop :=
  ∃ s ∈ occupied HwSlot.vacant t, s.pid = pid ∧ s.seen = true ∧ w ≤ s.maxWallNs

theorem le_hwWant {goal fuel want : ℕ} (hpos : 0 < want) (h : goal ≤ want + fuel) :
    goal ≤ hwWant goal fuel want := by
  induction fuel generalizing want with
  | zero => simpa [hwWant] using h
  | succ fuel ih =>
    rw [hwWant]
    split_ifs with hlt
    · exact ih (by omega) (by omega)
    · exact Nat.not_lt.1 hlt

theorem length_hwInit (n : ℕ) : n < (hwInit n).length := by
  rw [hwInit, List.length_replicate]
  have := @le_hwWant (n * 4 + 16) (n * 4 + 16) 16 (by decide) (by omega)
  omega

variable {t : List HwSlot}

theorem hwFind_of_mem_occupied (h : Probed HwSlot.pid HwSlot.vacant hwHash t) {s : HwSlot}
    (hs : s ∈ occupied HwSlot.vacant t) : hwFind t s.pid = some s := by
  obtain ⟨hmem, hocc⟩ := List.mem_filter.1 hs
  obtain ⟨j, hj⟩ := List.mem_iff_getElem?.1 hmem
  have hused : s.used = true := by simpa [HwSlot.vacant] using hocc
  have hprobe := h j s hj (by simp [HwSlot.vacant, hused])
  rw [hwFind, hwProbe, hprobe, Option.bind_some, hj, Option.filter_some, hused, if_pos rfl]

theorem hwInsert_spec (h : Probed HwSlot.pid HwSlot.vacant hwHash t)
    (hfree : (occupied HwSlot.vacant t).length < t.length) (pid : UInt32) :
    Probed HwSlot.pid HwSlot.vacant hwHash (hwInsert t pid) ∧
      (hwInsert t pid).length = t.length ∧
      (occupied HwSlot.vacant (hwInsert t pid)).length ≤ (occupied HwSlot.vacant t).length + 1 ∧
      HasPid (hwInsert t pid) pid ∧ ∀ p, HasPid t p → HasPid (hwInsert t pid) p := by
  obtain ⟨i, r, hi, hvac⟩ := exists_vacant hfree
  obtain ⟨j, hprobe⟩ := exists_probe (stops HwSlot.pid HwSlot.vacant pid) (hwHash pid) hi
    (by simp [stops, hvac])
  obtain ⟨s, hj, hstop⟩ := exists_of_probe hprobe
  simp only [hwInsert, hwProbe, hprobe, hj, Option.any_some]
  cases hused : s.used with
  | true =>
    have hkey : s.pid = pid := by simpa [stops, HwSlot.vacant, hused] using hstop
    have hmem : s ∈ occupied HwSlot.vacant t :=
      List.mem_filter.2 ⟨List.mem_of_getElem? hj, by simp [HwSlot.vacant, hused]⟩
    rw [if_pos rfl]
    exact ⟨h, rfl, Nat.le_succ _, ⟨s, hmem, hkey⟩, fun p hp => hp⟩
  | false =>
    have hocc : HwSlot.vacant { pid := pid, used := true } = false := rfl
    have hperm := perm_occupied_set (r := { pid := pid, used := true }) hj
      (by simp [HwSlot.vacant, hused]) hocc
    rw [if_neg Bool.false_ne_true]
    refine ⟨h.set hprobe rfl hocc, List.length_set, hperm.length_eq.le, ?_, ?_⟩
    · exact ⟨_, hperm.mem_iff.2 List.mem_cons_self, rfl⟩
    · rintro p ⟨s', hs', hp⟩
      exact ⟨s', hperm.mem_iff.2 (List.mem_cons_of_mem _ hs'), hp⟩

theorem foldl_hwInsert_spec (items : List ReportedInterval)
    (h : Probed HwSlot.pid HwSlot.vacant hwHash t)
    (hfree : (occupied HwSlot.vacant t).length + items.length < t.length + 1) :
    Probed HwSlot.pid HwSlot.vacant hwHash (items.foldl (fun t it => hwInsert t it.pid) t) ∧
      ∀ p, HasPid t p ∨ (∃ it ∈ items, it.pid = p) →
        HasPid (items.foldl (fun t it => hwInsert t it.pid) t) p := by
  induction items generalizing t with
  | nil => exact ⟨h, fun p hp => hp.resolve_right (by simp)⟩
  | cons it items ih =>
    rw [List.length_cons] at hfree
    obtain ⟨hprobed, hlen, hocc, hnew, hold⟩ := hwInsert_spec h (by omega) it.pid
    obtain ⟨hfold, hhas⟩ := ih hprobed (by omega)
    refine ⟨hfold, fun p hp => hhas p ?_⟩
    rcases hp with hp | ⟨it', hit', rfl⟩
    · exact .inl (hold p hp)
    · rcases List.mem_cons.1 hit' with rfl | hit'
      · exact .inl hnew
      · exact .inr ⟨it', hit', rfl⟩

/-- One record: the slots stay, the marks only rise, and the mark of its process covers it. -/
theorem hwNote_spec (wallOf : TraceEvent → ℕ) (h : Probed HwSlot.pid HwSlot.vacant hwHash t)
    (ev : TraceEvent) :
    Probed HwSlot.pid HwSlot.vacant hwHash (hwNote wallOf t ev) ∧
      (∀ p, HasPid t p → HasPid (hwNote wallOf t ev) p) ∧
      (∀ p w, Marked t p w → Marked (hwNote wallOf t ev) p w) ∧
      (HasPid t ev.pid → closesInterval ev = true →
        Marked (hwNote wallOf t ev) ev.pid (wallOf ev)) := by
  have hsame : (∀ p, HasPid t p → HasPid t p) ∧ ∀ p w, Marked t p w → Marked t p w :=
    ⟨fun _ hp => hp, fun _ _ hm => hm⟩
  rw [hwNote]
  cases hprobe : hwProbe t ev.pid with
  | none =>
    refine ⟨h, hsame.1, hsame.2, ?_⟩
    rintro ⟨s, hs, hpid⟩
    have hfind := hwFind_of_mem_occupied h hs
    rw [hpid, hwFind, hprobe] at hfind
    exact absurd hfind nofun
  | some j =>
    obtain ⟨s, hj, hstop⟩ := exists_of_probe hprobe
    simp only [hj]
    -- the slot of the process, if it has one
    have hslot : ∀ s' ∈ occupied HwSlot.vacant t, s'.pid = ev.pid → s' = s ∧ s.used = true := by
      intro s' hs' hpid
      have hfind := hwFind_of_mem_occupied h hs'
      rw [hpid, hwFind, hprobe, Option.bind_some, hj, Option.filter_some] at hfind
      split_ifs at hfind with hused
      exact ⟨(Option.some.inj hfind).symm, hused⟩
    by_cases hgo : (s.used && closesInterval ev) = true
    · rw [if_pos hgo]
      rw [Bool.and_eq_true] at hgo
      have hkey : s.pid = ev.pid := by simpa [stops, HwSlot.vacant, hgo.1] using hstop
      set s' : HwSlot := { s with seen := true, maxWallNs := max s.maxWallNs (wallOf ev) } with hs'
      have hocc' : HwSlot.vacant s' = false := by simp [HwSlot.vacant, hs', hgo.1]
      have hmem' : s' ∈ occupied HwSlot.vacant (t.set j s') :=
        self_mem_occupied_set (List.getElem?_eq_some_iff.1 hj).1 hocc'
      refine ⟨h.set hprobe hkey hocc', ?_, ?_, fun _ _ => ⟨s', hmem', hkey, rfl, le_max_right _ _⟩⟩
      · rintro p ⟨r, hr, rfl⟩
        rcases mem_occupied_set_or hr j s' with hr | hr
        · exact ⟨r, hr, rfl⟩
        · obtain rfl : s = r := Option.some.inj (hj.symm.trans hr)
          exact ⟨s', hmem', rfl⟩
      · rintro p w ⟨r, hr, rfl, hseen, hw⟩
        rcases mem_occupied_set_or hr j s' with hr | hr
        · exact ⟨r, hr, rfl, hseen, hw⟩
        · obtain rfl : s = r := Option.some.inj (hj.symm.trans hr)
          exact ⟨s', hmem', rfl, rfl, hw.trans (le_max_left _ _)⟩
    · rw [if_neg hgo]
      refine ⟨h, hsame.1, hsame.2, ?_⟩
      rintro ⟨s', hs', hpid⟩ hcloses
      obtain ⟨-, hused⟩ := hslot s' hs' hpid
      exact absurd (by rw [hused, hcloses]; rfl) hgo

theorem foldl_hwNote_spec (wallOf : TraceEvent → ℕ) (events : List TraceEvent)
    (h : Probed HwSlot.pid HwSlot.vacant hwHash t) :
    Probed HwSlot.pid HwSlot.vacant hwHash (events.foldl (hwNote wallOf) t) ∧
      (∀ p w, Marked t p w → Marked (events.foldl (hwNote wallOf) t) p w) ∧
      ∀ ev ∈ events, HasPid t ev.pid → closesInterval ev = true →
        Marked (events.foldl (hwNote wallOf) t) ev.pid (wallOf ev) := by
  induction events generalizing t with
  | nil => exact ⟨h, fun _ _ hm => hm, nofun⟩
  | cons ev events ih =>
    obtain ⟨hprobed, hhas, hmarked, hself⟩ := hwNote_spec wallOf h ev
    obtain ⟨hfold, hkeep, hrest⟩ := ih hprobed
    refine ⟨hfold, fun p w hm => hkeep p w (hmarked p w hm), fun ev' hev' hp hc => ?_⟩
    rcases List.mem_cons.1 hev' with rfl | hev'
    · exact hkeep _ _ (hself hp hc)
    · exact hrest ev' hev' (hhas _ hp) hc

/-- **The mark of a process with an open interval covers all its records.** -/
theorem hwFind_of_mem {items : List ReportedInterval} {rec : OverlayRecords}
    {it : ReportedInterval} (hit : it ∈ items) {ev : TraceEvent} (hev : ev ∈ rec.events)
    (hpid : ev.pid = it.pid) (hcloses : closesInterval ev = true) :
    ∃ s, hwFind (hwTable items rec) it.pid = some s ∧ s.seen = true ∧
      rec.wallOf ev ≤ s.maxWallNs := by
  have hempty : Probed HwSlot.pid HwSlot.vacant hwHash (hwInit items.length) :=
    probed_replicate rfl _
  have hzero : occupied HwSlot.vacant (hwInit items.length) = [] := occupied_replicate rfl _
  have hlen := length_hwInit items.length
  obtain ⟨hprobed, hhas⟩ := foldl_hwInsert_spec items hempty (by rw [hzero, List.length_nil]; omega)
  obtain ⟨hfold, -, hmark⟩ := foldl_hwNote_spec rec.wallOf rec.events hprobed
  obtain ⟨s, hs, hspid, hseen, hw⟩ := hmark ev hev (hhas _ (.inr ⟨it, hit, hpid.symm⟩)) hcloses
  refine ⟨s, ?_, hseen, hw⟩
  rw [hwTable, ← hpid, ← hspid]
  exact hwFind_of_mem_occupied hfold hs

/-! ### No time is counted twice -/

theorem overlaySpan_eq_span {snap : OpenSnapshot} {req : OverlayRequest} {hw : List HwSlot}
    {snapshotWall : ℕ} {it : ReportedInterval} {sp : OverlaySpan}
    (h : overlaySpan snap req hw snapshotWall it = .span sp) :
    ∃ sFrom, monoToWall it.openStartNs snap.anchorOffsetNs = some sFrom ∧
      max sFrom req.fromWallNs < min req.toWallNs snapshotWall ∧
      (∀ s, hwFind hw it.pid = some s → s.seen = true → s.maxWallNs ≤ sFrom) ∧
      sp = it.toSpan (max sFrom req.fromWallNs) (min req.toWallNs snapshotWall) sFrom
        snapshotWall := by
  rw [overlaySpan] at h
  by_cases hio : it.catFlag &&& flagIoWorker ≠ 0
  · rw [if_pos hio] at h
    exact absurd h nofun
  rw [if_neg hio] at h
  cases hfrom : monoToWall it.openStartNs snap.anchorOffsetNs with
  | none => simp [hfrom] at h
  | some sFrom =>
    simp only [hfrom] at h
    split_ifs at h with hopen hempty hmark hcommitted haccept
    refine ⟨sFrom, rfl, Nat.not_le.1 hempty, fun s hs hseen => ?_, (SpanOutcome.span.inj h).symm⟩
    rw [hs, Option.any_some, hseen, Bool.true_and, decide_eq_true_eq] at hmark
    exact Nat.not_lt.1 hmark

/-- The loop keeps the spans of the intervals, and none that clashes with one before it. -/
theorem overlaySpans_eq_ok {one : ReportedInterval → SpanOutcome} {items : List ReportedInterval}
    {spans out : List OverlaySpan} (h : overlaySpans one spans items = .ok out)
    (hspans : spans.Pairwise fun a b => a.clashes b = false) :
    (∀ sp ∈ out, sp ∈ spans ∨ ∃ it ∈ items, one it = .span sp) ∧
      out.Pairwise fun a b => a.clashes b = false := by
  induction items generalizing spans with
  | nil =>
    obtain rfl : spans = out := by simpa [overlaySpans] using h
    exact ⟨fun sp hsp => .inl hsp, hspans⟩
  | cons it items ih =>
    rw [overlaySpans] at h
    cases hone : one it with
    | none =>
      simp only [hone] at h
      obtain ⟨hmem, hpair⟩ := ih h hspans
      refine ⟨fun sp hsp => (hmem sp hsp).imp_right ?_, hpair⟩
      rintro ⟨it', hit', hsp'⟩
      exact ⟨it', List.mem_cons_of_mem _ hit', hsp'⟩
    | refuse reason => simp [hone] at h
    | span sp₀ =>
      simp only [hone] at h
      split_ifs at h with hclash
      have hfree : ∀ a ∈ spans, a.clashes sp₀ = false := by
        intro a ha
        by_contra hne
        exact hclash (List.any_eq_true.2 ⟨a, ha, by simpa using hne⟩)
      have hpair₀ : (spans ++ [sp₀]).Pairwise fun a b => a.clashes b = false := by
        rw [List.pairwise_append]
        refine ⟨hspans, List.pairwise_singleton _ _, fun a ha b hb => ?_⟩
        obtain rfl := List.mem_singleton.1 hb
        exact hfree a ha
      obtain ⟨hmem, hpair⟩ := ih h hpair₀
      refine ⟨fun sp hsp => ?_, hpair⟩
      rcases hmem sp hsp with hsp | ⟨it', hit', hsp'⟩
      · rcases List.mem_append.1 hsp with hsp | hsp
        · exact .inl hsp
        · obtain rfl := List.mem_singleton.1 hsp
          exact .inr ⟨it, List.mem_cons_self, hone⟩
      · exact .inr ⟨it', List.mem_cons_of_mem _ hit', hsp'⟩

/-- An overlay that counts no time twice: its spans lie in the window before the snapshot, those of
one process are disjoint from each other and from its records, they have no more processor time than
wall time, and each one is what its interval will show in the window when it closes. -/
structure Overlay.CountsOnce (ov : Overlay) (snap : OpenSnapshot) (req : OverlayRequest)
    (rec : OverlayRecords) : Prop where
  snapshot : monoToWall snap.snapshotNs snap.anchorOffsetNs = some ov.snapshotWallNs
  inside : ∀ sp ∈ ov.spans, req.fromWallNs ≤ sp.fromWallNs ∧ sp.fromWallNs < sp.toWallNs ∧
    sp.toWallNs ≤ min req.toWallNs ov.snapshotWallNs
  disjoint : ov.spans.Pairwise fun a b => a.pid = b.pid →
    Disjoint (Set.Ico a.fromWallNs a.toWallNs) (Set.Ico b.fromWallNs b.toWallNs)
  records : ∀ sp ∈ ov.spans, ∀ ev ∈ rec.events, ev.pid = sp.pid → closesInterval ev = true →
    Disjoint (Set.Ico (rec.wallOf ev - ev.dur) (rec.wallOf ev))
      (Set.Ico sp.fromWallNs sp.toWallNs)
  cpu : ∀ sp ∈ ov.spans, sp.cpuNs = cpuNsUnknown.toNat ∨ sp.cpuNs ≤ sp.wallNs
  closes : ∀ sp ∈ ov.spans, ∃ it ∈ snap.items, sp.pid = it.pid ∧
    monoToWall it.openStartNs snap.anchorOffsetNs = some sp.stretchFromWallNs ∧
    ∀ ev : TraceEvent, ev.dur ≤ ev.ts → ev.ts - ev.dur = sp.stretchFromWallNs →
      ov.snapshotWallNs ≤ ev.ts →
      eventWindowNs ev req.fromWallNs (min req.toWallNs ov.snapshotWallNs) = sp.wallNs

theorem disjoint_of_not_clashes {a b : OverlaySpan} (h : a.clashes b = false)
    (hpid : a.pid = b.pid) :
    Disjoint (Set.Ico a.fromWallNs a.toWallNs) (Set.Ico b.fromWallNs b.toWallNs) := by
  rw [Set.Ico_disjoint_Ico]
  simp only [OverlaySpan.clashes, hpid, decide_true, Bool.true_and, Bool.and_eq_false_iff,
    decide_eq_false_iff_not, Nat.not_lt] at h
  omega

theorem eventWindowNs_closing {ev : TraceEvent} {sFrom fromNs toNs snapshotWall : ℕ}
    (hdur : ev.dur ≤ ev.ts) (hstart : ev.ts - ev.dur = sFrom) (hclose : snapshotWall ≤ ev.ts)
    (hlt : max sFrom fromNs < min toNs snapshotWall) :
    eventWindowNs ev fromNs (min toNs snapshotWall) =
      min toNs snapshotWall - max sFrom fromNs := by
  rw [eventWindowNs, if_neg (Nat.not_lt.2 hdur), hstart]
  have hstop : (if min toNs snapshotWall ≠ 0 ∧ min toNs snapshotWall < ev.ts then
      min toNs snapshotWall else ev.ts) = min toNs snapshotWall := by
    split_ifs with h
    · rfl
    · omega
  have hfrom : (if fromNs ≠ 0 ∧ sFrom < fromNs then fromNs else sFrom) = max sFrom fromNs := by
    split_ifs with h
    · omega
    · omega
  dsimp only
  rw [hstop, hfrom]

theorem overlayBuildFrom_countsOnce {allocFails : Bool} {snap : OpenSnapshot}
    {req : OverlayRequest} {rec : OverlayRecords} {ov : Overlay} {snapshotWall : ℕ}
    (hwall : monoToWall snap.snapshotNs snap.anchorOffsetNs = some snapshotWall)
    (hov : ov.snapshotWallNs = snapshotWall)
    (h : (overlayBuildFrom allocFails snap req rec ov snapshotWall).status = .included) :
    (overlayBuildFrom allocFails snap req rec ov snapshotWall).CountsOnce snap req rec := by
  rw [overlayBuildFrom] at h ⊢
  split_ifs at h ⊢ with hstale hnil halloc
  · exact absurd h (by rintro ⟨⟩)
  · exact ⟨by rw [hwall, ← hov], by rintro _ ⟨⟩, List.Pairwise.nil, by rintro _ ⟨⟩, by rintro _ ⟨⟩, by rintro _ ⟨⟩⟩
  · exact absurd h (by rintro ⟨⟩)
  cases hspans : overlaySpans (overlaySpan snap req (hwTable snap.items rec) snapshotWall) []
      snap.items with
  | error reason => simp [hspans, Overlay.unavailable] at h
  | ok spans =>
    obtain ⟨hmem, hpair⟩ := overlaySpans_eq_ok hspans List.Pairwise.nil
    have hspan : ∀ sp ∈ spans, ∃ it ∈ snap.items,
        overlaySpan snap req (hwTable snap.items rec) snapshotWall it = .span sp := fun sp hsp =>
      (hmem sp hsp).resolve_left List.not_mem_nil
    refine ⟨by rw [hwall, ← hov], fun sp hsp => ?_, hpair.imp disjoint_of_not_clashes,
      fun sp hsp ev hev hpid hcloses => ?_, fun sp hsp => ?_, fun sp hsp => ?_⟩
    all_goals
      obtain ⟨it, hit, hone⟩ := hspan sp hsp
      obtain ⟨sFrom, hfrom, hlt, hmark, rfl⟩ := overlaySpan_eq_span hone
    · rw [hov]
      exact ⟨le_max_right _ _, hlt, le_rfl⟩
    · obtain ⟨s, hs, hseen, hw⟩ := hwFind_of_mem hit hev hpid hcloses
      have := hmark s hs hseen
      rw [Set.Ico_disjoint_Ico]
      simp only [ReportedInterval.toSpan]
      omega
    · simp only [ReportedInterval.toSpan]
      split_ifs
      · exact .inl rfl
      · exact .inr (min_le_right _ _)
    · refine ⟨it, hit, rfl, hfrom, fun ev hdur hstart hclose => ?_⟩
      rw [hov] at hclose ⊢
      exact eventWindowNs_closing hdur hstart hclose hlt

/-- **The overlay never counts time twice.** -/
theorem overlayBuild_spans {allocFails : Bool} {snap : OpenSnapshot} {req : OverlayRequest}
    {rec : OverlayRecords}
    (h : (overlayBuild allocFails (some snap) (some req) (some rec)).status = .included) :
    (overlayBuild allocFails (some snap) (some req) (some rec)).CountsOnce snap req rec := by
  unfold overlayBuild at h ⊢
  cases hwanted : overlayUnwanted (some req) with
  | some why => simp [hwanted, Overlay.refuse] at h
  | none =>
    simp only [hwanted] at h ⊢
    -- all the early ends leave another status
    by_cases h₁ : snap.status = .refused
    · simp [h₁, Overlay.refuse] at h
    by_cases h₂ : snap.status = .unavailable
    · simp [h₂, Overlay.unavailable] at h
    by_cases h₃ : (req.filtersActive && req.accept.isNone) = true
    · simp [h₁, h₂, h₃, Overlay.unavailable] at h
    by_cases h₄ : req.expectGeneration ≠ 0 ∧ req.expectGeneration ≠ snap.daemonGeneration
    · simp [h₁, h₂, h₃, h₄, Overlay.unavailable] at h
    rw [if_neg h₁, if_neg h₂, if_neg h₃, if_neg h₄] at h ⊢
    cases hs : monoToWall snap.snapshotNs snap.anchorOffsetNs with
    | none => simp [hs, Overlay.unavailable] at h
    | some snapshotWall =>
      cases hc : monoToWall snap.committedThroughNs snap.anchorOffsetNs with
      | none => simp [hs, hc, Overlay.unavailable] at h
      | some committedWall =>
        simp only [hs, hc] at h ⊢
        exact overlayBuildFrom_countsOnce hs rfl h

/-- Two processes wait at the time of the snapshot, since 20 and since 30. -/
def twoOpen : OpenSnapshot where
  status := .included
  reason := ""
  snapshotNs := 50
  snapshotWallNs := 1050
  nowMonoNs := 50
  nowWallNs := 1050
  anchorOffsetNs := 1000
  committedThroughNs := 50
  committedThroughWallNs := 1050
  daemonGeneration := 1
  cpuAccounting := false
  items :=
    [{ (default : ReportedInterval) with pid := 7, openStartNs := 20, cpuNs := 12 },
      { (default : ReportedInterval) with pid := 8, openStartNs := 30, cpuNs := cpuNsUnknown }]

/-- A window that ends before the snapshot. -/
def twoOpenWindow : OverlayRequest where
  fromWallNs := 1010
  toWallNs := 1045
  route := .raw
  tier := .exact
  expectGeneration := 1
  filtersActive := false
  accept := none

/-- The first process has a record before its interval, the second one that closes it. -/
def twoOpenRecords : OverlayRecords where
  events :=
    [{ (default : TraceEvent) with timestampNs := 20, durationNs := 5, pid := 7 },
      { (default : TraceEvent) with timestampNs := 42, durationNs := 12, pid := 8 }]
  wallOf ev := ev.ts + 1000

theorem overlayBuild_twoOpen :
    (overlayBuild false (some twoOpen) (some twoOpenWindow) (some twoOpenRecords)).spans.map
        (fun sp => (sp.pid, sp.fromWallNs, sp.toWallNs, sp.cpuNs)) = [(7, 1020, 1045, 10)] ∧
      (overlayBuild false (some twoOpen) (some twoOpenWindow) (some twoOpenRecords)).CountsOnce
        twoOpen twoOpenWindow twoOpenRecords :=
  ⟨by decide +kernel, overlayBuild_spans (by decide +kernel)⟩

end PgWaitTracer
