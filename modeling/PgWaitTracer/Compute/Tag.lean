import PgWaitTracer.Trace.Event
import PgWaitTracer.Lib.Keyed

/-!
# The tagging pass

`pgwt_tag_events_window_seeded` (`src/compute.c`) annotates a merged, time-ordered array before any
raw computation reads it. A forward pass sweeps the plan, execution and command markers of every
process, stamps the records inside those windows, and relabels an on-CPU record of a client backend
that lies mostly outside a command (`PGWT_WEI_NONCMD_CPU`). It also remembers for every record the
last query id its command had reported by then. A backward pass then gives a record without a query
id the first id its command reports later, else the remembered one, else the unattributed flag.

The table of per-process states is a total function with the zeroed state as its default, as the
table of the source creates a zeroed entry on first use; allocation is taken to succeed. Times keep
their 64-bit arithmetic.

## Main results

* `map_tagEventsWindowSeeded`: the labels are those of the forward pass.
* `TagPidState.inCmd_iff`: the majority rule, without wraparound.
* `tagForwardStep_exact`: the forward pass on an exact record.
-/

namespace PgWaitTracer

/-! ### Categories -/

/-- The category of a process (`struct pgwt_pid_cat`). -/
inductive PidCategory
  | foreground | ioWorker | maint | background
  deriving DecidableEq, Repr, Inhabited

/-- The flag of a category; a client backend has none. -/
def PidCategory.flag : PidCategory → UInt32
  | .foreground => 0
  | .ioWorker => flagIoWorker
  | .maint => flagMaint
  | .background => flagBackground

/-! ### The forward pass -/

/-- `struct tag_pid_state`, without the category, which is fixed for a process, and without the
carry of the backward pass. -/
structure TagPidState where
  planOpen : Bool := false
  execOpen : Bool := false
  cmdOpen : Bool := false
  seenCmd : Bool := false
  cmdAnchor : UInt64 := 0
  bankedNs : UInt64 := 0
  cmdQid : UInt64 := 0
  deriving DecidableEq, Repr

/-- `pgwt_qid_marker_step`: `CMD_START` forgets the id, escalation markers pack a reason, and any
other marker that carries an id reports it. -/
def qidMarkerStep (marker : UInt32) (queryId cmdQid : UInt64) : UInt64 :=
  if marker = markerCmdStart then 0
  else if marker ≠ markerEscalateStart ∧ marker ≠ markerEscalateEnd ∧ queryId ≠ 0 then queryId
  else cmdQid

namespace TagPidState

/-- `CMD_START`: a second start leaves the run that is open. -/
def cmdStart (st : TagPidState) (ts : UInt64) : TagPidState :=
  if st.cmdOpen then { st with seenCmd := true }
  else { st with seenCmd := true, cmdOpen := true, cmdAnchor := ts }

/-- `CMD_END`: banks the open run, and closes plan and execution windows too. -/
def cmdEnd (st : TagPidState) (ts : UInt64) : TagPidState :=
  let st := if st.cmdOpen then
    { st with bankedNs := st.bankedNs + (ts - st.cmdAnchor), cmdOpen := false } else st
  { st with seenCmd := true, planOpen := false, execOpen := false }

/-- The `switch` over the markers. -/
def window (st : TagPidState) (marker : UInt32) (ts : UInt64) : TagPidState :=
  if marker = markerPlanStart then { st with planOpen := true }
  else if marker = markerPlanEnd then { st with planOpen := false }
  else if marker = markerExecStart then { st with execOpen := true }
  else if marker = markerExecEnd then { st with execOpen := false }
  else if marker = markerCmdStart then st.cmdStart ts
  else if marker = markerCmdEnd then st.cmdEnd ts
  else st

/-- A marker. -/
def marker (st : TagPidState) (ev : TraceEvent) : TagPidState :=
  { st with cmdQid := qidMarkerStep ev.oldEvent ev.queryId st.cmdQid }.window ev.oldEvent
    ev.timestampNs

/-- The id of the command after a record: an idle sample and an exit forget it, a record that
carries one reports it. -/
def recordQid (st : TagPidState) (ev : TraceEvent) : UInt64 :=
  if ev.newEvent = eventExit then 0
  else if ev.isSample ∧
      isSessionIdleEvent (if ev.newEvent ≠ 0 then ev.newEvent else ev.oldEvent) then 0
  else if ev.queryId ≠ 0 then ev.queryId
  else st.cmdQid

/-- The command-open time of `[t0, t1)`: the banked closed runs and the open run, clipped. -/
def openNs (st : TagPidState) (t0 t1 : UInt64) : UInt64 :=
  let a := if st.cmdAnchor > t0 then st.cmdAnchor else t0
  if st.cmdOpen ∧ t1 > a then st.bankedNs + (t1 - a) else st.bankedNs

/-- The sweep after an exact record that closes at `t1`. -/
def advance (st : TagPidState) (t1 : UInt64) : TagPidState :=
  { st with bankedNs := 0, cmdAnchor := if st.cmdOpen then t1 else st.cmdAnchor }

end TagPidState

/-- The start of the interval of a record, with the wraparound of the source. -/
def TraceEvent.t0 (ev : TraceEvent) : UInt64 := ev.timestampNs - ev.durationNs

/-- The right end that the majority rule judges: a record that is right-open is judged on the part
inside the window. -/
def effT1 (toNs : UInt64) (ev : TraceEvent) : UInt64 :=
  if toNs ≠ 0 ∧ ev.flags &&& flagRightOpen ≠ 0 ∧ ev.timestampNs > toNs ∧ toNs > ev.t0 then toNs
  else ev.timestampNs

/-- The majority rule: is the record at least half inside a command. -/
def TagPidState.inCmd (st : TagPidState) (toNs : UInt64) (ev : TraceEvent) : Bool :=
  let t1 := effT1 toNs ev
  let effDur := if t1 > ev.t0 then t1 - ev.t0 else 0
  let openNs := st.openNs ev.t0 t1
  let openNs := if openNs > effDur then effDur else openNs
  if effDur = 0 then st.cmdOpen else openNs * 2 ≥ effDur

/-- Set the bits of `f` when `b` holds. -/
def TraceEvent.orFlags (ev : TraceEvent) (b : Bool) (f : UInt32) : TraceEvent :=
  if b then { ev with flags := ev.flags ||| f } else ev

/-- The decision table: an on-CPU record of a client backend outside a command is idle. -/
def relabel (cat : PidCategory) (inCmd : Bool) (oldEvent : UInt32) : UInt32 :=
  if oldEvent = 0 ∧ cat.flag = 0 ∧ inCmd = false then weiNoncmdCpu else oldEvent

/-- The part of the forward pass for an exact record of a process that has command markers. -/
def tagGated (cat : PidCategory) (toNs : UInt64) (st : TagPidState) (ev : TraceEvent) :
    TraceEvent :=
  let inCmd := st.inCmd toNs ev
  let ev := ev.orFlags inCmd flagCmdOpen
  { ev with oldEvent := relabel cat inCmd ev.oldEvent }

/-- The forward pass on a record that is no marker. -/
def tagRecord (cat : PidCategory) (toNs : UInt64) (st : TagPidState) (ev : TraceEvent) :
    TagPidState × TraceEvent :=
  let ev := ev.orFlags true cat.flag
  let st' := { st with cmdQid := st.recordQid ev }
  if ev.isSample then
    (st', ev.orFlags (cat.flag = 0 ∧ ev.queryId ≠ 0) flagExec)
  else
    let ev := (ev.orFlags st.planOpen flagPlan).orFlags st.execOpen flagExec
    if st.seenCmd then (st'.advance ev.timestampNs, tagGated cat toNs st ev) else (st', ev)

/-- The forward pass, one event: the tagged event and `fwd`, the id its command had reported by
then. Markers are left alone and have no `fwd`. -/
def tagForwardStep (cat : UInt32 → PidCategory) (toNs : UInt64) (st : TagPidState)
    (ev : TraceEvent) : TagPidState × (TraceEvent × UInt64) :=
  if isMarker ev.oldEvent then (st.marker ev, (ev, 0))
  else
    let r := tagRecord (cat ev.pid) toNs st ev
    (r.1, (r.2, st.cmdQid))

/-! ### The backward pass -/

/-- The carried id over a marker: `CMD_START` ends the command, a marker that carries an id reports
it, `CMD_END` without one ends the search. -/
def nextQidMarker (marker : UInt32) (queryId next : UInt64) : UInt64 :=
  if marker = markerEscalateStart ∨ marker = markerEscalateEnd then next
  else if marker = markerCmdStart then 0
  else if queryId ≠ 0 then queryId
  else if marker = markerCmdEnd then 0
  else next

/-- The event a record is judged by. -/
def TraceEvent.we (ev : TraceEvent) : UInt32 :=
  if ev.isSample ∧ ev.newEvent ≠ 0 then ev.newEvent else ev.oldEvent

/-- The id a client record without one takes: the one carried back, else the one of its command. -/
def resolveQid (next cmdQid : UInt64) : UInt64 := if next ≠ 0 then next else cmdQid

/-- A client record without an id; the unattributed flag if there is none to take. -/
def attributeRecord (next fwd : UInt64) (ev : TraceEvent) : TraceEvent :=
  let q := resolveQid next fwd
  if q ≠ 0 then { ev with queryId := q, flags := ev.flags ||| flagQueryBackfill }
  else { ev with flags := ev.flags ||| flagQueryUnattrib }

/-- The backward pass on a record that is no marker. -/
def backfillRecord (mask : UInt32) (cat : PidCategory) (next : UInt64) (ev : TraceEvent)
    (fwd : UInt64) : UInt64 × TraceEvent :=
  let next := if ev.newEvent = eventExit then 0 else next
  if ev.queryId ≠ 0 then (ev.queryId, ev)
  else if isSessionIdleEvent ev.we then (0, ev)
  else if cat.flag &&& flagIoWorker ≠ 0 then (next, ev)
  else if cat.flag &&& (flagBackground ||| flagMaint) ≠ 0 then
    (next, ev.orFlags (!isIdleEvent mask ev.we) flagQueryUnattrib)
  else if cat.flag ≠ 0 then (next, ev)
  else (next, attributeRecord next fwd ev)

/-- The backward pass, one event. -/
def tagBackwardStep (mask : UInt32) (cat : UInt32 → PidCategory) (next : UInt64)
    (r : TraceEvent × UInt64) : UInt64 × TraceEvent :=
  if isMarker r.1.oldEvent then (nextQidMarker r.1.oldEvent r.1.queryId next, r.1)
  else backfillRecord mask (cat r.1.pid) next r.1 r.2

/-! ### The pass -/

/-- `struct pgwt_qid_seed`. -/
structure QidSeed where
  pid : UInt32
  queryId : UInt64
  deriving DecidableEq, Repr

/-- Install one seed; a zero seed is no seed. -/
def installSeed (tbl : UInt32 → TagPidState) (s : QidSeed) : UInt32 → TagPidState :=
  if s.queryId = 0 then tbl
  else Function.update tbl s.pid { tbl s.pid with cmdQid := s.queryId }

/-- The per-process table with the seeds installed. -/
def seedTable (seeds : List QidSeed) : UInt32 → TagPidState :=
  seeds.foldl installSeed fun _ => {}

/-- The forward pass from a table of states. -/
def tagForward (cat : UInt32 → PidCategory) (toNs : UInt64) (tbl : UInt32 → TagPidState)
    (events : List TraceEvent) : List (TraceEvent × UInt64) :=
  Keyed.pass TraceEvent.pid (tagForwardStep cat toNs) tbl events

/-- The backward pass: the carried ids at the front of the array, and the array. -/
def tagBackward (mask : UInt32) (cat : UInt32 → PidCategory)
    (tagged : List (TraceEvent × UInt64)) : (UInt32 → UInt64) × List TraceEvent :=
  Keyed.passBack (fun r => r.1.pid) (tagBackwardStep mask cat) (fun _ => 0) tagged

/-- `pgwt_tag_events_window_seeded`. -/
def tagEventsWindowSeeded (mask : UInt32) (cat : UInt32 → PidCategory) (toNs : UInt64)
    (seeds : List QidSeed) (events : List TraceEvent) : List TraceEvent :=
  (tagBackward mask cat (tagForward cat toNs (seedTable seeds) events)).2

/-- `pgwt_tag_events`: no right edge and no seeds. -/
def tagEvents (mask : UInt32) (cat : UInt32 → PidCategory) (events : List TraceEvent) :
    List TraceEvent :=
  tagEventsWindowSeeded mask cat 0 [] events

@[simp] theorem resolveQid_zero (k : UInt64) : resolveQid 0 k = k := by simp [resolveQid]

theorem resolveQid_of_ne {n : UInt64} (h : n ≠ 0) (k : UInt64) : resolveQid n k = n := by
  simp [resolveQid, h]

/-! ### What the passes leave alone -/

@[simp] theorem oldEvent_orFlags (ev : TraceEvent) (b : Bool) (f : UInt32) :
    (ev.orFlags b f).oldEvent = ev.oldEvent := by
  cases b <;> rfl

theorem oldEvent_tagBackwardStep (mask : UInt32) (cat : UInt32 → PidCategory) (next : UInt64)
    (r : TraceEvent × UInt64) : (tagBackwardStep mask cat next r).2.oldEvent = r.1.oldEvent := by
  unfold tagBackwardStep backfillRecord attributeRecord
  extract_lets
  split_ifs <;> simp

theorem pid_tagBackwardStep (mask : UInt32) (cat : UInt32 → PidCategory) (next : UInt64)
    (r : TraceEvent × UInt64) : (tagBackwardStep mask cat next r).2.pid = r.1.pid := by
  have h : ∀ (b : Bool) (f : UInt32), (r.1.orFlags b f).pid = r.1.pid := by
    rintro (_ | _) f <;> rfl
  unfold tagBackwardStep backfillRecord attributeRecord
  extract_lets
  split_ifs <;> simp [h]

theorem map_tagEventsWindowSeeded {γ : Type*} (f : UInt32 → γ) (mask : UInt32)
    (cat : UInt32 → PidCategory) (toNs : UInt64) (seeds : List QidSeed)
    (events : List TraceEvent) :
    (tagEventsWindowSeeded mask cat toNs seeds events).map (fun ev => f ev.oldEvent) =
      (tagForward cat toNs (seedTable seeds) events).map fun r => f r.1.oldEvent := by
  rw [tagEventsWindowSeeded, tagBackward]
  exact Keyed.map_passBack (f := fun ev : TraceEvent => f ev.oldEvent)
    (g := fun r : TraceEvent × UInt64 => f r.1.oldEvent)
    (fun s r => congrArg f (oldEvent_tagBackwardStep mask cat s r)) _

/-! ### Exact records -/

namespace TraceEvent

@[simp] theorem timestampNs_orFlags (ev : TraceEvent) (b : Bool) (f : UInt32) :
    (ev.orFlags b f).timestampNs = ev.timestampNs := by
  cases b <;> rfl

@[simp] theorem durationNs_orFlags (ev : TraceEvent) (b : Bool) (f : UInt32) :
    (ev.orFlags b f).durationNs = ev.durationNs := by
  cases b <;> rfl

@[simp] theorem pid_orFlags (ev : TraceEvent) (b : Bool) (f : UInt32) :
    (ev.orFlags b f).pid = ev.pid := by
  cases b <;> rfl

@[simp] theorem newEvent_orFlags (ev : TraceEvent) (b : Bool) (f : UInt32) :
    (ev.orFlags b f).newEvent = ev.newEvent := by
  cases b <;> rfl

@[simp] theorem queryId_orFlags (ev : TraceEvent) (b : Bool) (f : UInt32) :
    (ev.orFlags b f).queryId = ev.queryId := by
  cases b <;> rfl

theorem flags_orFlags_and (ev : TraceEvent) (b : Bool) {f m : UInt32} (h : f &&& m = 0) :
    (ev.orFlags b f).flags &&& m = ev.flags &&& m := by
  cases b
  · rfl
  · simp [orFlags, UInt32.or_and_distrib, h]

theorem isSample_orFlags (ev : TraceEvent) (b : Bool) {f : UInt32} (h : f &&& flagSample = 0) :
    (ev.orFlags b f).isSample = ev.isSample := by
  rw [isSample, isSample, flags_orFlags_and ev b h]

end TraceEvent

theorem flags_or_unattrib_ne_zero (f : UInt32) :
    (f ||| flagQueryUnattrib) &&& flagQueryUnattrib ≠ 0 := by
  intro h
  have := congrArg UInt32.toNat h
  rw [UInt32.or_and_distrib] at this
  simp only [UInt32.toNat_or, UInt32.toNat_and] at this
  have hz := (Nat.or_eq_zero_iff.mp this).2
  exact absurd hz (by decide)

theorem PidCategory.flag_and (cat : PidCategory) {m : UInt32}
    (h : m = flagSample ∨ m = flagQueryUnattrib) : cat.flag &&& m = 0 := by
  rcases h with rfl | rfl <;> cases cat <;> rfl

variable {t : TagPidState} {ev : TraceEvent}

theorem TagPidState.inCmd_congr (ev : TraceEvent) {ev' : TraceEvent}
    (h : ev'.timestampNs = ev.timestampNs) (h' : ev'.durationNs = ev.durationNs) :
    t.inCmd 0 ev' = t.inCmd 0 ev := by
  simp [TagPidState.inCmd, effT1, TraceEvent.t0, h, h']

theorem toNat_wall (h : ev.dur ≤ ev.ts) :
    (if ev.timestampNs > ev.t0 then ev.timestampNs - ev.t0 else 0).toNat = ev.dur := by
  rw [TraceEvent.dur, TraceEvent.ts] at h
  have ht0 : ev.t0.toNat = ev.timestampNs.toNat - ev.durationNs.toNat :=
    UInt64.toNat_sub_of_le _ _ (UInt64.le_iff_toNat_le.mpr h)
  split_ifs with hlt
  · rw [UInt64.toNat_sub_of_le _ _ (UInt64.le_of_lt hlt), ht0, TraceEvent.dur]
    omega
  · have hle := UInt64.le_iff_toNat_le.mp (UInt64.not_lt.mp hlt)
    rw [TraceEvent.dur, UInt64.toNat_zero]
    omega

/-- **The majority rule of the tagging pass.** Capping the command-open time at the duration keeps
the doubling exact: a record is inside a command when it spends at least half of its time there, and
a record of no length when the command is open. -/
theorem TagPidState.inCmd_iff (h : ev.dur ≤ ev.ts) (hlt : ev.dur < 2 ^ 63) :
    t.inCmd 0 ev = true ↔ if ev.dur = 0 then t.cmdOpen = true
      else ev.dur ≤ 2 * (t.openNs ev.t0 ev.timestampNs).toNat := by
  have heff : effT1 0 ev = ev.timestampNs := by simp [effT1]
  have hw := toNat_wall h
  unfold TagPidState.inCmd
  rw [heff]
  extract_lets t1 effDur openNs openNs'
  have hdur : effDur.toNat = ev.dur := hw
  have hzero : effDur = 0 ↔ ev.dur = 0 := by
    rw [← hdur, ← UInt64.toNat_inj, UInt64.toNat_zero]
  by_cases h0 : ev.dur = 0
  · rw [if_pos (hzero.mpr h0), if_pos h0]
  · rw [if_neg (mt hzero.mp h0), if_neg h0, decide_eq_true_eq, ge_iff_le, UInt64.le_iff_toNat_le,
      UInt64.toNat_mul, hdur]
    change _ ≤ openNs'.toNat * 2 % 2 ^ 64 ↔ _
    have hcap : openNs'.toNat = min openNs.toNat ev.dur := by
      rw [← hdur]
      simp only [openNs']
      split_ifs with hgt
      · exact (min_eq_right (UInt64.le_iff_toNat_le.mp (UInt64.le_of_lt hgt))).symm
      · exact (min_eq_left (UInt64.le_iff_toNat_le.mp (UInt64.not_lt.mp hgt))).symm
    rw [Nat.mod_eq_of_lt (by omega), hcap]
    change _ ↔ _ ≤ 2 * openNs.toNat
    omega

/-- The state of a process after an exact record. -/
def TagPidState.afterExact (t : TagPidState) (ev : TraceEvent) : TagPidState :=
  let t' := { t with cmdQid := t.recordQid ev }
  if t.seenCmd then t'.advance ev.timestampNs else t'

/-- The event an exact record leaves the forward pass with. -/
def TagPidState.exactEvent (t : TagPidState) (cat : PidCategory) (ev : TraceEvent) : UInt32 :=
  if t.seenCmd then relabel cat (t.inCmd 0 ev) ev.oldEvent else ev.oldEvent

@[simp] theorem PidCategory.flag_eq_zero {cat : PidCategory} :
    cat.flag = 0 ↔ cat = .foreground := by
  cases cat <;> decide

theorem isMarker_relabel {cat : PidCategory} {b : Bool} {e : UInt32} (h : isMarker e = false) :
    isMarker (relabel cat b e) = false := by
  unfold relabel
  split_ifs
  · rfl
  · exact h

theorem TagPidState.isMarker_exactEvent {cat : PidCategory} (h : isMarker ev.oldEvent = false) :
    isMarker (t.exactEvent cat ev) = false := by
  unfold TagPidState.exactEvent
  split_ifs
  · exact isMarker_relabel h
  · exact h

/-- The markers of the command gate. -/
def isCmdMarker (e : UInt32) : Bool := e = markerCmdStart || e = markerCmdEnd

theorem isMarker_of_isCmdMarker {e : UInt32} (h : isCmdMarker e = true) : isMarker e = true := by
  rw [isCmdMarker, Bool.or_eq_true, decide_eq_true_eq, decide_eq_true_eq] at h
  rcases h with rfl | rfl <;> rfl

theorem TagPidState.marker_of_not_cmd (h : isCmdMarker ev.oldEvent = false) :
    (t.marker ev).seenCmd = t.seenCmd ∧ (t.marker ev).cmdOpen = t.cmdOpen ∧
      (t.marker ev).cmdAnchor = t.cmdAnchor ∧ (t.marker ev).bankedNs = t.bankedNs := by
  rw [isCmdMarker, Bool.or_eq_false_iff, decide_eq_false_iff_not, decide_eq_false_iff_not] at h
  unfold TagPidState.marker TagPidState.window
  split_ifs <;> first | exact ⟨rfl, rfl, rfl, rfl⟩ | exact absurd (by assumption) h.1 |
    exact absurd (by assumption) h.2

theorem TagPidState.marker_cmdStart (h : ev.oldEvent = markerCmdStart) :
    (t.marker ev).seenCmd = true ∧ (t.marker ev).cmdOpen = true ∧
      (t.marker ev).cmdAnchor = (if t.cmdOpen then t.cmdAnchor else ev.timestampNs) ∧
      (t.marker ev).bankedNs = t.bankedNs := by
  cases ho : t.cmdOpen <;>
    simp [TagPidState.marker, TagPidState.window, TagPidState.cmdStart, h, ho, markerPlanStart,
      markerPlanEnd, markerExecStart, markerExecEnd, markerCmdStart]

theorem TagPidState.marker_cmdEnd (h : ev.oldEvent = markerCmdEnd) :
    (t.marker ev).seenCmd = true ∧ (t.marker ev).cmdOpen = false ∧
      (t.marker ev).bankedNs =
        if t.cmdOpen then t.bankedNs + (ev.timestampNs - t.cmdAnchor) else t.bankedNs := by
  cases ho : t.cmdOpen <;>
    simp [TagPidState.marker, TagPidState.window, TagPidState.cmdEnd, h, ho, markerPlanStart,
      markerPlanEnd, markerExecStart, markerExecEnd, markerCmdStart, markerCmdEnd]

theorem TagPidState.afterExact_sweep (t : TagPidState) (ev : TraceEvent) :
    (t.afterExact ev).seenCmd = t.seenCmd ∧ (t.afterExact ev).cmdOpen = t.cmdOpen ∧
      (t.afterExact ev).cmdAnchor =
        (if t.seenCmd ∧ t.cmdOpen then ev.timestampNs else t.cmdAnchor) ∧
      (t.afterExact ev).bankedNs = if t.seenCmd then 0 else t.bankedNs := by
  cases hs : t.seenCmd <;> cases ho : t.cmdOpen <;>
    simp [TagPidState.afterExact, TagPidState.advance, hs, ho]

theorem TagPidState.cmdQid_window (t : TagPidState) (m : UInt32) (ts : UInt64) :
    (t.window m ts).cmdQid = t.cmdQid := by
  have hstart : (t.cmdStart ts).cmdQid = t.cmdQid := by
    rw [TagPidState.cmdStart]
    split_ifs <;> rfl
  have hend : (t.cmdEnd ts).cmdQid = t.cmdQid := by
    cases h : t.cmdOpen <;> simp [TagPidState.cmdEnd, h]
  unfold TagPidState.window
  split_ifs <;> first | exact hstart | exact hend | rfl

theorem TagPidState.cmdQid_marker (t : TagPidState) (ev : TraceEvent) :
    (t.marker ev).cmdQid = qidMarkerStep ev.oldEvent ev.queryId t.cmdQid := by
  rw [TagPidState.marker, TagPidState.cmdQid_window]

theorem TagPidState.cmdQid_afterExact (t : TagPidState) (ev : TraceEvent) :
    (t.afterExact ev).cmdQid = t.recordQid ev := by
  unfold TagPidState.afterExact TagPidState.advance
  extract_lets t'
  split_ifs <;> rfl

section Exact

variable {cat : UInt32 → PidCategory} {t : TagPidState} {ev : TraceEvent}

theorem tagForwardStep_marker (hm : isMarker ev.oldEvent = true) :
    tagForwardStep cat 0 t ev = (t.marker ev, (ev, 0)) := by
  rw [tagForwardStep, if_pos hm]

/-- The forward pass on an exact record. -/
theorem tagForwardStep_exact (cat : UInt32 → PidCategory) (t : TagPidState)
    (hm : isMarker ev.oldEvent = false) (hs : ev.isSample = false) :
    ∃ ev', tagForwardStep cat 0 t ev = (t.afterExact ev, (ev', t.cmdQid)) ∧
      ev'.oldEvent = t.exactEvent (cat ev.pid) ev ∧ ev'.pid = ev.pid ∧
      ev'.newEvent = ev.newEvent ∧ ev'.queryId = ev.queryId ∧ ev'.isSample = false ∧
      ev'.flags &&& flagQueryUnattrib = ev.flags &&& flagQueryUnattrib := by
  have hcat : (ev.orFlags true (cat ev.pid).flag).isSample = false := by
    rw [TraceEvent.isSample_orFlags ev true (PidCategory.flag_and _ (Or.inl rfl)), hs]
  have hq : t.recordQid (ev.orFlags true (cat ev.pid).flag) = t.recordQid ev := by
    simp [TagPidState.recordQid, hcat, hs]
  have hflags : ∀ {m}, m = flagSample ∨ m = flagQueryUnattrib →
      (tagForwardStep cat 0 t ev).2.1.flags &&& m = ev.flags &&& m := by
    intro m h
    have hc : (cat ev.pid).flag &&& m = 0 := PidCategory.flag_and _ h
    have hp : flagPlan &&& m = 0 := by rcases h with rfl | rfl <;> rfl
    have hx : flagExec &&& m = 0 := by rcases h with rfl | rfl <;> rfl
    have ho : flagCmdOpen &&& m = 0 := by rcases h with rfl | rfl <;> rfl
    simp only [tagForwardStep, hm, Bool.false_eq_true, if_false, tagRecord, hcat]
    split_ifs
    · simp only [tagGated, TraceEvent.flags_orFlags_and _ _ ho, TraceEvent.flags_orFlags_and _ _ hx,
        TraceEvent.flags_orFlags_and _ _ hp, TraceEvent.flags_orFlags_and _ _ hc]
    · simp only [TraceEvent.flags_orFlags_and _ _ hx, TraceEvent.flags_orFlags_and _ _ hp,
        TraceEvent.flags_orFlags_and _ _ hc]
  refine ⟨(tagForwardStep cat 0 t ev).2.1, ?_, ?_, ?_, ?_, ?_, ?_, ?_⟩
  case refine_6 => rw [TraceEvent.isSample, hflags (Or.inl rfl), ← TraceEvent.isSample, hs]
  case refine_7 => exact hflags (Or.inr rfl)
  all_goals simp only [tagForwardStep, hm, Bool.false_eq_true, if_false, tagRecord, hcat, hq]
  · rw [TagPidState.afterExact]
    split_ifs <;> simp
  · rw [TagPidState.exactEvent]
    split_ifs
    · simp only [tagGated, oldEvent_orFlags]
      rw [TagPidState.inCmd_congr ev (by simp) (by simp)]
    · simp
  · split_ifs <;> simp [tagGated]
  · split_ifs <;> simp [tagGated]
  · split_ifs <;> simp [tagGated]

end Exact

/-- A marker of process 7. -/
def markerAt (m : UInt32) (ts : UInt64) (queryId : UInt64) : TraceEvent :=
  ⟨ts, 7, m, 0, 0, 0, queryId, 0⟩

/-- A record of process 7. -/
def recordAt (e : UInt32) (ts dur : UInt64) (queryId : UInt64) : TraceEvent :=
  ⟨ts, 7, e, 0, 0, dur, queryId, cpuNsUnknown⟩

end PgWaitTracer
