import PgWaitTracer.Live.GateAgree
import Mathlib.Algebra.BigOperators.Group.Finset.Basic
import Mathlib.Algebra.Order.BigOperators.Group.List
import Mathlib.Algebra.Order.Group.Nat

/-!
# Deferred attribution and the back-fill

The live accumulator cannot look ahead: a client record without a query id waits on its process until
the process reports an id or reaches a command boundary (`src/query_attr.h`). The tagging pass sees
the whole array and fills the id in from behind. What is still waiting when the live accumulator has
seen a prefix is what the backward pass would give the id it carries over the rest of the array, and
the id of the command where it carries none; this is the invariant of the comparison.

## Main results

* `QattrInStep.count_step`: one event moves as many occurrences on both sides.
* `liveFinish_rowCount_eq`: the live rows and the tagged records agree, outside io
  workers.
-/

namespace PgWaitTracer

/-! ### Counting occurrences -/

/-- The occurrences that `rows` holds for a query id and an event. -/
def rowCount (rows : List QueryEventStats) (q : UInt64) (e : UInt32) : ℕ :=
  ((rows.filter fun r => r.queryId = q ∧ r.waitEvent = e).map QueryEventStats.count).sum

@[simp] theorem rowCount_nil (q : UInt64) (e : UInt32) : rowCount [] q e = 0 := rfl

theorem rowCount_append (l l' : List QueryEventStats) (q : UInt64) (e : UInt32) :
    rowCount (l ++ l') q e = rowCount l q e + rowCount l' q e := by
  simp [rowCount]

theorem rowCount_cons (r : QueryEventStats) (l : List QueryEventStats) (q : UInt64) (e : UInt32) :
    rowCount (r :: l) q e = (if r.queryId = q ∧ r.waitEvent = e then r.count else 0) +
      rowCount l q e := by
  by_cases h : r.queryId = q ∧ r.waitEvent = e <;> simp [rowCount, h]

/-- The occurrences of an event that wait on a process. -/
def QattrPid.pendingCount (q : QattrPid) (e : UInt32) : ℕ :=
  ((q.pending.filter fun p => p.we = e).map QattrPending.count).sum

/-- The occurrences of an event that wait on a process, if they go to query id `q`. -/
def QattrPid.owed (qa : QattrPid) (goesTo q : UInt64) (e : UInt32) : ℕ :=
  if goesTo = q then qa.pendingCount e else 0

theorem QattrPid.owed_of_pending_nil {qa : QattrPid} (h : qa.pending = []) (k q : UInt64)
    (e : UInt32) : qa.owed k q e = 0 := by
  simp [QattrPid.owed, QattrPid.pendingCount, h]

theorem rowCount_flush (qa : QattrPid) (k q : UInt64) (e : UInt32) :
    rowCount (qa.pending.map (·.row k)) q e = qa.owed k q e := by
  rw [QattrPid.owed, QattrPid.pendingCount]
  induction qa.pending with
  | nil => simp
  | cons p ps ih =>
    rw [List.map_cons, rowCount_cons, ih]
    by_cases hk : k = q <;> by_cases he : p.we = e <;> simp [QattrPending.row, hk, he]

theorem sum_count_addPending (we : UInt32) (ns : ℕ) (e : UInt32) (ps : List QattrPending) :
    (((QattrPid.addPending we (.one we ns) ps).filter fun p => p.we = e).map
        QattrPending.count).sum =
      ((ps.filter fun p => p.we = e).map QattrPending.count).sum + if we = e then 1 else 0 := by
  induction ps with
  | nil => by_cases h : we = e <;> simp [QattrPid.addPending, QattrPending.fresh,
      QattrPending.add, QattrPending.one, h]
  | cons p ps ih =>
    rw [QattrPid.addPending]
    by_cases hp : p.we = we
    · rw [if_pos hp]
      by_cases h : we = e
      · simp [QattrPending.add, QattrPending.one, hp, h]
        omega
      · simp [QattrPending.add, hp, h]
    · rw [if_neg hp]
      by_cases h : p.we = e
      · simp [h, ih]
        omega
      · simp [h, ih]

/-- The records a tagged array leaves under a query id and an event; under id 0 those that are
flagged as unattributed. -/
def TraceEvent.filedUnder (ev : TraceEvent) (q : UInt64) (e : UInt32) : Bool :=
  !isMarker ev.oldEvent && ev.oldEvent = e &&
    (if q = 0 then ev.queryId = 0 && ev.flags &&& flagQueryUnattrib ≠ 0 else ev.queryId = q)

/-- The tagged records under a query id and an event, outside io workers. -/
def taggedCount (cat : UInt32 → PidCategory) (evs : List TraceEvent) (q : UInt64) (e : UInt32) : ℕ :=
  evs.countP fun ev => ev.filedUnder q e && cat ev.pid ≠ .ioWorker

/-! ### One event of one process -/

namespace QattrPid

variable (qa : QattrPid) (q : UInt64) (e : UInt32)

theorem rowCount_boundary (b : Bool) :
    rowCount (qa.boundary b).2 q e = qa.owed qa.cmdQid q e ∧ (qa.boundary b).1.pending = [] := by
  refine ⟨rowCount_flush qa _ q e, ?_⟩
  cases b <;> rfl

theorem rowCount_observe {k : UInt64} (hk : k ≠ 0) :
    rowCount (qa.observe k).2 q e = qa.owed k q e ∧ (qa.observe k).1.pending = [] := by
  rw [observe, if_neg hk]
  exact ⟨rowCount_flush qa k q e, rfl⟩

theorem count_marker {m : UInt32} (hm : ¬ (m = markerEscalateStart ∨ m = markerEscalateEnd))
    (k n : UInt64) :
    rowCount (qa.marker m k).2 q e +
        (qa.marker m k).1.owed (resolveQid n (qa.marker m k).1.cmdQid) q e =
      qa.owed (resolveQid (nextQidMarker m k n) qa.cmdQid) q e := by
  unfold marker nextQidMarker
  rw [if_neg hm]
  split_ifs with h1 h2 h3
  · obtain ⟨hr, hp⟩ := qa.rowCount_boundary q e true
    rw [hr, owed_of_pending_nil hp, resolveQid_zero, Nat.add_zero]
  · obtain ⟨hr, hp⟩ := qa.rowCount_observe q e h2
    rw [hr, owed_of_pending_nil hp, resolveQid_of_ne h2, Nat.add_zero]
  · obtain ⟨hr, hp⟩ := qa.rowCount_boundary q e false
    rw [hr, owed_of_pending_nil hp, resolveQid_zero, Nat.add_zero]
  · rw [rowCount_nil, Nat.zero_add]

theorem defer_of_not_spilled (we : UInt32) (ns : ℕ) (h : (qa.defer we ns).2.2 = false) :
    qa.defer we ns = ({ qa with pending := addPending we (.one we ns) qa.pending }, [], false) := by
  rw [defer, deferStats] at h ⊢
  split_ifs at h ⊢ with hfull
  rfl

theorem owed_addPending (we : UInt32) (ns : ℕ) (k : UInt64) :
    { qa with pending := addPending we (.one we ns) qa.pending }.owed k q e =
      qa.owed k q e + if k = q ∧ we = e then 1 else 0 := by
  rw [owed, owed, pendingCount, pendingCount, sum_count_addPending]
  by_cases hk : k = q <;> simp [hk]

/-- What the callback does after a record that closes an exiting process. -/
def exitStep (isExit : Bool) : QattrPid × List QueryEventStats :=
  if isExit then qa.boundary true else (qa, [])

/-- What is filed and what still waits after a record, when an exit may follow. -/
def total (rows : List QueryEventStats) (isExit : Bool) (n : UInt64) : ℕ :=
  rowCount (rows ++ (qa.exitStep isExit).2) q e +
    (qa.exitStep isExit).1.owed (resolveQid n (qa.exitStep isExit).1.cmdQid) q e

theorem total_of_pending_nil (rows : List QueryEventStats) (b : Bool) (n : UInt64)
    (h : qa.pending = []) : qa.total q e rows b n = rowCount rows q e := by
  rw [total, rowCount_append]
  cases b
  · rw [exitStep, if_neg (by decide), rowCount_nil, owed_of_pending_nil h]
    rfl
  · obtain ⟨hr, hp⟩ := qa.rowCount_boundary q e true
    rw [exitStep, if_pos rfl, hr, owed_of_pending_nil h, owed_of_pending_nil hp]
    rfl

theorem total_nil (b : Bool) (n : UInt64) :
    qa.total q e [] b n = qa.owed (resolveQid (if b then 0 else n) qa.cmdQid) q e := by
  rw [total, rowCount_append, rowCount_nil, Nat.zero_add]
  cases b
  · rw [exitStep, if_neg (by decide), rowCount_nil, Nat.zero_add]
    rfl
  · obtain ⟨hr, hp⟩ := qa.rowCount_boundary q e true
    rw [exitStep, if_pos rfl, hr, owed_of_pending_nil hp, if_pos rfl, resolveQid_zero]
    rfl

end QattrPid

section Filed

variable {ev : TraceEvent} {q : UInt64} {e : UInt32}

theorem filedUnder_of_queryId (hm : isMarker ev.oldEvent = false) (hq : ev.queryId ≠ 0) :
    ev.filedUnder q e = decide (ev.queryId = q ∧ ev.oldEvent = e) := by
  rw [TraceEvent.filedUnder, hm]
  by_cases h0 : q = 0
  · simp [h0, hq]
  · simp [h0, and_comm]

theorem filedUnder_of_unattrib (hm : isMarker ev.oldEvent = false) (hq : ev.queryId = 0)
    (hu : ev.flags &&& flagQueryUnattrib ≠ 0) :
    ev.filedUnder q e = decide (0 = q ∧ ev.oldEvent = e) := by
  rw [TraceEvent.filedUnder, hm]
  by_cases h0 : q = 0
  · simp [h0, hq, hu]
  · simp [h0, hq, Ne.symm h0]

theorem filedUnder_of_neither (hq : ev.queryId = 0) (hu : ev.flags &&& flagQueryUnattrib = 0) :
    ev.filedUnder q e = false := by
  rw [TraceEvent.filedUnder]
  by_cases h0 : q = 0
  · simp [h0, hu]
  · simp [h0, hq, Ne.symm h0]

theorem filedUnder_attributeRecord (hm : isMarker ev.oldEvent = false) (hq : ev.queryId = 0)
    (n fwd : UInt64) :
    (attributeRecord n fwd ev).filedUnder q e =
      decide (resolveQid n fwd = q ∧ ev.oldEvent = e) := by
  have hdef : attributeRecord n fwd ev = if resolveQid n fwd ≠ 0 then
      { ev with queryId := resolveQid n fwd, flags := ev.flags ||| flagQueryBackfill }
      else { ev with flags := ev.flags ||| flagQueryUnattrib } := rfl
  by_cases h0 : resolveQid n fwd = 0
  · rw [hdef, if_neg (not_not.mpr h0), h0]
    exact filedUnder_of_unattrib hm hq (flags_or_unattrib_ne_zero _)
  · rw [hdef, if_pos h0]
    exact filedUnder_of_queryId hm h0

end Filed

namespace QattrPid

variable {qa : QattrPid} {mask : UInt32} {cat : PidCategory} {ev : TraceEvent} {ns : ℕ}

/-- **One record.** What a record files at once, and what waits after it, is what waited before it
and the record itself. The id of the command at the record is the one the forward pass remembers. -/
theorem count_record (qa : QattrPid) (mask : UInt32) (cat : PidCategory) (ns : ℕ)
    (hm : isMarker ev.oldEvent = false) (hs : ev.isSample = false)
    (hu : ev.flags &&& flagQueryUnattrib = 0) (hcat : cat ≠ .ioWorker)
    (hpend : cat ≠ .foreground → qa.pending = [])
    (hspill : (qa.record mask ev.queryId ev.oldEvent ns cat).2.2 = false) (n q : UInt64)
    (e : UInt32) :
    let r := qa.record mask ev.queryId ev.oldEvent ns cat
    let b := backfillRecord mask cat n ev qa.cmdQid
    r.1.total q e r.2.1 (ev.newEvent = eventExit) n =
      qa.owed (resolveQid b.1 qa.cmdQid) q e + if b.2.filedUnder q e then 1 else 0 := by
  intro r b
  have hio : ¬ cat.flag &&& flagIoWorker ≠ 0 := by
    cases cat <;> first | exact absurd rfl hcat | decide
  have hwe : ev.we = ev.oldEvent := by simp [TraceEvent.we, hs]
  by_cases hq : ev.queryId ≠ 0
  · -- the record reports an id, to what waits and for itself
    have hr : r = ((qa.observe ev.queryId).1, (qa.observe ev.queryId).2 ++
        [(QattrPending.one ev.oldEvent ns).row ev.queryId], false) := by
      simp only [r, QattrPid.record, if_neg hio, if_pos hq]
    have hb : b = (ev.queryId, ev) := by simp only [b, backfillRecord, if_pos hq]
    obtain ⟨hrow, hnil⟩ := qa.rowCount_observe q e hq
    rw [hr, hb, total_of_pending_nil _ q e _ _ n hnil, rowCount_append, hrow, rowCount_cons,
      rowCount_nil, resolveQid_of_ne hq, filedUnder_of_queryId hm hq]
    by_cases hqe : ev.queryId = q ∧ ev.oldEvent = e <;>
      simp [QattrPending.row, QattrPending.one, hqe]
  · have hq0 : ev.queryId = 0 := not_not.mp hq
    by_cases hfg : cat = .foreground
    · subst hfg
      have hbg : ¬ PidCategory.foreground.flag &&& (flagBackground ||| flagMaint) ≠ 0 := by decide
      have hz : ¬ PidCategory.foreground.flag ≠ 0 := by decide
      by_cases hidle : isSessionIdleEvent ev.oldEvent
      · -- between commands: a boundary that files nothing for itself
        have hr : r = ((qa.boundary false).1, (qa.boundary false).2, false) := by
          simp only [r, QattrPid.record, if_neg hio, if_neg hq, if_neg hbg, if_neg hz, if_pos hidle]
        have hb : b = (0, ev) := by
          simp only [b, backfillRecord, if_neg hq, hwe, if_pos hidle]
        obtain ⟨hrow, hnil⟩ := qa.rowCount_boundary q e false
        rw [hr, hb, total_of_pending_nil _ q e _ _ n hnil, hrow, resolveQid_zero,
          filedUnder_of_neither hq0 hu]
        simp
      · -- the record waits, with an exit at once for the boundary that the exit is
        have hr : r = qa.defer ev.oldEvent ns := by
          simp only [r, QattrPid.record, if_neg hio, if_neg hq, if_neg hbg, if_neg hz, if_neg hidle]
        have hd := qa.defer_of_not_spilled ev.oldEvent ns (hr ▸ hspill)
        have hb : b = (if ev.newEvent = eventExit then 0 else n,
            attributeRecord (if ev.newEvent = eventExit then 0 else n) qa.cmdQid ev) := by
          simp only [b, backfillRecord, if_neg hq, hwe, if_neg hidle, if_neg hio, if_neg hbg,
            if_neg hz]
        rw [hr, hd, total_nil, hb, filedUnder_attributeRecord hm hq0, owed_addPending]
        simp
    · -- background work never waits
      have hbg : cat.flag &&& (flagBackground ||| flagMaint) ≠ 0 := by
        cases cat <;> first | exact absurd rfl hcat | exact absurd rfl hfg | decide
      have hr : r = (qa, if isIdleEvent mask ev.oldEvent then []
          else [(QattrPending.one ev.oldEvent ns).row 0], false) := by
        simp only [r, QattrPid.record, if_neg hio, if_neg hq, if_pos hbg]
      rw [hr, total_of_pending_nil _ q e _ _ n (hpend hfg), owed_of_pending_nil (hpend hfg)]
      by_cases hidle : isIdleEvent mask ev.oldEvent
      · have hb : b.2 = ev := by
          simp only [b, backfillRecord, if_neg hq, hwe, if_neg hio, if_pos hbg, hidle]
          split_ifs <;> rfl
        rw [hb, filedUnder_of_neither hq0 hu]
        simp [hidle]
      · have hsess : ¬ isSessionIdleEvent ev.oldEvent = true := fun h =>
          hidle (isIdleEvent_of_sessionIdle h)
        have hb : b.2 = { ev with flags := ev.flags ||| flagQueryUnattrib } := by
          simp only [b, backfillRecord, if_neg hq, hwe, if_neg hsess, if_neg hio, if_pos hbg,
            Bool.not_eq_true] at hidle ⊢
          rw [hidle]
          rfl
        have hf : b.2.filedUnder q e = decide (0 = q ∧ ev.oldEvent = e) := by
          rw [hb]
          exact filedUnder_of_unattrib hm hq0 (flags_or_unattrib_ne_zero _)
        simp only [hf, if_neg hidle, rowCount_cons, rowCount_nil, QattrPending.row,
          QattrPending.one, Nat.add_zero, Nat.zero_add, decide_eq_true_eq]

end QattrPid

/-! ### The two machines in step -/

/-- The resolver of a process and its state in the forward pass know the same id, and nothing waits
on a process that is no client. An io worker has no id on the live side. -/
structure QattrInStep (cat : PidCategory) (s : LivePid) (t : TagPidState) : Prop where
  cmdQid : cat ≠ .ioWorker → s.qattr.cmdQid = t.cmdQid
  pending : cat ≠ .foreground → s.qattr.pending = []

namespace QattrPid

variable (qa : QattrPid)

theorem pending_marker {m : UInt32} {k : UInt64} (h : qa.pending = []) :
    (qa.marker m k).1.pending = [] := by
  unfold marker
  split_ifs with h1 h2 h3
  · rfl
  · rw [observe, if_neg h2]
    rfl
  · rfl
  · exact h

theorem cmdQid_marker {m : UInt32} (hm : m ≠ markerEscalateStart ∧ m ≠ markerEscalateEnd)
    (k : UInt64) : (qa.marker m k).1.cmdQid = qidMarkerStep m k qa.cmdQid := by
  unfold marker qidMarkerStep
  by_cases h1 : m = markerCmdStart
  · simp [h1, boundary]
  · by_cases hk : k = 0
    · simp only [h1, hk, if_false, ne_eq, not_true_eq_false, and_false]
      split_ifs <;> rfl
    · simp [h1, hk, hm, observe]

theorem pending_exitStep {b : Bool} (h : qa.pending = []) : (qa.exitStep b).1.pending = [] := by
  cases b
  · exact h
  · rfl

theorem cmdQid_exitStep (b : Bool) : (qa.exitStep b).1.cmdQid = if b then 0 else qa.cmdQid := by
  cases b <;> rfl

theorem pending_record {mask we : UInt32} {k : UInt64} {ns : ℕ} {cat : PidCategory}
    (hcat : cat ≠ .foreground) (h : qa.pending = []) :
    (qa.record mask k we ns cat).1.pending = [] := by
  have hz : cat.flag ≠ 0 := mt PidCategory.flag_eq_zero.mp hcat
  unfold record
  split_ifs with h1 h2
  · exact h
  · rw [observe, if_neg h2]
    rfl
  all_goals exact h

theorem cmdQid_record {mask we : UInt32} {k : UInt64} {ns : ℕ} {cat : PidCategory}
    (hcat : cat ≠ .ioWorker) :
    (qa.record mask k we ns cat).1.cmdQid = if k ≠ 0 then k else qa.cmdQid := by
  have hio : ¬ cat.flag &&& flagIoWorker ≠ 0 := by
    cases cat <;> first | exact absurd rfl hcat | decide
  unfold record
  rw [if_neg hio]
  split_ifs with h1 h2 h3 h4
  · rw [observe, if_neg h1]
  · rfl
  · rfl
  · rfl
  · rfl
  · rw [defer, deferStats]
    split_ifs <;> rfl

end QattrPid

theorem LivePid.step_record {c : LiveConfig} {s : LivePid} {ev : TraceEvent} {we : UInt32}
    (hm : isMarker ev.oldEvent = false) (heff : (s.step c ev).2.effEvent = some we) :
    let r := s.qattr.record c.mask ev.queryId we (c.statNs we ev) (c.cat ev.pid)
    (s.step c ev).1.qattr = (r.1.exitStep (ev.newEvent = eventExit)).1 ∧
      (s.step c ev).2.rows = r.2.1 ++ (r.1.exitStep (ev.newEvent = eventExit)).2 ∧
      (s.step c ev).2.spilled = r.2.2 := by
  intro r
  simp only [LivePid.step, hm, Bool.false_eq_true, if_false, LivePid.record, Option.some_inj] at heff ⊢
  rw [heff]
  by_cases hx : ev.newEvent = eventExit <;> simp [r, QattrPid.exitStep, hx]

namespace QattrInStep

variable {c : LiveConfig} {ev : TraceEvent} {s : LivePid} {t : TagPidState}

theorem step (h : QattrInStep (c.cat ev.pid) s t)
    (hs : isMarker ev.oldEvent = false → ev.isSample = false) :
    QattrInStep (c.cat ev.pid) (s.step c ev).1 (tagForwardStep c.cat 0 t ev).1 := by
  cases hm : isMarker ev.oldEvent
  · obtain ⟨ev', hstep, -⟩ := tagForwardStep_exact c.cat t hm (hs hm)
    obtain ⟨we, hwe⟩ : ∃ we, (s.step c ev).2.effEvent = some we := by
      simp only [LivePid.step, hm, Bool.false_eq_true, if_false, LivePid.record]
      exact ⟨_, rfl⟩
    obtain ⟨hqa, -, -⟩ := LivePid.step_record hm hwe
    refine ⟨fun hcat => ?_, fun hcat => ?_⟩
    · rw [hqa, hstep, QattrPid.cmdQid_exitStep, QattrPid.cmdQid_record _ hcat,
        TagPidState.cmdQid_afterExact, TagPidState.recordQid, hs hm, h.cmdQid hcat]
      simp
    · rw [hqa]
      exact QattrPid.pending_exitStep _ (QattrPid.pending_record _ hcat (h.pending hcat))
  · rw [tagForwardStep_marker hm, LivePid.step, if_pos hm]
    split_ifs with hesc
    · refine ⟨fun hcat => ?_, fun hcat => QattrPid.pending_marker _ (h.pending hcat)⟩
      rw [TagPidState.cmdQid_marker, ← h.cmdQid hcat]
      exact QattrPid.cmdQid_marker _ hesc _
    · refine ⟨fun hcat => ?_, h.pending⟩
      have hno : ¬ (ev.oldEvent ≠ markerEscalateStart ∧ ev.oldEvent ≠ markerEscalateEnd ∧
          ev.queryId ≠ 0) := fun h => hesc ⟨h.1, h.2.1⟩
      have hcmd : ev.oldEvent ≠ markerCmdStart := by
        rw [not_and_or, not_not, not_not] at hesc
        rcases hesc with h | h <;> rw [h] <;> decide
      rw [TagPidState.cmdQid_marker, h.cmdQid hcat, qidMarkerStep, if_neg hcmd, if_neg hno]

/-- **One event.** The occurrences an event files, and those waiting after it, are those waiting
before it and the record it is, each under the id that the backward pass gives it. -/
theorem count_step {evs : List TraceEvent} (h : QattrInStep (c.cat ev.pid) s t)
    (hc : c.cmdGateActive = true) (hg : GatesInStep (ev :: evs) s t) (hw : ¬ s.Wraps c ev)
    (hu : ev.flags &&& flagQueryUnattrib = 0) (hspill : (s.step c ev).2.spilled = false)
    (n q : UInt64) (e : UInt32) :
    let b := tagBackwardStep c.mask c.cat n (tagForwardStep c.cat 0 t ev).2
    rowCount (s.step c ev).2.rows q e +
        (s.step c ev).1.qattr.owed (resolveQid n (s.step c ev).1.qattr.cmdQid) q e =
      s.qattr.owed (resolveQid b.1 s.qattr.cmdQid) q e +
        if b.2.filedUnder q e ∧ c.cat ev.pid ≠ .ioWorker then 1 else 0 := by
  intro b
  cases hm : isMarker ev.oldEvent
  · obtain ⟨ev', hstep, hold, hpid, hnew, hqid, hsample, hflag⟩ :=
      tagForwardStep_exact c.cat t hm (hg.stream.exact ev List.mem_cons_self hm)
    have hm' : isMarker ev'.oldEvent = false := hold ▸ TagPidState.isMarker_exactEvent hm
    have heff : (s.step c ev).2.effEvent = some ev'.oldEvent := by
      rw [(hg.label_eq_iff hc).mpr hw, hstep, TraceEvent.label, if_neg (by simp [hm'])]
    obtain ⟨hqa, hrows, hsp⟩ := LivePid.step_record hm heff
    rw [hqa, hrows]
    by_cases hcat : c.cat ev.pid = .ioWorker
    · -- an io worker files nothing, and nothing waits on it
      have hnil : s.qattr.pending = [] := h.pending (by simp [hcat])
      have hr : s.qattr.record c.mask ev.queryId ev'.oldEvent (c.statNs ev'.oldEvent ev)
          (c.cat ev.pid) = (s.qattr, [], false) := by
        rw [hcat]
        rfl
      have htotal := QattrPid.total_of_pending_nil s.qattr q e [] (ev.newEvent = eventExit) n hnil
      rw [hr]
      exact htotal.trans (by simp [hcat, QattrPid.owed_of_pending_nil hnil])
    · have hb : b = backfillRecord c.mask (c.cat ev.pid) n ev' s.qattr.cmdQid := by
        simp only [b, hstep, tagBackwardStep, hm', Bool.false_eq_true, if_false, hpid,
          h.cmdQid hcat]
      have hcount := QattrPid.count_record s.qattr c.mask (c.cat ev.pid)
        (c.statNs ev'.oldEvent ev) hm' hsample (hflag.trans hu) hcat h.pending
        (by rw [hqid, ← hsp, hspill]) n q e
      rw [hqid, hnew, ← hb] at hcount
      simp only [hcat, ne_eq, not_false_eq_true, and_true]
      exact hcount
  · have hb : b = (nextQidMarker ev.oldEvent ev.queryId n, ev) := by
      simp only [b, tagForwardStep_marker hm, tagBackwardStep, hm, if_true]
    have hfiled : ¬ (b.2.filedUnder q e = true ∧ c.cat ev.pid ≠ .ioWorker) := by
      rw [hb, TraceEvent.filedUnder, hm]
      simp
    rw [if_neg hfiled, hb, LivePid.step, if_pos hm, Nat.add_zero]
    by_cases hesc : ev.oldEvent = markerEscalateStart ∨ ev.oldEvent = markerEscalateEnd
    · rw [nextQidMarker, if_pos hesc, if_neg (by rw [← not_or]; exact not_not.mpr hesc)]
      simp
    · rw [if_pos (not_or.mp hesc)]
      exact QattrPid.count_marker _ q e hesc _ n

end QattrInStep

/-! ### A run -/

/-- What waits on the processes `K`, by the id it goes to. -/
def owedTotal (K : Finset UInt32) (s : UInt32 → LivePid) (next : UInt32 → UInt64) (q : UInt64)
    (e : UInt32) : ℕ :=
  ∑ p ∈ K, (s p).qattr.owed (resolveQid (next p) (s p).qattr.cmdQid) q e

/-- **A run.** What a run files, and what waits after it, is what waited before it and the records
that the tagging pass leaves outside io workers. -/
theorem count_run {c : LiveConfig} (hc : c.cmdGateActive = true) {K : Finset UInt32}
    (evs : List TraceEvent) (hK : ∀ ev ∈ evs, ev.pid ∈ K)
    (hu : ∀ ev ∈ evs, ev.flags &&& flagQueryUnattrib = 0) (s : UInt32 → LivePid)
    (t : UInt32 → TagPidState) (hq : ∀ p, QattrInStep (c.cat p) (s p) (t p))
    (hg : ∀ p, GatesInStep evs (s p) (t p))
    (hw : Keyed.Always TraceEvent.pid (LivePid.step c) (fun s ev => ¬ s.Wraps c ev) s evs)
    (hspill : ∀ o ∈ Keyed.pass TraceEvent.pid (LivePid.step c) s evs, o.spilled = false)
    (q : UInt64) (e : UInt32) :
    let b := tagBackward c.mask c.cat (tagForward c.cat 0 t evs)
    rowCount ((Keyed.pass TraceEvent.pid (LivePid.step c) s evs).flatMap LiveOut.rows) q e +
        owedTotal K (Keyed.after TraceEvent.pid (LivePid.step c) s evs) (fun _ => 0) q e =
      owedTotal K s b.1 q e + taggedCount c.cat b.2 q e := by
  induction evs generalizing s t with
  | nil => simp [Keyed.pass, Keyed.after, tagForward, tagBackward, Keyed.passBack, taggedCount]
  | cons ev evs ih =>
    intro b
    let s' := Keyed.move TraceEvent.pid (LivePid.step c) s ev
    let t' := Keyed.move TraceEvent.pid (tagForwardStep c.cat 0) t ev
    let b' := tagBackward c.mask c.cat (tagForward c.cat 0 t' evs)
    let r := tagForwardStep c.cat 0 (t ev.pid) ev
    have hexact := (hg ev.pid).stream.exact ev List.mem_cons_self
    have hrpid : r.2.1.pid = ev.pid := by
      cases hm : isMarker ev.oldEvent
      · obtain ⟨ev', hstep, -, hpid, -⟩ :=
          tagForwardStep_exact c.cat (t ev.pid) hm (hexact hm)
        rw [show r = _ from hstep]
        exact hpid
      · rw [show r = _ from tagForwardStep_marker hm]
    let x := tagBackwardStep c.mask c.cat (b'.1 ev.pid) r.2
    have hxpid : x.2.pid = ev.pid := (pid_tagBackwardStep _ _ _ _).trans hrpid
    have hb : b = (Function.update b'.1 ev.pid x.1, x.2 :: b'.2) := by
      change (Function.update b'.1 r.2.1.pid (tagBackwardStep c.mask c.cat (b'.1 r.2.1.pid) r.2).1,
        (tagBackwardStep c.mask c.cat (b'.1 r.2.1.pid) r.2).2 :: b'.2) = _
      rw [hrpid]
    have hb₁ : b.1 = Function.update b'.1 ev.pid x.1 := congrArg Prod.fst hb
    have hb₂ : b.2 = x.2 :: b'.2 := congrArg Prod.snd hb
    have hs' : s' ev.pid = ((s ev.pid).step c ev).1 := Keyed.move_self _
    -- the rest of the run, and the event itself
    have hrest : rowCount ((Keyed.pass TraceEvent.pid (LivePid.step c) s' evs).flatMap
          LiveOut.rows) q e +
        owedTotal K (Keyed.after TraceEvent.pid (LivePid.step c) s' evs) (fun _ => 0) q e =
          owedTotal K s' b'.1 q e + taggedCount c.cat b'.2 q e :=
      ih (fun x hx => hK x (List.mem_cons_of_mem _ hx))
        (fun x hx => hu x (List.mem_cons_of_mem _ hx)) s' t'
        (Keyed.forall_move (R := fun p => QattrInStep (c.cat p)) ((hq _).step hexact) hq)
        (Keyed.forall_move (R := fun _ => GatesInStep evs) (hg _).step fun p => (hg p).tail)
        hw.2 (fun o ho => hspill o (List.mem_cons_of_mem _ ho))
    have hstep : rowCount ((s ev.pid).step c ev).2.rows q e +
        (s' ev.pid).qattr.owed (resolveQid (b'.1 ev.pid) (s' ev.pid).qattr.cmdQid) q e =
          (s ev.pid).qattr.owed (resolveQid x.1 (s ev.pid).qattr.cmdQid) q e +
            if x.2.filedUnder q e ∧ c.cat ev.pid ≠ .ioWorker then 1 else 0 := by
      rw [hs']
      exact (hq ev.pid).count_step hc (hg ev.pid) hw.1 (hu ev List.mem_cons_self)
        (hspill _ List.mem_cons_self) (b'.1 ev.pid) q e
    have hcount : taggedCount c.cat b.2 q e = taggedCount c.cat b'.2 q e +
        if x.2.filedUnder q e ∧ c.cat ev.pid ≠ .ioWorker then 1 else 0 := by
      rw [hb₂, taggedCount, List.countP_cons, taggedCount, hxpid]
      simp only [Bool.and_eq_true, decide_eq_true_eq]
    -- only the process of the event owes something else than before
    have hothers : ∀ p ∈ K.erase ev.pid,
        (s p).qattr.owed (resolveQid (b.1 p) (s p).qattr.cmdQid) q e =
          (s' p).qattr.owed (resolveQid (b'.1 p) (s' p).qattr.cmdQid) q e := by
      intro p hp
      have hne : p ≠ ev.pid := Finset.ne_of_mem_erase hp
      rw [hb₁, Function.update_of_ne hne, show s' p = s p from Keyed.move_of_ne hne]
    have hsum : owedTotal K s b.1 q e +
        (s' ev.pid).qattr.owed (resolveQid (b'.1 ev.pid) (s' ev.pid).qattr.cmdQid) q e =
      owedTotal K s' b'.1 q e +
        (s ev.pid).qattr.owed (resolveQid x.1 (s ev.pid).qattr.cmdQid) q e := by
      have hmem := hK ev List.mem_cons_self
      rw [owedTotal, owedTotal, ← Finset.add_sum_erase K _ hmem, ← Finset.add_sum_erase K _ hmem,
        Finset.sum_congr rfl hothers, hb₁, Function.update_self]
      omega
    rw [Keyed.pass, Keyed.after, List.flatMap_cons, rowCount_append, hcount]
    change rowCount ((s ev.pid).step c ev).2.rows q e +
      rowCount ((Keyed.pass TraceEvent.pid (LivePid.step c) s' evs).flatMap LiveOut.rows) q e +
      owedTotal K (Keyed.after TraceEvent.pid (LivePid.step c) s' evs) (fun _ => 0) q e = _
    omega

/-! ### The rows of the accumulator -/

namespace Accumulator

theorem length_le_addToRows (r : QueryEventStats) (limit : ℕ) (xs : List QueryEventStats) :
    xs.length ≤ (addToRows r limit xs).length := by
  induction xs generalizing limit with
  | nil => exact Nat.zero_le _
  | cons x xs ih =>
    rw [addToRows]
    split_ifs
    · simp
    · simpa using ih (limit - 1)

theorem rowCount_addToRows {r : QueryEventStats} {limit : ℕ} {xs : List QueryEventStats}
    (h : (addToRows r limit xs).length < limit) (q : UInt64) (e : UInt32) :
    rowCount (addToRows r limit xs) q e = rowCount xs q e + rowCount [r] q e := by
  induction xs generalizing limit with
  | nil =>
    rw [addToRows] at h ⊢
    rw [if_neg (by omega), rowCount_nil, Nat.zero_add]
  | cons x xs ih =>
    rw [addToRows] at h ⊢
    split_ifs at h ⊢ with hx
    · rw [rowCount_cons, rowCount_cons, rowCount_cons r, rowCount_nil]
      by_cases hr : r.queryId = q ∧ r.waitEvent = e
      · simp only [hx, hr, and_self, if_true]
        omega
      · simp only [hx, hr, if_false]
        omega
    · rw [List.length_cons] at h
      rw [rowCount_cons, rowCount_cons, ih (by omega)]
      omega

theorem length_le_fileRows (rows xs : List QueryEventStats) :
    xs.length ≤ (fileRows rows xs).length := by
  induction rows generalizing xs with
  | nil => exact Nat.le_refl _
  | cons r rows ih => exact (length_le_addToRows r maxQueryEvents xs).trans (ih _)

theorem rowCount_fileRows {rows xs : List QueryEventStats}
    (h : (fileRows rows xs).length < maxQueryEvents) (q : UInt64) (e : UInt32) :
    rowCount (fileRows rows xs) q e = rowCount xs q e + rowCount rows q e := by
  induction rows generalizing xs with
  | nil => rfl
  | cons r rows ih =>
    change (fileRows rows (addToRows r maxQueryEvents xs)).length < _ at h
    change rowCount (fileRows rows (addToRows r maxQueryEvents xs)) q e = _
    have hlt := (length_le_fileRows rows (addToRows r maxQueryEvents xs)).trans_lt h
    rw [ih h, rowCount_addToRows hlt, rowCount_cons r rows, rowCount_cons r [], rowCount_nil]
    omega

end Accumulator

/-! ### All processes exit -/

/-- `pgwt_live_qattr_pid_exit` for every process with an entry. -/
def liveFinish (acc : Accumulator) : Accumulator := acc.keys.foldl liveQattrPidExit acc

/-- What waits on a process, under the id of its command. -/
def QattrPid.exitRows (qa : QattrPid) : List QueryEventStats := qa.pending.map (·.row qa.cmdQid)

theorem liveQattrPidExit_of_mem {acc : Accumulator} {p : UInt32} (h : p ∈ acc.keys) :
    (liveQattrPidExit acc p).keys = acc.keys ∧
      (∀ p', p' ≠ p → (liveQattrPidExit acc p).stateOf p' = acc.stateOf p') ∧
      (liveQattrPidExit acc p).queryEvents =
        Accumulator.fileRows (acc.stateOf p).qattr.exitRows acc.queryEvents := by
  obtain ⟨s, hs⟩ : ∃ s, acc.find p = some s := by
    rcases hf : acc.find p with _ | s
    · exact absurd h (Accumulator.find_eq_none_iff.mp hf)
    · exact ⟨s, rfl⟩
  have hst : acc.stateOf p = s := by rw [Accumulator.stateOf, hs, Option.getD_some]
  rw [liveQattrPidExit, hs, hst]
  refine ⟨by simp, fun p' hp => ?_, ?_⟩
  · simp only [Accumulator.stateOf_file]
    rw [Accumulator.stateOf_setPid _ h, Function.update_of_ne hp]
  · exact (Accumulator.queryEvents_file _ _).trans rfl

theorem queryEvents_foldl_exit {acc : Accumulator} {ks : List UInt32} (hnd : ks.Nodup)
    (hsub : ks ⊆ acc.keys) :
    (ks.foldl liveQattrPidExit acc).queryEvents =
      Accumulator.fileRows (ks.flatMap fun p => (acc.stateOf p).qattr.exitRows)
        acc.queryEvents := by
  induction ks generalizing acc with
  | nil => rfl
  | cons p ks ih =>
    obtain ⟨hp, hks⟩ := List.nodup_cons.mp hnd
    obtain ⟨hkeys, hst, hrows⟩ := liveQattrPidExit_of_mem (hsub List.mem_cons_self)
    have hsame : (ks.flatMap fun p' => ((liveQattrPidExit acc p).stateOf p').qattr.exitRows) =
        ks.flatMap fun p' => (acc.stateOf p').qattr.exitRows :=
      List.flatMap_congr fun p' hp' => by rw [hst p' fun h => hp (h ▸ hp')]
    rw [List.foldl_cons, ih hks (hkeys ▸ fun x hx => hsub (List.mem_cons_of_mem _ hx)), hsame, hrows,
      List.flatMap_cons, Accumulator.fileRows, Accumulator.fileRows, Accumulator.fileRows,
      List.foldl_append]

theorem rowCount_flatMap {α : Type*} (f : α → List QueryEventStats) (l : List α) (q : UInt64)
    (e : UInt32) : rowCount (l.flatMap f) q e = (l.map fun a => rowCount (f a) q e).sum := by
  induction l with
  | nil => rfl
  | cons a l ih => rw [List.flatMap_cons, rowCount_append, ih, List.map_cons, List.sum_cons]

theorem rowCount_exitRows {acc : Accumulator} {pids : List UInt32} (h : acc.KeysIn pids)
    (q : UInt64) (e : UInt32) :
    rowCount (acc.keys.flatMap fun p => (acc.stateOf p).qattr.exitRows) q e =
      owedTotal pids.toFinset acc.stateOf (fun _ => 0) q e := by
  have hterm : ∀ p, rowCount (acc.stateOf p).qattr.exitRows q e =
      (acc.stateOf p).qattr.owed (resolveQid 0 (acc.stateOf p).qattr.cmdQid) q e := by
    intro p
    rw [resolveQid_zero]
    exact rowCount_flush _ _ q e
  have hout : ∀ p ∈ pids.toFinset, p ∉ acc.keys.toFinset →
      (acc.stateOf p).qattr.owed (resolveQid 0 (acc.stateOf p).qattr.cmdQid) q e = 0 := by
    intro p _ hp
    rw [List.mem_toFinset] at hp
    rw [Accumulator.stateOf_of_notMem hp]
    exact QattrPid.owed_of_pending_nil rfl _ q e
  have hsub : acc.keys.toFinset ⊆ pids.toFinset := by
    intro p hp
    rw [List.mem_toFinset] at hp ⊢
    exact h.subset hp
  rw [rowCount_flatMap, owedTotal, ← Finset.sum_subset hsub hout, List.sum_toFinset _ h.nodup]
  exact congrArg List.sum (List.map_congr_left fun p _ => hterm p)

/-- **Deferred attribution is the back-fill.** On a time-ordered stream of exact records and markers
that is not tagged yet, on which the two command gates agree, with room for all processes, no spilled
pending list and a table of rows that never fills up: once all processes have exited, the live rows
count for every query id and event as many occurrences as the tagging pass leaves records with that
id and event outside io workers, id 0 being the records it flags as unattributed. -/
theorem liveFinish_rowCount_eq (c : LiveConfig) (hc : c.cmdGateActive = true)
    (evs : List TraceEvent) (h : ExactStream evs)
    (hraw : ∀ ev ∈ evs, ev.flags &&& flagQueryUnattrib = 0)
    (hpids : (evs.map TraceEvent.pid).dedup.length ≤ maxBackends)
    (hw : Keyed.Always TraceEvent.pid (LivePid.step c) (fun s ev => ¬ s.Wraps c ev) (fun _ => {})
      evs)
    (hspill : (liveRun c {} evs).1.qattrPendingOverflow = 0)
    (hfull : (liveFinish (liveRun c {} evs).1).queryEvents.length < maxQueryEvents)
    (q : UInt64) (e : UInt32) :
    rowCount (liveFinish (liveRun c {} evs).1).queryEvents q e =
      taggedCount c.cat (tagEvents c.mask c.cat evs) q e := by
  have hev : ∀ ev ∈ evs, ev.pid ∈ (evs.map TraceEvent.pid).dedup := fun ev hmem =>
    List.mem_dedup.mpr (List.mem_map_of_mem hmem)
  obtain ⟨-, hst, hrows, hover, hkeys⟩ :=
    liveRun_eq_pass (c := c) hpids evs hev {} ⟨List.nodup_nil, List.nil_subset _⟩
  have hstart : Accumulator.stateOf {} = fun _ => {} := rfl
  rw [hstart] at hst hrows hover
  have hno : ∀ o ∈ Keyed.pass TraceEvent.pid (LivePid.step c) (fun _ => {}) evs,
      o.spilled = false := by
    intro o ho
    have hsum : ((Keyed.pass TraceEvent.pid (LivePid.step c) (fun _ => {}) evs).map
        fun o => o.spilled.toNat).sum = 0 :=
      Nat.eq_zero_of_add_eq_zero_left (hover.symm.trans hspill)
    have hzero : o.spilled.toNat = 0 :=
      List.sum_eq_zero_iff.mp hsum _ (List.mem_map_of_mem ho)
    cases hsp : o.spilled
    · rfl
    · rw [hsp] at hzero
      exact absurd hzero (by decide)
  have hrun := count_run hc (K := (evs.map TraceEvent.pid).dedup.toFinset) evs
    (fun ev hmem => List.mem_toFinset.mpr (hev ev hmem)) hraw (fun _ => {}) (fun _ => {})
    (fun _ => ⟨fun _ => rfl, fun _ => rfl⟩) (fun _ => ⟨rfl, fun _ _ => UInt64.zero_le, h⟩) hw hno q e
  have hnone : ∀ K next, owedTotal K (fun _ => {}) next q e = 0 := fun K next =>
    Finset.sum_eq_zero fun p _ => QattrPid.owed_of_pending_nil rfl _ q e
  have hfinish : (liveFinish (liveRun c {} evs).1).queryEvents = _ :=
    queryEvents_foldl_exit hkeys.nodup (List.Subset.refl _)
  have hbefore : (liveRun c {} evs).1.queryEvents.length < maxQueryEvents := by
    rw [hfinish] at hfull
    exact (Accumulator.length_le_fileRows _ _).trans_lt hfull
  calc rowCount (liveFinish (liveRun c {} evs).1).queryEvents q e
      = rowCount (liveRun c {} evs).1.queryEvents q e +
          owedTotal (evs.map TraceEvent.pid).dedup.toFinset
            (Keyed.after TraceEvent.pid (LivePid.step c) (fun _ => {}) evs) (fun _ => 0) q e := by
        rw [hfinish] at hfull ⊢
        rw [Accumulator.rowCount_fileRows hfull, rowCount_exitRows hkeys, hst]
    _ = taggedCount c.cat (tagEvents c.mask c.cat evs) q e := by
        rw [hrows] at hbefore ⊢
        rw [Accumulator.rowCount_fileRows hbefore, rowCount_nil, Nat.zero_add, hrun, hnone,
          Nat.zero_add]
        rfl

/-- A lock wait closes before its command reports query 5; the run that follows carries the id, and
a second wait closes after it without one. -/
def parseWait : List TraceEvent :=
  [markerAt markerCmdStart 10 0, recordAt 0x03000000 20 10 0, markerAt markerExecStart 21 5,
    recordAt 0 30 10 5, recordAt 0x03000000 40 10 0, markerAt markerCmdEnd 41 0]

/-- The back-fill of both lock waits. -/
theorem liveFinish_rowCount_eq_parseWait :
    rowCount (liveFinish (liveRun gatedConfig {} parseWait).1).queryEvents 5 0x03000000 =
        taggedCount gatedConfig.cat (tagEvents 0 gatedConfig.cat parseWait) 5 0x03000000 ∧
      taggedCount gatedConfig.cat (tagEvents 0 gatedConfig.cat parseWait) 5 0x03000000 = 2 :=
  ⟨liveFinish_rowCount_eq gatedConfig rfl parseWait ⟨by decide, by decide, by decide, by decide⟩
    (by decide) (by decide) (by decide +kernel) (by decide +kernel) (by decide +kernel) 5 0x03000000,
    by decide +kernel⟩

/-- The settings for an io worker. -/
def ioWorkerConfig : LiveConfig := ⟨true, true, 0, fun _ => .ioWorker⟩

/-- A read that carries query 5. -/
def ioRead : List TraceEvent := [recordAt 0x0A000015 20 10 5]

/-- A run that is longer than its own end, across the start of a command. -/
def overlongRun : List TraceEvent := [markerAt markerCmdStart 90 0, recordAt 0 100 200 0]

/-- An io worker's read that carries query 5 has no live row but keeps its id in the tagged array;
and where the command gates disagree, because the doubled command time wraps or because a record is
longer than its own end, a run that is idle on the live side is unattributed in the array. -/
theorem rowCount_differs :
    (ExactStream ioRead ∧
      rowCount (liveFinish (liveRun ioWorkerConfig {} ioRead).1).queryEvents 5 0x0A000015 = 0 ∧
      (tagEvents 0 ioWorkerConfig.cat ioRead).countP (·.filedUnder 5 0x0A000015) = 1) ∧
    (rowCount (liveFinish (liveRun gatedConfig {} longCommand).1).queryEvents 0 0 = 0 ∧
      (tagEvents 0 gatedConfig.cat longCommand).countP (·.filedUnder 0 0) = 1) ∧
    (rowCount (liveFinish (liveRun gatedConfig {} overlongRun).1).queryEvents 0 0 = 0 ∧
      (tagEvents 0 gatedConfig.cat overlongRun).countP (·.filedUnder 0 0) = 1) := by
  refine ⟨⟨⟨by decide, by decide, by decide, by decide⟩, ?_, ?_⟩, ⟨?_, ?_⟩, ?_, ?_⟩ <;>
    decide +kernel

end PgWaitTracer
