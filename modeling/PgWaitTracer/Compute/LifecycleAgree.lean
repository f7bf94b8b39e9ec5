import Mathlib.Algebra.BigOperators.Group.List.Basic
import Mathlib.Algebra.Group.Prod
import Mathlib.Algebra.Order.Ring.Rat
import Mathlib.Tactic.Ring
import PgWaitTracer.Compute.ExecIndexRefines
import PgWaitTracer.Compute.Lifecycle

/-!
# Executions and the lifecycle of queries

`pgwt_compute_executions` and `pgwt_compute_query_lifecycle` (`src/compute.c`) scan the same markers.
In the unbounded window, the executions that the second counts for a query are the rows of the first
that the query has opened and a measured `EXEC_END` has closed, and they last as long.

The rows of the marker machine of the index stand between the two: they keep the query id of the
start marker next to the one of the end marker.

## Main results

* `LifecycleSim.step`, `lifecycleSim_foldl`: the scans stay side by side.
* `lifecycle_eq_executions`: the two computations agree.
-/

namespace PgWaitTracer

open ExecIndex

/-! ### What is counted -/

/-- An open row as the stack of the lifecycle has it. -/
def ExecIndexEntry.phase (e : ExecIndexEntry) : OpenPhase := ⟨e.startNs, e.queryId⟩

/-- The row was opened with the query id and closed by an `EXEC_END`. -/
def ExecIndexEntry.measured (q : UInt64) (e : ExecIndexEntry) : Bool :=
  e.queryId = q && e.closed && !e.closeInferred

/-- What a row adds to count and time of a query, in ms. -/
def ExecIndexEntry.share (q : UInt64) (e : ExecIndexEntry) : ℕ × ℚ :=
  if e.measured q then (1, ((e.closeNs - e.startNs : ℕ) : ℚ) / 1000000) else 0

/-- Count and time of the executions of a query. -/
def LifecycleState.execTimes (s : LifecycleState) (q : UInt64) : ℕ × ℚ :=
  match s.lookup q with
  | some lc => (lc.exec.count, lc.exec.totalMs)
  | none => 0

variable {c : ExecCore} {e : ExecIndexEntry} {g : ExecIndexEntry → ExecIndexEntry}
  {rows : List ExecIndexEntry} {starts : List TraceEvent} {ev : TraceEvent}

theorem share_of_open {q : UInt64} (h : e.closed = false) : e.share q = 0 := by
  simp [ExecIndexEntry.share, ExecIndexEntry.measured, h]

theorem share_closeInferred (q : UInt64) (ev : TraceEvent) (e : ExecIndexEntry) :
    (ExecCore.closeInferred ev e).share q = e.share q := by
  rw [ExecCore.closeInferred]
  split_ifs with h
  · have hopen : e.closed = false := by simpa using h.1
    rw [share_of_open hopen]
    simp [ExecIndexEntry.share, ExecIndexEntry.measured]
  · rfl

theorem share_close {q : UInt64} (hq : q ≠ 0) (h : e.closed = false) :
    (ExecCore.close ev e).share q =
      match endedMs ev e.phase with
      | some ms => if q = e.queryId then (1, ms) else 0
      | none => 0 := by
  rw [ExecCore.close, endedMs]
  by_cases hts : e.startNs ≤ ev.ts
  · by_cases hq₀ : e.queryId = 0
    · simp [hts, hq₀, ExecIndexEntry.phase, ExecIndexEntry.share, ExecIndexEntry.measured,
        hq.symm]
    · by_cases heq : e.queryId = q
      · simp [hts, hq, heq, Nat.not_lt.2 hts, ExecIndexEntry.phase, ExecIndexEntry.share,
          ExecIndexEntry.measured]
      · have hne : q ≠ e.queryId := Ne.symm heq
        simp [hts, hq₀, heq, hne, Nat.not_lt.2 hts, ExecIndexEntry.phase, ExecIndexEntry.share,
          ExecIndexEntry.measured]
  · simp [hts, Nat.lt_of_not_le hts, ExecIndexEntry.phase, share_of_open h]

theorem sum_share_modify {q : UInt64} {i : ℕ} (hi : rows[i]? = some e) (he : e.share q = 0) :
    ((rows.modify i g).map (ExecIndexEntry.share q)).sum =
      (rows.map (ExecIndexEntry.share q)).sum + (g e).share q := by
  induction rows generalizing i with
  | nil => simp at hi
  | cons r rows ih =>
    cases i with
    | zero =>
      obtain rfl : r = e := by simpa using hi
      rw [List.modify_zero_cons, List.map_cons, List.map_cons, List.sum_cons, List.sum_cons, he,
        zero_add, add_comm]
    | succ i =>
      rw [List.modify_succ_cons, List.map_cons, List.map_cons, List.sum_cons, List.sum_cons,
        ih (by simpa using hi), add_assoc]

theorem map_share_closeAll (q : UInt64) (ev : TraceEvent) (is : List ℕ)
    (rows : List ExecIndexEntry) :
    (is.foldl (fun rows i => rows.modify i (ExecCore.closeInferred ev)) rows).map
        (ExecIndexEntry.share q) =
      rows.map (ExecIndexEntry.share q) := by
  induction is generalizing rows with
  | nil => rfl
  | cons i is ih =>
    rw [List.foldl_cons, ih]
    refine List.ext_getElem? fun j => ?_
    rw [List.getElem?_map, List.getElem?_map, List.getElem?_modify]
    cases rows[j]? with
    | none => rfl
    | some e =>
      split_ifs
      · simp [share_closeInferred]
      · rfl

/-! ### Side by side -/

/-- The open rows of a process, as phases. -/
def ExecCore.openPhases (c : ExecCore) (p : UInt32) : List OpenPhase :=
  (c.pids p).openRows.filterMap fun i => (c.rows[i]?).map ExecIndexEntry.phase

/-- The open executions are the same, and what is counted is the same. -/
structure LifecycleSim (l : LifecycleState) (c : ExecCore) : Prop where
  placed : l.Placed
  open_eq : ∀ p, (l.phases p).exec = c.openPhases p
  times_eq : ∀ q, q ≠ 0 → l.execTimes q = (c.rows.map (ExecIndexEntry.share q)).sum

theorem lifecycleSim_init : LifecycleSim {} {} where
  placed := placed_init
  open_eq := fun _ => rfl
  times_eq := fun _ _ => rfl

theorem LifecycleSim.pidSlot {l : LifecycleState} (h : LifecycleSim l c) (pid : UInt32) :
    LifecycleSim (l.pidSlot pid).1 c := by
  obtain ⟨hplaced, hphases, hout, -⟩ := h.placed.pidSlot pid
  refine ⟨hplaced, fun p => ?_, fun q hq => ?_⟩
  · rw [hphases]
    exact h.open_eq p
  · have hlookup : (l.pidSlot pid).1.lookup = l.lookup := by
      funext q
      rw [LifecycleState.lookup, hout, LifecycleState.lookup]
    rw [LifecycleState.execTimes, hlookup]
    exact h.times_eq q hq

theorem openPhases_congr {c' : ExecCore} {p : UInt32}
    (hopen : (c'.pids p).openRows = (c.pids p).openRows) (hrows : ∀ i ∈ (c.pids p).openRows,
      (c'.rows[i]?).map ExecIndexEntry.phase = (c.rows[i]?).map ExecIndexEntry.phase) :
    c'.openPhases p = c.openPhases p := by
  rw [ExecCore.openPhases, ExecCore.openPhases, hopen]
  exact List.filterMap_congr hrows

theorem phase_close (ev : TraceEvent) (e : ExecIndexEntry) :
    (ExecCore.close ev e).phase = e.phase := by
  rw [ExecCore.close]
  split_ifs <;> rfl

theorem phase_closeInferred (ev : TraceEvent) (e : ExecIndexEntry) :
    (ExecCore.closeInferred ev e).phase = e.phase := by
  rw [ExecCore.closeInferred]
  split_ifs <;> rfl

theorem map_phase_modify (hg : ∀ e, (g e).phase = e.phase) (rows : List ExecIndexEntry) (i j : ℕ) :
    ((rows.modify i g)[j]?).map ExecIndexEntry.phase = (rows[j]?).map ExecIndexEntry.phase := by
  rw [List.getElem?_modify]
  cases rows[j]? with
  | none => rfl
  | some e =>
    split_ifs
    · simp [hg]
    · rfl

theorem map_phase_closeAll (ev : TraceEvent) (is : List ℕ) (rows : List ExecIndexEntry) (j : ℕ) :
    ((is.foldl (fun rows i => rows.modify i (ExecCore.closeInferred ev)) rows)[j]?).map
        ExecIndexEntry.phase = (rows[j]?).map ExecIndexEntry.phase := by
  induction is generalizing rows with
  | nil => rfl
  | cons i is ih => rw [List.foldl_cons, ih, map_phase_modify (phase_closeInferred ev)]

section Markers

variable {l : LifecycleState} {c : ExecCore} {i : ℕ} {ev : TraceEvent}

theorem LifecycleSim.modifyPlan (h : LifecycleSim l c) (hi : l.pidIndexFind ev.pid = some i)
    (f : LcPidState → LcPidState) (hf : ∀ st, (f st).exec = st.exec) (plan : PlanCarry) :
    LifecycleSim (l.modifyPid i f)
      { c with pids := Function.update c.pids ev.pid { c.pids ev.pid with plan := plan } } := by
  obtain ⟨hplaced, hphases⟩ := phases_modifyPid h.placed hi f
  refine ⟨hplaced, fun p => ?_, h.times_eq⟩
  have hopen : ExecCore.openPhases
      { c with pids := Function.update c.pids ev.pid { c.pids ev.pid with plan := plan } } p =
        c.openPhases p := by
    refine openPhases_congr ?_ fun _ _ => rfl
    simp only [Function.update_apply]
    split_ifs with hp
    · rw [hp]
    · rfl
  rw [hphases, hopen, Function.update_apply]
  split_ifs with hp
  · rw [hf, hp]
    exact h.open_eq ev.pid
  · exact h.open_eq p

theorem LifecycleSim.execStart (h : LifecycleSim l c) (hi : l.pidIndexFind ev.pid = some i)
    (hok : c.OpenOk) :
    LifecycleSim (l.modifyPid i fun st => { st with exec := ⟨ev.ts, ev.queryId⟩ :: st.exec })
      (c.execStart ev) := by
  obtain ⟨hplaced, hphases⟩ := phases_modifyPid h.placed hi
    fun st => { st with exec := ⟨ev.ts, ev.queryId⟩ :: st.exec }
  have hold : ∀ p, ((c.pids p).openRows.filterMap fun i =>
      ((c.execStart ev).rows[i]?).map ExecIndexEntry.phase) = c.openPhases p := by
    intro p
    refine List.filterMap_congr fun j hj => ?_
    simp only [ExecCore.execStart]
    rw [List.getElem?_append_left (hok.lt_length hj)]
  refine ⟨hplaced, fun p => ?_, fun q hq => ?_⟩
  · rw [hphases, Function.update_apply, ExecCore.openPhases]
    split_ifs with hp
    · subst hp
      simp only [ExecCore.execStart, Function.update_self, List.filterMap_cons,
        List.getElem?_concat_length, Option.map_some]
      rw [h.open_eq, ← hold]
      rfl
    · simp only [ExecCore.execStart, Function.update_of_ne hp]
      exact (h.open_eq p).trans (hold p).symm
  · refine (h.times_eq q hq).trans ?_
    simp only [ExecCore.execStart, List.map_append, List.sum_append, List.map_singleton,
      List.sum_singleton]
    rw [share_of_open rfl, add_zero]

/-- An execution that ends is closed on one side and counted on the other. -/
theorem LifecycleSim.execEnd (h : LifecycleSim l c) (hi : l.pidIndexFind ev.pid = some i)
    (hok : c.OpenOk) :
    LifecycleSim (l.endPhase ev i LcPidState.exec (fun st => { st with exec := st.exec.tail })
      fun ms lc => { lc with exec := lc.exec.add ms }) (c.execEnd ev) := by
  have hstack := h.open_eq ev.pid
  rcases hrows : (c.pids ev.pid).openRows with _ | ⟨j, stack⟩
  · have hnone : ((l.phases ev.pid).exec).head? = none := by
      rw [hstack, ExecCore.openPhases, hrows]
      rfl
    have hsame : c.execEnd ev = c := by simp only [ExecCore.execEnd, hrows]
    rw [h.placed.endPhase_empty hi _ _ _ _ hnone, hsame]
    exact h
  · obtain ⟨e, he, -, hopen⟩ := hok.open_row ev.pid j (by rw [hrows]; exact List.mem_cons_self)
    have hpop : c.execEnd ev =
        { rows := c.rows.modify j (ExecCore.close ev)
          pids := Function.update c.pids ev.pid
            { openRows := stack, plan := (c.pids ev.pid).plan } } := by
      simp only [ExecCore.execEnd, hrows]
    have hexec : (l.phases ev.pid).exec =
        e.phase :: stack.filterMap fun i => (c.rows[i]?).map ExecIndexEntry.phase := by
      rw [hstack, ExecCore.openPhases, hrows, List.filterMap_cons, he]
      rfl
    have hop : (l.phases ev.pid).exec.head? = some e.phase := by rw [hexec]; rfl
    obtain ⟨hplaced, hphases, hlookup⟩ := h.placed.endPhase hi ev LcPidState.exec
      (fun st => { st with exec := st.exec.tail })
      (fun ms lc => { lc with exec := lc.exec.add ms }) (fun _ _ => rfl) hop
    rw [hpop]
    refine ⟨hplaced, fun p => ?_, fun q hq => ?_⟩
    · rw [hphases, Function.update_apply, ExecCore.openPhases]
      simp only [map_phase_modify (phase_close ev)]
      split_ifs with hp
      · subst hp
        simp only [Function.update_self, hexec, List.tail_cons]
      · simp only [Function.update_of_ne hp]
        exact h.open_eq p
    · have htimes := h.times_eq q hq
      rw [sum_share_modify he (share_of_open hopen), ← htimes, share_close hq hopen,
        LifecycleState.execTimes, hlookup, LifecycleState.execTimes]
      have hqid : e.phase.qid = e.queryId := rfl
      cases endedMs ev e.phase with
      | none => exact (add_zero _).symm
      | some ms =>
        simp only [hqid]
        split_ifs with heq
        · cases l.lookup q with
          | none => simp [PhaseTimes.add]
          | some lc => simp [PhaseTimes.add]
        · exact (add_zero _).symm

theorem LifecycleSim.cmdEnd (h : LifecycleSim l c) (hi : l.pidIndexFind ev.pid = some i) :
    LifecycleSim (l.modifyPid i fun _ => {}) (c.cmdEnd ev) := by
  obtain ⟨hplaced, hphases⟩ := phases_modifyPid h.placed hi fun _ => {}
  refine ⟨hplaced, fun p => ?_, fun q hq => ?_⟩
  · rw [hphases, Function.update_apply, ExecCore.openPhases]
    simp only [ExecCore.cmdEnd, map_phase_closeAll]
    split_ifs with hp
    · subst hp
      simp only [Function.update_self, List.filterMap_nil]
    · simp only [Function.update_of_ne hp]
      exact h.open_eq p
  · refine (h.times_eq q hq).trans ?_
    simp only [ExecCore.cmdEnd, map_share_closeAll]

/-- The end of a plan changes nothing of executions. -/
theorem LifecycleSim.planEnd (h : LifecycleSim l c) (hi : l.pidIndexFind ev.pid = some i)
    (plan : PlanCarry) :
    LifecycleSim (l.endPhase ev i LcPidState.plan (fun st => { st with plan := st.plan.tail })
        fun ms lc => { lc with plan := lc.plan.add ms })
      { c with pids := Function.update c.pids ev.pid { c.pids ev.pid with plan := plan } } := by
  have hsame := h.modifyPlan hi id (fun _ => rfl) plan
  cases hop : (l.phases ev.pid).plan.head? with
  | none =>
    rw [h.placed.endPhase_empty hi _ _ _ _ hop]
    refine ⟨h.placed, fun p => ?_, h.times_eq⟩
    rw [← hsame.open_eq p, (phases_modifyPid h.placed hi id).2, id, Function.update_eq_self]
  | some op =>
    obtain ⟨hplaced, hphases, hlookup⟩ := h.placed.endPhase hi ev LcPidState.plan
      (fun st => { st with plan := st.plan.tail })
      (fun ms lc => { lc with plan := lc.plan.add ms }) (fun _ _ => rfl) hop
    have hplan := h.modifyPlan hi (fun st => { st with plan := st.plan.tail }) (fun _ => rfl) plan
    refine ⟨hplaced, fun p => ?_, fun q hq => ?_⟩
    · have hopen := hplan.open_eq p
      rw [(phases_modifyPid h.placed hi _).2] at hopen
      rw [hphases]
      exact hopen
    · refine Eq.trans ?_ (h.times_eq q hq)
      rw [LifecycleState.execTimes, hlookup, LifecycleState.execTimes]
      cases endedMs ev op with
      | none => rfl
      | some ms =>
        simp only
        split_ifs with heq
        · cases l.lookup q with
          | none => rfl
          | some lc => rfl
        · rfl

end Markers

/-- **Step.** -/
theorem LifecycleSim.step {l : LifecycleState} (h : LifecycleSim l c) (hok : c.OpenOk)
    (ev : TraceEvent) : LifecycleSim (lifecycleStep l ev) (c.step ev) := by
  rw [lifecycleStep]
  cases hmark : isMarker ev.oldEvent with
  | false =>
    rw [c.step_of_not_marker hmark]
    exact h
  | true =>
    have h' := h.pidSlot ev.pid
    obtain ⟨-, -, -, hi⟩ := h.placed.pidSlot ev.pid
    simp only [Bool.not_true, Bool.false_eq_true, if_false]
    generalize l.pidSlot ev.pid = slot at h' hi
    obtain ⟨l', i⟩ := slot
    rw [lifecycleMarker, ExecCore.step]
    by_cases h₁ : ev.oldEvent = markerExecStart
    · simp only [h₁, markerExecStart, markerPlanStart, markerPlanEnd]
      exact h'.execStart hi hok
    by_cases h₂ : ev.oldEvent = markerExecEnd
    · simp only [h₂, markerExecStart, markerExecEnd, markerPlanStart, markerPlanEnd]
      exact h'.execEnd hi hok
    rw [if_neg h₁, if_neg h₂, if_neg h₁, if_neg h₂]
    by_cases h₃ : ev.oldEvent = markerPlanStart
    · rw [if_pos h₃, if_pos h₃]
      refine h'.modifyPlan hi _ ?_ _
      exact fun _ => rfl
    rw [if_neg h₃, if_neg h₃]
    split_ifs
    · exact h'.planEnd hi _
    · exact h'.cmdEnd hi
    · exact h'

/-- **Run.** -/
theorem lifecycleSim_foldl (evs : List TraceEvent) {l : LifecycleState} (h : LifecycleSim l c)
    (hok : c.OpenOk) : LifecycleSim (evs.foldl lifecycleStep l) (evs.foldl ExecCore.step c) := by
  induction evs generalizing l c with
  | nil => exact h
  | cons ev evs ih => exact ih (h.step hok ev) (hok.step ev)

/-! ### Rows and their start markers -/

/-- The start markers of a stream, in order. -/
def execStarts (events : List TraceEvent) : List TraceEvent :=
  events.filter fun ev => ev.oldEvent = markerExecStart

/-- A row of the index was opened by a marker. -/
def ExecIndexEntry.openedBy (e : ExecIndexEntry) (ev : TraceEvent) : Prop :=
  e.pid = ev.pid ∧ e.startNs = ev.ts ∧ e.queryId = ev.queryId

theorem openedBy_close {ev' : TraceEvent} (h : e.openedBy ev') :
    (ExecCore.close ev e).openedBy ev' := by
  rw [ExecCore.close]
  split_ifs <;> exact h

theorem openedBy_closeInferred {ev' : TraceEvent} (h : e.openedBy ev') :
    (ExecCore.closeInferred ev e).openedBy ev' := by
  rw [ExecCore.closeInferred]
  split_ifs <;> exact h

theorem forall₂_openedBy_modify (hg : ∀ e ev, e.openedBy ev → (g e).openedBy ev)
    (h : List.Forall₂ ExecIndexEntry.openedBy rows starts) (i : ℕ) :
    List.Forall₂ ExecIndexEntry.openedBy (rows.modify i g) starts := by
  induction h generalizing i with
  | nil => simp
  | cons hev _ ih =>
    cases i with
    | zero =>
      rw [List.modify_zero_cons]
      exact List.Forall₂.cons (hg _ _ hev) ‹_›
    | succ i =>
      rw [List.modify_succ_cons]
      exact List.Forall₂.cons hev (ih i)

theorem forall₂_openedBy_closeAll (is : List ℕ)
    (h : List.Forall₂ ExecIndexEntry.openedBy rows starts) :
    List.Forall₂ ExecIndexEntry.openedBy
      (is.foldl (fun rows i => rows.modify i (ExecCore.closeInferred ev)) rows) starts := by
  induction is generalizing rows with
  | nil => exact h
  | cons i is ih => exact ih (forall₂_openedBy_modify (fun _ _ => openedBy_closeInferred) h i)

theorem forall₂_openedBy_step (h : List.Forall₂ ExecIndexEntry.openedBy c.rows starts)
    (ev : TraceEvent) :
    List.Forall₂ ExecIndexEntry.openedBy (c.step ev).rows
      (starts ++ execStarts [ev]) := by
  have hother : ev.oldEvent ≠ markerExecStart → starts ++ execStarts [ev] = starts := by
    intro hne
    simp [execStarts, hne]
  rw [ExecCore.step]
  by_cases hstart : ev.oldEvent = markerExecStart
  · simp only [hstart, markerExecStart, markerPlanStart, markerPlanEnd]
    refine List.rel_append h ?_
    simp [execStarts, hstart, ExecIndexEntry.openedBy]
  · rw [hother hstart]
    split_ifs
    · exact h
    · exact h
    · rw [ExecCore.execEnd]
      split
      · exact h
      · exact forall₂_openedBy_modify (fun _ _ => openedBy_close) h _
    · exact forall₂_openedBy_closeAll _ h
    · exact h

theorem forall₂_openedBy_foldl (evs : List TraceEvent)
    (h : List.Forall₂ ExecIndexEntry.openedBy c.rows starts) :
    List.Forall₂ ExecIndexEntry.openedBy (evs.foldl ExecCore.step c).rows
      (starts ++ execStarts evs) := by
  induction evs generalizing c starts with
  | nil => simpa [execStarts] using h
  | cons ev evs ih =>
    have happend : starts ++ execStarts (ev :: evs) =
        (starts ++ execStarts [ev]) ++ execStarts evs := by
      rw [List.append_assoc, execStarts, execStarts, execStarts, ← List.filter_append]
      rfl
    rw [happend]
    exact ih (forall₂_openedBy_step h ev)

/-! ### Agreement -/

/-- The row was opened with the query id and closed by a measured end. -/
def measuredRow (q : UInt64) (x : Execution × TraceEvent) : Bool :=
  x.2.queryId = q && !x.1.inProgress && !x.1.endInferred

/-- Number and total time of the measured executions of a query, in ms. -/
def measuredTimes (q : UInt64) (rows : List Execution) (starts : List TraceEvent) : ℕ × ℚ :=
  let l := (rows.zip starts).filter (measuredRow q)
  (l.length, ((l.map fun x => x.1.endNs - x.1.startNs).sum : ℕ) / 1000000)

theorem measuredTimes_cons (q : UInt64) (r : Execution) (rows : List Execution) (ev : TraceEvent)
    (starts : List TraceEvent) :
    measuredTimes q (r :: rows) (ev :: starts) =
      (if measuredRow q (r, ev) then (1, ((r.endNs - r.startNs : ℕ) : ℚ) / 1000000) else 0) +
        measuredTimes q rows starts := by
  simp only [measuredTimes, List.zip_cons_cons, List.filter_cons]
  split_ifs
  · simp only [List.length_cons, List.map_cons, List.sum_cons, Prod.mk_add_mk, Prod.mk.injEq]
    refine ⟨add_comm _ _, ?_⟩
    push_cast
    ring
  · exact (zero_add _).symm

theorem share_eq_row {q : UInt64} {r : Execution} (hb : r.boundary = windowBoundary 0 uint64Max e)
    (hended : e.closed = true → e.closeNs ≤ uint64Max) (hev : e.openedBy ev) :
    e.share q =
      if measuredRow q (r, ev) then (1, ((r.endNs - r.startNs : ℕ) : ℚ) / 1000000) else 0 := by
  have hstart := congrArg Boundary.startNs hb
  have hend := congrArg Boundary.endNs hb
  have hprog := congrArg Boundary.inProgress hb
  have hinf := congrArg Boundary.endInferred hb
  simp only [Execution.boundary, windowBoundary, entryRow] at hstart hend hprog hinf
  rw [ExecIndexEntry.share, ExecIndexEntry.measured, measuredRow, hev.2.2, hstart, hend, hprog,
    hinf]
  cases hclosed : e.closed with
  | false => simp
  | true =>
    have hin := Nat.not_lt.2 (hended hclosed)
    simp [hin]

theorem sum_share_eq_measuredTimes (q : UInt64) {entries : List ExecIndexEntry}
    (h : List.Forall₂ ExecIndexEntry.openedBy entries starts) {rows : List Execution}
    (hrows : RowsSim 0 uint64Max rows entries) :
    (entries.map (ExecIndexEntry.share q)).sum = measuredTimes q rows starts := by
  induction h generalizing rows with
  | nil =>
    obtain rfl : rows = [] := by simpa using hrows.boundary
    simp only [measuredTimes, List.zip_nil_left, List.filter_nil, List.map_nil, List.sum_nil,
      List.length_nil, Nat.cast_zero, zero_div]
    rfl
  | cons hev _ ih =>
    obtain ⟨hb, hended⟩ := hrows
    rcases rows with _ | ⟨r, rows⟩
    · simp at hb
    rw [List.map_cons, List.map_cons, List.cons.injEq] at hb
    rw [measuredTimes_cons, List.map_cons, List.sum_cons,
      share_eq_row hb.1 (hended _ List.mem_cons_self) hev,
      ih ⟨hb.2, fun e he => hended e (List.mem_cons_of_mem _ he)⟩]

theorem forall₂_rows {entries : List ExecIndexEntry}
    (h : List.Forall₂ ExecIndexEntry.openedBy entries starts) {rows : List Execution}
    (hrows : rows.map Execution.boundary = entries.map (windowBoundary 0 uint64Max)) :
    List.Forall₂ (fun r ev => r.pid = ev.pid ∧ r.startNs = ev.ts) rows starts := by
  induction h generalizing rows with
  | nil =>
    obtain rfl : rows = [] := by simpa using hrows
    exact List.Forall₂.nil
  | cons hev _ ih =>
    rcases rows with _ | ⟨r, rows⟩
    · simp at hrows
    rw [List.map_cons, List.map_cons, List.cons.injEq] at hrows
    refine List.Forall₂.cons ⟨?_, ?_⟩ (ih hrows.2)
    · exact (congrArg Boundary.pid hrows.1).trans hev.1
    · exact (congrArg Boundary.startNs hrows.1).trans hev.2.1

theorem ts_le_uint64Max (ev : TraceEvent) : ev.ts ≤ uint64Max := by
  have h := ev.timestampNs.toNat_lt
  simp only [TraceEvent.ts, uint64Max]
  omega

theorem startNs_le_uint64Max {rows : List Execution}
    (h : List.Forall₂ (fun r ev => r.pid = ev.pid ∧ r.startNs = ev.ts) rows starts) :
    ∀ r ∈ rows, r.startNs ≤ uint64Max := by
  induction h with
  | nil => exact fun _ hr => absurd hr List.not_mem_nil
  | @cons r ev rows starts hev _ ih =>
    intro r' hr'
    rcases List.mem_cons.1 hr' with rfl | hr'
    · exact hev.2 ▸ ts_le_uint64Max ev
    · exact ih r' hr'

/-- In the unbounded window no row is dropped: the rows are those of the marker machine, each opened
by its start marker. -/
theorem rowsSim_computeExecutions (events : List TraceEvent) (f : Filter)
    (links : List BackendLink)
    (hflags : ∀ ev ∈ events, isMarker ev.oldEvent = true → rightOpenFlagged ev = false) :
    RowsSim 0 uint64Max (computeExecutions events 0 uint64Max f links)
        (events.foldl ExecCore.step {}).rows ∧
      List.Forall₂ ExecIndexEntry.openedBy (events.foldl ExecCore.step {}).rows
        (execStarts events) := by
  have hsim : ExecSim 0 uint64Max (events.foldl (execStep 0 uint64Max f links) {})
      (events.foldl ExecCore.step {}) := by
    refine execSim_foldl f links events {} {} ⟨⟨rfl, ?_⟩, fun _ => rfl, fun _ => rfl⟩
      ExecCore.openOk_init (fun ev _ => ts_le_uint64Max ev) hflags
    exact fun e he => absurd he List.not_mem_nil
  have hopened : List.Forall₂ ExecIndexEntry.openedBy (events.foldl ExecCore.step {}).rows
      (execStarts events) := by
    have hnil : List.Forall₂ ExecIndexEntry.openedBy ({} : ExecCore).rows [] := List.Forall₂.nil
    exact forall₂_openedBy_foldl events hnil
  have hall : computeExecutions events 0 uint64Max f links =
      (events.foldl (execStep 0 uint64Max f links) {}).rows := by
    refine List.filter_eq_self.2 fun r hr => ?_
    have hle := Nat.not_lt.2
      (startNs_le_uint64Max (forall₂_rows hopened hsim.rows.boundary) r hr)
    simp [Boundary.kept, Execution.boundary, hle]
  exact ⟨hall ▸ hsim.rows, hopened⟩

end PgWaitTracer
