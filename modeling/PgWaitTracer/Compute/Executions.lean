import PgWaitTracer.Compute.Filter
import Mathlib.Logic.Function.Basic

/-!
# Executions from the marker stream

`pgwt_compute_executions` (`src/compute.c`) walks a time-ordered array of records once. The
`EXEC_START`, `EXEC_END` and `CMD_END` markers delimit executions through a stack of open rows per
process, the `PLAN_START` and `PLAN_END` markers leave a plan for the next execution, and every
other record only counts towards the row it is attributed to.

A stack is the list of its row numbers, innermost first. The per-process table is a total function
with the zeroed state as its default, as the table of the source creates a zeroed entry on first
use; allocation is taken to succeed.

## Main results

* `execStep_boundary`: a record that is not a marker changes no boundary, no stack and
  no plan.
-/

namespace PgWaitTracer

/-! ### Plans -/

/-- The plan part of the state of a process; `struct exec_pid_state` (`src/compute.c`) and
`struct exec_pid_carry` (`src/exec_index.c`) have the same fields. -/
structure PlanCarry where
  planStartNs : ℕ := 0
  planQueryId : UInt64 := 0
  planOpen : Bool := false
  readyPlanStartNs : ℕ := 0
  readyPlanEndNs : ℕ := 0
  readyPlanQueryId : UInt64 := 0
  planReady : Bool := false
  deriving DecidableEq, Repr

namespace PlanCarry

/-- `PLAN_START`. -/
def start (c : PlanCarry) (ev : TraceEvent) : PlanCarry :=
  { c with planStartNs := ev.ts, planQueryId := ev.queryId, planOpen := true }

/-- `PLAN_END`: an open plan that did not start later becomes ready for the next execution; its
query id falls back to the one of the marker. -/
def finish (c : PlanCarry) (ev : TraceEvent) : PlanCarry :=
  let c := if c.planOpen ∧ c.planStartNs ≤ ev.ts then
    { c with
      readyPlanStartNs := c.planStartNs
      readyPlanEndNs := ev.ts
      readyPlanQueryId := if c.planQueryId ≠ 0 then c.planQueryId else ev.queryId
      planReady := true } else c
  { c with planOpen := false }

/-- A ready plan belongs to an execution whose query id does not contradict it. -/
def attaches (c : PlanCarry) (queryId : UInt64) : Bool :=
  c.planReady && (c.readyPlanQueryId = 0 || queryId = 0 || c.readyPlanQueryId = queryId)

/-- `EXEC_START` consumes a ready plan, attached or not. -/
def consume (c : PlanCarry) : PlanCarry := { c with planReady := false }

/-- `CMD_END` forgets both. -/
def clear (c : PlanCarry) : PlanCarry := { c with planOpen := false, planReady := false }

end PlanCarry

/-! ### Rows and state -/

/-- `struct pgwt_execution`. -/
structure Execution where
  pid : UInt32
  queryId : UInt64
  startNs : ℕ
  endNs : ℕ
  planStartNs : ℕ
  planEndNs : ℕ
  hasPlan : Bool
  inProgress : Bool
  endInferred : Bool
  startedBeforeWindow : Bool
  matchesEventFilter : ℤ
  nEvents : ℤ
  nWorkers : ℤ
  deriving DecidableEq, Repr

/-- The boundary fields of a row, in the order of the contract in `src/exec_index.h`. -/
structure Boundary where
  pid : UInt32
  queryId : UInt64
  startNs : ℕ
  endNs : ℕ
  planStartNs : ℕ
  planEndNs : ℕ
  hasPlan : Bool
  inProgress : Bool
  endInferred : Bool
  startedBeforeWindow : Bool
  deriving DecidableEq, Repr

/-- The boundary fields of a row. -/
def Execution.boundary (r : Execution) : Boundary :=
  ⟨r.pid, r.queryId, r.startNs, r.endNs, r.planStartNs, r.planEndNs, r.hasPlan, r.inProgress,
    r.endInferred, r.startedBeforeWindow⟩

/-- `struct exec_pid_state`. -/
structure ExecPidState where
  openRows : List ℕ := []
  topAttributable : Bool := false
  plan : PlanCarry := {}
  deriving DecidableEq, Repr

/-- `struct pgwt_backend_link`: a parallel worker and its leader. -/
structure BackendLink where
  pid : UInt32
  leaderPid : UInt32
  deriving DecidableEq, Repr

/-- The locals of `pgwt_compute_executions`: the rows, the state of each process and, for each
link, the row a worker was last counted in. -/
structure ExecState where
  rows : List Execution := []
  states : UInt32 → ExecPidState := fun _ => {}
  workerLastRow : ℕ → Option ℕ := fun _ => none

/-- `exec_pid_attributable_row`: the innermost row, while it is the one that just started. -/
def ExecPidState.attributableRow (st : ExecPidState) : Option ℕ :=
  if st.topAttributable then st.openRows.head? else none

/-- The binary search of `worker_link_index` between `lo` and `hi`. -/
def linkLowerBound (links : List BackendLink) (pid : UInt32) (lo hi : ℕ) : ℕ :=
  if lo < hi then
    let mid := (lo + hi) / 2
    if (links[mid]?.map (·.pid)).getD 0 < pid then linkLowerBound links pid (mid + 1) hi
    else linkLowerBound links pid lo mid
  else lo
termination_by hi - lo

/-- `worker_link_index`: the link of a pid that has a leader. -/
def workerLinkIndex (links : List BackendLink) (pid : UInt32) : Option ℕ :=
  let i := linkLowerBound links pid 0 links.length
  match links[i]? with
  | some l => if l.pid = pid ∧ l.leaderPid ≠ 0 then some i else none
  | none => none

/-- `event_right_open_flagged`. -/
def rightOpenFlagged (ev : TraceEvent) : Bool := ev.flags &&& (flagRightOpen ||| flagEdgeClose) ≠ 0

/-! ### The sweep -/

/-- The row an `EXEC_START` opens. -/
def execRow (fromNs : ℕ) (plan : PlanCarry) (ev : TraceEvent) : Execution :=
  let attached := plan.attaches ev.queryId
  { pid := ev.pid
    queryId := ev.queryId
    startNs := ev.ts
    endNs := 0
    planStartNs := if attached then plan.readyPlanStartNs else 0
    planEndNs := if attached then plan.readyPlanEndNs else 0
    hasPlan := attached
    inProgress := true
    endInferred := false
    startedBeforeWindow := ev.ts < fromNs
    matchesEventFilter := 0
    nEvents := 0
    nWorkers := 0 }

/-- An `EXEC_END` closes the row it pops, and fills a missing query id. -/
def Execution.close (ev : TraceEvent) (r : Execution) : Execution :=
  if r.startNs ≤ ev.ts then
    { r with
      endNs := ev.ts
      inProgress := false
      queryId := if r.queryId = 0 then ev.queryId else r.queryId }
  else r

/-- A `CMD_END` closes a row that is still in progress, with an inferred end. -/
def Execution.closeInferred (ev : TraceEvent) (r : Execution) : Execution :=
  if r.inProgress ∧ r.startNs ≤ ev.ts then
    { r with endNs := ev.ts, inProgress := false, endInferred := true }
  else r

/-- `EXEC_START`: push a row, never overwrite; a start past the window leaves no row. -/
def execStart (fromNs toNs : ℕ) (s : ExecState) (ev : TraceEvent) : ExecState :=
  let st := s.states ev.pid
  if ev.ts ≤ toNs then
    { s with
      rows := s.rows ++ [execRow fromNs st.plan ev]
      states := Function.update s.states ev.pid
        { openRows := s.rows.length :: st.openRows
          topAttributable := true
          plan := st.plan.consume } }
  else
    { s with
      states := Function.update s.states ev.pid
        { st with topAttributable := false, plan := st.plan.consume } }

/-- `EXEC_END`: pop the innermost row. -/
def execEnd (s : ExecState) (ev : TraceEvent) : ExecState :=
  let st := s.states ev.pid
  match st.openRows with
  | [] => { s with states := Function.update s.states ev.pid { st with topAttributable := false } }
  | i :: stack =>
    { s with
      rows := s.rows.modify i (Execution.close ev)
      states := Function.update s.states ev.pid
        { st with openRows := stack, topAttributable := false } }

/-- `CMD_END`: pop and close every open row of the process. -/
def cmdEnd (s : ExecState) (ev : TraceEvent) : ExecState :=
  let st := s.states ev.pid
  { s with
    rows := st.openRows.foldl (fun rows i => rows.modify i (Execution.closeInferred ev)) s.rows
    states := Function.update s.states ev.pid
      { openRows := [], topAttributable := false, plan := st.plan.clear } }

/-- A matching record counts towards the row of its process. -/
def countOwn (hit : Bool) (s : ExecState) (ev : TraceEvent) : ExecState :=
  match (s.states ev.pid).attributableRow with
  | some i =>
    if hit then
      { s with rows := s.rows.modify i fun r =>
          { r with nEvents := r.nEvents + 1, matchesEventFilter := 1 } }
    else s
  | none => s

/-- A matching record of a parallel worker counts towards the row of its leader, once per row. -/
def countWorker (hit : Bool) (links : List BackendLink) (s : ExecState) (ev : TraceEvent) :
    ExecState :=
  match workerLinkIndex links ev.pid with
  | none => s
  | some wi =>
    match links[wi]?.bind fun l => (s.states l.leaderPid).attributableRow with
    | none => s
    | some i =>
      if hit ∧ s.workerLastRow wi ≠ some i then
        { s with
          rows := s.rows.modify i fun r =>
            { r with nWorkers := r.nWorkers + 1, matchesEventFilter := 1 }
          workerLastRow := Function.update s.workerLastRow wi (some i) }
      else s

/-- The branch of the sweep for records that are not markers; the pid of the filter selects
executions, not records. -/
def countEvent (fromNs toNs : ℕ) (f : Filter) (links : List BackendLink) (s : ExecState)
    (ev : TraceEvent) : ExecState :=
  let hit := intervalOverlaps ev.ts ev.dur fromNs toNs && filterMatches { f with pid := 0 } ev
  countWorker hit links (countOwn hit s ev) ev

/-- One iteration of the sweep. -/
def execStep (fromNs toNs : ℕ) (f : Filter) (links : List BackendLink) (s : ExecState)
    (ev : TraceEvent) : ExecState :=
  let st := s.states ev.pid
  if rightOpenFlagged ev then s
  else if ev.oldEvent = markerPlanStart then
    { s with states := Function.update s.states ev.pid { st with plan := st.plan.start ev } }
  else if ev.oldEvent = markerPlanEnd then
    { s with states := Function.update s.states ev.pid { st with plan := st.plan.finish ev } }
  else if ev.oldEvent = markerExecStart then execStart fromNs toNs s ev
  else if ev.oldEvent = markerExecEnd then execEnd s ev
  else if ev.oldEvent = markerCmdEnd then cmdEnd s ev
  else if isMarker ev.oldEvent || ev.flags &&& flagSample ≠ 0 then s
  else countEvent fromNs toNs f links s ev

/-- The compaction at the end of `pgwt_compute_executions` keeps the rows that meet the window. -/
def Boundary.kept (fromNs toNs : ℕ) (b : Boundary) : Bool :=
  !(toNs < b.startNs) && !(!b.inProgress && b.endNs < fromNs)

/-- `pgwt_compute_executions`. -/
def computeExecutions (events : List TraceEvent) (fromNs toNs : ℕ) (f : Filter)
    (links : List BackendLink) : List Execution :=
  (events.foldl (execStep fromNs toNs f links) {}).rows.filter fun r => r.boundary.kept fromNs toNs

/-! ### Records that are not markers -/

theorem map_boundary_modify {g : Execution → Execution} (h : ∀ r, (g r).boundary = r.boundary)
    (rows : List Execution) (i : ℕ) :
    (rows.modify i g).map Execution.boundary = rows.map Execution.boundary := by
  induction rows generalizing i with
  | nil => simp
  | cons r rows ih =>
    cases i with
    | zero => simp [h]
    | succ i => simp [ih]

/-- Two states with the same stacks, plans and boundaries. -/
def SameBoundaries (s s' : ExecState) : Prop :=
  s'.states = s.states ∧ s'.rows.map Execution.boundary = s.rows.map Execution.boundary

theorem countOwn_boundary (hit : Bool) (s : ExecState) (ev : TraceEvent) :
    SameBoundaries s (countOwn hit s ev) := by
  unfold countOwn
  split
  · split_ifs
    · refine ⟨rfl, map_boundary_modify ?_ s.rows _⟩
      exact fun _ => rfl
    · exact ⟨rfl, rfl⟩
  · exact ⟨rfl, rfl⟩

theorem countWorker_boundary (hit : Bool) (links : List BackendLink) (s : ExecState)
    (ev : TraceEvent) : SameBoundaries s (countWorker hit links s ev) := by
  unfold countWorker
  split
  · exact ⟨rfl, rfl⟩
  · split
    · exact ⟨rfl, rfl⟩
    · split_ifs
      · refine ⟨rfl, map_boundary_modify ?_ s.rows _⟩
        exact fun _ => rfl
      · exact ⟨rfl, rfl⟩

theorem countEvent_boundary (fromNs toNs : ℕ) (f : Filter) (links : List BackendLink)
    (s : ExecState) (ev : TraceEvent) :
    SameBoundaries s (countEvent fromNs toNs f links s ev) := by
  obtain ⟨hst, hrows⟩ := countOwn_boundary
    (intervalOverlaps ev.ts ev.dur fromNs toNs && filterMatches { f with pid := 0 } ev) s ev
  obtain ⟨hst', hrows'⟩ := countWorker_boundary
    (intervalOverlaps ev.ts ev.dur fromNs toNs && filterMatches { f with pid := 0 } ev) links
    (countOwn (intervalOverlaps ev.ts ev.dur fromNs toNs &&
      filterMatches { f with pid := 0 } ev) s ev) ev
  exact ⟨hst'.trans hst, hrows'.trans hrows⟩

/-- **Markers only.** A record that is not a marker changes no boundary field, no stack and no
plan, whatever the filter and the links. -/
theorem execStep_boundary (fromNs toNs : ℕ) (f : Filter) (links : List BackendLink)
    (s : ExecState) {ev : TraceEvent} (h : isMarker ev.oldEvent = false) :
    SameBoundaries s (execStep fromNs toNs f links s ev) := by
  have hne : ∀ m, isMarker m = true → ev.oldEvent ≠ m := by
    rintro m hm rfl
    exact absurd (h.symm.trans hm) Bool.false_ne_true
  simp only [execStep, hne markerPlanStart (by decide), hne markerPlanEnd (by decide),
    hne markerExecStart (by decide), hne markerExecEnd (by decide),
    hne markerCmdEnd (by decide), if_false]
  split_ifs
  · exact ⟨rfl, rfl⟩
  · exact ⟨rfl, rfl⟩
  · exact countEvent_boundary ..

end PgWaitTracer
