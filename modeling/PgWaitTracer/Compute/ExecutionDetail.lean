import PgWaitTracer.Compute.Executions

/-!
# The detail of one execution

`pgwt_compute_execution_detail` (`src/compute.c`) walks the records once for a single execution,
given by the process, the start and the end of its row. It finds the `EXEC_START` at that start,
gives the execution its plan, and files the records that close inside it into the lane of the
process or of one of its parallel workers.

The name of an event in a lane is a function of its id and is left out. Allocation is taken to
succeed.

## Main results

* `detail_before`, `detail_after`: the walk before and after the start of
  the execution.
-/

namespace PgWaitTracer

/-! ### Lanes -/

/-- `struct pgwt_exec_event`, without the name. -/
structure ExecEvent where
  eventId : UInt32
  startNs : ℕ
  durationNs : ℕ
  rawDurationNs : ℕ
  hasCpu : Bool
  cpuNs : ℕ
  deriving DecidableEq, Repr

/-- `struct pgwt_exec_lane`. -/
structure ExecLane where
  pid : UInt32
  events : List ExecEvent := []
  totalEvents : ℕ := 0
  deriving DecidableEq, Repr

/-- `struct pgwt_execution_detail_result`. -/
structure ExecutionDetail where
  foundExecution : Bool := false
  queryId : UInt64 := 0
  planStartNs : ℕ := 0
  planEndNs : ℕ := 0
  hasPlan : Bool := false
  leader : ExecLane
  workers : List ExecLane := []
  totalEvents : ℕ := 0
  keptEvents : ℕ := 0
  deriving DecidableEq, Repr

/-- `detail_prorate`. -/
def detailProrate (value num den : ℕ) : ℕ :=
  if den = 0 ∨ den ≤ num then value else value * num / den

/-- The entry of a record, clipped to the execution. -/
def detailEvent (startNs endNs : ℕ) (ev : TraceEvent) : ExecEvent :=
  let cs := max (ev.ts - ev.dur) startNs
  let clipped := min ev.ts endNs - cs
  { eventId := ev.oldEvent
    startNs := cs
    durationNs := clipped
    rawDurationNs := ev.dur
    hasCpu := ev.cpuNs ≠ cpuNsUnknown
    cpuNs := if ev.cpuNs ≠ cpuNsUnknown then detailProrate ev.cpuNs.toNat clipped ev.dur else 0 }

/-- `detail_lane_add`: every record counts, the first `maxEvents` are kept. -/
def ExecLane.add (maxEvents startNs endNs : ℕ) (ev : TraceEvent) (lane : ExecLane) : ExecLane :=
  { lane with
    totalEvents := lane.totalEvents + 1
    events := if maxEvents ≤ lane.events.length then lane.events
      else lane.events ++ [detailEvent startNs endNs ev] }

/-- `detail_worker_leader`: 0 for a process that is no parallel worker. -/
def detailWorkerLeader (links : List BackendLink) (pid : UInt32) : UInt32 :=
  match workerLinkIndex links pid with
  | some i => (links[i]?.map (·.leaderPid)).getD 0
  | none => 0

/-- `detail_worker_lane` and the entry it is found or made for. -/
def addToWorker (add : ExecLane → ExecLane) (pid : UInt32) : List ExecLane → List ExecLane
  | [] => [add { pid := pid }]
  | lane :: lanes => if lane.pid = pid then add lane :: lanes else lane :: addToWorker add pid lanes

/-! ### The walk -/

/-- The locals of `pgwt_compute_execution_detail`. -/
structure DetailState where
  plan : PlanCarry := {}
  foundExec : Bool := false
  insideExec : Bool := false
  out : ExecutionDetail

/-- Give the execution a plan that is ready. -/
def ExecutionDetail.setPlan (out : ExecutionDetail) (plan : PlanCarry) : ExecutionDetail :=
  { out with
    planStartNs := plan.readyPlanStartNs
    planEndNs := plan.readyPlanEndNs
    hasPlan := true }

/-- `PLAN_END`: a plan that ends inside an execution that has none is its plan too. -/
def detailPlanEnd (endNs : ℕ) (d : DetailState) (ev : TraceEvent) : DetailState :=
  let plan := d.plan.finish ev
  let late := d.plan.planOpen ∧ d.plan.planStartNs ≤ ev.ts ∧ d.foundExec ∧ d.out.hasPlan = false ∧
    ev.ts ≤ endNs ∧ plan.attaches d.out.queryId
  { d with plan := plan, out := if late then d.out.setPlan plan else d.out }

/-- `EXEC_START`: the one asked for, or one that ends it. -/
def detailExecStart (startNs : ℕ) (d : DetailState) (ev : TraceEvent) : DetailState :=
  if ev.ts = startNs then
    let out := { d.out with foundExecution := true, queryId := ev.queryId }
    { plan := d.plan.consume
      foundExec := true
      insideExec := true
      out := if d.plan.attaches ev.queryId then out.setPlan d.plan else out }
  else { d with plan := d.plan.consume, insideExec := false }

/-- A record that the walk may file. -/
def detailRecord (leaderPid : UInt32) (startNs endNs : ℕ) (f : Filter) (links : List BackendLink)
    (maxEvents : ℕ) (d : DetailState) (ev : TraceEvent) : DetailState :=
  if isMarker ev.oldEvent ∨ ev.flags &&& flagSample ≠ 0 ∨ d.insideExec = false ∨
      intervalOverlaps ev.ts ev.dur startNs endNs = false ∨
      filterMatches { f with pid := 0 } ev = false then d
  else if ev.pid = leaderPid then
    { d with out := { d.out with leader := d.out.leader.add maxEvents startNs endNs ev } }
  else if detailWorkerLeader links ev.pid = leaderPid then
    { d with
      out := { d.out with
        workers := addToWorker (ExecLane.add maxEvents startNs endNs ev) ev.pid d.out.workers } }
  else d

/-- One iteration of the walk. -/
def detailStep (leaderPid : UInt32) (startNs endNs : ℕ) (f : Filter) (links : List BackendLink)
    (maxEvents : ℕ) (d : DetailState) (ev : TraceEvent) : DetailState :=
  if rightOpenFlagged ev then d
  else if ev.pid = leaderPid ∧ ev.oldEvent = markerPlanStart then { d with plan := d.plan.start ev }
  else if ev.pid = leaderPid ∧ ev.oldEvent = markerPlanEnd then detailPlanEnd endNs d ev
  else if ev.pid = leaderPid ∧ ev.oldEvent = markerExecStart then detailExecStart startNs d ev
  else if ev.pid = leaderPid ∧ ev.oldEvent = markerExecEnd then { d with insideExec := false }
  else detailRecord leaderPid startNs endNs f links maxEvents d ev

/-- The totals over the lanes. -/
def ExecutionDetail.total (out : ExecutionDetail) : ExecutionDetail :=
  { out with
    totalEvents := out.leader.totalEvents + (out.workers.map ExecLane.totalEvents).sum
    keptEvents := out.leader.events.length + (out.workers.map fun l => l.events.length).sum }

/-- `pgwt_compute_execution_detail`. -/
def computeExecutionDetail (events : List TraceEvent) (leaderPid : UInt32) (startNs endNs : ℕ)
    (f : Filter) (links : List BackendLink) (maxEvents : ℕ) : ExecutionDetail :=
  if maxEvents = 0 then { leader := { pid := leaderPid } }
  else (events.foldl (detailStep leaderPid startNs endNs f links maxEvents)
    { out := { leader := { pid := leaderPid } } }).out.total

/-! ### What one record does -/

/-- A marker of the process that the walks look at. -/
def isMarkOf (p m : UInt32) (ev : TraceEvent) : Bool :=
  !rightOpenFlagged ev && (ev.pid = p && ev.oldEvent = m)

/-- A record of the process that the walks count: a closed exact interval no longer than its end. -/
def recordOf (p : UInt32) (ev : TraceEvent) : Bool :=
  !rightOpenFlagged ev && (ev.pid = p && !isMarker ev.oldEvent && ev.flags &&& flagSample = 0 &&
    filterMatches {} ev)

/-- One marker on the plan of a process, `CMD_END` apart. -/
def planStep (p : UInt32) (c : PlanCarry) (ev : TraceEvent) : PlanCarry :=
  if isMarkOf p markerPlanStart ev then c.start ev
  else if isMarkOf p markerPlanEnd ev then c.finish ev
  else if isMarkOf p markerExecStart ev then c.consume
  else c

/-- The plan that the plan markers and the starts of a process leave, whatever its commands do. -/
def carryPlan (p : UInt32) (evs : List TraceEvent) : PlanCarry := evs.foldl (planStep p) {}

/-- A `PLAN_END` that ends an open plan of the query. -/
def PlanCarry.endsPlan (c : PlanCarry) (queryId : UInt64) (ev : TraceEvent) : Prop :=
  c.planOpen = true ∧ c.planStartNs ≤ ev.ts ∧ (c.finish ev).attaches queryId = true

instance (c : PlanCarry) (queryId : UInt64) (ev : TraceEvent) : Decidable (c.endsPlan queryId ev) :=
  inferInstanceAs (Decidable (_ ∧ _))

theorem isMarkOf_of_ne {p m : UInt32} (m' : UInt32) {ev : TraceEvent} (h : isMarkOf p m ev = true)
    (hne : m ≠ m') : isMarkOf p m' ev = false := by
  simp only [isMarkOf, Bool.and_eq_true, decide_eq_true_eq] at h
  simp [isMarkOf, h.2.2, hne]

theorem recordOf_of_isMarkOf {p m : UInt32} {ev : TraceEvent} (h : isMarkOf p m ev = true)
    (hm : isMarker m = true) : recordOf p ev = false := by
  simp only [isMarkOf, Bool.and_eq_true, decide_eq_true_eq] at h
  simp [recordOf, h.2.2, hm]

/-- An execution without a plan finds one later: a `PLAN_END` before its end closes an open plan. -/
def LatePlan (p : UInt32) (endNs : ℕ) (queryId : UInt64) (c : PlanCarry) (post : List TraceEvent) :
    Prop :=
  ∃ mid ev rest, post = mid ++ ev :: rest ∧ isMarkOf p markerPlanEnd ev = true ∧ ev.ts ≤ endNs ∧
    (mid.foldl (planStep p) c).endsPlan queryId ev

theorem latePlan_cons {p : UInt32} {endNs : ℕ} {queryId : UInt64} {c : PlanCarry} {ev : TraceEvent}
    {post : List TraceEvent} : LatePlan p endNs queryId c (ev :: post) ↔
      isMarkOf p markerPlanEnd ev = true ∧ ev.ts ≤ endNs ∧ c.endsPlan queryId ev ∨
        LatePlan p endNs queryId (planStep p c ev) post := by
  constructor
  · rintro ⟨mid, e, rest, heq, hm, hts, hends⟩
    cases mid with
    | nil =>
      obtain ⟨rfl, rfl⟩ := List.cons.inj heq
      exact Or.inl ⟨hm, hts, hends⟩
    | cons x mid =>
      obtain ⟨rfl, rfl⟩ := List.cons.inj heq
      exact Or.inr ⟨mid, e, rest, rfl, hm, hts, hends⟩
  · rintro (⟨hm, hts, hends⟩ | ⟨mid, e, rest, rfl, hm, hts, hends⟩)
    · exact ⟨[], ev, post, rfl, hm, hts, hends⟩
    · exact ⟨ev :: mid, e, rest, rfl, hm, hts, hends⟩

section Step

variable {p : UInt32} {startNs endNs : ℕ} {links : List BackendLink} {maxEvents : ℕ}
  {d : DetailState} {ev : TraceEvent}

theorem detailStep_eq (f : Filter) : detailStep p startNs endNs f links maxEvents d ev =
    if isMarkOf p markerPlanStart ev then { d with plan := d.plan.start ev }
    else if isMarkOf p markerPlanEnd ev then detailPlanEnd endNs d ev
    else if isMarkOf p markerExecStart ev then detailExecStart startNs d ev
    else if isMarkOf p markerExecEnd ev then { d with insideExec := false }
    else if rightOpenFlagged ev then d
    else detailRecord p startNs endNs f links maxEvents d ev := by
  cases hr : rightOpenFlagged ev <;> simp [detailStep, isMarkOf, hr]

variable (startNs endNs links maxEvents) in
theorem detailRecord_frame (f : Filter) :
    let d' := detailRecord p startNs endNs f links maxEvents d ev
    d'.plan = d.plan ∧ d'.foundExec = d.foundExec ∧ d'.insideExec = d.insideExec ∧
      d'.out.foundExecution = d.out.foundExecution ∧ d'.out.queryId = d.out.queryId ∧
      d'.out.hasPlan = d.out.hasPlan ∧ d'.out.planStartNs = d.out.planStartNs ∧
      d'.out.planEndNs = d.out.planEndNs := by
  intro d'
  simp only [d', detailRecord]
  split_ifs <;> exact ⟨rfl, rfl, rfl, rfl, rfl, rfl, rfl, rfl⟩

theorem detailRecord_of_outside (f : Filter) (h : d.insideExec = false) :
    detailRecord p startNs endNs f links maxEvents d ev = d := by
  rw [detailRecord, if_pos (by simp [h])]

theorem detailRecord_total (h : rightOpenFlagged ev = false) :
    (detailRecord p startNs endNs {} links maxEvents d ev).out.leader.totalEvents =
      d.out.leader.totalEvents +
        if d.insideExec && recordOf p ev && intervalOverlaps ev.ts ev.dur startNs endNs then 1
        else 0 := by
  rw [detailRecord]
  by_cases hskip : isMarker ev.oldEvent ∨ ev.flags &&& flagSample ≠ 0 ∨ d.insideExec = false ∨
      intervalOverlaps ev.ts ev.dur startNs endNs = false ∨ filterMatches {} ev = false
  · rw [if_pos hskip, if_neg]
    · rfl
    · simp only [recordOf, h, Bool.and_eq_true, decide_eq_true_eq, Bool.not_eq_true']
      rintro ⟨⟨hin, -, ⟨⟨-, hm⟩, hs⟩, hf⟩, ho⟩
      rcases hskip with h1 | h1 | h1 | h1 | h1
      · exact absurd h1 (by simp [hm])
      · exact h1 hs
      · exact absurd h1 (by simp [hin])
      · exact absurd h1 (by simp [ho])
      · exact absurd h1 (by simp [hf])
  · rw [if_neg hskip]
    simp only [not_or, Bool.not_eq_true, not_not, Bool.not_eq_false] at hskip
    obtain ⟨hm, hs, hin, ho, hf⟩ := hskip
    by_cases hp : ev.pid = p
    · simp [hp, recordOf, h, hm, hs, hin, ho, hf, ExecLane.add]
    · simp only [hp, if_false, recordOf]
      split_ifs <;> simp_all

/-! ### The walk before the start -/

/-- The answer of a walk that has found nothing. -/
def ExecutionDetail.empty (p : UInt32) : ExecutionDetail := { leader := { pid := p } }

theorem detailStep_before (f : Filter) {c : PlanCarry}
    (h : isMarkOf p markerExecStart ev = true → ev.ts ≠ startNs) :
    detailStep p startNs endNs f links maxEvents { plan := c, out := .empty p } ev =
      { plan := planStep p c ev, out := .empty p } := by
  rw [detailStep_eq, planStep]
  split_ifs with h1 h2 h3 h4 h5
  · rfl
  · simp [detailPlanEnd]
  · rw [detailExecStart, if_neg (h h3)]
  · rfl
  · rfl
  · exact detailRecord_of_outside f rfl

/-- **Before the start** the walk only carries the plan. -/
theorem detail_before (f : Filter) (c : PlanCarry) (pre : List TraceEvent)
    (h : ∀ ev ∈ pre, isMarkOf p markerExecStart ev = true → ev.ts ≠ startNs) :
    pre.foldl (detailStep p startNs endNs f links maxEvents) { plan := c, out := .empty p } =
      { plan := pre.foldl (planStep p) c, out := .empty p } := by
  induction pre generalizing c with
  | nil => rfl
  | cons ev pre ih =>
    rw [List.foldl_cons, detailStep_before f (h ev List.mem_cons_self),
      ih _ fun e he => h e (List.mem_cons_of_mem _ he), List.foldl_cons]

/-- The walk at the start that is asked for. -/
def DetailState.started (p : UInt32) (c : PlanCarry) (ev : TraceEvent) : DetailState :=
  let out := { ExecutionDetail.empty p with foundExecution := true, queryId := ev.queryId }
  { plan := c.consume
    foundExec := true
    insideExec := true
    out := if c.attaches ev.queryId then out.setPlan c else out }

theorem DetailState.started_out (p : UInt32) (c : PlanCarry) (ev : TraceEvent) :
    let out := (started p c ev).out
    out.foundExecution = true ∧ out.queryId = ev.queryId ∧
      out.hasPlan = c.attaches ev.queryId ∧ out.leader.totalEvents = 0 ∧
      (out.planStartNs = if c.attaches ev.queryId then c.readyPlanStartNs else 0) ∧
      (out.planEndNs = if c.attaches ev.queryId then c.readyPlanEndNs else 0) := by
  simp only [started]
  cases h : c.attaches ev.queryId <;> exact ⟨rfl, rfl, rfl, rfl, rfl, rfl⟩

theorem detailStep_start (f : Filter) {c : PlanCarry} (hm : isMarkOf p markerExecStart ev = true)
    (hts : ev.ts = startNs) :
    detailStep p startNs endNs f links maxEvents { plan := c, out := .empty p } ev =
      .started p c ev := by
  rw [detailStep_eq, if_neg (by simp [isMarkOf_of_ne markerPlanStart hm (by decide)]),
    if_neg (by simp [isMarkOf_of_ne markerPlanEnd hm (by decide)]), if_pos hm,
    detailExecStart, if_pos hts]
  rfl

/-! ### The walk after the start -/

/-- A record ends the execution for the walk. -/
def endsInside (p : UInt32) (ev : TraceEvent) : Bool :=
  isMarkOf p markerExecStart ev || isMarkOf p markerExecEnd ev

/-- The records of the process that the walk counts, from a point inside the execution. -/
def insideRecords (p : UInt32) (startNs endNs : ℕ) (post : List TraceEvent) : ℕ :=
  (post.takeWhile fun ev => !endsInside p ev).countP fun ev =>
    recordOf p ev && intervalOverlaps ev.ts ev.dur startNs endNs

theorem endsInside_of_not_mark (h : isMarkOf p markerExecStart ev = false)
    (h' : isMarkOf p markerExecEnd ev = false) : endsInside p ev = false := by
  rw [endsInside, h, h']
  rfl

theorem detailPlanEnd_out (hfound : d.foundExec = true) :
    (detailPlanEnd endNs d ev).out =
      if d.out.hasPlan = false ∧ ev.ts ≤ endNs ∧ d.plan.endsPlan d.out.queryId ev then
        d.out.setPlan (d.plan.finish ev) else d.out := by
  rw [detailPlanEnd]
  refine if_congr ?_ rfl rfl
  rw [PlanCarry.endsPlan]
  constructor
  · rintro ⟨ho, hs, -, hp, hts, ha⟩
    exact ⟨hp, hts, ho, hs, ha⟩
  · rintro ⟨hp, hts, ho, hs, ha⟩
    exact ⟨ho, hs, hfound, hp, hts, ha⟩

variable (startNs endNs links maxEvents) in
/-- One record after the start: the plan goes on, and what was found stays found. -/
theorem detailStep_after (f : Filter) (hfound : d.foundExec = true)
    (h : isMarkOf p markerExecStart ev = true → ev.ts ≠ startNs) :
    let d' := detailStep p startNs endNs f links maxEvents d ev
    d'.plan = planStep p d.plan ev ∧ d'.foundExec = true ∧
      d'.insideExec = (d.insideExec && !endsInside p ev) ∧
      d'.out.foundExecution = d.out.foundExecution ∧ d'.out.queryId = d.out.queryId := by
  intro d'
  simp only [d', detailStep_eq, planStep]
  by_cases h1 : isMarkOf p markerPlanStart ev = true
  · have h3 := isMarkOf_of_ne markerExecStart h1 (by decide)
    have h4 := isMarkOf_of_ne markerExecEnd h1 (by decide)
    simp [h1, endsInside_of_not_mark h3 h4, hfound]
  by_cases h2 : isMarkOf p markerPlanEnd ev = true
  · have h3 := isMarkOf_of_ne markerExecStart h2 (by decide)
    have h4 := isMarkOf_of_ne markerExecEnd h2 (by decide)
    rw [if_neg h1, if_pos h2, if_neg h1, if_pos h2, detailPlanEnd_out hfound,
      endsInside_of_not_mark h3 h4, Bool.not_false, Bool.and_true]
    refine ⟨rfl, hfound, rfl, ?_, ?_⟩ <;> split_ifs <;> rfl
  by_cases h3 : isMarkOf p markerExecStart ev = true
  · rw [if_neg h1, if_neg h2, if_pos h3, if_neg h1, if_neg h2, if_pos h3, detailExecStart,
      if_neg (h h3)]
    exact ⟨rfl, hfound, by simp [endsInside, h3], rfl, rfl⟩
  rw [if_neg h1, if_neg h2, if_neg h3, if_neg h1, if_neg h2, if_neg h3]
  by_cases h4 : isMarkOf p markerExecEnd ev = true
  · rw [if_pos h4]
    exact ⟨rfl, hfound, by simp [endsInside, h4], rfl, rfl⟩
  rw [if_neg h4, endsInside_of_not_mark (Bool.not_eq_true _ ▸ h3) (Bool.not_eq_true _ ▸ h4),
    Bool.not_false, Bool.and_true]
  split_ifs
  · exact ⟨rfl, hfound, rfl, rfl, rfl⟩
  · obtain ⟨hplan, hf, hin, hex, hq, -⟩ := detailRecord_frame startNs endNs links maxEvents f
    exact ⟨hplan, hf.trans hfound, hin, hex, hq⟩

variable (startNs endNs links maxEvents) in
theorem detailStep_plan (f : Filter) (hfound : d.foundExec = true)
    (h : isMarkOf p markerExecStart ev = true → ev.ts ≠ startNs) :
    let d' := detailStep p startNs endNs f links maxEvents d ev
    if d.out.hasPlan = false ∧ isMarkOf p markerPlanEnd ev = true ∧ ev.ts ≤ endNs ∧
        d.plan.endsPlan d.out.queryId ev then d'.out.hasPlan = true
    else d'.out.hasPlan = d.out.hasPlan ∧ d'.out.planStartNs = d.out.planStartNs ∧
      d'.out.planEndNs = d.out.planEndNs := by
  intro d'
  simp only [d', detailStep_eq]
  by_cases h2 : isMarkOf p markerPlanEnd ev = true
  · have h1 : ¬ isMarkOf p markerPlanStart ev = true := by
      rw [isMarkOf_of_ne _ h2 (by decide)]
      simp
    rw [if_neg h1, if_pos h2, detailPlanEnd_out hfound]
    by_cases hlate : d.out.hasPlan = false ∧ ev.ts ≤ endNs ∧ d.plan.endsPlan d.out.queryId ev
    · rw [if_pos ⟨hlate.1, h2, hlate.2⟩, if_pos hlate]
      rfl
    · rw [if_neg fun hl => hlate ⟨hl.1, hl.2.2⟩, if_neg hlate]
      exact ⟨rfl, rfl, rfl⟩
  · rw [if_neg (fun hl => h2 hl.2.1), if_neg h2]
    split_ifs with h1 h3 h4 h5
    · exact ⟨rfl, rfl, rfl⟩
    · rw [detailExecStart, if_neg (h h3)]
      exact ⟨rfl, rfl, rfl⟩
    · exact ⟨rfl, rfl, rfl⟩
    · exact ⟨rfl, rfl, rfl⟩
    · exact (detailRecord_frame startNs endNs links maxEvents f).2.2.2.2.2

variable (startNs endNs links maxEvents) in
theorem detailStep_total (hfound : d.foundExec = true)
    (h : isMarkOf p markerExecStart ev = true → ev.ts ≠ startNs) :
    (detailStep p startNs endNs {} links maxEvents d ev).out.leader.totalEvents =
      d.out.leader.totalEvents +
        if d.insideExec && recordOf p ev && intervalOverlaps ev.ts ev.dur startNs endNs then 1
        else 0 := by
  have hmark : ∀ m, isMarker m = true → isMarkOf p m ev = true →
      (if d.insideExec && recordOf p ev && intervalOverlaps ev.ts ev.dur startNs endNs then 1
        else 0) = 0 := by
    intro m hm hmark
    rw [recordOf_of_isMarkOf hmark hm]
    simp
  rw [detailStep_eq]
  by_cases h1 : isMarkOf p markerPlanStart ev = true
  · rw [if_pos h1, hmark _ (by decide) h1, Nat.add_zero]
  by_cases h2 : isMarkOf p markerPlanEnd ev = true
  · rw [if_neg h1, if_pos h2, hmark _ (by decide) h2, detailPlanEnd_out hfound]
    split_ifs <;> rfl
  by_cases h3 : isMarkOf p markerExecStart ev = true
  · rw [if_neg h1, if_neg h2, if_pos h3, hmark _ (by decide) h3, detailExecStart, if_neg (h h3),
      Nat.add_zero]
  by_cases h4 : isMarkOf p markerExecEnd ev = true
  · rw [if_neg h1, if_neg h2, if_neg h3, if_pos h4, hmark _ (by decide) h4, Nat.add_zero]
  rw [if_neg h1, if_neg h2, if_neg h3, if_neg h4]
  cases hr : rightOpenFlagged ev
  · exact detailRecord_total hr
  · simp [recordOf, hr]

variable (startNs endNs links maxEvents d) in
/-- **After the start** the execution stays found, a plan that it has stays, one that it lacks comes
only late, and its lane takes the records up to the end of the walk inside it. -/
theorem detail_after (post : List TraceEvent) (hfound : d.foundExec = true)
    (h : ∀ ev ∈ post, isMarkOf p markerExecStart ev = true → ev.ts ≠ startNs) :
    let out := (post.foldl (detailStep p startNs endNs {} links maxEvents) d).out
    out.foundExecution = d.out.foundExecution ∧
      (d.out.hasPlan = true → out.hasPlan = true ∧ out.planStartNs = d.out.planStartNs ∧
        out.planEndNs = d.out.planEndNs) ∧
      (d.out.hasPlan = false →
        (LatePlan p endNs d.out.queryId d.plan post → out.hasPlan = true) ∧
        (¬ LatePlan p endNs d.out.queryId d.plan post → out.hasPlan = false ∧
          out.planStartNs = d.out.planStartNs ∧ out.planEndNs = d.out.planEndNs)) ∧
      out.leader.totalEvents = d.out.leader.totalEvents +
        if d.insideExec then insideRecords p startNs endNs post else 0 := by
  induction post generalizing d with
  | nil =>
    refine ⟨rfl, fun hp => ⟨hp, rfl, rfl⟩, fun hp => ⟨?_, fun _ => ⟨hp, rfl, rfl⟩⟩, ?_⟩
    · rintro ⟨mid, e, rest, heq, -⟩
      simp at heq
    · simp [insideRecords]
  | cons ev post ih =>
    intro out
    have hev := h ev List.mem_cons_self
    obtain ⟨hplan, hf, hin, hex, hq⟩ :=
      detailStep_after startNs endNs links maxEvents {} hfound hev
    have hstep := detailStep_plan startNs endNs links maxEvents {} hfound hev
    have htot := detailStep_total startNs endNs links maxEvents hfound hev
    obtain ⟨hex', hhas', hnone', htot'⟩ := ih _ hf fun e he => h e (List.mem_cons_of_mem _ he)
    rw [hplan, hq] at hnone'
    refine ⟨hex'.trans hex, ?_, ?_, ?_⟩
    · intro hp
      rw [if_neg (by simp [hp])] at hstep
      obtain ⟨h1, h2, h3⟩ := hhas' (hstep.1.trans hp)
      exact ⟨h1, h2.trans hstep.2.1, h3.trans hstep.2.2⟩
    · intro hp
      rw [latePlan_cons]
      by_cases hlate : isMarkOf p markerPlanEnd ev = true ∧ ev.ts ≤ endNs ∧
          d.plan.endsPlan d.out.queryId ev
      · rw [if_pos ⟨hp, hlate⟩] at hstep
        exact ⟨fun _ => (hhas' hstep).1, fun hno => absurd (Or.inl hlate) hno⟩
      · rw [if_neg fun hl => hlate hl.2] at hstep
        obtain ⟨hyes, hno⟩ := hnone' (hstep.1.trans hp)
        refine ⟨fun hor => hyes (hor.resolve_left hlate), fun hor => ?_⟩
        obtain ⟨h1, h2, h3⟩ := hno fun hl => hor (Or.inr hl)
        exact ⟨h1, h2.trans hstep.2.1, h3.trans hstep.2.2⟩
    · refine htot'.trans ?_
      rw [htot, hin, insideRecords, insideRecords, List.takeWhile_cons]
      cases hins : d.insideExec
      · simp
      · cases hends : endsInside p ev
        · simp only [Bool.and_self, Bool.not_false, if_true, List.countP_cons, Bool.true_and]
          omega
        · have hrec : recordOf p ev = false := by
            rw [endsInside, Bool.or_eq_true] at hends
            rcases hends with hm | hm <;> exact recordOf_of_isMarkOf hm (by decide)
          simp [hrec]

end Step

end PgWaitTracer
