import Mathlib.Data.Rat.Defs
import Mathlib.Logic.Function.Basic
import PgWaitTracer.Lib.GrowTable
import PgWaitTracer.Trace.Event

/-!
# Execution and plan times per query

`pgwt_compute_query_lifecycle` (`src/compute.c`) scans the markers of a window. Every process has a
stack of open executions and one of open plans, found through a table of process ids
(`src/pid_index.h`); a phase that ends adds its duration to the row of the query that started it, in
another table. Both tables grow, and allocation is taken to succeed.

The milliseconds of the source are rational numbers. Stacks are listed innermost first.

## Main results

* `phases_modifyPid`: the table of processes is a function of the process id.
* `find?_lifecycleAdd`: the table of queries is a function of the query id.
-/

namespace PgWaitTracer

/-! ### State -/

/-- `struct lc_open_phase`. -/
structure OpenPhase where
  startNs : ℕ
  qid : UInt64
  deriving DecidableEq, Repr

/-- `struct lc_pid_state`. -/
structure LcPidState where
  exec : List OpenPhase := []
  plan : List OpenPhase := []
  deriving DecidableEq, Repr

/-- Count, total and samples of one kind of phase. -/
structure PhaseTimes where
  count : ℕ := 0
  totalMs : ℚ := 0
  times : List ℚ := []
  deriving DecidableEq

/-- `struct pgwt_qid_lifecycle`. -/
structure QidLifecycle where
  queryId : UInt64
  exec : PhaseTimes := {}
  plan : PhaseTimes := {}
  deriving DecidableEq

/-- `pgwt_pid_index_hash`. -/
def pidIndexHash (pid : UInt32) : ℕ := (pid.toUInt64 * 2654435761).toUInt32.toNat

/-- The hash of `lifecycle_slot`. -/
def lifecycleHash (qid : UInt64) : ℕ := (qid * 0x9e3779b9).toNat

/-- The locals and the result of `pgwt_compute_query_lifecycle`. -/
structure LifecycleState where
  pidIx : GrowTable (UInt32 × ℕ) := {}
  pidSt : List LcPidState := []
  out : GrowTable QidLifecycle := {}

/-- `pgwt_pid_index_find`. -/
def LifecycleState.pidIndexFind (s : LifecycleState) (pid : UInt32) : Option ℕ :=
  (s.pidIx.find? Prod.fst pidIndexHash pid).map Prod.snd

/-- `pgwt_lifecycle_lookup`. -/
def LifecycleState.lookup (s : LifecycleState) (qid : UInt64) : Option QidLifecycle :=
  s.out.find? QidLifecycle.queryId lifecycleHash qid

/-! ### The scan -/

/-- The place of a process, which is new at its first marker. -/
def LifecycleState.pidSlot (s : LifecycleState) (pid : UInt32) : LifecycleState × ℕ :=
  match s.pidIndexFind pid with
  | some i => (s, i)
  | none =>
    ({ s with
        pidIx := s.pidIx.put Prod.fst pidIndexHash 128 (pid, s.pidSt.length)
        pidSt := s.pidSt ++ [{}] }, s.pidSt.length)

/-- `lifecycle_sample`: no more than 10000 samples are kept. -/
def lifecycleSample (times : List ℚ) (ms : ℚ) : List ℚ :=
  if ms < 0 ∨ 10000 ≤ times.length then times else times ++ [ms]

/-- A phase that has ended. -/
def PhaseTimes.add (t : PhaseTimes) (ms : ℚ) : PhaseTimes where
  count := t.count + 1
  totalMs := t.totalMs + ms
  times := lifecycleSample t.times ms

/-- The row of a query, found or new (`lifecycle_slot`), is changed. -/
def LifecycleState.lifecycleAdd (s : LifecycleState) (qid : UInt64)
    (f : QidLifecycle → QidLifecycle) : LifecycleState :=
  let row := f ((s.lookup qid).getD { queryId := qid })
  { s with out := s.out.put QidLifecycle.queryId lifecycleHash 1024 row }

/-- The duration of a phase that ends with a marker, if it counts. -/
def endedMs (ev : TraceEvent) (op : OpenPhase) : Option ℚ :=
  if ev.ts < op.startNs ∨ op.qid = 0 then none
  else some (((ev.ts - op.startNs : ℕ) : ℚ) / 1000000)

/-- The state of a process is changed. -/
def LifecycleState.modifyPid (s : LifecycleState) (i : ℕ) (f : LcPidState → LcPidState) :
    LifecycleState :=
  { s with pidSt := s.pidSt.modify i f }

/-- The innermost phase ends: its duration is added to its query. -/
def LifecycleState.endPhase (s : LifecycleState) (ev : TraceEvent) (i : ℕ)
    (stack : LcPidState → List OpenPhase) (pop : LcPidState → LcPidState)
    (add : ℚ → QidLifecycle → QidLifecycle) : LifecycleState :=
  match (s.pidSt[i]?).bind fun st => (stack st).head? with
  | none => s
  | some op =>
    let s := s.modifyPid i pop
    match endedMs ev op with
    | none => s
    | some ms => s.lifecycleAdd op.qid (add ms)

/-- A marker of the scan. -/
def lifecycleMarker (s : LifecycleState) (ev : TraceEvent) (i : ℕ) : LifecycleState :=
  if ev.oldEvent = markerExecStart then
    s.modifyPid i fun st => { st with exec := ⟨ev.ts, ev.queryId⟩ :: st.exec }
  else if ev.oldEvent = markerExecEnd then
    s.endPhase ev i LcPidState.exec (fun st => { st with exec := st.exec.tail })
      fun ms lc => { lc with exec := lc.exec.add ms }
  else if ev.oldEvent = markerPlanStart then
    s.modifyPid i fun st => { st with plan := ⟨ev.ts, ev.queryId⟩ :: st.plan }
  else if ev.oldEvent = markerPlanEnd then
    s.endPhase ev i LcPidState.plan (fun st => { st with plan := st.plan.tail })
      fun ms lc => { lc with plan := lc.plan.add ms }
  else if ev.oldEvent = markerCmdEnd then s.modifyPid i fun _ => {}
  else s

/-- An iteration of the scan. -/
def lifecycleStep (s : LifecycleState) (ev : TraceEvent) : LifecycleState :=
  if !isMarker ev.oldEvent then s
  else lifecycleMarker (s.pidSlot ev.pid).1 ev (s.pidSlot ev.pid).2

/-- `pgwt_compute_query_lifecycle`. -/
def computeQueryLifecycle (events : List TraceEvent) : LifecycleState :=
  events.foldl lifecycleStep {}

/-! ### Tables as functions -/

/-- The open phases of a process. -/
def LifecycleState.phases (s : LifecycleState) (pid : UInt32) : LcPidState :=
  ((s.pidIndexFind pid).bind fun i => s.pidSt[i]?).getD {}

/-- Every process of the table has a place of its own. -/
structure LifecycleState.Placed (s : LifecycleState) : Prop where
  pids : s.pidIx.WellFormed Prod.fst pidIndexHash
  queries : s.out.WellFormed QidLifecycle.queryId lifecycleHash
  lt : ∀ {pid i}, s.pidIndexFind pid = some i → i < s.pidSt.length
  inj : ∀ {pid pid' i}, s.pidIndexFind pid = some i → s.pidIndexFind pid' = some i → pid = pid'

theorem placed_init : LifecycleState.Placed {} where
  pids := GrowTable.wellFormed_empty
  queries := GrowTable.wellFormed_empty
  lt := by
    intro pid i h
    exact absurd h (by simp [LifecycleState.pidIndexFind, GrowTable.find?, GrowTable.slotOf,
      LinearProbe.probe, LinearProbe.probeOrder])
  inj := by
    intro pid pid' i h
    exact absurd h (by simp [LifecycleState.pidIndexFind, GrowTable.find?, GrowTable.slotOf,
      LinearProbe.probe, LinearProbe.probeOrder])

variable {s : LifecycleState} {pid : UInt32}

/-- **The place of a process.** Nothing is open there that was not. -/
theorem LifecycleState.Placed.pidSlot (h : s.Placed) (pid : UInt32) :
    (s.pidSlot pid).1.Placed ∧ (s.pidSlot pid).1.phases = s.phases ∧
      (s.pidSlot pid).1.out = s.out ∧
      (s.pidSlot pid).1.pidIndexFind pid = some (s.pidSlot pid).2 := by
  rw [LifecycleState.pidSlot]
  cases hfind : s.pidIndexFind pid with
  | some i => exact ⟨h, rfl, rfl, hfind⟩
  | none =>
    obtain ⟨hwf, hput⟩ := h.pids.put 128 (by omega) (pid, s.pidSt.length)
    have hnew : ∀ p, ({ s with
        pidIx := s.pidIx.put Prod.fst pidIndexHash 128 (pid, s.pidSt.length)
        pidSt := s.pidSt ++ [{}] } : LifecycleState).pidIndexFind p =
          if p = pid then some s.pidSt.length else s.pidIndexFind p := by
      intro p
      rw [LifecycleState.pidIndexFind, hput]
      split_ifs <;> rfl
    refine ⟨⟨hwf, h.queries, ?_, ?_⟩, ?_, rfl, ?_⟩
    · intro p i hp
      rw [hnew] at hp
      rw [List.length_append, List.length_singleton]
      split_ifs at hp
      · simp only [Option.some.injEq] at hp
        omega
      · have := h.lt hp
        omega
    · intro p p' i hp hp'
      rw [hnew] at hp hp'
      split_ifs at hp hp' with h₁ h₂ h₂
      · exact h₁.trans h₂.symm
      · simp only [Option.some.injEq] at hp
        exact absurd (h.lt hp') (by omega)
      · simp only [Option.some.injEq] at hp'
        exact absurd (h.lt hp) (by omega)
      · exact h.inj hp hp'
    · funext p
      rw [LifecycleState.phases, LifecycleState.phases, hnew]
      split_ifs with hp
      · subst hp
        simp [hfind]
      · cases hi : s.pidIndexFind p with
        | none => rfl
        | some i =>
          simp only [Option.bind_some]
          rw [List.getElem?_append_left (h.lt hi)]
    · rw [hnew, if_pos rfl]

/-- **A change at the place of a process** is a change of its phases. -/
theorem phases_modifyPid (h : s.Placed) {i : ℕ} (hi : s.pidIndexFind pid = some i)
    (f : LcPidState → LcPidState) :
    (s.modifyPid i f).Placed ∧
      (s.modifyPid i f).phases = Function.update s.phases pid (f (s.phases pid)) := by
  have hfind : (s.modifyPid i f).pidIndexFind = s.pidIndexFind := rfl
  refine ⟨⟨h.pids, h.queries, fun hp => ?_, fun hp hp' => h.inj hp hp'⟩, ?_⟩
  · rw [hfind] at hp
    rw [LifecycleState.modifyPid, List.length_modify]
    exact h.lt hp
  · funext p
    rw [LifecycleState.phases, hfind, Function.update_apply]
    split_ifs with hp
    · subst hp
      have hlt := h.lt hi
      simp [LifecycleState.phases, LifecycleState.modifyPid, hi, hlt]
    · rw [LifecycleState.phases]
      cases hj : s.pidIndexFind p with
      | none => rfl
      | some j =>
        have hij : i ≠ j := by
          rintro rfl
          exact hp (h.inj hj hi)
        simp only [Option.bind_some, LifecycleState.modifyPid]
        rw [List.getElem?_modify_ne _ _ hij]

/-- **A change of the row of a query.** -/
theorem find?_lifecycleAdd (h : s.Placed) (qid : UInt64) {f : QidLifecycle → QidLifecycle}
    (hf : ∀ lc, (f lc).queryId = lc.queryId) :
    (s.lifecycleAdd qid f).Placed ∧ (s.lifecycleAdd qid f).phases = s.phases ∧
      ∀ q, (s.lifecycleAdd qid f).lookup q =
        if q = qid then some (f ((s.lookup qid).getD { queryId := qid })) else s.lookup q := by
  have hkey : (f ((s.lookup qid).getD { queryId := qid })).queryId = qid := by
    rw [hf]
    cases hlc : s.lookup qid with
    | none => rfl
    | some lc => exact (h.queries.toStored.find?_eq_some.1 hlc).2
  obtain ⟨hwf, hput⟩ := h.queries.put 1024 (by omega)
    (f ((s.lookup qid).getD { queryId := qid }))
  refine ⟨⟨h.pids, hwf, h.lt, h.inj⟩, rfl, fun q => ?_⟩
  rw [LifecycleState.lookup, LifecycleState.lifecycleAdd, hput, hkey]
  rfl

theorem LifecycleState.Placed.getElem? (h : s.Placed) {i : ℕ} (hi : s.pidIndexFind pid = some i) :
    s.pidSt[i]? = some (s.phases pid) := by
  rw [LifecycleState.phases, hi, Option.bind_some, List.getElem?_eq_getElem (h.lt hi)]
  rfl

/-- **A phase that ends** is popped, and counts for the query that started it. -/
theorem LifecycleState.Placed.endPhase (h : s.Placed) {i : ℕ} (hi : s.pidIndexFind pid = some i)
    (ev : TraceEvent) (stack : LcPidState → List OpenPhase) (pop : LcPidState → LcPidState)
    (add : ℚ → QidLifecycle → QidLifecycle) (hadd : ∀ ms lc, (add ms lc).queryId = lc.queryId)
    {op : OpenPhase} (hop : (stack (s.phases pid)).head? = some op) :
    (s.endPhase ev i stack pop add).Placed ∧
      (s.endPhase ev i stack pop add).phases =
        Function.update s.phases pid (pop (s.phases pid)) ∧
      ∀ q, (s.endPhase ev i stack pop add).lookup q =
        match endedMs ev op with
        | some ms => if q = op.qid then some (add ms ((s.lookup q).getD { queryId := q }))
            else s.lookup q
        | none => s.lookup q := by
  obtain ⟨hpop, hphases⟩ := phases_modifyPid h hi pop
  have hlookup : (s.modifyPid i pop).lookup = s.lookup := rfl
  rw [LifecycleState.endPhase, h.getElem? hi, Option.bind_some, hop]
  simp only
  cases hms : endedMs ev op with
  | none => exact ⟨hpop, hphases, fun q => rfl⟩
  | some ms =>
    obtain ⟨hplaced, hsame, hfind⟩ := find?_lifecycleAdd hpop op.qid (hadd ms)
    refine ⟨hplaced, hsame.trans hphases, fun q => ?_⟩
    simp only [hfind, hlookup]
    split_ifs with hq
    · rw [hq]
    · rfl

theorem LifecycleState.Placed.endPhase_empty (h : s.Placed) {i : ℕ}
    (hi : s.pidIndexFind pid = some i) (ev : TraceEvent) (stack : LcPidState → List OpenPhase)
    (pop : LcPidState → LcPidState) (add : ℚ → QidLifecycle → QidLifecycle)
    (hop : (stack (s.phases pid)).head? = none) : s.endPhase ev i stack pop add = s := by
  rw [LifecycleState.endPhase, h.getElem? hi, Option.bind_some, hop]

end PgWaitTracer
