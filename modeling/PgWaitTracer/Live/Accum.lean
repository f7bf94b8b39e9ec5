import PgWaitTracer.Compute.Tag

/-!
# The live accumulator

What the daemon does with a closed record while it runs (`pgwt_handle_trace_event`,
`src/event_stream.c`): the command gate of the process decides whether an on-CPU record is inside a
command (`pgwt_live_cmd_gate_*`, `src/map_reader.c`), and the deferred attribution of
`src/query_attr.h` files the record under a query id, at once or when the command reports one.

The resolver hands its aggregates to a callback of the consumer. Here every function of the resolver
returns the aggregates it hands over, in order, and the accumulator files them
(`Accumulator.addRow`). The rows by process, by event and by class that the same record
also feeds are left out, as are the observability counters other than the one for spilled lists.

## Main results

* `liveRun_eq_pass`: with room for all processes, a run is a pass with a state for
  every process.
-/

namespace PgWaitTracer

/-! ### The command gate -/

/-- `struct pgwt_live_cmd_gate`. -/
structure LiveCmdGate where
  seen : Bool := false
  isOpen : Bool := false
  anchorNs : UInt64 := 0
  bankedNs : UInt64 := 0
  deriving DecidableEq, Repr

namespace LiveCmdGate

/-- `pgwt_live_cmd_gate_marker`. -/
def marker (g : LiveCmdGate) (marker : UInt32) (tsNs : UInt64) : LiveCmdGate :=
  if marker = markerCmdStart then
    if g.isOpen then { g with seen := true }
    else { g with seen := true, isOpen := true, anchorNs := tsNs }
  else if marker = markerCmdEnd then
    if g.isOpen then
      { g with
        seen := true
        isOpen := false
        bankedNs := if tsNs > g.anchorNs then g.bankedNs + (tsNs - g.anchorNs) else g.bankedNs }
    else { g with seen := true }
  else g

/-- `cmd_gate_open_ns`. -/
def openNs (g : LiveCmdGate) (t0 t1 : UInt64) : UInt64 :=
  let a := if g.anchorNs > t0 then g.anchorNs else t0
  if g.isOpen ∧ t1 > a then g.bankedNs + (t1 - a) else g.bankedNs

/-- `pgwt_live_cmd_gate_take`: the command-open time of `[t0, t1)`, and the sweep moved to `t1`. -/
def take (g : LiveCmdGate) (t0 t1 : UInt64) : LiveCmdGate × UInt64 :=
  if g.seen then
    ({ g with bankedNs := 0, anchorNs := if g.isOpen then t1 else g.anchorNs }, g.openNs t0 t1)
  else (g, 0)

end LiveCmdGate

/-- `pgwt_live_cmd_majority`. -/
def liveCmdMajority (openNs wallNs : UInt64) (openNow : Bool) : Bool :=
  if wallNs = 0 then openNow else openNs * 2 ≥ wallNs

/-- `pgwt_live_cmd_gate_classify` for a closed record (`consume`): the gate after it, and whether
the record is inside a command. Without a gate the flag of the record decides. -/
def liveCmdGateClassify (g : Option LiveCmdGate) (t0 t1 : UInt64) (fallbackOpen : Bool) :
    Option LiveCmdGate × Bool :=
  match g with
  | none => (none, fallbackOpen)
  | some g =>
    if g.seen then
      let r := g.take t0 t1
      (some r.1, liveCmdMajority r.2 (if t1 > t0 then t1 - t0 else 0) g.isOpen)
    else (some g, true)

/-- `pgwt_live_effective_event`. -/
def liveEffectiveEvent (we : UInt32) (cat : PidCategory) (cmdGateActive cmdOpen : Bool) : UInt32 :=
  if we = 0 ∧ cat.flag = 0 ∧ cmdGateActive ∧ cmdOpen = false then weiNoncmdCpu else we

/-! ### Deferred attribution -/

/-- One row by query and event, `struct pgwt_query_event_stats`. -/
structure QueryEventStats where
  queryId : UInt64
  waitEvent : UInt32
  count : ℕ
  totalNs : ℕ
  minNs : ℕ
  maxNs : ℕ
  deriving DecidableEq, Repr

/-- `struct pgwt_qattr_pending`. -/
structure QattrPending where
  we : UInt32
  count : ℕ
  totalNs : ℕ
  minNs : ℕ
  maxNs : ℕ
  deriving DecidableEq, Repr

/-- `PGWT_QATTR_PENDING_MAX`. -/
def qattrPendingMax : ℕ := 16

/-- `struct pgwt_qattr_pid`. -/
structure QattrPid where
  cmdQid : UInt64 := 0
  pending : List QattrPending := []
  deriving DecidableEq, Repr

/-- The row an aggregate is filed as. -/
def QattrPending.row (p : QattrPending) (qid : UInt64) : QueryEventStats :=
  ⟨qid, p.we, p.count, p.totalNs, p.minNs, p.maxNs⟩

/-- Two aggregates of one event. -/
def QattrPending.add (p p' : QattrPending) : QattrPending :=
  { p with
    count := p.count + p'.count
    totalNs := p.totalNs + p'.totalNs
    minNs := min p.minNs p'.minNs
    maxNs := max p.maxNs p'.maxNs }

/-- A fresh slot of the pending list. -/
def QattrPending.fresh (we : UInt32) : QattrPending := ⟨we, 0, 0, 2 ^ 64 - 1, 0⟩

/-- One record. -/
def QattrPending.one (we : UInt32) (ns : ℕ) : QattrPending := ⟨we, 1, ns, ns, ns⟩

namespace QattrPid

/-- `pgwt_qattr_flush`. -/
def flush (q : QattrPid) (qid : UInt64) : QattrPid × List QueryEventStats :=
  ({ q with pending := [] }, q.pending.map (·.row qid))

/-- The pending list with an aggregate added to the slot of its event. -/
def addPending (we : UInt32) (p : QattrPending) : List QattrPending → List QattrPending
  | [] => [(QattrPending.fresh we).add p]
  | s :: ps => if s.we = we then s.add p :: ps else s :: addPending we p ps

/-- `pgwt_qattr_defer_stats`: a full list spills to the unattributed rows first; the last component
reports it. -/
def deferStats (q : QattrPid) (we : UInt32) (p : QattrPending) :
    QattrPid × List QueryEventStats × Bool :=
  if (∀ s ∈ q.pending, s.we ≠ we) ∧ qattrPendingMax ≤ q.pending.length then
    let r := q.flush 0
    ({ r.1 with pending := addPending we p r.1.pending }, r.2, true)
  else ({ q with pending := addPending we p q.pending }, [], false)

/-- `pgwt_qattr_defer`. -/
def defer (q : QattrPid) (we : UInt32) (ns : ℕ) : QattrPid × List QueryEventStats × Bool :=
  q.deferStats we (.one we ns)

/-- `pgwt_qattr_observe`. -/
def observe (q : QattrPid) (qid : UInt64) : QattrPid × List QueryEventStats :=
  if qid = 0 then (q, [])
  else
    let r := q.flush qid
    ({ r.1 with cmdQid := qid }, r.2)

/-- `pgwt_qattr_boundary`. -/
def boundary (q : QattrPid) (newCommand : Bool) : QattrPid × List QueryEventStats :=
  let r := q.flush q.cmdQid
  (if newCommand then { r.1 with cmdQid := 0 } else r.1, r.2)

/-- `pgwt_live_qattr_marker`. -/
def marker (q : QattrPid) (marker : UInt32) (queryId : UInt64) :
    QattrPid × List QueryEventStats :=
  if marker = markerCmdStart then q.boundary true
  else if queryId ≠ 0 then q.observe queryId
  else if marker = markerCmdEnd then q.boundary false
  else (q, [])

/-- `pgwt_live_qattr_record` for a closed record (`defer`) of a process with a resolver. -/
def record (mask : UInt32) (q : QattrPid) (queryId : UInt64) (we : UInt32) (statNs : ℕ)
    (cat : PidCategory) : QattrPid × List QueryEventStats × Bool :=
  if cat.flag &&& flagIoWorker ≠ 0 then (q, [], false)
  else if queryId ≠ 0 then
    let r := q.observe queryId
    (r.1, r.2 ++ [(QattrPending.one we statNs).row queryId], false)
  else if cat.flag &&& (flagBackground ||| flagMaint) ≠ 0 then
    (q, if isIdleEvent mask we then [] else [(QattrPending.one we statNs).row 0], false)
  else if cat.flag ≠ 0 then (q, [], false)
  else if isSessionIdleEvent we then
    let r := q.boundary false
    (r.1, r.2, false)
  else q.defer we statNs

end QattrPid

/-- `pgwt_live_qattr_record` without a resolver: what would wait for an id is not filed. -/
def qattrRecordUnresolved (mask : UInt32) (queryId : UInt64) (we : UInt32) (statNs : ℕ)
    (cat : PidCategory) : List QueryEventStats :=
  if cat.flag &&& flagIoWorker ≠ 0 then []
  else if queryId ≠ 0 then [(QattrPending.one we statNs).row queryId]
  else if cat.flag &&& (flagBackground ||| flagMaint) ≠ 0 then
    if isIdleEvent mask we then [] else [(QattrPending.one we statNs).row 0]
  else []

/-! ### One process -/

/-- The settings a callback reads: whether the command gate is maintained, whether CPU is measured,
the installed pacing mask and the category of every process. -/
structure LiveConfig where
  cmdGateActive : Bool
  cpuAccounting : Bool
  mask : UInt32
  cat : UInt32 → PidCategory

/-- The live state of a process, `struct pgwt_pid_accum`. -/
structure LivePid where
  cmdGate : LiveCmdGate := {}
  qattr : QattrPid := {}
  deriving DecidableEq, Repr

/-- What a callback gives: the effective event of a record, the rows it files, and whether a pending
list was spilled. -/
structure LiveOut where
  effEvent : Option UInt32 := none
  rows : List QueryEventStats := []
  spilled : Bool := false
  deriving DecidableEq, Repr

/-- `pgwt_live_closed_cpu_ns`. -/
def liveClosedCpuNs (durNs cpuNs : UInt64) (cpuAccounting : Bool) : UInt64 :=
  if cpuAccounting = false ∨ cpuNs = cpuNsUnknown then durNs
  else if cpuNs < durNs then cpuNs else durNs

/-- The start of the interval of a record, clamped at 0 (`pgwt_handle_trace_event`). -/
def TraceEvent.liveT0 (ev : TraceEvent) : UInt64 :=
  if ev.timestampNs ≥ ev.durationNs then ev.timestampNs - ev.durationNs else 0

/-- The value of a row: measured CPU for an on-CPU record, wall time for any other. -/
def LiveConfig.statNs (c : LiveConfig) (eff : UInt32) (ev : TraceEvent) : ℕ :=
  if eff = 0 then min (liveClosedCpuNs ev.durationNs ev.cpuNs c.cpuAccounting).toNat ev.dur
  else ev.dur

/-- A marker of a process. -/
def LivePid.marker (s : LivePid) (ev : TraceEvent) : LivePid × LiveOut :=
  let r := s.qattr.marker ev.oldEvent ev.queryId
  (⟨s.cmdGate.marker ev.oldEvent ev.timestampNs, r.1⟩, { rows := r.2 })

/-- A closed record of a process. -/
def LivePid.record (c : LiveConfig) (s : LivePid) (ev : TraceEvent) : LivePid × LiveOut :=
  let g := liveCmdGateClassify (some s.cmdGate) ev.liveT0 ev.timestampNs
    (ev.flags &&& flagCmdOpen ≠ 0)
  let eff := liveEffectiveEvent ev.oldEvent (c.cat ev.pid) c.cmdGateActive g.2
  let r := s.qattr.record c.mask ev.queryId eff (c.statNs eff ev) (c.cat ev.pid)
  -- the record that closes an exiting process is its last
  let x := if ev.newEvent = eventExit then r.1.boundary true else (r.1, [])
  (⟨g.1.getD s.cmdGate, x.1⟩, ⟨some eff, r.2.1 ++ x.2, r.2.2⟩)

/-- The part of a callback that concerns one process; escalation markers concern none. -/
def LivePid.step (c : LiveConfig) (s : LivePid) (ev : TraceEvent) : LivePid × LiveOut :=
  if isMarker ev.oldEvent then
    if ev.oldEvent ≠ markerEscalateStart ∧ ev.oldEvent ≠ markerEscalateEnd then s.marker ev
    else (s, {})
  else s.record c ev

/-! ### The accumulator -/

/-- `MAX_BACKENDS`. -/
def maxBackends : ℕ := 1024

/-- `MAX_QUERY_EVENTS`. -/
def maxQueryEvents : ℕ := 4096

/-- `struct pgwt_accumulator`: the processes in the order of their first record, the rows by query
and event, and the number of spilled pending lists. -/
structure Accumulator where
  pids : List (UInt32 × LivePid) := []
  queryEvents : List QueryEventStats := []
  qattrPendingOverflow : ℕ := 0
  deriving DecidableEq, Repr

namespace Accumulator

/-- `pgwt_find_pid_accum`. -/
def find (acc : Accumulator) (pid : UInt32) : Option LivePid :=
  (acc.pids.find? fun p => p.1 = pid).map Prod.snd

/-- `pgwt_get_or_create_pid`: no entry when the table is full. -/
def getOrCreatePid (acc : Accumulator) (pid : UInt32) : Accumulator × Option LivePid :=
  match acc.find pid with
  | some s => (acc, some s)
  | none =>
    if maxBackends ≤ acc.pids.length then (acc, none)
    else ({ acc with pids := acc.pids ++ [(pid, {})] }, some {})

/-- Write the entry of a process. -/
def setPid (acc : Accumulator) (pid : UInt32) (s : LivePid) : Accumulator :=
  { acc with pids := acc.pids.map fun p => if p.1 = pid then (pid, s) else p }

/-- The rows with one more aggregate; `limit` is the room for new rows. -/
def addToRows (r : QueryEventStats) (limit : ℕ) : List QueryEventStats → List QueryEventStats
  | [] => if limit = 0 then [] else [r]
  | x :: xs =>
    if x.queryId = r.queryId ∧ x.waitEvent = r.waitEvent then
      { x with
        count := x.count + r.count
        totalNs := x.totalNs + r.totalNs
        minNs := min x.minNs r.minNs
        maxNs := max x.maxNs r.maxNs } :: xs
    else x :: addToRows r (limit - 1) xs

/-- `qattr_add_row`: a new row is dropped when the table is full. -/
def addRow (acc : Accumulator) (r : QueryEventStats) : Accumulator :=
  { acc with queryEvents := addToRows r maxQueryEvents acc.queryEvents }

/-- File what a callback gives. -/
def file (acc : Accumulator) (o : LiveOut) : Accumulator :=
  let acc := o.rows.foldl addRow acc
  { acc with qattrPendingOverflow := acc.qattrPendingOverflow + o.spilled.toNat }

end Accumulator

/-- The callback on a record when the table of processes is full. -/
def liveRecordUnresolved (c : LiveConfig) (ev : TraceEvent) : LiveOut :=
  let g := liveCmdGateClassify none ev.liveT0 ev.timestampNs (ev.flags &&& flagCmdOpen ≠ 0)
  let eff := liveEffectiveEvent ev.oldEvent (c.cat ev.pid) c.cmdGateActive g.2
  { effEvent := some eff
    rows := qattrRecordUnresolved c.mask ev.queryId eff (c.statNs eff ev) (c.cat ev.pid) }

/-- `pgwt_handle_trace_event`, and the effective event of a record. -/
def handleTraceEvent (c : LiveConfig) (acc : Accumulator) (ev : TraceEvent) :
    Accumulator × Option UInt32 :=
  if isMarker ev.oldEvent ∧
      (ev.oldEvent = markerEscalateStart ∨ ev.oldEvent = markerEscalateEnd) then (acc, none)
  else
    match acc.getOrCreatePid ev.pid with
    | (acc, some s) =>
      let r := s.step c ev
      ((acc.setPid ev.pid r.1).file r.2, r.2.effEvent)
    | (acc, none) =>
      if isMarker ev.oldEvent then (acc, none)
      else
        let o := liveRecordUnresolved c ev
        (acc.file o, o.effEvent)

/-- The accumulator after a stream, and the effective event of every record. -/
def liveRun (c : LiveConfig) (acc : Accumulator) :
    List TraceEvent → Accumulator × List (Option UInt32)
  | [] => (acc, [])
  | ev :: evs =>
    let r := handleTraceEvent c acc ev
    let rest := liveRun c r.1 evs
    (rest.1, r.2 :: rest.2)

/-- `pgwt_live_qattr_pid_exit`. -/
def liveQattrPidExit (acc : Accumulator) (pid : UInt32) : Accumulator :=
  match acc.find pid with
  | none => acc
  | some s =>
    let r := s.qattr.boundary true
    (acc.setPid pid { s with qattr := r.1 }).file { rows := r.2 }

/-! ### A run is a pass

As long as the table of processes has room, the accumulator is a state for every process, the zeroed
one until its first record, and the rows are those the callbacks file. -/

variable {acc : Accumulator} {pid : UInt32}

namespace Accumulator

/-- The state of a process, zeroed when it has no entry. -/
def stateOf (acc : Accumulator) (pid : UInt32) : LivePid := (acc.find pid).getD {}

/-- The processes that have an entry. -/
def keys (acc : Accumulator) : List UInt32 := acc.pids.map Prod.fst

theorem find_eq_none_iff : acc.find pid = none ↔ pid ∉ acc.keys := by
  simp only [find, keys, Option.map_eq_none_iff, List.find?_eq_none, List.mem_map, not_exists,
    not_and, decide_eq_true_eq]

theorem stateOf_of_notMem (h : pid ∉ acc.keys) : acc.stateOf pid = {} := by
  rw [stateOf, find_eq_none_iff.mpr h, Option.getD_none]

@[simp] theorem keys_setPid (acc : Accumulator) (pid : UInt32) (s : LivePid) :
    (acc.setPid pid s).keys = acc.keys := by
  rw [keys, keys, setPid, List.map_map]
  refine List.map_congr_left fun p _ => ?_
  by_cases h : p.1 = pid <;> simp [h]

theorem find_setPid_of_ne {pid' : UInt32} (s : LivePid) (h : pid' ≠ pid) :
    (acc.setPid pid s).find pid' = acc.find pid' := by
  rw [find, find, setPid]
  induction acc.pids with
  | nil => rfl
  | cons p ps ih =>
    by_cases hp : p.1 = pid
    · have hne : ¬ p.1 = pid' := fun h' => h (h'.symm.trans hp)
      simpa [hp, hne, Ne.symm h] using ih
    · by_cases hp' : p.1 = pid'
      · simp [hp', h]
      · simpa [hp, hp'] using ih

theorem find_setPid_self (s : LivePid) (h : pid ∈ acc.keys) :
    (acc.setPid pid s).find pid = some s := by
  rw [keys] at h
  simp only [find, setPid]
  revert h
  induction acc.pids with
  | nil => simp
  | cons p ps ih =>
    intro h
    by_cases hp : p.1 = pid
    · simp [hp]
    · have h' : pid ∈ ps.map Prod.fst := by simpa [Ne.symm hp] using h
      simpa [hp] using ih h'

theorem stateOf_setPid (s : LivePid) (h : pid ∈ acc.keys) :
    (acc.setPid pid s).stateOf = Function.update acc.stateOf pid s := by
  funext pid'
  by_cases hp : pid' = pid
  · subst hp
    rw [stateOf, find_setPid_self s h, Function.update_self, Option.getD_some]
  · rw [stateOf, find_setPid_of_ne s hp, Function.update_of_ne hp, stateOf]

@[simp] theorem pids_foldl_addRow (rows : List QueryEventStats) (acc : Accumulator) :
    (rows.foldl addRow acc).pids = acc.pids := by
  induction rows generalizing acc with
  | nil => rfl
  | cons r rows ih => exact ih _

@[simp] theorem pids_file (acc : Accumulator) (o : LiveOut) : (acc.file o).pids = acc.pids := by
  simp [file]

@[simp] theorem stateOf_file (acc : Accumulator) (o : LiveOut) :
    (acc.file o).stateOf = acc.stateOf := by
  funext pid
  simp [stateOf, find]

@[simp] theorem keys_file (acc : Accumulator) (o : LiveOut) : (acc.file o).keys = acc.keys := by
  simp [keys]

/-- The rows with a list of aggregates filed. -/
def fileRows (rows xs : List QueryEventStats) : List QueryEventStats :=
  rows.foldl (fun xs r => addToRows r maxQueryEvents xs) xs

theorem queryEvents_file (acc : Accumulator) (o : LiveOut) :
    (acc.file o).queryEvents = fileRows o.rows acc.queryEvents := by
  rw [file]
  induction o.rows generalizing acc with
  | nil => rfl
  | cons x rows ih => exact ih (acc.addRow x)

theorem qattrPendingOverflow_file (acc : Accumulator) (o : LiveOut) :
    (acc.file o).qattrPendingOverflow = acc.qattrPendingOverflow + o.spilled.toNat := by
  rw [file]
  induction o.rows generalizing acc with
  | nil => rfl
  | cons x rows ih => exact ih (acc.addRow x)

/-- There is an entry for the process, or room for one. -/
def Room (acc : Accumulator) (pid : UInt32) : Prop :=
  pid ∈ acc.keys ∨ acc.pids.length < maxBackends

theorem getOrCreatePid_of_room (h : acc.Room pid) :
    ∃ acc', acc.getOrCreatePid pid = (acc', some (acc.stateOf pid)) ∧
      acc'.stateOf = acc.stateOf ∧ pid ∈ acc'.keys ∧
      (acc'.keys = acc.keys ∨ pid ∉ acc.keys ∧ acc'.keys = acc.keys ++ [pid]) ∧
      acc'.queryEvents = acc.queryEvents ∧
      acc'.qattrPendingOverflow = acc.qattrPendingOverflow := by
  rcases hf : acc.find pid with _ | s
  · have hnot : pid ∉ acc.keys := find_eq_none_iff.mp hf
    have hroom : ¬ maxBackends ≤ acc.pids.length := by
      rcases h with h | h
      · exact absurd h hnot
      · omega
    refine ⟨{ acc with pids := acc.pids ++ [(pid, {})] }, ?_, ?_, ?_, Or.inr ⟨hnot, ?_⟩, rfl, rfl⟩
    · simp [getOrCreatePid, hf, hroom, stateOf]
    · funext pid'
      by_cases hp : pid' = pid
      · subst hp
        rw [find, Option.map_eq_none_iff] at hf
        simp [stateOf, find, List.find?_append, hf]
      · simp [stateOf, find, List.find?_append, Ne.symm hp]
    · simp [keys]
    · simp [keys]
  · have hmem : pid ∈ acc.keys := by
      by_contra hn
      rw [find_eq_none_iff.mpr hn] at hf
      cases hf
    exact ⟨acc, by simp [getOrCreatePid, hf, stateOf], rfl, hmem, Or.inl rfl, rfl, rfl⟩

end Accumulator

/-- With room for its process, a callback is one step of that process: it gives the effective event
of the step, files its rows and moves no other state. -/
theorem handleTraceEvent_of_room {c : LiveConfig} {ev : TraceEvent} (h : acc.Room ev.pid) :
    let r := (acc.stateOf ev.pid).step c ev
    let acc' := (handleTraceEvent c acc ev).1
    (handleTraceEvent c acc ev).2 = r.2.effEvent ∧
      acc'.stateOf = Keyed.move TraceEvent.pid (LivePid.step c) acc.stateOf ev ∧
      acc'.queryEvents = Accumulator.fileRows r.2.rows acc.queryEvents ∧
      acc'.qattrPendingOverflow = acc.qattrPendingOverflow + r.2.spilled.toNat ∧
      (acc'.keys = acc.keys ∨ ev.pid ∉ acc.keys ∧ acc'.keys = acc.keys ++ [ev.pid]) := by
  intro r acc'
  by_cases hesc : isMarker ev.oldEvent ∧
      (ev.oldEvent = markerEscalateStart ∨ ev.oldEvent = markerEscalateEnd)
  · have hr : r = (acc.stateOf ev.pid, {}) := by
      have : ¬ (ev.oldEvent ≠ markerEscalateStart ∧ ev.oldEvent ≠ markerEscalateEnd) := by
        rcases hesc.2 with h | h <;> simp [h]
      simp only [r, LivePid.step, if_pos hesc.1, if_neg this]
    have hh : handleTraceEvent c acc ev = (acc, none) := by
      rw [handleTraceEvent, if_pos hesc]
    have hmove : Keyed.move TraceEvent.pid (LivePid.step c) acc.stateOf ev = acc.stateOf := by
      rw [Keyed.move]
      change Function.update acc.stateOf ev.pid r.1 = acc.stateOf
      rw [hr, Function.update_eq_self]
    simp only [acc', hh, hr, hmove]
    simp [Accumulator.fileRows]
  · obtain ⟨acc₁, hg, hst, hmem, hkeys, hrows, hover⟩ := Accumulator.getOrCreatePid_of_room h
    have hh : handleTraceEvent c acc ev =
        ((acc₁.setPid ev.pid r.1).file r.2, r.2.effEvent) := by
      rw [handleTraceEvent, if_neg hesc, hg]
    have hacc : acc' = (acc₁.setPid ev.pid r.1).file r.2 := congrArg Prod.fst hh
    refine ⟨by rw [hh], ?_, ?_, ?_, ?_⟩
    · rw [hacc, Accumulator.stateOf_file, Accumulator.stateOf_setPid _ hmem, hst]
      rfl
    · rw [hacc, Accumulator.queryEvents_file, Accumulator.setPid, hrows]
    · rw [hacc, Accumulator.qattrPendingOverflow_file, Accumulator.setPid, hover]
    · rw [hacc, Accumulator.keys_file, Accumulator.keys_setPid]
      exact hkeys

/-- A list of processes without repetition inside `pids`, the entries of an accumulator. -/
structure Accumulator.KeysIn (acc : Accumulator) (pids : List UInt32) : Prop where
  nodup : acc.keys.Nodup
  subset : acc.keys ⊆ pids

namespace Accumulator.KeysIn

variable {acc : Accumulator} {pids : List UInt32}

theorem room (h : acc.KeysIn pids) (hlen : pids.length ≤ maxBackends) (hp : pid ∈ pids) :
    acc.Room pid := by
  by_cases hk : pid ∈ acc.keys
  · exact Or.inl hk
  · have hnd : (pid :: acc.keys).Nodup := List.nodup_cons.mpr ⟨hk, h.nodup⟩
    have hsub : pid :: acc.keys ⊆ pids := List.cons_subset.mpr ⟨hp, h.subset⟩
    have hle := (List.Nodup.subperm hnd hsub).length_le
    rw [List.length_cons, keys, List.length_map] at hle
    exact Or.inr (by omega)

theorem of_keys {acc' : Accumulator} (h : acc.KeysIn pids) (hp : pid ∈ pids)
    (hk : acc'.keys = acc.keys ∨ pid ∉ acc.keys ∧ acc'.keys = acc.keys ++ [pid]) :
    acc'.KeysIn pids := by
  rcases hk with hk | ⟨hnot, hk⟩
  · exact ⟨hk ▸ h.nodup, hk ▸ h.subset⟩
  · refine ⟨?_, ?_⟩
    · rw [hk, List.nodup_append]
      refine ⟨h.nodup, List.nodup_singleton _, ?_⟩
      rintro a ha b hb rfl
      rw [List.mem_singleton] at hb
      exact hnot (hb ▸ ha)
    · rw [hk]
      exact List.append_subset.mpr ⟨h.subset, by simpa using hp⟩

end Accumulator.KeysIn

/-- **A run is a pass.** With room for all processes, the effective events, the states and the rows
of a run are those of the pass of the single processes over the stream. -/
theorem liveRun_eq_pass {c : LiveConfig} {pids : List UInt32} (hlen : pids.length ≤ maxBackends)
    (evs : List TraceEvent) (hev : ∀ ev ∈ evs, ev.pid ∈ pids) (acc : Accumulator)
    (hk : acc.KeysIn pids) :
    let outs := Keyed.pass TraceEvent.pid (LivePid.step c) acc.stateOf evs
    let acc' := (liveRun c acc evs).1
    (liveRun c acc evs).2 = outs.map LiveOut.effEvent ∧
      acc'.stateOf = Keyed.after TraceEvent.pid (LivePid.step c) acc.stateOf evs ∧
      acc'.queryEvents = Accumulator.fileRows (outs.flatMap LiveOut.rows) acc.queryEvents ∧
      acc'.qattrPendingOverflow =
        acc.qattrPendingOverflow + (outs.map fun o => o.spilled.toNat).sum ∧
      acc'.KeysIn pids := by
  induction evs generalizing acc with
  | nil => exact ⟨rfl, rfl, rfl, rfl, hk⟩
  | cons ev evs ih =>
    intro outs acc'
    have hp : ev.pid ∈ pids := hev ev List.mem_cons_self
    obtain ⟨heff, hst, hrows, hover, hkeys⟩ :=
      handleTraceEvent_of_room (c := c) (hk.room hlen hp)
    obtain ⟨heff', hst', hrows', hover', hkeys'⟩ :=
      ih (fun e he => hev e (List.mem_cons_of_mem _ he)) (handleTraceEvent c acc ev).1
        (hk.of_keys hp hkeys)
    rw [hst] at heff' hst' hrows' hover'
    refine ⟨?_, hst', ?_, ?_, hkeys'⟩
    · simp only [liveRun, outs, Keyed.pass, List.map_cons, heff, heff']
    · simp only [acc', liveRun, outs, Keyed.pass, List.flatMap_cons]
      rw [hrows', hrows, Accumulator.fileRows, Accumulator.fileRows, Accumulator.fileRows,
        List.foldl_append]
    · simp only [acc', liveRun, outs, Keyed.pass, List.map_cons, List.sum_cons]
      rw [hover', hover, Nat.add_assoc]

end PgWaitTracer
