import PgWaitTracer.Overlay.Collect

/-!
# Exact attribution

During an escalation window the attribution of a backend has two sources: a coherent seed that the
daemon reads once, at the boundary of the window, and edges that the uprobes stamp with the
generation of the window. `pgwt_exact_merge_attr` (`src/pg_wait_tracer.h`) merges them. The result
decides which command markers the daemon writes itself when a window opens and when it closes
(`src/escalation.c`).

## Main results

* `cmdOpen_exactMergeAttr`: the command state that is resolved.
-/

namespace PgWaitTracer

/-- `struct pgwt_exact_config`. -/
structure ExactConfig where
  generation : UInt64 := 0
  attachBoundaryNs : UInt64 := 0
  admitting : Bool := false
  deriving DecidableEq, Repr

/-- `struct pgwt_exact_seed`, without the time of the reading, which no rule compares. -/
structure ExactSeed where
  generation : UInt64
  queryId : UInt64
  cmdOpen : UInt16
  queryQuality : UInt16
  deriving DecidableEq, Repr

/-- `struct pgwt_exact_attr`. -/
structure ExactAttr where
  queryGeneration : UInt64 := 0
  queryEdgeTs : UInt64 := 0
  queryId : UInt64 := 0
  cmdGeneration : UInt64 := 0
  cmdEdgeTs : UInt64 := 0
  phaseGeneration : UInt64 := 0
  planStartTs : UInt64 := 0
  execStartTs : UInt64 := 0
  cmdOpen : UInt16 := 0
  phaseFlags : UInt16 := 0
  queryQuality : UInt16 := 0
  deriving DecidableEq, Repr

/-- `PGWT_EXACT_PHASE_PLAN`. -/
def exactPhasePlan : UInt16 := 1

/-- `PGWT_EXACT_PHASE_EXEC`. -/
def exactPhaseExec : UInt16 := 2

/-! ### The merge rule -/

/-- The query edge of this generation, stamped at or after the attach. -/
def ExactAttr.QueryFresh (cfg : ExactConfig) (edge : ExactAttr) : Prop :=
  edge.queryGeneration = cfg.generation ∧ edge.queryEdgeTs ≥ cfg.attachBoundaryNs

/-- The command edge of this generation, stamped at or after the attach. -/
def ExactAttr.CmdFresh (cfg : ExactConfig) (edge : ExactAttr) : Prop :=
  edge.cmdGeneration = cfg.generation ∧ edge.cmdEdgeTs ≥ cfg.attachBoundaryNs

instance (cfg : ExactConfig) (edge : ExactAttr) : Decidable (edge.QueryFresh cfg) :=
  inferInstanceAs (Decidable (_ ∧ _))

instance (cfg : ExactConfig) (edge : ExactAttr) : Decidable (edge.CmdFresh cfg) :=
  inferInstanceAs (Decidable (_ ∧ _))

/-- The seed of this generation; without one nothing is open. -/
def seedAttr (cfg : ExactConfig) : Option ExactSeed → OpenStretchAttr
  | some seed =>
    if seed.generation = cfg.generation then ⟨seed.queryId, seed.cmdOpen, seed.queryQuality⟩
    else ⟨0, 0, 0⟩
  | none => ⟨0, 0, 0⟩

/-- `pgwt_exact_merge_attr`. Generation 0 reads the pinned edges of a degraded layout directly. -/
def exactMergeAttr (cfg : ExactConfig) (edge : Option ExactAttr) (seed : Option ExactSeed) :
    OpenStretchAttr :=
  match edge with
  | none => if cfg.generation = 0 then ⟨0, 0, 0⟩ else seedAttr cfg seed
  | some edge =>
    if cfg.generation = 0 then ⟨edge.queryId, edge.cmdOpen, edge.queryQuality⟩
    else
      let base := seedAttr cfg seed
      { queryId := if edge.QueryFresh cfg then edge.queryId else base.queryId
        quality := if edge.QueryFresh cfg then edge.queryQuality else base.quality
        cmdOpen := if edge.CmdFresh cfg then edge.cmdOpen else base.cmdOpen }

/-- What `pgwt_exact_resolve_attr` gives. -/
structure ResolvedAttr where
  attr : OpenStretchAttr := ⟨0, 0, 0⟩
  phaseFlags : UInt16 := 0
  planStartTs : UInt64 := 0
  execStartTs : UInt64 := 0
  deriving DecidableEq, Repr

/-- `pgwt_exact_resolve_attr`: the outputs, and whether there is an edge or a seed at all. -/
def exactResolveAttr (cfg : ExactConfig) (edge : Option ExactAttr) (seed : Option ExactSeed) :
    ResolvedAttr × Bool :=
  let attr := exactMergeAttr cfg edge seed
  (match edge with
    | some e =>
      if e.phaseGeneration = cfg.generation then ⟨attr, e.phaseFlags, e.planStartTs, e.execStartTs⟩
      else { attr := attr }
    | none => { attr := attr },
   edge.isSome || seed.isSome)

theorem cmdOpen_exactMergeAttr (cfg : ExactConfig) (e : ExactAttr) (seed : Option ExactSeed) :
    (exactMergeAttr cfg (some e) seed).cmdOpen =
      if cfg.generation = 0 ∨ e.CmdFresh cfg then e.cmdOpen else (seedAttr cfg seed).cmdOpen := by
  rw [exactMergeAttr]
  by_cases h0 : cfg.generation = 0
  · simp [h0]
  · simp [h0]

theorem attr_exactResolveAttr (cfg : ExactConfig) (edge : Option ExactAttr)
    (seed : Option ExactSeed) :
    (exactResolveAttr cfg edge seed).1.attr = exactMergeAttr cfg edge seed := by
  unfold exactResolveAttr
  cases edge with
  | none => rfl
  | some e =>
    dsimp only
    split_ifs <;> rfl

theorem isSome_of_cmdOpen {cfg : ExactConfig} {edge : Option ExactAttr} {seed : Option ExactSeed}
    (h : (exactMergeAttr cfg edge seed).cmdOpen ≠ 0) : (edge.isSome || seed.isSome) = true := by
  cases edge <;> cases seed <;> simp_all [exactMergeAttr, seedAttr]

/-! ### The events of the daemon -/

/-- `write_pid_marker_at`. -/
def writePidMarkerAt (pid : UInt32) (marker : UInt32) (ts : UInt64) (attr : OpenStretchAttr) :
    TraceEvent where
  timestampNs := ts
  pid := pid
  oldEvent := marker
  newEvent := marker
  flags := if attr.quality = queryQualityPg13Synth then flagQuerySynth else 0
  durationNs := 0
  queryId := attr.queryId
  cpuNs := 0

/-- `write_marker_at`: the length of the window in seconds and the reason are packed into the query
id (`PGWT_ESC_PACK`). -/
def writeMarkerAt (marker : UInt32) (ts windowNs reason : UInt64) : TraceEvent where
  timestampNs := ts
  pid := 0
  oldEvent := marker
  newEvent := marker
  flags := 0
  durationNs := 0
  queryId := ((windowNs / 1000000000) <<< 8) ||| (reason &&& 0xFF)
  cpuNs := 0

/-- A registry entry at an edge of a window, with what the maps hold for it when the loop reaches
it. -/
structure ExactBackend where
  pid : Int32
  isAlive : Bool := true
  wpFd : ℤ := 0
  state : Option PidState := none
  edge : Option ExactAttr := none
  seed : Option ExactSeed := none
  deriving DecidableEq, Repr

/-- The loops pass over what is dead or has no pid. -/
def ExactBackend.Present (be : ExactBackend) : Prop := be.isAlive = true ∧ 0 < be.pid

instance (be : ExactBackend) : Decidable be.Present := inferInstanceAs (Decidable (_ ∧ _))

/-- The pid as a key. -/
def ExactBackend.key (be : ExactBackend) : UInt32 := be.pid.toUInt32

/-- `synthesize_command_starts`, one backend. -/
def ExactBackend.commandStart (cfg : ExactConfig) (boundary : UInt64) (be : ExactBackend) :
    List TraceEvent :=
  let r := exactResolveAttr cfg be.edge be.seed
  if be.Present ∧ r.2 = true ∧ r.1.attr.cmdOpen ≠ 0 then
    [writePidMarkerAt be.key markerCmdStart boundary r.1.attr]
  else []

/-- `synthesize_terminal_markers`, one backend. A phase that began before the attach gets no end. -/
def ExactBackend.terminalMarkers (cfg : ExactConfig) (boundary : UInt64) (be : ExactBackend) :
    List TraceEvent :=
  let r := exactResolveAttr cfg be.edge be.seed
  if be.Present ∧ r.2 = true then
    (if r.1.attr.cmdOpen ≠ 0 then [writePidMarkerAt be.key markerCmdEnd boundary r.1.attr]
      else []) ++
    (if r.1.phaseFlags &&& exactPhasePlan ≠ 0 ∧ r.1.planStartTs ≥ cfg.attachBoundaryNs then
      [writePidMarkerAt be.key markerPlanEnd boundary r.1.attr] else []) ++
    (if r.1.phaseFlags &&& exactPhaseExec ≠ 0 ∧ r.1.execStartTs ≥ cfg.attachBoundaryNs then
      [writePidMarkerAt be.key markerExecEnd boundary r.1.attr] else [])
  else []

/-- `flush_open_intervals`, one backend. -/
def ExactBackend.openInterval (cfg : ExactConfig) (cpuAccounting : Bool) (now : UInt64)
    (be : ExactBackend) : List TraceEvent :=
  match be.state with
  | none => []
  | some st =>
    if be.Present ∧ 0 ≤ be.wpFd ∧ openStretchGate st now = .built then
      [buildOpenStretch be.key st now cpuAccounting (exactMergeAttr cfg be.edge be.seed)]
    else []

/-- `synthesize_command_starts`. -/
def synthesizeCommandStarts (cfg : ExactConfig) (boundary : UInt64) (backends : List ExactBackend) :
    List TraceEvent :=
  backends.flatMap (·.commandStart cfg boundary)

/-- `synthesize_terminal_markers`. -/
def synthesizeTerminalMarkers (cfg : ExactConfig) (boundary : UInt64)
    (backends : List ExactBackend) : List TraceEvent :=
  backends.flatMap (·.terminalMarkers cfg boundary)

/-- `flush_open_intervals`. -/
def flushOpenIntervals (cfg : ExactConfig) (cpuAccounting : Bool) (now : UInt64)
    (backends : List ExactBackend) : List TraceEvent :=
  backends.flatMap (·.openInterval cfg cpuAccounting now)

end PgWaitTracer
