import PgWaitTracer.Capture.Watchpoint
import PgWaitTracer.Escalation.Budget
import PgWaitTracer.Escalation.ExactAttr

/-!
# The command markers of an escalation window

While the watchpoint of a backend is live, every flip of its command state puts a marker into the
ring (`on_report_activity`, `src/bpf/pg_wait_tracer.bpf.c`). The daemon writes the start of a
command that was open before (`synthesize_command_starts`) and the end of one that is still open
when the window closes (`synthesize_terminal_markers`, `src/escalation.c`).

A run interleaves the calls of one backend with the steps of `pgwt_escalate` and `pgwt_deescalate`
over any number of windows. A call is one step. The backend stays alive, its entries fit into the
maps, every step of the daemon succeeds, and no event of the ring is lost.

## Main results

* `reproduces_iff`: the markers reproduce the command state in every state of a run
  exactly when no edge is lost.
-/

namespace PgWaitTracer

open Run

/-! ### The uprobe -/

/-- `note_cmd_edge`. -/
def noteCmdEdge (cfg : ExactConfig) (edge : Option ExactAttr) (cmdOpen : UInt16) (now : UInt64) :
    ExactAttr :=
  { edge.getD {} with cmdGeneration := cfg.generation, cmdEdgeTs := now, cmdOpen := cmdOpen }

/-- `PGWT_QUERY_QUALITY_REAL`. -/
def queryQualityReal : UInt16 := 1

/-- `note_query_edge`. -/
def noteQueryEdge (cfg : ExactConfig) (edge : ExactAttr) (queryId now : UInt64) : ExactAttr :=
  { edge with
    queryGeneration := cfg.generation
    queryEdgeTs := now
    queryId := queryId
    queryQuality := if queryId ≠ 0 then queryQualityReal else 0 }

/-- What the program and the daemon are configured for: the states of a running command (none for an
unknown version), whether query ids are synthesized as for PG13, and whether the activity uprobe
stays attached between the windows. -/
structure ActivityConfig where
  bsStateRunning : UInt32 := 3
  bsStateFastpath : UInt32 := 5
  pg13Attr : Bool := false
  lightweightMode : Bool := false
  cpuAccounting : Bool := true
  pinned : Bool := false
  deriving DecidableEq, Repr

/-- The command state that a reported activity means. -/
def ActivityConfig.isOpen (cfg : ActivityConfig) (state : UInt32) : Bool :=
  state = cfg.bsStateRunning || state = cfg.bsStateFastpath

/-- `exact_admission_open`. -/
def ExactConfig.admissionOpen (c : ExactConfig) : Bool := c.generation = 0 || c.admitting

/-- The maps as the uprobe reads them. -/
structure ActivityMaps where
  config : ExactConfig
  be : ExactBackend
  deriving DecidableEq, Repr

/-- `resolve_exact_attr`. -/
def ActivityMaps.resolve (m : ActivityMaps) : OpenStretchAttr :=
  exactMergeAttr m.config m.be.edge m.be.seed

/-- The same maps with another edge. -/
def ActivityMaps.setEdge (m : ActivityMaps) (edge : ExactAttr) : ActivityMaps :=
  { m with be := { m.be with edge := some edge } }

/-- `on_report_activity`, and what it puts into the ring. -/
def onReportActivity (cfg : ActivityConfig) (m : ActivityMaps) (now : UInt64) (state : UInt32) :
    ActivityMaps × List TraceEvent :=
  if m.config.admissionOpen = false ∨ cfg.bsStateRunning = 0 then (m, [])
  else
    match m.be.state with
    | none => (m, [])
    | some st =>
      let isOpen := cfg.isOpen state
      let cmdOpen : UInt16 := if isOpen then 1 else 0
      let edge := noteCmdEdge m.config m.be.edge cmdOpen now
      let st' : PidState := { st with cmdOpen := cmdOpen }
      let m' : ActivityMaps := { m with be := { m.be with state := some st', edge := some edge } }
      if m.resolve.cmdOpen = cmdOpen then (m', [])
      else
        -- the id of the old command does not leak into the new one
        let noId := m'.setEdge (noteQueryEdge m.config edge 0 now)
        let m' := if cfg.pg13Attr ∧ isOpen then noId else m'
        let marker := if isOpen then markerCmdStart else markerCmdEnd
        let ring := if cfg.lightweightMode = false ∧ st.wpLive ≠ 0 then
          [writePidMarkerAt m.be.key marker now m'.resolve] else []
        (if cfg.pg13Attr ∧ isOpen = false then noId else m', ring)

/-! ### Runs -/

/-- How far the daemon is with the window of the backend. Outside a window it is `sampled`. -/
inductive WindowPhase
  | sampled | configured | linked | seeded | synthesized
  | live | quiesced | flushed | closed | detached
  deriving DecidableEq, Repr

/-- The state of a run: the maps, whether the uprobe is attached, and the events of the backend in
the trace of the current window. What `synthesize_command_starts` found is remembered in
`startOpen`, which no step reads. -/
structure CmdRun where
  maps : ActivityMaps
  nextGeneration : UInt64 := 0
  attached : Bool
  phase : WindowPhase := .sampled
  trace : List TraceEvent := []
  startOpen : Bool := false
  deriving DecidableEq, Repr

/-- The steps of a run. `pgwt_exact_probe_acquire` publishes the generation and then attaches the
uprobe; the attach of the watchpoint seeds once more before it makes the entry live. -/
inductive CmdStep
  | reportActivity (now : UInt64) (state : UInt32)
  | setConfig (boundary : UInt64)
  | attachLinks
  | seed (queryId : UInt64) (cmdOpen quality : UInt16)
  | commandStarts
  | reseed (queryId : UInt64) (cmdOpen quality : UInt16)
  | preseed (attachTs : UInt64) (wei : UInt32) (inCommand : Bool)
  | quiesce
  | flush (now : UInt64)
  | terminalMarkers (now : UInt64)
  | detach (now : UInt64)
  | release
  deriving DecidableEq, Repr

namespace CmdRun

/-- The entry of the backend in the state map. -/
def setState (s : CmdRun) (st : Option PidState) : CmdRun :=
  { s with maps := { s.maps with be := { s.maps.be with state := st } } }

/-- The seed of the backend (`pgwt_exact_seed_backend`). -/
def setSeed (s : CmdRun) (seed : Option ExactSeed) : CmdRun :=
  { s with maps := { s.maps with be := { s.maps.be with seed := seed } } }

/-- The configuration of the programs (`set_config`). -/
def setConfig (s : CmdRun) (config : ExactConfig) : CmdRun :=
  { s with maps := { s.maps with config := config } }

/-- The command state that the merge rule resolves. -/
def cmdOpen (s : CmdRun) : Bool := s.maps.resolve.cmdOpen ≠ 0

/-- Whether the watchpoint of the backend is live. -/
def wpLive (s : CmdRun) : Bool := s.maps.be.state.any fun st => st.wpLive ≠ 0

end CmdRun

/-- One step of a run. -/
def cmdStep (cfg : ActivityConfig) (s : CmdRun) : CmdStep → CmdRun
  | .reportActivity now state =>
    if s.attached then
      let r := onReportActivity cfg s.maps now state
      { s with maps := r.1, trace := s.trace ++ r.2 }
    else s
  | .setConfig boundary =>
    let generation := bumpGeneration s.nextGeneration
    { s.setConfig ⟨generation, boundary, true⟩ with
      nextGeneration := generation
      phase := .configured
      trace := [] }
  | .attachLinks => { s with attached := true, phase := .linked }
  | .seed queryId cmdOpen quality =>
    { s.setSeed (some ⟨s.maps.config.generation, queryId, cmdOpen, quality⟩) with phase := .seeded }
  | .commandStarts =>
    { s with
      trace := s.trace ++ s.maps.be.commandStart s.maps.config s.maps.config.attachBoundaryNs
      startOpen := s.cmdOpen
      phase := .synthesized }
  | .reseed queryId cmdOpen quality =>
    s.setSeed (some ⟨s.maps.config.generation, queryId, cmdOpen, quality⟩)
  | .preseed attachTs wei inCommand =>
    let capture : CaptureConfig := ⟨cfg.lightweightMode, true, cfg.cpuAccounting, true⟩
    { s.setState (preseedStateMap capture s.maps.be.state attachTs ⟨some wei, inCommand⟩).1 with
      phase := .live }
  | .quiesce => { s.setConfig { s.maps.config with admitting := false } with phase := .quiesced }
  | .flush now =>
    { s with
      trace := s.trace ++ s.maps.be.openInterval s.maps.config cfg.cpuAccounting now
      phase := .flushed }
  | .terminalMarkers now =>
    { s with
      trace := s.trace ++ s.maps.be.terminalMarkers s.maps.config now
      phase := .closed }
  | .detach now =>
    { s.setState (some ⟨0, 0, (s.maps.be.state.map PidState.cmdOpen).getD 0, now, 0, 0, 0⟩) with
      phase := .detached }
  | .release =>
    { (s.setConfig ⟨0, 0, true⟩).setSeed
        (s.maps.be.seed.filter fun seed => seed.generation ≠ s.maps.config.generation) with
      attached := cfg.pinned
      phase := .sampled }

/-- The phase in which the daemon takes a step; the backend may call in any. -/
def CmdStep.phase : CmdStep → Option WindowPhase
  | .reportActivity _ _ => none
  | .setConfig _ => some .sampled
  | .attachLinks => some .configured
  | .seed _ _ _ => some .linked
  | .commandStarts => some .seeded
  | .reseed _ _ _ => some .synthesized
  | .preseed _ _ _ => some .synthesized
  | .quiesce => some .live
  | .flush _ => some .quiesced
  | .terminalMarkers _ => some .flushed
  | .detach _ => some .closed
  | .release => some .detached

/-- The daemon takes its steps in order, and the clock of a call is not behind the boundary of the
window. -/
def CmdStep.Ordered (s : CmdRun) (i : CmdStep) : Prop :=
  (∀ p, i.phase = some p → s.phase = p) ∧
    match i with
    | .reportActivity now _ => s.maps.config.attachBoundaryNs ≤ now
    | _ => True

/-! ### The property and the condition -/

/-- The command state that the markers of a trace fold to. -/
def markedOpen (evs : List TraceEvent) : Bool :=
  evs.foldl (fun isOpen ev =>
    if ev.oldEvent = markerCmdStart then true
    else if ev.oldEvent = markerCmdEnd then false
    else isOpen) false

/-- While the watchpoint is live and the window is not quiesced, the markers fold to the resolved
command state; after the terminal markers they fold to closed. -/
def CmdRun.Reproduces (s : CmdRun) : Prop :=
  match s.phase with
  | .live => markedOpen s.trace = s.cmdOpen
  | .closed | .detached | .sampled => markedOpen s.trace = false
  | _ => True

/-- When the watchpoint goes live, the resolved command state is the one that
`synthesize_command_starts` found. -/
def CmdStep.SeamClosed (s : CmdRun) (i : CmdStep) : Prop :=
  match i with
  | .preseed _ _ _ => s.cmdOpen = s.startOpen
  | _ => True

/-- A sampled backend: it is alive, its watchpoint is not live and there is no window. -/
structure CmdRun.Sampled (s : CmdRun) : Prop where
  phase : s.phase = .sampled
  trace : s.trace = []
  present : s.maps.be.Present
  quiet : s.wpLive = false

/-! ### What markers fold to -/

theorem markedOpen_append_singleton (evs : List TraceEvent) (ev : TraceEvent) :
    markedOpen (evs ++ [ev]) =
      if ev.oldEvent = markerCmdStart then true
      else if ev.oldEvent = markerCmdEnd then false
      else markedOpen evs := by
  rw [markedOpen, List.foldl_append]
  rfl

theorem markedOpen_append_of_not_cmd (evs : List TraceEvent) {rest : List TraceEvent}
    (h : ∀ ev ∈ rest, isCmdMarker ev.oldEvent = false) :
    markedOpen (evs ++ rest) = markedOpen evs := by
  induction rest generalizing evs with
  | nil => rw [List.append_nil]
  | cons ev rest ih =>
    have hev := h ev List.mem_cons_self
    rw [isCmdMarker, Bool.or_eq_false_iff, decide_eq_false_iff_not, decide_eq_false_iff_not] at hev
    rw [List.append_cons, ih _ fun e he => h e (List.mem_cons_of_mem _ he),
      markedOpen_append_singleton, if_neg hev.1, if_neg hev.2]

/-! ### What the daemon writes -/

variable {evs : List TraceEvent}

section Written

variable {c : ExactConfig} {be : ExactBackend}

theorem markedOpen_commandStart (boundary : UInt64) (h : be.Present)
    (hevs : markedOpen evs = false) :
    markedOpen (evs ++ be.commandStart c boundary) = true ↔
      (exactMergeAttr c be.edge be.seed).cmdOpen ≠ 0 := by
  have hattr := attr_exactResolveAttr c be.edge be.seed
  rw [ExactBackend.commandStart]
  by_cases ho : (exactMergeAttr c be.edge be.seed).cmdOpen = 0
  · rw [if_neg (by rw [hattr]; simp [ho]), List.append_nil, hevs]
    simp [ho]
  · rw [if_pos ⟨h, isSome_of_cmdOpen ho, by rwa [hattr]⟩, markedOpen_append_singleton]
    simp [ho, writePidMarkerAt]

theorem markedOpen_terminalMarkers (now : UInt64) (h : be.Present)
    (hevs : markedOpen evs = true ↔ (exactMergeAttr c be.edge be.seed).cmdOpen ≠ 0) :
    markedOpen (evs ++ be.terminalMarkers c now) = false := by
  have hattr := attr_exactResolveAttr c be.edge be.seed
  have hphase : ∀ (p : Prop) [Decidable p] (m : UInt32), isCmdMarker m = false →
      ∀ ev ∈ (if p then [writePidMarkerAt be.key m now (exactMergeAttr c be.edge be.seed)] else []),
        isCmdMarker ev.oldEvent = false := by
    intro p _ m hm ev hev
    split_ifs at hev
    · rw [List.mem_singleton.mp hev]
      exact hm
    · cases hev
  rw [ExactBackend.terminalMarkers]
  by_cases ho : (exactMergeAttr c be.edge be.seed).cmdOpen = 0
  · have hclosed : markedOpen evs = false := by simpa [ho] using hevs
    by_cases hp : be.Present ∧ (exactResolveAttr c be.edge be.seed).2 = true
    · rw [if_pos hp]
      simp only [hattr, ho, ne_eq, not_true_eq_false, if_false, List.nil_append]
      rw [← List.append_assoc, markedOpen_append_of_not_cmd _ (hphase _ _ rfl),
        markedOpen_append_of_not_cmd _ (hphase _ _ rfl), hclosed]
    · rwa [if_neg hp, List.append_nil]
  · rw [if_pos ⟨h, isSome_of_cmdOpen ho⟩]
    simp only [hattr]
    rw [if_pos ho, ← List.append_assoc, ← List.append_assoc,
      markedOpen_append_of_not_cmd _ (hphase _ _ rfl),
      markedOpen_append_of_not_cmd _ (hphase _ _ rfl), markedOpen_append_singleton]
    rfl

theorem markedOpen_openInterval (evs : List TraceEvent) (cpuAccounting : Bool) (now : UInt64) :
    markedOpen (evs ++ be.openInterval c cpuAccounting now) = markedOpen evs := by
  refine markedOpen_append_of_not_cmd evs fun ev hev => ?_
  rw [ExactBackend.openInterval] at hev
  cases hst : be.state with
  | none => simp [hst] at hev
  | some st =>
    rw [hst] at hev
    dsimp only at hev
    split_ifs at hev with hb
    · rw [List.mem_singleton.mp hev]
      by_contra hm
      have hmarker := isMarker_of_isCmdMarker (Bool.not_eq_false _ ▸ hm)
      have hgate := hb.2.2
      rw [openStretchGate] at hgate
      change isMarker st.lastEvent = true at hmarker
      rw [if_pos hmarker] at hgate
      split_ifs at hgate
    · cases hev

end Written

/-! ### What a call does -/

section Call

variable {cfg : ActivityConfig} {m : ActivityMaps} {now : UInt64} {state : UInt32}

/-- The command state of a call as the maps hold it. -/
def ActivityConfig.cmdOpenOf (cfg : ActivityConfig) (state : UInt32) : UInt16 :=
  if cfg.isOpen state then 1 else 0

/-- **What a call can do.** It is ignored, or it stamps a command edge and, on a flip, puts a marker
into the ring when the watchpoint is live. -/
theorem onReportActivity_cases (cfg : ActivityConfig) (m : ActivityMaps) (now : UInt64)
    (state : UInt32) :
    onReportActivity cfg m now state = (m, []) ∨
      ∃ st e, m.be.state = some st ∧ m.config.admissionOpen = true ∧
        (onReportActivity cfg m now state).1 =
          { m with be :=
            { m.be with
              state := some { st with cmdOpen := cfg.cmdOpenOf state }
              edge := some e } } ∧
        e.cmdGeneration = m.config.generation ∧ e.cmdEdgeTs = now ∧
        e.cmdOpen = cfg.cmdOpenOf state ∧
        (m.resolve.cmdOpen = cfg.cmdOpenOf state ∧ (onReportActivity cfg m now state).2 = [] ∨
          m.resolve.cmdOpen ≠ cfg.cmdOpenOf state ∧ ∃ attr,
            (onReportActivity cfg m now state).2 =
              if cfg.lightweightMode = false ∧ st.wpLive ≠ 0 then
                [writePidMarkerAt m.be.key
                  (if cfg.isOpen state then markerCmdStart else markerCmdEnd) now attr]
              else []) := by
  rw [onReportActivity]
  by_cases hadm : m.config.admissionOpen = false ∨ cfg.bsStateRunning = 0
  · exact Or.inl (if_pos hadm)
  rw [if_neg hadm]
  have hopen : m.config.admissionOpen = true := by
    rw [not_or, Bool.not_eq_false] at hadm
    exact hadm.1
  cases hst : m.be.state with
  | none => exact Or.inl rfl
  | some st =>
    refine Or.inr ?_
    dsimp only
    rw [← ActivityConfig.cmdOpenOf]
    by_cases hsame : m.resolve.cmdOpen = cfg.cmdOpenOf state
    · rw [if_pos hsame]
      exact ⟨st, _, rfl, hopen, rfl, rfl, rfl, rfl, Or.inl ⟨hsame, rfl⟩⟩
    · rw [if_neg hsame]
      cases hpg : cfg.pg13Attr <;> cases ho : cfg.isOpen state
      all_goals exact ⟨st, _, rfl, hopen, rfl, rfl, rfl, rfl, Or.inr ⟨hsame, _, rfl⟩⟩

theorem onReportActivity_frame (cfg : ActivityConfig) (m : ActivityMaps) (now : UInt64)
    (state : UInt32) :
    let m' := (onReportActivity cfg m now state).1
    m'.config = m.config ∧ (m'.be.Present ↔ m.be.Present) ∧
      (m'.be.state.any fun st => st.wpLive ≠ 0) = m.be.state.any fun st => st.wpLive ≠ 0 := by
  intro m'
  rcases onReportActivity_cases cfg m now state with
    h | ⟨st, e, hst, -, h, -⟩
  · simp only [m', h, and_self]
  · simp only [m', h, hst]
    exact ⟨trivial, Iff.rfl, rfl⟩

theorem onReportActivity_of_closed (h : m.config.admissionOpen = false) :
    onReportActivity cfg m now state = (m, []) := by
  rw [onReportActivity, if_pos (Or.inl h)]

theorem onReportActivity_of_quiet (cfg : ActivityConfig) (now : UInt64) (state : UInt32)
    (h : (m.be.state.any fun st => st.wpLive ≠ 0) = false) :
    (onReportActivity cfg m now state).2 = [] := by
  rcases onReportActivity_cases cfg m now state with
    h' | ⟨st, e, hst, -, -, -, -, -, ⟨-, h'⟩ | ⟨-, attr, h'⟩⟩
  · rw [h']
  · exact h'
  · have hq : st.wpLive = 0 := by simpa [hst] using h
    rw [h', if_neg (by simp [hq])]

/-- **A call under a live watchpoint** keeps the markers at the resolved command state. -/
theorem onReportActivity_marks (state : UInt32) (hcfg : cfg.lightweightMode = false)
    (hnow : m.config.attachBoundaryNs ≤ now)
    (hlive : (m.be.state.any fun st => st.wpLive ≠ 0) = true)
    (hevs : markedOpen evs = true ↔ m.resolve.cmdOpen ≠ 0) :
    let r := onReportActivity cfg m now state
    markedOpen (evs ++ r.2) = true ↔ r.1.resolve.cmdOpen ≠ 0 := by
  intro r
  have hone : cfg.cmdOpenOf state ≠ 0 ↔ cfg.isOpen state = true := by
    rw [ActivityConfig.cmdOpenOf]
    split_ifs with h <;> simp [h]
  rcases onReportActivity_cases cfg m now state with
    h | ⟨st, e, hst, -, h, hgen, hts, ho, hring⟩
  · simp only [r, h, List.append_nil, hevs]
  · have hfresh : e.CmdFresh m.config := ⟨hgen, hts ▸ hnow⟩
    have hnew : r.1.resolve.cmdOpen = cfg.cmdOpenOf state := by
      simp only [r, h, ActivityMaps.resolve]
      rw [cmdOpen_exactMergeAttr, if_pos (Or.inr hfresh), ho]
    rw [hnew]
    rcases hring with ⟨hsame, hring⟩ | ⟨-, attr, hring⟩
    · rw [← hsame, ← hevs, show r.2 = [] from hring, List.append_nil]
    · have hwp : st.wpLive ≠ 0 := by simpa [hst] using hlive
      rw [show r.2 = _ from hring, if_pos ⟨hcfg, hwp⟩, markedOpen_append_singleton, hone]
      cases cfg.isOpen state <;> simp [writePidMarkerAt, markerCmdStart, markerCmdEnd]

end Call

/-! ### The invariant -/

/-- From the preseed to the detach the entry of the backend is live. -/
def WindowPhase.isLive : WindowPhase → Bool
  | .live | .quiesced | .flushed | .closed => true
  | _ => false

/-- Whether the programs admit, while the generation of a window is published. -/
def WindowPhase.admits : WindowPhase → Option Bool
  | .sampled => none
  | .configured | .linked | .seeded | .synthesized | .live => some true
  | .quiesced | .flushed | .closed | .detached => some false

/-- What the markers of the trace fold to in a phase, given what `synthesize_command_starts` found
and what is resolved now. -/
def WindowPhase.marks (startOpen cmdOpen : Bool) : WindowPhase → Bool
  | .synthesized => startOpen
  | .live | .quiesced | .flushed => cmdOpen
  | _ => false

/-- The state of a run in which no edge has been lost. -/
structure CmdRun.Ok (s : CmdRun) : Prop where
  present : s.maps.be.Present
  live : s.wpLive = s.phase.isLive
  admits : ∀ b, s.phase.admits = some b →
    s.maps.config.generation ≠ 0 ∧ s.maps.config.admitting = b
  marks : markedOpen s.trace = s.phase.marks s.startOpen s.cmdOpen

theorem bumpGeneration_ne_zero (g : UInt64) : bumpGeneration g ≠ 0 := by
  rw [bumpGeneration]
  split_ifs with h
  · decide
  · exact h

namespace CmdRun.Ok

variable {cfg : ActivityConfig} {s : CmdRun}

/-- A call, in any phase. -/
theorem reportActivity {now : UInt64} {state : UInt32} (hcfg : cfg.lightweightMode = false)
    (h : s.Ok) (hnow : s.maps.config.attachBoundaryNs ≤ now) :
    (cmdStep cfg s (.reportActivity now state)).Ok := by
  rw [cmdStep]
  by_cases hatt : s.attached = true
  · rw [if_pos hatt]
    obtain ⟨hconfig, hpresent, hwp⟩ :=
      onReportActivity_frame cfg s.maps now state
    refine ⟨hpresent.mpr h.present, hwp.trans h.live, fun b hb => ?_, ?_⟩
    · change _ ∧ (onReportActivity cfg s.maps now state).1.config.admitting = b
      rw [hconfig]
      exact h.admits b hb
    · by_cases hadm : s.phase.admits = some false
      · -- the window is quiesced: the call is not admitted
        have hclosed : s.maps.config.admissionOpen = false := by
          simp [ExactConfig.admissionOpen, h.admits false hadm]
        simp only [onReportActivity_of_closed hclosed, List.append_nil]
        exact h.marks
      · by_cases hlive : s.wpLive = true
        · have hphase : s.phase = .live := by
            have := h.live
            cases hp : s.phase <;> simp_all [WindowPhase.isLive, WindowPhase.admits]
          have hmarks : markedOpen s.trace = true ↔ s.maps.resolve.cmdOpen ≠ 0 := by
            rw [h.marks, hphase]
            exact decide_eq_true_iff
          have hnew := onReportActivity_marks state hcfg hnow hlive hmarks
          rw [Bool.eq_iff_iff]
          simp only [hphase, WindowPhase.marks, CmdRun.cmdOpen, decide_eq_true_iff]
          exact hnew
        · have hring := onReportActivity_of_quiet cfg now state
            (Bool.not_eq_true _ ▸ hlive)
          simp only [hring, List.append_nil]
          rw [h.marks]
          have := h.live
          cases hp : s.phase <;> simp_all [WindowPhase.isLive, WindowPhase.marks]
  · rw [if_neg hatt]
    exact h

/-- A step of the daemon, in its phase. -/
theorem daemonStep {i : CmdStep} {p : WindowPhase} (hi : i.phase = some p) (h : s.Ok)
    (hp : s.phase = p) (hseam : i.SeamClosed s) : (cmdStep cfg s i).Ok := by
  obtain ⟨hpresent, hlive, hadmits, hmarks⟩ := h
  cases i <;> cases hi <;> rw [hp] at hlive hadmits hmarks
  case setConfig =>
    exact ⟨hpresent, hlive, fun b hb => ⟨bumpGeneration_ne_zero _, Option.some_inj.mp hb⟩, rfl⟩
  case attachLinks => exact ⟨hpresent, hlive, hadmits, hmarks⟩
  case seed => exact ⟨hpresent, hlive, hadmits, hmarks⟩
  case commandStarts =>
    refine ⟨hpresent, hlive, hadmits, ?_⟩
    rw [Bool.eq_iff_iff]
    simp only [cmdStep, WindowPhase.marks, CmdRun.cmdOpen, decide_eq_true_iff]
    exact markedOpen_commandStart _ hpresent hmarks
  case reseed queryId cmdOpen quality =>
    have hphase : (cmdStep cfg s (.reseed queryId cmdOpen quality)).phase = .synthesized := hp
    refine ⟨hpresent, ?_, ?_, ?_⟩ <;> rw [hphase]
    · exact hlive
    · exact hadmits
    · exact hmarks
  case preseed attachTs wei inCommand =>
    exact ⟨hpresent, by simp [cmdStep, CmdRun.wpLive, CmdRun.setState, preseedStateMap,
      WindowPhase.isLive], hadmits, hmarks.trans hseam.symm⟩
  case quiesce =>
    exact ⟨hpresent, hlive, fun b hb => ⟨(hadmits true rfl).1, Option.some_inj.mp hb⟩, hmarks⟩
  case flush now =>
    exact ⟨hpresent, hlive, hadmits, (markedOpen_openInterval _ _ _).trans hmarks⟩
  case terminalMarkers now =>
    have hopen : markedOpen s.trace = true ↔ s.maps.resolve.cmdOpen ≠ 0 := by
      rw [hmarks]
      exact decide_eq_true_iff
    exact ⟨hpresent, hlive, hadmits, markedOpen_terminalMarkers now hpresent hopen⟩
  case detach now =>
    exact ⟨hpresent, by simp [cmdStep, CmdRun.wpLive, CmdRun.setState, WindowPhase.isLive],
      hadmits, hmarks⟩
  case release => exact ⟨hpresent, hlive, by rintro _ ⟨⟩, hmarks⟩

/-- **One step.** A step that loses no edge keeps the invariant. -/
theorem step {i : CmdStep} (hcfg : cfg.lightweightMode = false) (h : s.Ok) (hi : i.Ordered s)
    (hseam : i.SeamClosed s) : (cmdStep cfg s i).Ok := by
  cases hphase : i.phase with
  | none =>
    cases i with
    | reportActivity now state => exact h.reportActivity hcfg hi.2
    | _ => cases hphase
  | some p => exact h.daemonStep hphase (hi.1 p hphase) hseam

theorem reproduces (h : s.Ok) : s.Reproduces := by
  have hmarks := h.marks
  rw [CmdRun.Reproduces]
  cases hp : s.phase <;> rw [hp] at hmarks <;> first | exact hmarks | trivial

theorem seamClosed {i : CmdStep} (h : s.Ok) (hi : i.Ordered s)
    (hout : (cmdStep cfg s i).Reproduces) : i.SeamClosed s := by
  cases i with
  | preseed attachTs wei inCommand =>
    have hmarks := h.marks
    rw [hi.1 .synthesized rfl] at hmarks
    exact hout.symm.trans hmarks
  | _ => trivial

end CmdRun.Ok

theorem CmdRun.Sampled.ok {s : CmdRun} (h : s.Sampled) : s.Ok where
  present := h.present
  live := by rw [h.quiet, h.phase]; rfl
  admits b hb := by rw [h.phase] at hb; cases hb
  marks := by rw [h.trace, h.phase]; rfl

/-- **The command markers of a window reproduce the command state exactly when no edge is lost.** In
every interleaving of the calls of a backend with the steps of the daemon, over any number of
windows: while the watchpoint is live the markers in the trace fold to the resolved command state,
and after the terminal markers to closed, if and only if whenever the watchpoint goes live the
resolved command state is the one that `synthesize_command_starts` found. -/
theorem reproduces_iff (cfg : ActivityConfig) (hcfg : cfg.lightweightMode = false) (s : CmdRun)
    (hs : s.Sampled) (steps : List CmdStep)
    (hrun : Allowed (cmdStep cfg) (fun s i => i.Ordered s) s steps) :
    (∀ pre post, steps = pre ++ post → (pre.foldl (cmdStep cfg) s).Reproduces) ↔
      Allowed (cmdStep cfg) (fun s i => i.SeamClosed s) s steps :=
  Allowed.forall_state_iff (fun _ _ h hi hseam => h.step hcfg hi hseam) (fun _ h => h.reproduces)
    (fun _ _ h hi hout => h.seamClosed hi hout) steps s hrun hs.ok

/-- A sampled client backend. -/
def sampledBackend : CmdRun where
  maps := ⟨⟨0, 0, true⟩, { pid := 7, state := some ⟨0, 0, 0, 0, 0, 0, 0⟩ }⟩
  attached := false

theorem sampled_sampledBackend : sampledBackend.Sampled := ⟨rfl, rfl, by decide, rfl⟩

/-- A window over a straddling command, which ends while the watchpoint is live. -/
def straddlingSteps : List CmdStep :=
  [.setConfig 10, .attachLinks, .seed 42 1 1, .commandStarts, .reseed 42 1 1, .preseed 12 0 true,
    .reportActivity 20 2, .quiesce, .flush 30, .terminalMarkers 30]

theorem ordered_straddlingSteps :
    Allowed (cmdStep {}) (fun s i => i.Ordered s) sampledBackend straddlingSteps := by
  refine ⟨?_, ?_, ?_, ?_, ?_, ?_, ?_, ?_, ?_, ?_, trivial⟩ <;>
    exact ⟨by rintro _ ⟨⟩ <;> rfl, by decide⟩

/-- The markers of the straddling command say open and then closed, as the merge rule does. -/
theorem reproduces_straddlingSteps :
    ((straddlingSteps.take 7).foldl (cmdStep {}) sampledBackend).Reproduces ∧
      markedOpen ((straddlingSteps.take 6).foldl (cmdStep {}) sampledBackend).trace = true ∧
      markedOpen ((straddlingSteps.take 7).foldl (cmdStep {}) sampledBackend).trace = false :=
  ⟨(reproduces_iff {} rfl sampledBackend sampled_sampledBackend straddlingSteps
    ordered_straddlingSteps).mpr
      ⟨trivial, trivial, trivial, trivial, trivial, rfl, trivial, trivial, trivial, trivial,
        trivial⟩
      (straddlingSteps.take 7) (straddlingSteps.drop 7) rfl, by decide, by decide⟩

/-- The same window, but the command ends after its synthetic start and before the preseed. -/
def lostEdgeSteps : List CmdStep :=
  [.setConfig 10, .attachLinks, .seed 42 1 1, .commandStarts, .reportActivity 11 2, .reseed 42 0 1,
    .preseed 12 0 false, .quiesce, .flush 30, .terminalMarkers 30]

/-- The end of the command is in no marker: the markers say open while the merge rule says closed,
and still do after the terminal markers. -/
theorem not_reproduces_lostEdgeSteps :
    sampledBackend.Sampled ∧
      Allowed (cmdStep {}) (fun s i => i.Ordered s) sampledBackend lostEdgeSteps ∧
      ((lostEdgeSteps.take 7).foldl (cmdStep {}) sampledBackend).phase = .live ∧
      ((lostEdgeSteps.take 7).foldl (cmdStep {}) sampledBackend).cmdOpen = false ∧
      markedOpen ((lostEdgeSteps.take 7).foldl (cmdStep {}) sampledBackend).trace = true ∧
      (lostEdgeSteps.foldl (cmdStep {}) sampledBackend).phase = .closed ∧
      markedOpen (lostEdgeSteps.foldl (cmdStep {}) sampledBackend).trace = true := by
  refine ⟨⟨rfl, rfl, by decide, rfl⟩, ?_, by decide, by decide, by decide, by decide, by decide⟩
  refine ⟨?_, ?_, ?_, ?_, ?_, ?_, ?_, ?_, ?_, ?_, trivial⟩ <;>
    exact ⟨by rintro _ ⟨⟩ <;> rfl, by decide⟩

end PgWaitTracer
