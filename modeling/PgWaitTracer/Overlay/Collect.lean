import PgWaitTracer.Compute.Filter
import PgWaitTracer.Lib.Json
import PgWaitTracer.Live.Accum

/-!
# The snapshot of open intervals

The daemon answers `{"cmd":"open_intervals"}` with the stretch that every live backend is inside
(`pgwt_collect_open_intervals`, `src/open_snapshot.c`). The state of a backend is read from a map
that the kernel keeps on writing, so that each entry may be newer than the clock reading that the
whole snapshot is taken at. The answer is a JSON document (`pgwt_open_snapshot_to_json`,
`src/open_snapshot.h`).

What the maps hold for a backend when the loop reaches it is part of its registry entry here, and
the readings of the two clocks are an argument. The length of a printed document is a parameter.

## Main results

* `collectOpenIntervals_collectedBy` : the rows of an included snapshot are those of the backends
  with an open stretch.
-/

namespace PgWaitTracer

/-! ### What the daemon reads -/

/-- `PGWT_QUERY_QUALITY_PG13_SYNTH`. -/
def queryQualityPg13Synth : UInt16 := 2

/-- `struct pgwt_pid_state`, without the query and the addresses that the snapshot does not read. -/
structure PidState where
  lastEvent : UInt32
  wpLive : UInt16
  cmdOpen : UInt16
  lastTs : UInt64
  cpuNsTotal : UInt64
  onCpuTs : UInt64
  lastCpuNs : UInt64
  deriving DecidableEq, Repr

/-- `struct pgwt_open_stretch_attr`: what `pgwt_exact_resolve_attr` finds. -/
structure OpenStretchAttr where
  queryId : UInt64
  cmdOpen : UInt16
  quality : UInt16
  deriving DecidableEq, Repr

/-- A registry entry, `struct pgwt_backend`, with what the maps hold for it when the loop reaches
it. A backend whose command line is not parsed yet has no category. -/
structure Backend where
  pid : Int32
  wpFd : ℤ
  attachTs : UInt64
  isAlive : Bool
  category : Option PidCategory
  state : Option PidState
  attr : OpenStretchAttr
  cmdGate : Option LiveCmdGate
  deriving DecidableEq, Repr

/-- `enum pgwt_mode`. -/
inductive CaptureMode
  | full | sampled | tiered | coop
  deriving DecidableEq, Repr

/-- `struct pgwt_daemon`, as far as the snapshot reads it. `drainYielded` is the outcome of the
bounded drain of the ring, `published` that of `pgwt_writer_publish`; without a ring or a writer
there is none. -/
structure Daemon where
  pid : UInt32
  mode : CaptureMode
  lightweightMode : Bool
  escalationActive : Bool
  escalationAdmitting : Bool
  generation : UInt64
  startTs : UInt64
  cpuAccounting : Bool
  cmdGateActive : Bool
  hasSkel : Bool
  hasStateFd : Bool
  backends : List Backend
  length_backends : backends.length ≤ maxBackends
  drainYielded : Option Bool
  published : Option Bool
  committedThroughNs : UInt64

/-- `pgwt_mode_uses_watchpoints`. -/
def Daemon.usesWatchpoints (d : Daemon) : Bool :=
  match d.mode with
  | .sampled => false
  | .tiered => d.escalationActive && d.escalationAdmitting
  | .coop => false
  | .full => true

/-- The clock readings of one snapshot: the pair that anchors the monotonic clock to the wall clock,
the time of the snapshot and the time before the publication. The monotonic clock does not go
back, and no reading is near the end of the signed 64-bit range. -/
structure ClockReads where
  nowMonoNs : UInt64
  nowWallNs : UInt64
  snapshotNs : UInt64
  publishFromNs : UInt64
  nowMono_pos : 0 < nowMonoNs
  nowWall_pos : 0 < nowWallNs
  nowMono_le : nowMonoNs ≤ snapshotNs
  snapshot_le : snapshotNs ≤ publishFromNs
  fits : publishFromNs.toNat + nowWallNs.toNat < 2 ^ 63

/-! ### One open stretch -/

/-- `enum pgwt_open_stretch_rc`. -/
inductive OpenStretchRc
  | built | skipSeed | skipNotOpen | skipMarker
  deriving DecidableEq, Repr

/-- `pgwt_open_stretch_cpu_ns`. -/
def openStretchCpuNs (cpuNsTotal onCpuTs lastCpuNs nowNs : UInt64) (cpuAccounting : Bool) :
    UInt64 :=
  if cpuAccounting then
    let exact :=
      if onCpuTs ≠ 0 ∧ nowNs ≥ onCpuTs then cpuNsTotal + (nowNs - onCpuTs) else cpuNsTotal
    if exact ≥ lastCpuNs then exact - lastCpuNs else 0
  else cpuNsUnknown

/-- `pgwt_open_stretch_gate`. -/
def openStretchGate (st : PidState) (nowNs : UInt64) : OpenStretchRc :=
  if st.wpLive = 0 then .skipSeed
  else if nowNs ≤ st.lastTs then .skipNotOpen
  else if isMarker st.lastEvent then .skipMarker
  else .built

/-- `pgwt_build_open_stretch`, behind its gate. -/
def buildOpenStretch (pid : UInt32) (st : PidState) (nowNs : UInt64) (cpuAccounting : Bool)
    (attr : OpenStretchAttr) : TraceEvent where
  timestampNs := nowNs
  pid := pid
  oldEvent := st.lastEvent
  newEvent := st.lastEvent
  flags := (if attr.cmdOpen ≠ 0 then flagCmdOpen else 0) |||
    (if attr.quality = queryQualityPg13Synth then flagQuerySynth else 0)
  durationNs := nowNs - st.lastTs
  queryId := attr.queryId
  cpuNs := openStretchCpuNs st.cpuNsTotal st.onCpuTs st.lastCpuNs nowNs cpuAccounting

/-- `pgwt_live_cmd_gate_peek`. -/
def LiveCmdGate.peek (g : LiveCmdGate) (t0 nowNs : UInt64) : UInt64 :=
  if g.seen then
    let wall := if nowNs > t0 then nowNs - t0 else 0
    if g.openNs t0 nowNs < wall then g.openNs t0 nowNs else wall
  else 0

/-- `pgwt_live_cmd_gate_classify` for an open stretch (no `consume`): whether markers decide, and
whether the stretch is inside a command. -/
def liveCmdGatePeekClassify (g : Option LiveCmdGate) (t0 t1 : UInt64) (fallbackOpen : Bool) :
    Bool × Bool :=
  match g with
  | none => (false, fallbackOpen)
  | some g =>
    if g.seen then
      (true, liveCmdMajority (g.peek t0 t1) (if t1 > t0 then t1 - t0 else 0) g.isOpen)
    else (false, true)

/-! ### The snapshot -/

/-- `struct pgwt_open_row`. -/
structure OpenRow where
  pid : UInt32
  incarnation : UInt64
  generation : UInt64
  eventId : UInt32
  catFlag : UInt32
  effEvent : UInt32
  flags : UInt32
  openStartNs : UInt64
  durationNs : UInt64
  cpuNs : UInt64
  cpuNsTotal : UInt64
  onCpuTs : UInt64
  lastCpuNs : UInt64
  queryId : UInt64
  queryQuality : UInt16
  categoryId : UInt32
  category : String
  cmdOpenNs : UInt64
  cmdBankedNs : UInt64
  cmdAnchorNs : UInt64
  cmdOpen : Bool
  cmdSweepOpen : Bool
  cmdSeen : Bool
  cmdGatePresent : Bool
  cmdInWindow : Bool
  cmdByMarkers : Bool
  querySynth : Bool
  deriving DecidableEq, Repr

/-- `enum pgwt_open_snapshot_status`. -/
inductive OpenSnapStatus
  | included | unavailable | refused
  deriving DecidableEq, Repr

/-- `struct pgwt_open_snapshot` of the daemon. -/
structure DaemonSnapshot where
  status : OpenSnapStatus := .unavailable
  reason : String := ""
  complete : Bool := false
  snapshotNs : UInt64 := 0
  snapshotWallNs : UInt64 := 0
  nowMonoNs : UInt64 := 0
  nowWallNs : UInt64 := 0
  committedThroughNs : UInt64 := 0
  daemonGeneration : UInt64 := 0
  daemonStartWallNs : UInt64 := 0
  daemonPid : UInt32 := 0
  tier : String := ""
  cpuAccounting : Bool := false
  cmdGateActive : Bool := false
  openCount : ℕ := 0
  rows : List OpenRow := []
  deriving DecidableEq, Repr

/-- `pgwt_open_snapshot_wall_of`: from the monotonic clock to the wall clock. -/
def DaemonSnapshot.wallOf (s : DaemonSnapshot) (mono : UInt64) : UInt64 :=
  if s.nowMonoNs = 0 ∨ s.nowWallNs = 0 then 0
  else
    let w : ℤ := mono.toNat + ((s.nowWallNs.toNat : ℤ) - s.nowMonoNs.toNat)
    if 0 < w then .ofNat w.toNat else 0

/-- `pgwt_live_pid_cat_flag` without an accumulator entry: the category of the first registry entry
of the pid. -/
def Daemon.livePidCategory (d : Daemon) (pid : UInt32) : PidCategory :=
  ((d.backends.find? fun be => be.pid.toUInt32 = pid).bind Backend.category).getD .foreground

/-- The row of a backend with an open stretch. -/
def Daemon.openRow (d : Daemon) (snap : UInt64) (be : Backend) (st : PidState) : OpenRow :=
  let key := be.pid.toUInt32
  let ev := buildOpenStretch key st snap d.cpuAccounting be.attr
  let cmd := liveCmdGatePeekClassify be.cmdGate st.lastTs snap (st.cmdOpen ≠ 0)
  let cat := d.livePidCategory key
  { pid := key
    incarnation := be.attachTs
    generation := d.generation
    eventId := ev.oldEvent
    catFlag := cat.flag
    effEvent := liveEffectiveEvent ev.oldEvent cat d.cmdGateActive cmd.2
    flags := ev.flags
    openStartNs := st.lastTs
    durationNs := ev.durationNs
    cpuNs := ev.cpuNs
    cpuNsTotal := st.cpuNsTotal
    onCpuTs := st.onCpuTs
    lastCpuNs := st.lastCpuNs
    queryId := ev.queryId
    queryQuality := be.attr.quality
    categoryId := if ev.oldEvent ≠ 0 then weClass ev.oldEvent else 0
    category := className ev.oldEvent
    cmdOpenNs := be.cmdGate.elim 0 (·.peek st.lastTs snap)
    cmdBankedNs := be.cmdGate.elim 0 (·.bankedNs)
    cmdAnchorNs := be.cmdGate.elim 0 (·.anchorNs)
    cmdOpen := st.cmdOpen ≠ 0
    cmdSweepOpen := be.cmdGate.elim false (·.isOpen)
    cmdSeen := be.cmdGate.elim false (·.seen)
    cmdGatePresent := be.cmdGate.isSome
    cmdInWindow := cmd.2
    cmdByMarkers := cmd.1
    querySynth := ev.flags &&& flagQuerySynth ≠ 0 }

/-- The state of a backend that is alive, watched and inside a stretch at `snap`. -/
def Backend.openState (be : Backend) (snap : UInt64) : Option PidState :=
  if be.isAlive = false ∨ be.pid ≤ 0 ∨ be.wpFd < 0 then none
  else be.state.filter fun st => openStretchGate st snap = .built

/-- The row loop; the array has room for `MAX_BACKENDS` rows. -/
def Daemon.openRows (d : Daemon) (snap : UInt64) : List Backend → List OpenRow → List OpenRow
  | [], rows => rows
  | be :: bes, rows =>
    if rows.length < maxBackends then
      match be.openState snap with
      | some st => d.openRows snap bes (rows ++ [d.openRow snap be st])
      | none => d.openRows snap bes rows
    else rows

/-- The drain and the publication, after the rows. -/
def Daemon.publishSnapshot (d : Daemon) (c : ClockReads) (s : DaemonSnapshot) : DaemonSnapshot :=
  let backlogged := "event ring still backlogged after the bounded drain; " ++
    "committed_through_ns is a floor"
  match d.published with
  | none =>
    { s with
      status := .unavailable
      reason := "trace recording disabled: no publication point to reconcile against"
      rows := [] }
  | some published =>
    let degraded :=
      if published = false then
        some "trace publish failed; closed records may be unflushed"
      else if d.drainYielded = some true then some backlogged
      else none
    match degraded with
    | some reason =>
      { s with
        status := .unavailable
        complete := false
        committedThroughNs := d.committedThroughNs
        rows := []
        reason := reason }
    | none =>
      { s with status := .included, complete := true, committedThroughNs := c.publishFromNs }

/-- `pgwt_collect_open_intervals`. -/
def collectOpenIntervals (d : Daemon) (c : ClockReads) : DaemonSnapshot :=
  let s : DaemonSnapshot :=
    { daemonPid := d.pid
      cpuAccounting := d.cpuAccounting
      cmdGateActive := d.cmdGateActive
      daemonGeneration := d.generation
      nowMonoNs := c.nowMonoNs
      nowWallNs := c.nowWallNs }
  let s := if c.nowMonoNs ≥ d.startTs then { s with daemonStartWallNs := s.wallOf d.startTs } else s
  if d.lightweightMode then
    { s with
      tier := "lightweight"
      status := .refused
      reason := "lightweight tier: BPF accumulator only, no per-backend open intervals exist" }
  else if d.usesWatchpoints = false then
    { s with
      tier := "sampled"
      status := .refused
      reason :=
        if d.mode = .tiered then
          "sampled tier: no watchpoints armed; escalate for in-flight waits"
        else "sampled tier: this capture mode has no watchpoint intervals" }
  else
    let s := { s with tier := "escalated" }
    if d.hasSkel = false then { s with reason := "BPF skeleton unavailable" }
    else if d.hasStateFd = false then { s with reason := "state_map fd unavailable" }
    else
      let rows := d.openRows c.snapshotNs d.backends []
      d.publishSnapshot c
        { s with
          snapshotNs := c.snapshotNs
          snapshotWallNs := s.wallOf c.snapshotNs
          openCount := rows.length
          rows := rows }

/-! ### The document -/

/-- `pgwt_open_snapshot_status_str`. -/
def OpenSnapStatus.str : OpenSnapStatus → String
  | .included => "included"
  | .refused => "refused"
  | .unavailable => "unavailable"

/-- `pgwt_json_u64`. -/
def jsonU64 (key : String) (v : UInt64) : String × Json := (key, .ofDecimal v.toNat)

/-- `pgwt_json_u32`. -/
def jsonU32 (key : String) (v : UInt32) : String × Json := (key, .num v.toNat)

/-- One row; a CPU time that is not known is left out. -/
def OpenRow.toJson (r : OpenRow) : Json :=
  .obj <|
    [jsonU32 "pid" r.pid, jsonU64 "incarnation" r.incarnation, jsonU64 "generation" r.generation,
      jsonU32 "event_id" r.eventId, jsonU32 "cat_flag" r.catFlag, jsonU32 "eff_event" r.effEvent,
      jsonU32 "flags" r.flags, jsonU64 "open_start_ns" r.openStartNs,
      jsonU64 "duration_ns" r.durationNs] ++
    (if r.cpuNs ≠ cpuNsUnknown then [jsonU64 "cpu_ns" r.cpuNs] else []) ++
    [jsonU64 "cpu_ns_total" r.cpuNsTotal, jsonU64 "on_cpu_ts" r.onCpuTs,
      jsonU64 "last_cpu_ns" r.lastCpuNs, jsonU64 "query_id" r.queryId,
      ("query_quality", .num r.queryQuality.toNat), ("category", .str r.category),
      jsonU32 "category_id" r.categoryId, jsonU64 "cmd_open_ns" r.cmdOpenNs,
      jsonU64 "cmd_banked_ns" r.cmdBankedNs, jsonU64 "cmd_anchor_ns" r.cmdAnchorNs,
      ("cmd_open", .bool r.cmdOpen), ("cmd_sweep_open", .bool r.cmdSweepOpen),
      ("cmd_seen", .bool r.cmdSeen), ("cmd_gate_present", .bool r.cmdGatePresent),
      ("cmd_in_window", .bool r.cmdInWindow), ("cmd_by_markers", .bool r.cmdByMarkers),
      ("query_synth", .bool r.querySynth)]

/-- The document of a snapshot under a status. -/
def DaemonSnapshot.toJsonAs (s : DaemonSnapshot) (status : OpenSnapStatus) (reason : String) :
    Json :=
  .obj <|
    [("ok", .bool (status = .included)), ("cmd", .str "open_intervals"),
      ("status", .str status.str), ("reason", .str reason), ("complete", .bool (status = .included)),
      jsonU64 "snapshot_ns" s.snapshotNs, jsonU64 "snapshot_wall_ns" s.snapshotWallNs,
      jsonU64 "now_mono_ns" s.nowMonoNs, jsonU64 "now_wall_ns" s.nowWallNs,
      jsonU64 "committed_through_ns" s.committedThroughNs,
      jsonU64 "committed_through_wall_ns" (s.wallOf s.committedThroughNs),
      jsonU64 "daemon_generation" s.daemonGeneration,
      jsonU64 "daemon_start_wall_ns" s.daemonStartWallNs, jsonU32 "daemon_pid" s.daemonPid,
      ("tier", .str s.tier), ("cpu_accounting", .bool s.cpuAccounting),
      ("cmd_gate_active", .bool s.cmdGateActive), ("open_count", .num s.openCount)] ++
    if status = .included then [("pids", .arr (s.rows.map OpenRow.toJson))] else []

/-- The second try of `pgwt_open_snapshot_json_as`: no rows, or nothing at all. -/
def DaemonSnapshot.degradedJson (wireLen : Json → ℕ) (replyMax : ℕ) (s : DaemonSnapshot)
    (reason : String) : Option Json :=
  let root := s.toJsonAs .unavailable reason
  if wireLen root + 1 ≤ replyMax then some root else none

/-- `pgwt_open_snapshot_json_as` at its first try. -/
def DaemonSnapshot.jsonAs (wireLen : Json → ℕ) (replyMax : ℕ) (s : DaemonSnapshot)
    (status : OpenSnapStatus) (reason : String) : Option Json :=
  match if status = .included then s.rows.find? (·.category = "") else none with
  | some r =>
    s.degradedJson wireLen replyMax
      s!"internal: open interval for pid {r.pid} has no resolved wait category"
  | none =>
    let root := s.toJsonAs status reason
    let len := wireLen root + 1
    if len ≤ replyMax then some root
    else
      s.degradedJson wireLen replyMax
        s!"reply too large: {s.openCount} open intervals serialise to {len} bytes, cap {replyMax}"

/-- `pgwt_open_snapshot_to_json`. -/
def openSnapshotToJson (wireLen : Json → ℕ) (replyMax : ℕ) (s : DaemonSnapshot) : Option Json :=
  if s.status = .included ∧ s.complete = false then
    s.jsonAs wireLen replyMax .unavailable
      (if s.reason ≠ "" then s.reason else "internal: snapshot marked included but incomplete")
  else s.jsonAs wireLen replyMax s.status s.reason

/-! ### The rows of an included snapshot -/

theorem openRows_eq (d : Daemon) (snap : UInt64) (bes : List Backend) (rows : List OpenRow)
    (h : rows.length + bes.length ≤ maxBackends) :
    d.openRows snap bes rows =
      rows ++ bes.filterMap fun be => (be.openState snap).map (d.openRow snap be) := by
  induction bes generalizing rows with
  | nil => simp [Daemon.openRows]
  | cons be bes ih =>
    rw [List.length_cons] at h
    rw [Daemon.openRows, if_pos (by omega), List.filterMap_cons]
    cases hst : be.openState snap with
    | none => simpa [hst] using ih rows (by omega)
    | some st =>
      simp only [Option.map_some]
      rw [ih _ (by rw [List.length_append, List.length_singleton]; omega), List.append_assoc,
        List.singleton_append]

/-- What an included snapshot holds. -/
structure DaemonSnapshot.CollectedBy (s : DaemonSnapshot) (d : Daemon) (c : ClockReads) :
    Prop where
  nowMono : s.nowMonoNs = c.nowMonoNs
  nowWall : s.nowWallNs = c.nowWallNs
  snapshot : s.snapshotNs = c.snapshotNs
  snapshotWall : s.snapshotWallNs = s.wallOf c.snapshotNs
  committedThrough : s.committedThroughNs = c.publishFromNs
  complete : s.complete = true
  cpuAccounting : s.cpuAccounting = d.cpuAccounting
  openCount : s.openCount = s.rows.length
  rows : s.rows = d.backends.filterMap fun be =>
    (be.openState c.snapshotNs).map (d.openRow c.snapshotNs be)

theorem publishSnapshot_eq {d : Daemon} {c : ClockReads} {s : DaemonSnapshot}
    (h : (d.publishSnapshot c s).status = .included) :
    d.publishSnapshot c s =
      { s with status := .included, complete := true, committedThroughNs := c.publishFromNs } := by
  rw [Daemon.publishSnapshot] at h ⊢
  cases hpub : d.published with
  | none => simp [hpub] at h
  | some published =>
    simp only [hpub] at h ⊢
    by_cases h₁ : published = false
    · simp [h₁] at h
    by_cases h₂ : d.drainYielded = some true
    · simp [h₁, h₂] at h
    rw [if_neg h₁, if_neg h₂]

theorem collectOpenIntervals_collectedBy {d : Daemon} {c : ClockReads}
    (h : (collectOpenIntervals d c).status = .included) :
    (collectOpenIntervals d c).CollectedBy d c := by
  have hrows := openRows_eq d c.snapshotNs d.backends [] (by simpa using d.length_backends)
  rw [List.nil_append] at hrows
  rw [collectOpenIntervals] at h ⊢
  dsimp only at h ⊢
  by_cases h₁ : d.lightweightMode = true
  · simp [h₁] at h
  by_cases h₂ : d.usesWatchpoints = false
  · simp [h₁, h₂] at h
  by_cases h₃ : d.hasSkel = false
  · simp [h₁, h₂, h₃] at h
    split_ifs at h
  by_cases h₄ : d.hasStateFd = false
  · simp [h₁, h₂, h₃, h₄] at h
    split_ifs at h
  rw [if_neg h₁, if_neg h₂, if_neg h₃, if_neg h₄] at h ⊢
  rw [publishSnapshot_eq h]
  split_ifs <;> exact ⟨rfl, rfl, rfl, rfl, rfl, rfl, rfl, rfl, hrows⟩

end PgWaitTracer
