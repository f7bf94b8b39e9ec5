import PgWaitTracer.Overlay.Build
import PgWaitTracer.Overlay.Collect

/-!
# The answer of the daemon on the wire

`pgwt_overlay_parse` (`src/open_overlay.c`) reads the document of a snapshot. It derives the CPU time
and the command verdict of each row again from what they were computed from, and one row that it
does not believe fails the whole answer.

The printed document is read back as the tree that it was printed from. Reasons and names are not
cut to the size of their buffers, and the array of intervals can be allocated.

## Main results

* `overlayInCommand_eq` : the two sides agree on the command verdict.
* `overlayParse_collected_iff` : the reader takes the answer of the daemon if and only if each
  backend with an open stretch has a start, is not at its exit, and went on the CPU before the
  snapshot.
-/

namespace PgWaitTracer

/-! ### One row -/

/-- `overlay_cmd_open_ns`. -/
def overlayCmdOpenNs (it : ReportedInterval) (t0 t1 : UInt64) : UInt64 :=
  if it.cmdGatePresent = false ∨ it.cmdSeen = false then 0
  else
    let wall := if t1 > t0 then t1 - t0 else 0
    let a := if it.cmdAnchorNs > t0 then it.cmdAnchorNs else t0
    let openNs :=
      if it.cmdSweepOpen ∧ t1 > a then it.cmdBankedNs + (t1 - a) else it.cmdBankedNs
    if openNs > wall then wall else openNs

/-- `overlay_in_command`. -/
def overlayInCommand (it : ReportedInterval) (t0 t1 : UInt64) : Bool :=
  if it.cmdGatePresent = false then it.cmdOpen
  else if it.cmdSeen = false then true
  else if t1 = t0 then it.cmdSweepOpen
  else overlayCmdOpenNs it t0 t1 * 2 ≥ if t1 > t0 then t1 - t0 else 0

/-- A mandatory field of a row, which is named when it is not there. -/
def rowField {α : Type} (e : Json) (read : Json → Option α) (key : String) (bad : String := key) :
    Except String α :=
  match (e.get? key).bind read with
  | some v => .ok v
  | none => .error bad

/-- The fields of a row, in the order in which they are asked for. -/
def overlayReadRow (e : Json) : Except String ReportedInterval := do
  if e.isObj = false then throw "entry"
  let pid ← rowField e Json.uint32? "pid"
  let incarnation ← rowField e Json.uint64? "incarnation"
  let generation ← rowField e Json.uint64? "generation"
  let eventId ← rowField e Json.uint32? "event_id"
  let catFlag ← rowField e Json.uint32? "cat_flag"
  let category ← rowField e Json.text? "category" "category (absent or empty)"
  let categoryId ← rowField e Json.uint32? "category_id"
  let openStartNs ← rowField e Json.uint64? "open_start_ns"
  let cpuNsTotal ← rowField e Json.uint64? "cpu_ns_total"
  let onCpuTs ← rowField e Json.uint64? "on_cpu_ts"
  let lastCpuNs ← rowField e Json.uint64? "last_cpu_ns"
  let cmdOpen ← rowField e Json.bool? "cmd_open"
  let cmdSweepOpen ← rowField e Json.bool? "cmd_sweep_open"
  let cmdSeen ← rowField e Json.bool? "cmd_seen"
  let cmdGatePresent ← rowField e Json.bool? "cmd_gate_present"
  let cmdInWindow ← rowField e Json.bool? "cmd_in_window"
  let cmdBankedNs ← rowField e Json.uint64? "cmd_banked_ns"
  let cmdAnchorNs ← rowField e Json.uint64? "cmd_anchor_ns"
  let queryId ← rowField e Json.uint64? "query_id"
  let queryQuality ← rowField e Json.uint16? "query_quality"
  return {
    pid, incarnation, generation, eventId, catFlag, categoryId, category, openStartNs, cpuNsTotal,
    onCpuTs, lastCpuNs, cmdBankedNs, cmdAnchorNs, queryId, queryQuality, cmdOpen, cmdSweepOpen,
    cmdSeen, cmdGatePresent, cmdInWindow, cpuNs := 0, inCommand := false }

/-- The checks on the fields. -/
def overlayCheckRow (snapshotNs : UInt64) (it : ReportedInterval) : Except String Unit :=
  if it.pid = 0 then .error "pid (zero)"
  else if it.openStartNs = 0 then .error "open_start_ns (zero)"
  else if it.openStartNs > snapshotNs then .error "open_start_ns (after the snapshot)"
  else if isMarker it.eventId ∨ it.eventId = eventExit then
    .error "event_id (a marker is never an open wait)"
  else if it.onCpuTs ≠ 0 ∧ it.onCpuTs > snapshotNs then .error "on_cpu_ts (after the snapshot)"
  else .ok ()

/-- The CPU time, computed again and compared with the one sent. -/
def overlayCpuRow (snapshotNs : UInt64) (cpuAccounting : Bool) (e : Json)
    (it : ReportedInterval) : Except String ReportedInterval :=
  let cpuNs := openStretchCpuNs it.cpuNsTotal it.onCpuTs it.lastCpuNs snapshotNs cpuAccounting
  match (e.get? "cpu_ns").bind Json.uint64? with
  | some sent =>
    if cpuAccounting = false then
      .error "cpu_ns (present although the daemon measures no CPU)"
    else if sent ≠ cpuNs then
      .error "cpu_ns (disagrees with the shared open-stretch arithmetic)"
    else .ok { it with cpuNs := cpuNs }
  | none => .ok { it with cpuNs := if cpuAccounting then cpuNsUnknown else cpuNs }

/-- The command verdict, derived again and compared with the one sent. -/
def overlayCommandRow (snapshotNs : UInt64) (e : Json) (it : ReportedInterval) :
    Except String ReportedInterval :=
  let inCommand := overlayInCommand it it.openStartNs snapshotNs
  match (e.get? "cmd_open_ns").bind Json.uint64? with
  | none => .error "cmd_open_ns"
  | some sent =>
    if it.cmdGatePresent ∧ sent ≠ overlayCmdOpenNs it it.openStartNs snapshotNs then
      .error "cmd_open_ns (disagrees with our own gate reduction)"
    else if inCommand ≠ it.cmdInWindow then
      .error "cmd_in_window (the daemon's verdict and ours disagree)"
    else .ok { it with inCommand := inCommand }

/-- One row of the answer. -/
def overlayParseRow (snapshotNs : UInt64) (cpuAccounting : Bool) (e : Json) :
    Except String ReportedInterval := do
  let it ← overlayReadRow e
  overlayCheckRow snapshotNs it
  let it ← overlayCpuRow snapshotNs cpuAccounting e it
  overlayCommandRow snapshotNs e it

/-- The loop over the rows. One that is bad fails the answer. -/
def overlayParseRows (parse : Json → Except String ReportedInterval) :
    ℕ → List Json → Except String (List ReportedInterval)
  | _, [] => .ok []
  | idx, e :: es =>
    match parse e with
    | .error bad => .error s!"daemon reply entry {idx} has a missing/invalid field: {bad}"
    | .ok it => (overlayParseRows parse (idx + 1) es).map (it :: ·)

/-! ### The answer -/

/-- `OVERLAY_MAX_ENTRIES`. -/
def overlayMaxEntries : ℕ := 8192

/-- An answer that cannot be used, and why. -/
def unusable {α : Type} (reason : String) : Except (OverlayStatus × String) α :=
  .error (.unavailable, reason)

/-- A mandatory integer of the answer. -/
def topField (root : Json) (key : String) : Except (OverlayStatus × String) UInt64 :=
  match (root.get? key).bind Json.uint64? with
  | some v => .ok v
  | none => unusable ("daemon reply missing/invalid mandatory field " ++ key)

/-- The status of the answer: what the daemon could not do is not read further. -/
def overlayParseStatus (root : Json) : Except (OverlayStatus × String) Unit :=
  let reason := ((root.get? "reason").bind Json.text?).getD "no reason given"
  match root.get? "error" with
  | some (.str err) => unusable ("daemon could not answer: " ++ err)
  | _ =>
    match (root.get? "status").bind Json.text? with
    | none => unusable "daemon reply missing mandatory field status"
    | some status =>
      match root.get? "complete" with
      | some (.bool complete) =>
        if status ≠ "included" then
          .error (if status = "refused" then .refused else .unavailable,
            s!"daemon reported {status}: {reason}")
        else if complete = false then
          unusable ("daemon reported an incomplete snapshot: " ++ reason)
        else .ok ()
      | _ => unusable "daemon reply missing mandatory field complete"

/-- The clocks of the answer, which must agree with each other. -/
def overlayParseClocks (root : Json) : Except (OverlayStatus × String) OpenSnapshot := do
  let snapshotNs ← topField root "snapshot_ns"
  let nowMonoNs ← topField root "now_mono_ns"
  let nowWallNs ← topField root "now_wall_ns"
  let committedThroughNs ← topField root "committed_through_ns"
  let daemonGeneration ← topField root "daemon_generation"
  let snapshotWallNs ← topField root "snapshot_wall_ns"
  let committedThroughWallNs ← topField root "committed_through_wall_ns"
  if snapshotNs = 0 ∨ nowMonoNs = 0 ∨ nowWallNs = 0 then
    unusable "daemon reply has a zero clock field"
  else
    let offset : ℤ := (nowWallNs.toNat : ℤ) - nowMonoNs.toNat
    match monoToWall snapshotNs offset, monoToWall committedThroughNs offset with
    | some snapWall, some committedWall =>
      if snapWall ≠ snapshotWallNs.toNat ∨ committedWall ≠ committedThroughWallNs.toNat then
        unusable ("daemon wall stamps disagree with its own anchor " ++
          s!"(snapshot_wall_ns {snapshotWallNs}, anchored {snapWall})")
      else
        return {
          status := .unavailable, reason := "", snapshotNs, snapshotWallNs, nowMonoNs, nowWallNs,
          anchorOffsetNs := offset, committedThroughNs, committedThroughWallNs, daemonGeneration,
          cpuAccounting := false, items := [] }
    | _, _ => unusable "daemon clock anchor does not map its own snapshot"

/-- The rows of the answer. -/
def overlayParsePids (root : Json) (snap : OpenSnapshot) (pids : List Json) :
    Except (OverlayStatus × String) OpenSnapshot :=
  match ((root.get? "open_count").bind Json.uint64?).filter (·.toNat ≠ pids.length) with
  | some openCount =>
    unusable
      s!"daemon reply carries {pids.length} open intervals but reports open_count {openCount}"
  | none =>
    if overlayMaxEntries < pids.length then
      unusable "daemon reply reports an implausible number of open intervals"
    else
      match overlayParseRows (overlayParseRow snap.snapshotNs snap.cpuAccounting) 0 pids with
      | .error reason => unusable reason
      | .ok items => .ok { snap with status := .included, items := items }

/-- `pgwt_overlay_parse`. -/
def overlayParse (root : Json) : Except (OverlayStatus × String) OpenSnapshot := do
  if root.isObj = false then unusable "unparseable daemon reply"
  overlayParseStatus root
  let snap ← overlayParseClocks root
  match (root.get? "cpu_accounting").bind Json.bool? with
  | none => unusable "daemon reply missing mandatory field cpu_accounting"
  | some cpuAccounting =>
    match root.get? "pids" with
    | some (.arr pids) => overlayParsePids root { snap with cpuAccounting := cpuAccounting } pids
    | _ => unusable "daemon reply says included but carries no pids array"

/-! ### One row, there and back -/

/-- The fields of a row that the reader takes over. -/
def OpenRow.reported (r : OpenRow) : ReportedInterval where
  pid := r.pid
  incarnation := r.incarnation
  generation := r.generation
  eventId := r.eventId
  catFlag := r.catFlag
  categoryId := r.categoryId
  category := r.category
  openStartNs := r.openStartNs
  cpuNsTotal := r.cpuNsTotal
  onCpuTs := r.onCpuTs
  lastCpuNs := r.lastCpuNs
  cpuNs := 0
  cmdBankedNs := r.cmdBankedNs
  cmdAnchorNs := r.cmdAnchorNs
  queryId := r.queryId
  queryQuality := r.queryQuality
  cmdOpen := r.cmdOpen
  cmdSweepOpen := r.cmdSweepOpen
  cmdSeen := r.cmdSeen
  cmdGatePresent := r.cmdGatePresent
  cmdInWindow := r.cmdInWindow
  inCommand := false

theorem overlayReadRow_toJson {r : OpenRow} (h : r.category ≠ "") :
    overlayReadRow r.toJson = .ok r.reported := by
  by_cases hcpu : r.cpuNs = cpuNsUnknown
  all_goals
    simp [overlayReadRow, OpenRow.toJson, rowField, Json.isObj, Json.get?, List.lookup_cons, jsonU32, jsonU64, hcpu, h,
      OpenRow.reported, pure, bind, Except.bind, Except.pure]

/-- What the daemon guarantees of a row of a snapshot at `snap`. -/
structure OpenRow.Coherent (r : OpenRow) (snap : UInt64) (cpuAccounting : Bool) : Prop where
  pid_ne : r.pid ≠ 0
  category_ne : r.category ≠ ""
  start_lt : r.openStartNs < snap
  not_marker : isMarker r.eventId = false
  cpu : r.cpuNs = openStretchCpuNs r.cpuNsTotal r.onCpuTs r.lastCpuNs snap cpuAccounting
  cmdOpenNs : r.cmdGatePresent = true →
    r.cmdOpenNs = overlayCmdOpenNs r.reported r.openStartNs snap
  verdict : overlayInCommand r.reported r.openStartNs snap = r.cmdInWindow

/-- What the reader asks of a row beyond that. -/
def OpenRow.Believed (r : OpenRow) (snap : UInt64) : Prop :=
  r.openStartNs ≠ 0 ∧ r.eventId ≠ eventExit ∧ (r.onCpuTs = 0 ∨ r.onCpuTs ≤ snap)

instance (r : OpenRow) (snap : UInt64) : Decidable (r.Believed snap) :=
  inferInstanceAs (Decidable (_ ∧ _ ∧ (_ ∨ _)))

variable {cpuAccounting : Bool} {s : DaemonSnapshot} {it : ReportedInterval} {snap : UInt64}

theorem overlayCheckRow_eq_ok_iff (hpid : it.pid ≠ 0) (hstart : it.openStartNs < snap)
    (hmarker : isMarker it.eventId = false) :
    overlayCheckRow snap it = .ok () ↔
      it.openStartNs ≠ 0 ∧ it.eventId ≠ eventExit ∧ (it.onCpuTs = 0 ∨ it.onCpuTs ≤ snap) := by
  have hlate : ¬ it.openStartNs > snap := UInt64.not_lt.2 (UInt64.le_of_lt hstart)
  rw [overlayCheckRow, if_neg hpid]
  by_cases h₁ : it.openStartNs = 0
  · simp [h₁]
  rw [if_neg h₁, if_neg hlate]
  by_cases h₂ : it.eventId = eventExit
  · simp [h₂]
  rw [if_neg (by simp [hmarker, h₂])]
  by_cases h₃ : it.onCpuTs ≠ 0 ∧ it.onCpuTs > snap
  · rw [if_pos h₃]
    exact iff_of_false nofun fun h => h.2.2.elim h₃.1 (UInt64.not_le.2 h₃.2)
  · rw [if_neg h₃]
    rw [not_and_or, not_not] at h₃
    exact iff_of_true rfl ⟨h₁, h₂, h₃.imp_right UInt64.not_lt.1⟩

theorem overlayCpuRow_toJson {r : OpenRow} (h : r.Coherent snap cpuAccounting) :
    overlayCpuRow snap cpuAccounting r.toJson r.reported =
      .ok { r.reported with cpuNs := r.cpuNs } := by
  have hget : (r.toJson.get? "cpu_ns").bind Json.uint64? =
      if r.cpuNs = cpuNsUnknown then none else some r.cpuNs := by
    by_cases hcpu : r.cpuNs = cpuNsUnknown <;>
      simp [OpenRow.toJson, Json.get?, List.lookup_cons, jsonU32, jsonU64, hcpu]
  have hcomputed : openStretchCpuNs r.reported.cpuNsTotal r.reported.onCpuTs r.reported.lastCpuNs
      snap cpuAccounting = r.cpuNs := h.cpu.symm
  rw [overlayCpuRow, hget]
  dsimp only
  rw [hcomputed]
  by_cases hcpu : r.cpuNs = cpuNsUnknown
  · rw [if_pos hcpu]
    simp [hcpu]
  · have hacct : cpuAccounting ≠ false := by
      rintro rfl
      exact hcpu (by rw [h.cpu]; rfl)
    rw [if_neg hcpu]
    dsimp only
    rw [if_neg hacct, if_neg (not_not.2 rfl)]

theorem overlayCommandRow_eq_ok {e : Json} {sent : UInt64}
    (hget : (e.get? "cmd_open_ns").bind Json.uint64? = some sent)
    (hopen : it.cmdGatePresent = true → sent = overlayCmdOpenNs it it.openStartNs snap)
    (hverdict : overlayInCommand it it.openStartNs snap = it.cmdInWindow) :
    overlayCommandRow snap e it = .ok { it with inCommand := it.cmdInWindow } := by
  rw [overlayCommandRow, hget]
  dsimp only
  rw [if_neg fun hne => hne.2 (hopen hne.1), hverdict, if_neg (not_not.2 rfl)]

theorem overlayParseRow_toJson {r : OpenRow} (h : r.Coherent snap cpuAccounting) :
    (r.Believed snap → overlayParseRow snap cpuAccounting r.toJson =
        .ok { r.reported with cpuNs := r.cpuNs, inCommand := r.cmdInWindow }) ∧
      (¬ r.Believed snap → ∃ bad, overlayParseRow snap cpuAccounting r.toJson = .error bad) := by
  have hread := overlayReadRow_toJson h.category_ne
  have hcheck : overlayCheckRow snap r.reported = .ok () ↔ r.Believed snap :=
    overlayCheckRow_eq_ok_iff h.pid_ne h.start_lt h.not_marker
  have hget : (r.toJson.get? "cmd_open_ns").bind Json.uint64? = some r.cmdOpenNs := by
    by_cases hcpu : r.cpuNs = cpuNsUnknown <;>
      simp [OpenRow.toJson, Json.get?, List.lookup_cons, jsonU32, jsonU64, hcpu]
  refine ⟨fun hb => ?_, fun hb => ?_⟩
  · rw [overlayParseRow, hread]
    simp only [bind, Except.bind]
    rw [hcheck.2 hb, overlayCpuRow_toJson h]
    exact overlayCommandRow_eq_ok hget h.cmdOpenNs h.verdict
  · rw [overlayParseRow, hread]
    simp only [bind, Except.bind]
    cases hrow : overlayCheckRow snap r.reported with
    | error bad => exact ⟨bad, rfl⟩
    | ok u => exact absurd (hcheck.1 hrow) hb

/-! ### The two sides agree -/

theorem overlayCmdOpenNs_eq_peek {g : LiveCmdGate} (hpresent : it.cmdGatePresent = true)
    (hseen : it.cmdSeen = g.seen) (hsweep : it.cmdSweepOpen = g.isOpen)
    (hbanked : it.cmdBankedNs = g.bankedNs) (hanchor : it.cmdAnchorNs = g.anchorNs)
    (t0 t1 : UInt64) : overlayCmdOpenNs it t0 t1 = g.peek t0 t1 := by
  have hopen : (if it.cmdSweepOpen ∧ t1 > (if it.cmdAnchorNs > t0 then it.cmdAnchorNs else t0) then
      it.cmdBankedNs + (t1 - if it.cmdAnchorNs > t0 then it.cmdAnchorNs else t0)
      else it.cmdBankedNs) = g.openNs t0 t1 := by
    rw [hsweep, hbanked, hanchor]
    rfl
  rw [overlayCmdOpenNs, LiveCmdGate.peek, hpresent, hseen]
  cases hs : g.seen with
  | false => simp
  | true =>
    rw [if_neg (by simp), if_pos rfl]
    dsimp only
    rw [hopen]
    generalize (if t1 > t0 then t1 - t0 else 0) = wall
    split_ifs with h₁ h₂ h₂
    · exact absurd h₁ (UInt64.lt_asymm h₂)
    · rfl
    · rfl
    · exact UInt64.le_antisymm (UInt64.not_lt.1 h₁) (UInt64.not_lt.1 h₂)

theorem overlayInCommand_eq {g : Option LiveCmdGate} {t0 t1 : UInt64}
    (hpresent : it.cmdGatePresent = g.isSome) (hseen : it.cmdSeen = g.elim false (·.seen))
    (hsweep : it.cmdSweepOpen = g.elim false (·.isOpen))
    (hbanked : it.cmdBankedNs = g.elim 0 (·.bankedNs))
    (hanchor : it.cmdAnchorNs = g.elim 0 (·.anchorNs)) (hlt : t0 < t1) :
    overlayInCommand it t0 t1 = (liveCmdGatePeekClassify g t0 t1 it.cmdOpen).2 := by
  rw [overlayInCommand, hpresent]
  cases g with
  | none => rfl
  | some g =>
    have hpeek := overlayCmdOpenNs_eq_peek hpresent hseen hsweep hbanked hanchor t0 t1
    have hseen' : it.cmdSeen = g.seen := hseen
    rw [if_neg (by simp), liveCmdGatePeekClassify, hpeek, hseen']
    cases hs : g.seen with
    | false => rfl
    | true =>
      have hne : t1 ≠ t0 := fun h => UInt64.lt_irrefl t0 (h ▸ hlt)
      have hwall : t1 - t0 ≠ 0 := by
        intro h
        have := congrArg UInt64.toNat h
        rw [UInt64.toNat_sub_of_le _ _ (UInt64.le_of_lt hlt)] at this
        rw [UInt64.lt_iff_toNat_lt] at hlt
        simp at this
        omega
      rw [if_neg (by simp), if_neg hne, if_pos rfl, liveCmdMajority, if_pos hlt, if_neg hwall]

theorem openState_eq_some {be : Backend} {st : PidState} (h : be.openState snap = some st) :
    0 < be.pid ∧ st.lastTs < snap ∧ isMarker st.lastEvent = false := by
  rw [Backend.openState] at h
  split_ifs at h with hskip
  obtain ⟨-, hgate⟩ := Option.filter_eq_some_iff.1 h
  rw [decide_eq_true_eq, openStretchGate] at hgate
  split_ifs at hgate with h₁ h₂ h₃
  push Not at hskip
  exact ⟨Int32.not_le.1 hskip.2.1, UInt64.not_le.1 h₂, by simpa using h₃⟩

theorem toUInt32_ne_zero {pid : Int32} (h : 0 < pid) : pid.toUInt32 ≠ 0 := by
  intro hzero
  obtain rfl : pid = 0 := by
    cases pid
    exact congrArg Int32.ofUInt32 hzero
  exact absurd h (by decide)

theorem className_ne_empty (e : UInt32) : className e ≠ "" := by
  rw [className]
  cases waitClassIndex e <;> decide

theorem openRow_coherent {d : Daemon} {be : Backend} {st : PidState}
    (h : be.openState snap = some st) : (d.openRow snap be st).Coherent snap d.cpuAccounting := by
  obtain ⟨hpid, hstart, hmarker⟩ := openState_eq_some h
  refine ⟨toUInt32_ne_zero hpid, className_ne_empty _, hstart, hmarker, rfl, fun hpresent => ?_,
    overlayInCommand_eq rfl rfl rfl rfl rfl hstart⟩
  obtain ⟨g, hg⟩ := Option.isSome_iff_exists.1 hpresent
  refine Eq.trans ?_ (overlayCmdOpenNs_eq_peek (g := g) hpresent ?_ ?_ ?_ ?_ _ _).symm
  all_goals simp [Daemon.openRow, OpenRow.reported, hg]

theorem monoToWall_eq_wallOf {c : ClockReads} (hmono : s.nowMonoNs = c.nowMonoNs)
    (hwall : s.nowWallNs = c.nowWallNs) {t : UInt64} (hle : c.nowMonoNs ≤ t)
    (hpub : t ≤ c.publishFromNs) :
    monoToWall t ((s.nowWallNs.toNat : ℤ) - s.nowMonoNs.toNat) = some (s.wallOf t).toNat := by
  have h₁ := UInt64.lt_iff_toNat_lt.1 c.nowMono_pos
  have h₂ := UInt64.lt_iff_toNat_lt.1 c.nowWall_pos
  have h₃ := UInt64.le_iff_toNat_le.1 hle
  have h₄ := UInt64.le_iff_toNat_le.1 hpub
  have h₅ := c.fits
  rw [UInt64.toNat_zero] at h₁ h₂
  have hmono0 : c.nowMonoNs ≠ 0 := fun h => by rw [h, UInt64.toNat_zero] at h₁; omega
  have hwall0 : c.nowWallNs ≠ 0 := fun h => by rw [h, UInt64.toNat_zero] at h₂; omega
  rw [monoToWall, DaemonSnapshot.wallOf, hmono, hwall, if_neg (by omega),
    if_neg (not_or.2 ⟨hmono0, hwall0⟩)]
  dsimp only
  rw [if_pos (by omega), UInt64.toNat_ofNat_of_lt' (by rw [UInt64.size]; omega)]

/-- The rows of the daemon are all read, or one of them fails the answer. -/
theorem overlayParseRows_map {rows : List OpenRow} (h : ∀ r ∈ rows, r.Coherent snap cpuAccounting)
    (idx : ℕ) :
    ((∀ r ∈ rows, r.Believed snap) →
        overlayParseRows (overlayParseRow snap cpuAccounting) idx (rows.map OpenRow.toJson) =
          .ok (rows.map fun r => { r.reported with cpuNs := r.cpuNs, inCommand := r.cmdInWindow })) ∧
      ((∃ r ∈ rows, ¬ r.Believed snap) → ∃ reason,
        overlayParseRows (overlayParseRow snap cpuAccounting) idx (rows.map OpenRow.toJson) =
          .error reason) := by
  induction rows generalizing idx with
  | nil => exact ⟨fun _ => rfl, fun ⟨r, hr, _⟩ => absurd hr List.not_mem_nil⟩
  | cons r rows ih =>
    obtain ⟨hok, herr⟩ := overlayParseRow_toJson (h r List.mem_cons_self)
    obtain ⟨ihok, iherr⟩ := ih (fun r' hr' => h r' (List.mem_cons_of_mem _ hr')) (idx + 1)
    rw [List.map_cons, overlayParseRows]
    refine ⟨fun hall => ?_, ?_⟩
    · rw [hok (hall r List.mem_cons_self)]
      dsimp only
      rw [ihok fun r' hr' => hall r' (List.mem_cons_of_mem _ hr')]
      rfl
    · rintro ⟨r', hr', hbad⟩
      by_cases hb : r.Believed snap
      · have hmem : r' ∈ rows := by
          rcases List.mem_cons.1 hr' with rfl | hr'
          · exact absurd hb hbad
          · exact hr'
        obtain ⟨reason, hreason⟩ := iherr ⟨r', hmem, hbad⟩
        rw [hok hb]
        dsimp only
        rw [hreason]
        exact ⟨reason, rfl⟩
      · obtain ⟨bad, hbad⟩ := herr hb
        rw [hbad]
        exact ⟨_, rfl⟩

/-! ### The round trip -/

/-- The reader holds what the daemon collected: the same clocks, and row by row the same interval. -/
structure OpenSnapshot.Reads (snap : OpenSnapshot) (s : DaemonSnapshot) : Prop where
  status : snap.status = .included
  snapshotNs : snap.snapshotNs = s.snapshotNs
  snapshotWallNs : snap.snapshotWallNs = s.snapshotWallNs
  nowMonoNs : snap.nowMonoNs = s.nowMonoNs
  nowWallNs : snap.nowWallNs = s.nowWallNs
  committedThroughNs : snap.committedThroughNs = s.committedThroughNs
  committedThroughWallNs : snap.committedThroughWallNs = s.wallOf s.committedThroughNs
  rows : List.Forall₂ (fun (it : ReportedInterval) (r : OpenRow) => it.pid = r.pid ∧
    it.eventId = r.eventId ∧ it.openStartNs = r.openStartNs ∧ it.queryId = r.queryId ∧
    it.inCommand = r.cmdInWindow ∧ it.cpuNs = r.cpuNs) snap.items s.rows

/-- The clocks of the document of a snapshot, in the form of the reader. -/
def DaemonSnapshot.header (s : DaemonSnapshot) : OpenSnapshot where
  status := .unavailable
  reason := ""
  snapshotNs := s.snapshotNs
  snapshotWallNs := s.snapshotWallNs
  nowMonoNs := s.nowMonoNs
  nowWallNs := s.nowWallNs
  anchorOffsetNs := (s.nowWallNs.toNat : ℤ) - s.nowMonoNs.toNat
  committedThroughNs := s.committedThroughNs
  committedThroughWallNs := s.wallOf s.committedThroughNs
  daemonGeneration := s.daemonGeneration
  cpuAccounting := s.cpuAccounting
  items := []

theorem overlayParseStatus_toJsonAs (s : DaemonSnapshot) (reason : String) :
    overlayParseStatus (s.toJsonAs .included reason) = .ok () := by
  simp [overlayParseStatus, DaemonSnapshot.toJsonAs, Json.get?, List.lookup_cons, jsonU32, jsonU64,
    OpenSnapStatus.str]

theorem overlayParseClocks_toJsonAs {d : Daemon} {c : ClockReads} (h : s.CollectedBy d c)
    (reason : String) :
    overlayParseClocks (s.toJsonAs .included reason) =
      .ok { s.header with cpuAccounting := false } := by
  have hsnap := monoToWall_eq_wallOf h.nowMono h.nowWall c.nowMono_le c.snapshot_le
  have hpub := monoToWall_eq_wallOf h.nowMono h.nowWall
    (UInt64.le_trans c.nowMono_le c.snapshot_le) (UInt64.le_refl _)
  rw [← h.snapshot] at hsnap
  rw [← h.committedThrough] at hpub
  have hmono0 : s.nowMonoNs ≠ 0 := h.nowMono ▸ (UInt64.ne_of_lt c.nowMono_pos).symm
  have hwall0 : s.nowWallNs ≠ 0 := h.nowWall ▸ (UInt64.ne_of_lt c.nowWall_pos).symm
  have hsnap0 : s.snapshotNs ≠ 0 :=
    h.snapshot ▸ (UInt64.ne_of_lt (UInt64.lt_of_lt_of_le c.nowMono_pos c.nowMono_le)).symm
  have hstamp : s.snapshotWallNs = s.wallOf s.snapshotNs := by rw [h.snapshotWall, h.snapshot]
  simp [overlayParseClocks, topField, DaemonSnapshot.toJsonAs, Json.get?, List.lookup_cons, jsonU32,
    jsonU64, bind, Except.bind, pure, Except.pure, hmono0, hwall0, hsnap0, hsnap, hpub, hstamp,
    DaemonSnapshot.header]

theorem overlayParse_toJsonAs {d : Daemon} {c : ClockReads} (h : s.CollectedBy d c)
    (reason : String) :
    overlayParse (s.toJsonAs .included reason) =
      overlayParsePids (s.toJsonAs .included reason) s.header (s.rows.map OpenRow.toJson) := by
  have hacct : ((s.toJsonAs .included reason).get? "cpu_accounting").bind Json.bool? =
      some s.cpuAccounting := by
    simp [DaemonSnapshot.toJsonAs, Json.get?, List.lookup_cons, jsonU32, jsonU64]
  have hpids : (s.toJsonAs .included reason).get? "pids" =
      some (.arr (s.rows.map OpenRow.toJson)) := by
    simp [DaemonSnapshot.toJsonAs, Json.get?, List.lookup_cons, jsonU32, jsonU64]
  rw [overlayParse, if_neg (by simp [DaemonSnapshot.toJsonAs, Json.isObj]),
    overlayParseStatus_toJsonAs, overlayParseClocks_toJsonAs h]
  simp only [bind, Except.bind, hacct, hpids]
  rfl

theorem overlayParsePids_toJsonAs (hcount : s.openCount = s.rows.length)
    (hlen : s.rows.length ≤ overlayMaxEntries) (reason : String) :
    (∀ items, overlayParseRows (overlayParseRow s.snapshotNs s.cpuAccounting) 0
        (s.rows.map OpenRow.toJson) = .ok items →
      overlayParsePids (s.toJsonAs .included reason) s.header (s.rows.map OpenRow.toJson) =
        .ok { s.header with status := .included, items := items }) ∧
      ∀ bad, overlayParseRows (overlayParseRow s.snapshotNs s.cpuAccounting) 0
          (s.rows.map OpenRow.toJson) = .error bad →
        overlayParsePids (s.toJsonAs .included reason) s.header (s.rows.map OpenRow.toJson) =
          unusable bad := by
  have hsmall : s.rows.length < 2 ^ 64 := hlen.trans_lt (by decide)
  have hget : ((s.toJsonAs .included reason).get? "open_count").bind Json.uint64? =
      some (.ofNat s.rows.length) := by
    simp [DaemonSnapshot.toJsonAs, Json.get?, List.lookup_cons, jsonU32, jsonU64, hcount,
      Json.uint64?_num hsmall]
  have hsame : (UInt64.ofNat s.rows.length).toNat = s.rows.length :=
    UInt64.toNat_ofNat_of_lt' hsmall
  rw [overlayParsePids, hget, Option.filter_some, hsame, List.length_map,
    if_neg (by simp)]
  dsimp only
  rw [if_neg (Nat.not_lt.2 hlen)]
  refine ⟨fun items hrows => ?_, fun bad hrows => ?_⟩
  · have hrows' : overlayParseRows (overlayParseRow s.header.snapshotNs s.header.cpuAccounting) 0
      (s.rows.map OpenRow.toJson) = .ok items := hrows
    rw [hrows']
  · have hrows' : overlayParseRows (overlayParseRow s.header.snapshotNs s.header.cpuAccounting) 0
      (s.rows.map OpenRow.toJson) = .error bad := hrows
    rw [hrows']

theorem openSnapshotToJson_eq {wireLen : Json → ℕ} {replyMax : ℕ} (hstatus : s.status = .included)
    (hcomplete : s.complete = true) (hcategory : ∀ r ∈ s.rows, r.category ≠ "")
    (hcap : wireLen (s.toJsonAs .included s.reason) + 1 ≤ replyMax) :
    openSnapshotToJson wireLen replyMax s = some (s.toJsonAs .included s.reason) := by
  have hfind : s.rows.find? (fun r => r.category = "") = none :=
    List.find?_eq_none.2 fun r hr => by simpa using hcategory r hr
  rw [openSnapshotToJson, if_neg (by simp [hcomplete]), hstatus, DaemonSnapshot.jsonAs, if_pos rfl,
    hfind]
  dsimp only
  rw [if_pos hcap]

/-- **The reader takes the answer of the daemon if and only if it believes every row**: the stretch
of each backend has a start, the backend is not at its exit, and it went on the CPU before the
snapshot. -/
theorem overlayParse_collected_iff (d : Daemon) (c : ClockReads) (wireLen : Json → ℕ)
    (replyMax : ℕ) (h : (collectOpenIntervals d c).status = .included)
    (hcap : wireLen ((collectOpenIntervals d c).toJsonAs .included (collectOpenIntervals d c).reason)
      + 1 ≤ replyMax) :
    (∃ root snap, openSnapshotToJson wireLen replyMax (collectOpenIntervals d c) = some root ∧
        overlayParse root = .ok snap ∧ snap.Reads (collectOpenIntervals d c)) ↔
      ∀ be ∈ d.backends, ∀ st, be.openState c.snapshotNs = some st →
        st.lastTs ≠ 0 ∧ st.lastEvent ≠ eventExit ∧
          (st.onCpuTs = 0 ∨ st.onCpuTs ≤ c.snapshotNs) := by
  have hcol := collectOpenIntervals_collectedBy h
  generalize collectOpenIntervals d c = s at h hcap hcol ⊢
  -- the rows are those of the backends with an open stretch
  have hmem : ∀ r, r ∈ s.rows ↔ ∃ be ∈ d.backends, ∃ st, be.openState c.snapshotNs = some st ∧
      d.openRow c.snapshotNs be st = r := by
    intro r
    simp only [hcol.rows, List.mem_filterMap, Option.map_eq_some_iff]
  have hcoherent : ∀ r ∈ s.rows, r.Coherent s.snapshotNs s.cpuAccounting := by
    intro r hr
    obtain ⟨be, -, st, hst, rfl⟩ := (hmem r).1 hr
    rw [hcol.snapshot, hcol.cpuAccounting]
    exact openRow_coherent hst
  have hcond : (∀ r ∈ s.rows, r.Believed s.snapshotNs) ↔ ∀ be ∈ d.backends, ∀ st,
      be.openState c.snapshotNs = some st → st.lastTs ≠ 0 ∧ st.lastEvent ≠ eventExit ∧
        (st.onCpuTs = 0 ∨ st.onCpuTs ≤ c.snapshotNs) := by
    rw [hcol.snapshot]
    refine ⟨fun hall be hbe st hst => hall _ ((hmem _).2 ⟨be, hbe, st, hst, rfl⟩), ?_⟩
    rintro hall r hr
    obtain ⟨be, hbe, st, hst, rfl⟩ := (hmem r).1 hr
    exact hall be hbe st hst
  have hlen : s.rows.length ≤ overlayMaxEntries := by
    rw [hcol.rows]
    exact (List.length_filterMap_le _ _).trans (d.length_backends.trans (by decide))
  have hjson := openSnapshotToJson_eq h hcol.complete (fun r hr => (hcoherent r hr).category_ne) hcap
  have hparse := overlayParse_toJsonAs hcol s.reason
  obtain ⟨hpidsOk, hpidsErr⟩ := overlayParsePids_toJsonAs hcol.openCount hlen s.reason
  obtain ⟨hok, herr⟩ := overlayParseRows_map hcoherent 0
  rw [← hcond]
  refine ⟨?_, fun hall => ?_⟩
  · rintro ⟨root, snap, hroot, hsnap, -⟩
    obtain rfl : s.toJsonAs .included s.reason = root := Option.some.inj (hjson.symm.trans hroot)
    by_contra hbad
    push Not at hbad
    obtain ⟨bad, hrows⟩ := herr hbad
    rw [hparse, hpidsErr bad hrows] at hsnap
    exact absurd hsnap nofun
  · refine ⟨_, _, hjson, hparse.trans (hpidsOk _ (hok hall)),
      ⟨rfl, rfl, rfl, rfl, rfl, rfl, rfl, ?_⟩⟩
    rw [List.forall₂_map_left_iff]
    exact List.forall₂_same.2 fun r _ => ⟨rfl, rfl, rfl, rfl, rfl, rfl⟩

/-- `PGWT_OPEN_INTERVALS_REPLY_MAX`. -/
def openIntervalsReplyMax : ℕ := 1024 * 1024

/-- A daemon with one backend on the CPU, in the given state. -/
def oneBackendDaemon (st : PidState) : Daemon where
  pid := 900
  mode := .full
  lightweightMode := false
  escalationActive := false
  escalationAdmitting := false
  generation := 1
  startTs := 10
  cpuAccounting := true
  cmdGateActive := true
  hasSkel := true
  hasStateFd := true
  backends :=
    [{ pid := 7
       wpFd := 5
       attachTs := 20
       isAlive := true
       category := some .foreground
       state := some st
       attr := { queryId := 77, cmdOpen := 1, quality := 1 }
       cmdGate := some { seen := true, isOpen := true, anchorNs := 80 } }]
  length_backends := Nat.one_le_ofNat
  drainYielded := some false
  published := some true
  committedThroughNs := 0

/-- Clock readings of a snapshot at 100. -/
def snapshotAtHundred : ClockReads where
  nowMonoNs := 99
  nowWallNs := 1099
  snapshotNs := 100
  publishFromNs := 105
  nowMono_pos := by decide
  nowWall_pos := by decide
  nowMono_le := by decide
  snapshot_le := by decide
  fits := by decide

/-- The backend was already on the CPU at the snapshot. -/
def onCpuBefore : PidState where
  lastEvent := 0
  wpLive := 1
  cmdOpen := 1
  lastTs := 60
  cpuNsTotal := 30
  onCpuTs := 70
  lastCpuNs := 25

/-- The backend went on the CPU after the clock was read and before its state was. -/
def onCpuAfter : PidState := { onCpuBefore with onCpuTs := 101 }

theorem overlayParse_onCpuAfter :
    (collectOpenIntervals (oneBackendDaemon onCpuAfter) snapshotAtHundred).status = .included ∧
      (openSnapshotToJson Json.printedLength openIntervalsReplyMax
        (collectOpenIntervals (oneBackendDaemon onCpuAfter) snapshotAtHundred)).map overlayParse =
      some (.error (.unavailable, "daemon reply entry 0 has a missing/invalid field: " ++
        "on_cpu_ts (after the snapshot)")) := by
  decide +kernel

/-- No reading of it holds the snapshot. -/
theorem not_read_onCpuAfter :
    (collectOpenIntervals (oneBackendDaemon onCpuAfter) snapshotAtHundred).status = .included ∧
      ¬ ∃ root snap, openSnapshotToJson Json.printedLength openIntervalsReplyMax
          (collectOpenIntervals (oneBackendDaemon onCpuAfter) snapshotAtHundred) = some root ∧
        overlayParse root = .ok snap ∧
        snap.Reads (collectOpenIntervals (oneBackendDaemon onCpuAfter) snapshotAtHundred) := by
  refine ⟨overlayParse_onCpuAfter.1, ?_⟩
  rintro ⟨root, snap, hroot, hsnap, -⟩
  have h := overlayParse_onCpuAfter.2
  rw [hroot, Option.map_some, hsnap] at h
  exact absurd (Option.some.inj h) nofun

/-- A backend that was on the CPU before is read. -/
theorem read_onCpuBefore :
    ∃ root snap, openSnapshotToJson Json.printedLength openIntervalsReplyMax
        (collectOpenIntervals (oneBackendDaemon onCpuBefore) snapshotAtHundred) = some root ∧
      overlayParse root = .ok snap ∧
      snap.Reads (collectOpenIntervals (oneBackendDaemon onCpuBefore) snapshotAtHundred) := by
  refine (overlayParse_collected_iff (oneBackendDaemon onCpuBefore) snapshotAtHundred
    Json.printedLength openIntervalsReplyMax (by decide +kernel) (by decide +kernel)).2 ?_
  intro be hbe st hst
  obtain rfl := List.mem_singleton.1 hbe
  rw [Backend.openState, if_neg (by decide), Option.filter_eq_some_iff] at hst
  obtain rfl : onCpuBefore = st := Option.some.inj hst.1
  decide

end PgWaitTracer
