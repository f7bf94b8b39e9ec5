import PgWaitTracer.Compute.LifecycleAgree
import PgWaitTracer.Lib.Keyed

/-!
# Variants

`pgwt_compute_variants` (`src/compute.c`) cuts the records of every process into the phases between
a start and an end marker, compresses the waits of each phase to a pattern, and groups the phases by
pattern. Where `pgwt_compute_executions` has a stack of open rows, it has a flag, and where a
`CMD_END` ends the rows there, it does nothing here.

Phases with one hash are one variant, as in the source. Loop counts and percentiles, which are
computed in floating point, are left out; allocation succeeds.

## Main results

* `totalExecutions_eq`, `measuredRows_eq`: what the two scans count.
* `totalExecutions_iff`: when they count as many.
-/

namespace PgWaitTracer

open ExecIndex

/-! ### Patterns -/

/-- `struct raw_exec`: the waits of a phase with their durations. -/
structure RawExec where
  steps : List (UInt32 × ℕ) := []
  totalNs : ℕ := 0
  queryId : UInt64 := 0
  deriving DecidableEq, Repr

/-- `PGWT_MAX_VARIANT_STEPS`. -/
def maxVariantSteps : ℕ := 32

/-- The longest sequence of waits that is kept of a phase. -/
def maxRawSteps : ℕ := 128

/-- One step of `struct compressed_pattern`. -/
structure PatternStep where
  eventId : UInt32
  isLoop : Bool
  loopLen : ℕ
  deriving DecidableEq, Repr

/-- How often `body` is repeated at the front of a list. -/
def countReps (body : List UInt32) : ℕ → List UInt32 → ℕ
  | 0, _ => 0
  | n + 1, l => if body.isPrefixOf l then countReps body n (l.drop body.length) + 1 else 0

/-- `detect_loop`: the shortest body at the front that is repeated, 0 if there is none. -/
def detectLoop (events : List UInt32) : ℕ :=
  let loops := fun body => 2 ≤ countReps (events.take body) events.length events
  (((List.range (events.length / 2)).map (· + 1)).find? loops).getD 0

/-- The loop of `compress_exec`, with the steps so far and, for every wait consumed, its step. -/
def compressSteps : ℕ → List UInt32 → List PatternStep → List ℕ → List PatternStep × List ℕ
  | 0, _, steps, rawSteps => (steps, rawSteps)
  | _ + 1, [], steps, rawSteps => (steps, rawSteps)
  | n + 1, e :: es, steps, rawSteps =>
    let body := detectLoop (e :: es)
    if maxVariantSteps ≤ steps.length then (steps, rawSteps)
    else if 0 < body ∧ steps.length + body < maxVariantSteps then
      let reps := countReps ((e :: es).take body) (e :: es).length (e :: es)
      compressSteps n ((e :: es).drop (reps * body))
        (steps ++ ((e :: es).take body).zipIdx.map fun x =>
          ⟨x.1, x.2 = 0, if x.2 = 0 then body else 0⟩)
        (rawSteps ++ (List.replicate reps ((List.range body).map (steps.length + ·))).flatten)
    else compressSteps n es (steps ++ [⟨e, false, 0⟩]) (rawSteps ++ [steps.length])

/-- `compress_exec`. -/
def compressExec (events : List UInt32) : List PatternStep × List ℕ :=
  compressSteps events.length events [] []

/-- `hash_pattern`. -/
def hashPattern (pattern : List PatternStep) : UInt64 :=
  pattern.foldl (fun h s =>
    let h := (h ^^^ s.eventId.toUInt64) * 0x100000001b3
    if s.isLoop then (h ^^^ 0xDEADBEEF) * 0x100000001b3 else h) 0xcbf29ce484222325

/-! ### Accumulation -/

/-- `PGWT_VARIANT_MAX_SAMPLES`. -/
def variantMaxSamples : ℕ := 10000

/-- `struct variant_accum`. -/
structure VariantAccum where
  hash : UInt64
  pattern : List PatternStep
  execCount : ℕ := 0
  totalNs : ℕ := 0
  execTimes : List ℕ := []
  queryIds : List UInt64 := []
  stepTimes : List (ℕ × ℕ)
  deriving DecidableEq, Repr

/-- `variant_accum_add_qid`. -/
def variantAddQid (qids : List UInt64) (qid : UInt64) : List UInt64 :=
  if qid = 0 ∨ qid ∈ qids ∨ 16 ≤ qids.length then qids else qids ++ [qid]

/-- One more phase of a variant; each of the steps that a pattern can have has its total time and its
count. -/
def VariantAccum.add (va : VariantAccum) (re : RawExec) (rawSteps : List ℕ) : VariantAccum :=
  { va with
    execCount := va.execCount + 1
    totalNs := va.totalNs + re.totalNs
    queryIds := variantAddQid va.queryIds re.queryId
    execTimes := if va.execTimes.length < variantMaxSamples then va.execTimes ++ [re.totalNs]
      else va.execTimes
    stepTimes := (rawSteps.zip re.steps).foldl (fun times x =>
      times.modify x.1 fun t => (t.1 + x.2.2, t.2 + 1)) va.stepTimes }

/-- The variants with one more phase: the one with its hash, or a new one. -/
def addVariant (pattern : List PatternStep) (re : RawExec) (rawSteps : List ℕ) :
    List VariantAccum → List VariantAccum
  | [] =>
    let fresh : VariantAccum :=
      { hash := hashPattern pattern, pattern
        stepTimes := List.replicate maxVariantSteps (0, 0) }
    [fresh.add re rawSteps]
  | va :: vas =>
    if va.hash = hashPattern pattern then va.add re rawSteps :: vas
    else va :: addVariant pattern re rawSteps vas

/-- `enum pgwt_variant_phase`. -/
inductive VariantPhase
  | exec | plan
  deriving DecidableEq, Repr

/-- The marker that starts a phase. -/
abbrev VariantPhase.markerStart : VariantPhase → UInt32
  | .exec => markerExecStart
  | .plan => markerPlanStart

/-- The marker that ends a phase. -/
abbrev VariantPhase.markerEnd : VariantPhase → UInt32
  | .exec => markerExecEnd
  | .plan => markerPlanEnd

/-- The state of a process. -/
structure VariantPid where
  active : Bool := false
  exec : RawExec := {}
  deriving DecidableEq, Repr

/-- The locals of `pgwt_compute_variants`. -/
structure VariantsState where
  pids : UInt32 → Option VariantPid := fun _ => none
  variants : List VariantAccum := []
  totalExecs : ℕ := 0

/-- The end of a phase; a phase without waits is one on CPU. -/
def VariantsState.finish (s : VariantsState) (pid : UInt32) (ps : VariantPid) : VariantsState :=
  let re := if ps.exec.steps = [] then { ps.exec with steps := [(0, ps.exec.totalNs)] } else ps.exec
  let cp := compressExec (re.steps.map Prod.fst)
  { pids := Function.update s.pids pid (some { active := false, exec := re })
    variants := addVariant cp.1 re cp.2 s.variants
    totalExecs := s.totalExecs + 1 }

/-- A wait inside a phase. -/
def RawExec.wait (re : RawExec) (ev : TraceEvent) : RawExec :=
  { steps := re.steps ++ [(ev.oldEvent, ev.dur)]
    totalNs := re.totalNs + ev.dur
    queryId := if ev.queryId ≠ 0 then ev.queryId else re.queryId }

/-- One round of the scan; `none` is no filter. -/
def variantsStep (mask : UInt32) (f : Option Filter) (phase : VariantPhase) (s : VariantsState)
    (ev : TraceEvent) : VariantsState :=
  if rightOpenFlagged ev then s
  else if ev.oldEvent = phase.markerStart then
    { s with
      pids := Function.update s.pids ev.pid
        (some { active := true, exec := { queryId := ev.queryId } }) }
  else
    match s.pids ev.pid with
    | none => s
    | some ps =>
      if ev.oldEvent = phase.markerEnd ∧ ps.active then s.finish ev.pid ps
      else if isMarker ev.oldEvent || isMarker ev.newEvent then s
      else if ps.active ∧ ps.exec.steps.length < maxRawSteps ∧ f.all (filterMatches · ev) ∧
          isIdleEvent mask ev.oldEvent = false then
        { s with pids := Function.update s.pids ev.pid (some { ps with exec := ps.exec.wait ev }) }
      else s

/-- `struct pgwt_variant`. -/
structure Variant where
  steps : List PatternStep
  hash : UInt64
  execCount : ℕ
  numQueryIds : ℕ
  totalNs : ℕ
  avgNs : ℕ
  p95SampleN : ℕ
  topQueryId : UInt64
  stepAvgNs : List ℕ
  deriving DecidableEq, Repr

/-- The variant that is reported. -/
def VariantAccum.variant (va : VariantAccum) : Variant where
  steps := va.pattern
  hash := va.hash
  execCount := va.execCount
  numQueryIds := va.queryIds.length
  totalNs := va.totalNs
  avgNs := va.totalNs / va.execCount
  p95SampleN := va.execTimes.length
  topQueryId := va.queryIds.headD 0
  stepAvgNs := (va.stepTimes.take va.pattern.length).map fun t => t.1 / t.2

/-- `struct pgwt_variants_result`. -/
structure VariantsResult where
  variants : List Variant
  totalExecutions : ℕ
  deriving DecidableEq, Repr

/-- `pgwt_compute_variants`. -/
def computeVariants (mask : UInt32) (events : List TraceEvent) (f : Option Filter)
    (maxVariants : ℕ) (phase : VariantPhase) : VariantsResult :=
  let s := events.foldl (variantsStep mask f phase) {}
  { variants := ((s.variants.map VariantAccum.variant).mergeSort fun a b =>
      b.totalNs ≤ a.totalNs).take maxVariants
    totalExecutions := s.totalExecs }

/-! ### Ends -/

/-- The executions of a process by its markers: how many are open, and whether one has started since
the last one ended. -/
structure ExecMarks where
  depth : ℕ := 0
  started : Bool := false
  deriving DecidableEq, Repr

/-- The markers after one more record; a `CMD_END` ends all executions. -/
def ExecMarks.step (m : ExecMarks) (ev : TraceEvent) : ExecMarks :=
  if ev.oldEvent = markerExecStart then ⟨m.depth + 1, true⟩
  else if ev.oldEvent = markerExecEnd then ⟨m.depth - 1, false⟩
  else if ev.oldEvent = markerCmdEnd then ⟨0, m.started⟩
  else m

/-- What an `EXEC_END` ends: the execution that started last; one around it, after it has ended; one
that a `CMD_END` has ended before; or none. -/
inductive ExecEnd
  | innermost | outer | abandoned | stray
  deriving DecidableEq, Repr

/-- The end that a record is, if it is one. -/
def ExecMarks.endKind (m : ExecMarks) (ev : TraceEvent) : Option ExecEnd :=
  if ev.oldEvent ≠ markerExecEnd then none
  else if 0 < m.depth then some (if m.started then .innermost else .outer)
  else some (if m.started then .abandoned else .stray)

/-- The table of markers, one record on, and the end that the record is. -/
def execMarksStep (m : ExecMarks) (ev : TraceEvent) : ExecMarks × Option ExecEnd :=
  (m.step ev, m.endKind ev)

/-- The ends in a stream. -/
def execEnds (events : List TraceEvent) : List (Option ExecEnd) :=
  Keyed.pass TraceEvent.pid execMarksStep (fun _ => {})
    (events.filter fun ev => !rightOpenFlagged ev)

/-! ### What the variants count -/

/-- A process is in a phase. -/
def VariantsState.activePid (s : VariantsState) (p : UInt32) : Bool := (s.pids p).any (·.active)

theorem activePid_update (s : VariantsState) (pid : UInt32) (ps : VariantPid) (p : UInt32) :
    VariantsState.activePid { s with pids := Function.update s.pids pid (some ps) } p =
      if p = pid then ps.active else s.activePid p := by
  rw [VariantsState.activePid]
  simp only [Function.update_apply]
  split_ifs <;> rfl

/-- A start marker puts its process in a phase, an end marker of a process in a phase is counted, and
everything else leaves both alone. -/
theorem variantsStep_exec (mask : UInt32) (f : Option Filter) {s : VariantsState} {ev : TraceEvent}
    (hflag : rightOpenFlagged ev = false) :
    let s' := variantsStep mask f .exec s ev
    let ended := ev.oldEvent = markerExecEnd ∧ s.activePid ev.pid = true
    s'.totalExecs = s.totalExecs + (if ended then 1 else 0) ∧
      ∀ p, s'.activePid p =
        if p = ev.pid ∧ ev.oldEvent = markerExecStart then true
        else if p = ev.pid ∧ ev.oldEvent = markerExecEnd then false
        else s.activePid p := by
  intro s' ended
  simp only [s', ended, variantsStep, hflag, Bool.false_eq_true, if_false,
    VariantPhase.markerStart, VariantPhase.markerEnd]
  by_cases hstart : ev.oldEvent = markerExecStart
  · have hne : ev.oldEvent ≠ markerExecEnd := by rw [hstart]; decide
    rw [if_pos hstart]
    refine ⟨by simp [hne], fun p => ?_⟩
    rw [activePid_update]
    by_cases hp : p = ev.pid <;> simp [hp, hstart]
  rw [if_neg hstart]
  rcases hpid : s.pids ev.pid with _ | ps
  · -- a process without a state is in no phase
    have hoff : s.activePid ev.pid = false := by rw [VariantsState.activePid, hpid]; rfl
    refine ⟨by simp [hoff], fun p => ?_⟩
    by_cases hp : p = ev.pid
    · simp [hp, hstart, hoff]
    · simp [hp]
  have hact : s.activePid ev.pid = ps.active := by rw [VariantsState.activePid, hpid]; rfl
  have hsame : ∀ p, (if p = ev.pid ∧ ev.oldEvent = markerExecStart then true
      else if p = ev.pid ∧ ev.oldEvent = markerExecEnd then false else s.activePid p) =
        if p = ev.pid ∧ ev.oldEvent = markerExecEnd then false else s.activePid p := by
    intro p
    simp [hstart]
  simp only [hsame, hact]
  by_cases hend : ev.oldEvent = markerExecEnd ∧ ps.active = true
  · rw [if_pos hend, if_pos hend]
    refine ⟨rfl, fun p => ?_⟩
    rw [VariantsState.finish]
    change VariantsState.activePid { s with
      pids := Function.update s.pids ev.pid (some { active := false, exec := _ }) } p = _
    rw [activePid_update]
    by_cases hp : p = ev.pid <;> simp [hp, hend.1]
  · rw [if_neg hend, if_neg hend]
    have hkeep : ∀ p, s.activePid p =
        if p = ev.pid ∧ ev.oldEvent = markerExecEnd then false else s.activePid p := by
      intro p
      split_ifs with h
      · rw [h.1, hact]
        simpa [h.2] using hend
      · rfl
    by_cases hmark : (isMarker ev.oldEvent || isMarker ev.newEvent) = true
    · rw [if_pos hmark]
      exact ⟨rfl, hkeep⟩
    rw [if_neg hmark]
    by_cases hwait : ps.active = true ∧ ps.exec.steps.length < maxRawSteps ∧
        f.all (filterMatches · ev) = true ∧ isIdleEvent mask ev.oldEvent = false
    · rw [if_pos hwait]
      refine ⟨rfl, fun p => ?_⟩
      rw [activePid_update, ← hkeep]
      split_ifs with hp
      · rw [hp, hact]
      · rfl
    · rw [if_neg hwait]
      exact ⟨rfl, hkeep⟩

theorem foldl_variantsStep_filter (mask : UInt32) (f : Option Filter) (phase : VariantPhase)
    (events : List TraceEvent) (s : VariantsState) :
    (events.filter fun ev => !rightOpenFlagged ev).foldl (variantsStep mask f phase) s =
      events.foldl (variantsStep mask f phase) s := by
  induction events generalizing s with
  | nil => rfl
  | cons ev events ih =>
    by_cases h : rightOpenFlagged ev = true
    · rw [List.filter_cons_of_neg (by simp [h]), List.foldl_cons, ih, variantsStep, if_pos h]
    · rw [List.filter_cons_of_pos (by simp [h]), List.foldl_cons, List.foldl_cons, ih]

theorem totalExecs_foldl (mask : UInt32) (f : Option Filter) (events : List TraceEvent)
    (hflag : ∀ ev ∈ events, rightOpenFlagged ev = false) (s : VariantsState)
    (m : UInt32 → ExecMarks) (hm : ∀ p, s.activePid p = (m p).started) :
    let ends := Keyed.pass TraceEvent.pid execMarksStep m events
    (events.foldl (variantsStep mask f .exec) s).totalExecs =
      s.totalExecs + (ends.count (some .innermost) + ends.count (some .abandoned)) := by
  induction events generalizing s m with
  | nil => rfl
  | cons ev events ih =>
    intro ends
    obtain ⟨htotal, hactive⟩ := variantsStep_exec mask f (s := s) (hflag ev List.mem_cons_self)
    have hnext : ∀ p, (variantsStep mask f .exec s ev).activePid p =
        (Keyed.move TraceEvent.pid execMarksStep m ev p).started := by
      intro p
      rw [hactive]
      by_cases hp : p = ev.pid
      · subst hp
        rw [Keyed.move_self, execMarksStep, ExecMarks.step, hm]
        by_cases h₁ : ev.oldEvent = markerExecStart
        · simp [h₁]
        · by_cases h₂ : ev.oldEvent = markerExecEnd
          · simp [h₂, markerExecStart, markerExecEnd]
          · simp only [h₁, h₂, and_false, if_false]
            split_ifs <;> rfl
      · rw [Keyed.move_of_ne hp]
        simp [hp, hm]
    rw [List.foldl_cons, ih (fun e he => hflag e (List.mem_cons_of_mem _ he)) _ _ hnext, htotal]
    have hkind : (if ev.oldEvent = markerExecEnd ∧ s.activePid ev.pid = true then 1 else 0) =
        (if (m ev.pid).endKind ev = some .innermost then 1 else 0) +
          if (m ev.pid).endKind ev = some .abandoned then 1 else 0 := by
      rw [hm, ExecMarks.endKind]
      by_cases h : ev.oldEvent = markerExecEnd
      · cases (m ev.pid).started <;> by_cases hd : 0 < (m ev.pid).depth <;> simp [h, hd]
      · simp [h]
    simp only [ends, Keyed.pass, execMarksStep, List.count_cons, beq_iff_eq]
    omega

theorem totalExecutions_eq (mask : UInt32) (events : List TraceEvent) (f : Option Filter)
    (maxVariants : ℕ) :
    (computeVariants mask events f maxVariants .exec).totalExecutions =
      (execEnds events).count (some .innermost) + (execEnds events).count (some .abandoned) := by
  rw [computeVariants]
  simp only
  rw [← foldl_variantsStep_filter,
    totalExecs_foldl mask f _ (fun ev hev => by simpa using (List.mem_filter.1 hev).2) {}
      (fun _ => {}) fun _ => rfl]
  exact Nat.zero_add _

/-! ### What the executions count -/

/-- The row was closed by an `EXEC_END`. -/
def ExecIndexEntry.ended (e : ExecIndexEntry) : Bool := e.closed && !e.closeInferred

/-- The row was closed by a measured end. -/
def Execution.measured (r : Execution) : Bool := !r.inProgress && !r.endInferred

theorem ended_closeInferred (ev : TraceEvent) (e : ExecIndexEntry) :
    (ExecCore.closeInferred ev e).ended = e.ended := by
  rw [ExecCore.closeInferred]
  split_ifs with h
  · have hopen : e.closed = false := by simpa using h.1
    simp [ExecIndexEntry.ended, hopen]
  · rfl

theorem map_ended_closeAll (ev : TraceEvent) (is : List ℕ) (rows : List ExecIndexEntry) :
    (is.foldl (fun rows i => rows.modify i (ExecCore.closeInferred ev)) rows).map
        ExecIndexEntry.ended = rows.map ExecIndexEntry.ended := by
  induction is generalizing rows with
  | nil => rfl
  | cons i is ih =>
    rw [List.foldl_cons, ih]
    refine List.ext_getElem? fun j => ?_
    rw [List.getElem?_map, List.getElem?_map, List.getElem?_modify]
    cases rows[j]? with
    | none => rfl
    | some e =>
      split_ifs
      · simp [ended_closeInferred]
      · rfl

theorem startNs_le_of_phase {rows rows' : List ExecIndexEntry} {t : ℕ}
    (h : ∀ j : ℕ, (rows'[j]?).map ExecIndexEntry.phase = (rows[j]?).map ExecIndexEntry.phase)
    (ht : ∀ e ∈ rows, e.startNs ≤ t) : ∀ e ∈ rows', e.startNs ≤ t := by
  intro e he
  obtain ⟨j, hj⟩ := List.mem_iff_getElem?.1 he
  have hphase := h j
  rw [hj, Option.map_some] at hphase
  obtain ⟨e₀, he₀, heq⟩ := Option.map_eq_some_iff.1 hphase.symm
  have hstart : e₀.startNs = e.startNs := congrArg OpenPhase.startNs heq
  exact hstart ▸ ht e₀ (List.mem_of_getElem? he₀)

theorem countP_modify {α : Type*} {p : α → Bool} {g : α → α} {l : List α} {i : ℕ} {a : α}
    (hi : l[i]? = some a) (ha : p a = false) (hg : p (g a) = true) :
    (l.modify i g).countP p = l.countP p + 1 := by
  induction l generalizing i with
  | nil => simp at hi
  | cons b l ih =>
    cases i with
    | zero =>
      obtain rfl : b = a := by simpa using hi
      rw [List.modify_zero_cons, List.countP_cons_of_pos hg, List.countP_cons_of_neg (by simp [ha])]
    | succ i =>
      rw [List.modify_succ_cons, List.countP_cons, List.countP_cons, ih (by simpa using hi)]
      omega

/-- The machine of the index and the markers of a process are as deep. -/
def DepthSim (c : ExecCore) (m : UInt32 → ExecMarks) : Prop :=
  ∀ p, (c.pids p).openRows.length = (m p).depth

/-- An end marker that finds an open row ends it; no other record ends one. -/
theorem countP_ended_step {c : ExecCore} {m : UInt32 → ExecMarks} (hok : c.OpenOk)
    (hdepth : DepthSim c m) {ev : TraceEvent} (hstart : ∀ e ∈ c.rows, e.startNs ≤ ev.ts) :
    (c.step ev).rows.countP ExecIndexEntry.ended =
        c.rows.countP ExecIndexEntry.ended +
          (if ev.oldEvent = markerExecEnd ∧ 0 < (m ev.pid).depth then 1 else 0) ∧
      DepthSim (c.step ev) (Keyed.move TraceEvent.pid execMarksStep m ev) ∧
      ∀ e ∈ (c.step ev).rows, e.startNs ≤ ev.ts := by
  -- a process that is not touched, and the one that is
  have hmove : ∀ (st : ExecPidCarry) (rows : List ExecIndexEntry),
      st.openRows.length = ((m ev.pid).step ev).depth →
      DepthSim { rows, pids := Function.update c.pids ev.pid st }
        (Keyed.move TraceEvent.pid execMarksStep m ev) := by
    intro st rows h p
    by_cases hp : p = ev.pid
    · subst hp
      rw [Keyed.move_self, execMarksStep]
      simpa using h
    · rw [Keyed.move_of_ne hp]
      simpa [Function.update_of_ne hp] using hdepth p
  have hstay : (m ev.pid).step ev = m ev.pid →
      DepthSim c (Keyed.move TraceEvent.pid execMarksStep m ev) := by
    intro h p
    by_cases hp : p = ev.pid
    · subst hp
      rw [Keyed.move_self, execMarksStep, h]
      exact hdepth _
    · rw [Keyed.move_of_ne hp]
      exact hdepth p
  rw [ExecCore.step]
  by_cases h₁ : ev.oldEvent = markerPlanStart
  · have hs : (m ev.pid).step ev = m ev.pid := by
      simp [ExecMarks.step, h₁, markerPlanStart, markerExecStart, markerExecEnd, markerCmdEnd]
    rw [if_pos h₁, h₁]
    exact ⟨rfl, hmove _ _ (by rw [hs]; exact hdepth _), hstart⟩
  rw [if_neg h₁]
  by_cases h₂ : ev.oldEvent = markerPlanEnd
  · have hs : (m ev.pid).step ev = m ev.pid := by
      simp [ExecMarks.step, h₂, markerPlanEnd, markerExecStart, markerExecEnd, markerCmdEnd]
    rw [if_pos h₂, h₂]
    exact ⟨rfl, hmove _ _ (by rw [hs]; exact hdepth _), hstart⟩
  rw [if_neg h₂]
  by_cases h₃ : ev.oldEvent = markerExecStart
  · have hne : ev.oldEvent ≠ markerExecEnd := by rw [h₃]; decide
    rw [if_pos h₃, if_neg (by simp [hne]), ExecCore.execStart]
    refine ⟨?_, hmove _ _ ?_, fun e he => ?_⟩
    · rw [List.countP_append]
      rfl
    · rw [ExecMarks.step, if_pos h₃, List.length_cons, hdepth]
    · rcases List.mem_append.1 he with he | he
      · exact hstart e he
      · rw [List.mem_singleton.1 he]
  rw [if_neg h₃]
  by_cases h₄ : ev.oldEvent = markerExecEnd
  · have hs : ((m ev.pid).step ev).depth = (m ev.pid).depth - 1 := by
      rw [ExecMarks.step, if_neg h₃, if_pos h₄]
    rw [if_pos h₄]
    rcases hrows : (c.pids ev.pid).openRows with _ | ⟨i, stack⟩
    · have hzero : (m ev.pid).depth = 0 := by rw [← hdepth, hrows]; rfl
      have hsame : c.execEnd ev = c := by simp only [ExecCore.execEnd, hrows]
      rw [hsame, if_neg (by omega)]
      refine ⟨rfl, fun p => ?_, hstart⟩
      by_cases hp : p = ev.pid
      · subst hp
        rw [Keyed.move_self, execMarksStep, hs, hzero, hrows]
        rfl
      · rw [Keyed.move_of_ne hp]
        exact hdepth p
    · have hpos : (m ev.pid).depth = stack.length + 1 := by rw [← hdepth, hrows]; rfl
      obtain ⟨e, he, -, hopen⟩ := hok.open_row ev.pid i (by rw [hrows]; exact List.mem_cons_self)
      have hpop : c.execEnd ev =
          { rows := c.rows.modify i (ExecCore.close ev)
            pids := Function.update c.pids ev.pid
              { openRows := stack, plan := (c.pids ev.pid).plan } } := by
        simp only [ExecCore.execEnd, hrows]
      have hle := hstart e (List.mem_of_getElem? he)
      rw [hpop, if_pos ⟨h₄, by omega⟩]
      refine ⟨countP_modify he ?_ ?_, hmove _ _ ?_,
        startNs_le_of_phase (map_phase_modify (phase_close ev) _ _) hstart⟩
      · simp [ExecIndexEntry.ended, hopen]
      · simp [ExecIndexEntry.ended, ExecCore.close, hle]
      · rw [hs, hpos]
        rfl
  rw [if_neg h₄, if_neg fun h : ev.oldEvent = markerExecEnd ∧ 0 < (m ev.pid).depth => h₄ h.1]
  by_cases h₅ : ev.oldEvent = markerCmdEnd
  · have hcount : ∀ l : List ExecIndexEntry,
        l.countP ExecIndexEntry.ended = (l.map ExecIndexEntry.ended).countP id := by
      intro l
      rw [List.countP_map]
      rfl
    rw [if_pos h₅, ExecCore.cmdEnd]
    refine ⟨?_, hmove _ _ ?_, startNs_le_of_phase (map_phase_closeAll ev _ _) hstart⟩
    · rw [hcount, map_ended_closeAll, ← hcount]
      rfl
    · rw [ExecMarks.step, if_neg h₃, if_neg h₄, if_pos h₅]
      rfl
  · rw [if_neg h₅]
    exact ⟨rfl, hstay (by rw [ExecMarks.step, if_neg h₃, if_neg h₄, if_neg h₅]), hstart⟩

theorem computeExecutions_filter (fromNs toNs : ℕ) (events : List TraceEvent) (f : Filter)
    (links : List BackendLink) :
    computeExecutions (events.filter fun ev => !rightOpenFlagged ev) fromNs toNs f links =
      computeExecutions events fromNs toNs f links := by
  have hfold : ∀ s, (events.filter fun ev => !rightOpenFlagged ev).foldl
      (execStep fromNs toNs f links) s = events.foldl (execStep fromNs toNs f links) s := by
    induction events with
    | nil => exact fun _ => rfl
    | cons ev events ih =>
      intro s
      by_cases h : rightOpenFlagged ev = true
      · rw [List.filter_cons_of_neg (by simp [h]), List.foldl_cons, ih, execStep, if_pos h]
      · rw [List.filter_cons_of_pos (by simp [h]), List.foldl_cons, List.foldl_cons, ih]
  rw [computeExecutions, computeExecutions, hfold]

theorem countP_ended_foldl (events : List TraceEvent)
    (hordered : events.Pairwise fun a b => a.ts ≤ b.ts) {c : ExecCore} {m : UInt32 → ExecMarks}
    (hok : c.OpenOk) (hdepth : DepthSim c m)
    (hstart : ∀ ev ∈ events, ∀ e ∈ c.rows, e.startNs ≤ ev.ts) :
    let ends := Keyed.pass TraceEvent.pid execMarksStep m events
    (events.foldl ExecCore.step c).rows.countP ExecIndexEntry.ended =
      c.rows.countP ExecIndexEntry.ended +
        (ends.count (some .innermost) + ends.count (some .outer)) := by
  induction events generalizing c m with
  | nil => rfl
  | cons ev events ih =>
    intro ends
    obtain ⟨hfirst, hrest⟩ := List.pairwise_cons.1 hordered
    obtain ⟨hcount, hdepth', hstart'⟩ :=
      countP_ended_step hok hdepth (hstart ev List.mem_cons_self)
    rw [List.foldl_cons, ih hrest (hok.step ev) hdepth' fun ev' hev' e he =>
      (hstart' e he).trans (hfirst ev' hev'), hcount]
    have hkind : (if ev.oldEvent = markerExecEnd ∧ 0 < (m ev.pid).depth then 1 else 0) =
        (if (m ev.pid).endKind ev = some .innermost then 1 else 0) +
          if (m ev.pid).endKind ev = some .outer then 1 else 0 := by
      rw [ExecMarks.endKind]
      by_cases h : ev.oldEvent = markerExecEnd
      · cases (m ev.pid).started <;> by_cases hd : 0 < (m ev.pid).depth <;> simp [h, hd]
      · simp [h]
    simp only [ends, Keyed.pass, execMarksStep, List.count_cons, beq_iff_eq]
    omega

theorem countP_measured {rows : List Execution} {entries : List ExecIndexEntry}
    (h : RowsSim 0 uint64Max rows entries) :
    rows.countP Execution.measured = entries.countP ExecIndexEntry.ended := by
  have hrows : rows.countP Execution.measured =
      (rows.map Execution.boundary).countP fun b => !b.inProgress && !b.endInferred := by
    rw [List.countP_map]
    rfl
  rw [hrows, h.boundary, List.countP_map]
  refine List.countP_congr fun e he => ?_
  cases hclosed : e.closed with
  | false => simp [ExecIndexEntry.ended, windowBoundary, Execution.boundary, entryRow, hclosed]
  | true =>
    have hin := Nat.not_lt.2 (h.ended e he hclosed)
    simp [ExecIndexEntry.ended, windowBoundary, Execution.boundary, entryRow, hclosed, hin]

theorem measuredRows_eq (events : List TraceEvent)
    (hordered : events.Pairwise fun a b => a.ts ≤ b.ts) (f : Filter) (links : List BackendLink) :
    (computeExecutions events 0 uint64Max f links).countP Execution.measured =
      (execEnds events).count (some .innermost) + (execEnds events).count (some .outer) := by
  have hflags : ∀ ev ∈ events.filter fun ev => !rightOpenFlagged ev,
      isMarker ev.oldEvent = true → rightOpenFlagged ev = false :=
    fun ev hev _ => by simpa using (List.mem_filter.1 hev).2
  rw [← computeExecutions_filter,
    countP_measured (rowsSim_computeExecutions _ f links hflags).1,
    countP_ended_foldl _ (hordered.filter _) ExecCore.openOk_init (m := fun _ => {})
      (fun _ => rfl) fun _ _ e he => absurd he List.not_mem_nil]
  exact Nat.zero_add _

/-- **Variants and executions count as many executions if, and only if, as many ends come for an
execution around one that has ended as for one that a `CMD_END` has ended.** -/
theorem totalExecutions_iff (mask : UInt32) (events : List TraceEvent)
    (hordered : events.Pairwise fun a b => a.ts ≤ b.ts) (f : Option Filter) (maxVariants : ℕ)
    (g : Filter) (links : List BackendLink) :
    (computeVariants mask events f maxVariants .exec).totalExecutions =
        (computeExecutions events 0 uint64Max g links).countP Execution.measured ↔
      (execEnds events).count (some .outer) = (execEnds events).count (some .abandoned) := by
  rw [totalExecutions_eq, measuredRows_eq events hordered]
  omega

/-- Two executions, and one between them that a `CMD_END` ends. -/
def plainExecutions : List TraceEvent :=
  [bareRecord 10 markerExecStart 5, bareRecord 20 markerExecEnd 5,
    bareRecord 30 markerExecStart 5, bareRecord 40 markerCmdEnd 0,
    bareRecord 50 markerExecStart 5, bareRecord 60 markerExecEnd 5]

theorem totalExecutions_iff_plain :
    (computeVariants 0 plainExecutions none 10 .exec).totalExecutions =
      (computeExecutions plainExecutions 0 uint64Max {} []).countP Execution.measured :=
  (totalExecutions_iff 0 _ (by decide) none 10 {} []).2 (by decide)

/-- Query 3 is nested in query 5. -/
def nestedExecutions : List TraceEvent :=
  [bareRecord 10 markerExecStart 5, bareRecord 12 markerExecStart 3,
    bareRecord 20 markerExecEnd 3, bareRecord 40 markerExecEnd 5]

/-- A `CMD_END` ends an execution before its own end comes. -/
def abandonedExecution : List TraceEvent :=
  [bareRecord 10 markerExecStart 5, bareRecord 20 markerCmdEnd 0, bareRecord 30 markerExecEnd 5]

/-- Of two nested executions the variants have one, and of an execution that was not measured they
have one too. -/
theorem totalExecutions_nested :
    (nestedExecutions.Pairwise (fun a b => a.ts ≤ b.ts) ∧
      (computeVariants 0 nestedExecutions none 10 .exec).totalExecutions = 1 ∧
      (computeExecutions nestedExecutions 0 uint64Max {} []).countP Execution.measured = 2) ∧
    abandonedExecution.Pairwise (fun a b => a.ts ≤ b.ts) ∧
      (computeVariants 0 abandonedExecution none 10 .exec).totalExecutions = 1 ∧
      (computeExecutions abandonedExecution 0 uint64Max {} []).countP Execution.measured = 0 := by
  refine ⟨⟨?_, ?_, ?_⟩, ?_, ?_, ?_⟩ <;> decide

/-! ### Variants and phases -/

end PgWaitTracer
