import PgWaitTracer.Live.QueryAttrAgree
import PgWaitTracer.Server.LoadRange

/-!
# Query attribution of samples

A tick of the sampler turns its readings into samples (`pgwt_sampler_build_batch`, `src/sampler.c`).
The live accumulator attributes them as they come (`pgwt_live_qattr_sample`, `src/map_reader.c`), the
server attributes what the reader restores of them with the tagging pass. A sample that was read
idle is the boundary between two commands. The live side makes an exception for an idle reading of
a backend that its status read found inside a command; the trace does not keep the status, so the
server cannot.

The tables of the live accumulator have room, and no process is in an exact window.

## Main results

* `sampledRun_rowCount_eq`: then the two sides agree.
-/

namespace PgWaitTracer

/-! ### Readings -/

/-- `enum pgwt_backend_type`. -/
inductive BackendType
  | client | checkpointer | bgWriter | walWriter | autovacLauncher | autovacWorker | walSender
  | walReceiver | startup | logicalLauncher | logicalWorker | archiver | logger | parallelWorker
  | ioWorker | bgWorker | unknown
  deriving DecidableEq, Repr

/-- The category of a type; `pgwt_backend_type_flag` is its flag. -/
def BackendType.category : BackendType → PidCategory
  | .client | .parallelWorker | .unknown => .foreground
  | .autovacWorker => .maint
  | .ioWorker => .ioWorker
  | _ => .background

/-- `pgwt_cpu_sample_recordable`. -/
def cpuSampleRecordable (bt : BackendType) (cmdOpen : Bool) : Bool :=
  match bt with
  | .client | .unknown => cmdOpen
  | .logger => false
  | _ => true

/-- The classes of a reading of `wait_event_info`. -/
inductive WeiReading
  | garbage | validNonzero | zero
  deriving DecidableEq, Repr

/-- `pgwt_classify_wei`. -/
def classifyWei (wei : UInt32) : WeiReading :=
  if wei = 0 then .zero
  else if 0x01 ≤ weClass wei ∧ weClass wei ≤ 0x0B then .validNonzero
  else .garbage

/-- The fields of `struct pgwt_sample_target` that a batch is built from. -/
structure SampleTarget where
  pid : UInt32
  queryId : UInt64
  lastQueryId : UInt64
  backendType : BackendType
  cmdOpen : Bool
  deriving DecidableEq, Repr

/-- A target with the value read for it, if the read succeeded. -/
structure Reading where
  target : SampleTarget
  val : UInt32
  valid : Bool
  deriving DecidableEq, Repr

/-- What becomes of a reading. -/
inductive Sampled
  | failed | noncmdCpu | invalid | record (ev : TraceEvent)
  deriving DecidableEq, Repr

/-- The record of a reading. -/
def Reading.record (tickTs : UInt64) (r : Reading) : TraceEvent :=
  { timestampNs := tickTs
    pid := r.target.pid
    oldEvent := 0
    newEvent := r.val
    flags := r.target.backendType.category.flag ||| (if r.target.cmdOpen then flagCmdOpen else 0)
    durationNs := 0
    queryId := if r.target.queryId = 0 ∧ isSessionIdleEvent r.val then r.target.lastQueryId
      else r.target.queryId
    cpuNs := 0 }

/-- One round of `pgwt_sampler_build_batch`. -/
def Reading.sampled (tickTs : UInt64) (r : Reading) : Sampled :=
  if !r.valid then .failed
  else if r.val = 0 then
    if cpuSampleRecordable r.target.backendType r.target.cmdOpen then .record (r.record tickTs)
    else .noncmdCpu
  else if classifyWei r.val = .garbage then .invalid
  else .record (r.record tickTs)

/-- The record, if there is one. -/
def Sampled.record? : Sampled → Option TraceEvent
  | .record ev => some ev
  | _ => none

/-- `pgwt_sampler_build_batch`: the samples, the invalid and the skipped on-CPU readings. -/
def buildBatch (tickTs : UInt64) (readings : List Reading) : List TraceEvent × ℕ × ℕ :=
  let outcomes := readings.map (Reading.sampled tickTs)
  (outcomes.filterMap Sampled.record?, outcomes.count .invalid, outcomes.count .noncmdCpu)

/-- A tick: its time, its weight, and what it reads. -/
structure SampleTick where
  tickTs : UInt64
  periodNs : UInt64
  readings : List Reading
  deriving DecidableEq, Repr

/-- The samples of a run, each with the weight of its tick. -/
def weightedSamples (ticks : List SampleTick) : List (UInt64 × TraceEvent) :=
  ticks.flatMap fun t => (buildBatch t.tickTs t.readings).1.map fun ev => (t.periodNs, ev)

/-! ### The live side -/

/-- The category of a sample, from its flags. -/
def sampleCategory (flags : UInt32) : PidCategory :=
  if flags &&& flagIoWorker ≠ 0 then .ioWorker
  else if flags &&& flagMaint ≠ 0 then .maint
  else if flags &&& flagBackground ≠ 0 then .background
  else .foreground

/-- `pgwt_live_qattr_sample` returns it: an idle reading of a client that is inside a command. -/
def sampleWithheld (we : UInt32) (cat : PidCategory) (cmdOpen : Bool) : Bool :=
  cat = .foreground && isSessionIdleEvent we && cmdOpen

/-- `pgwt_live_qattr_sample`, for a process with a resolver. -/
def QattrPid.sample (mask : UInt32) (q : QattrPid) (queryId : UInt64) (we : UInt32) (statNs : ℕ)
    (cat : PidCategory) (cmdOpen : Bool) : QattrPid × List QueryEventStats × Bool :=
  if sampleWithheld we cat cmdOpen then
    if queryId ≠ 0 then q.record mask queryId we statNs cat else (q, [], false)
  else
    let r := q.record mask queryId we statNs cat
    -- a coherent idle sample is between two commands
    if cat = .foreground ∧ isSessionIdleEvent we then
      let b := r.1.boundary true
      (b.1, r.2.1 ++ b.2, r.2.2)
    else r

/-- The attribution of a sample by `pgwt_sampler_accumulate`, for one process. -/
def LivePid.sample (mask : UInt32) (s : LivePid) (w : UInt64 × TraceEvent) : LivePid × LiveOut :=
  let r := s.qattr.sample mask w.2.queryId w.2.newEvent w.1.toNat (sampleCategory w.2.flags)
    (w.2.flags &&& flagCmdOpen ≠ 0)
  ({ s with qattr := r.1 }, { rows := r.2.1, spilled := r.2.2 })

/-- The attribution of a sample by `pgwt_sampler_accumulate`. -/
def accumulateQattr (mask : UInt32) (acc : Accumulator) (w : UInt64 × TraceEvent) : Accumulator :=
  if isMarker w.2.newEvent then acc
  else
    match acc.getOrCreatePid w.2.pid with
    | (acc, some s) =>
      let r := s.sample mask w
      (acc.setPid w.2.pid r.1).file r.2
    | (acc, none) =>
      let rows := qattrRecordUnresolved mask w.2.queryId w.2.newEvent w.1.toNat
        (sampleCategory w.2.flags)
      acc.file { rows }

/-- The live accumulator after the ticks. -/
def sampledRun (mask : UInt32) (acc : Accumulator) (ticks : List SampleTick) : Accumulator :=
  (weightedSamples ticks).foldl (accumulateQattr mask) acc

/-! ### The server -/

/-- A sample as a load has it: restored from its block, in interval shape. -/
def restoreSample (w : UInt64 × TraceEvent) : TraceEvent := w.2.asSample.asInterval w.1

/-- What the server tags. -/
def restoredSamples (ticks : List SampleTick) : List TraceEvent :=
  (weightedSamples ticks).map restoreSample

/-- The readings are of processes of the categories that `cat` has. -/
def CategoriesFit (cat : UInt32 → PidCategory) (ticks : List SampleTick) : Prop :=
  ∀ t ∈ ticks, ∀ r ∈ t.readings, r.target.backendType.category = cat r.target.pid

instance (cat : UInt32 → PidCategory) (ticks : List SampleTick) :
    Decidable (CategoriesFit cat ticks) :=
  inferInstanceAs (Decidable (∀ t ∈ ticks, ∀ r ∈ t.readings, _))

/-! ### What is settled at a boundary -/

/-- A process on both sides, one sample on. -/
def sampledPair (mask : UInt32) (cat : UInt32 → PidCategory) (st : LivePid × TagPidState)
    (w : UInt64 × TraceEvent) : (LivePid × TagPidState) × Unit :=
  (((st.1.sample mask w).1, (tagForwardStep cat 0 st.2 (restoreSample w)).1), ())

/-- Nothing waits on the process, or the two sides know the same id of its command. -/
def QattrSettled (st : LivePid × TagPidState) : Prop :=
  st.1.qattr.pending = [] ∨ st.1.qattr.cmdQid = st.2.cmdQid

instance (st : LivePid × TagPidState) : Decidable (QattrSettled st) :=
  inferInstanceAs (Decidable (_ ∨ _))

/-- An idle sample of a client without an id finds nothing waiting, or it is coherent and the two
sides know the same id of the command. -/
def SettlesAt (cat : UInt32 → PidCategory) (st : LivePid × TagPidState)
    (w : UInt64 × TraceEvent) : Prop :=
  cat w.2.pid = .foreground → isSessionIdleEvent w.2.newEvent = true → w.2.queryId = 0 →
    st.1.qattr.pending = [] ∨ w.2.flags &&& flagCmdOpen = 0 ∧ QattrSettled st

instance (cat : UInt32 → PidCategory) (st : LivePid × TagPidState) (w : UInt64 × TraceEvent) :
    Decidable (SettlesAt cat st w) :=
  inferInstanceAs (Decidable (_ → _ → _ → _))

/-- **Samples without an id are settled alike.** None waits across an idle reading inside a command
that carries no id either, and none falls back, at a boundary or at exit, on an id that the server
has forgotten at such a reading. -/
structure SettlesAlike (mask : UInt32) (cat : UInt32 → PidCategory)
    (ws : List (UInt64 × TraceEvent)) : Prop where
  idle : Keyed.Always (fun w => w.2.pid) (sampledPair mask cat) (SettlesAt cat)
    (fun _ => ({}, {})) ws
  exit : ∀ w ∈ ws, QattrSettled
    (Keyed.after (fun w => w.2.pid) (sampledPair mask cat) (fun _ => ({}, {})) ws w.2.pid)

/-! ### Samples -/

theorem toNat_weClass (e : UInt32) : (weClass e).toNat = e.toNat / 2 ^ 24 := by
  have hlt := e.toNat_lt
  rw [weClass, UInt32.toNat_and, UInt32.toNat_shiftRight]
  change e.toNat >>> 24 &&& (2 ^ 8 - 1) = _
  rw [Nat.and_two_pow_sub_one_eq_mod, Nat.shiftRight_eq_div_pow]
  omega

theorem ne_sentinel {e : UInt32} (h : e = 0 ∨ classifyWei e ≠ .garbage) :
    isMarker e = false ∧ e ≠ eventExit := by
  have hlt : e.toNat < 0x0C000000 := by
    rcases h with rfl | h
    · decide
    · rw [classifyWei] at h
      split_ifs at h with h0 hc
      · subst h0
        decide
      · have hle := UInt32.le_iff_toNat_le.mp hc.2
        rw [toNat_weClass] at hle
        change e.toNat / 2 ^ 24 ≤ 11 at hle
        omega
      · exact absurd rfl h
  refine ⟨?_, ?_⟩
  · rw [isMarker, Bool.and_eq_false_iff]
    left
    rw [decide_eq_false_iff_not, UInt32.le_iff_toNat_le]
    change ¬ 0xFFFFFFF0 ≤ e.toNat
    omega
  · rintro rfl
    exact absurd hlt (by decide)

theorem sampleCategory_flag (bt : BackendType) (cmdOpen : Bool) :
    sampleCategory (bt.category.flag ||| (if cmdOpen then flagCmdOpen else 0)) = bt.category := by
  cases bt <;> cases cmdOpen <;> decide

/-- What a sample of a batch is. -/
structure IsSampled (cat : UInt32 → PidCategory) (ev : TraceEvent) : Prop where
  marker : isMarker ev.newEvent = false
  exit : ev.newEvent ≠ eventExit
  category : sampleCategory ev.flags = cat ev.pid

variable {cat : UInt32 → PidCategory} {w : UInt64 × TraceEvent}

theorem isSampled_of_mem {ticks : List SampleTick} (h : CategoriesFit cat ticks)
    (hw : w ∈ weightedSamples ticks) : IsSampled cat w.2 := by
  simp only [weightedSamples, buildBatch, List.mem_flatMap, List.mem_map, List.mem_filterMap] at hw
  obtain ⟨t, ht, ev, ⟨o, ⟨r, hr, rfl⟩, ho⟩, rfl⟩ := hw
  have hev : ev = r.record t.tickTs ∧ (r.val = 0 ∨ classifyWei r.val ≠ .garbage) := by
    rw [Reading.sampled] at ho
    split_ifs at ho with hv h0 hrec hg
    · cases ho
    · exact ⟨(Option.some.inj ho).symm, Or.inl h0⟩
    · cases ho
    · cases ho
    · exact ⟨(Option.some.inj ho).symm, Or.inr hg⟩
  obtain ⟨rfl, hval⟩ := hev
  exact ⟨(ne_sentinel hval).1, (ne_sentinel hval).2,
    (sampleCategory_flag _ _).trans (h t ht r hr)⟩

theorem restoreSample_eq (w : UInt64 × TraceEvent) :
    restoreSample w = { w.2 with
      oldEvent := w.2.newEvent
      flags := flagSample
      durationNs := w.1
      cpuNs := cpuNsUnknown } := by
  have hs : w.2.asSample.isSample = true := by
    rw [TraceEvent.isSample, show w.2.asSample.flags = flagSample from rfl]
    decide
  rw [restoreSample, TraceEvent.asInterval, if_pos hs]
  rfl

/-- The id that the server knows of the command after a sample. -/
def sampleQid (we : UInt32) (queryId cmdQid : UInt64) : UInt64 :=
  if isSessionIdleEvent we then 0 else if queryId ≠ 0 then queryId else cmdQid

/-- The forward pass on a sample. -/
theorem tagForwardStep_sample (h : IsSampled cat w.2) (t : TagPidState) :
    ∃ ev', tagForwardStep cat 0 t (restoreSample w) =
        ({ t with cmdQid := sampleQid w.2.newEvent w.2.queryId t.cmdQid }, (ev', t.cmdQid)) ∧
      ev'.oldEvent = w.2.newEvent ∧ ev'.pid = w.2.pid ∧ ev'.newEvent = w.2.newEvent ∧
      ev'.queryId = w.2.queryId ∧ ev'.we = ev'.oldEvent ∧
      ev'.flags &&& flagQueryUnattrib = 0 := by
  set ev := restoreSample w with hev
  rw [restoreSample_eq] at hev
  have hold : ev.oldEvent = w.2.newEvent := by rw [hev]
  have hnew : ev.newEvent = w.2.newEvent := by rw [hev]
  have hqid : ev.queryId = w.2.queryId := by rw [hev]
  have hpid : ev.pid = w.2.pid := by rw [hev]
  have hflags : ev.flags = flagSample := by rw [hev]
  have hf : (cat ev.pid).flag &&& flagSample = 0 := PidCategory.flag_and _ (Or.inl rfl)
  have hu : (cat ev.pid).flag &&& flagQueryUnattrib = 0 := PidCategory.flag_and _ (Or.inr rfl)
  have hs : (ev.orFlags true (cat ev.pid).flag).isSample = true := by
    rw [TraceEvent.isSample_orFlags _ _ hf, TraceEvent.isSample, hflags]
    decide
  have hwe : (if ev.newEvent ≠ 0 then ev.newEvent else ev.oldEvent) = w.2.newEvent := by
    rw [hold, hnew, ite_self]
  refine ⟨(ev.orFlags true (cat ev.pid).flag).orFlags
    ((cat ev.pid).flag = 0 ∧ ev.queryId ≠ 0) flagExec, ?_, ?_, ?_, ?_, ?_, ?_, ?_⟩
  · rw [tagForwardStep, if_neg (by rw [hold, h.marker]; decide), tagRecord]
    simp only [hs, if_true, TagPidState.recordQid, TraceEvent.newEvent_orFlags,
      TraceEvent.queryId_orFlags, oldEvent_orFlags, hwe, true_and]
    rw [if_neg (hnew ▸ h.exit), hqid, sampleQid]
  · rw [oldEvent_orFlags, oldEvent_orFlags, hold]
  · rw [TraceEvent.pid_orFlags, TraceEvent.pid_orFlags, hpid]
  · rw [TraceEvent.newEvent_orFlags, TraceEvent.newEvent_orFlags, hnew]
  · rw [TraceEvent.queryId_orFlags, TraceEvent.queryId_orFlags, hqid]
  · rw [TraceEvent.we]
    simp only [TraceEvent.newEvent_orFlags, oldEvent_orFlags, hold, hnew, ite_self]
  · rw [TraceEvent.flags_orFlags_and _ _ (by decide), TraceEvent.flags_orFlags_and _ _ hu, hflags]
    decide

/-! ### One sample of one process -/

namespace QattrPid

variable (qa : QattrPid) {mask : UInt32} {cat : PidCategory} {k : UInt64} {ns : ℕ}
  {cmdOpen : Bool}

theorem sample_of_id (mask we : UInt32) (ns : ℕ) (cmdOpen : Bool) (hcat : cat ≠ .ioWorker)
    (hk : k ≠ 0) (q : UInt64) (e : UInt32) :
    (qa.sample mask k we ns cat cmdOpen).1.pending = [] ∧
      rowCount (qa.sample mask k we ns cat cmdOpen).2.1 q e =
        qa.owed k q e + if k = q ∧ we = e then 1 else 0 := by
  have hio : ¬ cat.flag &&& flagIoWorker ≠ 0 := by
    cases cat <;> first | exact absurd rfl hcat | decide
  have hrec : qa.record mask k we ns cat = ((qa.observe k).1,
      (qa.observe k).2 ++ [(QattrPending.one we ns).row k], false) := by
    simp only [QattrPid.record, if_neg hio, if_pos hk]
  obtain ⟨hrow, hnil⟩ := qa.rowCount_observe q e hk
  have hcount : rowCount ((qa.observe k).2 ++ [(QattrPending.one we ns).row k]) q e =
      qa.owed k q e + if k = q ∧ we = e then 1 else 0 := by
    rw [rowCount_append, hrow, rowCount_cons, rowCount_nil]
    rfl
  rw [sample, if_pos hk, hrec]
  by_cases hwith : sampleWithheld we cat cmdOpen = true
  · rw [if_pos hwith]
    exact ⟨hnil, hcount⟩
  · rw [if_neg hwith]
    by_cases hidle : cat = .foreground ∧ isSessionIdleEvent we = true
    · -- the boundary finds nothing that waits
      obtain ⟨hb, hbnil⟩ := (qa.observe k).1.rowCount_boundary q e true
      simp only [if_pos hidle]
      refine ⟨hbnil, ?_⟩
      rw [rowCount_append, hcount, hb, owed_of_pending_nil hnil, Nat.add_zero]
    · simp only [if_neg hidle]
      exact ⟨hnil, hcount⟩

/-- **One sample.** What a sample files at once, and what waits after it, is what waited before it
and the sample itself, each under the id that the server gives it. `fwd` is the id that the server
knows of the command. -/
theorem count_sample {ev : TraceEvent} (hm : isMarker ev.oldEvent = false)
    (hwe : ev.we = ev.oldEvent) (hx : ev.newEvent ≠ eventExit)
    (hu : ev.flags &&& flagQueryUnattrib = 0)
    (hpend : cat ≠ .foreground → qa.pending = [])
    (hspill : (qa.sample mask ev.queryId ev.oldEvent ns cat cmdOpen).2.2 = false) (fwd : UInt64)
    (hset : cat = .foreground → isSessionIdleEvent ev.oldEvent = true → ev.queryId = 0 →
      qa.pending = [] ∨ cmdOpen = false ∧ (qa.pending = [] ∨ qa.cmdQid = fwd))
    (n q : UInt64) (e : UInt32) :
    let r := qa.sample mask ev.queryId ev.oldEvent ns cat cmdOpen
    let b := backfillRecord mask cat n ev fwd
    rowCount r.2.1 q e +
        r.1.owed (resolveQid n (sampleQid ev.oldEvent ev.queryId fwd)) q e =
      qa.owed (resolveQid b.1 fwd) q e +
        if b.2.filedUnder q e ∧ cat ≠ .ioWorker then 1 else 0 := by
  intro r b
  by_cases hio : cat = .ioWorker
  · -- an io worker files nothing, and nothing waits on it
    subst hio
    have hnil : qa.pending = [] := hpend (by decide)
    have hr : r = (qa, [], false) := rfl
    rw [hr, rowCount_nil, owed_of_pending_nil hnil, owed_of_pending_nil hnil]
    simp
  have hio' : ¬ cat.flag &&& flagIoWorker ≠ 0 := by
    cases cat <;> first | exact absurd rfl hio | decide
  by_cases hq : ev.queryId ≠ 0
  · have hb : b = (ev.queryId, ev) := by
      simp only [b, backfillRecord, if_pos hq]
    obtain ⟨hnil, hcount⟩ := qa.sample_of_id mask ev.oldEvent ns cmdOpen hio hq q e
    rw [hcount, owed_of_pending_nil hnil, hb, resolveQid_of_ne hq, filedUnder_of_queryId hm hq]
    simp [hio]
  have hq0 : ev.queryId = 0 := not_not.mp hq
  by_cases hfg : cat = .foreground
  · subst hfg
    have hbg : ¬ PidCategory.foreground.flag &&& (flagBackground ||| flagMaint) ≠ 0 := by decide
    have hz : ¬ PidCategory.foreground.flag ≠ 0 := by decide
    by_cases hidle : isSessionIdleEvent ev.oldEvent = true
    · have hb : b = (0, ev) := by
        simp only [b, backfillRecord, if_neg hq, hwe, if_pos hidle]
      have hfiled : ev.filedUnder q e = false := filedUnder_of_neither hq0 hu
      rw [hb, hfiled, resolveQid_zero]
      cases hopen : cmdOpen with
      | true =>
        -- inside a command: nothing waits, and nothing happens
        have hnil : qa.pending = [] := by
          rcases hset rfl hidle hq0 with h | ⟨h, -⟩
          · exact h
          · rw [hopen] at h
            cases h
        have hr : r = (qa, [], false) := by
          simp only [r, sample, sampleWithheld, hopen, hidle, if_neg hq]
          rfl
        rw [hr, rowCount_nil, owed_of_pending_nil hnil, owed_of_pending_nil hnil]
        simp
      | false =>
        -- between two commands: what waits goes to the id of the command
        have hrec : qa.record mask ev.queryId ev.oldEvent ns .foreground =
            ((qa.boundary false).1, (qa.boundary false).2, false) := by
          simp only [QattrPid.record, if_neg hio', if_neg hq, if_neg hbg, if_neg hz, if_pos hidle]
        have hr : r = (((qa.boundary false).1.boundary true).1,
            (qa.boundary false).2 ++ ((qa.boundary false).1.boundary true).2, false) := by
          simp only [r, sample, sampleWithheld, hopen, hrec, hidle, Bool.and_false,
            Bool.false_eq_true, if_false, true_and, if_true]
        obtain ⟨hrow, hnil⟩ := qa.rowCount_boundary q e false
        obtain ⟨hrow', hnil'⟩ := (qa.boundary false).1.rowCount_boundary q e true
        have hsame : qa.owed qa.cmdQid q e = qa.owed fwd q e := by
          rcases hset rfl hidle hq0 with h | ⟨-, h | h⟩
          · rw [owed_of_pending_nil h, owed_of_pending_nil h]
          · rw [owed_of_pending_nil h, owed_of_pending_nil h]
          · rw [h]
        rw [hr, rowCount_append, hrow, hrow', owed_of_pending_nil hnil, owed_of_pending_nil hnil',
          hsame]
        simp
    · -- the sample waits
      have hwith : sampleWithheld ev.oldEvent .foreground cmdOpen = false := by
        simp [sampleWithheld, hidle]
      have hr : r = qa.defer ev.oldEvent ns := by
        simp only [r, sample, hwith, Bool.false_eq_true, if_false, QattrPid.record, if_neg hio',
          if_neg hq, if_neg hbg, if_neg hz, if_neg hidle, true_and]
      have hd := qa.defer_of_not_spilled ev.oldEvent ns (hr ▸ hspill)
      have hb : b = (n, attributeRecord n fwd ev) := by
        simp only [b, backfillRecord, if_neg hq, hwe, if_neg hidle, if_neg hio', if_neg hbg,
          if_neg hz, if_neg hx]
      have hk : sampleQid ev.oldEvent ev.queryId fwd = fwd := by
        rw [sampleQid, if_neg hidle, if_neg hq]
      rw [hr, hd, hb, hk, filedUnder_attributeRecord hm hq0, rowCount_nil, Nat.zero_add,
        owed_addPending]
      simp
  · -- background work never waits
    have hbg : cat.flag &&& (flagBackground ||| flagMaint) ≠ 0 := by
      cases cat <;> first | exact absurd rfl hio | exact absurd rfl hfg | decide
    have hr : r = (qa, if isIdleEvent mask ev.oldEvent then []
        else [(QattrPending.one ev.oldEvent ns).row 0], false) := by
      simp only [r, sample, sampleWithheld, hfg, decide_false, Bool.false_and, Bool.false_eq_true,
        if_false, false_and, QattrPid.record, if_neg hio', if_neg hq, if_pos hbg]
    rw [hr, owed_of_pending_nil (hpend hfg), owed_of_pending_nil (hpend hfg)]
    by_cases hidle : isIdleEvent mask ev.oldEvent
    · have hb : b.2 = ev := by
        simp only [b, backfillRecord, if_neg hq, hwe, if_neg hio', if_pos hbg, hidle]
        split_ifs <;> rfl
      rw [hb, filedUnder_of_neither hq0 hu]
      simp [hidle]
    · have hsess : ¬ isSessionIdleEvent ev.oldEvent = true := fun h =>
        hidle (isIdleEvent_of_sessionIdle h)
      have hb : b.2 = { ev with flags := ev.flags ||| flagQueryUnattrib } := by
        simp only [b, backfillRecord, if_neg hq, hwe, if_neg hsess, if_neg hio', if_pos hbg,
          Bool.not_eq_true] at hidle ⊢
        rw [hidle]
        rfl
      have hf : b.2.filedUnder q e = decide (0 = q ∧ ev.oldEvent = e) := by
        rw [hb]
        exact filedUnder_of_unattrib hm hq0 (flags_or_unattrib_ne_zero _)
      simp only [hf, if_neg hidle, rowCount_cons, rowCount_nil, QattrPending.row,
        QattrPending.one, Nat.add_zero, Nat.zero_add, decide_eq_true_eq, hio, ne_eq,
        not_false_eq_true, and_true]

theorem pending_sample (mask we : UInt32) (ns : ℕ) (cmdOpen : Bool) (hcat : cat ≠ .foreground)
    (h : qa.pending = []) : (qa.sample mask k we ns cat cmdOpen).1.pending = [] := by
  have hwith : sampleWithheld we cat cmdOpen = false := by simp [sampleWithheld, hcat]
  have hr : qa.sample mask k we ns cat cmdOpen = qa.record mask k we ns cat := by
    simp only [sample, hwith, hcat, Bool.false_eq_true, false_and, if_false]
  rw [hr]
  exact qa.pending_record hcat h

end QattrPid

/-! ### A run -/

/-- The process of a weighted sample. -/
abbrev samplePid (w : UInt64 × TraceEvent) : UInt32 := w.2.pid

theorem pid_restoreSample (w : UInt64 × TraceEvent) : (restoreSample w).pid = w.2.pid := by
  rw [restoreSample_eq]

theorem move_sampledPair (mask : UInt32) (cat : UInt32 → PidCategory) (s : UInt32 → LivePid)
    (t : UInt32 → TagPidState) (w : UInt64 × TraceEvent) :
    Keyed.move samplePid (sampledPair mask cat) (fun p => (s p, t p)) w = fun p =>
      (Keyed.move samplePid (LivePid.sample mask) s w p,
        Keyed.move TraceEvent.pid (tagForwardStep cat 0) t (restoreSample w) p) :=
  Keyed.move_prod pid_restoreSample s t w

theorem after_sampledPair (mask : UInt32) (cat : UInt32 → PidCategory) (s : UInt32 → LivePid)
    (t : UInt32 → TagPidState) (ws : List (UInt64 × TraceEvent)) :
    Keyed.after samplePid (sampledPair mask cat) (fun p => (s p, t p)) ws = fun p =>
      (Keyed.after samplePid (LivePid.sample mask) s ws p,
        Keyed.after TraceEvent.pid (tagForwardStep cat 0) t (ws.map restoreSample) p) :=
  Keyed.after_prod pid_restoreSample s t ws

/-- What waits on the processes `K`, by the id that the server gives it. -/
def owedByServer (K : Finset UInt32) (s : UInt32 → LivePid) (t : UInt32 → TagPidState)
    (next : UInt32 → UInt64) (q : UInt64) (e : UInt32) : ℕ :=
  ∑ p ∈ K, (s p).qattr.owed (resolveQid (next p) (t p).cmdQid) q e

/-- **A run of samples.** What it files, and what waits after it, is what waited before it and the
samples that the tagging pass leaves outside io workers. -/
theorem count_samples {mask : UInt32} {K : Finset UInt32} (ws : List (UInt64 × TraceEvent))
    (hK : ∀ w ∈ ws, w.2.pid ∈ K) (hw : ∀ w ∈ ws, IsSampled cat w.2) (s : UInt32 → LivePid)
    (t : UInt32 → TagPidState) (hpend : ∀ p, cat p ≠ .foreground → (s p).qattr.pending = [])
    (hset : Keyed.Always samplePid (sampledPair mask cat) (SettlesAt cat) (fun p => (s p, t p)) ws)
    (hspill : ∀ o ∈ Keyed.pass samplePid (LivePid.sample mask) s ws, o.spilled = false) (q : UInt64)
    (e : UInt32) :
    let b := tagBackward mask cat (tagForward cat 0 t (ws.map restoreSample))
    rowCount ((Keyed.pass samplePid (LivePid.sample mask) s ws).flatMap LiveOut.rows) q e +
        owedByServer K (Keyed.after samplePid (LivePid.sample mask) s ws)
          (Keyed.after TraceEvent.pid (tagForwardStep cat 0) t (ws.map restoreSample))
          (fun _ => 0) q e =
      owedByServer K s t b.1 q e + taggedCount cat b.2 q e := by
  induction ws generalizing s t with
  | nil => simp [Keyed.pass, Keyed.after, tagForward, tagBackward, Keyed.passBack, taggedCount]
  | cons w ws ih =>
    intro b
    let ev := restoreSample w
    let s' := Keyed.move samplePid (LivePid.sample mask) s w
    let t' := Keyed.move TraceEvent.pid (tagForwardStep cat 0) t ev
    let b' := tagBackward mask cat (tagForward cat 0 t' (ws.map restoreSample))
    have hs := hw w List.mem_cons_self
    have hpid : ev.pid = w.2.pid := pid_restoreSample w
    obtain ⟨ev', hstep, hold, hpid', hnew, hqid, hwe, hflag⟩ := tagForwardStep_sample hs (t w.2.pid)
    have hm : isMarker ev'.oldEvent = false := hold ▸ hs.marker
    let x := backfillRecord mask (cat w.2.pid) (b'.1 w.2.pid) ev' (t w.2.pid).cmdQid
    have hx : tagBackwardStep mask cat (b'.1 w.2.pid) (ev', (t w.2.pid).cmdQid) = x := by
      simp only [tagBackwardStep, hm, Bool.false_eq_true, if_false, hpid', x]
    have hxpid : x.2.pid = w.2.pid := by
      rw [← hx, pid_tagBackwardStep]
      exact hpid'
    have hb : b = (Function.update b'.1 w.2.pid x.1, x.2 :: b'.2) := by
      have hout : (tagForwardStep cat 0 (t ev.pid) ev).2 = (ev', (t w.2.pid).cmdQid) := by
        rw [hpid, hstep]
      change (Function.update b'.1 (tagForwardStep cat 0 (t ev.pid) ev).2.1.pid
        (tagBackwardStep mask cat (b'.1 (tagForwardStep cat 0 (t ev.pid) ev).2.1.pid)
          (tagForwardStep cat 0 (t ev.pid) ev).2).1,
        (tagBackwardStep mask cat (b'.1 (tagForwardStep cat 0 (t ev.pid) ev).2.1.pid)
          (tagForwardStep cat 0 (t ev.pid) ev).2).2 :: b'.2) = _
      rw [hout]
      simp only [hpid', hx]
    have hb₁ : b.1 = Function.update b'.1 w.2.pid x.1 := congrArg Prod.fst hb
    have hb₂ : b.2 = x.2 :: b'.2 := congrArg Prod.snd hb
    have hs' : s' w.2.pid = ((s w.2.pid).sample mask w).1 := Keyed.move_self _
    have ht' : (t' w.2.pid).cmdQid = sampleQid ev'.oldEvent ev'.queryId (t w.2.pid).cmdQid := by
      have : t' ev.pid = (tagForwardStep cat 0 (t ev.pid) ev).1 := Keyed.move_self _
      rw [hpid, hstep] at this
      rw [this, hold, hqid]
    have hmove : Keyed.move samplePid (sampledPair mask cat) (fun p => (s p, t p)) w =
        fun p => (s' p, t' p) := move_sampledPair mask cat s t w
    -- the rest of the run, and the sample itself
    have hrest : rowCount ((Keyed.pass samplePid (LivePid.sample mask) s' ws).flatMap
          LiveOut.rows) q e +
        owedByServer K (Keyed.after samplePid (LivePid.sample mask) s' ws)
          (Keyed.after TraceEvent.pid (tagForwardStep cat 0) t' (ws.map restoreSample))
          (fun _ => 0) q e =
          owedByServer K s' t' b'.1 q e + taggedCount cat b'.2 q e := by
      refine ih (fun x hx => hK x (List.mem_cons_of_mem _ hx))
        (fun x hx => hw x (List.mem_cons_of_mem _ hx)) s' t' ?_ (hmove ▸ hset.2)
        fun o ho => hspill o (List.mem_cons_of_mem _ ho)
      intro p hp
      by_cases h : p = w.2.pid
      · subst h
        rw [hs']
        exact QattrPid.pending_sample _ mask _ _ _ (hs.category ▸ hp) (hpend _ hp)
      · rw [show s' p = s p from Keyed.move_of_ne h]
        exact hpend p hp
    have hone : rowCount ((s w.2.pid).sample mask w).2.rows q e +
        (s' w.2.pid).qattr.owed (resolveQid (b'.1 w.2.pid) (t' w.2.pid).cmdQid) q e =
          (s w.2.pid).qattr.owed (resolveQid x.1 (t w.2.pid).cmdQid) q e +
            if x.2.filedUnder q e ∧ cat w.2.pid ≠ .ioWorker then 1 else 0 := by
      have hset₁ := hset.1
      have hspill₁ : ((s w.2.pid).sample mask w).2.spilled = false := hspill _ List.mem_cons_self
      rw [LivePid.sample, hs.category, ← hold, ← hqid] at hspill₁
      rw [hs', ht', LivePid.sample, hs.category, ← hold, ← hqid]
      refine QattrPid.count_sample (s w.2.pid).qattr hm hwe (hnew ▸ hs.exit) hflag
        (hpend w.2.pid) hspill₁ _ (fun hfg hidle hq => ?_) _ q e
      rw [hold] at hidle
      rw [hqid] at hq
      rcases hset₁ hfg hidle hq with h | ⟨h, h'⟩
      · exact Or.inl h
      · exact Or.inr ⟨by rw [h]; decide, h'⟩
    have hcount : taggedCount cat b.2 q e = taggedCount cat b'.2 q e +
        if x.2.filedUnder q e ∧ cat w.2.pid ≠ .ioWorker then 1 else 0 := by
      rw [hb₂, taggedCount, List.countP_cons, taggedCount, hxpid]
      simp only [Bool.and_eq_true, decide_eq_true_eq]
    -- only the process of the sample owes something else than before
    have hothers : ∀ p ∈ K.erase w.2.pid,
        (s p).qattr.owed (resolveQid (b.1 p) (t p).cmdQid) q e =
          (s' p).qattr.owed (resolveQid (b'.1 p) (t' p).cmdQid) q e := by
      intro p hp
      have hne : p ≠ w.2.pid := Finset.ne_of_mem_erase hp
      rw [hb₁, Function.update_of_ne hne, show s' p = s p from Keyed.move_of_ne hne,
        show t' p = t p from Keyed.move_of_ne (hpid ▸ hne)]
    have hsum : owedByServer K s t b.1 q e +
        (s' w.2.pid).qattr.owed (resolveQid (b'.1 w.2.pid) (t' w.2.pid).cmdQid) q e =
      owedByServer K s' t' b'.1 q e +
        (s w.2.pid).qattr.owed (resolveQid x.1 (t w.2.pid).cmdQid) q e := by
      have hmem := hK w List.mem_cons_self
      rw [owedByServer, owedByServer, ← Finset.add_sum_erase K _ hmem,
        ← Finset.add_sum_erase K _ hmem, Finset.sum_congr rfl hothers, hb₁, Function.update_self]
      omega
    rw [Keyed.pass, Keyed.after, List.flatMap_cons, rowCount_append, hcount, List.map_cons,
      Keyed.after]
    change rowCount ((s w.2.pid).sample mask w).2.rows q e +
      rowCount ((Keyed.pass samplePid (LivePid.sample mask) s' ws).flatMap LiveOut.rows) q e +
      owedByServer K (Keyed.after samplePid (LivePid.sample mask) s' ws)
        (Keyed.after TraceEvent.pid (tagForwardStep cat 0) t' (ws.map restoreSample))
        (fun _ => 0) q e = _
    omega

/-! ### The rows of the accumulator -/

theorem accumulateQattr_of_room {mask : UInt32} {acc : Accumulator}
    (hm : isMarker w.2.newEvent = false) (h : acc.Room w.2.pid) :
    let r := (acc.stateOf w.2.pid).sample mask w
    let acc' := accumulateQattr mask acc w
    acc'.stateOf = Keyed.move samplePid (LivePid.sample mask) acc.stateOf w ∧
      acc'.queryEvents = Accumulator.fileRows r.2.rows acc.queryEvents ∧
      acc'.qattrPendingOverflow = acc.qattrPendingOverflow + r.2.spilled.toNat ∧
      (acc'.keys = acc.keys ∨ w.2.pid ∉ acc.keys ∧ acc'.keys = acc.keys ++ [w.2.pid]) := by
  intro r acc'
  obtain ⟨acc₁, hg, hst, hmem, hkeys, hrows, hover⟩ := Accumulator.getOrCreatePid_of_room h
  have hacc : acc' = (acc₁.setPid w.2.pid r.1).file r.2 := by
    simp only [acc', accumulateQattr, hm, Bool.false_eq_true, if_false, hg, r]
  refine ⟨?_, ?_, ?_, ?_⟩
  · rw [hacc, Accumulator.stateOf_file, Accumulator.stateOf_setPid _ hmem, hst]
    rfl
  · rw [hacc, Accumulator.queryEvents_file, Accumulator.setPid, hrows]
  · rw [hacc, Accumulator.qattrPendingOverflow_file, Accumulator.setPid, hover]
  · rw [hacc, Accumulator.keys_file, Accumulator.keys_setPid]
    exact hkeys

/-- With room for all processes, the states and the rows of a run of samples are those of the pass
of the single processes. -/
theorem foldl_accumulateQattr {mask : UInt32} {pids : List UInt32}
    (hlen : pids.length ≤ maxBackends) (ws : List (UInt64 × TraceEvent)) (hm : ∀ w ∈ ws, isMarker w.2.newEvent = false)
    (hw : ∀ w ∈ ws, w.2.pid ∈ pids) (acc : Accumulator) (hk : acc.KeysIn pids) :
    let outs := Keyed.pass samplePid (LivePid.sample mask) acc.stateOf ws
    let acc' := ws.foldl (accumulateQattr mask) acc
    acc'.stateOf = Keyed.after samplePid (LivePid.sample mask) acc.stateOf ws ∧
      acc'.queryEvents = Accumulator.fileRows (outs.flatMap LiveOut.rows) acc.queryEvents ∧
      acc'.qattrPendingOverflow =
        acc.qattrPendingOverflow + (outs.map fun o => o.spilled.toNat).sum ∧
      acc'.KeysIn pids := by
  induction ws generalizing acc with
  | nil => exact ⟨rfl, rfl, rfl, hk⟩
  | cons w ws ih =>
    intro outs acc'
    have hp : w.2.pid ∈ pids := hw w List.mem_cons_self
    obtain ⟨hst, hrows, hover, hkeys⟩ :=
      accumulateQattr_of_room (hm w List.mem_cons_self) (hk.room hlen hp)
    obtain ⟨hst', hrows', hover', hkeys'⟩ :=
      ih (fun x hx => hm x (List.mem_cons_of_mem _ hx))
        (fun x hx => hw x (List.mem_cons_of_mem _ hx)) (accumulateQattr mask acc w)
        (hk.of_keys hp hkeys)
    rw [hst] at hst' hrows' hover'
    refine ⟨hst', ?_, ?_, hkeys'⟩
    · simp only [acc', List.foldl_cons, outs, Keyed.pass, List.flatMap_cons]
      rw [hrows', hrows, Accumulator.fileRows, Accumulator.fileRows, Accumulator.fileRows,
        List.foldl_append]
    · simp only [acc', List.foldl_cons, outs, Keyed.pass, List.map_cons, List.sum_cons]
      rw [hover', hover, Nat.add_assoc]

/-- **Samples are attributed alike on both sides**, outside io workers, if those without an id are
settled alike: with room for all processes, no spilled pending list and a table of rows that never
fills up, once all processes have exited the live rows count for every query id and event as many
samples as the tagging pass leaves with that id, id 0 being the ones it flags as unattributed. -/
theorem sampledRun_rowCount_eq (mask : UInt32) (cat : UInt32 → PidCategory)
    (ticks : List SampleTick) (hcat : CategoriesFit cat ticks)
    (hpids : ((weightedSamples ticks).map samplePid).dedup.length ≤ maxBackends)
    (hspill : (sampledRun mask {} ticks).qattrPendingOverflow = 0)
    (hfull : (liveFinish (sampledRun mask {} ticks)).queryEvents.length < maxQueryEvents)
    (hset : SettlesAlike mask cat (weightedSamples ticks)) (q : UInt64) (e : UInt32) :
    rowCount (liveFinish (sampledRun mask {} ticks)).queryEvents q e =
      taggedCount cat (tagEvents mask cat (restoredSamples ticks)) q e := by
  have hs : ∀ w ∈ weightedSamples ticks, IsSampled cat w.2 := fun w => isSampled_of_mem hcat
  rw [restoredSamples]
  rw [sampledRun] at hspill hfull ⊢
  generalize weightedSamples ticks = ws at *
  set pids := (ws.map samplePid).dedup with hpidsDef
  have hmem : ∀ w ∈ ws, w.2.pid ∈ pids := fun w hw =>
    List.mem_dedup.mpr (List.mem_map_of_mem (f := samplePid) hw)
  obtain ⟨hst, hrows, hover, hkeys⟩ := foldl_accumulateQattr hpids ws
    (fun w hw => (hs w hw).marker) hmem {} ⟨List.nodup_nil, List.nil_subset _⟩
  have hstart : Accumulator.stateOf {} = fun _ => {} := rfl
  rw [hstart] at hst hrows hover
  have hno : ∀ o ∈ Keyed.pass samplePid (LivePid.sample mask) (fun _ => {}) ws,
      o.spilled = false := by
    intro o ho
    have hsum : ((Keyed.pass samplePid (LivePid.sample mask) (fun _ => {}) ws).map
        fun o => o.spilled.toNat).sum = 0 :=
      Nat.eq_zero_of_add_eq_zero_left (hover.symm.trans hspill)
    have hzero : o.spilled.toNat = 0 :=
      List.sum_eq_zero_iff.mp hsum _ (List.mem_map_of_mem ho)
    cases hsp : o.spilled
    · rfl
    · rw [hsp] at hzero
      exact absurd hzero (by decide)
  have hrun := count_samples (K := pids.toFinset) ws
    (fun w hw => List.mem_toFinset.mpr (hmem w hw)) hs (fun _ => {}) (fun _ => {})
    (fun _ _ => rfl) hset.idle hno q e
  -- at exit what still waits is settled alike
  have hexit : owedTotal pids.toFinset
      (Keyed.after samplePid (LivePid.sample mask) (fun _ => {}) ws) (fun _ => 0) q e =
        owedByServer pids.toFinset (Keyed.after samplePid (LivePid.sample mask) (fun _ => {}) ws)
          (Keyed.after TraceEvent.pid (tagForwardStep cat 0) (fun _ => {}) (ws.map restoreSample))
          (fun _ => 0) q e := by
    refine Finset.sum_congr rfl fun p hp => ?_
    rw [List.mem_toFinset, hpidsDef, List.mem_dedup, List.mem_map] at hp
    obtain ⟨w, hw, rfl⟩ := hp
    have hsettled := hset.exit w hw
    rw [after_sampledPair] at hsettled
    rcases hsettled with h | h
    · rw [QattrPid.owed_of_pending_nil h, QattrPid.owed_of_pending_nil h]
    · rw [resolveQid_zero, resolveQid_zero]
      exact congrArg (fun k => QattrPid.owed _ k q e) h
  have hnone : ∀ t next, owedByServer pids.toFinset (fun _ => {}) t next q e = 0 := fun t next =>
    Finset.sum_eq_zero fun p _ => QattrPid.owed_of_pending_nil rfl _ q e
  have hfinish := queryEvents_foldl_exit hkeys.nodup (List.Subset.refl _)
  change (liveFinish (ws.foldl (accumulateQattr mask) {})).queryEvents = _ at hfinish
  have hbefore : (ws.foldl (accumulateQattr mask) {}).queryEvents.length < maxQueryEvents := by
    rw [hfinish] at hfull
    exact (Accumulator.length_le_fileRows _ _).trans_lt hfull
  calc rowCount (liveFinish (ws.foldl (accumulateQattr mask) {})).queryEvents q e
      = rowCount (ws.foldl (accumulateQattr mask) {}).queryEvents q e +
          owedTotal pids.toFinset
            (Keyed.after samplePid (LivePid.sample mask) (fun _ => {}) ws) (fun _ => 0) q e := by
        rw [hfinish] at hfull ⊢
        rw [Accumulator.rowCount_fileRows hfull, rowCount_exitRows hkeys, hst]
    _ = taggedCount cat (tagEvents mask cat (ws.map restoreSample)) q e := by
        rw [hrows] at hbefore ⊢
        rw [Accumulator.rowCount_fileRows hbefore, rowCount_nil, Nat.zero_add, hexit, hrun, hnone,
          Nat.zero_add]
        rfl

/-- The readings of one client at ticks of 100 ms: the event, whether a command is open, the id of
the command, and the last id. -/
def clientTicks (readings : List (UInt32 × Bool × UInt64 × UInt64)) : List SampleTick :=
  readings.zipIdx.map fun r =>
    { tickTs := 100000000 * (.ofNat r.2 + 1)
      periodNs := 100000000
      readings := [⟨⟨4242, r.1.2.2.1, r.1.2.2.2, .client, r.1.2.1⟩, r.1.1, true⟩] }

/-- Every process is a client. -/
abbrev allClients : UInt32 → PidCategory := fun _ => .foreground

/-- A lock wait before the id is known, a read of the client inside the command that carries the id,
and a second lock wait, all of query 5. -/
def copyTicks : List SampleTick :=
  clientTicks [(0x03000000, true, 0, 0), (weiClientRead, true, 5, 5), (0x03000000, true, 0, 0),
    (0, true, 5, 5), (weiClientRead, false, 0, 5)]

theorem sampledRun_rowCount_eq_copy :
    rowCount (liveFinish (sampledRun 0 {} copyTicks)).queryEvents 5 0x03000000 =
        taggedCount allClients (tagEvents 0 allClients (restoredSamples copyTicks)) 5 0x03000000 ∧
      taggedCount allClients (tagEvents 0 allClients (restoredSamples copyTicks)) 5 0x03000000 =
        2 :=
  ⟨sampledRun_rowCount_eq 0 allClients copyTicks (by decide +kernel) (by decide +kernel)
    (by decide +kernel) (by decide +kernel) ⟨by decide +kernel, by decide +kernel⟩ 5 0x03000000,
    by decide +kernel⟩

/-- A lock wait, then an idle reading that the status read contradicts, neither with an id; then the
command reports query 5. -/
def skewedTicks : List SampleTick :=
  clientTicks [(0x03000000, true, 0, 0), (weiClientRead, true, 0, 0), (0, true, 5, 5)]

/-- A read of an io worker that carries query 5. -/
def ioWorkerTick : List SampleTick :=
  [⟨100000000, 100000000, [⟨⟨7, 5, 5, .ioWorker, false⟩, 0x0A000015, true⟩]⟩]

/-- Live the lock wait goes to query 5, on the server to none; and an io worker's sample that
carries query 5 has no live row but keeps its id on the server. -/
theorem sampledRun_rowCount_skewed :
    (CategoriesFit allClients skewedTicks ∧
      (sampledRun 0 {} skewedTicks).qattrPendingOverflow = 0 ∧
      (liveFinish (sampledRun 0 {} skewedTicks)).queryEvents.length < maxQueryEvents ∧
      rowCount (liveFinish (sampledRun 0 {} skewedTicks)).queryEvents 5 0x03000000 = 1 ∧
      (tagEvents 0 allClients (restoredSamples skewedTicks)).countP
        (·.filedUnder 5 0x03000000) = 0 ∧
      (tagEvents 0 allClients (restoredSamples skewedTicks)).countP
        (·.filedUnder 0 0x03000000) = 1) ∧
    (CategoriesFit (fun _ => .ioWorker) ioWorkerTick ∧
      rowCount (liveFinish (sampledRun 0 {} ioWorkerTick)).queryEvents 5 0x0A000015 = 0 ∧
      (tagEvents 0 (fun _ => .ioWorker) (restoredSamples ioWorkerTick)).countP
        (·.filedUnder 5 0x0A000015) = 1) := by
  refine ⟨⟨?_, ?_, ?_, ?_, ?_, ?_⟩, ?_, ?_, ?_⟩ <;> decide +kernel

/-! ### Coherent readings -/

end PgWaitTracer
