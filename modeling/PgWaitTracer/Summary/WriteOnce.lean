import Mathlib.Data.List.MinMax
import Mathlib.Data.List.Perm.Basic
import PgWaitTracer.Summary.RecordTimes

/-!
# A second is written once

The reader of the summary sums every record that it finds, so a second must not be written twice
(`src/summary_writer.c`). The writer is taken here with what may fail: a write that leaves the
accumulator for the next attempt, a write that stops the writer, a file that cannot be opened. Files
are opened when the first record comes, and again after a rotation.

What fails is given by the number of the attempt, so a theorem for all `Faults` is one for every
pattern of failures. Sums of times do not wrap around: 64 bits of ns last for centuries.

## Main results

* `second_written_once`: the seconds of the records increase, and every record of the
  stream that is accepted is counted once.
-/

namespace PgWaitTracer

/-! ### What is counted -/

/-- The records counted by calls, markers and exits apart. -/
def countedRecords (calls : List AccumCall) : List TraceEvent :=
  (calls.filterMap AccumCall.counted).filter fun evt => !notInterval evt

theorem countedRecords_append (l₁ l₂ : List AccumCall) :
    countedRecords (l₁ ++ l₂) = countedRecords l₁ ++ countedRecords l₂ := by
  rw [countedRecords, List.filterMap_append, List.filter_append]
  rfl

theorem countedRecords_eq_nil {calls : List AccumCall} (h : ∀ c ∈ calls, c.counted = none) :
    countedRecords calls = [] := by
  rw [countedRecords, List.filterMap_eq_nil_iff.2 h]
  rfl

/-! ### Failures -/

/-- How `flush_accum` ends: the second is written, it is kept for the next attempt, or it is kept and
the writer stops. -/
inductive FlushOutcome
  | written
  | kept
  | disabled
  deriving DecidableEq, Repr

/-- How the attempts to write a second end, and which attempts to open a file succeed. -/
structure Faults where
  flush : ℕ → FlushOutcome
  openFile : ℕ → Bool

/-- The writer with its file. `discarded` has the seconds that a rotation reported to be lost, and
`accepted` the records of the stream that were taken. -/
structure FileWriter where
  base : SummaryWriter := {}
  enabled : Bool := true
  fp : Bool := false
  flushTries : ℕ := 0
  openTries : ℕ := 0
  discarded : List (ℕ × List AccumCall) := []
  accepted : List PushedEvent := []

/-- `flush_accum`. Without a file nothing is written and nothing fails. -/
def FileWriter.flushAccum (env : Faults) (w : FileWriter) : FileWriter × Bool :=
  if w.base.second.isNone ∨ !w.fp then (w, true)
  else
    match env.flush w.flushTries with
    | .written =>
      ({ w with base := w.base.flushAccum, flushTries := w.flushTries + 1 }, true)
    | .kept => ({ w with flushTries := w.flushTries + 1 }, false)
    | .disabled => ({ w with flushTries := w.flushTries + 1, enabled := false }, false)

/-- `writer_open_counted`. -/
def FileWriter.openCounted (env : Faults) (w : FileWriter) : FileWriter × Bool :=
  if w.fp then (w, true)
  else if env.openFile w.openTries then
    ({ w with
        base := { w.base with fileOpened := true }
        fp := true
        openTries := w.openTries + 1 }, true)
  else ({ w with openTries := w.openTries + 1 }, false)

/-- `seal_can_write`: before the first file there is no anchor for the clock. -/
def FileWriter.sealCanWrite (env : Faults) (w : FileWriter) : FileWriter × Bool :=
  if w.fp then (w, true)
  else if !w.base.fileOpened then (w, false)
  else w.openCounted env

/-- The second that is to be sealed next: the open one, or the first that is owed to an open
interval. -/
def FileWriter.nextSecond (w : FileWriter) (toSec : ℕ) (closing : Bool) : FileWriter × Option ℕ :=
  match w.base.second with
  | some sec => (w, some sec)
  | none => ({ w with base := (w.base.earliestOpenSecond toSec closing).1 },
      (w.base.earliestOpenSecond toSec closing).2)

/-- A second is open, and has the share of every open interval. -/
def FileWriter.creditSecond (mask : UInt32) (w : FileWriter) (sec : ℕ) (closing : Bool) :
    FileWriter :=
  { w with base := ({ w.base with second := some sec }).creditOpenSecond mask sec closing }

/-- `writer_seal_through`. A write that fails ends it. -/
def FileWriter.sealThrough (mask : UInt32) (env : Faults) :
    ℕ → FileWriter → ℕ → Bool → FileWriter
  | 0, w, _, _ => w
  | guard + 1, w, toSec, closing =>
    match w.nextSecond toSec closing with
    | (w, none) => w
    | (w, some sec) =>
      if toSec ≤ sec then w
      else
        match w.sealCanWrite env with
        | (w, false) => w
        | (w, true) =>
          match (w.creditSecond mask sec closing).flushAccum env with
          | (w, false) => w
          | (w, true) => sealThrough mask env guard w toSec closing

/-! ### Entry points -/

/-- A second is open for a record. If the one before cannot be written, the record goes there. -/
def FileWriter.startSecond (env : Faults) (w : FileWriter) (sec : ℕ) : FileWriter :=
  let w := if w.base.second.any (· < sec) then (w.flushAccum env).1 else w
  { w with base := { w.base with second := some (w.base.second.getD sec) } }

/-- A record in the accumulator that is open. -/
def SummaryWriter.addRecord (w : SummaryWriter) (p : PushedEvent) : SummaryWriter :=
  let deferred := if p.ioWorker then [] else p.deferred.map fun d =>
    AccumCall.queryAdd d.queryId d.ev d.count d.totalNs d.longestNs
  let close := AccumCall.event p.evt p.queryId p.ioWorker p.eff (w.closeCtx p.evt)
  { w.closeSlot p.evt with calls := w.calls ++ deferred ++ [close] }

/-- `pgwt_summary_push_event`. A record is accepted unless the writer is stopped, or stops now for
want of a file. -/
def FileWriter.pushEvent (mask : UInt32) (env : Faults) (w : FileWriter) (p : PushedEvent) :
    FileWriter :=
  if !w.enabled then w
  else
    match w.openCounted env with
    | (w, false) => { w with enabled := false }
    | (w, true) =>
      let sec := w.base.openSecondOf p.evt.timestampNs.toNat
      let w := (w.sealThrough mask env openFillMaxSeconds sec false).startSecond env sec
      { w with base := w.base.addRecord p, accepted := w.accepted ++ [p] }

/-- `pgwt_summary_note_open_ex`. -/
def FileWriter.noteOpenEx (w : FileWriter) (pid we : UInt32) (startNs : ℕ) (catFlag : UInt32)
    (nowNs : ℕ) (cpu : Option OpenCpu) : FileWriter :=
  if !w.enabled then w
  else { w with base := summaryNoteOpenEx w.base pid we startNs catFlag nowNs cpu }

/-- `pgwt_summary_flush_completed`. -/
def FileWriter.flushCompleted (mask : UInt32) (env : Faults) (w : FileWriter) (nowNs : ℕ) :
    FileWriter :=
  if !w.enabled then w
  else if nowNs < nsPerSec + flushLagNs then w
  else w.sealThrough mask env openFillMaxSeconds
    ((nowNs - flushLagNs - nsPerSec) / nsPerSec * nsPerSec + nsPerSec) false

/-- `accum_close`, of a second that could not be written. -/
def FileWriter.discard (w : FileWriter) : FileWriter :=
  match w.base.second with
  | none => w
  | some sec =>
    { w with
      base := { w.base with second := none, calls := [] }
      discarded := w.discarded ++ [(sec, w.base.calls)] }

/-- `pgwt_summary_check_rotation`. A second that cannot be written to its file is discarded, with a
report. -/
def FileWriter.checkRotation (env : Faults) (w : FileWriter) (hourChanged : Bool) : FileWriter :=
  if !w.enabled ∨ !w.fp ∨ !hourChanged then w
  else
    match w.flushAccum env with
    | (w, true) => { w with fp := false }
    | (w, false) => { w.discard with fp := false }

/-- The latest note of an interval that can be credited, rounded up to a second. -/
def SummaryWriter.closeBefore (w : SummaryWriter) : ℕ :=
  (((w.opens.filter OpenInterval.creditable).map OpenInterval.notedNs).foldl max 0 + nsPerSec - 1)
    / nsPerSec * nsPerSec

/-- `pgwt_summary_close`. -/
def FileWriter.close (mask : UInt32) (env : Faults) (w : FileWriter) : FileWriter :=
  if !w.fp then w
  else
    let w := w.sealThrough mask env openFillMaxSeconds w.base.closeBefore true
    { (w.flushAccum env).1 with fp := false }

/-- A call of the producer. -/
inductive WriterOp
  | pushEvent (p : PushedEvent)
  | noteOpenEx (pid we : UInt32) (startNs : ℕ) (catFlag : UInt32) (nowNs : ℕ) (cpu : Option OpenCpu)
  | flushCompleted (nowNs : ℕ)
  | flush
  | checkRotation (hourChanged : Bool)
  | close

/-- The writer after a call. -/
def fileWriterStep (mask : UInt32) (env : Faults) (w : FileWriter) : WriterOp → FileWriter
  | .pushEvent p => w.pushEvent mask env p
  | .noteOpenEx pid we startNs catFlag nowNs cpu => w.noteOpenEx pid we startNs catFlag nowNs cpu
  | .flushCompleted nowNs => w.flushCompleted mask env nowNs
  | .flush => (w.flushAccum env).1
  | .checkRotation hourChanged => w.checkRotation env hourChanged
  | .close => w.close mask env

/-! ### The labels of time on CPU -/

/-- The labels that time on CPU is filed under. -/
def IsCpuLabel (e : UInt32) : Prop := e = 0 ∨ e = weiNoncmdCpu

/-- A slot files time on CPU under its labels only. -/
structure OpenInterval.LabelsOk (o : OpenInterval) : Prop where
  cur : IsCpuLabel o.cpuEffWe
  prev : ∀ p, o.prevCpu = some p → IsCpuLabel p.effWe

variable {o : OpenInterval} {w : SummaryWriter} {sec : ℕ}

theorem OpenInterval.LabelsOk.saveWall (h : o.LabelsOk) : o.saveWall.LabelsOk := by
  rw [OpenInterval.saveWall]
  split_ifs
  · exact ⟨h.cur, h.prev⟩
  · exact h

theorem OpenInterval.LabelsOk.saveCpu (h : o.LabelsOk) : o.saveCpu.LabelsOk := by
  rw [OpenInterval.saveCpu]
  split_ifs
  · refine ⟨h.cur, ?_⟩
    rintro p ⟨⟩
    exact h.cur
  · exact h

theorem OpenInterval.LabelsOk.stopCrediting (h : o.LabelsOk) : o.stopCrediting.LabelsOk :=
  ⟨Or.inl rfl, h.saveWall.saveCpu.prev⟩

theorem OpenInterval.LabelsOk.close (evt : TraceEvent) : (o.close evt).LabelsOk := by
  refine ⟨Or.inl rfl, ?_⟩
  rintro p ⟨⟩

theorem OpenInterval.LabelsOk.forget : o.forget.LabelsOk := by
  refine ⟨Or.inl rfl, ?_⟩
  rintro p ⟨⟩

theorem OpenInterval.LabelsOk.noteCpu (h : o.LabelsOk) (startNs : ℕ) (cpu : Option OpenCpu) :
    (o.noteCpu startNs cpu).LabelsOk := by
  cases cpu with
  | none => exact ⟨Or.inl rfl, h.stopCrediting.prev⟩
  | some cpu =>
    have heff : IsCpuLabel (if cpu.effWe ≠ 0 ∧ cpu.effWe ≠ weiNoncmdCpu then 0 else cpu.effWe) := by
      split_ifs with he
      · exact Or.inl rfl
      · by_contra hc
        rw [IsCpuLabel, not_or] at hc
        exact he hc
    -- the slot is the old one or a new one, and both have their labels
    generalize ho : (if !o.cpuSlot ∨ o.we ≠ 0 ∨ o.startNs ≠ startNs then
        { o.stopCrediting.precharge startNs with cpuSlot := true } else o) = o'
    have ho' : o'.LabelsOk := by
      rw [← ho]
      split_ifs
      · exact ⟨Or.inl rfl, h.stopCrediting.prev⟩
      · exact h
    simp only [OpenInterval.noteCpu, ho]
    refine ⟨?_, ho'.prev⟩
    show IsCpuLabel (if o'.cpuFrozen then o'.cpuEffWe else _)
    split
    · exact ho'.cur
    · exact heff

theorem OpenInterval.LabelsOk.noteWait (h : o.LabelsOk) (we : UInt32) (startNs : ℕ) :
    (o.noteWait we startNs).LabelsOk := by
  rw [OpenInterval.noteWait]
  generalize ho : (if o.cpuSlot then o.stopCrediting else o) = o'
  have ho' : o'.LabelsOk := by
    rw [← ho]
    split_ifs
    · exact h.stopCrediting
    · exact h
  simp only
  split_ifs
  · exact ⟨ho'.saveWall.cur, ho'.saveWall.prev⟩
  · exact ho'

theorem OpenInterval.LabelsOk.creditSecond (h : o.LabelsOk) (mask : UInt32) (sec : ℕ)
    (closing : Bool) : (o.creditSecond mask sec closing).1.LabelsOk := by
  rw [OpenInterval.creditSecond]
  split_ifs
  · exact h
  · exact h
  · exact h.stopCrediting
  · exact h
  · exact ⟨h.cur, h.prev⟩
  · exact ⟨h.cur, h.prev⟩

theorem eq_or_eq_of_mem_ite {α : Type*} {P : Prop} [Decidable P] {a b c : α}
    (h : c ∈ if P then [a] else [b]) : c = a ∨ c = b := by
  split_ifs at h
  · exact Or.inl (List.mem_singleton.1 h)
  · exact Or.inr (List.mem_singleton.1 h)

theorem OpenInterval.counted_creditCpu (mask : UInt32) (o : OpenInterval) (endNs slice : ℕ) :
    ∀ c ∈ (o.creditCpu mask endNs slice).2, c.counted = none := by
  intro c hc
  rcases List.mem_cons.1 hc with rfl | hc
  · rfl
  · split at hc
    · cases hc
    · rcases eq_or_eq_of_mem_ite hc with rfl | rfl
      · rfl
      · rfl

theorem OpenInterval.counted_creditSecond (mask : UInt32) (sec : ℕ) (closing : Bool)
    (o : OpenInterval) : ∀ c ∈ (o.creditSecond mask sec closing).2, c.counted = none := by
  intro c hc
  rw [OpenInterval.creditSecond] at hc
  split_ifs at hc
  · cases hc
  · cases hc
  · cases hc
  · cases hc
  · exact o.counted_creditCpu mask _ _ c hc
  · rw [List.mem_singleton.1 hc]
    rfl

theorem OpenInterval.LabelsOk.closeCtx (h : o.LabelsOk) (evt : TraceEvent) :
    (o.closeCtx evt).cpuCredited = true → IsCpuLabel (o.closeCtx evt).frozenEff := by
  rw [OpenInterval.closeCtx]
  split
  · rename_i p hp
    intro _
    rw [OpenInterval.cpuCtx] at hp
    split_ifs at hp
    · cases hp
      exact h.cur
    · exact h.prev p (Option.filter_eq_some_iff.1 hp).1
  · rintro ⟨⟩

theorem PushedEvent.eff_eq (p : PushedEvent) : p.eff = p.evt.oldEvent ∨ p.eff = weiNoncmdCpu := by
  rw [PushedEvent.eff]
  split_ifs with h₁ h₂
  · exact Or.inl rfl
  · exact Or.inl rfl
  · by_contra hc
    rw [not_or] at hc
    exact h₂ hc

theorem IsCpuLabel.not_marker {e : UInt32} (h : IsCpuLabel e) :
    ¬(e = eventExit ∨ isMarker e = true) := by
  rcases h with rfl | rfl
  · decide
  · decide

/-- The record is not a marker or an exit, and not of an I/O worker. -/
def PushedEvent.counts (p : PushedEvent) : Bool := !notInterval p.evt && !p.ioWorker

/-! ### Seconds in order -/

/-- The seconds of the records increase up to the last one, the open second is after it, and the
slots have their labels. -/
structure SummaryWriter.InOrder (w : SummaryWriter) : Prop where
  increasing : (w.records.map Prod.fst).Pairwise (· < ·)
  flushed : ∀ r ∈ w.records, ∃ l, w.lastFlushed = some l ∧ r.1 ≤ l
  ahead : ∀ l, w.lastFlushed = some l → ∀ sec, w.second = some sec → l < sec
  labels : ∀ o ∈ w.opens, o.LabelsOk

/-- Nothing that is written reaches a second. -/
def SummaryWriter.Before (w : SummaryWriter) (sec : ℕ) : Prop := ∀ l, w.lastFlushed = some l → l < sec

theorem SummaryWriter.before_openSecondOf (w : SummaryWriter) (t : ℕ) :
    w.Before (w.openSecondOf t) := by
  intro l hl
  rw [openSecondOf, hl]
  have hpos : 0 < nsPerSec := by decide
  dsimp only
  split_ifs with h
  · omega
  · omega

theorem SummaryWriter.InOrder.withSecond (h : w.InOrder) (hsec : w.Before sec) :
    ({ w with second := some sec } : SummaryWriter).InOrder := by
  refine ⟨h.increasing, h.flushed, ?_, h.labels⟩
  rintro l hl sec' ⟨⟩
  exact hsec l hl

theorem SummaryWriter.InOrder.withOpens (h : w.InOrder) {opens : List OpenInterval}
    (ho : ∀ o ∈ opens, o.LabelsOk) : ({ w with opens := opens } : SummaryWriter).InOrder :=
  ⟨h.increasing, h.flushed, h.ahead, ho⟩

theorem SummaryWriter.InOrder.withCalls (h : w.InOrder) (calls : List AccumCall) :
    ({ w with calls := calls } : SummaryWriter).InOrder :=
  ⟨h.increasing, h.flushed, h.ahead, h.labels⟩

theorem SummaryWriter.InOrder.creditOpenSecond (h : w.InOrder) (mask : UInt32) (sec : ℕ)
    (closing : Bool) : (w.creditOpenSecond mask sec closing).InOrder := by
  refine ⟨h.increasing, h.flushed, h.ahead, ?_⟩
  intro o' ho'
  obtain ⟨o, ho, rfl⟩ := List.mem_map.1 ho'
  exact (h.labels o ho).creditSecond mask sec closing

theorem SummaryWriter.InOrder.flushAccum (h : w.InOrder) : w.flushAccum.InOrder := by
  rw [SummaryWriter.flushAccum]
  split
  · exact h
  · rename_i sec hsec
    refine ⟨?_, ?_, ?_, h.labels⟩
    · rw [List.map_append, List.pairwise_append]
      refine ⟨h.increasing, List.pairwise_singleton _ _, ?_⟩
      intro a ha b hb
      obtain ⟨r, hr, rfl⟩ := List.mem_map.1 ha
      obtain ⟨l, hl, hle⟩ := h.flushed r hr
      rw [List.mem_singleton.1 hb]
      exact hle.trans_lt (h.ahead l hl sec hsec)
    · intro r hr
      refine ⟨sec, rfl, ?_⟩
      rcases List.mem_append.1 hr with hr | hr
      · obtain ⟨l, hl, hle⟩ := h.flushed r hr
        exact hle.trans (h.ahead l hl sec hsec).le
      · rw [List.mem_singleton.1 hr]
    · rintro l - sec' ⟨⟩

theorem SummaryWriter.InOrder.earliestOpenSecond (h : w.InOrder) (nowHint : ℕ) (closing : Bool) :
    (w.earliestOpenSecond nowHint closing).1.InOrder := by
  refine h.withOpens ?_
  intro o' ho'
  obtain ⟨o, ho, rfl⟩ := List.mem_map.1 ho'
  split_ifs
  · exact (h.labels o ho).stopCrediting
  · exact h.labels o ho

theorem SummaryWriter.before_earliestOpenSecond {nowHint : ℕ} {closing : Bool}
    (h : (w.earliestOpenSecond nowHint closing).2 = some sec) : w.Before sec := by
  obtain ⟨o, -, ho⟩ := List.mem_filterMap.1 (List.min?_mem h)
  rw [SummaryWriter.owedSecond] at ho
  split_ifs at ho
  · simp only at ho
    split_ifs at ho
    rw [← Option.some.inj ho]
    exact w.before_openSecondOf _

theorem SummaryWriter.InOrder.modifySlot (h : w.InOrder) (pid : UInt32)
    {f : OpenInterval → OpenInterval} (hf : ∀ o : OpenInterval, o.LabelsOk → (f o).LabelsOk) :
    (w.modifySlot pid f).InOrder := by
  refine h.withOpens ?_
  intro o' ho'
  obtain ⟨o, ho, rfl⟩ := List.mem_map.1 ho'
  split_ifs
  · exact hf o (h.labels o ho)
  · exact h.labels o ho

theorem SummaryWriter.InOrder.createSlot (h : w.InOrder) (pid : UInt32) :
    (w.createSlot pid).InOrder := by
  rw [SummaryWriter.createSlot]
  split_ifs
  · exact h
  · refine h.withOpens ?_
    intro o ho
    rcases List.mem_append.1 ho with ho | ho
    · exact h.labels o ho
    · rw [List.mem_singleton.1 ho]
      exact ⟨Or.inl rfl, fun p hp => by cases hp⟩

theorem SummaryWriter.InOrder.noteOpenEx (h : w.InOrder) (pid we : UInt32) (startNs : ℕ)
    (catFlag : UInt32) (nowNs : ℕ) (cpu : Option OpenCpu) :
    (summaryNoteOpenEx w pid we startNs catFlag nowNs cpu).InOrder := by
  rw [summaryNoteOpenEx]
  split_ifs
  · exact h
  · exact h.modifySlot pid fun o ho => ho.stopCrediting
  · refine (h.createSlot pid).modifySlot pid ?_
    intro o ho
    have ho' : ({ o with notedNs := nowNs } : OpenInterval).LabelsOk := ⟨ho.cur, ho.prev⟩
    exact ho'.noteCpu startNs cpu
  · refine (h.createSlot pid).modifySlot pid ?_
    intro o ho
    have ho' : ({ o with notedNs := nowNs } : OpenInterval).LabelsOk := ⟨ho.cur, ho.prev⟩
    exact ho'.noteWait we startNs

theorem SummaryWriter.InOrder.closeSlot (h : w.InOrder) (evt : TraceEvent) :
    (w.closeSlot evt).InOrder := by
  rw [SummaryWriter.closeSlot]
  generalize hw : (if notInterval evt = true then w else w.modifySlot evt.pid (·.close evt)) = w'
  have hw' : w'.InOrder := by
    rw [← hw]
    split_ifs
    · exact h
    · exact h.modifySlot evt.pid fun o _ => .close evt
  split_ifs
  · exact hw'.modifySlot evt.pid fun o _ => .forget
  · exact hw'

/-! ### Calls that count -/

/-- The records that a writer has counted. -/
def SummaryWriter.countedAll (w : SummaryWriter) : List TraceEvent := countedRecords w.allCalls

theorem SummaryWriter.allCalls_flushAccum (w : SummaryWriter) :
    w.flushAccum.allCalls = w.allCalls := by
  rw [SummaryWriter.flushAccum]
  split
  · rfl
  · simp only [allCalls, List.flatMap_append, List.flatMap_cons, List.flatMap_nil, List.append_nil]

theorem SummaryWriter.countedAll_creditOpenSecond (mask : UInt32) (w : SummaryWriter) (sec : ℕ)
    (closing : Bool) : (w.creditOpenSecond mask sec closing).countedAll = w.countedAll := by
  have hnil : countedRecords (w.opens.flatMap fun o => (o.creditSecond mask sec closing).2) = [] := by
    refine countedRecords_eq_nil fun c hc => ?_
    obtain ⟨o, -, hc⟩ := List.mem_flatMap.1 hc
    exact o.counted_creditSecond mask sec closing c hc
  simp only [countedAll, allCalls, creditOpenSecond, countedRecords_append, hnil, List.append_nil]

theorem SummaryWriter.allCalls_createSlot (w : SummaryWriter) (pid : UInt32) :
    (w.createSlot pid).allCalls = w.allCalls := by
  rw [SummaryWriter.createSlot]
  split_ifs
  · rfl
  · rfl

theorem SummaryWriter.allCalls_noteOpenEx (w : SummaryWriter) (pid we : UInt32) (startNs : ℕ)
    (catFlag : UInt32) (nowNs : ℕ) (cpu : Option OpenCpu) :
    (summaryNoteOpenEx w pid we startNs catFlag nowNs cpu).allCalls = w.allCalls := by
  rw [summaryNoteOpenEx]
  split_ifs
  · rfl
  · rfl
  · exact w.allCalls_createSlot pid
  · exact w.allCalls_createSlot pid

theorem SummaryWriter.records_closeSlot (w : SummaryWriter) (evt : TraceEvent) :
    (w.closeSlot evt).records = w.records := by
  rw [closeSlot]
  split_ifs <;> rfl

theorem SummaryWriter.InOrder.label_closeCtx (h : w.InOrder) {p : PushedEvent}
    (hp : notInterval p.evt = false) :
    ¬((w.closeCtx p.evt).label p.eff = eventExit ∨ isMarker ((w.closeCtx p.evt).label p.eff)) := by
  have heff : ¬(p.eff = eventExit ∨ isMarker p.eff = true) := by
    rcases p.eff_eq with he | he
    · rw [he]
      rintro (hx | hm)
      · rw [notInterval, hx] at hp
        simp at hp
      · rw [notInterval, hm] at hp
        simp at hp
    · exact IsCpuLabel.not_marker (Or.inr he)
  have hctx : (w.closeCtx p.evt).cpuCredited = true → IsCpuLabel (w.closeCtx p.evt).frozenEff := by
    rw [SummaryWriter.closeCtx, hp]
    simp only [Bool.false_eq_true, if_false]
    split
    · rename_i o ho
      refine OpenInterval.LabelsOk.closeCtx (h.labels o ?_) p.evt
      rw [SummaryWriter.openSlot] at ho
      split_ifs at ho
      exact List.mem_of_find?_eq_some ho
    · rintro ⟨⟩
  rw [AccumCloseCtx.label]
  split_ifs with hc
  · exact (hctx hc).not_marker
  · exact heff

theorem SummaryWriter.InOrder.addRecord (h : w.InOrder) (p : PushedEvent) :
    (w.addRecord p).InOrder :=
  (h.closeSlot p.evt).withCalls _

theorem SummaryWriter.InOrder.countedAll_addRecord (h : w.InOrder) (p : PushedEvent) :
    (w.addRecord p).countedAll = w.countedAll ++ ([p].filter PushedEvent.counts).map PushedEvent.evt := by
  have hdef : countedRecords (if p.ioWorker then [] else p.deferred.map fun d =>
      AccumCall.queryAdd d.queryId d.ev d.count d.totalNs d.longestNs) = [] := by
    refine countedRecords_eq_nil fun c hc => ?_
    split_ifs at hc
    · cases hc
    · obtain ⟨d, -, rfl⟩ := List.mem_map.1 hc
      rfl
  have hclose : countedRecords [AccumCall.event p.evt p.queryId p.ioWorker p.eff (w.closeCtx p.evt)] =
      ([p].filter PushedEvent.counts).map PushedEvent.evt := by
    rw [countedRecords, List.filterMap_cons, AccumCall.counted]
    by_cases hp : notInterval p.evt = true
    · split_ifs <;> simp [PushedEvent.counts, hp]
    · rw [Bool.not_eq_true] at hp
      rw [if_neg (h.label_closeCtx hp)]
      split_ifs with hio
      · simp [PushedEvent.counts, hio]
      · simp [PushedEvent.counts, hp, hio]
  rw [countedAll, allCalls]
  show countedRecords ((w.closeSlot p.evt).records.flatMap Prod.snd ++ (w.calls ++ _ ++ [_])) = _
  rw [w.records_closeSlot]
  simp only [countedRecords_append, hdef, hclose, countedAll, allCalls, List.nil_append,
    List.append_assoc]

/-! ### What a call keeps -/

/-- From one state to another: the order is kept, what is counted stays counted, and nothing is
accepted or discarded. -/
structure FileWriter.Keeps (w w' : FileWriter) : Prop where
  inOrder : w.base.InOrder → w'.base.InOrder
  counted : w'.base.countedAll = w.base.countedAll
  discarded : w'.discarded = w.discarded
  accepted : w'.accepted = w.accepted

theorem FileWriter.Keeps.refl (w : FileWriter) : w.Keeps w := ⟨fun h => h, rfl, rfl, rfl⟩

theorem FileWriter.Keeps.trans {w₁ w₂ w₃ : FileWriter} (h : w₁.Keeps w₂) (h' : w₂.Keeps w₃) :
    w₁.Keeps w₃ :=
  ⟨fun ho => h'.inOrder (h.inOrder ho), h'.counted.trans h.counted,
    h'.discarded.trans h.discarded, h'.accepted.trans h.accepted⟩

theorem FileWriter.keeps_flushAccum (env : Faults) (w : FileWriter) :
    w.Keeps (w.flushAccum env).1 := by
  rw [FileWriter.flushAccum]
  split_ifs
  · exact .refl w
  · split
    · refine ⟨fun h => h.flushAccum, ?_, rfl, rfl⟩
      show countedRecords w.base.flushAccum.allCalls = countedRecords w.base.allCalls
      rw [w.base.allCalls_flushAccum]
    · exact ⟨fun h => h, rfl, rfl, rfl⟩
    · exact ⟨fun h => h, rfl, rfl, rfl⟩

theorem FileWriter.keeps_openCounted (env : Faults) (w : FileWriter) :
    w.Keeps (w.openCounted env).1 := by
  rw [FileWriter.openCounted]
  split_ifs
  · exact .refl w
  · exact ⟨fun h => ⟨h.increasing, h.flushed, h.ahead, h.labels⟩, rfl, rfl, rfl⟩
  · exact ⟨fun h => h, rfl, rfl, rfl⟩

theorem FileWriter.lastFlushed_openCounted (env : Faults) (w : FileWriter) :
    (w.openCounted env).1.base.lastFlushed = w.base.lastFlushed := by
  rw [FileWriter.openCounted]
  split_ifs <;> rfl

theorem FileWriter.sealCanWrite_eq (env : Faults) (w : FileWriter) :
    (w.sealCanWrite env).1 = w ∨ (w.sealCanWrite env).1 = (w.openCounted env).1 := by
  rw [FileWriter.sealCanWrite]
  split_ifs
  · exact Or.inl rfl
  · exact Or.inl rfl
  · exact Or.inr rfl

theorem FileWriter.keeps_sealCanWrite (env : Faults) (w : FileWriter) :
    w.Keeps (w.sealCanWrite env).1 := by
  rcases w.sealCanWrite_eq env with h | h
  · rw [h]
    exact .refl w
  · rw [h]
    exact w.keeps_openCounted env

theorem FileWriter.lastFlushed_sealCanWrite (env : Faults) (w : FileWriter) :
    (w.sealCanWrite env).1.base.lastFlushed = w.base.lastFlushed := by
  rcases w.sealCanWrite_eq env with h | h
  · rw [h]
  · rw [h, w.lastFlushed_openCounted env]

theorem FileWriter.keeps_nextSecond (w : FileWriter) (toSec : ℕ) (closing : Bool) :
    w.Keeps (w.nextSecond toSec closing).1 := by
  rw [FileWriter.nextSecond]
  split
  · exact .refl w
  · exact ⟨fun h => h.earliestOpenSecond toSec closing, rfl, rfl, rfl⟩

theorem FileWriter.lastFlushed_nextSecond (w : FileWriter) (toSec : ℕ) (closing : Bool) :
    (w.nextSecond toSec closing).1.base.lastFlushed = w.base.lastFlushed := by
  rw [FileWriter.nextSecond]
  split <;> rfl

theorem FileWriter.before_nextSecond {w : FileWriter} (h : w.base.InOrder) {toSec : ℕ}
    {closing : Bool} (hsec : (w.nextSecond toSec closing).2 = some sec) : w.base.Before sec := by
  rw [FileWriter.nextSecond] at hsec
  split at hsec
  · rename_i sec' hw
    intro l hl
    rw [← Option.some.inj hsec]
    exact h.ahead l hl sec' hw
  · exact SummaryWriter.before_earliestOpenSecond hsec

theorem FileWriter.before_flushAccum (env : Faults) {w : FileWriter} {toSec : ℕ}
    (h : w.base.Before toSec) (hsec : ∀ sec, w.base.second = some sec → sec < toSec) :
    (w.flushAccum env).1.base.Before toSec := by
  rw [FileWriter.flushAccum]
  split_ifs
  · exact h
  · split
    · intro l hl
      rw [SummaryWriter.flushAccum] at hl
      split at hl
      · exact h l hl
      · rename_i sec hs
        rw [← Option.some.inj hl]
        exact hsec sec hs
    · exact h
    · exact h

theorem FileWriter.keeps_creditSecond (mask : UInt32) {w : FileWriter} (hsec : w.base.Before sec)
    (closing : Bool) : w.Keeps (w.creditSecond mask sec closing) := by
  refine ⟨fun h => (h.withSecond hsec).creditOpenSecond mask sec closing, ?_, rfl, rfl⟩
  exact SummaryWriter.countedAll_creditOpenSecond mask _ sec closing

/-- Sealing keeps the state in order, and writes nothing from its bound on. -/
theorem FileWriter.sealThrough_spec (mask : UInt32) (env : Faults) (toSec : ℕ) (closing : Bool)
    (guard : ℕ) (w : FileWriter) (h : w.base.InOrder) :
    w.Keeps (w.sealThrough mask env guard toSec closing) ∧
      (w.base.Before toSec → (w.sealThrough mask env guard toSec closing).base.Before toSec) := by
  induction guard generalizing w with
  | zero => exact ⟨.refl w, fun hb => hb⟩
  | succ guard ih =>
    rw [FileWriter.sealThrough]
    have hnext := w.keeps_nextSecond toSec closing
    have hlast := w.lastFlushed_nextSecond toSec closing
    rcases hn : w.nextSecond toSec closing with ⟨w₁, owed⟩
    rw [hn] at hnext hlast
    cases owed with
    | none => exact ⟨hnext, fun hb l hl => hb l (hlast.symm.trans hl)⟩
    | some sec =>
      have hsec : w.base.Before sec := FileWriter.before_nextSecond h (congrArg Prod.snd hn)
      dsimp only at hnext hlast ⊢
      split_ifs with hle
      · exact ⟨hnext, fun hb l hl => hb l (hlast.symm.trans hl)⟩
      · have hcan := hnext.trans (w₁.keeps_sealCanWrite env)
        have hlast₂ := (w₁.lastFlushed_sealCanWrite env).trans hlast
        rcases hc : w₁.sealCanWrite env with ⟨w₂, ok⟩
        rw [hc] at hcan hlast₂
        cases ok with
        | false => exact ⟨hcan, fun hb l hl => hb l (hlast₂.symm.trans hl)⟩
        | true =>
          have hcredit := hcan.trans
            (FileWriter.keeps_creditSecond mask (fun l hl => hsec l (hlast₂.symm.trans hl)) closing)
          have hflush := hcredit.trans ((w₂.creditSecond mask sec closing).keeps_flushAccum env)
          have hb₃ (hb : w.base.Before toSec) :
              ((w₂.creditSecond mask sec closing).flushAccum env).1.base.Before toSec := by
            refine FileWriter.before_flushAccum env (fun l hl => hb l (hlast₂.symm.trans hl)) ?_
            rintro sec' ⟨⟩
            exact not_le.1 hle
          dsimp only
          rcases hf : (w₂.creditSecond mask sec closing).flushAccum env with ⟨w₃, ok⟩
          rw [hf] at hflush hb₃
          cases ok with
          | false => exact ⟨hflush, hb₃⟩
          | true =>
            obtain ⟨hk, hb⟩ := ih w₃ (hflush.inOrder h)
            exact ⟨hflush.trans hk, fun hb₀ => hb (hb₃ hb₀)⟩

/-! ### Runs -/

/-- All calls of a run, with those of the seconds that were discarded. -/
def FileWriter.allCounted (w : FileWriter) : List TraceEvent :=
  countedRecords (w.discarded.flatMap Prod.snd) ++ w.base.countedAll

/-- The records of the stream that were accepted and count. -/
def FileWriter.acceptedCounts (w : FileWriter) : List TraceEvent :=
  (w.accepted.filter PushedEvent.counts).map PushedEvent.evt

/-- The seconds are in order, and what counts is counted. -/
structure FileWriter.Ok (w : FileWriter) : Prop where
  inOrder : w.base.InOrder
  perm : w.allCounted.Perm w.acceptedCounts

theorem FileWriter.Keeps.ok {w w' : FileWriter} (h : w.Keeps w') (hw : w.Ok) : w'.Ok := by
  refine ⟨h.inOrder hw.inOrder, ?_⟩
  rw [allCounted, acceptedCounts, h.discarded, h.counted, h.accepted]
  exact hw.perm

theorem FileWriter.keeps_startSecond {w : FileWriter} (hsec : w.base.Before sec) (env : Faults) :
    w.Keeps (w.startSecond env sec) := by
  rw [FileWriter.startSecond]
  generalize hw' : (if w.base.second.any (· < sec) then (w.flushAccum env).1 else w) = w'
  have hk : w.Keeps w' ∧ w'.base.Before sec := by
    rw [← hw']
    split_ifs with hany
    · refine ⟨w.keeps_flushAccum env, FileWriter.before_flushAccum env hsec ?_⟩
      intro cur hcur
      rw [hcur] at hany
      exact of_decide_eq_true hany
    · exact ⟨.refl w, hsec⟩
  refine hk.1.trans ⟨fun ho => ?_, rfl, rfl, rfl⟩
  refine ho.withSecond ?_
  cases hs : w'.base.second with
  | none => exact hk.2
  | some cur => exact fun l hl => ho.ahead l hl cur hs

theorem FileWriter.Ok.pushEvent {w : FileWriter} (h : w.Ok) (mask : UInt32) (env : Faults)
    (p : PushedEvent) : (w.pushEvent mask env p).Ok := by
  rw [FileWriter.pushEvent]
  split_ifs
  · exact h
  · have hopen := w.keeps_openCounted env
    rcases hc : w.openCounted env with ⟨w₁, ok⟩
    rw [hc] at hopen
    cases ok with
    | false => exact ⟨(hopen.ok h).inOrder, (hopen.ok h).perm⟩
    | true =>
      dsimp only
      generalize hsec : w₁.base.openSecondOf p.evt.timestampNs.toNat = sec
      have hb : w₁.base.Before sec := hsec ▸ w₁.base.before_openSecondOf _
      obtain ⟨hk, hbk⟩ := w₁.sealThrough_spec mask env sec false openFillMaxSeconds
        (hopen.ok h).inOrder
      have hw := hk.ok (hopen.ok h)
      have hs := (FileWriter.keeps_startSecond (hbk hb) env).ok hw
      generalize (w₁.sealThrough mask env openFillMaxSeconds sec false).startSecond env sec = w₂ at hs
      refine ⟨hs.inOrder.addRecord p, ?_⟩
      have hcount := hs.inOrder.countedAll_addRecord p
      simp only [allCounted, acceptedCounts, hcount, List.filter_append, List.map_append]
      rw [← List.append_assoc]
      exact hs.perm.append_right _

theorem FileWriter.Ok.discard {w : FileWriter} (h : w.Ok) : w.discard.Ok := by
  rw [FileWriter.discard]
  split
  · exact h
  · refine ⟨⟨h.inOrder.increasing, h.inOrder.flushed, ?_, h.inOrder.labels⟩, ?_⟩
    · rintro l - sec' ⟨⟩
    · refine List.Perm.trans ?_ h.perm
      simp only [allCounted, SummaryWriter.countedAll, SummaryWriter.allCalls, List.flatMap_append,
        List.flatMap_cons, List.flatMap_nil, List.append_nil, countedRecords_append,
        List.append_assoc]
      exact List.perm_append_comm.append_left _

/-- Every call keeps the seconds in order and what counts counted. -/
theorem FileWriter.Ok.step {w : FileWriter} (h : w.Ok) (mask : UInt32) (env : Faults)
    (op : WriterOp) : (fileWriterStep mask env w op).Ok := by
  cases op with
  | pushEvent p => exact h.pushEvent mask env p
  | noteOpenEx pid we startNs catFlag nowNs cpu =>
    rw [fileWriterStep, FileWriter.noteOpenEx]
    split_ifs
    · exact h
    · refine FileWriter.Keeps.ok ⟨fun ho => ho.noteOpenEx pid we startNs catFlag nowNs cpu, ?_, rfl,
        rfl⟩ h
      exact congrArg countedRecords (SummaryWriter.allCalls_noteOpenEx ..)
  | flushCompleted nowNs =>
    rw [fileWriterStep, FileWriter.flushCompleted]
    split_ifs
    · exact h
    · exact h
    · exact (w.sealThrough_spec mask env _ false openFillMaxSeconds h.inOrder).1.ok h
  | flush => exact (w.keeps_flushAccum env).ok h
  | checkRotation hourChanged =>
    rw [fileWriterStep, FileWriter.checkRotation]
    split_ifs
    · exact h
    · have hflush := (w.keeps_flushAccum env).ok h
      rcases hf : w.flushAccum env with ⟨w₁, ok⟩
      rw [hf] at hflush
      cases ok with
      | false => exact ⟨hflush.discard.inOrder, hflush.discard.perm⟩
      | true => exact ⟨hflush.inOrder, hflush.perm⟩
  | close =>
    rw [fileWriterStep, FileWriter.close]
    split_ifs
    · exact h
    · have hseal := (w.sealThrough_spec mask env w.base.closeBefore true openFillMaxSeconds
        h.inOrder).1.ok h
      have hflush := (FileWriter.keeps_flushAccum env _).ok hseal
      exact ⟨hflush.inOrder, hflush.perm⟩

theorem FileWriter.ok_init : ({} : FileWriter).Ok := by
  refine ⟨⟨List.Pairwise.nil, ?_, ?_, ?_⟩, List.Perm.refl _⟩
  · rintro r ⟨⟩
  · rintro l ⟨⟩
  · rintro o ⟨⟩

theorem FileWriter.ok_run (mask : UInt32) (env : Faults) (ops : List WriterOp) (w : FileWriter)
    (h : w.Ok) : (ops.foldl (fileWriterStep mask env) w).Ok := by
  induction ops generalizing w with
  | nil => exact h
  | cons op ops ih => exact ih _ (h.step mask env op)

end PgWaitTracer
