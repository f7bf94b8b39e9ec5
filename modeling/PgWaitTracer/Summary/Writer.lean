import PgWaitTracer.Summary.Tables

/-!
# The summary writer

The writer files every record of the stream in the record of a second (`src/summary_writer.c`). A
second that is written is never opened again, so a late record goes to the second that is open. The
producer also says which interval each backend has open; as a second is written, the share of it that
an open interval takes is credited to it, and the record that closes the interval later files only
what is left (`src/summary_writer.h`, the watermark rule).

Times are numbers of ns. The accumulator of a second is kept as the calls that filled it, and every
write succeeds.
-/

namespace PgWaitTracer

/-! ### Open intervals -/

/-- `PGWT_NS_PER_SEC`. -/
def nsPerSec : ℕ := 1000000000

/-- `PGWT_SUMMARY_OPEN_STALE_NS`. -/
def openStaleNs : ℕ := 3000000000

/-- `PGWT_SUMMARY_FLUSH_LAG_NS`. -/
def flushLagNs : ℕ := 100000000

/-- `PGWT_SUMMARY_OPEN_FILL_MAX_SECONDS`. -/
def openFillMaxSeconds : ℕ := 3600

/-- `SUMMARY_MAX_OPEN`. -/
def summaryMaxOpen : ℕ := 1024

/-- The wall credit of the interval before, saved when a note replaces it. -/
structure SavedWall where
  startNs : ℕ
  we : UInt32
  creditedNs : ℕ
  deriving DecidableEq, Repr

/-- The frozen CPU state of the interval before. -/
structure SavedCpu where
  startNs : ℕ
  we : UInt32
  effWe : UInt32
  tierKnown : Bool
  creditedNs : UInt64
  deriving DecidableEq, Repr

/-- `struct pgwt_summary_open`. The saved states are `prev`, there if they are valid. -/
structure OpenInterval where
  pid : UInt32
  we : UInt32 := 0
  startNs : ℕ := 0
  creditedUntilNs : ℕ := 0
  creditedNs : ℕ := 0
  notedNs : ℕ := 0
  cpuSlot : Bool := false
  cpuFrozen : Bool := false
  cpuTierKnown : Bool := false
  cpuEffWe : UInt32 := 0
  cpuPrefixNs : UInt64 := 0
  cpuCreditedNs : UInt64 := 0
  prevWall : Option SavedWall := none
  prevCpu : Option SavedCpu := none
  deriving DecidableEq, Repr

/-- `open_creditable`. -/
def OpenInterval.creditable (o : OpenInterval) : Bool := o.we ≠ 0 || o.cpuSlot

/-- The wall credit is saved if there is any. -/
def OpenInterval.saveWall (o : OpenInterval) : OpenInterval :=
  if 0 < o.creditedNs ∧ o.startNs ≠ 0 then
    { o with prevWall := some ⟨o.startNs, o.we, o.creditedNs⟩ }
  else o

/-- The CPU state is saved if a second of it is written. -/
def OpenInterval.saveCpu (o : OpenInterval) : OpenInterval :=
  if o.cpuSlot ∧ o.cpuFrozen then
    { o with prevCpu := some ⟨o.startNs, o.we, o.cpuEffWe, o.cpuTierKnown, o.cpuCreditedNs⟩ }
  else o

/-- `open_stop_crediting`: the watermark stays. -/
def OpenInterval.stopCrediting (o : OpenInterval) : OpenInterval :=
  { o.saveWall.saveCpu with
    we := 0
    cpuSlot := false
    cpuFrozen := false
    cpuTierKnown := false
    cpuEffWe := 0
    cpuPrefixNs := cpuNsUnknown
    cpuCreditedNs := 0 }

/-- The credit of an interval starts where the watermark of the backend stands, if that is past its
start. -/
def OpenInterval.precharge (o : OpenInterval) (startNs : ℕ) : OpenInterval :=
  { o with creditedNs := o.creditedUntilNs - startNs, startNs := startNs }

/-- `credit_open_cpu_measured`: the measurement that fits into a share of the second. -/
def OpenInterval.cpuCredit (o : OpenInterval) (slice : ℕ) : UInt64 :=
  if o.cpuPrefixNs = cpuNsUnknown then 0
  else if o.cpuPrefixNs ≤ o.cpuCreditedNs then 0
  else min (o.cpuPrefixNs - o.cpuCreditedNs) (UInt64.ofNat slice)

/-- The share of a second for an interval that waits. -/
def OpenInterval.creditWait (o : OpenInterval) (endNs slice : ℕ) : OpenInterval × List AccumCall :=
  ({ o with creditedNs := o.creditedNs + slice, creditedUntilNs := endNs },
    [.openCredit o.pid o.we (UInt64.ofNat slice) 0 false])

/-- The share of a second for an interval on CPU: the first one freezes class and tier. -/
def OpenInterval.creditCpu (mask : UInt32) (o : OpenInterval) (endNs slice : ℕ) :
    OpenInterval × List AccumCall :=
  let tier := if o.cpuFrozen then o.cpuTierKnown else o.cpuPrefixNs ≠ cpuNsUnknown
  let measured := tier && !isIdleEvent mask o.cpuEffWe
  let m := if measured then o.cpuCredit slice else 0
  let scalars : List AccumCall :=
    if isIdleEvent mask o.cpuEffWe then []
    else if tier then [.openCpu m 0 1]
    else [.openCpu 0 (UInt64.ofNat slice) 0]
  ({ o with
      cpuFrozen := true
      cpuTierKnown := tier
      cpuCreditedNs := o.cpuCreditedNs + m
      creditedNs := o.creditedNs + slice
      creditedUntilNs := endNs },
    .openCredit o.pid o.cpuEffWe (UInt64.ofNat slice) m measured :: scalars)

/-- Where the credit for a second ends: at close no later than the last note. -/
def OpenInterval.creditEnd (o : OpenInterval) (sec : ℕ) (closing : Bool) : ℕ :=
  if closing ∧ o.notedNs < sec + nsPerSec then o.notedNs else sec + nsPerSec

/-- Where the credit of an interval starts. -/
def OpenInterval.creditFrom (o : OpenInterval) : ℕ := max o.startNs o.creditedUntilNs

/-- The body of `credit_open_second`, for one slot. What lies before the second is left to the record
that closes the interval. -/
def OpenInterval.creditSecond (mask : UInt32) (sec : ℕ) (closing : Bool) (o : OpenInterval) :
    OpenInterval × List AccumCall :=
  if !o.creditable then (o, [])
  else if o.creditEnd sec closing ≤ sec then (o, [])
  else if o.notedNs + openStaleNs < o.creditEnd sec closing then (o.stopCrediting, [])
  else if o.creditEnd sec closing ≤ o.creditFrom then (o, [])
  else
    let slice := o.creditEnd sec closing - max o.creditFrom sec
    if o.cpuSlot then o.creditCpu mask (o.creditEnd sec closing) slice
    else o.creditWait (o.creditEnd sec closing) slice

/-! ### The writer -/

/-- `struct pgwt_summary_writer`. A slot of `open` is found by its pid, which it keeps. -/
structure SummaryWriter where
  second : Option ℕ := none
  calls : List AccumCall := []
  lastFlushed : Option ℕ := none
  records : List (ℕ × List AccumCall) := []
  opens : List OpenInterval := []
  fileOpened : Bool := false

/-- All calls, in the order they were made. -/
def SummaryWriter.allCalls (w : SummaryWriter) : List AccumCall :=
  w.records.flatMap Prod.snd ++ w.calls

/-- `open_slot`, to find a slot. -/
def SummaryWriter.openSlot (w : SummaryWriter) (pid : UInt32) : Option OpenInterval :=
  if pid = 0 then none else w.opens.find? fun o => o.pid = pid

/-- A slot is rewritten. -/
def SummaryWriter.modifySlot (w : SummaryWriter) (pid : UInt32) (f : OpenInterval → OpenInterval) :
    SummaryWriter :=
  { w with opens := w.opens.map fun o => if o.pid = pid then f o else o }

/-- `open_slot`, to create a slot if there is room. -/
def SummaryWriter.createSlot (w : SummaryWriter) (pid : UInt32) : SummaryWriter :=
  if pid = 0 ∨ (w.openSlot pid).isSome ∨ summaryMaxOpen ≤ w.opens.length then w
  else { w with opens := w.opens ++ [{ pid := pid }] }

/-- `flush_accum`, of an open accumulator. -/
def SummaryWriter.flushAccum (w : SummaryWriter) : SummaryWriter :=
  match w.second with
  | none => w
  | some sec =>
    { w with
      records := w.records ++ [(sec, w.calls)]
      lastFlushed := some sec
      second := none
      calls := [] }

/-- `credit_open_second`. -/
def SummaryWriter.creditOpenSecond (mask : UInt32) (w : SummaryWriter) (sec : ℕ) (closing : Bool) :
    SummaryWriter :=
  { w with
    opens := w.opens.map fun o => (o.creditSecond mask sec closing).1
    calls := w.calls ++ w.opens.flatMap fun o => (o.creditSecond mask sec closing).2 }

/-- The second of a time, but not one that is written. -/
def SummaryWriter.openSecondOf (w : SummaryWriter) (t : ℕ) : ℕ :=
  match w.lastFlushed with
  | some l => if t / nsPerSec * nsPerSec ≤ l then l + nsPerSec else t / nsPerSec * nsPerSec
  | none => t / nsPerSec * nsPerSec

/-- Is the note of a slot out of date, outside close. -/
def OpenInterval.expired (o : OpenInterval) (nowHint : ℕ) (closing : Bool) : Bool :=
  o.creditable && !closing && o.notedNs + openStaleNs < nowHint

/-- The second a slot wants to be credited in next. -/
def SummaryWriter.owedSecond (w : SummaryWriter) (closing : Bool) (o : OpenInterval) : Option ℕ :=
  if !o.creditable then none
  else
    let sec := w.openSecondOf o.creditFrom
    if closing ∧ (o.creditEnd sec closing ≤ sec ∨ o.creditEnd sec closing ≤ o.creditFrom) then none
    else some sec

/-- `earliest_open_second`: notes that are out of date are retired on the way. -/
def SummaryWriter.earliestOpenSecond (w : SummaryWriter) (nowHint : ℕ) (closing : Bool) :
    SummaryWriter × Option ℕ :=
  let retire := fun o : OpenInterval =>
    if o.expired nowHint closing then o.stopCrediting else o
  let w := { w with opens := w.opens.map retire }
  (w, (w.opens.filterMap (w.owedSecond closing)).min?)

/-- `writer_seal_through`: seconds before `toSec` are credited and written, `guard` of them at
most. -/
def SummaryWriter.sealThrough (mask : UInt32) :
    ℕ → SummaryWriter → ℕ → Bool → SummaryWriter
  | 0, w, _, _ => w
  | guard + 1, w, toSec, closing =>
    match w.second with
    | some sec =>
      if toSec ≤ sec then w
      else if !w.fileOpened then w
      else sealThrough mask guard (w.creditOpenSecond mask sec closing).flushAccum toSec closing
    | none =>
      let (w, owed) := w.earliestOpenSecond toSec closing
      match owed with
      | none => w
      | some sec =>
        if toSec ≤ sec then w
        else if !w.fileOpened then w
        else sealThrough mask guard
          (({ w with second := some sec }).creditOpenSecond mask sec closing).flushAccum toSec closing

/-! ### Notes and ticks -/

/-- `struct pgwt_summary_open_cpu`: what the producer measured of an open interval on CPU. -/
structure OpenCpu where
  effWe : UInt32
  cpuPrefixNs : UInt64
  deriving DecidableEq, Repr

/-- A note for an interval on CPU. Without a measurement the interval is not credited. -/
def OpenInterval.noteCpu (o : OpenInterval) (startNs : ℕ) (cpu : Option OpenCpu) : OpenInterval :=
  match cpu with
  | none => { o.stopCrediting with startNs := startNs }
  | some cpu =>
    let eff := if cpu.effWe ≠ 0 ∧ cpu.effWe ≠ weiNoncmdCpu then 0 else cpu.effWe
    let o := if !o.cpuSlot ∨ o.we ≠ 0 ∨ o.startNs ≠ startNs then
        { o.stopCrediting.precharge startNs with cpuSlot := true }
      else o
    { o with
      cpuEffWe := if o.cpuFrozen then o.cpuEffWe else eff
      cpuPrefixNs := cpu.cpuPrefixNs }

/-- A note for an interval that waits. -/
def OpenInterval.noteWait (o : OpenInterval) (we : UInt32) (startNs : ℕ) : OpenInterval :=
  let o := if o.cpuSlot then o.stopCrediting else o
  if o.we ≠ we ∨ o.startNs ≠ startNs then { o.saveWall.precharge startNs with we := we } else o

/-- `pgwt_summary_note_open_ex`: the backend has an interval open, at `nowNs`. Without a measurement
it is `pgwt_summary_note_open`. -/
def summaryNoteOpenEx (w : SummaryWriter) (pid we : UInt32) (startNs : ℕ) (catFlag : UInt32) (nowNs : ℕ)
    (cpu : Option OpenCpu) : SummaryWriter :=
  if pid = 0 then w
  else if catFlag &&& flagIoWorker ≠ 0 then w.modifySlot pid OpenInterval.stopCrediting
  else (w.createSlot pid).modifySlot pid fun o =>
    let o := { o with notedNs := nowNs }
    if waitClassIndex we = .cpu then o.noteCpu startNs cpu else o.noteWait we startNs

/-- `pgwt_summary_flush_completed`: every second that is over by more than the lag is written. -/
def summaryFlushCompleted (mask : UInt32) (w : SummaryWriter) (nowNs : ℕ) : SummaryWriter :=
  if nowNs < nsPerSec + flushLagNs then w
  else w.sealThrough mask openFillMaxSeconds
    ((nowNs - flushLagNs - nsPerSec) / nsPerSec * nsPerSec + nsPerSec) false

/-! ### Records of the stream -/

/-- A share of time of a query that was put off until the query was known. -/
structure DeferredQuery where
  queryId : UInt64
  ev : UInt32
  count : UInt64
  totalNs : UInt64
  longestNs : UInt64
  deriving DecidableEq, Repr

/-- A record of the stream as it comes to the writer, with what `summary_qattr_step` makes of it: the
query it is filed under, and what was put off and is known now. -/
structure PushedEvent where
  evt : TraceEvent
  catFlag : UInt32
  effEvent : UInt32
  queryId : UInt64
  deferred : List DeferredQuery

/-- `PGWT_SUMMARY_EFF_UNRESOLVED`. -/
def effUnresolved : UInt32 := 0xFFFFFFFF

/-- The effective id, which is the id of the record or the one of time outside commands. -/
def PushedEvent.eff (p : PushedEvent) : UInt32 :=
  if p.effEvent = effUnresolved then p.evt.oldEvent
  else if p.effEvent ≠ p.evt.oldEvent ∧ p.effEvent ≠ weiNoncmdCpu then p.evt.oldEvent
  else p.effEvent

/-- The record is of an I/O worker. -/
def PushedEvent.ioWorker (p : PushedEvent) : Bool := p.catFlag &&& flagIoWorker ≠ 0

/-- The start of the interval a record closes. -/
def eventStartNs (evt : TraceEvent) : ℕ := evt.timestampNs.toNat - evt.durationNs.toNat

/-- Markers and exits are not intervals. -/
def notInterval (evt : TraceEvent) : Bool := isMarker evt.oldEvent || evt.oldEvent = eventExit

/-- The slot describes the interval that the record closes: same id, same start. -/
def OpenInterval.describes (o : OpenInterval) (evt : TraceEvent) : Bool :=
  o.we = evt.oldEvent && o.startNs = eventStartNs evt

/-- The wall credit that the slot has for the interval the record closes: its own, the one that was
saved, or what the watermark says. -/
def OpenInterval.wallCredit (o : OpenInterval) (evt : TraceEvent) : ℕ :=
  if o.describes evt then o.creditedNs
  else match o.prevWall with
    | some p => if p.startNs = eventStartNs evt ∧ p.we = evt.oldEvent then p.creditedNs
        else o.creditedUntilNs - eventStartNs evt
    | none => o.creditedUntilNs - eventStartNs evt

/-- The frozen CPU state of the interval that the record closes. -/
def OpenInterval.cpuCtx (o : OpenInterval) (evt : TraceEvent) : Option SavedCpu :=
  if o.describes evt then
    if o.cpuSlot ∧ o.cpuFrozen then
      some ⟨o.startNs, o.we, o.cpuEffWe, o.cpuTierKnown, o.cpuCreditedNs⟩
    else none
  else o.prevCpu.filter fun p => p.startNs = eventStartNs evt && p.we = evt.oldEvent

/-- What the slot of the backend has for the record. -/
def OpenInterval.closeCtx (o : OpenInterval) (evt : TraceEvent) : AccumCloseCtx :=
  let already := UInt64.ofNat (min (o.wallCredit evt) evt.durationNs.toNat)
  match o.cpuCtx evt with
  | some p => ⟨already, p.creditedNs, p.effWe, true, !p.tierKnown⟩
  | none => { alreadyNs := already }

/-- The slot after the record: nothing is open until the next note. -/
def OpenInterval.close (o : OpenInterval) (evt : TraceEvent) : OpenInterval :=
  { o.stopCrediting with
    prevWall := none
    prevCpu := none
    startNs := evt.timestampNs.toNat
    creditedNs := 0 }

/-- `pgwt_summary_forget_open`, for a slot. -/
def OpenInterval.forget (o : OpenInterval) : OpenInterval :=
  { o.stopCrediting with
    prevWall := none
    prevCpu := none
    startNs := 0
    creditedUntilNs := 0
    creditedNs := 0
    notedNs := 0 }

/-- What is credited already of the interval that a record closes. -/
def SummaryWriter.closeCtx (w : SummaryWriter) (evt : TraceEvent) : AccumCloseCtx :=
  if notInterval evt then {}
  else match w.openSlot evt.pid with
    | some o => o.closeCtx evt
    | none => {}

/-- The slot of the backend is closed by a record, and forgotten at exit. -/
def SummaryWriter.closeSlot (w : SummaryWriter) (evt : TraceEvent) : SummaryWriter :=
  let w := if notInterval evt then w else w.modifySlot evt.pid (·.close evt)
  if evt.newEvent = eventExit ∨ evt.oldEvent = eventExit then
    w.modifySlot evt.pid OpenInterval.forget
  else w

/-- A second is open for the record. -/
def SummaryWriter.startSecond (w : SummaryWriter) (sec : ℕ) : SummaryWriter :=
  let w := match w.second with
    | some cur => if cur < sec then w.flushAccum else w
    | none => w
  { w with second := some (w.second.getD sec) }

/-- `pgwt_summary_push_event`. -/
def summaryPushEvent (mask : UInt32) (w : SummaryWriter) (p : PushedEvent) : SummaryWriter :=
  let w := { w with fileOpened := true }
  let sec := w.openSecondOf p.evt.timestampNs.toNat
  let w := (w.sealThrough mask openFillMaxSeconds sec false).startSecond sec
  let deferred := if p.ioWorker then [] else p.deferred.map fun d =>
    AccumCall.queryAdd d.queryId d.ev d.count d.totalNs d.longestNs
  let close := AccumCall.event p.evt p.queryId p.ioWorker p.eff (w.closeCtx p.evt)
  let w := w.closeSlot p.evt
  { w with calls := w.calls ++ deferred ++ [close] }

end PgWaitTracer
