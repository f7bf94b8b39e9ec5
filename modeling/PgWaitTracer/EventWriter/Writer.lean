import PgWaitTracer.EventWriter.Recovery
import PgWaitTracer.Lib.Run

/-!
# The event writer

The trace writer (`src/event_writer.c`) holds up to `PGWT_BLOCK_EVENTS` transitions and as many
samples in two buffers and writes each buffer as one block. The buffer with the older first record
is written first, so each flush may run the other one, and each step of a block write can fail. What
the environment does to a block write is an input here (`BlockFaults`), and so is what it does to an
open, a finalisation and a rotation.

The writer carries three values that the code does not have: the records its buffers accepted while
the current file was open, whether a record was ever stored outside its buffer, and what became of
the transitions (`TransitionLog`). No function reads them.
-/

namespace PgWaitTracer

open ByteCodec

/-! ### The environment -/

/-- How an `fflush` ends. When it fails the block stays in the stream for the next flush, or only
its first bytes do. -/
inductive FlushResult
  | done | kept | cut (k : ℕ)
  deriving DecidableEq, Repr

/-- What the environment does to one block write: LZ4 fails, the block index cannot grow, `fwrite`
stops after some bytes, `fflush` fails, the meta file cannot be written. -/
structure BlockFaults where
  lz4 : Bool := false
  grow : Bool := false
  write : Option ℕ := none
  flush : FlushResult := .done
  metaFile : Bool := false
  deriving DecidableEq, Repr

/-- What the environment does to a finalisation besides its block writes: the footer stops after
some bytes, `fflush` fails and leaves some bytes of the file, `fsync` fails, the flags are not
written, or they are written and not synced. -/
structure FinalizeFaults where
  footer : Option ℕ := none
  flush : Option ℕ := none
  fsync : Bool := false
  flags : Bool := false
  flagsSync : Bool := false
  deriving DecidableEq, Repr

/-- What opening a file meets: the clocks, whether a leftover file can be moved aside, whether the
new file can be created, and where the write of its header stops if it fails. -/
structure OpenCall where
  hour : ℤ := 0
  startTimeNs : UInt64 := 0
  clockOffsetNs : UInt64 := 0
  moved : Bool := true
  created : Bool := true
  header : Option ℕ := none
  deriving DecidableEq, Repr

/-! ### State -/

/-- The open `current.trace`: its contents, `file_flags`, the block index, and the records accepted
while it is open. -/
structure OpenFile where
  bytes : Bytes
  flags : UInt16
  index : List IndexEntry
  accepted : List TraceEvent
  deriving DecidableEq, Repr

/-- A file nobody writes any more, and the records accepted while it was open. -/
structure ClosedFile where
  bytes : Bytes
  accepted : List TraceEvent
  deriving DecidableEq, Repr

/-- What became of the transitions: those accepted so far, those in blocks that were written
completely and flushed, those in blocks that a failed flush left in the stream, and what the write
of each of their blocks met, with whether the block index was full. -/
structure TransitionLog where
  accepted : List TraceEvent := []
  flushed : List TraceEvent := []
  streamed : List TraceEvent := []
  met : List (BlockFaults × Bool) := []
  deriving DecidableEq, Repr

/-- A flush that succeeds brings out what is in the stream. -/
def TransitionLog.flush (l : TransitionLog) : TransitionLog :=
  { l with flushed := l.flushed ++ l.streamed, streamed := [] }

/-- The records of a complete block of transitions are in the stream. -/
def TransitionLog.stream (l : TransitionLog) (type : BlockType) (evs : List TraceEvent) :
    TransitionLog :=
  if type = .transitions then { l with streamed := l.streamed ++ evs } else l

/-- What the write of a block of transitions meets. -/
def TransitionLog.meet (l : TransitionLog) (type : BlockType) (e : BlockFaults) (full : Bool) :
    TransitionLog :=
  if type = .transitions then { l with met := l.met ++ [(e, full)] } else l

/-- `struct pgwt_event_writer` and the files of its directory: `leftover` is a `current.trace` that
is closed, `archived` are the files under their final names, `metaBlocks` is the count in
`current.trace.meta`, 0 without one. `faults` is what the block writes of the call under way meet,
and `overran` says that a record was stored outside its buffer. -/
structure EventWriter where
  pgVersion : UInt32
  cpuMeasured : Bool
  enabled : Bool
  file : Option OpenFile
  events : List TraceEvent
  sampleBuf : List TraceEvent
  sampleBufType : BlockType
  sampleBufPeriodNs : UInt64
  sampleBufWeightNs : UInt64
  blockIndexCap : ℕ
  forceRotate : Bool
  currentHour : ℤ
  committedThroughNs : UInt64
  metaBlocks : ℕ
  leftover : Option ClosedFile
  archived : List ClosedFile
  faults : List BlockFaults
  overran : Bool
  log : TransitionLog := {}
  deriving DecidableEq, Repr

/-- The files of the directory that nobody writes any more. -/
def EventWriter.closedFiles (w : EventWriter) : List ClosedFile := w.archived ++ w.leftover.toList

/-- The writer `pgwt_writer_init` returns, in a directory without a leftover file. -/
def initWriter (pgVersion : UInt32) (cpuMeasured : Bool) : EventWriter where
  pgVersion := pgVersion
  cpuMeasured := cpuMeasured
  enabled := true
  file := none
  events := []
  sampleBuf := []
  sampleBufType := .transitions
  sampleBufPeriodNs := 0
  sampleBufWeightNs := 0
  blockIndexCap := 256
  forceRotate := false
  currentHour := -1
  committedThroughNs := 0
  metaBlocks := 0
  leftover := none
  archived := []
  faults := []
  overran := false

/-! ### Block writes -/

/-- `PGWT_MAX_FILE_BLOCKS`. -/
def maxFileBlocks : ℕ := 1024 * 1024

/-- The first timestamp of a batch. -/
def firstTs (evs : List TraceEvent) : UInt64 := (evs.head?.map (·.timestampNs)).getD 0

/-- The last timestamp of a batch. -/
def lastTs (evs : List TraceEvent) : UInt64 := (evs.getLast?.map (·.timestampNs)).getD 0

/-- What the next block write meets; without an entry it succeeds. -/
def EventWriter.nextFaults (w : EventWriter) : BlockFaults := w.faults.head?.getD {}

/-- The number of index entries of the open file. -/
def EventWriter.numBlocks (w : EventWriter) : ℕ := (w.file.map (·.index.length)).getD 0

/-- The block index is full. -/
def EventWriter.indexFull (w : EventWriter) : Bool := w.blockIndexCap ≤ w.numBlocks

/-- An index entry for a block that starts at the end of the file. -/
def OpenFile.addEntry (f : OpenFile) (ts : UInt64) : OpenFile :=
  { f with index := f.index ++ [⟨ts, UInt64.ofNat f.bytes.length⟩] }

/-- The contents of the file grow. -/
def OpenFile.append (f : OpenFile) (bs : Bytes) : OpenFile := { f with bytes := f.bytes ++ bs }

/-- The part of `write_typed_block` from the index entry on: the entry is recorded before the block
is written, and only a failed `fwrite` disables the writer. -/
def appendBlock (w : EventWriter) (f : OpenFile) (e : BlockFaults) (evs : List TraceEvent)
    (type : BlockType) (block : Bytes) : EventWriter × Bool :=
  let f := f.addEntry (firstTs evs)
  match e.write with
  | some k => ({ w with file := some (f.append (block.take k)), enabled := false }, false)
  | none =>
    let w := { w with committedThroughNs :=
      if type = BlockType.transitions then max w.committedThroughNs (lastTs evs)
      else w.committedThroughNs }
    match e.flush with
    | .done =>
      ({ w with
        file := some (f.append block),
        metaBlocks := if e.metaFile then w.metaBlocks else f.index.length,
        log := (w.log.stream type evs).flush }, true)
    | .kept => ({ w with file := some (f.append block), log := w.log.stream type evs }, false)
    | .cut k => ({ w with file := some (f.append (block.take k)) }, false)

/-- `write_typed_block` on the open file `f`, for at least one record. A failed compression leaves
the writer enabled; a block index that cannot grow disables it. -/
def writeBlock (lz : Lz4) (w : EventWriter) (f : OpenFile) (evs : List TraceEvent)
    (type : BlockType) (period : UInt64) : EventWriter × Bool :=
  let e := w.nextFaults
  let full : Bool := w.blockIndexCap ≤ f.index.length
  let w := { w with faults := w.faults.tail }
  match if e.lz4 then none else typedBlock lz type period evs with
  | none => ({ w with log := w.log.meet type { e with lz4 := true } full }, false)
  | some block =>
    let w := { w with
      forceRotate := w.forceRotate || maxFileBlocks ≤ f.index.length
      log := w.log.meet type e full }
    if w.blockIndexCap ≤ f.index.length then
      if e.grow then ({ w with enabled := false }, false)
      else appendBlock { w with blockIndexCap := w.blockIndexCap * 2 } f e evs type block
    else appendBlock w f e evs type block

/-- `write_typed_block`. -/
def writeTypedBlock (lz : Lz4) (w : EventWriter) (evs : List TraceEvent) (type : BlockType)
    (period : UInt64) : EventWriter × Bool :=
  match w.file with
  | none => (w, true)
  | some f => if evs = [] then (w, true) else writeBlock lz w f evs type period

/-- `flush_block_core`. The buffer is emptied whatever the write returns. -/
def flushBlockCore (lz : Lz4) (w : EventWriter) : EventWriter × Bool :=
  if w.events = [] ∨ w.file = none then (w, true)
  else
    let r := writeTypedBlock lz w w.events .transitions 0
    ({ r.1 with events := [] }, r.2)

/-- `flush_sample_buf`. The block period is the mean of the batched periods. -/
def flushSampleBuf (lz : Lz4) (w : EventWriter) : EventWriter × Bool :=
  if w.sampleBuf = [] ∨ w.file = none then (w, true)
  else
    let period := w.sampleBufWeightNs / UInt64.ofNat w.sampleBuf.length
    let r := writeTypedBlock lz w w.sampleBuf w.sampleBufType period
    ({ r.1 with sampleBuf := [], sampleBufWeightNs := 0, sampleBufPeriodNs := 0 }, r.2)

/-- The sample batch is older than the transitions, and goes first. -/
def EventWriter.samplesFirst (w : EventWriter) : Bool :=
  w.sampleBuf ≠ [] && w.events ≠ [] && firstTs w.sampleBuf < firstTs w.events

/-- The transitions are not younger than the sample batch, and go first. -/
def EventWriter.eventsFirst (w : EventWriter) : Bool :=
  w.events ≠ [] && w.sampleBuf ≠ [] && firstTs w.events ≤ firstTs w.sampleBuf

/-- `flush_block`. When an older sample batch fails, the transitions are not written. -/
def flushBlock (lz : Lz4) (w : EventWriter) : EventWriter × Bool :=
  if w.samplesFirst then
    let r := flushSampleBuf lz w
    if r.2 then flushBlockCore lz r.1 else r
  else flushBlockCore lz w

/-- `flush_samples`. -/
def flushSamples (lz : Lz4) (w : EventWriter) : EventWriter × Bool :=
  if w.eventsFirst then
    let r := flushBlockCore lz w
    if r.2 then flushSampleBuf lz r.1 else r
  else flushSampleBuf lz w

/-! ### Opening -/

/-- Recovery of a leftover `current.trace` from inside `open_trace_file`: the file is archived, set
aside or removed, or stays in place when it cannot be moved. -/
def recoverLeftover (w : EventWriter) (moved : Bool) : EventWriter :=
  match w.leftover with
  | none => w
  | some f =>
    let r := recoverCurrentTrace f.bytes w.metaBlocks
    match r.kind with
    | .removed => { w with leftover := none, metaBlocks := 0 }
    | .corrupt =>
      if moved then { w with leftover := none, archived := w.archived ++ [f], metaBlocks := 0 }
      else { w with metaBlocks := 0 }
    | .archived =>
      if moved then
        { w with leftover := none, archived := w.archived ++ [⟨r.file, f.accepted⟩],
                 metaBlocks := 0 }
      else { w with leftover := some ⟨r.file, f.accepted⟩ }

/-- The header of a new file. -/
def newHeader (pgVersion : UInt32) (call : OpenCall) : FileHeader where
  magic := traceMagic
  version := traceVersion
  flags := flagLz4 ||| flagClosureTracked
  pgVersion := pgVersion
  startTimeNs := call.startTimeNs
  clockOffsetNs := call.clockOffsetNs

/-- `open_trace_file`: a `current.trace` that exists is recovered, never truncated. -/
def openTraceFile (w : EventWriter) (call : OpenCall) : EventWriter × Bool :=
  let w := recoverLeftover w call.moved
  if w.leftover.isSome ∨ !call.created then (w, false)
  else
    let hdr := newHeader w.pgVersion call
    match call.header with
    | some k =>
      ({ w with leftover := some ⟨hdr.bytes.take k, []⟩, currentHour := call.hour }, false)
    | none =>
      ({ w with file := some ⟨hdr.bytes, hdr.flags, [], []⟩, currentHour := call.hour }, true)

/-- The lazy open of the push functions: a failure disables the writer. -/
def ensureOpen (w : EventWriter) (call : OpenCall) : EventWriter × Bool :=
  match w.file with
  | some _ => (w, true)
  | none =>
    let r := openTraceFile w call
    if r.2 then r else ({ r.1 with enabled := false }, false)

/-! ### The calls -/

/-- The record as it is stored: without CPU accounting its CPU time is unknown. -/
def EventWriter.stamp (w : EventWriter) (ev : TraceEvent) : TraceEvent :=
  if w.cpuMeasured then ev else { ev with cpuNs := cpuNsUnknown }

/-- Records accepted while the current file is open. -/
def OpenFile.accept (f : OpenFile) (evs : List TraceEvent) : OpenFile :=
  { f with accepted := f.accepted ++ evs }

/-- Store a transition in its buffer. -/
def storeEvent (w : EventWriter) (ev : TraceEvent) : EventWriter :=
  { w with
    events := w.events ++ [w.stamp ev]
    file := w.file.map (·.accept [w.stamp ev])
    overran := w.overran || blockEvents ≤ w.events.length
    log := { w.log with accepted := w.log.accepted ++ [w.stamp ev] } }

/-- `pgwt_writer_push_event`. -/
def pushEvent (lz : Lz4) (w : EventWriter) (ev : TraceEvent) (call : OpenCall) :
    EventWriter × Bool :=
  if !w.enabled then (w, true)
  else
    let r := ensureOpen w call
    if !r.2 then r
    else
      let w := storeEvent r.1 ev
      if blockEvents ≤ w.events.length then flushBlock lz w else (w, true)

/-- Store samples in their buffer. The first ones set the type and the period of the batch. -/
def storeSamples (w : EventWriter) (samples : List TraceEvent) (period : UInt64) : EventWriter :=
  { w with
    sampleBufType := if w.sampleBuf = [] then .samples else w.sampleBufType
    sampleBufPeriodNs := if w.sampleBuf = [] then period else w.sampleBufPeriodNs
    sampleBuf := w.sampleBuf ++ samples
    sampleBufWeightNs := w.sampleBufWeightNs + UInt64.ofNat samples.length * period
    file := w.file.map (·.accept samples)
    overran := w.overran || blockEvents < w.sampleBuf.length + samples.length }

/-- A push whose period is more than 1/64 off the pending batch does not join it. -/
def EventWriter.incompatible (w : EventWriter) (period : UInt64) : Bool :=
  let p0 := w.sampleBufPeriodNs
  let diff := if p0 < period then period - p0 else p0 - period
  w.sampleBufType ≠ .samples || p0 / 64 < diff

/-- The loop of `pgwt_writer_push_samples` over the samples not stored yet. At most one round
stores nothing, so one more round than there are samples is enough. -/
def pushSampleLoop (lz : Lz4) (period : UInt64) : ℕ → EventWriter → List TraceEvent →
    EventWriter × Bool
  | 0, w, _ => (w, true)
  | fuel + 1, w, samples =>
    if samples = [] then (w, true)
    else
      let room := blockEvents - w.sampleBuf.length
      let w := storeSamples w (samples.take room) period
      if blockEvents ≤ w.sampleBuf.length then
        let r := flushSamples lz w
        if r.2 then pushSampleLoop lz period fuel r.1 (samples.drop room) else r
      else pushSampleLoop lz period fuel w (samples.drop room)

/-- A pending batch that the push cannot join is flushed first. -/
def flushIncompatible (lz : Lz4) (w : EventWriter) (period : UInt64) : EventWriter × Bool :=
  if w.sampleBuf ≠ [] ∧ w.incompatible period then flushSamples lz w else (w, true)

/-- `PGWT_SAMPLE_BATCH_NS`. -/
def sampleBatchNs : UInt64 := 1000000000

/-- The cut by time: a batch that spans a second is flushed. -/
def flushLongBatch (lz : Lz4) (w : EventWriter) : EventWriter × Bool :=
  if w.sampleBuf ≠ [] ∧ sampleBatchNs ≤ lastTs w.sampleBuf - firstTs w.sampleBuf then
    flushSamples lz w
  else (w, true)

/-- `pgwt_writer_push_samples`. -/
def pushSamples (lz : Lz4) (w : EventWriter) (samples : List TraceEvent) (period : UInt64)
    (call : OpenCall) : EventWriter × Bool :=
  if !w.enabled then (w, true)
  else if samples = [] then (w, true)
  else
    let r := ensureOpen w call
    if !r.2 then r
    else
      let r := flushIncompatible lz r.1 period
      if !r.2 then r
      else
        let r := pushSampleLoop lz period (samples.length + 1) r.1 samples
        if !r.2 then r else flushLongBatch lz r.1

/-- `pgwt_writer_publish`. -/
def publish (lz : Lz4) (w : EventWriter) : EventWriter × Bool :=
  if !w.enabled ∨ w.file = none then (w, true)
  else
    let r₁ := flushBlock lz w
    let r₂ := flushSampleBuf lz r₁.1
    (r₂.1, r₁.2 && r₂.2)

/-- `finalize_current_file` behind its two flushes, whose results are `ok`: every step is run, and
the terminal flag is written only when all of them succeeded. -/
def finishFile (f : OpenFile) (ok : Bool) (terminal : UInt16) (e : FinalizeFaults) :
    OpenFile × Bool :=
  let footer := match e.footer with
    | some k => (footerBytes f.index).take k
    | none => footerBytes f.index
  let bytes := match e.flush with
    | some k => (f.bytes ++ footer).take k
    | none => f.bytes ++ footer
  if ok && e.footer.isNone && e.flush.isNone && !e.fsync then
    let flags := f.flags ||| terminal
    ({ f with flags := flags, bytes := if e.flags then bytes else writeHeaderFlags bytes flags },
      !e.flags && !e.flagsSync)
  else ({ f with bytes := bytes }, false)

/-- `finalize_current_file`. -/
def finalizeCurrentFile (lz : Lz4) (w : EventWriter) (terminal : UInt16) (e : FinalizeFaults) :
    EventWriter × Bool :=
  let r₁ := flushBlock lz w
  let r₂ := flushSamples lz r₁.1
  match r₂.1.file with
  | none => (r₂.1, false)
  | some f =>
    let r := finishFile f (r₁.2 && r₂.2) terminal e
    let log := if e.flush.isNone then r₂.1.log.flush else { r₂.1.log with streamed := [] }
    ({ r₂.1 with file := some r.1, log := log }, r.2)

/-- The file is closed and stays in place as `current.trace`. -/
def leaveFile (w : EventWriter) : EventWriter :=
  { w with leftover := w.file.map fun f => ⟨f.bytes, f.accepted⟩, file := none }

/-- The file is closed and gets its final name. -/
def archiveFile (w : EventWriter) : EventWriter :=
  { w with
    archived := w.archived ++ (w.file.map fun f => ⟨f.bytes, f.accepted⟩).toList
    file := none }

/-- `pgwt_writer_check_rotation`, at an hour of the wall clock. -/
def checkRotation (lz : Lz4) (w : EventWriter) (hour : ℤ) (e : FinalizeFaults) (renamed : Bool) :
    EventWriter :=
  if !w.enabled ∨ w.file = none then w
  else if hour = w.currentHour ∧ !w.forceRotate then w
  else
    let w := (finalizeCurrentFile lz w flagRotated e).1
    let w := if renamed then archiveFile w else leaveFile w
    { w with metaBlocks := 0, forceRotate := false }

/-- `pgwt_writer_close`: the file stays in place, for the next start to archive. -/
def closeWriter (lz : Lz4) (w : EventWriter) (e : FinalizeFaults) : EventWriter :=
  if w.file = none then w
  else leaveFile (finalizeCurrentFile lz w flagClosedClean e).1

/-! ### Runs -/

/-- A call of the writer with what its block writes and its other system calls meet. -/
inductive WriterCall
  | pushEvent (ev : TraceEvent) (call : OpenCall) (faults : List BlockFaults)
  | pushSamples (samples : List TraceEvent) (period : UInt64) (call : OpenCall)
      (faults : List BlockFaults)
  | publish (faults : List BlockFaults)
  | checkRotation (hour : ℤ) (e : FinalizeFaults) (renamed : Bool) (faults : List BlockFaults)
  | close (e : FinalizeFaults) (faults : List BlockFaults)

/-- One call. -/
def writerStep (lz : Lz4) (w : EventWriter) : WriterCall → EventWriter
  | .pushEvent ev call faults => (pushEvent lz { w with faults := faults } ev call).1
  | .pushSamples samples period call faults =>
    (pushSamples lz { w with faults := faults } samples period call).1
  | .publish faults => (publish lz { w with faults := faults }).1
  | .checkRotation hour e renamed faults =>
    checkRotation lz { w with faults := faults } hour e renamed
  | .close e faults => closeWriter lz { w with faults := faults } e

end PgWaitTracer
