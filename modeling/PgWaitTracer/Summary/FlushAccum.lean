import PgWaitTracer.EventWriter.Writer
import PgWaitTracer.Summary.Reader
import PgWaitTracer.Summary.Writer

/-!
# The file of the summary writer

`flush_accum` (`src/summary_writer.c`) writes the open second as one block: the counts of its tables
in a header, and the compressed tables. It enters the block into the index of the file before it
writes it. A second that could not be written stays open for the next attempt, and the index is
written behind the blocks when the file is closed.

What a flush meets is given with it: the header of the file cannot be moved, the compression fails,
the index cannot grow, a write stops after some bytes, or the stream loses some.

## Main results

* `flushAccum_allOrNothing`: what a failed flush leaves, and the files of a run.
* `flushAccum_tornWrite`: a write that fails enters its second twice.
-/

namespace PgWaitTracer

open ByteCodec

/-! ### Blocks -/

/-- The accumulator of a second: the second by the clock of the events and by the wall clock. -/
structure SummarySecond where
  monoNs : ℕ
  wallNs : UInt64
  acc : SummaryAccum

/-- The block of a second. The serializer refuses a buffer that is too small, and LZ4 may fail. -/
def summaryBlockOf (lz : Lz4) (encodeBufSize : ℕ) (wallNs : UInt64) (acc : SummaryAccum) :
    Option Bytes :=
  let payload := summarySerialize acc encodeBufSize
  if payload = [] then none
  else (lz.compress payload (lz4CompressBound encodeBufSize)).map fun compressed =>
    SummaryBlockHeader.bytes ⟨wallNs, acc.entryCounts, UInt32.ofNat compressed.length,
      UInt32.ofNat payload.length⟩ ++ compressed

/-! ### What fails -/

/-- How the header of the file is moved: as a whole, not at all, or some of its bytes, with the file
position left behind them. -/
inductive WidenResult
  | done | refused | cut (k : ℕ)
  deriving DecidableEq, Repr

/-- What the environment does to one flush. A failed write has written some bytes. -/
structure SummaryFlushFaults where
  widen : WidenResult := .done
  lz4 : Bool := false
  grow : Bool := false
  tell : Bool := false
  write : Option ℕ := none
  flush : FlushResult := .done
  deriving DecidableEq, Repr

/-- What the environment does to the end of a file: the footer stops after some bytes, or the stream
loses all but some bytes of the file. -/
structure SummaryEndFaults where
  footer : Option ℕ := none
  flush : Option ℕ := none
  deriving DecidableEq, Repr

/-- No file operation of the flush loses bytes or its position. -/
structure SummaryFlushFaults.Spares (e : SummaryFlushFaults) : Prop where
  widen : ∀ k, e.widen ≠ .cut k
  tell : e.tell = false
  write : e.write = none
  flush : ∀ k, e.flush ≠ .cut k

/-! ### The writer -/

/-- The open file: its bytes, its position, and what its header says about its start. -/
structure SummaryFile where
  bytes : Bytes
  pos : ℕ
  startWallNs : UInt64
  startMonoNs : UInt64

/-- `fwrite` at the position. -/
def SummaryFile.write (f : SummaryFile) (data : Bytes) : SummaryFile :=
  { f with
    bytes := f.bytes.take f.pos ++ data ++ f.bytes.drop (f.pos + data.length)
    pos := f.pos + data.length }

/-- `widen_file_start`: the header of the file does not start behind the second. -/
def SummaryFile.widenStart (f : SummaryFile) (wallNs : UInt64) (e : WidenResult) : SummaryFile :=
  if wallNs = 0 ∨ f.startWallNs ≤ wallNs then f
  else
    let delta := f.startWallNs - wallNs
    if f.startMonoNs < delta then f
    else
      let start := encodeU64 wallNs ++ encodeU64 (f.startMonoNs - delta)
      match e with
      | .done =>
        { ({ f with pos := 12 }).write start with
          pos := f.pos
          startWallNs := wallNs
          startMonoNs := f.startMonoNs - delta }
      | .refused => f
      | .cut k => ({ f with pos := 12 }).write (start.take k)

/-- A file nobody writes any more, the entries of its index, and the seconds whose flush succeeded
while it was open. -/
structure ClosedSummary where
  bytes : Bytes
  index : List IndexEntry
  flushed : List SummarySecond

/-- The writer with its file, the accumulator, and the files that it has closed. -/
structure SummaryFileWriter where
  enabled : Bool := true
  encodeBufSize : ℕ := summarySerializeMax
  blockIndexCap : ℕ := 4096
  clockPinned : Bool := false
  clockOffsetWallNs : UInt64 := 0
  clockOffsetMonoNs : UInt64 := 0
  file : Option SummaryFile := none
  index : List IndexEntry := []
  accum : Option SummarySecond := none
  lastFlushed : Option ℕ := none
  flushed : List SummarySecond := []
  closed : List ClosedSummary := []

namespace SummaryFileWriter

variable (w : SummaryFileWriter)

/-- `mono_to_wall`. -/
def monoToWall (monoNs : ℕ) : UInt64 :=
  w.clockOffsetWallNs + (UInt64.ofNat monoNs - w.clockOffsetMonoNs)

/-- `open_summary_file`. -/
def openSummaryFile (wallNs monoNs : UInt64) (created header : Bool) : SummaryFileWriter × Bool :=
  if w.file.isSome then (w, true)
  else if !created then (w, false)
  else
    let w := if w.clockPinned then w
      else { w with clockOffsetWallNs := wallNs, clockOffsetMonoNs := monoNs }
    if !header then (w, false)
    else
      let hdr : FileHeader := ⟨summaryMagic, UInt16.ofNat summaryVersion, flagLz4, 0,
        w.clockOffsetWallNs, w.clockOffsetMonoNs⟩
      ({ w with
        file := some ⟨hdr.bytes, 28, w.clockOffsetWallNs, w.clockOffsetMonoNs⟩
        index := []
        flushed := [] }, true)

/-- The tables of the open second, which is the second of a time if none is open. -/
def accumulate (t : ℕ) (acc : SummaryAccum) : SummaryFileWriter :=
  match w.accum with
  | some s => { w with accum := some { s with acc := acc } }
  | none =>
    let sec := ({ lastFlushed := w.lastFlushed } : SummaryWriter).openSecondOf t
    { w with accum := some ⟨sec, w.monoToWall sec, acc⟩ }

/-- `flush_accum`. The entry of a block is in the index before the block is in the file, and the
result of `fflush` is not looked at. -/
def flushAccum (lz : Lz4) (e : SummaryFlushFaults) : SummaryFileWriter × Bool :=
  match w.accum, w.file with
  | some s, some f =>
    let f := f.widenStart s.wallNs e.widen
    let w := { w with file := some f }
    let wallNs := w.monoToWall s.monoNs
    match if e.lz4 then none else summaryBlockOf lz w.encodeBufSize wallNs s.acc with
    | none => (w, false)
    | some block =>
      if w.blockIndexCap ≤ w.index.length ∧ e.grow then ({ w with enabled := false }, false)
      else
        let w := { w with
          blockIndexCap :=
            if w.blockIndexCap ≤ w.index.length then w.blockIndexCap * 2 else w.blockIndexCap
          index := w.index ++
            [IndexEntry.mk wallNs (if e.tell then 0xFFFFFFFFFFFFFFFF else UInt64.ofNat f.pos)] }
        match e.write with
        | some k => ({ w with file := some (f.write (block.take k)), enabled := false }, false)
        | none =>
          let f := match e.flush with
            | .cut k => f.write (block.take k)
            | _ => f.write block
          ({ w with
            file := some f
            lastFlushed := some s.monoNs
            accum := none
            flushed := w.flushed ++ [{ s with wallNs := wallNs }] }, true)
  | _, _ => (w, true)

/-- `write_footer` and the end of the file. -/
def endFile (e : SummaryEndFaults) : SummaryFileWriter :=
  match w.file with
  | none => w
  | some f =>
    let footer := match e.footer with
      | some k => (footerBytes w.index).take k
      | none => footerBytes w.index
    let f := f.write footer
    let bytes := match e.flush with
      | some k => f.bytes.take k
      | none => f.bytes
    { w with file := none, closed := w.closed ++ [⟨bytes, w.index, w.flushed⟩] }

/-- `pgwt_summary_check_rotation` in a new hour. A second that cannot be written is discarded. -/
def checkRotation (lz : Lz4) (e : SummaryFlushFaults) (fin : SummaryEndFaults) :
    SummaryFileWriter :=
  if !w.enabled ∨ w.file.isNone then w
  else
    match w.flushAccum lz e with
    | (w, true) => w.endFile fin
    | (w, false) => ({ w with accum := none }).endFile fin

/-- `pgwt_summary_close`, behind the seconds that it seals. -/
def close (lz : Lz4) (e : SummaryFlushFaults) (fin : SummaryEndFaults) : SummaryFileWriter :=
  if w.file.isNone then w else (w.flushAccum lz e).1.endFile fin

end SummaryFileWriter

/-- What is done to the file, in an order that the entry points of the writer choose. -/
inductive SummaryFileOp
  | openFile (wallNs monoNs : UInt64) (created header : Bool)
  | accumulate (t : ℕ) (acc : SummaryAccum)
  | flush (e : SummaryFlushFaults)
  | checkRotation (e : SummaryFlushFaults) (fin : SummaryEndFaults)
  | close (e : SummaryFlushFaults) (fin : SummaryEndFaults)

/-- The writer after an operation. -/
def summaryFileStep (lz : Lz4) (w : SummaryFileWriter) : SummaryFileOp → SummaryFileWriter
  | .openFile wallNs monoNs created header => (w.openSummaryFile wallNs monoNs created header).1
  | .accumulate t acc => w.accumulate t acc
  | .flush e => (w.flushAccum lz e).1
  | .checkRotation e fin => w.checkRotation lz e fin
  | .close e fin => w.close lz e fin

/-- No file operation loses bytes or its position, but the footer may be cut off. -/
def SummaryFileOp.Spares : SummaryFileOp → Prop
  | .openFile .. => True
  | .accumulate .. => True
  | .flush e => e.Spares
  | .checkRotation e fin => e.Spares ∧ fin.flush = none
  | .close e fin => e.Spares ∧ fin.flush = none

/-! ### A flush that fails -/

/-- The accumulated second, the second flushed last and the index are as they were. -/
structure SummaryFileWriter.KeepsSecond (w w' : SummaryFileWriter) : Prop where
  accum : w'.accum = w.accum
  lastFlushed : w'.lastFlushed = w.lastFlushed
  index : w'.index = w.index

/-- The flush comes to write its block, and the write fails. -/
structure SummaryFileWriter.FailsWriting (w : SummaryFileWriter) (lz : Lz4)
    (e : SummaryFlushFaults) : Prop where
  opened : w.file.isSome
  encodes : ∃ s, w.accum = some s ∧
    (summaryBlockOf lz w.encodeBufSize (w.monoToWall s.monoNs) s.acc).isSome
  lz4 : e.lz4 = false
  grows : ¬(w.blockIndexCap ≤ w.index.length ∧ e.grow)
  write : e.write ≠ none

namespace SummaryFileWriter

variable {lz : Lz4} {w : SummaryFileWriter} {e : SummaryFlushFaults} {s : SummarySecond}
  {f : SummaryFile} {block : Bytes}

theorem flushAccum_idle (h : w.accum = none ∨ w.file = none) : w.flushAccum lz e = (w, true) := by
  rw [flushAccum]
  split
  · next s f hs hf => rcases h with h | h <;> simp_all
  · rfl

theorem flushAccum_unencoded (hs : w.accum = some s) (hf : w.file = some f)
    (h : (if e.lz4 then none
      else summaryBlockOf lz w.encodeBufSize (w.monoToWall s.monoNs) s.acc) = none) :
    w.flushAccum lz e = ({ w with file := some (f.widenStart s.wallNs e.widen) }, false) := by
  simp only [flushAccum, hs, hf]
  simp only [monoToWall] at h ⊢
  simp only [h]

/-- The entry of a block. -/
def entryOf (w : SummaryFileWriter) (e : SummaryFlushFaults) (s : SummarySecond)
    (f : SummaryFile) : IndexEntry :=
  ⟨w.monoToWall s.monoNs, if e.tell then 0xFFFFFFFFFFFFFFFF
    else UInt64.ofNat (f.widenStart s.wallNs e.widen).pos⟩

theorem flushAccum_encoded (hs : w.accum = some s) (hf : w.file = some f) (hlz : e.lz4 = false)
    (h : summaryBlockOf lz w.encodeBufSize (w.monoToWall s.monoNs) s.acc = some block) :
    w.flushAccum lz e =
      let f' := f.widenStart s.wallNs e.widen
      if w.blockIndexCap ≤ w.index.length ∧ e.grow then
        ({ w with file := some f', enabled := false }, false)
      else
        let w' := { w with
          file := some f'
          blockIndexCap :=
            if w.blockIndexCap ≤ w.index.length then w.blockIndexCap * 2 else w.blockIndexCap
          index := w.index ++ [w.entryOf e s f] }
        match e.write with
        | some k => ({ w' with file := some (f'.write (block.take k)), enabled := false }, false)
        | none =>
          ({ w' with
            file := some (match e.flush with
              | .cut k => f'.write (block.take k)
              | _ => f'.write block)
            lastFlushed := some s.monoNs
            accum := none
            flushed := w.flushed ++ [{ s with wallNs := w.monoToWall s.monoNs }] }, true) := by
  simp only [flushAccum, hs, hf, hlz, Bool.false_eq_true, if_false]
  simp only [monoToWall] at h ⊢
  simp only [h, entryOf, monoToWall]

/-- **A flush that fails** leaves the second for the next attempt, unless the write of its block
failed. -/
theorem keepsSecond_iff (h : (w.flushAccum lz e).2 = false) :
    w.KeepsSecond (w.flushAccum lz e).1 ↔ ¬w.FailsWriting lz e := by
  rcases hs : w.accum with _ | s
  · rw [flushAccum_idle (Or.inl hs)] at h
    exact absurd h (by simp)
  rcases hf : w.file with _ | f
  · rw [flushAccum_idle (Or.inr hf)] at h
    exact absurd h (by simp)
  rcases hblock : if e.lz4 then none
      else summaryBlockOf lz w.encodeBufSize (w.monoToWall s.monoNs) s.acc with _ | block
  · rw [flushAccum_unencoded hs hf hblock]
    refine iff_of_true ⟨rfl, rfl, rfl⟩ fun hfails => ?_
    obtain ⟨s', hs', hsome⟩ := hfails.encodes
    obtain rfl := Option.some.inj (hs.symm.trans hs')
    rw [hfails.lz4, if_neg Bool.false_ne_true] at hblock
    rw [hblock] at hsome
    exact absurd hsome (by simp)
  have hlz : e.lz4 = false := by
    by_contra hlz
    rw [Bool.not_eq_false] at hlz
    rw [if_pos hlz] at hblock
    exact absurd hblock (by simp)
  rw [hlz, if_neg Bool.false_ne_true] at hblock
  rw [flushAccum_encoded hs hf hlz hblock] at h ⊢
  by_cases hgrow : w.blockIndexCap ≤ w.index.length ∧ e.grow
  · simp only [if_pos hgrow]
    exact iff_of_true ⟨rfl, rfl, rfl⟩ fun hfails => hfails.grows hgrow
  · simp only [if_neg hgrow] at h ⊢
    rcases hwrite : e.write with _ | k
    · rw [hwrite] at h
      exact absurd h (by simp)
    · refine iff_of_false (fun hkeeps => ?_) fun hfails => hfails ⟨by simp [hf], ⟨s, hs, ?_⟩, hlz,
        hgrow, by simp [hwrite]⟩
      · exact absurd hkeeps.index (by simp)
      · rw [hblock]
        rfl

end SummaryFileWriter

/-! ### Complete blocks -/

/-- The entry of a second points at its block, which is in the file as a whole. -/
structure CompleteSummaryBlock (lz : Lz4) (file : Bytes) (entry : IndexEntry) (s : SummarySecond) :
    Prop where
  timestampNs : entry.timestampNs = s.wallNs
  block : ∃ bufSize off block, summaryBlockOf lz bufSize s.wallNs s.acc = some block ∧
    entry.fileOffset = UInt64.ofNat off ∧ 28 ≤ off ∧ off + block.length ≤ file.length ∧
    block <+: file.drop off

/-- The entries of the index are those of the seconds that were written. -/
def ClosedSummary.Vouched (lz : Lz4) (f : ClosedSummary) : Prop :=
  List.Forall₂ (CompleteSummaryBlock lz f.bytes) f.index f.flushed

variable {lz : Lz4}

theorem CompleteSummaryBlock.append {file : Bytes} {entry : IndexEntry} {s : SummarySecond}
    (h : CompleteSummaryBlock lz file entry s) (rest : Bytes) :
    CompleteSummaryBlock lz (file ++ rest) entry s := by
  obtain ⟨hts, bufSize, off, block, hblock, hoff, hstart, hend, hprefix⟩ := h
  refine ⟨hts, bufSize, off, block, hblock, hoff, hstart, ?_, ?_⟩
  · rw [List.length_append]
    omega
  · rw [List.drop_append_of_le_length (by omega)]
    exact hprefix.trans (List.prefix_append _ _)

theorem CompleteSummaryBlock.header {file file' : Bytes} {entry : IndexEntry} {s : SummarySecond}
    (h : CompleteSummaryBlock lz file entry s) (hlen : file'.length = file.length)
    (hdrop : file'.drop 28 = file.drop 28) : CompleteSummaryBlock lz file' entry s := by
  obtain ⟨hts, bufSize, off, block, hblock, hoff, hstart, hend, hprefix⟩ := h
  refine ⟨hts, bufSize, off, block, hblock, hoff, hstart, by rw [hlen]; exact hend, ?_⟩
  have hsplit : ∀ l : Bytes, l.drop off = (l.drop 28).drop (off - 28) := fun l => by
    rw [List.drop_drop, Nat.add_sub_cancel' hstart]
  rw [hsplit, hdrop, ← hsplit]
  exact hprefix

/-! ### Runs without lost bytes -/

namespace SummaryFile

variable {f : SummaryFile}

/-- The position is the end of the file, which has its header. -/
structure AtEnd (f : SummaryFile) : Prop where
  pos : f.pos = f.bytes.length
  header : 28 ≤ f.bytes.length

theorem AtEnd.bytes_write (h : f.AtEnd) (data : Bytes) :
    (f.write data).bytes = f.bytes ++ data := by
  rw [write, h.pos, List.take_length, List.drop_eq_nil_of_le (Nat.le_add_right _ _),
    List.append_nil]

theorem AtEnd.write (h : f.AtEnd) (data : Bytes) : (f.write data).AtEnd := by
  refine ⟨?_, ?_⟩
  · rw [h.bytes_write, List.length_append, ← h.pos]
    rfl
  · rw [h.bytes_write, List.length_append]
    exact h.header.trans (Nat.le_add_right _ _)

theorem AtEnd.write_header (h : f.AtEnd) {data : Bytes} (hlen : data.length = 16) :
    (({ f with pos := 12 } : SummaryFile).write data).bytes.length = f.bytes.length ∧
      (({ f with pos := 12 } : SummaryFile).write data).bytes.drop 28 = f.bytes.drop 28 := by
  have hheader := h.header
  have htake : (f.bytes.take 12 ++ data).length = 28 := by
    rw [List.length_append, List.length_take, hlen]
    omega
  simp only [SummaryFile.write, hlen]
  refine ⟨?_, List.drop_left' htake⟩
  rw [List.length_append, htake, List.length_drop]
  omega

theorem AtEnd.widenStart (h : f.AtEnd) (wallNs : UInt64) {e : WidenResult}
    (he : ∀ k, e ≠ .cut k) :
    (f.widenStart wallNs e).AtEnd ∧
      (f.widenStart wallNs e).bytes.length = f.bytes.length ∧
      (f.widenStart wallNs e).bytes.drop 28 = f.bytes.drop 28 := by
  rw [SummaryFile.widenStart]
  simp only
  split_ifs
  · exact ⟨h, rfl, rfl⟩
  · exact ⟨h, rfl, rfl⟩
  · cases e with
    | done =>
      have hdata : (encodeU64 wallNs ++
          encodeU64 (f.startMonoNs - (f.startWallNs - wallNs))).length = 16 := by
        simp [encodeU64]
      obtain ⟨hlen, hdrop⟩ := h.write_header hdata
      exact ⟨⟨h.pos.trans hlen.symm, hlen ▸ h.header⟩, hlen, hdrop⟩
    | refused => exact ⟨h, rfl, rfl⟩
    | cut k => exact absurd rfl (he k)

end SummaryFile

/-- Every entry points at its block, in the open file and in the closed ones. -/
structure SummaryFileWriter.Sound (lz : Lz4) (w : SummaryFileWriter) : Prop where
  atEnd : ∀ f, w.file = some f → f.AtEnd
  blocks : ∀ f, w.file = some f → List.Forall₂ (CompleteSummaryBlock lz f.bytes) w.index w.flushed
  closed : ∀ f ∈ w.closed, f.Vouched lz

namespace SummaryFileWriter

variable {w : SummaryFileWriter}

theorem Sound.widenStart (h : w.Sound lz) {f : SummaryFile} (hf : w.file = some f)
    (wallNs : UInt64) {e : WidenResult} (he : ∀ k, e ≠ .cut k) :
    ({ w with file := some (f.widenStart wallNs e) } : SummaryFileWriter).Sound lz := by
  obtain ⟨hend, hlen, hdrop⟩ := (h.atEnd f hf).widenStart wallNs he
  refine ⟨?_, ?_, h.closed⟩
  · rintro g ⟨⟩
    exact hend
  · rintro g ⟨⟩
    exact (h.blocks f hf).imp fun _ _ hblock => hblock.header hlen hdrop

theorem Sound.complete {f : SummaryFile} (hend : f.AtEnd) {bufSize : ℕ} {s : SummarySecond}
    {block : Bytes} (hblock : summaryBlockOf lz bufSize s.wallNs s.acc = some block) :
    CompleteSummaryBlock lz (f.write block).bytes ⟨s.wallNs, UInt64.ofNat f.pos⟩ s := by
  refine ⟨rfl, bufSize, f.pos, block, hblock, rfl, hend.pos ▸ hend.header, ?_, ?_⟩
  · rw [hend.bytes_write, List.length_append, hend.pos]
  · rw [hend.bytes_write, hend.pos, List.drop_left]

theorem Sound.flushAccum (h : w.Sound lz) {e : SummaryFlushFaults} (he : e.Spares) :
    (w.flushAccum lz e).1.Sound lz := by
  rcases hs : w.accum with _ | s
  · rw [flushAccum_idle (Or.inl hs)]
    exact h
  rcases hf : w.file with _ | f
  · rw [flushAccum_idle (Or.inr hf)]
    exact h
  have hwiden := h.widenStart hf s.wallNs he.widen
  rcases hblock : if e.lz4 then none
      else summaryBlockOf lz w.encodeBufSize (w.monoToWall s.monoNs) s.acc with _ | block
  · rw [flushAccum_unencoded hs hf hblock]
    exact hwiden
  have hlz : e.lz4 = false := by
    by_contra hlz
    rw [Bool.not_eq_false] at hlz
    rw [if_pos hlz] at hblock
    exact absurd hblock (by simp)
  rw [hlz, if_neg Bool.false_ne_true] at hblock
  rw [flushAccum_encoded hs hf hlz hblock]
  simp only [he.write]
  by_cases hgrow : w.blockIndexCap ≤ w.index.length ∧ e.grow
  · rw [if_pos hgrow]
    exact ⟨hwiden.atEnd, hwiden.blocks, hwiden.closed⟩
  · rw [if_neg hgrow]
    -- the block is written behind the others and its entry points at it
    have hend := hwiden.atEnd _ rfl
    have hwritten : (match e.flush with
        | .cut k => (f.widenStart s.wallNs e.widen).write (block.take k)
        | _ => (f.widenStart s.wallNs e.widen).write block) =
          (f.widenStart s.wallNs e.widen).write block := by
      rcases hflush : e.flush with _ | _ | k
      · rfl
      · rfl
      · exact absurd hflush (he.flush k)
    rw [hwritten]
    refine ⟨?_, ?_, h.closed⟩
    · rintro g ⟨⟩
      exact hend.write block
    · rintro g ⟨⟩
      refine List.rel_append ((hwiden.blocks _ rfl).imp fun _ _ hold => ?_)
        (List.Forall₂.cons ?_ List.Forall₂.nil)
      · rw [hend.bytes_write]
        exact hold.append block
      · rw [entryOf, he.tell]
        exact Sound.complete (s := { s with wallNs := w.monoToWall s.monoNs }) hend hblock

theorem Sound.endFile (h : w.Sound lz) {fin : SummaryEndFaults} (hfin : fin.flush = none) :
    (w.endFile fin).Sound lz := by
  rw [SummaryFileWriter.endFile]
  split
  · exact h
  · next f hf =>
    refine ⟨fun g hg => absurd hg (by simp), fun g hg => absurd hg (by simp), ?_⟩
    rw [List.forall_mem_append]
    refine ⟨h.closed, List.forall_mem_singleton.mpr ?_⟩
    simp only [ClosedSummary.Vouched, hfin, (h.atEnd f hf).bytes_write]
    exact (h.blocks f hf).imp fun _ _ hblock => hblock.append _

theorem Sound.openSummaryFile (h : w.Sound lz) (wallNs monoNs : UInt64) (created header : Bool) :
    (w.openSummaryFile wallNs monoNs created header).1.Sound lz := by
  have hnew : ∀ (w' : SummaryFileWriter) (hdr : FileHeader) (wall mono : UInt64),
      w'.closed = w.closed → ({ w' with
        file := some ⟨hdr.bytes, 28, wall, mono⟩
        index := []
        flushed := [] } : SummaryFileWriter).Sound lz := by
    intro w' hdr wall mono hclosed
    refine ⟨?_, ?_, hclosed ▸ h.closed⟩
    · rintro g ⟨⟩
      exact ⟨(length_fileHeader_bytes hdr).symm, (length_fileHeader_bytes hdr).ge⟩
    · rintro g ⟨⟩
      exact List.Forall₂.nil
  rw [SummaryFileWriter.openSummaryFile]
  by_cases hopen : w.file.isSome = true
  · rw [if_pos hopen]
    exact h
  rw [if_neg hopen]
  rcases created with _ | _
  · exact h
  have hnone : w.file = none := by simpa using hopen
  rcases header with _ | _
  · refine ⟨fun g hg => ?_, fun g hg => ?_, ?_⟩
    · by_cases hp : w.clockPinned = true <;> simp_all
    · by_cases hp : w.clockPinned = true <;> simp_all
    · by_cases hp : w.clockPinned = true
      · simpa [hp] using h.closed
      · simpa [hp] using h.closed
  · by_cases hp : w.clockPinned = true
    · simpa [hp] using hnew w _ _ _ rfl
    · simpa [hp] using hnew { w with
        clockOffsetWallNs := wallNs
        clockOffsetMonoNs := monoNs } _ _ _ rfl

/-- **One operation.** -/
theorem Sound.step (h : w.Sound lz) {op : SummaryFileOp} (hop : op.Spares) :
    (summaryFileStep lz w op).Sound lz := by
  cases op with
  | openFile wallNs monoNs created header => exact h.openSummaryFile wallNs monoNs created header
  | accumulate t acc =>
    rw [summaryFileStep, accumulate]
    split
    · exact ⟨h.atEnd, h.blocks, h.closed⟩
    · exact ⟨h.atEnd, h.blocks, h.closed⟩
  | flush e => exact h.flushAccum hop
  | checkRotation e fin =>
    have hflush := h.flushAccum hop.1
    rw [summaryFileStep, checkRotation]
    split_ifs
    · exact h
    · split
      · next w' hw =>
        rw [hw] at hflush
        exact hflush.endFile hop.2
      · next w' hw =>
        rw [hw] at hflush
        have hdiscard : ({ w' with accum := none } : SummaryFileWriter).Sound lz :=
          ⟨hflush.atEnd, hflush.blocks, hflush.closed⟩
        exact hdiscard.endFile hop.2
  | close e fin =>
    rw [summaryFileStep, close]
    split_ifs
    · exact h
    · exact (h.flushAccum hop.1).endFile hop.2

/-! ### Each second once -/

/-- The seconds whose flush succeeded. -/
def flushedSeconds (w : SummaryFileWriter) : List ℕ :=
  (w.closed.flatMap ClosedSummary.flushed ++ if w.file.isSome then w.flushed else []).map
    SummarySecond.monoNs

/-- The seconds increase, and the open one is after them. -/
structure Ordered (w : SummaryFileWriter) : Prop where
  increasing : w.flushedSeconds.Pairwise (· < ·)
  le_last : ∀ t ∈ w.flushedSeconds, ∃ l ∈ w.lastFlushed, t ≤ l
  lt_open : ∀ s ∈ w.accum, ∀ l ∈ w.lastFlushed, l < s.monoNs

/-- What a flush does to the seconds: nothing, or the open one is flushed. -/
theorem flushAccum_seconds (lz : Lz4) (w : SummaryFileWriter) (e : SummaryFlushFaults) :
    let w' := (w.flushAccum lz e).1
    w'.closed = w.closed ∧ w'.file.isSome = w.file.isSome ∧
      (w'.accum = w.accum ∧ w'.lastFlushed = w.lastFlushed ∧ w'.flushed = w.flushed ∨
        ∃ s, w.accum = some s ∧ w.file.isSome ∧ w'.accum = none ∧ w'.lastFlushed = some s.monoNs ∧
          w'.flushed = w.flushed ++ [{ s with wallNs := w.monoToWall s.monoNs }]) := by
  rcases hs : w.accum with _ | s
  · rw [flushAccum_idle (Or.inl hs)]
    exact ⟨rfl, rfl, Or.inl ⟨hs, rfl, rfl⟩⟩
  rcases hf : w.file with _ | f
  · rw [flushAccum_idle (Or.inr hf)]
    exact ⟨rfl, by rw [hf], Or.inl ⟨hs, rfl, rfl⟩⟩
  rcases hblock : if e.lz4 then none
      else summaryBlockOf lz w.encodeBufSize (w.monoToWall s.monoNs) s.acc with _ | block
  · rw [flushAccum_unencoded hs hf hblock]
    exact ⟨rfl, rfl, Or.inl ⟨hs, rfl, rfl⟩⟩
  have hlz : e.lz4 = false := by
    by_contra hlz
    rw [Bool.not_eq_false] at hlz
    rw [if_pos hlz] at hblock
    exact absurd hblock (by simp)
  rw [hlz, if_neg Bool.false_ne_true] at hblock
  rw [flushAccum_encoded hs hf hlz hblock]
  intro w'
  by_cases hgrow : w.blockIndexCap ≤ w.index.length ∧ e.grow
  · rw [show w' = _ from congrArg Prod.fst (if_pos hgrow)]
    exact ⟨rfl, rfl, Or.inl ⟨hs, rfl, rfl⟩⟩
  · rw [show w' = _ from congrArg Prod.fst (if_neg hgrow)]
    rcases e.write with _ | k
    · exact ⟨rfl, rfl, Or.inr ⟨s, rfl, rfl, rfl, rfl, rfl⟩⟩
    · exact ⟨rfl, rfl, Or.inl ⟨hs, rfl, rfl⟩⟩

theorem Ordered.flushAccum (h : w.Ordered) (e : SummaryFlushFaults) :
    (w.flushAccum lz e).1.Ordered := by
  obtain ⟨hclosed, hfile, ⟨haccum, hlast, hflushed⟩ | ⟨s, hs, hf, haccum, hlast, hflushed⟩⟩ :=
    flushAccum_seconds lz w e
  · have hseconds : (w.flushAccum lz e).1.flushedSeconds = w.flushedSeconds := by
      rw [flushedSeconds, flushedSeconds, hclosed, hfile, hflushed]
    exact ⟨hseconds ▸ h.increasing, by rw [hseconds, hlast]; exact h.le_last,
      by rw [haccum, hlast]; exact h.lt_open⟩
  · have hseconds : (w.flushAccum lz e).1.flushedSeconds = w.flushedSeconds ++ [s.monoNs] := by
      simp [flushedSeconds, hclosed, hfile, hf, hflushed]
    have hlt : ∀ t ∈ w.flushedSeconds, t < s.monoNs := by
      intro t ht
      obtain ⟨l, hl, hle⟩ := h.le_last t ht
      exact hle.trans_lt (h.lt_open s hs l hl)
    refine ⟨?_, ?_, ?_⟩
    · rw [hseconds, List.pairwise_append]
      exact ⟨h.increasing, List.pairwise_singleton _ _, fun t ht t' ht' =>
        List.mem_singleton.mp ht' ▸ hlt t ht⟩
    · rw [hseconds, hlast]
      refine fun t ht => ⟨s.monoNs, rfl, ?_⟩
      rcases List.mem_append.mp ht with ht | ht
      · exact (hlt t ht).le
      · exact (List.mem_singleton.mp ht).le
    · rw [haccum]
      exact fun s hs => absurd hs (by simp)

theorem Ordered.endFile (h : w.Ordered) (fin : SummaryEndFaults) : (w.endFile fin).Ordered := by
  rw [SummaryFileWriter.endFile]
  split
  · exact h
  · next f hf =>
    have hseconds : ∀ bytes, ({ w with
        file := none
        closed := w.closed ++ [⟨bytes, w.index, w.flushed⟩] } : SummaryFileWriter).flushedSeconds =
        w.flushedSeconds := by
      intro bytes
      simp [flushedSeconds, hf]
    exact ⟨by rw [hseconds]; exact h.increasing, by rw [hseconds]; exact h.le_last, h.lt_open⟩

theorem Ordered.openSummaryFile (h : w.Ordered) (wallNs monoNs : UInt64) (created header : Bool) :
    (w.openSummaryFile wallNs monoNs created header).1.Ordered := by
  have hsame : ∀ w' : SummaryFileWriter, w'.flushedSeconds = w.flushedSeconds →
      w'.lastFlushed = w.lastFlushed → w'.accum = w.accum → w'.Ordered := by
    intro w' hseconds hlast haccum
    exact ⟨hseconds ▸ h.increasing, by rw [hseconds, hlast]; exact h.le_last,
      by rw [haccum, hlast]; exact h.lt_open⟩
  rw [SummaryFileWriter.openSummaryFile]
  by_cases hopen : w.file.isSome = true
  · rw [if_pos hopen]
    exact h
  rw [if_neg hopen]
  have hnone : w.file = none := by simpa using hopen
  rcases created with _ | _
  · exact h
  rcases header with _ | _ <;> by_cases hp : w.clockPinned = true <;>
    exact hsame _ (by simp [flushedSeconds, hp, hnone]) (by simp [hp]) (by simp [hp])

theorem lt_openSecondOf (last : Option ℕ) (t : ℕ) :
    ∀ l ∈ last, l < ({ lastFlushed := last } : SummaryWriter).openSecondOf t := by
  rintro l ⟨⟩
  simp only [SummaryWriter.openSecondOf]
  split_ifs with hle
  · exact Nat.lt_add_of_pos_right (by decide)
  · omega

theorem Ordered.accumulate (h : w.Ordered) (t : ℕ) (acc : SummaryAccum) :
    (w.accumulate t acc).Ordered := by
  rw [SummaryFileWriter.accumulate]
  split
  · next s hs =>
    refine ⟨h.increasing, h.le_last, ?_⟩
    rintro s' ⟨⟩
    exact h.lt_open s hs
  · refine ⟨h.increasing, h.le_last, ?_⟩
    rintro s' ⟨⟩
    exact lt_openSecondOf w.lastFlushed t

theorem Ordered.step (h : w.Ordered) (op : SummaryFileOp) : (summaryFileStep lz w op).Ordered := by
  cases op with
  | openFile wallNs monoNs created header => exact h.openSummaryFile wallNs monoNs created header
  | accumulate t acc => exact h.accumulate t acc
  | flush e => exact h.flushAccum e
  | checkRotation e fin =>
    have hflush : (w.flushAccum lz e).1.Ordered := h.flushAccum e
    rw [summaryFileStep, checkRotation]
    split_ifs
    · exact h
    · split
      · next w' hw =>
        rw [hw] at hflush
        exact hflush.endFile fin
      · next w' hw =>
        rw [hw] at hflush
        have hdiscard : ({ w' with accum := none } : SummaryFileWriter).Ordered :=
          ⟨hflush.increasing, hflush.le_last, fun s hs => absurd hs (by simp)⟩
        exact hdiscard.endFile fin
  | close e fin =>
    rw [summaryFileStep, close]
    split_ifs
    · exact h
    · exact (h.flushAccum e).endFile fin

/-- The writer before its first file. -/
structure Fresh (w : SummaryFileWriter) : Prop where
  file : w.file = none
  accum : w.accum = none
  lastFlushed : w.lastFlushed = none
  closed : w.closed = []

theorem Fresh.sound (h : w.Fresh) : w.Sound lz :=
  ⟨fun f hf => absurd (h.file.symm.trans hf) (by simp),
    fun f hf => absurd (h.file.symm.trans hf) (by simp),
    fun f hf => absurd hf (by rw [h.closed]; exact List.not_mem_nil)⟩

theorem Fresh.ordered (h : w.Fresh) : w.Ordered := by
  have hseconds : w.flushedSeconds = [] := by simp [flushedSeconds, h.file, h.closed]
  exact ⟨hseconds ▸ List.Pairwise.nil,
    fun t ht => absurd (hseconds ▸ ht) List.not_mem_nil,
    fun s hs => absurd (h.accum.symm.trans hs) (by simp)⟩

end SummaryFileWriter

/-- **All or nothing, when nothing is lost.** A failed flush leaves the accumulated second, the
second flushed last and the index as they were exactly when it did not fail in writing its block. In
a run in which no file operation of a flush loses bytes or its position, whatever else fails, the entries
of the index of every file point at the complete blocks of the seconds whose flush succeeded, in
order, and no second is flushed twice. -/
theorem flushAccum_allOrNothing (lz : Lz4) {w : SummaryFileWriter} (hw : w.Fresh)
    {ops : List SummaryFileOp} (hops : ∀ op ∈ ops, op.Spares) :
    let final := ops.foldl (summaryFileStep lz) w
    (∀ (w : SummaryFileWriter) (e : SummaryFlushFaults), (w.flushAccum lz e).2 = false →
      (w.KeepsSecond (w.flushAccum lz e).1 ↔ ¬w.FailsWriting lz e)) ∧
      (∀ f ∈ final.closed, f.Vouched lz) ∧
      ((final.closed.flatMap ClosedSummary.flushed).map SummarySecond.monoNs).Pairwise (· < ·) := by
  intro final
  have hrun : final.Sound lz ∧ final.Ordered := by
    refine List.foldlRecOn (motive := fun v : SummaryFileWriter => v.Sound lz ∧ v.Ordered) ops _
      ⟨hw.sound, hw.ordered⟩ fun v h op hop => ?_
    exact ⟨h.1.step (hops op hop), h.2.step op⟩
  refine ⟨fun w e h => SummaryFileWriter.keepsSecond_iff h, hrun.1.closed, ?_⟩
  have hincreasing := hrun.2.increasing
  rw [SummaryFileWriter.flushedSeconds, List.map_append, List.pairwise_append] at hincreasing
  exact hincreasing.1

/-- A compression that fails, the retry at close, and the end of the file. -/
theorem flushAccum_retried :
    let final := [.openFile 5000000000 5000000000 true true, .accumulate 5000000000 accumReset,
      .flush { lz4 := true }, .close {} {}].foldl (summaryFileStep literalLz4)
      ({} : SummaryFileWriter)
    (∀ f ∈ final.closed, f.Vouched literalLz4) ∧
      ((final.closed.flatMap ClosedSummary.flushed).map SummarySecond.monoNs).Pairwise (· < ·) := by
  have hops : ∀ op ∈ ([.openFile 5000000000 5000000000 true true,
      .accumulate 5000000000 accumReset, .flush { lz4 := true }, .close {} {}] :
        List SummaryFileOp), op.Spares := by
    have hspares : ∀ lz4, ({ lz4 := lz4 } : SummaryFlushFaults).Spares := fun lz4 =>
      ⟨fun k => by simp, rfl, rfl, fun k => by simp⟩
    simp [SummaryFileOp.Spares, hspares]
  exact (flushAccum_allOrNothing literalLz4 ⟨rfl, rfl, rfl, rfl⟩ hops).2

/-! ### A torn block -/

theorem summaryBlockOf_eq_some {bufSize : ℕ} {wallNs : UInt64} {acc : SummaryAccum} {block : Bytes}
    (h : summaryBlockOf lz bufSize wallNs acc = some block) :
    ∃ rest, block = encodeU64 wallNs ++ rest ∧ rest.length ≤ 16 + lz4CompressBound bufSize := by
  simp only [summaryBlockOf] at h
  split_ifs at h
  obtain ⟨compressed, hc, rfl⟩ := Option.map_eq_some_iff.mp h
  refine ⟨_, by rw [SummaryBlockHeader.bytes, List.append_assoc], ?_⟩
  have hlen := (lz.length_compress _ _ _ hc).2
  simp only [List.length_append, encodeU32, length_leBytes]
  omega

/-- The empty second at five seconds. -/
def emptySecond : SummarySecond := ⟨5000000000, 5000000000, accumReset⟩

/-- A new file. -/
def emptyFile : SummaryFile :=
  ⟨(⟨summaryMagic, UInt16.ofNat summaryVersion, flagLz4, 0, 5000000000, 5000000000⟩ :
    FileHeader).bytes, 28, 5000000000, 5000000000⟩

/-- The writer with this file and this second. -/
def oneSecondWriter : SummaryFileWriter where
  clockOffsetWallNs := 5000000000
  clockOffsetMonoNs := 5000000000
  file := some emptyFile
  accum := some emptySecond

theorem summarySerialize_accumReset : summarySerialize accumReset summarySerializeMax =
    encodeClassNs accumReset.times.classNs ++ accumReset.trailer := by
  have hevents : LinearProbe.occupied SummaryEvent.vacant accumReset.events = [] := by
    rw [LinearProbe.occupied, accumReset, List.filter_replicate]
    rfl
  have hsessions : LinearProbe.occupied SummarySession.vacant accumReset.sessions = [] := by
    rw [LinearProbe.occupied, accumReset, List.filter_replicate]
    rfl
  have hqueries : LinearProbe.occupied SummaryQuery.vacant accumReset.queries = [] := by
    rw [LinearProbe.occupied, accumReset, List.filter_replicate]
    rfl
  rw [summarySerialize, if_neg (Nat.lt_irrefl _), hevents, hsessions, hqueries]
  rfl

theorem exists_emptyBlock :
    ∃ block, summaryBlockOf literalLz4 summarySerializeMax 5000000000 accumReset = some block := by
  have hlen : (summarySerialize accumReset summarySerializeMax).length = 140 := by
    rw [summarySerialize_accumReset]
    decide +kernel
  obtain ⟨compressed, hc⟩ := literalLz4.compress_isSome
    (summarySerialize accumReset summarySerializeMax) (lz4CompressBound summarySerializeMax)
    (by rw [hlen]; decide) (by rw [hlen]; decide)
  have hne : summarySerialize accumReset summarySerializeMax ≠ [] :=
    List.ne_nil_of_length_pos (by rw [hlen]; decide)
  rw [summaryBlockOf, if_neg hne, hc]
  exact ⟨_, rfl⟩

theorem atEnd_emptyFile : emptyFile.AtEnd :=
  ⟨(length_fileHeader_bytes _).symm, (length_fileHeader_bytes _).ge⟩

/-- The writer after a byte of the block. -/
def tornWriter (block : Bytes) : SummaryFileWriter where
  enabled := false
  clockOffsetWallNs := 5000000000
  clockOffsetMonoNs := 5000000000
  file := some (emptyFile.write (block.take 1))
  index := [⟨5000000000, 28⟩]
  accum := some emptySecond

/-- The entry of the second that is written anew. -/
def secondEntry (block : Bytes) : IndexEntry :=
  ⟨5000000000, UInt64.ofNat (28 + (block.take 1).length)⟩

/-- Its file, when it is closed. -/
def tornFile (block : Bytes) : ClosedSummary where
  bytes := (((emptyFile.write (block.take 1)).write block).write
    (footerBytes [⟨5000000000, 28⟩, secondEntry block])).bytes
  index := [⟨5000000000, 28⟩, secondEntry block]
  flushed := [emptySecond]

theorem not_complete_tornFile {block : Bytes}
    (h : summaryBlockOf literalLz4 summarySerializeMax 5000000000 accumReset = some block)
    (s : SummarySecond) :
    ¬CompleteSummaryBlock literalLz4 (tornFile block).bytes ⟨5000000000, 28⟩ s := by
  rintro ⟨hts, bufSize, off, block', hblock', hoff, -, hend, hprefix⟩
  obtain ⟨rest, rfl, hrest⟩ := summaryBlockOf_eq_some h
  obtain ⟨rest', rfl, -⟩ := summaryBlockOf_eq_some hblock'
  have hword : encodeU64 5000000000 = [0x00, 0xF2, 0x05, 0x2A, 0x01, 0, 0, 0] := by decide
  have htorn := atEnd_emptyFile.write ((encodeU64 5000000000 ++ rest).take 1)
  have hbytes : (tornFile (encodeU64 5000000000 ++ rest)).bytes =
      emptyFile.bytes ++ (0x00 :: 0x00 :: 0xF2 :: 0x05 :: 0x2A :: 0x01 :: 0 :: 0 :: 0 :: (rest ++
        footerBytes [⟨5000000000, 28⟩, secondEntry (encodeU64 5000000000 ++ rest)])) := by
    rw [tornFile, (htorn.write _).bytes_write, htorn.bytes_write, atEnd_emptyFile.bytes_write,
      hword]
    simp
  have hlen : (tornFile (encodeU64 5000000000 ++ rest)).bytes.length < 2 ^ 64 := by
    have hmax : 16 + lz4CompressBound summarySerializeMax < 2 ^ 32 := by decide
    have hheader : emptyFile.bytes.length = 28 := length_fileHeader_bytes _
    rw [hbytes]
    simp only [List.length_append, List.length_cons, length_footerBytes, List.length_nil, hheader]
    omega
  -- the file is too small for another offset with the same word
  obtain rfl : off = 28 := by
    have hword := congrArg UInt64.toNat hoff
    rw [UInt64.toNat_ofNat', Nat.mod_eq_of_lt (by omega)] at hword
    exact hword.symm
  have hdrop : emptyFile.bytes.length = 28 := length_fileHeader_bytes _
  rw [hbytes, List.drop_left' hdrop, ← hts, hword] at hprefix
  simp at hprefix

/-- **A write that fails enters its second twice.** One byte of the block is written, the flush
returns an error with the entry in the index, and the retry at close enters the second again. -/
theorem flushAccum_tornWrite :
    let w := [.openFile 5000000000 5000000000 true true, .accumulate 5000000000 accumReset].foldl
      (summaryFileStep literalLz4) {}
    let r := w.flushAccum literalLz4 { write := some 1 }
    r.2 = false ∧ ¬w.KeepsSecond r.1 ∧
      ∃ f, (r.1.close literalLz4 {} {}).closed = [f] ∧
        f.flushed.map SummarySecond.monoNs = [5000000000] ∧
        f.index.map IndexEntry.timestampNs = [5000000000, 5000000000] ∧
        ∃ entry ∈ f.index, ∀ s, ¬CompleteSummaryBlock literalLz4 f.bytes entry s := by
  obtain ⟨block, hblock⟩ := exists_emptyBlock
  have hfirst : oneSecondWriter.flushAccum literalLz4 { write := some 1 } =
      (tornWriter block, false) :=
    SummaryFileWriter.flushAccum_encoded (w := oneSecondWriter) (e := { write := some 1 })
      (s := emptySecond) (f := emptyFile) rfl rfl rfl hblock
  have hsecond : (tornWriter block).flushAccum literalLz4 {} =
      ({ tornWriter block with
        file := some ((emptyFile.write (block.take 1)).write block)
        index := [⟨5000000000, 28⟩, secondEntry block]
        lastFlushed := some 5000000000
        accum := none
        flushed := [emptySecond] }, true) := by
    have hwiden : (emptyFile.write (block.take 1)).widenStart emptySecond.wallNs .done =
        emptyFile.write (block.take 1) := if_pos (Or.inr (UInt64.le_refl _))
    have hwall : (tornWriter block).monoToWall emptySecond.monoNs = 5000000000 := by
      simp only [SummaryFileWriter.monoToWall, tornWriter, emptySecond]
      decide
    rw [SummaryFileWriter.flushAccum_encoded (w := tornWriter block) (e := {}) (s := emptySecond)
      (f := emptyFile.write (block.take 1)) rfl rfl rfl (hwall ▸ hblock)]
    simp only [SummaryFileWriter.entryOf, hwiden, hwall]
    rfl
  have hclose : ((tornWriter block).close literalLz4 {} {}).closed = [tornFile block] := by
    rw [SummaryFileWriter.close, if_neg (by simp [tornWriter]), hsecond]
    rfl
  intro w r
  have hr : r = (tornWriter block, false) := hfirst
  rw [hr]
  refine ⟨rfl, fun hkeeps => ?_, tornFile block, hclose, rfl, rfl, ⟨5000000000, 28⟩,
    List.mem_cons_self, not_complete_tornFile hblock⟩
  exact absurd hkeeps.index (List.cons_ne_nil _ _)

end PgWaitTracer
