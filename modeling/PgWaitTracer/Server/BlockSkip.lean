import PgWaitTracer.EventWriter.IndexSorted
import PgWaitTracer.Server.LoadRange

/-!
# Skipping blocks by their headers

A reader decides from the header of a block whether a record of it can matter in a window
(`pgwt_reader_block_candidate`, `src/event_reader.c`). The header has the timestamps of the first and
the last record that the writer had buffered. They bound the records of the block only if these were
pushed so.

## Main results

* `skipsSoundly_iff`: the header of a block tells the truth about every window exactly if
  its first and last timestamp bound its records.
* `run_skipsSoundly_iff`: so does the header of every block of a run.
-/

namespace PgWaitTracer

/-! ### The header and the records -/

/-- A time in a window. 0 is no bound. -/
def InRange (fromNs toNs t : ℕ) : Prop := fromNs ≤ t ∧ (toNs = 0 ∨ t ≤ toNs)

/-- **What the candidacy promises.** A block that is no candidate has no record in the window, and no
interval that meets it. All records of a block that is open on the right close after the window. -/
structure BlockMeta.SkipsSoundly (info : BlockMeta) (records : List TraceEvent) (fromNs toNs : ℕ) :
    Prop where
  outside : (info.candidate fromNs toNs).1 = false → ∀ ev ∈ records, ¬ InRange fromNs toNs ev.ts
  apart : (info.candidate fromNs toNs).1 = false → info.isSample = false → ∀ ev ∈ records,
    ∀ t, ev.ts - ev.dur ≤ t → t < ev.ts → ¬ InRange fromNs toNs t
  later : (info.candidate fromNs toNs).2 = true → ∀ ev ∈ records, toNs < ev.ts

/-- The last timestamp of a batch. -/
def lastNs (evs : List TraceEvent) : ℕ := (lastTs evs).toNat

/-- No record is before the first one or after the last one. A window that ends at 0 has no end, so
that 0 and 1 are not told apart at the front. -/
def EndsBound (evs : List TraceEvent) : Prop :=
  ∀ ev ∈ evs, firstNs evs ≤ max ev.ts 1 ∧ ev.ts ≤ lastNs evs

instance (evs : List TraceEvent) : Decidable (EndsBound evs) := by
  unfold EndsBound
  infer_instance

/-- **Every window.** -/
theorem skipsSoundly_iff {info : BlockMeta} {records : List TraceEvent}
    (hfirst : info.firstNs = firstNs records) (hlast : info.lastNs = lastNs records) :
    (∀ fromNs toNs, info.SkipsSoundly records fromNs toNs) ↔ EndsBound records := by
  constructor
  · intro h ev hev
    constructor
    · -- the window up to the record, without a left edge
      by_contra hno
      have hbefore : max ev.ts 1 ≠ 0 ∧ max ev.ts 1 < info.firstNs := by omega
      have hsound := h 0 (max ev.ts 1)
      have hcand : info.candidate 0 (max ev.ts 1) =
          if info.isSample then (false, false) else (true, true) := by
        rw [BlockMeta.candidate, if_neg (by simp), if_pos hbefore]
      by_cases hsample : info.isSample = true
      · exact hsound.outside (by rw [hcand, if_pos hsample]) ev hev
          ⟨Nat.zero_le _, Or.inr (le_max_left _ _)⟩
      · have hlater := hsound.later (by rw [hcand, if_neg hsample]) ev hev
        omega
    · -- the window of the record alone
      by_contra hno
      have hcand : info.candidate ev.ts ev.ts = (false, false) := by
        rw [BlockMeta.candidate, if_pos (by omega)]
      exact (h ev.ts ev.ts).outside (by rw [hcand]) ev hev ⟨le_rfl, Or.inr le_rfl⟩
  · intro h fromNs toNs
    by_cases hearly : fromNs ≠ 0 ∧ info.lastNs < fromNs
    · have hcand : info.candidate fromNs toNs = (false, false) := by
        rw [BlockMeta.candidate, if_pos hearly]
      refine ⟨fun _ ev hev hin => ?_, fun _ _ ev hev t _ ht hin => ?_, fun hopen => ?_⟩
      · have := (h ev hev).2
        have := hin.1
        omega
      · have := (h ev hev).2
        have := hin.1
        omega
      · rw [hcand] at hopen
        exact absurd hopen (by simp)
    · by_cases hlate : toNs ≠ 0 ∧ toNs < info.firstNs
      · have hcand : info.candidate fromNs toNs =
            if info.isSample then (false, false) else (true, true) := by
          rw [BlockMeta.candidate, if_neg hearly, if_pos hlate]
        have hafter : ∀ ev ∈ records, toNs < ev.ts := by
          intro ev hev
          have := (h ev hev).1
          omega
        refine ⟨fun _ ev hev hin => ?_, fun hno htrans => ?_, fun _ => hafter⟩
        · have := hafter ev hev
          have := hin.2
          omega
        · rw [hcand, htrans] at hno
          exact absurd hno (by simp)
      · have hcand : info.candidate fromNs toNs = (true, false) := by
          rw [BlockMeta.candidate, if_neg hearly, if_neg hlate]
        exact ⟨fun hno => absurd hno (by simp [hcand]), fun hno => absurd hno (by simp [hcand]),
          fun hopen => absurd hopen (by simp [hcand])⟩

/-! ### Runs -/

/-- A header as the reader reads it (`pgwt_reader_block_info`). -/
def BlockHeader.toMeta (h : BlockHeader) : BlockMeta where
  isSample := h.blockType = BlockType.samples.code
  samplePeriodNs := h.samplePeriodNs
  firstNs := h.firstTimestampNs.toNat
  lastNs := h.lastTimestampNs.toNat

variable {lz : Lz4}

theorem WrittenBlock.skipsSoundly_iff (b : WrittenBlock lz) :
    (∀ fromNs toNs, b.image.header.toMeta.SkipsSoundly b.events fromNs toNs) ↔
      EndsBound b.events := by
  obtain ⟨size, csize, hheader⟩ := b.header_eq
  refine PgWaitTracer.skipsSoundly_iff ?_ ?_
  · rw [hheader]
    rfl
  · rw [hheader]
    rfl

/-- The blocks of the file of the writer, which are the batches, tell the truth about every window
exactly if the ends of every batch bound it. -/
def BlocksSkip (lz : Lz4) (w : EventWriter) (batches : List Batch) : Prop :=
  ∃ blocks : List (WrittenBlock lz), FileBlocks w blocks ∧
    blocks.map WrittenBlock.batch = batches ∧
    ((∀ b ∈ blocks, ∀ fromNs toNs, b.image.header.toMeta.SkipsSoundly b.events fromNs toNs) ↔
      ∀ x ∈ batches, EndsBound x.events)

theorem FileBlocks.blocksSkip {w : EventWriter} {blocks : List (WrittenBlock lz)}
    (h : FileBlocks w blocks) : BlocksSkip lz w (blocks.map WrittenBlock.batch) := by
  refine ⟨blocks, h, rfl, ?_⟩
  rw [List.forall_mem_map]
  exact forall₂_congr fun b _ => b.skipsSoundly_iff

/-- **Every run** of pushes and publications without failures, in whatever order the records come,
and the finalisation of its file. -/
theorem run_skipsSoundly_iff (lz : Lz4) {w : EventWriter} (hw : w.Fresh) {calls : List WriterCall}
    (hcalls : ∀ c ∈ calls, c.Succeeds) {faults : List BlockFaults}
    (hfaults : ∀ e ∈ faults, e.Succeeds) (terminal : UInt16) {e : FinalizeFaults}
    (he : e.Succeeds) :
    let batcher := calls.foldl Batcher.step w.batcher
    let w' := calls.foldl (writerStep lz) w
    BlocksSkip lz w' batcher.written ∧
      BlocksSkip lz (finalizeCurrentFile lz { w' with faults := faults } terminal e).1
        batcher.finalize.written := by
  intro batcher w'
  obtain ⟨blocks, hblocks, hbatches, -⟩ := run_fileBlocks lz hw hcalls
  obtain ⟨final, hfinal, hfinalBatches, -⟩ :=
    finalize_fileBlocks lz hw hcalls hfaults terminal he
  exact ⟨hbatches ▸ hblocks.blocksSkip, hfinalBatches ▸ hfinal.blocksSkip⟩

/-- A transition and a sample, each alone in its block. -/
theorem run_skipsSoundly_two :
    ∃ blocks : List (WrittenBlock literalLz4), FileBlocks
      ([.pushSamples [earlySample] 100 {} [], .pushEvent laterEvent {} [], .publish []].foldl
        (writerStep literalLz4) (initWriter 170000 true)) blocks ∧
      ∀ b ∈ blocks, ∀ fromNs toNs,
        b.image.header.toMeta.SkipsSoundly b.events fromNs toNs := by
  have hcalls : ∀ c ∈ ([.pushSamples [earlySample] 100 {} [], .pushEvent laterEvent {} [],
      .publish []] : List WriterCall), c.Succeeds := by
    simp [WriterCall.Succeeds, OpenCall.Succeeds]
  have hfaults : ∀ e ∈ ([] : List BlockFaults), e.Succeeds := fun _ he => absurd he List.not_mem_nil
  have h := run_skipsSoundly_iff literalLz4 (fresh_initWriter 170000 true) hcalls hfaults
    flagRotated (e := {}) ⟨rfl, rfl, rfl, rfl, rfl⟩
  obtain ⟨blocks, hblocks, -, hiff⟩ := h.1
  exact ⟨blocks, hblocks, hiff.2 (by decide +kernel)⟩

/-- A transition of another CPU that closed at 3 and is pushed behind one that closed at 5: the header
of their block says that its last record is of 3, and it is no candidate for the window from 4 to 5. -/
theorem run_skipsSoundly_late :
    ∃ blocks : List (WrittenBlock literalLz4), FileBlocks
      ([.pushEvent { laterEvent with timestampNs := 5 } {} [],
        .pushEvent { laterEvent with timestampNs := 3 } {} [], .publish []].foldl
        (writerStep literalLz4) (initWriter 170000 true)) blocks ∧
      ∃ b ∈ blocks, ¬ b.image.header.toMeta.SkipsSoundly b.events 4 5 := by
  have hcalls : ∀ c ∈ ([.pushEvent { laterEvent with timestampNs := 5 } {} [],
      .pushEvent { laterEvent with timestampNs := 3 } {} [], .publish []] : List WriterCall),
      c.Succeeds := by
    simp [WriterCall.Succeeds, OpenCall.Succeeds]
  obtain ⟨blocks, hblocks, hbatches, -⟩ :=
    run_fileBlocks literalLz4 (fresh_initWriter 170000 true) hcalls
  have hwritten : blocks.map WrittenBlock.batch = [⟨.transitions,
      [{ laterEvent with timestampNs := 5 }, { laterEvent with timestampNs := 3 }]⟩] :=
    hbatches.trans (by decide +kernel)
  obtain ⟨b, hb, hbatch⟩ := List.mem_map.1 (hwritten ▸ List.mem_singleton_self _)
  refine ⟨blocks, hblocks, b, hb, fun hsound => ?_⟩
  obtain ⟨size, csize, hheader⟩ := b.header_eq
  have htype : b.type = .transitions := congrArg Batch.type hbatch
  have hevents : b.events = [{ laterEvent with timestampNs := 5 },
      { laterEvent with timestampNs := 3 }] := congrArg Batch.events hbatch
  rw [hheader, htype, hevents] at hsound
  exact hsound.outside rfl _ List.mem_cons_self ⟨by decide, by decide⟩

/-! ### Streams in order -/

end PgWaitTracer
