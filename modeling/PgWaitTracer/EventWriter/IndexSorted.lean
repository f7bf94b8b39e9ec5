import PgWaitTracer.EventWriter.Batching

/-!
# The order of the block index

The blocks of a file are in the order of their first timestamps (`src/docs/TRACE_FORMAT.md`), as long
as the records of both streams are pushed in the order of their timestamps: of two buffers the one
with the older first record is written first, and what is still pending is not older than the first
record of any block.

## Main results

* `blockIndex_sorted`.
-/

namespace PgWaitTracer

open ByteCodec

/-! ### Order -/

/-- The first timestamp of a batch. -/
def firstNs (evs : List TraceEvent) : ℕ := (firstTs evs).toNat

/-- First timestamps in order, and two lists of pending records in order, none of which is older than
a first timestamp. All these times are among those seen so far. -/
structure InOrder (seen firsts : List ℕ) (evs samples : List TraceEvent) : Prop where
  firsts_sorted : firsts.Pairwise (· ≤ ·)
  evs_sorted : (evs.map TraceEvent.ts).Pairwise (· ≤ ·)
  samples_sorted : (samples.map TraceEvent.ts).Pairwise (· ≤ ·)
  firsts_le_evs : ∀ x ∈ firsts, ∀ ev ∈ evs, x ≤ ev.ts
  firsts_le_samples : ∀ x ∈ firsts, ∀ ev ∈ samples, x ≤ ev.ts
  firsts_mem : ∀ x ∈ firsts, x ∈ seen
  evs_mem : ∀ ev ∈ evs, ev.ts ∈ seen
  samples_mem : ∀ ev ∈ samples, ev.ts ∈ seen

variable {seen firsts : List ℕ} {evs samples : List TraceEvent}

theorem InOrder.symm (h : InOrder seen firsts evs samples) : InOrder seen firsts samples evs :=
  ⟨h.firsts_sorted, h.samples_sorted, h.evs_sorted, h.firsts_le_samples, h.firsts_le_evs, h.firsts_mem, h.samples_mem,
    h.evs_mem⟩

theorem firstNs_cons (ev : TraceEvent) (evs : List TraceEvent) : firstNs (ev :: evs) = ev.ts := rfl

theorem firstNs_le (h : (evs.map TraceEvent.ts).Pairwise (· ≤ ·)) {ev : TraceEvent}
    (hev : ev ∈ evs) : firstNs evs ≤ ev.ts := by
  cases evs with
  | nil => exact absurd hev List.not_mem_nil
  | cons e evs =>
    rw [firstNs_cons]
    rcases List.mem_cons.1 hev with rfl | hev
    · exact Nat.le_refl _
    · rw [List.map_cons, List.pairwise_cons] at h
      exact h.1 _ (List.mem_map_of_mem hev)

theorem exists_firstNs (hne : evs ≠ []) : ∃ ev ∈ evs, firstNs evs = ev.ts := by
  cases evs with
  | nil => exact absurd rfl hne
  | cons e evs => exact ⟨e, List.mem_cons_self, rfl⟩

/-- **A cut** of the list with the older first record. -/
theorem InOrder.cut (h : InOrder seen firsts evs samples) (hne : evs ≠ [])
    (hlead : samples ≠ [] → firstNs evs ≤ firstNs samples) :
    InOrder seen (firsts ++ [firstNs evs]) [] samples := by
  obtain ⟨e, he, hfirst⟩ := exists_firstNs hne
  refine ⟨?_, List.Pairwise.nil, h.samples_sorted, fun _ _ _ h => absurd h List.not_mem_nil,
    fun x hx ev hev => ?_, fun x hx => ?_, fun _ h => absurd h List.not_mem_nil, h.samples_mem⟩
  · rw [List.pairwise_append]
    refine ⟨h.firsts_sorted, List.pairwise_singleton _ _, fun x hx y hy => ?_⟩
    rw [List.mem_singleton.1 hy, hfirst]
    exact h.firsts_le_evs x hx e he
  · rcases List.mem_append.1 hx with hx | hx
    · exact h.firsts_le_samples x hx ev hev
    · rw [List.mem_singleton.1 hx]
      exact (hlead (List.ne_nil_of_mem hev)).trans (firstNs_le h.samples_sorted hev)
  · rcases List.mem_append.1 hx with hx | hx
    · exact h.firsts_mem x hx
    · rw [List.mem_singleton.1 hx, hfirst]
      exact h.evs_mem e he

/-- **A record** that is not older than what was seen. -/
theorem InOrder.store (h : InOrder seen firsts evs samples) (ev : TraceEvent)
    (hlate : ∀ t ∈ seen, t ≤ ev.ts) :
    InOrder (seen ++ [ev.ts]) firsts (evs ++ [ev]) samples := by
  have hold : ∀ t ∈ seen, t ∈ seen ++ [ev.ts] := fun t ht => List.mem_append_left _ ht
  refine ⟨h.firsts_sorted, ?_, h.samples_sorted, fun x hx e he => ?_, h.firsts_le_samples,
    fun x hx => hold _ (h.firsts_mem x hx), fun e he => ?_, fun e he => hold _ (h.samples_mem e he)⟩
  · rw [List.map_append, List.pairwise_append]
    refine ⟨h.evs_sorted, List.pairwise_singleton _ _, fun x hx y hy => ?_⟩
    obtain ⟨e, he, rfl⟩ := List.mem_map.1 hx
    rw [List.mem_singleton.1 hy]
    exact hlate _ (h.evs_mem e he)
  · rcases List.mem_append.1 he with he | he
    · exact h.firsts_le_evs x hx e he
    · rw [List.mem_singleton.1 he]
      exact hlate x (h.firsts_mem x hx)
  · rcases List.mem_append.1 he with he | he
    · exact hold _ (h.evs_mem e he)
    · rw [List.mem_singleton.1 he]
      exact List.mem_append_right _ (List.mem_singleton_self _)

/-! ### The batcher -/

namespace Batcher

theorem ts_stamp (b : Batcher) (ev : TraceEvent) : (b.stamp ev).ts = ev.ts := by
  rw [stamp]
  split_ifs <;> rfl

/-- The batches are in order, if the times that were pushed are. -/
def Ordered (l : List (BlockType × TraceEvent)) (b : Batcher) : Prop :=
  (l.map fun x => x.2.ts).Pairwise (· ≤ ·) →
    InOrder (l.map fun x => x.2.ts) (b.written.map fun x => firstNs x.events) b.events b.samples

theorem ordered_cutsKeep (l : List (BlockType × TraceEvent)) : CutsKeep (Ordered l) := by
  refine ⟨fun b hne hlead h hl => ?_, fun b hne hlead h hl => ?_⟩
  · rw [List.map_append]
    exact (h hl).cut hne fun hs => UInt64.le_iff_toNat_le.1 (hlead hs)
  · rw [List.map_append]
    exact ((h hl).symm.cut hne fun he => (UInt64.lt_iff_toNat_lt.1 (hlead he)).le).symm

theorem pushed_snoc {l : List (BlockType × TraceEvent)} {x : BlockType × TraceEvent}
    (h : ((l ++ [x]).map fun y => y.2.ts).Pairwise (· ≤ ·)) :
    (l.map fun y => y.2.ts).Pairwise (· ≤ ·) ∧ ∀ t ∈ l.map (fun y => y.2.ts), t ≤ x.2.ts := by
  rw [List.map_append, List.pairwise_append] at h
  exact ⟨h.1, fun t ht => h.2.2 t ht _ (List.mem_singleton_self _)⟩

/-- **The batches are in order** after every run. -/
theorem run_ordered (w : EventWriter) (calls : List WriterCall) :
    Ordered (calls.flatMap WriterCall.pushes) (calls.foldl step w.batcher) := by
  refine run_invariant ordered_cutsKeep (fun l b ev h hl => ?_) (fun l b periodNs ev h hl => ?_) ?_
    calls
  · obtain ⟨hold, hlate⟩ := pushed_snoc hl
    have hstore := (h hold).store (b.stamp ev) (by rwa [ts_stamp])
    rwa [ts_stamp, ← List.map_singleton (f := fun x : BlockType × TraceEvent => x.2.ts)
      (a := (.transitions, ev)), ← List.map_append] at hstore
  · obtain ⟨hold, hlate⟩ := pushed_snoc hl
    have hstore := ((h hold).symm.store ev hlate).symm
    rwa [← List.map_singleton (f := fun x : BlockType × TraceEvent => x.2.ts)
      (a := (.samples, ev)), ← List.map_append] at hstore
  · intro _
    exact ⟨List.Pairwise.nil, List.Pairwise.nil, List.Pairwise.nil,
      fun _ h => absurd h List.not_mem_nil, fun _ h => absurd h List.not_mem_nil,
      fun _ h => absurd h List.not_mem_nil, fun _ h => absurd h List.not_mem_nil,
      fun _ h => absurd h List.not_mem_nil⟩

/-! ### Streams -/

/-- The records of the batches of a type. -/
def streamOf (type : BlockType) (written : List Batch) : List TraceEvent :=
  (written.filter fun x => x.type = type).flatMap (·.events)

/-- The pushes of a stream. -/
def pushesOf (type : BlockType) (l : List (BlockType × TraceEvent)) : List TraceEvent :=
  (l.filter fun x => x.1 = type).map (·.2)

/-- Every record of a stream is in one batch or pending, in order. -/
def Keeps (cpuMeasured : Bool) (l : List (BlockType × TraceEvent)) (b : Batcher) : Prop :=
  b.cpuMeasured = cpuMeasured ∧
    streamOf .transitions b.written ++ b.events =
      (pushesOf .transitions l).map ({ cpuMeasured := cpuMeasured } : Batcher).stamp ∧
    streamOf .samples b.written ++ b.samples = pushesOf .samples l

theorem streamOf_append (type : BlockType) (written : List Batch) (x : Batch) :
    streamOf type (written ++ [x]) =
      streamOf type written ++ if x.type = type then x.events else [] := by
  rw [streamOf, List.filter_append, List.flatMap_append, streamOf]
  by_cases hx : x.type = type
  · simp [hx]
  · simp [hx]

theorem pushesOf_append (type : BlockType) (l : List (BlockType × TraceEvent))
    (x : BlockType × TraceEvent) :
    pushesOf type (l ++ [x]) = pushesOf type l ++ if x.1 = type then [x.2] else [] := by
  rw [pushesOf, List.filter_append, List.map_append, pushesOf]
  by_cases hx : x.1 = type
  · simp [hx]
  · simp [hx]

theorem keeps_cutsKeep (cpuMeasured : Bool) (l : List (BlockType × TraceEvent)) :
    CutsKeep (Keeps cpuMeasured l) := by
  refine ⟨fun b _ _ h => ⟨h.1, ?_, ?_⟩, fun b _ _ h => ⟨h.1, ?_, ?_⟩⟩
  · rw [streamOf_append, if_pos rfl, List.append_nil]
    exact h.2.1
  · rw [streamOf_append, if_neg (by simp), List.append_nil]
    exact h.2.2
  · rw [streamOf_append, if_neg (by simp), List.append_nil]
    exact h.2.1
  · rw [streamOf_append, if_pos rfl, List.append_nil]
    exact h.2.2

/-- **No record is lost or doubled** in a run. -/
theorem run_keeps (w : EventWriter) (calls : List WriterCall) :
    Keeps w.cpuMeasured (calls.flatMap WriterCall.pushes) (calls.foldl step w.batcher) := by
  refine run_invariant (keeps_cutsKeep w.cpuMeasured) (fun l b ev h => ⟨h.1, ?_, ?_⟩)
    (fun l b periodNs ev h => ⟨h.1, ?_, ?_⟩) ⟨rfl, rfl, rfl⟩ calls
  · have hstamp : b.stamp ev = ({ cpuMeasured := w.cpuMeasured } : Batcher).stamp ev := by
      rw [stamp, stamp, h.1]
    rw [pushesOf_append, if_pos rfl, List.map_append, ← h.2.1, List.append_assoc, hstamp]
    rfl
  · rw [pushesOf_append, if_neg (by simp), List.append_nil]
    exact h.2.2
  · rw [pushesOf_append, if_neg (by simp), List.append_nil]
    exact h.2.1
  · rw [pushesOf_append, if_pos rfl, ← h.2.2, List.append_assoc]
    rfl

end Batcher

/-! ### Files -/

variable {lz : Lz4}

theorem WrittenBlock.header_eq (b : WrittenBlock lz) :
    ∃ size csize, b.image.header = blockHeaderOf b.type b.period b.events size csize := by
  have h := b.encodes
  rw [typedBlock, blockOfPayload, if_neg (fun hlen => b.events_ne (List.eq_nil_of_length_eq_zero hlen)),
    Option.bind_eq_bind, Option.bind_eq_some_iff] at h
  obtain ⟨c, -, hb⟩ := h
  have hbytes := Option.some.inj hb
  rw [BlockImage.bytes] at hbytes
  have hread := inverts_blockHeader b.image.header trivial b.image.payload
  rw [← hbytes, inverts_blockHeader _ trivial] at hread
  exact ⟨_, _, (Prod.ext_iff.1 (Option.some.inj hread)).1.symm⟩

theorem map_indexFrom (pos : ℕ) (blocks : List (WrittenBlock lz)) :
    (indexFrom pos (images blocks)).map (fun e => e.timestampNs.toNat) =
      (blocks.map WrittenBlock.batch).map fun x => firstNs x.events := by
  induction blocks generalizing pos with
  | nil => rfl
  | cons b blocks ih =>
    obtain ⟨size, csize, hheader⟩ := b.header_eq
    rw [images_cons, indexFrom, List.map_cons, ih, List.map_cons, List.map_cons, hheader]
    rfl

/-- The blocks of the file are in the order of their first timestamps, and every record of the two
streams is in one of them or pending, in the order of its stream. -/
structure WritesInOrder (lz : Lz4) (w : EventWriter) (evs samples : List TraceEvent)
    (blocks : List (WrittenBlock lz)) : Prop extends FileBlocks w blocks where
  sorted : ∀ f, w.file = some f → (f.index.map fun e => e.timestampNs.toNat).Pairwise (· ≤ ·)
  evs : Batcher.streamOf .transitions (blocks.map WrittenBlock.batch) ++ w.events = evs
  samples : Batcher.streamOf .samples (blocks.map WrittenBlock.batch) ++ w.sampleBuf = samples

theorem FileBlocks.writesInOrder {w : EventWriter} {blocks : List (WrittenBlock lz)}
    (h : FileBlocks w blocks) {b : Batcher} (hb : blocks.map WrittenBlock.batch = b.written)
    (hevents : w.events = b.events) (hsampleBuf : w.sampleBuf = b.samples)
    {l : List (BlockType × TraceEvent)} (hl : (l.map fun x => x.2.ts).Pairwise (· ≤ ·))
    (hordered : b.Ordered l) {cpuMeasured : Bool} (hkeeps : b.Keeps cpuMeasured l) :
    WritesInOrder lz w
      ((Batcher.pushesOf .transitions l).map ({ cpuMeasured := cpuMeasured } : Batcher).stamp)
      (Batcher.pushesOf .samples l) blocks := by
  obtain ⟨-, hevs, hsamples⟩ := hkeeps
  refine ⟨h, fun f hf => ?_, ?_, ?_⟩
  · obtain ⟨-, -, -, hindex⟩ := h.file f hf
    rw [hindex, map_indexFrom, hb]
    exact (hordered hl).firsts_sorted
  · rw [hb, hevents, hevs]
  · rw [hb, hsampleBuf, hsamples]

/-- **One file.** After pushes and publications without failures, in the order of their timestamps,
the index of the file is in order and every record of both streams is in exactly one block or pending,
and after the finalisation none is pending. -/
theorem blockIndex_sorted (lz : Lz4) {w : EventWriter} (hw : w.Fresh) {calls : List WriterCall}
    (hcalls : ∀ c ∈ calls, c.Succeeds)
    (hpushes : ((calls.flatMap WriterCall.pushes).map fun x => x.2.ts).Pairwise (· ≤ ·))
    {faults : List BlockFaults} (hfaults : ∀ e ∈ faults, e.Succeeds) (terminal : UInt16)
    {e : FinalizeFaults} (he : e.Succeeds) :
    let evs := (Batcher.pushesOf .transitions (calls.flatMap WriterCall.pushes)).map w.stamp
    let samples := Batcher.pushesOf .samples (calls.flatMap WriterCall.pushes)
    let w' := calls.foldl (writerStep lz) w
    let final := (finalizeCurrentFile lz { w' with faults := faults } terminal e).1
    (∃ blocks, WritesInOrder lz w' evs samples blocks) ∧
      (∃ blocks, WritesInOrder lz final evs samples blocks) ∧
      final.events = [] ∧ final.sampleBuf = [] := by
  intro evs samples w' final
  have hordered := Batcher.run_ordered w calls
  have hkeeps := Batcher.run_keeps w calls
  obtain ⟨blocks, hblocks, hbatches, -⟩ := run_fileBlocks lz hw hcalls
  obtain ⟨hevents, hsampleBuf⟩ := (writerRun_tracks lz hw hcalls).pending
  obtain ⟨blocks', hblocks', hbatches', -, hevents', hsampleBuf'⟩ :=
    finalize_fileBlocks lz hw hcalls hfaults terminal he
  refine ⟨⟨blocks, hblocks.writesInOrder hbatches hevents hsampleBuf hpushes hordered hkeeps⟩,
    ⟨blocks', hblocks'.writesInOrder hbatches' ?_ ?_ hpushes
      ((Batcher.ordered_cutsKeep _).finalize hordered)
      ((Batcher.keeps_cutsKeep _ _).finalize hkeeps)⟩, hevents', hsampleBuf'⟩
  · exact hevents'.trans Batcher.events_finalize.symm
  · exact hsampleBuf'.trans Batcher.samples_cutForSamples.symm

/-- A sample and a younger transition, and the end of their file. -/
theorem blockIndex_sorted_two :
    ∃ blocks, WritesInOrder literalLz4
      (finalizeCurrentFile literalLz4
        ([.pushSamples [earlySample] 100 {} [], .pushEvent laterEvent {} []].foldl
          (writerStep literalLz4) (initWriter 170000 true)) flagRotated {}).1
      [laterEvent] [earlySample] blocks := by
  have hcalls : ∀ c ∈ ([.pushSamples [earlySample] 100 {} [], .pushEvent laterEvent {} []] :
      List WriterCall), c.Succeeds := by
    simp [WriterCall.Succeeds, OpenCall.Succeeds]
  have hfaults : ∀ e ∈ ([] : List BlockFaults), e.Succeeds := fun _ he => absurd he List.not_mem_nil
  have h := blockIndex_sorted literalLz4 (fresh_initWriter 170000 true) hcalls (by decide) hfaults
    flagRotated (e := {}) ⟨rfl, rfl, rfl, rfl, rfl⟩
  exact h.2.1

end PgWaitTracer
