import PgWaitTracer.EventWriter.Writer

/-!
# The buffers of the event writer

`pgwt_writer_push_event` stores first and looks at the length of its buffer afterwards: it relies on
every earlier flush having left a free slot. A flush that writes its buffer empties it whatever the
write returns. `flush_block` does not get that far when the sample batch in front of it fails, and
then the full buffer stays full; whether the next push stores behind it depends on whether that
failure disabled the writer.

## Main results

* `run_inBounds`: the buffers of every state of a run are in bounds, if its calls keep
  room.
* `full_buffer_survives_failed_samples`: a run that stores outside the buffer.
-/

namespace PgWaitTracer

open ByteCodec

/-- The transition buffer of an enabled writer has a free slot, the sample buffer is within its
bounds, and no record was stored outside its buffer. -/
structure InBounds (w : EventWriter) : Prop where
  events_lt : w.enabled = true → w.events.length < blockEvents
  sampleBuf_le : w.sampleBuf.length ≤ blockEvents
  not_overran : w.overran = false

/-! ### What a flush leaves alone -/

/-- A flush keeps each buffer or empties it, stores nothing, and never enables the writer. -/
structure FlushFrame (w w' : EventWriter) : Prop where
  events : w'.events = w.events ∨ w'.events = []
  sampleBuf : w'.sampleBuf = w.sampleBuf ∨ w'.sampleBuf = []
  overran : w'.overran = w.overran
  enabled : w'.enabled = true → w.enabled = true
  file : w.file.isSome = w'.file.isSome
  faults : w'.faults ⊆ w.faults
  closedFiles : w'.closedFiles = w.closedFiles

theorem FlushFrame.refl (w : EventWriter) : FlushFrame w w :=
  ⟨Or.inl rfl, Or.inl rfl, rfl, id, rfl, List.Subset.refl _, rfl⟩

theorem FlushFrame.trans {w₁ w₂ w₃ : EventWriter} (h : FlushFrame w₁ w₂) (h' : FlushFrame w₂ w₃) :
    FlushFrame w₁ w₃ := by
  refine ⟨?_, ?_, h'.overran.trans h.overran, fun he => h.enabled (h'.enabled he),
    h.file.trans h'.file, fun _ he => h.faults (h'.faults he),
    h'.closedFiles.trans h.closedFiles⟩
  · rcases h'.events with h₃ | h₃
    · rw [h₃]
      exact h.events
    · exact Or.inr h₃
  · rcases h'.sampleBuf with h₃ | h₃
    · rw [h₃]
      exact h.sampleBuf
    · exact Or.inr h₃

variable {w w' : EventWriter} {evs : List TraceEvent}

theorem FlushFrame.inBounds (h : FlushFrame w w') (hw : InBounds w) : InBounds w' := by
  refine ⟨fun he => ?_, ?_, h.overran.trans hw.not_overran⟩
  · rcases h.events with h' | h'
    · rw [h']
      exact hw.events_lt (h.enabled he)
    · rw [h']
      exact Nat.succ_pos _
  · rcases h.sampleBuf with h' | h'
    · rw [h']
      exact hw.sampleBuf_le
    · rw [h']
      exact Nat.zero_le _

/-- A block write touches neither buffer. -/
structure WriteFrame (w w' : EventWriter) : Prop where
  events : w'.events = w.events
  sampleBuf : w'.sampleBuf = w.sampleBuf
  overran : w'.overran = w.overran
  enabled : w'.enabled = true → w.enabled = true
  file : w.file.isSome = w'.file.isSome
  faults : w'.faults ⊆ w.faults
  closedFiles : w'.closedFiles = w.closedFiles

theorem WriteFrame.appendBlock {w₀ w : EventWriter} (h : WriteFrame w₀ w) (f : OpenFile)
    (e : BlockFaults) (evs : List TraceEvent) (type : BlockType) (block : Bytes)
    (hf : w₀.file.isSome = true) : WriteFrame w₀ (appendBlock w f e evs type block).1 := by
  rw [PgWaitTracer.appendBlock]
  rcases e.write with _ | k
  · rcases e.flush with _ | _ | k <;> 
        exact ⟨h.events, h.sampleBuf, h.overran, h.enabled, hf, h.faults, h.closedFiles⟩
  · exact ⟨h.events, h.sampleBuf, h.overran, fun h => absurd h Bool.false_ne_true, hf, h.faults,
      h.closedFiles⟩

theorem writeBlock_frame (lz : Lz4) (w : EventWriter) (f : OpenFile) (evs : List TraceEvent)
    (type : BlockType) (period : UInt64) (hf : w.file.isSome = true) :
    WriteFrame w (writeBlock lz w f evs type period).1 := by
  rw [writeBlock]
  split
  · exact ⟨rfl, rfl, rfl, id, rfl, List.tail_subset _, rfl⟩
  · simp only
    split_ifs
    · exact ⟨rfl, rfl, rfl, fun h => absurd h Bool.false_ne_true, rfl, List.tail_subset _, rfl⟩
    · refine WriteFrame.appendBlock ?_ f _ evs type _ hf
      exact ⟨rfl, rfl, rfl, id, rfl, List.tail_subset _, rfl⟩
    · refine WriteFrame.appendBlock ?_ f _ evs type _ hf
      exact ⟨rfl, rfl, rfl, id, rfl, List.tail_subset _, rfl⟩

theorem writeTypedBlock_frame (lz : Lz4) (w : EventWriter) (evs : List TraceEvent)
    (type : BlockType) (period : UInt64) :
    WriteFrame w (writeTypedBlock lz w evs type period).1 := by
  rcases hf : w.file with _ | f
  · simp only [writeTypedBlock, hf]
    exact ⟨rfl, rfl, rfl, id, rfl, List.Subset.refl _, rfl⟩
  · simp only [writeTypedBlock, hf]
    split_ifs
    · exact ⟨rfl, rfl, rfl, id, rfl, List.Subset.refl _, rfl⟩
    · exact writeBlock_frame lz w f evs type period (by rw [hf]; rfl)

theorem flushBlockCore_frame (lz : Lz4) (w : EventWriter) :
    FlushFrame w (flushBlockCore lz w).1 := by
  rw [flushBlockCore]
  split_ifs
  · exact FlushFrame.refl w
  · have h := writeTypedBlock_frame lz w w.events .transitions 0
    exact ⟨Or.inr rfl, Or.inl h.sampleBuf, h.overran, h.enabled, h.file, h.faults,
      h.closedFiles⟩

theorem flushSampleBuf_frame (lz : Lz4) (w : EventWriter) :
    FlushFrame w (flushSampleBuf lz w).1 := by
  rw [flushSampleBuf]
  split_ifs
  · exact FlushFrame.refl w
  · have h := writeTypedBlock_frame lz w w.sampleBuf w.sampleBufType
      (w.sampleBufWeightNs / UInt64.ofNat w.sampleBuf.length)
    exact ⟨Or.inl h.events, Or.inr rfl, h.overran, h.enabled, h.file, h.faults,
      h.closedFiles⟩

theorem flushBlock_frame (lz : Lz4) (w : EventWriter) : FlushFrame w (flushBlock lz w).1 := by
  have hs := flushSampleBuf_frame lz w
  rw [flushBlock]
  split_ifs
  · simp only
    split_ifs
    · exact hs.trans (flushBlockCore_frame lz _)
    · exact hs
  · exact flushBlockCore_frame lz w

theorem flushSamples_frame (lz : Lz4) (w : EventWriter) : FlushFrame w (flushSamples lz w).1 := by
  have he := flushBlockCore_frame lz w
  rw [flushSamples]
  split_ifs
  · simp only
    split_ifs
    · exact he.trans (flushSampleBuf_frame lz _)
    · exact he
  · exact flushSampleBuf_frame lz w

theorem flushIncompatible_frame (lz : Lz4) (w : EventWriter) (period : UInt64) :
    FlushFrame w (flushIncompatible lz w period).1 := by
  rw [flushIncompatible]
  split_ifs
  · exact flushSamples_frame lz w
  · exact FlushFrame.refl w

theorem flushLongBatch_frame (lz : Lz4) (w : EventWriter) :
    FlushFrame w (flushLongBatch lz w).1 := by
  rw [flushLongBatch]
  split_ifs
  · exact flushSamples_frame lz w
  · exact FlushFrame.refl w

theorem finalizeCurrentFile_frame (lz : Lz4) (w : EventWriter) (terminal : UInt16)
    (e : FinalizeFaults) : FlushFrame w (finalizeCurrentFile lz w terminal e).1 := by
  have h := (flushBlock_frame lz w).trans (flushSamples_frame lz _)
  rw [finalizeCurrentFile]
  simp only
  rcases hf : (flushSamples lz (flushBlock lz w).1).1.file with _ | f
  · exact h
  · have hsome : w.file.isSome = true := by
      rw [h.file, hf]
      rfl
    exact ⟨h.events, h.sampleBuf, h.overran, h.enabled, hsome, h.faults, h.closedFiles⟩

/-! ### Opening -/

/-- A change of the directory only. -/
structure DirFrame (w w' : EventWriter) : Prop where
  events : w'.events = w.events
  sampleBuf : w'.sampleBuf = w.sampleBuf
  overran : w'.overran = w.overran
  enabled : w'.enabled = w.enabled
  faults : w'.faults = w.faults
  blockIndexCap : w'.blockIndexCap = w.blockIndexCap

theorem recoverLeftover_frame (w : EventWriter) (moved : Bool) :
    DirFrame w (recoverLeftover w moved) := by
  rw [recoverLeftover]
  split
  · exact ⟨rfl, rfl, rfl, rfl, rfl, rfl⟩
  · simp only
    split
    · exact ⟨rfl, rfl, rfl, rfl, rfl, rfl⟩
    · split_ifs <;> exact ⟨rfl, rfl, rfl, rfl, rfl, rfl⟩
    · split_ifs <;> exact ⟨rfl, rfl, rfl, rfl, rfl, rfl⟩

theorem openTraceFile_frame (w : EventWriter) (call : OpenCall) :
    DirFrame w (openTraceFile w call).1 ∧
      ((openTraceFile w call).2 = true →
        ∃ f : OpenFile, (openTraceFile w call).1.file = some f ∧ f.index = []) := by
  have h := recoverLeftover_frame w call.moved
  rw [openTraceFile]
  split
  · exact ⟨h, fun hok => absurd hok Bool.false_ne_true⟩
  · split
    · exact ⟨⟨h.events, h.sampleBuf, h.overran, h.enabled, h.faults, h.blockIndexCap⟩,
        fun hok => absurd hok Bool.false_ne_true⟩
    · exact ⟨⟨h.events, h.sampleBuf, h.overran, h.enabled, h.faults, h.blockIndexCap⟩,
        fun _ => ⟨_, rfl, rfl⟩⟩

theorem ensureOpen_cases (w : EventWriter) (call : OpenCall) :
    ((ensureOpen w call).2 = false ∧ (ensureOpen w call).1.enabled = false ∧
        (ensureOpen w call).1.sampleBuf = w.sampleBuf ∧
        (ensureOpen w call).1.overran = w.overran) ∨
      ((ensureOpen w call).2 = true ∧ DirFrame w (ensureOpen w call).1 ∧
        (ensureOpen w call).1.file ≠ none ∧
        (ensureOpen w call).1.numBlocks = w.numBlocks) := by
  rcases hf : w.file with _ | f
  · obtain ⟨h, hopen⟩ := openTraceFile_frame w call
    simp only [ensureOpen, hf]
    split_ifs with hok
    · obtain ⟨f, hfile, hindex⟩ := hopen hok
      refine Or.inr ⟨hok, h, by simp [hfile], ?_⟩
      simp [EventWriter.numBlocks, hfile, hindex, hf]
    · exact Or.inl ⟨rfl, rfl, h.sampleBuf, h.overran⟩
  · have hopen : ensureOpen w call = (w, true) := by
      rw [ensureOpen, hf]
    rw [hopen]
    exact Or.inr ⟨rfl, ⟨rfl, rfl, rfl, rfl, rfl, rfl⟩, by simp [hf], rfl⟩

/-! ### Pushing transitions -/

/-- The index has to grow (`full`) and cannot, or the block is not written completely: the writer is
disabled. -/
def BlockFaults.failsHard (e : BlockFaults) (full : Bool) : Bool :=
  (full && e.grow) || e.write.isSome

/-- A block write that fails and leaves the writer enabled: LZ4 fails, or the block is written into
the stream and `fflush` fails. -/
def BlockFaults.failsSoftly (e : BlockFaults) (full : Bool) : Bool :=
  e.lz4 || (!e.failsHard full && e.flush ≠ .done)

theorem typedBlock_isSome (lz : Lz4) (type : BlockType) (period : UInt64) (hpos : evs ≠ [])
    (hmax : evs.length ≤ blockEvents) : ∃ block, typedBlock lz type period evs = some block := by
  obtain ⟨⟨b₁, h₁, -⟩, ⟨b₂, h₂, -⟩, -⟩ := typedBlock_decodes lz period evs
    (List.length_pos_iff.2 hpos) hmax
  cases type with
  | transitions => exact ⟨b₁, h₁⟩
  | samples => exact ⟨b₂, h₂⟩

theorem writeBlock_ok (lz : Lz4) (w : EventWriter) (f : OpenFile) (type : BlockType)
    (period : UInt64) (hpos : evs ≠ []) (hmax : evs.length ≤ blockEvents) :
    (writeBlock lz w f evs type period).2 =
      (!w.nextFaults.lz4 && !w.nextFaults.failsHard (w.blockIndexCap ≤ f.index.length) &&
        w.nextFaults.flush = .done) := by
  obtain ⟨block, hblock⟩ := typedBlock_isSome lz type period hpos hmax
  rw [writeBlock]
  rcases w.nextFaults with ⟨_ | _, _ | _, _ | k, _ | _ | j, metaFile⟩ <;>
    simp [hblock, appendBlock, BlockFaults.failsHard] <;> split_ifs <;> simp_all

theorem writeBlock_enabled (lz : Lz4) (w : EventWriter) (f : OpenFile) (type : BlockType)
    (period : UInt64) (hpos : evs ≠ []) (hmax : evs.length ≤ blockEvents) :
    (writeBlock lz w f evs type period).1.enabled =
      (w.enabled && (w.nextFaults.lz4 ||
        !w.nextFaults.failsHard (w.blockIndexCap ≤ f.index.length))) := by
  obtain ⟨block, hblock⟩ := typedBlock_isSome lz type period hpos hmax
  rw [writeBlock]
  rcases w.nextFaults with ⟨_ | _, _ | _, _ | k, _ | _ | j, metaFile⟩ <;>
    simp [hblock, appendBlock, BlockFaults.failsHard] <;> split_ifs <;> simp_all

theorem writeBlock_fails_enabled_iff (lz : Lz4) (f : OpenFile) (type : BlockType) (period : UInt64)
    (hpos : evs ≠ []) (hmax : evs.length ≤ blockEvents) (hen : w.enabled = true) :
    ((writeBlock lz w f evs type period).2 = false ∧
        (writeBlock lz w f evs type period).1.enabled = true) ↔
      w.nextFaults.failsSoftly (w.blockIndexCap ≤ f.index.length) = true := by
  rw [writeBlock_ok lz w f type period hpos hmax, writeBlock_enabled lz w f type period hpos hmax,
    hen, BlockFaults.failsSoftly]
  rcases w.nextFaults.lz4 <;>
    rcases w.nextFaults.failsHard (w.blockIndexCap ≤ f.index.length) <;> simp

theorem flushSampleBuf_eq (lz : Lz4) {f : OpenFile} (hf : w.file = some f)
    (hne : w.sampleBuf ≠ []) :
    ∃ period, (flushSampleBuf lz w).2 = (writeBlock lz w f w.sampleBuf w.sampleBufType period).2 ∧
      (flushSampleBuf lz w).1.enabled =
        (writeBlock lz w f w.sampleBuf w.sampleBufType period).1.enabled := by
  refine ⟨w.sampleBufWeightNs / UInt64.ofNat w.sampleBuf.length, ?_⟩
  have hgo : ¬(w.sampleBuf = [] ∨ w.file = none) := by
    rw [hf]
    exact fun h => h.elim hne (Option.some_ne_none f)
  have hwrite : ∀ period, writeTypedBlock lz w w.sampleBuf w.sampleBufType period =
      writeBlock lz w f w.sampleBuf w.sampleBufType period := by
    intro period
    simp only [writeTypedBlock, hf, if_neg hne]
  rw [flushSampleBuf, if_neg hgo]
  simp only [hwrite, and_self]

theorem flushSampleBuf_events (lz : Lz4) (w : EventWriter) :
    (flushSampleBuf lz w).1.events = w.events := by
  rw [flushSampleBuf]
  split_ifs
  · rfl
  · exact (writeTypedBlock_frame lz w _ _ _).events

theorem flushBlockCore_events (lz : Lz4) (hf : w.file ≠ none) :
    (flushBlockCore lz w).1.events = [] := by
  rw [flushBlockCore]
  split_ifs with h
  · exact h.resolve_right hf
  · rfl

/-- The sample batch in front of the transitions fails and leaves the writer enabled. -/
def EventWriter.SamplesStall (w : EventWriter) : Prop :=
  w.samplesFirst = true ∧ w.nextFaults.failsSoftly w.indexFull = true

theorem indexFull_eq {f : OpenFile} (hf : w.file = some f) :
    w.indexFull = decide (w.blockIndexCap ≤ f.index.length) := by
  rw [EventWriter.indexFull, EventWriter.numBlocks, hf]
  rfl

theorem sampleBuf_ne_nil_of_samplesFirst (h : w.samplesFirst = true) : w.sampleBuf ≠ [] := by
  simp only [EventWriter.samplesFirst, Bool.and_eq_true, decide_eq_true_eq] at h
  exact h.1.1

/-- **`flush_block`, exactly.** A flush of an open file empties the transition buffer of a writer
that stays enabled, unless the sample batch in front of it stalls; then the buffer stays. -/
theorem flushBlock_events (lz : Lz4) (hf : w.file ≠ none) (hen : w.enabled = true)
    (hmax : w.sampleBuf.length ≤ blockEvents) :
    (¬w.SamplesStall → (flushBlock lz w).1.enabled = true → (flushBlock lz w).1.events = []) ∧
      (w.SamplesStall →
        (flushBlock lz w).1.enabled = true ∧ (flushBlock lz w).1.events = w.events) := by
  obtain ⟨f, hsome⟩ := Option.ne_none_iff_exists'.1 hf
  rw [flushBlock]
  by_cases hfirst : w.samplesFirst = true
  · have hne := sampleBuf_ne_nil_of_samplesFirst hfirst
    obtain ⟨period, hok, henabled⟩ := flushSampleBuf_eq lz hsome hne
    have hiff := writeBlock_fails_enabled_iff lz f w.sampleBufType period hne hmax hen
    rw [← hok, ← henabled, ← indexFull_eq hsome] at hiff
    have hframe := flushSampleBuf_frame lz w
    have hstall : w.SamplesStall ↔ w.nextFaults.failsSoftly w.indexFull = true :=
      ⟨fun h => h.2, fun h => ⟨hfirst, h⟩⟩
    rw [if_pos hfirst, hstall, ← hiff]
    rcases hrc : (flushSampleBuf lz w).2 with _ | _
    · simp only [hrc, Bool.false_eq_true, if_false, true_and]
      exact ⟨fun h h' => absurd h' h, fun h => ⟨h, flushSampleBuf_events lz w⟩⟩
    · have hfile : (flushSampleBuf lz w).1.file ≠ none := by
        rw [← Option.isSome_iff_ne_none, ← hframe.file, hsome]
        rfl
      simp only [hrc, if_true, Bool.true_eq_false, false_and, not_false_eq_true, forall_true_left,
        false_imp_iff, and_true]
      exact fun _ => flushBlockCore_events lz hfile
  · rw [if_neg hfirst]
    exact ⟨fun _ _ => flushBlockCore_events lz hf, fun h => absurd h.1 hfirst⟩

/-! ### One call -/

/-- The call does not leave a full transition buffer in an enabled writer: a push that fills the
buffer does not find an older sample batch whose block write fails softly. -/
def KeepsRoom (w : EventWriter) : WriterCall → Prop
  | .pushEvent _ _ faults =>
    ¬(w.enabled = true ∧ blockEvents ≤ w.events.length + 1 ∧
      EventWriter.SamplesStall { w with faults := faults })
  | _ => True

theorem storeEvent_samplesFirst (ev : TraceEvent) (hne : w.events ≠ []) :
    (storeEvent w ev).samplesFirst = w.samplesFirst := by
  obtain ⟨e, es, he⟩ := List.exists_cons_of_ne_nil hne
  simp [EventWriter.samplesFirst, storeEvent, he, firstTs]

theorem storeEvent_indexFull (w : EventWriter) (ev : TraceEvent) :
    (storeEvent w ev).indexFull = w.indexFull := by
  rw [EventWriter.indexFull, EventWriter.indexFull, EventWriter.numBlocks, EventWriter.numBlocks,
    storeEvent]
  rcases w.file with _ | f <;> rfl

theorem storeEvent_samplesStall (ev : TraceEvent) (hne : w.events ≠ []) :
    (storeEvent w ev).SamplesStall ↔ w.SamplesStall := by
  rw [EventWriter.SamplesStall, EventWriter.SamplesStall, storeEvent_samplesFirst ev hne,
    storeEvent_indexFull]
  rfl

theorem DirFrame.samplesStall (h : DirFrame w w') (hblocks : w'.numBlocks = w.numBlocks) :
    w'.SamplesStall ↔ w.SamplesStall := by
  rw [EventWriter.SamplesStall, EventWriter.SamplesStall, EventWriter.samplesFirst,
    EventWriter.samplesFirst, EventWriter.nextFaults, EventWriter.nextFaults,
    EventWriter.indexFull, EventWriter.indexFull, h.events, h.sampleBuf, h.faults, hblocks,
    h.blockIndexCap]

theorem DirFrame.inBounds (h : DirFrame w w') (hw : InBounds w) : InBounds w' := by
  refine ⟨fun he => ?_, ?_, h.overran.trans hw.not_overran⟩
  · rw [h.events]
    exact hw.events_lt (h.enabled ▸ he)
  · rw [h.sampleBuf]
    exact hw.sampleBuf_le

/-- A push of a transition keeps the buffers in bounds, if it keeps room. -/
theorem pushEvent_inBounds (lz : Lz4) (ev : TraceEvent) (call : OpenCall) (hw : InBounds w)
    (hroom : ¬(w.enabled = true ∧ blockEvents ≤ w.events.length + 1 ∧ w.SamplesStall)) :
    InBounds (pushEvent lz w ev call).1 := by
  rw [pushEvent]
  rcases hen : w.enabled with _ | _
  · exact hw
  · have hlt := hw.events_lt hen
    simp only [Bool.not_true, Bool.false_eq_true, if_false]
    rcases ensureOpen_cases w call with ⟨hok, hdis, hbuf, hover⟩ | ⟨hok, hdir, hfile, hblocks⟩
    · simp only [hok, Bool.not_false, if_true]
      exact ⟨fun h => absurd (hdis.symm.trans h) Bool.false_ne_true, hbuf ▸ hw.sampleBuf_le,
        hover.trans hw.not_overran⟩
    · simp only [hok, Bool.not_true, Bool.false_eq_true, if_false]
      set w₁ := (ensureOpen w call).1 with hw₁
      have hlen : (storeEvent w₁ ev).events.length = w.events.length + 1 := by
        rw [storeEvent, List.length_append, hdir.events]
        rfl
      have hover : (storeEvent w₁ ev).overran = false := by
        simp only [storeEvent, hdir.overran, hw.not_overran, hdir.events, Bool.false_or,
          decide_eq_false_iff_not, not_le]
        exact hlt
      have hsamples : (storeEvent w₁ ev).sampleBuf.length ≤ blockEvents := by
        change w₁.sampleBuf.length ≤ blockEvents
        rw [hdir.sampleBuf]
        exact hw.sampleBuf_le
      split_ifs with hfull
      · rw [hlen] at hfull
        have hne : w₁.events ≠ [] := by
          rw [hdir.events, ← List.length_pos_iff]
          exact Nat.lt_of_lt_of_le (by decide) (Nat.le_of_succ_le_succ hfull)
        have hstall : ¬(storeEvent w₁ ev).SamplesStall := by
          rw [storeEvent_samplesStall ev hne, hdir.samplesStall hblocks]
          exact fun h => hroom ⟨hen, hfull, h⟩
        have hfile' : (storeEvent w₁ ev).file ≠ none := by
          simpa [storeEvent] using hfile
        have hframe := flushBlock_frame lz (storeEvent w₁ ev)
        have hempty := (flushBlock_events lz hfile' (hdir.enabled.trans hen) hsamples).1 hstall
        refine ⟨fun he => ?_, ?_, hframe.overran.trans hover⟩
        · rw [hempty he]
          exact Nat.succ_pos _
        · rcases hframe.sampleBuf with h | h
          · rw [h]
            exact hsamples
          · rw [h]
            exact Nat.zero_le _
      · exact ⟨fun _ => Nat.lt_of_not_le hfull, hsamples, hover⟩

theorem storeSamples_inBounds (samples : List TraceEvent) (period : UInt64) (hw : InBounds w) :
    InBounds (storeSamples w (samples.take (blockEvents - w.sampleBuf.length)) period) := by
  have hle := hw.sampleBuf_le
  have hfit : w.sampleBuf.length +
      (samples.take (blockEvents - w.sampleBuf.length)).length ≤ blockEvents := by
    rw [List.length_take]
    omega
  refine ⟨hw.events_lt, ?_, ?_⟩
  · rw [storeSamples, List.length_append]
    exact hfit
  · simp only [storeSamples, hw.not_overran, Bool.false_or, decide_eq_false_iff_not, not_lt]
    exact hfit

theorem pushSampleLoop_inBounds (lz : Lz4) (period : UInt64) : (fuel : ℕ) → (w : EventWriter) →
    (samples : List TraceEvent) → InBounds w →
      InBounds (pushSampleLoop lz period fuel w samples).1
  | 0, _, _, hw => hw
  | fuel + 1, w, samples, hw => by
    have hstore := storeSamples_inBounds samples period hw
    have hflush := (flushSamples_frame lz _).inBounds hstore
    rw [pushSampleLoop]
    split_ifs
    · exact hw
    · simp only
      split_ifs
      · exact pushSampleLoop_inBounds lz period fuel _ _ hflush
      · exact hflush
      · exact pushSampleLoop_inBounds lz period fuel _ _ hstore

theorem flushSamples_sampleBuf (lz : Lz4) (hf : w.file ≠ none)
    (hok : (flushSamples lz w).2 = true) : (flushSamples lz w).1.sampleBuf = [] := by
  have hbuf : ∀ w : EventWriter, w.file ≠ none → (flushSampleBuf lz w).1.sampleBuf = [] := by
    intro w hf
    rw [flushSampleBuf]
    split_ifs with h
    · exact h.resolve_right hf
    · rfl
  have hfile : (flushBlockCore lz w).1.file ≠ none := by
    rw [← Option.isSome_iff_ne_none, ← (flushBlockCore_frame lz w).file,
      Option.isSome_iff_ne_none]
    exact hf
  rw [flushSamples] at hok ⊢
  split_ifs at hok ⊢ with h₁
  · rcases hrc : (flushBlockCore lz w).2 with _ | _
    · simp [hrc] at hok
    · simp only [hrc, if_true]
      exact hbuf _ hfile
  · exact hbuf w hf

/-- More rounds than there are samples, or as many when the first round has room, change nothing. -/
theorem pushSampleLoop_fuel (lz : Lz4) (period : UInt64) : (fuel : ℕ) → (w : EventWriter) →
    (samples : List TraceEvent) → w.file ≠ none →
      (samples.length < fuel ∨ samples.length ≤ fuel ∧ w.sampleBuf.length < blockEvents) →
        pushSampleLoop lz period (fuel + 1) w samples = pushSampleLoop lz period fuel w samples
  | 0, w, samples, _, h => by
    have hnil : samples = [] := List.length_eq_zero_iff.1 (by omega)
    rw [hnil, pushSampleLoop, pushSampleLoop, if_pos rfl]
  | fuel + 1, w, samples, hf, h => by
    rw [pushSampleLoop, pushSampleLoop]
    by_cases hnil : samples = []
    · rw [if_pos hnil, if_pos hnil]
    · have hpos : 0 < samples.length := List.length_pos_iff.2 hnil
      have hstore : (storeSamples w (samples.take (blockEvents - w.sampleBuf.length))
          period).file ≠ none := by
        simpa [storeSamples] using hf
      have hlen : (samples.drop (blockEvents - w.sampleBuf.length)).length =
          samples.length - (blockEvents - w.sampleBuf.length) := List.length_drop
      rw [if_neg hnil, if_neg hnil]
      simp only
      split_ifs with hfull hok
      · have hempty := flushSamples_sampleBuf lz hstore hok
        refine pushSampleLoop_fuel lz period fuel _ _ ?_ (Or.inr ⟨by omega, ?_⟩)
        · rw [← Option.isSome_iff_ne_none, ← (flushSamples_frame lz _).file,
            Option.isSome_iff_ne_none]
          exact hstore
        · rw [hempty]
          exact Nat.succ_pos _
      · rfl
      · have hroom : w.sampleBuf.length ≤ (storeSamples w
            (samples.take (blockEvents - w.sampleBuf.length)) period).sampleBuf.length := by
          rw [storeSamples, List.length_append]
          omega
        exact pushSampleLoop_fuel lz period fuel _ _ hstore (Or.inr ⟨by omega, by omega⟩)

theorem pushSamples_inBounds (lz : Lz4) (samples : List TraceEvent) (period : UInt64)
    (call : OpenCall) (hw : InBounds w) : InBounds (pushSamples lz w samples period call).1 := by
  have hopen : InBounds (ensureOpen w call).1 := by
    rcases ensureOpen_cases w call with ⟨-, hdis, hbuf, hover⟩ | ⟨-, hdir, -, -⟩
    · exact ⟨fun h => absurd (hdis.symm.trans h) Bool.false_ne_true, hbuf ▸ hw.sampleBuf_le,
        hover.trans hw.not_overran⟩
    · exact hdir.inBounds hw
  have hjoin := (flushIncompatible_frame lz (ensureOpen w call).1 period).inBounds hopen
  have hloop := pushSampleLoop_inBounds lz period (samples.length + 1) _ samples hjoin
  rw [pushSamples]
  split_ifs
  · exact hw
  · exact hw
  · simp only
    split_ifs
    · exact hopen
    · exact hjoin
    · exact hloop
    · exact (flushLongBatch_frame lz _).inBounds hloop

theorem publish_inBounds (lz : Lz4) (hw : InBounds w) : InBounds (publish lz w).1 := by
  rw [publish]
  split_ifs
  · exact hw
  · exact ((flushBlock_frame lz w).trans (flushSampleBuf_frame lz _)).inBounds hw

theorem checkRotation_inBounds (lz : Lz4) (hour : ℤ) (e : FinalizeFaults) (renamed : Bool)
    (hw : InBounds w) : InBounds (checkRotation lz w hour e renamed) := by
  obtain ⟨h₁, h₂, h₃⟩ := (finalizeCurrentFile_frame lz w flagRotated e).inBounds hw
  rw [checkRotation]
  split_ifs
  · exact hw
  · exact hw
  · exact ⟨h₁, h₂, h₃⟩
  · exact ⟨h₁, h₂, h₃⟩

theorem closeWriter_inBounds (lz : Lz4) (e : FinalizeFaults) (hw : InBounds w) :
    InBounds (closeWriter lz w e) := by
  obtain ⟨h₁, h₂, h₃⟩ := (finalizeCurrentFile_frame lz w flagClosedClean e).inBounds hw
  rw [closeWriter]
  split_ifs
  · exact hw
  · exact ⟨h₁, h₂, h₃⟩

theorem writerStep_inBounds (lz : Lz4) (w : EventWriter) (c : WriterCall) (hw : InBounds w)
    (hroom : KeepsRoom w c) : InBounds (writerStep lz w c) := by
  have hfaults : ∀ faults, InBounds { w with faults := faults } := fun _ =>
    ⟨hw.events_lt, hw.sampleBuf_le, hw.not_overran⟩
  cases c with
  | pushEvent ev call faults => exact pushEvent_inBounds lz ev call (hfaults faults) hroom
  | pushSamples samples period call faults =>
    exact pushSamples_inBounds lz samples period call (hfaults faults)
  | publish faults => exact publish_inBounds lz (hfaults faults)
  | checkRotation hour e renamed faults =>
    exact checkRotation_inBounds lz hour e renamed (hfaults faults)
  | close e faults => exact closeWriter_inBounds lz e (hfaults faults)

/-! ### Runs -/

/-- **No push stores outside its buffer.** In every run of the writer whose calls keep room, the
buffers are in bounds in every state it passes, whatever block writes fail.

Source: `pgwt_writer_push_event`, `pgwt_writer_push_samples`, `flush_block`, `flush_samples`,
`write_typed_block` (`src/event_writer.c`). -/
theorem run_inBounds (lz : Lz4) (pgVersion : UInt32) (cpuMeasured : Bool)
    (pre post : List WriterCall)
    (h : Run.Allowed (writerStep lz) KeepsRoom (initWriter pgVersion cpuMeasured) (pre ++ post)) :
    InBounds (pre.foldl (writerStep lz) (initWriter pgVersion cpuMeasured)) := by
  have hpre := Run.Allowed.of_append_left pre _ post h
  refine Run.Allowed.invariant (writerStep_inBounds lz) pre _ hpre ?_
  exact ⟨fun _ => Nat.succ_pos _, Nat.zero_le _, rfl⟩

/-- A sample at 1 ns. -/
def earlySample : TraceEvent := ⟨1, 4242, 0x0A000001, 0x0A000001, 1, 0, 7, cpuNsUnknown⟩

/-- A transition at 2 ns. -/
def laterEvent : TraceEvent := ⟨2, 4242, 0x0A000001, 0, 0, 1, 7, 0⟩

/-- One pending sample and `n` younger transitions. -/
structure Filling (n : ℕ) (w : EventWriter) : Prop where
  enabled : w.enabled = true
  cpuMeasured : w.cpuMeasured = true
  file : w.file ≠ none
  sampleBuf : w.sampleBuf = [earlySample]
  events : w.events = List.replicate n laterEvent

theorem pushEvent_open (lz : Lz4) (ev : TraceEvent) (call : OpenCall) (hen : w.enabled = true)
    (hf : w.file ≠ none) :
    pushEvent lz w ev call =
      if blockEvents ≤ w.events.length + 1 then flushBlock lz (storeEvent w ev)
      else (storeEvent w ev, true) := by
  obtain ⟨f, hsome⟩ := Option.ne_none_iff_exists'.1 hf
  have hopen : ensureOpen w call = (w, true) := by
    rw [ensureOpen, hsome]
  have hlen : (storeEvent w ev).events.length = w.events.length + 1 := by
    rw [storeEvent, List.length_append]
    rfl
  simp only [pushEvent, hen, hopen, hlen, Bool.not_true, Bool.false_eq_true, if_false]

theorem Filling.store {n : ℕ} (h : Filling n w) : Filling (n + 1) (storeEvent w laterEvent) := by
  refine ⟨h.enabled, h.cpuMeasured, ?_, h.sampleBuf, ?_⟩
  · simpa [storeEvent] using h.file
  · rw [storeEvent, h.events, EventWriter.stamp, if_pos h.cpuMeasured, List.replicate_succ']

theorem Filling.push (lz : Lz4) {n : ℕ} (hn : n + 1 < blockEvents) (h : Filling n w) :
    Filling (n + 1) (writerStep lz w (.pushEvent laterEvent {} [])) := by
  have h' : Filling n { w with faults := [] } :=
    ⟨h.enabled, h.cpuMeasured, h.file, h.sampleBuf, h.events⟩
  have hlen : ¬blockEvents ≤ w.events.length + 1 := by
    rw [h.events, List.length_replicate]
    omega
  rw [writerStep, pushEvent_open lz laterEvent {} h'.enabled h'.file, if_neg hlen]
  exact h'.store

theorem Filling.pushes (lz : Lz4) : (k n : ℕ) → (w : EventWriter) → n + k < blockEvents →
    Filling n w →
      Filling (n + k) ((List.replicate k (.pushEvent laterEvent {} [])).foldl (writerStep lz) w)
  | 0, _, _, _, h => h
  | k + 1, n, w, hn, h => by
    have hstep := h.push lz (by omega)
    have ih := Filling.pushes lz k (n + 1) _ (by omega) hstep
    rw [List.replicate_succ, List.foldl_cons]
    rwa [show n + (k + 1) = n + 1 + k by omega]

/-- A sample, `n + 1` younger transitions, and an `fflush` that fails if the sample is written in
front of the last of them. -/
def stallRun (n : ℕ) : List WriterCall :=
  .pushSamples [earlySample] 100000000 {} [] ::
    (List.replicate n (.pushEvent laterEvent {} []) ++
      [.pushEvent laterEvent {} [{ flush := .kept }]])

theorem Filling.stall (lz : Lz4) {n : ℕ} (hn : n + 1 = blockEvents) (h : Filling n w)
    (hw' : w' = writerStep lz w (.pushEvent laterEvent {} [{ flush := .kept }])) :
    w'.enabled = true ∧ w'.events.length = blockEvents ∧ w'.file ≠ none := by
  have h' : Filling n { w with faults := [{ flush := .kept }] } :=
    ⟨h.enabled, h.cpuMeasured, h.file, h.sampleBuf, h.events⟩
  have hfill := h'.store
  have hfull : blockEvents ≤ w.events.length + 1 := by
    rw [h.events, List.length_replicate, hn]
  have hmax : (storeEvent { w with faults := [{ flush := .kept }] } laterEvent).sampleBuf.length ≤
      blockEvents := by
    rw [hfill.sampleBuf]
    exact Nat.succ_le_succ (Nat.zero_le _)
  have hstall : (storeEvent { w with faults := [{ flush := .kept }] } laterEvent).SamplesStall := by
    refine ⟨?_, ?_⟩
    · rw [EventWriter.samplesFirst, hfill.sampleBuf, hfill.events, List.replicate_succ]
      rfl
    · simp [EventWriter.nextFaults, storeEvent, BlockFaults.failsSoftly, BlockFaults.failsHard]
  obtain ⟨hen, hevents⟩ := (flushBlock_events lz hfill.file hfill.enabled hmax).2 hstall
  have hframe := (flushBlock_frame lz
    (storeEvent { w with faults := [{ flush := .kept }] } laterEvent)).file
  rw [writerStep, pushEvent_open lz laterEvent {} h'.enabled h'.file, if_pos hfull] at hw'
  subst hw'
  refine ⟨hen, ?_, ?_⟩
  · rw [hevents, hfill.events, List.length_replicate, hn]
  · rw [← Option.isSome_iff_ne_none, ← hframe, Option.isSome_iff_ne_none]
    exact hfill.file

theorem pushEvent_overruns (lz : Lz4) (ev : TraceEvent) (call : OpenCall) (hen : w.enabled = true)
    (hf : w.file ≠ none) (hfull : blockEvents ≤ w.events.length) :
    (pushEvent lz w ev call).1.overran = true := by
  have hover : (storeEvent w ev).overran = true := by
    simp [storeEvent, hfull]
  rw [pushEvent_open lz ev call hen hf, if_pos (by omega), (flushBlock_frame lz _).overran, hover]

theorem filling_afterSample (lz : Lz4) : Filling 0 (writerStep lz (initWriter 170000 true)
    (.pushSamples [earlySample] 100000000 {} [])) := by
  have hcut : ¬sampleBatchNs ≤ lastTs [earlySample] - firstTs [earlySample] := by decide
  constructor <;>
    simp [writerStep, pushSamples, ensureOpen, openTraceFile, recoverLeftover, initWriter,
      flushIncompatible, pushSampleLoop, storeSamples, flushLongBatch, blockEvents, hcut]

theorem stallRun_overruns (lz : Lz4) (n : ℕ) (hn : n + 1 = blockEvents) :
    ¬InBounds ((stallRun n).foldl (writerStep lz) (initWriter 170000 true)) ∧
      ((stallRun n).foldl (writerStep lz) (initWriter 170000 true)).enabled = true ∧
      (writerStep lz ((stallRun n).foldl (writerStep lz) (initWriter 170000 true))
        (.pushEvent laterEvent {} [])).overran = true := by
  have hfill := Filling.pushes lz n 0 _ (by omega) (filling_afterSample lz)
  rw [Nat.zero_add] at hfill
  obtain ⟨hen, hlen, hfile⟩ := hfill.stall lz hn rfl
  rw [stallRun, List.foldl_cons, List.foldl_append, List.foldl_cons, List.foldl_nil]
  refine ⟨fun h => ?_, hen, ?_⟩
  · exact absurd hlen (Nat.ne_of_lt (h.events_lt hen))
  · exact pushEvent_overruns lz laterEvent {} hen hfile (le_of_eq hlen.symm)

/-- After a sample and 4096 transitions the writer is enabled and its transition buffer is full. -/
theorem full_buffer_survives_failed_samples :
    ¬InBounds ((stallRun 4095).foldl (writerStep literalLz4) (initWriter 170000 true)) ∧
      ((stallRun 4095).foldl (writerStep literalLz4) (initWriter 170000 true)).enabled = true ∧
      (writerStep literalLz4 ((stallRun 4095).foldl (writerStep literalLz4)
        (initWriter 170000 true)) (.pushEvent laterEvent {} [])).overran = true :=
  stallRun_overruns literalLz4 4095 (by decide)

/-- The same failure in front of a block that is not full, and of a publication, keeps the buffers
in bounds. -/
theorem run_inBounds_partialBlock :
    InBounds ([WriterCall.pushSamples [earlySample] 100000000 {} [],
      .pushEvent laterEvent {} [{ flush := .kept }], .publish [{ lz4 := true }],
      .pushEvent laterEvent {} []].foldl (writerStep literalLz4) (initWriter 170000 true)) := by
  refine run_inBounds literalLz4 170000 true _ [] ?_
  refine ⟨trivial, ?_, trivial, ?_, trivial⟩
  · rintro ⟨-, hfull, -⟩
    exact absurd hfull (by decide)
  · rintro ⟨-, hfull, -⟩
    exact absurd hfull (by decide)

end PgWaitTracer
