import Mathlib.Order.Lattice
import PgWaitTracer.EventWriter.BufferBounds

/-!
# The committed-through watermark

The writer reports the timestamp of the last transition it committed
(`pgwt_writer_committed_through_ns`), and a reader takes it that every transition below this
watermark is in the file. The watermark is raised by a block write before its `fflush`, and a failed
compression drops a block without disabling the writer; in both cases transitions below the
watermark are in no flushed block. A block index that cannot grow and an incomplete `fwrite` disable
the writer, so nothing is committed past the records they lose.

## Main results

* `run_committedSound` : the watermark is sound after every run in which no block of transitions
  meets a failed compression or a failed flush.
-/

namespace PgWaitTracer

variable {lz : Lz4} {t : UInt64}

/-- Every transition accepted with a timestamp below the watermark is in a block that was written
completely and flushed. -/
def CommittedSound (w : EventWriter) : Prop :=
  ∀ ev ∈ w.log.accepted, ev.timestampNs < w.committedThroughNs → ev ∈ w.log.flushed

/-- A block of transitions met a failed compression or a failed flush. -/
def EventWriter.Spoiled (w : EventWriter) : Prop :=
  ∃ m ∈ w.log.met, m.1.failsSoftly m.2 = true

/-- The transitions not in a flushed block are all in the buffer, at or past the watermark; or they
were lost with the block that disabled the writer, and none follows them. -/
structure Watermark (w : EventWriter) : Prop where
  reached : ∀ t : UInt64, (∀ ev ∈ w.log.accepted, ev.timestampNs ≤ t) → w.committedThroughNs ≤ t
  buffered : w.events ⊆ w.log.accepted
  ordered : w.events.Pairwise fun a b => a.timestampNs ≤ b.timestampNs
  ahead : ∀ ev ∈ w.events, w.committedThroughNs ≤ ev.timestampNs
  kept : (∀ ev ∈ w.log.accepted, ev ∈ w.log.flushed ∨ ev ∈ w.events) ∨
    w.enabled = false ∧ w.events = [] ∧ CommittedSound w
  samples : w.sampleBuf ≠ [] → w.sampleBufType = .samples

/-- The invariant of a run, with a bound on the timestamps accepted so far. -/
structure Tracked (t : UInt64) (w : EventWriter) : Prop where
  latest : ∀ ev ∈ w.log.accepted, ev.timestampNs ≤ t
  sound : w.Spoiled ∨ Watermark w

variable {w w' : EventWriter}

theorem Watermark.committedSound (h : Watermark w) : CommittedSound w := by
  rcases h.kept with hkept | ⟨-, -, hsound⟩
  · intro ev hev hlt
    rcases hkept ev hev with hf | hb
    · exact hf
    · exact absurd (h.ahead ev hb) (UInt64.not_le.2 hlt)
  · exact hsound

/-! ### Steps that leave the transitions alone -/

/-- The transitions are left alone, and the sample batch is kept or written. -/
structure Spares (w w' : EventWriter) : Prop where
  events : w'.events = w.events
  committed : w'.committedThroughNs = w.committedThroughNs
  accepted : w'.log.accepted = w.log.accepted
  flushed : w.log.flushed ⊆ w'.log.flushed
  met : w.log.met ⊆ w'.log.met
  enabled : w'.enabled = true → w.enabled = true
  samples : w'.sampleBuf = [] ∨ w'.sampleBuf = w.sampleBuf ∧ w'.sampleBufType = w.sampleBufType

theorem Spares.refl (w : EventWriter) : Spares w w :=
  ⟨rfl, rfl, rfl, List.Subset.refl _, List.Subset.refl _, id, .inr ⟨rfl, rfl⟩⟩

theorem EventWriter.Spoiled.mono (h : w.Spoiled) (hmet : w.log.met ⊆ w'.log.met) : w'.Spoiled := by
  obtain ⟨m, hm, hsoft⟩ := h
  exact ⟨m, hmet hm, hsoft⟩

theorem Watermark.spares (h : Watermark w) (hs : Spares w w') :
    Watermark w' where
  reached := by
    rw [hs.committed, hs.accepted]
    exact h.reached
  buffered := by
    rw [hs.events, hs.accepted]
    exact h.buffered
  ordered := by
    rw [hs.events]
    exact h.ordered
  ahead := by
    rw [hs.events, hs.committed]
    exact h.ahead
  kept := by
    rw [hs.events, hs.accepted]
    rcases h.kept with hkept | ⟨hen, hev, hsound⟩
    · exact .inl fun ev hev => (hkept ev hev).imp_left fun hf => hs.flushed hf
    · refine .inr ⟨Bool.eq_false_iff.2 fun h' => ?_, hev, fun ev hacc hlt => hs.flushed ?_⟩
      · rw [hs.enabled h'] at hen
        cases hen
      · rw [hs.accepted] at hacc
        rw [hs.committed] at hlt
        exact hsound ev hacc hlt
  samples := by
    rcases hs.samples with hnil | ⟨hbuf, htype⟩
    · exact fun hne => absurd hnil hne
    · rw [hbuf, htype]
      exact h.samples

theorem Tracked.spares (h : Tracked t w) (hs : Spares w w') :
    Tracked t w' where
  latest := by
    rw [hs.accepted]
    exact h.latest
  sound := h.sound.imp (fun hsp => hsp.mono hs.met) fun hw => hw.spares hs

/-! ### Block writes -/

theorem TransitionLog.flushed_subset_flush (l : TransitionLog) : l.flushed ⊆ l.flush.flushed :=
  List.subset_append_left _ _

theorem appendBlock_samples (w : EventWriter) (f : OpenFile) (e : BlockFaults)
    (evs : List TraceEvent) (block : ByteCodec.Bytes) :
    Spares w (appendBlock w f e evs .samples block).1 := by
  rw [appendBlock]
  rcases e.write with _ | k
  · rcases e.flush with _ | _ | k
    · exact ⟨rfl, rfl, rfl, w.log.flushed_subset_flush, List.Subset.refl _, id, .inr ⟨rfl, rfl⟩⟩
    · exact ⟨rfl, rfl, rfl, List.Subset.refl _, List.Subset.refl _, id, .inr ⟨rfl, rfl⟩⟩
    · exact ⟨rfl, rfl, rfl, List.Subset.refl _, List.Subset.refl _, id, .inr ⟨rfl, rfl⟩⟩
  · exact ⟨rfl, rfl, rfl, List.Subset.refl _, List.Subset.refl _, by rintro ⟨⟩, .inr ⟨rfl, rfl⟩⟩

theorem writeBlock_samples (lz : Lz4) (w : EventWriter) (f : OpenFile) (evs : List TraceEvent)
    (period : UInt64) : Spares w (writeBlock lz w f evs .samples period).1 := by
  rw [writeBlock]
  split
  · exact ⟨rfl, rfl, rfl, List.Subset.refl _, List.Subset.refl _, id, .inr ⟨rfl, rfl⟩⟩
  · simp only
    split_ifs
    · exact ⟨rfl, rfl, rfl, List.Subset.refl _, List.Subset.refl _, by rintro ⟨⟩, .inr ⟨rfl, rfl⟩⟩
    · obtain ⟨h₁, h₂, h₃, h₄, h₅, h₆, h₇⟩ := appendBlock_samples _ f w.nextFaults evs _
      exact ⟨h₁, h₂, h₃, h₄, h₅, h₆, h₇⟩
    · obtain ⟨h₁, h₂, h₃, h₄, h₅, h₆, h₇⟩ := appendBlock_samples _ f w.nextFaults evs _
      exact ⟨h₁, h₂, h₃, h₄, h₅, h₆, h₇⟩

/-- What the write of a block of transitions can do: it fails softly, it disables the writer and
commits nothing, or it brings the whole block out and raises the watermark to its last record. -/
structure WritesTransitions (w w' : EventWriter) (evs : List TraceEvent) : Prop where
  accepted : w'.log.accepted = w.log.accepted
  met : w.log.met ⊆ w'.log.met
  enabled : w'.enabled = true → w.enabled = true
  sampleBuf : w'.sampleBuf = w.sampleBuf
  sampleBufType : w'.sampleBufType = w.sampleBufType
  outcome : w'.Spoiled ∨
    w'.enabled = false ∧ w'.committedThroughNs = w.committedThroughNs ∧
      w.log.flushed ⊆ w'.log.flushed ∨
    w'.committedThroughNs = max w.committedThroughNs (lastTs evs) ∧
      w.log.flushed ⊆ w'.log.flushed ∧ evs ⊆ w'.log.flushed

theorem appendBlock_transitions (w : EventWriter) (f : OpenFile) (e : BlockFaults) (full : Bool)
    (evs : List TraceEvent) (block : ByteCodec.Bytes) (hmet : (e, full) ∈ w.log.met)
    (hgrow : (full && e.grow) = false) :
    WritesTransitions w (appendBlock w f e evs .transitions block).1 evs := by
  rw [appendBlock]
  rcases hwrite : e.write with _ | k
  · have hsoft : e.flush ≠ .done → e.failsSoftly full = true := by
      intro hflush
      simp [BlockFaults.failsSoftly, BlockFaults.failsHard, hgrow, hwrite, hflush]
    rcases hflush : e.flush with _ | _ | k
    · refine ⟨rfl, List.Subset.refl _, id, rfl, rfl, .inr (.inr ⟨rfl, ?_, ?_⟩)⟩
      · exact List.subset_append_left _ _
      · exact List.Subset.trans (List.subset_append_right _ _) (List.subset_append_right _ _)
    · exact ⟨rfl, List.Subset.refl _, id, rfl, rfl, .inl ⟨_, hmet, hsoft (by simp [hflush])⟩⟩
    · exact ⟨rfl, List.Subset.refl _, id, rfl, rfl, .inl ⟨_, hmet, hsoft (by simp [hflush])⟩⟩
  · exact ⟨rfl, List.Subset.refl _, by rintro ⟨⟩, rfl, rfl, .inr (.inl ⟨rfl, rfl, List.Subset.refl _⟩)⟩

theorem WritesTransitions.of_met {w₁ : EventWriter} {evs : List TraceEvent}
    (h : WritesTransitions w₁ w' evs) (m : BlockFaults × Bool) (hcap : ℕ) (hforce : Bool)
    (hw : w₁ = { w with
      faults := w.faults.tail
      forceRotate := hforce
      blockIndexCap := hcap
      log := { w.log with met := w.log.met ++ [m] } }) : WritesTransitions w w' evs := by
  subst hw
  exact ⟨h.accepted, List.Subset.trans (List.subset_append_left _ _) h.met, h.enabled, h.sampleBuf,
    h.sampleBufType, h.outcome⟩

theorem writeBlock_transitions (w : EventWriter) (f : OpenFile) (evs : List TraceEvent)
    (period : UInt64) :
    WritesTransitions w (writeBlock lz w f evs .transitions period).1 evs := by
  have hmem : ∀ m : BlockFaults × Bool, m ∈ w.log.met ++ [m] := fun m => by simp
  rw [writeBlock]
  split
  · exact ⟨rfl, List.subset_append_left _ _, id, rfl, rfl, .inl ⟨_, hmem _, rfl⟩⟩
  · simp only
    split_ifs with hfull hgrow
    · exact ⟨rfl, List.subset_append_left _ _, by rintro ⟨⟩, rfl, rfl,
        .inr (.inl ⟨rfl, rfl, List.Subset.refl _⟩)⟩
    · refine (appendBlock_transitions _ f _ (w.blockIndexCap ≤ f.index.length) evs _ ?_ ?_).of_met
        _ _ _ rfl
      · exact hmem _
      · simp [hgrow]
    · refine (appendBlock_transitions _ f _ (w.blockIndexCap ≤ f.index.length) evs _ ?_ ?_).of_met
        _ _ _ rfl
      · exact hmem _
      · simp [hfull]

/-! ### Flushes -/

theorem lastTs_mem {evs : List TraceEvent} (hne : evs ≠ []) :
    ∃ ev ∈ evs, lastTs evs = ev.timestampNs := by
  refine ⟨evs.getLast hne, List.getLast_mem hne, ?_⟩
  rw [lastTs, List.getLast?_eq_some_getLast hne]
  rfl

theorem max_le_of_le_u64 {a b : UInt64} (ha : a ≤ t) (hb : b ≤ t) : max a b ≤ t := by
  change (if a ≤ b then b else a) ≤ t
  split
  · exact hb
  · exact ha

/-- The buffer goes out as one block, or is lost with the writer disabled. -/
theorem Watermark.flushed (h : Watermark w) (hne : w.events ≠ [])
    (hw : WritesTransitions w w' w.events) :
    EventWriter.Spoiled { w' with events := [] } ∨ Watermark { w' with events := [] } := by
  have hkept : ∀ ev ∈ w.log.accepted, ev ∈ w.log.flushed ∨ ev ∈ w.events := by
    rcases h.kept with hkept | ⟨-, hnil, -⟩
    · exact hkept
    · exact absurd hnil hne
  have hsamples : w'.sampleBuf ≠ [] → w'.sampleBufType = .samples := by
    rw [hw.sampleBuf, hw.sampleBufType]
    exact h.samples
  rcases hw.outcome with hsp | ⟨hdis, hcom, hfl⟩ | ⟨hcom, hfl, hevs⟩
  · exact .inl hsp
  · refine .inr ⟨?_, List.nil_subset _, .nil, by simp, .inr ⟨hdis, rfl, ?_⟩, hsamples⟩
    · rw [hw.accepted, hcom]
      exact h.reached
    · intro ev hev hlt
      rw [hw.accepted] at hev
      rw [hcom] at hlt
      exact hfl (h.committedSound ev hev hlt)
  · refine .inr ⟨?_, List.nil_subset _, .nil, by simp, .inl fun ev hev => .inl ?_, hsamples⟩
    · intro t ht
      rw [hw.accepted] at ht
      obtain ⟨ev, hev, hlast⟩ := lastTs_mem hne
      rw [hcom, hlast]
      exact max_le_of_le_u64 (h.reached t ht) (ht ev (h.buffered hev))
    · rw [hw.accepted] at hev
      rcases hkept ev hev with hf | hb
      · exact hfl hf
      · exact hevs hb

theorem flushBlockCore_tracked (h : Tracked t w) : Tracked t (flushBlockCore lz w).1 := by
  rw [flushBlockCore]
  split_ifs with hnone
  · exact h
  · rw [not_or] at hnone
    obtain ⟨hne, hfile⟩ := hnone
    obtain ⟨f, hf⟩ := Option.ne_none_iff_exists'.1 hfile
    have hw : WritesTransitions w (writeTypedBlock lz w w.events .transitions 0).1 w.events := by
      simp only [writeTypedBlock, hf, if_neg hne]
      exact writeBlock_transitions w f w.events 0
    refine ⟨?_, ?_⟩
    · rw [hw.accepted]
      exact h.latest
    · rcases h.sound with hsp | hwm
      · exact .inl (hsp.mono hw.met)
      · exact hwm.flushed hne hw

theorem flushSampleBuf_tracked (h : Tracked t w) : Tracked t (flushSampleBuf lz w).1 := by
  rw [flushSampleBuf]
  split_ifs with hnone
  · exact h
  · rw [not_or] at hnone
    obtain ⟨hne, hfile⟩ := hnone
    obtain ⟨f, hf⟩ := Option.ne_none_iff_exists'.1 hfile
    simp only [writeTypedBlock, hf, if_neg hne]
    have hsame : ∀ type period, (writeBlock lz w f w.sampleBuf type period).1.log.accepted =
        w.log.accepted ∧ w.log.met ⊆ (writeBlock lz w f w.sampleBuf type period).1.log.met := by
      rintro (_ | _) period
      · exact ⟨(writeBlock_transitions w f _ period).accepted,
          (writeBlock_transitions w f _ period).met⟩
      · exact ⟨(writeBlock_samples lz w f _ period).accepted,
          (writeBlock_samples lz w f _ period).met⟩
    refine ⟨?_, ?_⟩
    · rw [(hsame _ _).1]
      exact h.latest
    · rcases h.sound with hsp | hwm
      · exact .inl (hsp.mono (hsame _ _).2)
      · rw [hwm.samples hne]
        have hs := writeBlock_samples lz w f w.sampleBuf
          (w.sampleBufWeightNs / UInt64.ofNat w.sampleBuf.length)
        exact .inr (hwm.spares ⟨hs.events, hs.committed, hs.accepted, hs.flushed, hs.met,
          hs.enabled, .inl rfl⟩)

theorem flushBlock_tracked (h : Tracked t w) : Tracked t (flushBlock lz w).1 := by
  rw [flushBlock]
  split_ifs
  · simp only
    split_ifs
    · exact flushBlockCore_tracked (flushSampleBuf_tracked h)
    · exact flushSampleBuf_tracked h
  · exact flushBlockCore_tracked h

theorem flushSamples_tracked (h : Tracked t w) : Tracked t (flushSamples lz w).1 := by
  rw [flushSamples]
  split_ifs
  · simp only
    split_ifs
    · exact flushSampleBuf_tracked (flushBlockCore_tracked h)
    · exact flushBlockCore_tracked h
  · exact flushSampleBuf_tracked h

/-! ### The calls -/

theorem recoverLeftover_spares (w : EventWriter) (moved : Bool) :
    Spares w (recoverLeftover w moved) := by
  have hsame := Spares.refl w
  rw [recoverLeftover]
  split
  · exact hsame
  · simp only
    split
    · exact ⟨rfl, rfl, rfl, hsame.flushed, hsame.met, id, hsame.samples⟩
    · split_ifs <;> exact ⟨rfl, rfl, rfl, hsame.flushed, hsame.met, id, hsame.samples⟩
    · split_ifs <;> exact ⟨rfl, rfl, rfl, hsame.flushed, hsame.met, id, hsame.samples⟩

theorem openTraceFile_spares (w : EventWriter) (call : OpenCall) :
    Spares w (openTraceFile w call).1 := by
  have h := recoverLeftover_spares w call.moved
  rw [openTraceFile]
  split
  · exact h
  · split
    · exact ⟨h.events, h.committed, h.accepted, h.flushed, h.met, h.enabled, h.samples⟩
    · exact ⟨h.events, h.committed, h.accepted, h.flushed, h.met, h.enabled, h.samples⟩

theorem ensureOpen_spares (w : EventWriter) (call : OpenCall) : Spares w (ensureOpen w call).1 := by
  have h := openTraceFile_spares w call
  rw [ensureOpen]
  split
  · exact Spares.refl w
  · simp only
    split_ifs
    · exact h
    · exact ⟨h.events, h.committed, h.accepted, h.flushed, h.met, by rintro ⟨⟩, h.samples⟩

theorem stamp_timestampNs (w : EventWriter) (ev : TraceEvent) :
    (w.stamp ev).timestampNs = ev.timestampNs := by
  rw [EventWriter.stamp]
  split <;> rfl

theorem storeEvent_tracked {ev : TraceEvent} (h : Tracked t w) (hen : w.enabled = true)
    (ht : t ≤ ev.timestampNs) : Tracked ev.timestampNs (storeEvent w ev) := by
  have hts := stamp_timestampNs w ev
  have hord : ∀ a ∈ w.log.accepted, a.timestampNs ≤ ev.timestampNs := fun a ha =>
    UInt64.le_trans (h.latest a ha) ht
  refine ⟨fun a ha => ?_, ?_⟩
  · rcases List.mem_append.1 ha with ha | ha
    · exact hord a ha
    · rw [List.mem_singleton.1 ha, hts]
      exact UInt64.le_refl _
  rcases h.sound with hsp | hwm
  · exact .inl hsp
  · refine .inr ⟨fun t ht => ?_, ?_, ?_, ?_, .inl ?_, hwm.samples⟩
    · exact hwm.reached t fun a ha => ht a (List.mem_append_left _ ha)
    · exact List.append_subset.2 ⟨List.subset_append_of_subset_left _ hwm.buffered,
        List.subset_append_right _ _⟩
    · refine List.pairwise_append.2 ⟨hwm.ordered, List.pairwise_singleton _ _, ?_⟩
      intro a ha b hb
      rw [List.mem_singleton.1 hb, hts]
      exact hord a (hwm.buffered ha)
    · intro a ha
      rcases List.mem_append.1 ha with ha | ha
      · exact hwm.ahead a ha
      · rw [List.mem_singleton.1 ha, hts]
        exact hwm.reached _ hord
    · have hkept : ∀ a ∈ w.log.accepted, a ∈ w.log.flushed ∨ a ∈ w.events := by
        rcases hwm.kept with hkept | ⟨hdis, -, -⟩
        · exact hkept
        · rw [hen] at hdis
          cases hdis
      intro a ha
      rcases List.mem_append.1 ha with ha | ha
      · exact (hkept a ha).imp_right (List.mem_append_left _)
      · exact .inr (List.mem_append_right _ ha)

theorem Tracked.mono {t' : UInt64} (h : Tracked t w) (ht : t ≤ t') : Tracked t' w :=
  ⟨fun ev hev => UInt64.le_trans (h.latest ev hev) ht, h.sound⟩

theorem pushEvent_tracked {ev : TraceEvent} (call : OpenCall) (h : Tracked t w)
    (ht : t ≤ ev.timestampNs) : Tracked ev.timestampNs (pushEvent lz w ev call).1 := by
  have hopen := h.spares (ensureOpen_spares w call)
  rw [pushEvent]
  split_ifs with hen
  · exact h.mono ht
  · simp only
    rcases ensureOpen_cases w call with ⟨hok, -⟩ | ⟨hok, hframe, -⟩
    · rw [hok]
      exact hopen.mono ht
    · have hstored : Tracked ev.timestampNs (storeEvent (ensureOpen w call).1 ev) := by
        refine storeEvent_tracked hopen ?_ ht
        rw [hframe.enabled]
        simpa using hen
      rw [hok]
      simp only [Bool.not_true, Bool.false_eq_true, if_false]
      split_ifs
      · exact flushBlock_tracked hstored
      · exact hstored

theorem storeSamples_tracked (samples : List TraceEvent) (period : UInt64) (h : Tracked t w) :
    Tracked t (storeSamples w samples period) := by
  refine ⟨h.latest, h.sound.imp id fun hwm => ?_⟩
  refine ⟨hwm.reached, hwm.buffered, hwm.ordered, hwm.ahead, hwm.kept, fun _ => ?_⟩
  rw [storeSamples]
  split_ifs with hnil
  · rfl
  · exact hwm.samples hnil

theorem pushSampleLoop_tracked (lz : Lz4) (period : UInt64) (fuel : ℕ) (samples : List TraceEvent)
    (h : Tracked t w) : Tracked t (pushSampleLoop lz period fuel w samples).1 := by
  induction fuel generalizing w samples with
  | zero => exact h
  | succ fuel ih =>
    have hstored := storeSamples_tracked (samples.take (blockEvents - w.sampleBuf.length)) period h
    rw [pushSampleLoop]
    split_ifs with hnil
    · exact h
    · simp only
      split_ifs
      · exact ih _ (flushSamples_tracked hstored)
      · exact flushSamples_tracked hstored
      · exact ih _ hstored

theorem pushSamples_tracked (samples : List TraceEvent) (period : UInt64) (call : OpenCall)
    (h : Tracked t w) : Tracked t (pushSamples lz w samples period call).1 := by
  have hopen := h.spares (ensureOpen_spares w call)
  have hjoin : Tracked t (flushIncompatible lz (ensureOpen w call).1 period).1 := by
    rw [flushIncompatible]
    split_ifs
    · exact flushSamples_tracked hopen
    · exact hopen
  have hloop := pushSampleLoop_tracked lz period (samples.length + 1) samples hjoin
  rw [pushSamples]
  split_ifs
  · exact h
  · exact h
  · simp only
    split_ifs
    · exact hopen
    · exact hjoin
    · exact hloop
    · rw [flushLongBatch]
      split_ifs
      · exact flushSamples_tracked hloop
      · exact hloop

theorem publish_tracked (h : Tracked t w) : Tracked t (publish lz w).1 := by
  rw [publish]
  split_ifs
  · exact h
  · exact flushSampleBuf_tracked (flushBlock_tracked h)

theorem finalizeCurrentFile_tracked (lz : Lz4) (terminal : UInt16) (e : FinalizeFaults)
    (h : Tracked t w) : Tracked t (finalizeCurrentFile lz w terminal e).1 := by
  have hflush : Tracked t (flushSamples lz (flushBlock lz w).1).1 :=
    flushSamples_tracked (flushBlock_tracked h)
  have hsame := Spares.refl (flushSamples lz (flushBlock lz w).1).1
  rw [finalizeCurrentFile]
  simp only
  split
  · exact hflush
  · refine hflush.spares ?_
    split_ifs
    · exact ⟨rfl, rfl, rfl, TransitionLog.flushed_subset_flush _, hsame.met, id, hsame.samples⟩
    · exact ⟨rfl, rfl, rfl, hsame.flushed, hsame.met, id, hsame.samples⟩

theorem checkRotation_tracked (hour : ℤ) (e : FinalizeFaults) (renamed : Bool) (h : Tracked t w) :
    Tracked t (checkRotation lz w hour e renamed) := by
  have hsame := Spares.refl (finalizeCurrentFile lz w flagRotated e).1
  rw [checkRotation]
  split_ifs
  · exact h
  · exact h
  · exact (finalizeCurrentFile_tracked lz flagRotated e h).spares
      ⟨rfl, rfl, rfl, hsame.flushed, hsame.met, id, hsame.samples⟩
  · exact (finalizeCurrentFile_tracked lz flagRotated e h).spares
      ⟨rfl, rfl, rfl, hsame.flushed, hsame.met, id, hsame.samples⟩

theorem closeWriter_tracked (e : FinalizeFaults) (h : Tracked t w) :
    Tracked t (closeWriter lz w e) := by
  have hsame := Spares.refl (finalizeCurrentFile lz w flagClosedClean e).1
  rw [closeWriter]
  split_ifs
  · exact h
  · exact (finalizeCurrentFile_tracked lz flagClosedClean e h).spares
      ⟨rfl, rfl, rfl, hsame.flushed, hsame.met, id, hsame.samples⟩

/-! ### Runs -/

/-- The transition a call pushes. -/
def WriterCall.transition : WriterCall → Option TraceEvent
  | .pushEvent ev _ _ => some ev
  | _ => none

/-- The bound on the timestamps after a call. -/
def WriterCall.latest (t : UInt64) (c : WriterCall) : UInt64 :=
  (c.transition.map (·.timestampNs)).getD t

theorem writerStep_tracked (lz : Lz4) (c : WriterCall) (h : Tracked t w)
    (ht : ∀ ev ∈ c.transition, t ≤ ev.timestampNs) : Tracked (c.latest t) (writerStep lz w c) := by
  have hsame := Spares.refl w
  have hw : ∀ faults, Tracked t { w with faults := faults } := fun faults =>
    h.spares ⟨rfl, rfl, rfl, hsame.flushed, hsame.met, id, hsame.samples⟩
  cases c with
  | pushEvent ev call faults => exact pushEvent_tracked call (hw faults) (ht ev rfl)
  | pushSamples samples period call faults =>
    exact pushSamples_tracked samples period call (hw faults)
  | publish faults => exact publish_tracked (hw faults)
  | checkRotation hour e renamed faults => exact checkRotation_tracked hour e renamed (hw faults)
  | close e faults => exact closeWriter_tracked e (hw faults)

/-- The transitions of a run are pushed in the order of their timestamps. -/
def PushedInOrder (calls : List WriterCall) : Prop :=
  (calls.filterMap WriterCall.transition).Pairwise fun a b => a.timestampNs ≤ b.timestampNs

theorem tracked_foldl (lz : Lz4) (calls : List WriterCall) (h : Tracked t w)
    (hord : PushedInOrder calls)
    (ht : ∀ ev ∈ calls.filterMap WriterCall.transition, t ≤ ev.timestampNs) :
    ∃ t', Tracked t' (calls.foldl (writerStep lz) w) := by
  induction calls generalizing t w with
  | nil => exact ⟨t, h⟩
  | cons c calls ih =>
    rw [PushedInOrder] at hord
    cases hc : c.transition with
    | none =>
      rw [List.filterMap_cons_none hc] at hord ht
      have hstep := writerStep_tracked lz c h (by simp [hc])
      exact ih hstep hord (by simpa [WriterCall.latest, hc] using ht)
    | some ev =>
      rw [List.filterMap_cons_some hc] at hord ht
      have hstep := writerStep_tracked lz c h (by simpa [hc] using ht ev List.mem_cons_self)
      refine ih hstep (List.pairwise_cons.1 hord).2 ?_
      simpa [WriterCall.latest, hc] using (List.pairwise_cons.1 hord).1

/-- **The watermark is sound after every run in which no block of transitions fails softly.** LZ4
failures and failed flushes of sample blocks, index failures, incomplete writes, failed rotations
and failed opens are all allowed. -/
theorem run_committedSound (lz : Lz4) (pgVersion : UInt32) (cpuMeasured : Bool)
    (calls : List WriterCall) (hord : PushedInOrder calls)
    (hmet : ∀ m ∈ (calls.foldl (writerStep lz) (initWriter pgVersion cpuMeasured)).log.met,
      m.1.failsSoftly m.2 = false) :
    CommittedSound (calls.foldl (writerStep lz) (initWriter pgVersion cpuMeasured)) := by
  have hinit : Tracked 0 (initWriter pgVersion cpuMeasured) := by
    refine ⟨nofun, .inr ⟨fun t _ => ?_, nofun, .nil, nofun, .inl nofun, fun h => absurd rfl h⟩⟩
    exact UInt64.le_iff_toNat_le.2 (Nat.zero_le _)
  obtain ⟨t, h⟩ := tracked_foldl lz calls hinit hord
    fun ev _ => UInt64.le_iff_toNat_le.2 (Nat.zero_le _)
  rcases h.sound with ⟨m, hm, hsoft⟩ | hwm
  · rw [hmet m hm] at hsoft
    cases hsoft
  · exact hwm.committedSound

/-- A transition that ends at 1 ns. -/
def firstOfTwo : TraceEvent := ⟨1, 4242, 0x0A000001, 0, 0, 1, 7, 0⟩

/-- Two transitions and a publication whose block write meets `e`. -/
def twoEventRun (e : BlockFaults) : List WriterCall :=
  [.pushEvent firstOfTwo {} [], .pushEvent laterEvent {} [], .publish [e]]

theorem twoEventRun_log {e : BlockFaults} (he : e = {} ∨ e = { flush := .kept }) :
    let w := (twoEventRun e).foldl (writerStep literalLz4) (initWriter 170000 true)
    w.committedThroughNs = 2 ∧ w.log.accepted = [firstOfTwo, laterEvent] ∧
      w.log.flushed = (if e.flush = .done then [firstOfTwo, laterEvent] else []) ∧
      w.log.met = [(e, false)] := by
  obtain ⟨block, hblock⟩ := typedBlock_isSome literalLz4 .transitions 0
    (show [firstOfTwo, laterEvent] ≠ [] by simp) (by decide)
  have hopen : [WriterCall.pushEvent firstOfTwo {} [], .pushEvent laterEvent {} []].foldl
      (writerStep literalLz4) (initWriter 170000 true) =
      { initWriter 170000 true with
        events := [firstOfTwo, laterEvent]
        currentHour := 0
        file := some ⟨(newHeader 170000 {}).bytes, flagLz4 ||| flagClosureTracked, [],
          [firstOfTwo, laterEvent]⟩
        log := { accepted := [firstOfTwo, laterEvent] } } := by
    simp [writerStep, pushEvent, ensureOpen, openTraceFile, recoverLeftover, initWriter, storeEvent,
      EventWriter.stamp, blockEvents, OpenFile.accept]
    rfl
  have hrun : (twoEventRun e).foldl (writerStep literalLz4) (initWriter 170000 true) =
      writerStep literalLz4
        ([WriterCall.pushEvent firstOfTwo {} [], .pushEvent laterEvent {} []].foldl
          (writerStep literalLz4) (initWriter 170000 true)) (.publish [e]) := rfl
  rw [hrun, hopen]
  rcases he with rfl | rfl <;>
    simp [writerStep, publish, initWriter, flushBlock, EventWriter.samplesFirst, flushBlockCore,
      writeTypedBlock, writeBlock, hblock, EventWriter.nextFaults, appendBlock, flushSampleBuf,
      TransitionLog.meet, TransitionLog.stream, TransitionLog.flush, lastTs] <;> rfl

/-- The two transitions are published: both are in a flushed block, below or at the watermark. -/
theorem run_committedSound_twoEvents :
    let w := (twoEventRun {}).foldl (writerStep literalLz4) (initWriter 170000 true)
    w.committedThroughNs = 2 ∧ CommittedSound w := by
  obtain ⟨hcom, -, -, hmet⟩ := twoEventRun_log (.inl rfl)
  refine ⟨hcom, run_committedSound literalLz4 170000 true _ ?_ ?_⟩
  · simp only [PushedInOrder, twoEventRun, List.filterMap_cons, WriterCall.transition]
    decide
  · rw [hmet]
    decide

/-- The `fflush` of the publication fails: the watermark is at 2 ns, and the transition at 1 ns is in
no flushed block. -/
theorem committedThrough_before_flush :
    ¬ CommittedSound ((twoEventRun { flush := .kept }).foldl (writerStep literalLz4)
      (initWriter 170000 true)) := by
  obtain ⟨hcom, hacc, hflushed, -⟩ := twoEventRun_log (.inr rfl)
  intro hsound
  have hmem := hsound firstOfTwo (by rw [hacc]; exact List.mem_cons_self) (by rw [hcom]; decide)
  rw [hflushed] at hmem
  exact absurd hmem (by decide)

end PgWaitTracer
