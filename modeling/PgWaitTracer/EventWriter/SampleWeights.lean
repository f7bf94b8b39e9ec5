import Mathlib.Data.UInt
import PgWaitTracer.EventWriter.IndexSorted
import PgWaitTracer.Lib.Tally

/-!
# The weight of samples

A sample stands for the period of the tick that took it. The writer batches the samples of several
ticks into one block, with one period for all of them: the mean of the periods, rounded down. A block
loses less than a nanosecond for each of its samples by this, and a tick whose period is off by more
than 1/64 is not batched with the ones before it.

## Main results

* `Batcher.run_weighs`: what the batcher cuts in a run.
* `samplesWritten_of_run`: batching keeps the samples, their order and their weight.
-/

namespace PgWaitTracer

/-! ### Parts -/

/-- A sample with the period of its push. -/
abbrev SamplePush := TraceEvent × UInt64

/-- The samples among the pushes. -/
def samplePushes (l : List (BlockType × TraceEvent × UInt64)) : List SamplePush :=
  (l.filter fun x => x.1 = .samples).map (·.2)

theorem samplePushes_append (l : List (BlockType × TraceEvent × UInt64))
    (x : BlockType × TraceEvent × UInt64) :
    samplePushes (l ++ [x]) = samplePushes l ++ if x.1 = .samples then [x.2] else [] := by
  rw [samplePushes, List.filter_append, List.map_append, samplePushes]
  split_ifs with h
  · simp [h]
  · simp [h]

/-- What the samples stand for. -/
def weightOf (part : List SamplePush) : ℕ := (part.map fun x => x.2.toNat).sum

/-- What the writer adds up, in 64 bits. -/
def weightWord (part : List SamplePush) : UInt64 := (part.map Prod.snd).sum

/-- The period `p` is within 1/64 of `p0`. -/
def Near (p0 p : UInt64) : Prop :=
  p.toNat ≤ p0.toNat + p0.toNat / 64 ∧ p0.toNat ≤ p.toNat + p0.toNat / 64

/-- Every period is within 1/64 of the first one. -/
def NearFirst (part : List SamplePush) : Prop :=
  ∀ first, part.head? = some first → ∀ x ∈ part, Near first.2 x.2

theorem near_self (p : UInt64) : Near p p := ⟨Nat.le_add_right _ _, Nat.le_add_right _ _⟩

theorem nearFirst_nil : NearFirst [] := fun _ h => absurd h (by simp)

variable {part : List SamplePush}

theorem NearFirst.concat (h : NearFirst part) {x : SamplePush}
    (hx : ∀ first, part.head? = some first → Near first.2 x.2) : NearFirst (part ++ [x]) := by
  intro first hfirst y hy
  cases part with
  | nil =>
    obtain rfl : x = first := Option.some.inj hfirst
    obtain rfl := List.mem_singleton.mp hy
    exact near_self _
  | cons a part =>
    obtain rfl : a = first := Option.some.inj hfirst
    rcases List.mem_append.mp hy with hy | hy
    · exact h a rfl y hy
    · obtain rfl := List.mem_singleton.mp hy
      exact hx a rfl

open scoped UInt64.CommRing in
theorem weightWord_concat (part : List SamplePush) (x : SamplePush) :
    weightWord (part ++ [x]) = weightWord part + x.2 := by
  rw [weightWord, List.map_append, List.sum_append, List.map_singleton, List.sum_singleton,
    weightWord]

theorem toNat_weightWord (h : weightOf part < 2 ^ 64) : (weightWord part).toNat = weightOf part :=
  (Tally.toNat_sum_map_eq_iff Prod.snd part).mpr h

/-! ### The batcher -/

namespace Batcher

variable {l : List (BlockType × TraceEvent × UInt64)} {b : Batcher}

theorem near_of_deviates {periodNs : UInt64} (h : b.deviates periodNs = false) :
    Near b.periodNs periodNs := by
  rw [deviates, decide_eq_false_iff_not] at h
  have hdiv : (b.periodNs / 64).toNat = b.periodNs.toNat / 64 := UInt64.toNat_div ..
  rw [UInt64.lt_iff_toNat_lt, hdiv] at h
  split_ifs at h with hlt
  · rw [UInt64.lt_iff_toNat_lt] at hlt
    rw [UInt64.toNat_sub_of_le _ _ (UInt64.le_iff_toNat_le.mpr hlt.le)] at h
    exact ⟨by omega, by omega⟩
  · rw [UInt64.lt_iff_toNat_lt] at hlt
    rw [UInt64.toNat_sub_of_le _ _ (UInt64.le_iff_toNat_le.mpr (by omega))] at h
    exact ⟨by omega, by omega⟩

/-- The samples that were pushed are the batches of samples, in parts of near periods, and what is
pending. -/
structure Weighs (l : List (BlockType × TraceEvent × UInt64)) (b : Batcher)
    (parts : List (List SamplePush)) (pending : List SamplePush) : Prop where
  order : parts.flatten ++ pending = samplePushes l
  samples : b.samples = pending.map Prod.fst
  weight : b.weightNs = weightWord pending
  first : ∀ first, pending.head? = some first → b.periodNs = first.2
  near : NearFirst pending
  parts_near : ∀ part ∈ parts, part ≠ [] ∧ NearFirst part
  written : (b.written.filter fun x => x.type = .samples).map Batch.events =
    parts.map fun part => part.map Prod.fst
  periods : b.blockPeriods = parts.map fun part => weightWord part / UInt64.ofNat part.length

/-- There are such parts. -/
def Weighed (l : List (BlockType × TraceEvent × UInt64)) (b : Batcher) : Prop :=
  ∃ parts pending, Weighs l b parts pending

theorem weighed_cutsKeep (l : List (BlockType × TraceEvent × UInt64)) : CutsKeep (Weighed l) := by
  refine ⟨?_, ?_⟩
  · rintro b - - ⟨parts, pending, h⟩
    refine ⟨parts, pending, { h with written := ?_ }⟩
    rw [List.filter_append, List.map_append, h.written]
    simp
  · rintro b hne - ⟨parts, pending, h⟩
    have hpending : pending ≠ [] := by
      rintro rfl
      exact hne h.samples
    refine ⟨parts ++ [pending], [], ?_, rfl, rfl, fun _ h => absurd h (by simp), nearFirst_nil,
      ?_, ?_, ?_⟩
    · rw [List.flatten_append, List.flatten_singleton, List.append_nil]
      exact h.order
    · rw [List.forall_mem_append]
      exact ⟨h.parts_near, List.forall_mem_singleton.mpr ⟨hpending, h.near⟩⟩
    · rw [List.filter_append, List.map_append, h.written, List.map_append]
      simp [h.samples]
    · rw [h.periods, List.map_append, meanPeriodNs, h.weight, h.samples, List.length_map]
      rfl

/-- **What is cut in a run.** -/
theorem run_weighs {w : EventWriter} (hw : w.sampleBufWeightNs = 0) (calls : List WriterCall) :
    Weighed (calls.flatMap WriterCall.weighedPushes) (calls.foldl step w.batcher) := by
  refine weighedRun_invariant weighed_cutsKeep ?_ ?_ ?_ calls
  · rintro l b ev ⟨parts, pending, h⟩
    refine ⟨parts, pending, { h with order := ?_ }⟩
    rw [samplePushes_append, if_neg (by simp), List.append_nil]
    exact h.order
  · rintro l b periodNs ev hacc ⟨parts, pending, h⟩
    have hnil : b.samples = [] ↔ pending = [] := by rw [h.samples, List.map_eq_nil_iff]
    refine ⟨parts, pending ++ [(ev, periodNs)], ?_, ?_, ?_, ?_, ?_, h.parts_near, h.written,
      h.periods⟩
    · rw [samplePushes_append, if_pos rfl, ← h.order, List.append_assoc]
    · rw [List.map_append, ← h.samples]
      rfl
    · rw [weightWord_concat, ← h.weight]
      rfl
    · intro first hfirst
      simp only [storeSample, hnil]
      cases pending with
      | nil =>
        obtain rfl : (ev, periodNs) = first := Option.some.inj hfirst
        rfl
      | cons x pending => exact h.first first hfirst
    · refine h.near.concat fun first hfirst => ?_
      rw [← h.first first hfirst]
      refine near_of_deviates (hacc fun hb => ?_)
      rw [hnil.mp hb] at hfirst
      exact absurd hfirst (by simp)
  · exact ⟨[], [], rfl, rfl, hw, fun _ h => absurd h (by simp), nearFirst_nil,
      fun _ h => absurd h List.not_mem_nil, rfl, rfl⟩

end Batcher

/-! ### Periods of blocks -/

/-- What the block of a part stands for: its samples, each for the mean period. -/
def blockWeight (part : List SamplePush) : ℕ :=
  part.length * (weightWord part / UInt64.ofNat part.length).toNat

theorem blockWeight_close (hne : part ≠ []) (hmax : part.length ≤ blockEvents)
    (hfits : weightOf part < 2 ^ 64) :
    blockWeight part ≤ weightOf part ∧ weightOf part < blockWeight part + part.length := by
  have hlength : (UInt64.ofNat part.length).toNat = part.length := by
    rw [blockEvents] at hmax
    rw [UInt64.toNat_ofNat', Nat.mod_eq_of_lt (by omega)]
  have hpos : 0 < part.length := List.length_pos_iff.mpr hne
  rw [blockWeight, UInt64.toNat_div, hlength, toNat_weightWord hfits]
  refine ⟨Nat.mul_div_le _ _, ?_⟩
  have hmod := Nat.mod_lt (weightOf part) hpos
  have hdiv := Nat.div_add_mod (weightOf part) part.length
  omega

theorem weightOf_append (part more : List SamplePush) :
    weightOf (part ++ more) = weightOf part + weightOf more := by
  rw [weightOf, List.map_append, List.sum_append, ← weightOf, ← weightOf]

theorem sum_blockWeight_close : {parts : List (List SamplePush)} →
    (∀ part ∈ parts, part ≠ []) → (∀ part ∈ parts, part.length ≤ blockEvents) →
    (∀ part ∈ parts, weightOf part < 2 ^ 64) →
    (parts.map blockWeight).sum ≤ weightOf parts.flatten ∧
      weightOf parts.flatten + parts.length ≤
        (parts.map blockWeight).sum + parts.flatten.length
  | [], _, _, _ => ⟨Nat.le_refl _, Nat.le_refl _⟩
  | part :: parts, hne, hmax, hfits => by
    rw [List.forall_mem_cons] at hne hmax hfits
    obtain ⟨hle, hlt⟩ := blockWeight_close hne.1 hmax.1 hfits.1
    obtain ⟨ihle, ihlt⟩ := sum_blockWeight_close hne.2 hmax.2 hfits.2
    rw [List.map_cons, List.sum_cons, List.flatten_cons, weightOf_append, List.length_append,
      List.length_cons]
    exact ⟨by omega, by omega⟩

/-- What the samples of a push stand for. -/
def WriterCall.sampleWeightNs : WriterCall → ℕ
  | .pushSamples samples periodNs _ _ => samples.length * periodNs.toNat
  | _ => 0

theorem weightOf_samplePushes (calls : List WriterCall) :
    weightOf (samplePushes (calls.flatMap WriterCall.weighedPushes)) =
      (calls.map WriterCall.sampleWeightNs).sum := by
  induction calls with
  | nil => rfl
  | cons c calls ih =>
    have hcall : weightOf (samplePushes c.weighedPushes) = c.sampleWeightNs := by
      cases c with
      | pushSamples samples periodNs call faults =>
        simp [WriterCall.weighedPushes, samplePushes, weightOf, WriterCall.sampleWeightNs,
          List.filter_map, Function.comp_def]
      | _ => rfl
    rw [List.flatMap_cons, List.map_cons, List.sum_cons, ← ih, ← hcall, ← weightOf_append,
      samplePushes, List.filter_append, List.map_append, ← samplePushes, ← samplePushes]

/-! ### Files -/

variable {lz : Lz4}

/-- The blocks of samples. -/
def sampleBlocks (blocks : List (WrittenBlock lz)) : List (WrittenBlock lz) :=
  blocks.filter fun b => b.type = .samples

/-- What the headers of the blocks of samples say: their samples, each for the period of its
block. -/
def writtenWeight (blocks : List (WrittenBlock lz)) : ℕ :=
  ((sampleBlocks blocks).map fun b =>
    b.image.header.numEvents.toNat * b.image.header.samplePeriodNs.toNat).sum

theorem headerWeight_eq (b : WrittenBlock lz) :
    b.image.header.numEvents.toNat * b.image.header.samplePeriodNs.toNat =
      b.events.length * b.period.toNat := by
  obtain ⟨size, csize, hheader⟩ := b.header_eq
  have hmax := b.events_le
  rw [blockEvents] at hmax
  rw [hheader]
  simp only [blockHeaderOf]
  rw [UInt32.toNat_ofNat', Nat.mod_eq_of_lt (by omega)]

/-- The blocks of samples are the pushed samples, each once and in the order of the pushes, in parts
of near periods, up to what is pending. -/
structure SamplesWritten (lz : Lz4) (w : EventWriter) (pushed : List SamplePush)
    (parts : List (List SamplePush)) (pending : List SamplePush)
    (blocks : List (WrittenBlock lz)) : Prop extends FileBlocks w blocks where
  order : parts.flatten ++ pending = pushed
  events : (sampleBlocks blocks).map WrittenBlock.events = parts.map fun part => part.map Prod.fst
  sampleBuf : w.sampleBuf = pending.map Prod.fst
  near : ∀ part ∈ parts, NearFirst part
  weight : (∀ part ∈ parts, weightOf part < 2 ^ 64) →
    writtenWeight blocks ≤ weightOf parts.flatten ∧
      (parts.flatten ≠ [] →
        weightOf parts.flatten < writtenWeight blocks + parts.flatten.length)

/-- The file of a writer whose blocks are the batches of a batcher. -/
theorem FileBlocks.samplesWritten {w : EventWriter} {blocks : List (WrittenBlock lz)}
    (h : FileBlocks w blocks) {b : Batcher} (hb : blocks.map WrittenBlock.batch = b.written)
    (hperiods : samplePeriods blocks = b.blockPeriods) (hsampleBuf : w.sampleBuf = b.samples)
    {l : List (BlockType × TraceEvent × UInt64)} {parts : List (List SamplePush)}
    {pending : List SamplePush} (hweighs : b.Weighs l parts pending) :
    SamplesWritten lz w (samplePushes l) parts pending blocks := by
  have hevents : (sampleBlocks blocks).map WrittenBlock.events =
      parts.map fun part => part.map Prod.fst := by
    rw [← hweighs.written, ← hb, List.filter_map, List.map_map]
    rfl
  have hmax : ∀ part ∈ parts, part.length ≤ blockEvents := by
    intro part hpart
    have hmem := List.mem_map_of_mem (f := fun part => part.map Prod.fst) hpart
    rw [← hevents] at hmem
    obtain ⟨blk, -, hblk⟩ := List.mem_map.mp hmem
    have hle := blk.events_le
    rwa [hblk, List.length_map] at hle
  have hweight : writtenWeight blocks = (parts.map blockWeight).sum := by
    have hzip := congrArg₂ (List.zipWith fun (evs : List TraceEvent) (p : UInt64) =>
      evs.length * p.toNat) hevents (hperiods.trans hweighs.periods)
    rw [samplePeriods, ← sampleBlocks, List.zipWith_map, List.zipWith_self, List.zipWith_map,
      List.zipWith_self] at hzip
    rw [writtenWeight, List.map_congr_left fun blk _ => headerWeight_eq blk, hzip]
    simp only [List.length_map]
    rfl
  refine ⟨h, hweighs.order, hevents, hsampleBuf.trans hweighs.samples,
    fun part hpart => (hweighs.parts_near part hpart).2, fun hfits => ?_⟩
  obtain ⟨hle, hlt⟩ := sum_blockWeight_close
    (fun part hpart => (hweighs.parts_near part hpart).1) hmax hfits
  refine ⟨hweight ▸ hle, fun hne => ?_⟩
  have hparts : 0 < parts.length := List.length_pos_iff.mpr fun hnil => hne (by rw [hnil]; rfl)
  rw [hweight]
  omega

/-- **Weights and order.** After pushes and publications without failures every sample is in exactly
one block or pending, in the order of the pushes, and after the finalisation none is pending. The
samples of a block are from pushes with periods within 1/64 of the first one. As long as the sums of
the writer do not wrap, the headers say what the pushes said, less than a nanosecond for each
sample short of it. -/
theorem samplesWritten_of_run (lz : Lz4) {w : EventWriter} (hw : w.Fresh)
    (hweight : w.sampleBufWeightNs = 0) {calls : List WriterCall}
    (hcalls : ∀ c ∈ calls, c.Succeeds) {faults : List BlockFaults}
    (hfaults : ∀ e ∈ faults, e.Succeeds) (terminal : UInt16) {e : FinalizeFaults}
    (he : e.Succeeds) :
    let pushed := samplePushes (calls.flatMap WriterCall.weighedPushes)
    let w' := calls.foldl (writerStep lz) w
    let final := (finalizeCurrentFile lz { w' with faults := faults } terminal e).1
    weightOf pushed = (calls.map WriterCall.sampleWeightNs).sum ∧
      (∃ parts pending blocks, SamplesWritten lz w' pushed parts pending blocks) ∧
      ∃ parts blocks, SamplesWritten lz final pushed parts [] blocks := by
  intro pushed w' final
  have hrun := Batcher.run_weighs hweight calls
  obtain ⟨parts', pending', hweighs'⟩ := (Batcher.weighed_cutsKeep _).finalize hrun
  obtain ⟨parts, pending, hweighs⟩ := hrun
  obtain ⟨blocks, hblocks, hbatches, hperiods⟩ := run_fileBlocks lz hw hcalls
  obtain ⟨-, hsampleBuf⟩ := (writerRun_tracks lz hw hcalls).pending
  obtain ⟨blocks', hblocks', hbatches', hperiods', -, hsampleBuf'⟩ :=
    finalize_fileBlocks lz hw hcalls hfaults terminal he
  obtain rfl : pending' = [] := by
    have hnil := hweighs'.samples
    rw [Batcher.finalize, Batcher.samples_cutForSamples] at hnil
    exact List.map_eq_nil_iff.mp hnil.symm
  exact ⟨weightOf_samplePushes calls,
    ⟨parts, pending, blocks, hblocks.samplesWritten hbatches hperiods hsampleBuf hweighs⟩,
    ⟨parts', blocks', hblocks'.samplesWritten hbatches' hperiods'
      (hsampleBuf'.trans Batcher.samples_cutForSamples.symm) hweighs'⟩⟩

/-- Two ticks that share a block, and a stalled one that does not. -/
def stalledTick : List WriterCall :=
  [.pushSamples [earlySample] 100 {} [], .pushSamples [earlySample] 101 {} [],
    .pushSamples [earlySample] 900 {} []]

theorem samplesWritten_stalledTick :
    ∃ parts blocks, SamplesWritten literalLz4
      (finalizeCurrentFile literalLz4
        { stalledTick.foldl (writerStep literalLz4) (initWriter 170000 true) with faults := [] }
        flagRotated {}).1
      [(earlySample, 100), (earlySample, 101), (earlySample, 900)] parts [] blocks := by
  have hcalls : ∀ c ∈ stalledTick, c.Succeeds := by
    simp [stalledTick, WriterCall.Succeeds, OpenCall.Succeeds]
  have hfaults : ∀ e ∈ ([] : List BlockFaults), e.Succeeds := fun _ he => absurd he List.not_mem_nil
  have hpushed : samplePushes (stalledTick.flatMap WriterCall.weighedPushes) =
      [(earlySample, 100), (earlySample, 101), (earlySample, 900)] := rfl
  rw [← hpushed]
  exact (samplesWritten_of_run literalLz4 (fresh_initWriter 170000 true) rfl hcalls hfaults
    flagRotated (e := {}) ⟨rfl, rfl, rfl, rfl, rfl⟩).2.2

end PgWaitTracer
