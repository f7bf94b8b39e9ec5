import PgWaitTracer.EventWriter.Closure

/-!
# How the writer cuts its streams into blocks

As long as no write fails, which records share a block depends on the calls alone. The batcher is the
writer without a file: it has the two buffers and the batches that were cut so far, and it takes the
samples of a push one by one.

## Main results

* `writerRun_tracks`: in every run without failures the writer writes the batches of the
  batcher.
-/

namespace PgWaitTracer

open ByteCodec

/-! ### The batcher -/

/-- The records of a block in the order in which they are written. -/
structure Batch where
  type : BlockType
  events : List TraceEvent
  deriving DecidableEq, Repr

/-- The pending records of both streams, the period of the first pending sample and the periods of
all of them added up, the batches cut so far, and the periods of those of samples. -/
structure Batcher where
  cpuMeasured : Bool
  events : List TraceEvent := []
  samples : List TraceEvent := []
  periodNs : UInt64 := 0
  weightNs : UInt64 := 0
  written : List Batch := []
  blockPeriods : List UInt64 := []
  deriving DecidableEq, Repr

namespace Batcher

variable (b : Batcher)

/-- The pending transitions become a batch. -/
def cutEvents : Batcher :=
  if b.events = [] then b
  else { b with events := [], written := b.written ++ [⟨.transitions, b.events⟩] }

/-- The mean period of the pending samples. -/
def meanPeriodNs : UInt64 := b.weightNs / UInt64.ofNat b.samples.length

/-- The pending samples become a batch. -/
def cutSamples : Batcher :=
  if b.samples = [] then b
  else { b with
    samples := []
    periodNs := 0
    weightNs := 0
    written := b.written ++ [⟨.samples, b.samples⟩]
    blockPeriods := b.blockPeriods ++ [b.meanPeriodNs] }

/-- The transitions are cut, behind samples that are older. -/
def cutForEvents : Batcher :=
  if b.samples ≠ [] ∧ b.events ≠ [] ∧ firstTs b.samples < firstTs b.events then
    b.cutSamples.cutEvents
  else b.cutEvents

/-- The samples are cut, behind transitions that are not younger. -/
def cutForSamples : Batcher :=
  if b.events ≠ [] ∧ b.samples ≠ [] ∧ firstTs b.events ≤ firstTs b.samples then
    b.cutEvents.cutSamples
  else b.cutSamples

/-- The record as it is stored. -/
def stamp (ev : TraceEvent) : TraceEvent :=
  if b.cpuMeasured then ev else { ev with cpuNs := cpuNsUnknown }

/-- A transition. A full buffer is cut. -/
def pushEvent (ev : TraceEvent) : Batcher :=
  let b := { b with events := b.events ++ [b.stamp ev] }
  if blockEvents ≤ b.events.length then b.cutForEvents else b

/-- A sample in the buffer. -/
def storeSample (periodNs : UInt64) (b : Batcher) (ev : TraceEvent) : Batcher :=
  { b with
    samples := b.samples ++ [ev]
    periodNs := if b.samples = [] then periodNs else b.periodNs
    weightNs := b.weightNs + periodNs }

/-- A sample. A full buffer is cut. -/
def pushSample (periodNs : UInt64) (b : Batcher) (ev : TraceEvent) : Batcher :=
  let b := storeSample periodNs b ev
  if blockEvents ≤ b.samples.length then b.cutForSamples else b

/-- A period more than 1/64 off that of the pending samples. -/
def deviates (periodNs : UInt64) : Bool :=
  b.periodNs / 64 < (if b.periodNs < periodNs then periodNs - b.periodNs else b.periodNs - periodNs)

/-- Pending samples of another period are cut. -/
def cutDeviating (periodNs : UInt64) : Batcher :=
  if b.samples ≠ [] ∧ b.deviates periodNs then b.cutForSamples else b

/-- Samples that span a second are cut. -/
def cutLong : Batcher :=
  if b.samples ≠ [] ∧ sampleBatchNs ≤ lastTs b.samples - firstTs b.samples then b.cutForSamples
  else b

/-- The samples of a tick. -/
def pushSamples (samples : List TraceEvent) (periodNs : UInt64) : Batcher :=
  if samples = [] then b
  else (samples.foldl (pushSample periodNs) (b.cutDeviating periodNs)).cutLong

/-- Everything that is pending is cut. -/
def publish : Batcher := b.cutForEvents.cutSamples

/-- Everything that is pending is cut, at the end of the file. -/
def finalize : Batcher := b.cutForEvents.cutForSamples

/-- A push or a publication. Rotation and close end the file. -/
def step : WriterCall → Batcher
  | .pushEvent ev _ _ => b.pushEvent ev
  | .pushSamples samples periodNs _ _ => b.pushSamples samples periodNs
  | .publish _ => b.publish
  | .checkRotation .. => b
  | .close .. => b

end Batcher

/-! ### Room in the buffers -/

namespace Batcher

/-- Both buffers have a free slot. -/
structure Room (b : Batcher) : Prop where
  events_lt : b.events.length < blockEvents
  samples_lt : b.samples.length < blockEvents

variable {b : Batcher}

@[simp] theorem events_cutEvents : b.cutEvents.events = [] := by
  rw [cutEvents]
  split_ifs with h
  · exact h
  · rfl

@[simp] theorem samples_cutEvents : b.cutEvents.samples = b.samples := by
  rw [cutEvents]
  split_ifs <;> rfl

@[simp] theorem events_cutSamples : b.cutSamples.events = b.events := by
  rw [cutSamples]
  split_ifs <;> rfl

@[simp] theorem samples_cutSamples : b.cutSamples.samples = [] := by
  rw [cutSamples]
  split_ifs with h
  · exact h
  · rfl

@[simp] theorem events_cutForEvents : b.cutForEvents.events = [] := by
  rw [cutForEvents]
  split_ifs <;> exact events_cutEvents

theorem samples_cutForEvents : b.cutForEvents.samples = b.samples ∨ b.cutForEvents.samples = [] := by
  rw [cutForEvents]
  split_ifs
  · exact Or.inr (samples_cutEvents.trans samples_cutSamples)
  · exact Or.inl samples_cutEvents

@[simp] theorem samples_cutForSamples : b.cutForSamples.samples = [] := by
  rw [cutForSamples]
  split_ifs <;> exact samples_cutSamples

theorem events_cutForSamples : b.cutForSamples.events = b.events ∨ b.cutForSamples.events = [] := by
  rw [cutForSamples]
  split_ifs
  · exact Or.inr (events_cutSamples.trans events_cutEvents)
  · exact Or.inl events_cutSamples

theorem Room.cutForSamples (h : b.events.length < blockEvents) : b.cutForSamples.Room := by
  refine ⟨?_, by rw [samples_cutForSamples]; exact Nat.succ_pos _⟩
  rcases b.events_cutForSamples with heq | heq
  · rwa [heq]
  · rw [heq]
    exact Nat.succ_pos _

theorem Room.cutForEvents (h : b.samples.length < blockEvents) : b.cutForEvents.Room := by
  refine ⟨by rw [events_cutForEvents]; exact Nat.succ_pos _, ?_⟩
  rcases b.samples_cutForEvents with heq | heq
  · rwa [heq]
  · rw [heq]
    exact Nat.succ_pos _

theorem Room.pushEvent (h : b.Room) (ev : TraceEvent) : (b.pushEvent ev).Room := by
  simp only [Batcher.pushEvent]
  split_ifs with hfull
  · exact Room.cutForEvents h.samples_lt
  · exact ⟨Nat.not_le.1 hfull, h.samples_lt⟩

theorem Room.pushSample (h : b.Room) (periodNs : UInt64) (ev : TraceEvent) :
    (b.pushSample periodNs ev).Room := by
  simp only [Batcher.pushSample]
  split_ifs with hfull
  · exact Room.cutForSamples h.events_lt
  · exact ⟨h.events_lt, Nat.not_le.1 hfull⟩

theorem Room.cutDeviating (h : b.Room) (periodNs : UInt64) : (b.cutDeviating periodNs).Room := by
  rw [Batcher.cutDeviating]
  split_ifs
  · exact Room.cutForSamples h.events_lt
  · exact h

theorem Room.cutLong (h : b.Room) : b.cutLong.Room := by
  rw [Batcher.cutLong]
  split_ifs
  · exact Room.cutForSamples h.events_lt
  · exact h

theorem Room.pushSamples (h : b.Room) (samples : List TraceEvent) (periodNs : UInt64) :
    (b.pushSamples samples periodNs).Room := by
  rw [Batcher.pushSamples]
  split_ifs
  · exact h
  · refine Room.cutLong (List.foldlRecOn _ _ (h.cutDeviating periodNs) fun b hb ev _ => ?_)
    exact hb.pushSample periodNs ev

theorem room_publish (b : Batcher) : b.publish.Room :=
  ⟨by rw [Batcher.publish, events_cutSamples, events_cutForEvents]; exact Nat.succ_pos _,
    by rw [Batcher.publish, samples_cutSamples]; exact Nat.succ_pos _⟩

theorem foldl_storeSample (periodNs : UInt64) (b : Batcher) (samples : List TraceEvent) :
    samples.foldl (storeSample periodNs) b =
      { b with
        samples := b.samples ++ samples
        periodNs := if b.samples = [] ∧ samples ≠ [] then periodNs else b.periodNs
        weightNs := b.weightNs + UInt64.ofNat samples.length * periodNs } := by
  induction samples using List.reverseRecOn with
  | nil => simp
  | append_singleton samples ev ih =>
    have hweight : b.weightNs + UInt64.ofNat samples.length * periodNs + periodNs =
        b.weightNs + UInt64.ofNat (samples ++ [ev]).length * periodNs := by
      rw [List.length_append, List.length_singleton, UInt64.ofNat_add, UInt64.add_mul,
        ← UInt64.add_assoc]
      exact congrArg _ (UInt64.one_mul periodNs).symm
    rw [List.foldl_append, ih, List.foldl_cons, List.foldl_nil, storeSample, hweight]
    by_cases hb : b.samples = []
    · by_cases hs : samples = [] <;> simp [hb, hs]
    · simp [hb]

theorem foldl_pushSample (periodNs : UInt64) (b : Batcher) (samples : List TraceEvent)
    (hlt : b.samples.length < blockEvents)
    (hfit : b.samples.length + samples.length ≤ blockEvents) :
    samples.foldl (Batcher.pushSample periodNs) b =
      if blockEvents ≤ (samples.foldl (storeSample periodNs) b).samples.length then
        (samples.foldl (storeSample periodNs) b).cutForSamples
      else samples.foldl (storeSample periodNs) b := by
  induction samples using List.reverseRecOn with
  | nil => exact (if_neg (Nat.not_le.2 hlt)).symm
  | append_singleton samples ev ih =>
    rw [List.length_append, List.length_singleton] at hfit
    have hbefore : ¬ blockEvents ≤ (samples.foldl (storeSample periodNs) b).samples.length := by
      rw [foldl_storeSample, List.length_append]
      omega
    rw [List.foldl_append, List.foldl_append, ih (by omega), if_neg hbefore]
    rfl

/-! ### Invariants of the batcher -/

/-- A cut keeps the property. Only the buffer with the older first record is cut. -/
structure CutsKeep (P : Batcher → Prop) : Prop where
  cutEvents : ∀ b : Batcher, b.events ≠ [] →
    (b.samples ≠ [] → firstTs b.events ≤ firstTs b.samples) → P b →
    P { b with events := [], written := b.written ++ [⟨.transitions, b.events⟩] }
  cutSamples : ∀ b : Batcher, b.samples ≠ [] →
    (b.events ≠ [] → firstTs b.samples < firstTs b.events) → P b →
    P { b with
      samples := []
      periodNs := 0
      weightNs := 0
      written := b.written ++ [⟨.samples, b.samples⟩]
      blockPeriods := b.blockPeriods ++ [b.meanPeriodNs] }

namespace CutsKeep

variable {P : Batcher → Prop} (hP : CutsKeep P)

include hP

theorem events (hlead : b.samples ≠ [] → b.events ≠ [] → firstTs b.events ≤ firstTs b.samples)
    (h : P b) : P b.cutEvents := by
  rw [Batcher.cutEvents]
  split_ifs with hnil
  · exact h
  · exact hP.cutEvents b hnil (fun hs => hlead hs hnil) h

theorem samples (hlead : b.events ≠ [] → b.samples ≠ [] → firstTs b.samples < firstTs b.events)
    (h : P b) : P b.cutSamples := by
  rw [Batcher.cutSamples]
  split_ifs with hnil
  · exact h
  · exact hP.cutSamples b hnil (fun he => hlead he hnil) h

theorem cutForEvents (h : P b) : P b.cutForEvents := by
  rw [Batcher.cutForEvents]
  split_ifs with hfirst
  · refine hP.events (fun hs => absurd samples_cutSamples hs) ?_
    exact hP.samples (fun _ _ => hfirst.2.2) h
  · refine hP.events (fun hs he => ?_) h
    rw [UInt64.le_iff_toNat_le, ← Nat.not_lt, ← UInt64.lt_iff_toNat_lt]
    exact fun hlt => hfirst ⟨hs, he, hlt⟩

theorem cutForSamples (h : P b) : P b.cutForSamples := by
  rw [Batcher.cutForSamples]
  split_ifs with hfirst
  · refine hP.samples (fun he => absurd events_cutEvents he) ?_
    exact hP.events (fun _ _ => hfirst.2.2) h
  · refine hP.samples (fun he hs => ?_) h
    rw [UInt64.lt_iff_toNat_lt, ← Nat.not_le, ← UInt64.le_iff_toNat_le]
    exact fun hle => hfirst ⟨he, hs, hle⟩

theorem publish (h : P b) : P b.publish :=
  hP.samples (fun he => absurd events_cutForEvents he) (hP.cutForEvents h)

theorem finalize (h : P b) : P b.finalize := hP.cutForSamples (hP.cutForEvents h)

theorem cutDeviating (periodNs : UInt64) (h : P b) : P (b.cutDeviating periodNs) := by
  rw [Batcher.cutDeviating]
  split_ifs
  · exact hP.cutForSamples h
  · exact h

theorem cutLong (h : P b) : P b.cutLong := by
  rw [Batcher.cutLong]
  split_ifs
  · exact hP.cutForSamples h
  · exact h

end CutsKeep

end Batcher

/-- What a call pushes, each record with its stream. -/
def WriterCall.pushes : WriterCall → List (BlockType × TraceEvent)
  | .pushEvent ev _ _ => [(.transitions, ev)]
  | .pushSamples samples _ _ _ => samples.map fun ev => (.samples, ev)
  | .publish _ => []
  | .checkRotation .. => []
  | .close .. => []

/-- What a call pushes, each record with its stream and with the period of the push; transitions have
none. -/
def WriterCall.weighedPushes : WriterCall → List (BlockType × TraceEvent × UInt64)
  | .pushEvent ev _ _ => [(.transitions, ev, 0)]
  | .pushSamples samples periodNs _ _ => samples.map fun ev => (.samples, ev, periodNs)
  | .publish _ => []
  | .checkRotation .. => []
  | .close .. => []

theorem pushes_eq_map (calls : List WriterCall) :
    calls.flatMap WriterCall.pushes =
      (calls.flatMap WriterCall.weighedPushes).map fun x => (x.1, x.2.1) := by
  rw [List.map_flatMap]
  refine congrArg (fun f : WriterCall → List (BlockType × TraceEvent) => calls.flatMap f)
    (funext fun c => ?_)
  cases c with
  | pushSamples samples periodNs call faults =>
    rw [WriterCall.weighedPushes, List.map_map]
    rfl
  | _ => rfl

variable {b : Batcher} {w : EventWriter} {calls : List WriterCall}

namespace Batcher

/-- A push with this period joins the pending samples. -/
def Accepts (b : Batcher) (periodNs : UInt64) : Prop := b.samples ≠ [] → b.deviates periodNs = false

theorem accepts_cutDeviating (b : Batcher) (periodNs : UInt64) :
    (b.cutDeviating periodNs).Accepts periodNs := by
  intro hne
  rw [cutDeviating] at hne ⊢
  split_ifs at hne ⊢ with h
  · exact absurd samples_cutForSamples hne
  · exact Bool.eq_false_iff.mpr fun hd => h ⟨hne, hd⟩

theorem Accepts.pushSample {periodNs : UInt64} (h : b.Accepts periodNs) (ev : TraceEvent) :
    (b.pushSample periodNs ev).Accepts periodNs := by
  intro hne
  simp only [Batcher.pushSample] at hne ⊢
  split_ifs at hne ⊢
  · exact absurd samples_cutForSamples hne
  · by_cases hnil : b.samples = []
    · simp [deviates, storeSample, hnil]
    · have hold := h hnil
      simpa [deviates, storeSample, hnil] using hold

/-- **Invariants of runs.** What holds of an empty batcher, is kept by cuts and follows a record into
its buffer holds of the batcher and the pushes after every run. Samples only follow others that their
period does not deviate from. -/
theorem weighedRun_invariant {P : List (BlockType × TraceEvent × UInt64) → Batcher → Prop}
    (hcut : ∀ l, CutsKeep (P l))
    (hevent : ∀ l b ev, P l b →
      P (l ++ [(.transitions, ev, 0)]) { b with events := b.events ++ [b.stamp ev] })
    (hsample : ∀ l b periodNs ev, b.Accepts periodNs → P l b →
      P (l ++ [(.samples, ev, periodNs)]) (storeSample periodNs b ev))
    {b : Batcher} (h : P [] b) (calls : List WriterCall) :
    P (calls.flatMap WriterCall.weighedPushes) (calls.foldl step b) := by
  have hsamples : ∀ periodNs l b (samples : List TraceEvent), b.Accepts periodNs → P l b →
      (samples.foldl (Batcher.pushSample periodNs) b).Accepts periodNs ∧
        P (l ++ samples.map fun ev => (.samples, ev, periodNs))
          (samples.foldl (Batcher.pushSample periodNs) b) := by
    intro periodNs l b samples hacc hb
    induction samples using List.reverseRecOn with
    | nil => exact ⟨hacc, by simpa using hb⟩
    | append_singleton samples ev ih =>
      have hstore := hsample _ _ periodNs ev ih.1 ih.2
      rw [List.foldl_append, List.foldl_cons, List.foldl_nil, List.map_append, List.map_singleton,
        ← List.append_assoc]
      refine ⟨ih.1.pushSample ev, ?_⟩
      rw [Batcher.pushSample]
      split_ifs
      · exact (hcut _).cutForSamples hstore
      · exact hstore
  induction calls using List.reverseRecOn with
  | nil => exact h
  | append_singleton calls c ih =>
    rw [List.flatMap_append, List.foldl_append, List.foldl_cons, List.foldl_nil,
      List.flatMap_singleton]
    cases c with
    | pushEvent ev call faults =>
      simp only [step, Batcher.pushEvent, WriterCall.weighedPushes]
      split_ifs
      · exact (hcut _).cutForEvents (hevent _ _ ev ih)
      · exact hevent _ _ ev ih
    | pushSamples samples periodNs call faults =>
      simp only [step, Batcher.pushSamples, WriterCall.weighedPushes]
      split_ifs with hnil
      · simpa [hnil] using ih
      · exact (hcut _).cutLong (hsamples periodNs _ _ samples (accepts_cutDeviating _ periodNs)
          ((hcut _).cutDeviating periodNs ih)).2
    | publish faults => simpa [step, WriterCall.weighedPushes] using (hcut _).publish ih
    | checkRotation => simpa [step, WriterCall.weighedPushes] using ih
    | close => simpa [step, WriterCall.weighedPushes] using ih

theorem run_invariant {P : List (BlockType × TraceEvent) → Batcher → Prop}
    (hcut : ∀ l, CutsKeep (P l))
    (hevent : ∀ l b ev, P l b →
      P (l ++ [(.transitions, ev)]) { b with events := b.events ++ [b.stamp ev] })
    (hsample : ∀ l b periodNs ev, P l b → P (l ++ [(.samples, ev)]) (storeSample periodNs b ev))
    {b : Batcher} (h : P [] b) (calls : List WriterCall) :
    P (calls.flatMap WriterCall.pushes) (calls.foldl step b) := by
  rw [pushes_eq_map]
  refine weighedRun_invariant (P := fun l => P (l.map fun x => (x.1, x.2.1)))
    (fun l => hcut _) (fun l b ev hb => ?_) (fun l b periodNs ev _ hb => ?_) h calls
  · rw [List.map_append]
    exact hevent _ _ ev hb
  · rw [List.map_append]
    exact hsample _ _ periodNs ev hb

end Batcher

/-! ### Calls without failures -/

/-- A block write that succeeds. -/
def BlockFaults.Succeeds (e : BlockFaults) : Prop :=
  e.lz4 = false ∧ e.grow = false ∧ e.write = none ∧ e.flush = .done

/-- The file can be opened. -/
def OpenCall.Succeeds (call : OpenCall) : Prop :=
  call.moved = true ∧ call.created = true ∧ call.header = none

/-- A push or a publication that meets no failure. -/
def WriterCall.Succeeds : WriterCall → Prop
  | .pushEvent _ call faults => call.Succeeds ∧ ∀ e ∈ faults, e.Succeeds
  | .pushSamples _ _ call faults => call.Succeeds ∧ ∀ e ∈ faults, e.Succeeds
  | .publish faults => ∀ e ∈ faults, e.Succeeds
  | .checkRotation .. => False
  | .close .. => False

/-! ### The writer and the batcher -/

variable {lz : Lz4}

/-- The records of a block, as a batch. -/
def WrittenBlock.batch (b : WrittenBlock lz) : Batch := ⟨b.type, b.events⟩

/-- The periods of blocks of samples. -/
def samplePeriods (blocks : List (WrittenBlock lz)) : List UInt64 :=
  (blocks.filter fun b => b.type = .samples).map WrittenBlock.period

/-- The writer has the pending records of the batcher, and its open file consists of the batches. -/
structure Mirrors (lz : Lz4) (w : EventWriter) (b : Batcher) : Prop where
  enabled : w.enabled = true
  faults : ∀ e ∈ w.faults, e.Succeeds
  cpuMeasured : w.cpuMeasured = b.cpuMeasured
  events : w.events = b.events
  samples : w.sampleBuf = b.samples
  period : b.samples ≠ [] → w.sampleBufType = .samples ∧ w.sampleBufPeriodNs = b.periodNs
  weight : w.sampleBufWeightNs = b.weightNs
  events_le : b.events.length ≤ blockEvents
  samples_le : b.samples.length ≤ blockEvents
  file : ∃ f hdr blocks, w.file = some f ∧
    Holds f (b.events ++ b.samples) hdr (blocks : List (WrittenBlock lz)) ∧
    blocks.map WrittenBlock.batch = b.written ∧ samplePeriods blocks = b.blockPeriods

theorem writeBlock_settings (lz : Lz4) (w : EventWriter) (f : OpenFile) (evs : List TraceEvent)
    (type : BlockType) (period : UInt64) :
    (writeBlock lz w f evs type period).1.cpuMeasured = w.cpuMeasured ∧
      (writeBlock lz w f evs type period).1.sampleBufType = w.sampleBufType ∧
      (writeBlock lz w f evs type period).1.sampleBufPeriodNs = w.sampleBufPeriodNs ∧
      (writeBlock lz w f evs type period).1.sampleBufWeightNs = w.sampleBufWeightNs := by
  have happend : ∀ (w' : EventWriter) (e : BlockFaults) (block : Bytes),
      (appendBlock w' f e evs type block).1.cpuMeasured = w'.cpuMeasured ∧
        (appendBlock w' f e evs type block).1.sampleBufType = w'.sampleBufType ∧
        (appendBlock w' f e evs type block).1.sampleBufPeriodNs = w'.sampleBufPeriodNs ∧
        (appendBlock w' f e evs type block).1.sampleBufWeightNs = w'.sampleBufWeightNs := by
    intro w' e block
    rw [appendBlock]
    rcases e.write with _ | k
    · rcases e.flush with _ | _ | k <;> exact ⟨rfl, rfl, rfl, rfl⟩
    · exact ⟨rfl, rfl, rfl, rfl⟩
  rw [writeBlock]
  split
  · exact ⟨rfl, rfl, rfl, rfl⟩
  · simp only
    split_ifs
    · exact ⟨rfl, rfl, rfl, rfl⟩
    · exact happend _ _ _
    · exact happend _ _ _

theorem samplePeriods_concat (blocks : List (WrittenBlock lz)) (b : WrittenBlock lz) :
    samplePeriods (blocks ++ [b]) =
      samplePeriods blocks ++ if b.type = .samples then [b.period] else [] := by
  rw [samplePeriods, List.filter_append, List.map_append, samplePeriods]
  split_ifs with h
  · simp [h]
  · simp [h]

theorem Mirrors.nextFaults (h : Mirrors lz w b) : w.nextFaults.Succeeds := by
  rw [EventWriter.nextFaults]
  rcases hf : w.faults with _ | ⟨e, es⟩
  · exact ⟨rfl, rfl, rfl, rfl⟩
  · exact h.faults e (by simp [hf])

theorem writeBlock_succeeds (f : OpenFile) {evs : List TraceEvent} (type : BlockType)
    (period : UInt64) (hne : evs ≠ []) (hmax : evs.length ≤ blockEvents)
    (h : w.nextFaults.Succeeds) :
    (writeBlock lz w f evs type period).2 = true ∧
      (writeBlock lz w f evs type period).1.enabled = w.enabled ∧
      ∃ block, typedBlock lz type period evs = some block ∧
        (writeBlock lz w f evs type period).1.file =
          some ((f.addEntry (firstTs evs)).append block) := by
  obtain ⟨hlz, hgrow, hwrite, hflush⟩ := h
  have hok : (writeBlock lz w f evs type period).2 = true := by
    rw [writeBlock_ok lz w f type period hne hmax]
    simp [hlz, BlockFaults.failsHard, hgrow, hwrite, hflush]
  exact ⟨hok, writeBlock_file hne hmax (Or.inr hok)⟩

theorem Mirrors.flushBlockCore {w : EventWriter} {b : Batcher} (h : Mirrors lz w b) :
    (flushBlockCore lz w).2 = true ∧ Mirrors lz (flushBlockCore lz w).1 b.cutEvents := by
  obtain ⟨f, hdr, blocks, hf, hholds, hblocks, hperiods⟩ := h.file
  by_cases hnil : b.events = []
  · rw [PgWaitTracer.flushBlockCore, if_pos (Or.inl (h.events.trans hnil)), Batcher.cutEvents,
      if_pos hnil]
    exact ⟨rfl, h⟩
  · have hgo : ¬(w.events = [] ∨ w.file = none) := by
      rw [h.events, hf]
      exact fun h => h.elim hnil (Option.some_ne_none f)
    have hwrite : writeTypedBlock lz w w.events .transitions 0 =
        writeBlock lz w f b.events .transitions 0 := by
      simp only [writeTypedBlock, hf, h.events, if_neg hnil]
    rw [PgWaitTracer.flushBlockCore, if_neg hgo, hwrite, Batcher.cutEvents, if_neg hnil]
    obtain ⟨hok, hen, block, hblock, hfile⟩ :=
      writeBlock_succeeds f .transitions 0 hnil h.events_le h.nextFaults
    have hframe := writeBlock_frame lz w f b.events .transitions 0 (by rw [hf]; rfl)
    obtain ⟨hcpu, htype, hperiod, hweight⟩ := writeBlock_settings lz w f b.events .transitions 0
    obtain ⟨wb, hwbType, -, hwbEvents, hholds'⟩ := hholds.append ([] ++ b.samples) hnil
      h.events_le hblock fun r hr => by simpa using hr
    refine ⟨hok, ⟨hen.trans h.enabled, fun e he => h.faults e (hframe.faults he),
      hcpu.trans h.cpuMeasured, rfl, hframe.sampleBuf.trans h.samples, fun hs => ?_,
      hweight.trans h.weight, Nat.zero_le _, h.samples_le, _, hdr, blocks ++ [wb], hfile, hholds',
      ?_, ?_⟩⟩
    · exact ⟨htype.trans (h.period hs).1, hperiod.trans (h.period hs).2⟩
    · simp only [List.map_append, hblocks, List.map_cons, List.map_nil, WrittenBlock.batch, hwbType,
        hwbEvents]
    · rw [samplePeriods_concat, hwbType, if_neg (by decide), List.append_nil, hperiods]

theorem Mirrors.flushSampleBuf {w : EventWriter} {b : Batcher} (h : Mirrors lz w b) :
    (flushSampleBuf lz w).2 = true ∧ Mirrors lz (flushSampleBuf lz w).1 b.cutSamples := by
  obtain ⟨f, hdr, blocks, hf, hholds, hblocks, hperiods⟩ := h.file
  by_cases hnil : b.samples = []
  · rw [PgWaitTracer.flushSampleBuf, if_pos (Or.inl (h.samples.trans hnil)), Batcher.cutSamples,
      if_pos hnil]
    exact ⟨rfl, h⟩
  · have hgo : ¬(w.sampleBuf = [] ∨ w.file = none) := by
      rw [h.samples, hf]
      exact fun h => h.elim hnil (Option.some_ne_none f)
    have hwrite : ∀ period, writeTypedBlock lz w w.sampleBuf w.sampleBufType period =
        writeBlock lz w f b.samples .samples period := by
      intro period
      simp only [writeTypedBlock, hf, h.samples, (h.period hnil).1, if_neg hnil]
    rw [PgWaitTracer.flushSampleBuf, if_neg hgo, Batcher.cutSamples, if_neg hnil]
    simp only [hwrite]
    have hmean : w.sampleBufWeightNs / UInt64.ofNat w.sampleBuf.length = b.meanPeriodNs := by
      rw [h.weight, h.samples, Batcher.meanPeriodNs]
    rw [hmean]
    generalize b.meanPeriodNs = period
    obtain ⟨hok, hen, block, hblock, hfile⟩ :=
      writeBlock_succeeds f .samples period hnil h.samples_le h.nextFaults
    have hframe := writeBlock_frame lz w f b.samples .samples period (by rw [hf]; rfl)
    obtain ⟨hcpu, -, -, -⟩ := writeBlock_settings lz w f b.samples .samples period
    obtain ⟨wb, hwbType, hwbPeriod, hwbEvents, hholds'⟩ := hholds.append (b.events ++ []) hnil
      h.samples_le hblock fun r hr => by simpa [or_comm] using hr
    refine ⟨hok, ⟨hen.trans h.enabled, fun e he => h.faults e (hframe.faults he),
      hcpu.trans h.cpuMeasured, hframe.events.trans h.events, rfl, fun hs => absurd rfl hs, rfl,
      h.events_le, Nat.zero_le _, _, hdr, blocks ++ [wb], hfile, hholds', ?_, ?_⟩⟩
    · simp only [List.map_append, hblocks, List.map_cons, List.map_nil, WrittenBlock.batch, hwbType,
        hwbEvents]
    · rw [samplePeriods_concat, hwbType, if_pos rfl, hwbPeriod, hperiods]

theorem Mirrors.flushBlock {w : EventWriter} {b : Batcher} (h : Mirrors lz w b) :
    (flushBlock lz w).2 = true ∧ Mirrors lz (flushBlock lz w).1 b.cutForEvents := by
  have hfirst : w.samplesFirst = true ↔
      b.samples ≠ [] ∧ b.events ≠ [] ∧ firstTs b.samples < firstTs b.events := by
    simp [EventWriter.samplesFirst, h.events, h.samples, and_assoc]
  rw [PgWaitTracer.flushBlock, Batcher.cutForEvents]
  by_cases hs : w.samplesFirst = true
  · obtain ⟨hok, hm⟩ := h.flushSampleBuf
    simp only [if_pos hs, if_pos (hfirst.1 hs), if_pos hok]
    exact hm.flushBlockCore
  · rw [if_neg hs, if_neg fun hb => hs (hfirst.2 hb)]
    exact h.flushBlockCore

theorem Mirrors.flushSamples {w : EventWriter} {b : Batcher} (h : Mirrors lz w b) :
    (flushSamples lz w).2 = true ∧ Mirrors lz (flushSamples lz w).1 b.cutForSamples := by
  have hfirst : w.eventsFirst = true ↔
      b.events ≠ [] ∧ b.samples ≠ [] ∧ firstTs b.events ≤ firstTs b.samples := by
    simp [EventWriter.eventsFirst, h.events, h.samples, and_assoc]
  rw [PgWaitTracer.flushSamples, Batcher.cutForSamples]
  by_cases he : w.eventsFirst = true
  · obtain ⟨hok, hm⟩ := h.flushBlockCore
    simp only [if_pos he, if_pos (hfirst.1 he), if_pos hok]
    exact hm.flushSampleBuf
  · rw [if_neg he, if_neg fun hb => he (hfirst.2 hb)]
    exact h.flushSampleBuf

/-! ### Pushes -/

theorem Mirrors.storeEvent {w : EventWriter} {b : Batcher} (h : Mirrors lz w b) (hroom : b.Room)
    (ev : TraceEvent) :
    Mirrors lz (storeEvent w ev) { b with events := b.events ++ [b.stamp ev] } := by
  obtain ⟨f, hdr, blocks, hf, hholds, hblocks⟩ := h.file
  have hstamp : w.stamp ev = b.stamp ev := by
    rw [EventWriter.stamp, Batcher.stamp, h.cpuMeasured]
  refine ⟨h.enabled, h.faults, h.cpuMeasured, ?_, h.samples, h.period, h.weight, ?_, h.samples_le,
    f.accept [w.stamp ev], hdr, blocks, ?_, ?_, hblocks⟩
  · rw [← hstamp, ← h.events]
    rfl
  · rw [List.length_append]
    exact hroom.events_lt
  · rw [PgWaitTracer.storeEvent, hf]
    rfl
  · rw [hstamp]
    refine hholds.accept (fun r hr => ?_) fun r hr => ?_
    · simp only [List.mem_append] at hr ⊢
      exact hr.elim (fun h => Or.inl (Or.inl h)) Or.inr
    · simp only [List.mem_append]
      exact Or.inl (Or.inr hr)

theorem Mirrors.storeSamples {w : EventWriter} {b : Batcher} (h : Mirrors lz w b)
    (samples : List TraceEvent) (hfit : b.samples.length + samples.length ≤ blockEvents)
    (periodNs : UInt64) :
    Mirrors lz (storeSamples w samples periodNs)
      (samples.foldl (Batcher.storeSample periodNs) b) := by
  obtain ⟨f, hdr, blocks, hf, hholds, hblocks⟩ := h.file
  rw [Batcher.foldl_storeSample]
  refine ⟨h.enabled, h.faults, h.cpuMeasured, h.events, ?_, fun hne => ?_, ?_, h.events_le, ?_,
    f.accept samples, hdr, blocks, ?_, ?_, hblocks⟩
  · rw [← h.samples]
    rfl
  · simp only [PgWaitTracer.storeSamples, h.samples]
    by_cases hb : b.samples = []
    · have hs : samples ≠ [] := by simpa [hb] using hne
      simp [hb, hs]
    · simp [hb, h.period hb]
  · rw [← h.weight]
    rfl
  · rw [List.length_append]
    exact hfit
  · rw [PgWaitTracer.storeSamples, hf]
    rfl
  · refine hholds.accept (fun r hr => ?_) fun r hr => ?_
    · simp only [List.mem_append] at hr ⊢
      exact hr.elim Or.inl fun h => Or.inr (Or.inl h)
    · simp only [List.mem_append]
      exact Or.inr (Or.inr hr)

/-- **The samples of a push.** Filling the buffer up chunk by chunk is pushing one by one. -/
theorem Mirrors.pushSampleLoop (periodNs : UInt64) : (fuel : ℕ) → (w : EventWriter) →
    (b : Batcher) → (samples : List TraceEvent) → samples.length < fuel → b.Room →
    Mirrors lz w b → (pushSampleLoop lz periodNs fuel w samples).2 = true ∧
      Mirrors lz (pushSampleLoop lz periodNs fuel w samples).1
        (samples.foldl (Batcher.pushSample periodNs) b)
  | 0, _, _, _, hfuel, _, _ => absurd hfuel (Nat.not_lt_zero _)
  | fuel + 1, w, b, samples, hfuel, hroom, h => by
    rw [PgWaitTracer.pushSampleLoop]
    by_cases hnil : samples = []
    · subst hnil
      exact ⟨rfl, h⟩
    have hlt := hroom.samples_lt
    have hlen : 0 < samples.length := List.length_pos_iff.2 hnil
    have hfit : b.samples.length + (samples.take (blockEvents - b.samples.length)).length ≤
        blockEvents := by
      rw [List.length_take]
      omega
    have hstore := h.storeSamples _ hfit periodNs
    have hfold := Batcher.foldl_pushSample periodNs b _ hlt hfit
    have hsplit : samples.foldl (Batcher.pushSample periodNs) b =
        (samples.drop (blockEvents - b.samples.length)).foldl (Batcher.pushSample periodNs)
          ((samples.take (blockEvents - b.samples.length)).foldl (Batcher.pushSample periodNs)
            b) := by
      rw [← List.foldl_append, List.take_append_drop]
    simp only [if_neg hnil, h.samples, hstore.samples]
    rw [hsplit, hfold]
    by_cases hfull : blockEvents ≤ ((samples.take (blockEvents - b.samples.length)).foldl
        (Batcher.storeSample periodNs) b).samples.length
    · -- the buffer is full, and the rest starts a new one
      obtain ⟨hok, hm⟩ := hstore.flushSamples
      rw [if_pos hfull, if_pos hfull, if_pos hok]
      refine Mirrors.pushSampleLoop periodNs fuel _ _ _ ?_ ?_ hm
      · rw [List.length_drop]
        omega
      · refine Batcher.Room.cutForSamples ?_
        rw [Batcher.foldl_storeSample]
        exact hroom.events_lt
    · -- there is no rest
      have hrest : samples.drop (blockEvents - b.samples.length) = [] := by
        rw [Batcher.foldl_storeSample, List.length_append, List.length_take] at hfull
        exact List.drop_eq_nil_of_le (by omega)
      rw [if_neg hfull, if_neg hfull, hrest]
      cases fuel with
      | zero => omega
      | succ fuel => exact ⟨rfl, hstore⟩

theorem Mirrors.withFaults (h : Mirrors lz w b) {faults : List BlockFaults}
    (hf : ∀ e ∈ faults, e.Succeeds) : Mirrors lz { w with faults := faults } b :=
  ⟨h.enabled, hf, h.cpuMeasured, h.events, h.samples, h.period, h.weight, h.events_le, h.samples_le,
    h.file⟩

/-! ### Opening -/

/-- A writer that is about to open a file: it is enabled and has nothing pending. -/
structure EventWriter.Fresh (w : EventWriter) : Prop where
  enabled : w.enabled = true
  file : w.file = none
  events : w.events = []
  samples : w.sampleBuf = []

theorem fresh_initWriter (pgVersion : UInt32) (cpuMeasured : Bool) :
    (initWriter pgVersion cpuMeasured).Fresh := ⟨rfl, rfl, rfl, rfl⟩

theorem recoverLeftover_leftover (w : EventWriter) : (recoverLeftover w true).leftover = none := by
  rw [recoverLeftover]
  split
  · assumption
  · simp only [if_true]
    split <;> rfl

theorem recoverLeftover_cpuMeasured (w : EventWriter) (moved : Bool) :
    (recoverLeftover w moved).cpuMeasured = w.cpuMeasured := by
  rw [recoverLeftover]
  split
  · rfl
  · simp only
    split
    · rfl
    · split_ifs <;> rfl
    · split_ifs <;> rfl

theorem recoverLeftover_sampleBufWeightNs (w : EventWriter) (moved : Bool) :
    (recoverLeftover w moved).sampleBufWeightNs = w.sampleBufWeightNs := by
  rw [recoverLeftover]
  split
  · rfl
  · simp only
    split
    · rfl
    · split_ifs <;> rfl
    · split_ifs <;> rfl

/-- The batcher before the first call. -/
def EventWriter.batcher (w : EventWriter) : Batcher :=
  { cpuMeasured := w.cpuMeasured, weightNs := w.sampleBufWeightNs }

theorem EventWriter.Fresh.ensureOpen {w : EventWriter} (h : w.Fresh)
    (hfaults : ∀ e ∈ w.faults, e.Succeeds) {call : OpenCall} (hcall : call.Succeeds) :
    (ensureOpen w call).2 = true ∧
      Mirrors lz (ensureOpen w call).1 w.batcher := by
  obtain ⟨hmoved, hcreated, hheader⟩ := hcall
  have hdir := recoverLeftover_frame w true
  have hleft := recoverLeftover_leftover w
  have hcpu := recoverLeftover_cpuMeasured w true
  have hgo : ¬ ((recoverLeftover w true).leftover.isSome = true ∨ (!call.created) = true) := by
    simp [hleft, hcreated]
  simp only [PgWaitTracer.ensureOpen, h.file, openTraceFile, hmoved, if_neg hgo, hheader, if_true,
    true_and]
  refine ⟨hdir.enabled.trans h.enabled, ?_, hcpu, hdir.events.trans h.events,
    hdir.sampleBuf.trans h.samples, fun hs => absurd rfl hs,
    recoverLeftover_sampleBufWeightNs w true, Nat.zero_le _, Nat.zero_le _,
    _, newHeader (recoverLeftover w true).pgVersion call, [], rfl, ?_, rfl, rfl⟩
  · rw [hdir.faults]
    exact hfaults
  · exact ⟨newHeader_readable _ _, rfl, rfl, (List.append_nil _).symm, rfl,
      fun _ hr => absurd hr List.not_mem_nil⟩

/-! ### Calls and runs -/

/-- The writer follows the batcher, from before it opens its file. -/
def Tracks (lz : Lz4) (w : EventWriter) (b : Batcher) : Prop :=
  b.Room ∧ (Mirrors lz w b ∨ w.Fresh ∧ b = w.batcher)

theorem room_batcher (w : EventWriter) : w.batcher.Room :=
  ⟨Nat.succ_pos _, Nat.succ_pos _⟩

theorem Tracks.ensureOpen {w : EventWriter} {b : Batcher} (h : Tracks lz w b)
    (hfaults : ∀ e ∈ w.faults, e.Succeeds) {call : OpenCall} (hcall : call.Succeeds) :
    (ensureOpen w call).2 = true ∧ Mirrors lz (ensureOpen w call).1 b := by
  rcases h.2 with hm | ⟨hfresh, rfl⟩
  · obtain ⟨f, -, -, hf, -⟩ := hm.file
    have hopen : PgWaitTracer.ensureOpen w call = (w, true) := by
      rw [PgWaitTracer.ensureOpen, hf]
    rw [hopen]
    exact ⟨rfl, hm⟩
  · exact hfresh.ensureOpen hfaults hcall

theorem Tracks.enabled (h : Tracks lz w b) : w.enabled = true :=
  h.2.elim Mirrors.enabled fun hf => hf.1.enabled

theorem Tracks.pushEvent {w : EventWriter} {b : Batcher} (h : Tracks lz w b)
    (hfaults : ∀ e ∈ w.faults, e.Succeeds) (ev : TraceEvent) {call : OpenCall}
    (hcall : call.Succeeds) : Mirrors lz (pushEvent lz w ev call).1 (b.pushEvent ev) := by
  obtain ⟨hok, hm⟩ := h.ensureOpen hfaults hcall
  have hstore := hm.storeEvent h.1 ev
  have hlen := congrArg List.length hstore.events
  simp only [PgWaitTracer.pushEvent, h.enabled, hok, Bool.not_true, Bool.false_eq_true, if_false,
    Batcher.pushEvent, hlen]
  split_ifs
  · exact hstore.flushBlock.2
  · exact hstore

theorem Mirrors.flushIncompatible {w : EventWriter} {b : Batcher} (h : Mirrors lz w b)
    (periodNs : UInt64) :
    (flushIncompatible lz w periodNs).2 = true ∧
      Mirrors lz (flushIncompatible lz w periodNs).1 (b.cutDeviating periodNs) := by
  have hiff : (w.sampleBuf ≠ [] ∧ w.incompatible periodNs = true) ↔
      b.samples ≠ [] ∧ b.deviates periodNs = true := by
    rw [h.samples]
    refine and_congr_right fun hs => ?_
    obtain ⟨htype, hperiod⟩ := h.period hs
    simp [EventWriter.incompatible, Batcher.deviates, htype, hperiod]
  rw [PgWaitTracer.flushIncompatible, Batcher.cutDeviating]
  by_cases hd : b.samples ≠ [] ∧ b.deviates periodNs = true
  · rw [if_pos hd, if_pos (hiff.2 hd)]
    exact h.flushSamples
  · rw [if_neg hd, if_neg fun hw => hd (hiff.1 hw)]
    exact ⟨rfl, h⟩

theorem Mirrors.flushLongBatch {w : EventWriter} {b : Batcher} (h : Mirrors lz w b) :
    Mirrors lz (flushLongBatch lz w).1 b.cutLong := by
  rw [PgWaitTracer.flushLongBatch, Batcher.cutLong, h.samples]
  split_ifs
  · exact h.flushSamples.2
  · exact h

theorem Tracks.pushSamples {w : EventWriter} {b : Batcher} (h : Tracks lz w b)
    (hfaults : ∀ e ∈ w.faults, e.Succeeds) {samples : List TraceEvent} (hne : samples ≠ [])
    (periodNs : UInt64) {call : OpenCall} (hcall : call.Succeeds) :
    Mirrors lz (pushSamples lz w samples periodNs call).1 (b.pushSamples samples periodNs) := by
  obtain ⟨hok, hm⟩ := h.ensureOpen hfaults hcall
  obtain ⟨hok', hm'⟩ := hm.flushIncompatible periodNs
  obtain ⟨hok'', hm''⟩ := Mirrors.pushSampleLoop periodNs (samples.length + 1) _ _ samples
    (Nat.lt_succ_self _) (h.1.cutDeviating periodNs) hm'
  simp only [PgWaitTracer.pushSamples, h.enabled, hok, hok', hok'', Bool.not_true,
    Bool.false_eq_true, if_false, if_neg hne, Batcher.pushSamples]
  exact hm''.flushLongBatch

theorem Mirrors.publish {w : EventWriter} {b : Batcher} (h : Mirrors lz w b) :
    Mirrors lz (publish lz w).1 b.publish := by
  obtain ⟨f, -, -, hf, -⟩ := h.file
  have hgo : ¬ ((!w.enabled) = true ∨ w.file = none) := by
    simp [h.enabled, hf]
  rw [PgWaitTracer.publish, if_neg hgo]
  exact h.flushBlock.2.flushSampleBuf.2

/-- **One call.** -/
theorem Tracks.step (h : Tracks lz w b) {c : WriterCall} (hc : c.Succeeds) :
    Tracks lz (writerStep lz w c) (b.step c) := by
  have hset : ∀ {faults : List BlockFaults}, (∀ e ∈ faults, e.Succeeds) →
      Tracks lz { w with faults := faults } b := fun hf =>
    ⟨h.1, h.2.imp (fun hm => hm.withFaults hf) fun hw => ⟨⟨hw.1.1, hw.1.2, hw.1.3, hw.1.4⟩, hw.2⟩⟩
  cases c with
  | pushEvent ev call faults =>
    obtain ⟨hcall, hf⟩ := hc
    exact ⟨h.1.pushEvent ev, Or.inl ((hset hf).pushEvent hf ev hcall)⟩
  | pushSamples samples periodNs call faults =>
    obtain ⟨hcall, hf⟩ := hc
    by_cases hnil : samples = []
    · have hw : writerStep lz w (.pushSamples samples periodNs call faults) =
          { w with faults := faults } := by
        simp [writerStep, PgWaitTracer.pushSamples, hnil]
      have hb : b.step (.pushSamples samples periodNs call faults) = b := by
        rw [Batcher.step, Batcher.pushSamples, if_pos hnil]
      rw [hw, hb]
      exact hset hf
    · exact ⟨h.1.pushSamples samples periodNs,
        Or.inl ((hset hf).pushSamples hf hnil periodNs hcall)⟩
  | publish faults =>
    rcases (hset hc).2 with hm | ⟨hfresh, hb⟩
    · exact ⟨b.room_publish, Or.inl hm.publish⟩
    · have hw : writerStep lz w (.publish faults) = { w with faults := faults } := by
        simp [writerStep, PgWaitTracer.publish, show w.file = none from hfresh.file]
      have hempty : b.step (.publish faults) = b := by
        rw [hb]
        rfl
      rw [hw, hempty]
      exact hset hc
  | checkRotation hour e renamed faults => exact hc.elim
  | close e faults => exact hc.elim

/-- **Runs without failures.** The writer writes the batches of the batcher. -/
theorem writerRun_tracks (lz : Lz4) (hw : w.Fresh) (hcalls : ∀ c ∈ calls, c.Succeeds) :
    Tracks lz (calls.foldl (writerStep lz) w) (calls.foldl Batcher.step w.batcher) := by
  induction calls using List.reverseRecOn with
  | nil => exact ⟨room_batcher w, Or.inr ⟨hw, rfl⟩⟩
  | append_singleton calls c ih =>
    rw [List.foldl_append, List.foldl_append]
    exact (ih fun c' hc' => hcalls c' (List.mem_append_left _ hc')).step
      (hcalls c (List.mem_append_right _ (List.mem_singleton_self c)))

/-! ### The file -/

/-- The blocks of the open file, which its index points at. Without a file there are none. -/
structure FileBlocks (w : EventWriter) (blocks : List (WrittenBlock lz)) : Prop where
  file : ∀ f, w.file = some f → ∃ hdr rest,
    f.bytes = FileHeader.bytes hdr ++ ((images blocks).flatMap BlockImage.bytes ++ rest) ∧
      f.index = indexFrom 28 (images blocks)
  unopened : w.file = none → blocks = []

theorem Mirrors.fileBlocks (h : Mirrors lz w b) :
    ∃ blocks : List (WrittenBlock lz), FileBlocks w blocks ∧
      blocks.map WrittenBlock.batch = b.written ∧ samplePeriods blocks = b.blockPeriods := by
  obtain ⟨f, hdr, blocks, hf, hholds, hblocks⟩ := h.file
  refine ⟨blocks, ⟨fun g hg => ?_, fun hnone => ?_⟩, hblocks⟩
  · obtain rfl := Option.some.inj (hf.symm.trans hg)
    exact ⟨hdr, [], by rw [List.append_nil, hholds.bytes], hholds.index⟩
  · rw [hf] at hnone
    exact absurd hnone (by simp)

theorem EventWriter.Fresh.fileBlocks (h : w.Fresh) : FileBlocks w ([] : List (WrittenBlock lz)) :=
  ⟨fun f hf => absurd (h.file.symm.trans hf) (by simp), fun _ => rfl⟩

theorem Tracks.pending (h : Tracks lz w b) : w.events = b.events ∧ w.sampleBuf = b.samples := by
  rcases h.2 with hm | ⟨hfresh, rfl⟩
  · exact ⟨hm.events, hm.samples⟩
  · exact ⟨hfresh.events, hfresh.samples⟩

/-- **The blocks of a run** are the batches. -/
theorem run_fileBlocks (lz : Lz4) (hw : w.Fresh) (hcalls : ∀ c ∈ calls, c.Succeeds) :
    ∃ blocks : List (WrittenBlock lz), FileBlocks (calls.foldl (writerStep lz) w) blocks ∧
      blocks.map WrittenBlock.batch = (calls.foldl Batcher.step w.batcher).written ∧
      samplePeriods blocks = (calls.foldl Batcher.step w.batcher).blockPeriods := by
  obtain ⟨-, hm | ⟨hfresh, hb⟩⟩ := writerRun_tracks lz hw hcalls
  · exact hm.fileBlocks
  · exact ⟨[], hfresh.fileBlocks, by rw [hb]; rfl, by rw [hb]; rfl⟩

/-! ### The end of the file -/

/-- A finalisation that succeeds. -/
def FinalizeFaults.Succeeds (e : FinalizeFaults) : Prop :=
  e.footer = none ∧ e.flush = none ∧ e.fsync = false ∧ e.flags = false ∧ e.flagsSync = false

theorem Mirrors.finalize (h : Mirrors lz w b) :
    (PgWaitTracer.flushBlock lz w).2 = true ∧
      (PgWaitTracer.flushSamples lz (PgWaitTracer.flushBlock lz w).1).2 = true ∧
      Mirrors lz (PgWaitTracer.flushSamples lz (PgWaitTracer.flushBlock lz w).1).1 b.finalize :=
  ⟨h.flushBlock.1, h.flushBlock.2.flushSamples⟩

theorem FileBlocks.finishFile {w : EventWriter} {blocks : List (WrittenBlock lz)}
    (h : FileBlocks w blocks) {f : OpenFile} (hf : w.file = some f) (log : TransitionLog)
    (terminal : UInt16) {e : FinalizeFaults} (he : e.Succeeds) :
    FileBlocks { w with file := some (finishFile f true terminal e).1, log := log } blocks := by
  obtain ⟨hfooter, hflush, hfsync, hflags, -⟩ := he
  obtain ⟨hdr, rest, hbytes, hindex⟩ := h.file f hf
  have hdone : (PgWaitTracer.finishFile f true terminal e).1 =
      { f with
        flags := f.flags ||| terminal
        bytes := writeHeaderFlags (f.bytes ++ footerBytes f.index) (f.flags ||| terminal) } := by
    simp [PgWaitTracer.finishFile, hfooter, hflush, hfsync, hflags]
  refine ⟨fun g hg => ?_, fun hnone => absurd hnone (by simp)⟩
  obtain rfl := Option.some.inj hg
  rw [hdone]
  refine ⟨{ hdr with flags := f.flags ||| terminal }, rest ++ footerBytes f.index, ?_, hindex⟩
  simp only [hbytes, List.append_assoc, writeHeaderFlags_append]

theorem finalizeCurrentFile_unopened (hf : w.file = none) (terminal : UInt16) (e : FinalizeFaults) :
    (finalizeCurrentFile lz w terminal e).1 = w := by
  have hevents : flushBlockCore lz w = (w, true) := by
    rw [flushBlockCore, if_pos (Or.inr hf)]
  have hsamples : flushSampleBuf lz w = (w, true) := by
    rw [flushSampleBuf, if_pos (Or.inr hf)]
  have hblock : flushBlock lz w = (w, true) := by
    simp [flushBlock, hevents, hsamples]
  have hsample : flushSamples lz w = (w, true) := by
    simp [flushSamples, hevents, hsamples]
  simp only [finalizeCurrentFile, hblock, hsample, hf]

namespace Batcher

theorem events_finalize : b.finalize.events = [] := by
  rcases b.cutForEvents.events_cutForSamples with h | h
  · exact h.trans events_cutForEvents
  · exact h

end Batcher

/-- **The blocks of a finalised file** are the batches, and nothing is pending. -/
theorem finalize_fileBlocks (lz : Lz4) (hw : w.Fresh) (hcalls : ∀ c ∈ calls, c.Succeeds)
    {faults : List BlockFaults} (hfaults : ∀ e ∈ faults, e.Succeeds) (terminal : UInt16)
    {e : FinalizeFaults} (he : e.Succeeds) :
    let final := (finalizeCurrentFile lz
      { calls.foldl (writerStep lz) w with faults := faults } terminal e).1
    ∃ blocks : List (WrittenBlock lz), FileBlocks final blocks ∧
      blocks.map WrittenBlock.batch = (calls.foldl Batcher.step w.batcher).finalize.written ∧
      samplePeriods blocks = (calls.foldl Batcher.step w.batcher).finalize.blockPeriods ∧
      final.events = [] ∧ final.sampleBuf = [] := by
  intro final
  set w' := calls.foldl (writerStep lz) w with hw'
  obtain ⟨-, hm | ⟨hfresh, hb⟩⟩ := writerRun_tracks lz hw hcalls
  · -- the two flushes of the finalisation, and the footer
    obtain ⟨hok, hok', hm'⟩ := (hm.withFaults hfaults).finalize
    obtain ⟨f, -, -, hf, -⟩ := hm'.file
    obtain ⟨blocks, hblocks, hbatches, hperiods⟩ := hm'.fileBlocks
    have hfinal : final = { (flushSamples lz (flushBlock lz { w' with faults := faults }).1).1 with
        file := some (finishFile f true terminal e).1
        log := if e.flush.isNone then
            (flushSamples lz (flushBlock lz { w' with faults := faults }).1).1.log.flush
          else { (flushSamples lz (flushBlock lz { w' with faults := faults }).1).1.log with
            streamed := [] } } := by
      simp only [final, finalizeCurrentFile, w', hf, hok, hok', Bool.and_self]
    rw [hfinal]
    exact ⟨blocks, hblocks.finishFile hf _ terminal he, hbatches, hperiods,
      hm'.events.trans Batcher.events_finalize, hm'.samples.trans Batcher.samples_cutForSamples⟩
  · have hfinal : final = { w' with faults := faults } :=
      finalizeCurrentFile_unopened (w := { w' with faults := faults }) hfresh.file terminal e
    rw [hfinal]
    refine ⟨[], ⟨fun f hf => absurd (hfresh.file.symm.trans hf) (by simp), fun _ => rfl⟩, ?_, ?_,
      hfresh.events, hfresh.samples⟩
    · rw [hb]
      rfl
    · rw [hb]
      rfl

end PgWaitTracer
