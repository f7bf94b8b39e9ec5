import Mathlib.Data.List.Sort
import PgWaitTracer.Server.ExactMerge
import PgWaitTracer.Trace.BlockCodec

/-!
# Exact coverage of a trace directory

What time the exact records of a trace directory stand for is derived from its files
(`src/server.c`). A file is scanned block by block (`cov_scan_file`), and the escalation markers of
its transition blocks are collected (`cov_decode_markers`). The files are put in the order of their
wall start and divided into generations of the monotonic clock (`coverage_refresh`). The coverage of
a generation (`gen_cov_build`) pairs the markers of its files; a file without samples counts as a
whole, and one with samples and transitions but without markers by its blocks.

A file is the list of its blocks, in the order in which they were committed; they decode, and arrays
can grow. The markers that the executions pass retains are left out. Times are numbers of ns.
-/

namespace PgWaitTracer

/-! ### Files -/

/-- A committed block. -/
structure TraceBlock where
  type : BlockType
  samplePeriodNs : ℕ
  events : List TraceEvent
  nonempty : events ≠ []

/-- The first timestamp in the block header. -/
def TraceBlock.firstNs (b : TraceBlock) : ℕ := (b.events.head b.nonempty).ts

/-- The last timestamp in the block header. -/
def TraceBlock.lastNs (b : TraceBlock) : ℕ := (b.events.getLast b.nonempty).ts

/-- `span_list_add`: a span that starts within `gap` of the end of the last one extends it. -/
def spanListAdd (gap : ℕ) (l : List Span) (start stop : ℕ) : List Span :=
  let stop := if stop < start then start else stop
  match l.getLast? with
  | none => [⟨start, stop⟩]
  | some p =>
    if start ≤ p.stop + gap then
      l.dropLast ++ [{ p with stop := if p.stop < stop then stop else p.stop }]
    else l ++ [⟨start, stop⟩]

/-- `struct pgwt_cov_mark`. -/
structure CovMark where
  ts : ℕ
  isStart : Bool
  deriving DecidableEq, Repr

/-- `struct pgwt_file_cov`; `pending` are the transition blocks that were scanned. -/
structure FileCov where
  valid : Bool := false
  ownOffset : ℤ := 0
  monoFirst : ℕ := 0
  monoLast : ℕ := 0
  hasSamples : Bool := false
  hasTransitions : Bool := false
  samplePeriodNs : ℕ := 0
  maxSamplePeriodNs : ℕ := 0
  sSpans : List Span := []
  tSpans : List Span := []
  pending : List TraceBlock := []
  escDone : ℕ := 0
  marks : List CovMark := []

/-- One block of the scan. -/
def covScanBlock (fc : FileCov) (b : TraceBlock) : FileCov :=
  let fc := { fc with monoLast := if fc.monoLast < b.lastNs then b.lastNs else fc.monoLast }
  match b.type with
  | .samples =>
    { fc with
      hasSamples := true
      samplePeriodNs := if b.samplePeriodNs ≠ 0 then b.samplePeriodNs else fc.samplePeriodNs
      maxSamplePeriodNs := if fc.maxSamplePeriodNs < b.samplePeriodNs then b.samplePeriodNs
        else fc.maxSamplePeriodNs
      sSpans := spanListAdd (b.samplePeriodNs * 2) fc.sSpans b.firstNs b.lastNs }
  | .transitions =>
    { fc with
      hasTransitions := true
      tSpans := spanListAdd 0 fc.tSpans b.firstNs b.lastNs
      pending := fc.pending ++ [b] }

/-- The escalation marker that a record is, if it is one. -/
def covMark (ev : TraceEvent) : Option CovMark :=
  if ev.oldEvent = markerEscalateStart then some ⟨ev.ts, true⟩
  else if ev.oldEvent = markerEscalateEnd then some ⟨ev.ts, false⟩
  else none

/-- `cov_decode_markers`: the markers of the blocks that were not decoded yet, once there are
samples somewhere. -/
def covDecodeMarkers (anySamples : Bool) (fc : FileCov) : FileCov :=
  if (anySamples || fc.hasSamples) ∧ fc.escDone < fc.pending.length then
    { fc with
      marks := fc.marks ++
        (fc.pending.drop fc.escDone).flatMap fun b => b.events.filterMap covMark
      escDone := fc.pending.length }
  else fc

/-- A trace file: the offset of its clocks in its header, and its blocks. -/
structure TraceFileData where
  ownOffset : ℤ
  blocks : List TraceBlock

/-- `cov_scan_file` of a file that was not scanned before. -/
def covScanFile (anySamples : Bool) (f : TraceFileData) : FileCov :=
  match f.blocks with
  | [] => { ownOffset := f.ownOffset }
  | b :: bs =>
    covDecodeMarkers anySamples ((b :: bs).foldl covScanBlock
      { valid := true, ownOffset := f.ownOffset, monoFirst := b.firstNs, monoLast := b.firstNs })

/-! ### Generations -/

/-- What the assignment of generations remembers of the files before. -/
structure GenState where
  gen : ℤ := -1
  prevMonoLast : ℕ := 0
  prevOffset : ℤ := 0

/-- The largest change of the offset within a generation, 300 s. -/
def maxOffsetStep : ℤ := 300 * 1000000000

/-- A file goes into a new generation if its clock is behind that of the files before, or if the
offset jumps. -/
def GenState.assign (s : GenState) (fc : FileCov) : GenState × ℤ :=
  if fc.valid then
    let doff := fc.ownOffset - s.prevOffset
    let gen := if s.gen < 0 ∨ fc.monoFirst < s.prevMonoLast ∨ maxOffsetStep < doff ∨
      doff < -maxOffsetStep then s.gen + 1 else s.gen
    (⟨gen, if s.prevMonoLast < fc.monoLast then fc.monoLast else s.prevMonoLast, fc.ownOffset⟩, gen)
  else (s, if s.gen < 0 then 0 else s.gen)

/-- The generations of files in order. -/
def assignGenerations : GenState → List FileCov → List (FileCov × ℤ)
  | _, [] => []
  | s, fc :: l => (fc, (s.assign fc).2) :: assignGenerations (s.assign fc).1 l

/-- The coverage table of `coverage_refresh`: the files scanned one after the other, those that were
scanned before there were samples decoded behind, sorted by wall start, with their generations. -/
def coverageRefresh (files : List TraceFileData) : List (FileCov × ℤ) :=
  let scanned := files.foldl (fun (acc : List FileCov × Bool) f =>
    let fc := covScanFile acc.2 f
    (acc.1 ++ [fc], acc.2 || fc.hasSamples)) ([], false)
  let table := scanned.1.map (covDecodeMarkers scanned.2)
  assignGenerations {} (table.insertionSort fun a b =>
    a.ownOffset + a.monoFirst ≤ b.ownOffset + b.monoFirst)

/-! ### The coverage of a generation -/

/-- A marker with the start of its file. -/
structure GenMark where
  ts : ℕ
  isStart : Bool
  fileFirst : ℕ
  deriving DecidableEq, Repr

/-- `struct pgwt_gen_cov`, without its offset. -/
structure GenCov where
  exact : List Span := []
  sampled : List Span := []
  samplePeriodNs : ℕ := 0

/-- The coverage under way: the markers so far and the latest exact evidence. -/
structure GenBuild where
  cov : GenCov := {}
  marks : List GenMark := []
  lastTransEnd : ℕ := 0

/-- The end of the last transition span of a file later than the latest evidence. -/
def FileCov.transEnd (fc : FileCov) (lastTransEnd : ℕ) : ℕ :=
  match fc.tSpans.getLast? with
  | some s => if fc.hasTransitions ∧ lastTransEnd < s.stop then s.stop else lastTransEnd
  | none => lastTransEnd

/-- One file of a generation. -/
def genAddFile (g : GenBuild) (fc : FileCov) : GenBuild :=
  let cov := { g.cov with
    samplePeriodNs := if g.cov.samplePeriodNs < fc.samplePeriodNs then fc.samplePeriodNs
      else g.cov.samplePeriodNs
    sampled := fc.sSpans.foldl (fun l s => spanListAdd 0 l s.start s.stop) g.cov.sampled }
  let g := { g with cov := cov, lastTransEnd := fc.transEnd g.lastTransEnd }
  -- rule 4: a file without samples is that of a daemon in full mode
  if !fc.hasSamples && fc.hasTransitions then
    { g with cov.exact := spanListAdd 0 g.cov.exact fc.monoFirst fc.monoLast }
  -- rule 5: a file without markers is from before there were markers
  else if fc.hasSamples && fc.hasTransitions && fc.marks.isEmpty then
    { g with cov.exact := fc.tSpans.foldl (fun l s => spanListAdd 0 l s.start s.stop) g.cov.exact }
  else
    { g with marks := g.marks ++ fc.marks.map fun m => ⟨m.ts, m.isStart, fc.monoFirst⟩ }

/-- The marker state machine: an open window, and the spans so far. -/
structure MarkState where
  openStart : Option ℕ
  exact : List Span

/-- One marker. A second start is ignored, and an end without a start covers from the start of its
file on. -/
def MarkState.step (s : MarkState) (m : GenMark) : MarkState :=
  if m.isStart then { s with openStart := some (s.openStart.getD m.ts) }
  else ⟨none, spanListAdd 0 s.exact (s.openStart.getD m.fileFirst) m.ts⟩

/-- Rule 2: a window that is not closed ends with the latest evidence. -/
def MarkState.finish (s : MarkState) (lastTransEnd : ℕ) : List Span :=
  match s.openStart with
  | none => s.exact
  | some start =>
    spanListAdd 0 s.exact start (if start < lastTransEnd then lastTransEnd else start)

/-- `gen_cov_build` over the valid files of a generation. -/
def genCovBuild (files : List FileCov) : GenCov :=
  let g := files.foldl genAddFile {}
  let marks := g.marks.insertionSort fun a b => a.ts ≤ b.ts
  let exact := (marks.foldl MarkState.step ⟨none, g.cov.exact⟩).finish g.lastTransEnd
  { g.cov with exact := spansNormalize exact, sampled := spansNormalize g.cov.sampled }

/-- The files of a generation in a coverage table. -/
def generationFiles (table : List (FileCov × ℤ)) (gen : ℤ) : List FileCov :=
  (table.filter fun e => e.1.valid && e.2 = gen).map Prod.fst

end PgWaitTracer
