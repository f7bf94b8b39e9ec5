import PgWaitTracer.Server.Coverage

/-!
# Exact coverage is what was observed

The daemon pushes escalation markers, and transition records only between a start and the end that
closes it. A run of the daemon can end by a crash, with a window open; what was committed until then
is what its files hold. The history of a clock generation is a list of such runs, each with its
files.

The state machine of `gen_cov_build` has one flag for all runs of a generation. The coverage is that
of the windows if no run follows one that left a window open, and if neither the rule for files
without samples nor that for files without markers meets a file of such a daemon: these rules claim
a file as a whole, and put its spans in front of those of the markers, where earlier windows are
lost.

## Main results

* `foldl_markStep`: the state machine pairs the markers of an alternating stream.
* `genCov_observed`: exact coverage and the merge under the condition.
-/

namespace PgWaitTracer

open Spans

/-! ### Runs of a daemon -/

/-- The transition records and markers of the blocks of a file. -/
def blockStream (blocks : List TraceBlock) : List TraceEvent :=
  (blocks.filter fun b => b.type = .transitions).flatMap TraceBlock.events

/-- A run of the daemon: the files that it committed, in order. -/
structure DaemonRun where
  files : List TraceFileData

/-- The transition records and markers that a run committed. -/
def DaemonRun.stream (r : DaemonRun) : List TraceEvent :=
  r.files.flatMap fun f => blockStream f.blocks

/-- Starts and ends alternate, and other records come inside a window. -/
def Alternates : Bool → List TraceEvent → Prop
  | _, [] => True
  | inWindow, ev :: l =>
    match covMark ev with
    | some m => inWindow = !m.isStart ∧ Alternates m.isStart l
    | none => inWindow = true ∧ Alternates true l

/-- The windows that are closed, with the start of the one open before. -/
def closedWindows : Option ℕ → List TraceEvent → List Span
  | _, [] => []
  | o, ev :: l =>
    match covMark ev with
    | some m =>
      if m.isStart then closedWindows (some m.ts) l
      else (o.map fun start => (⟨start, m.ts⟩ : Span)).toList ++ closedWindows none l
    | none => closedWindows o l

/-- The start of the window that is open in the end. -/
def openWindow : Option ℕ → List TraceEvent → Option ℕ
  | o, [] => o
  | o, ev :: l =>
    match covMark ev with
    | some m => openWindow (if m.isStart then some m.ts else none) l
    | none => openWindow o l

/-- The time of the last record of a stream. -/
def lastRecordNs (l : List TraceEvent) : ℕ := (l.getLast?.map TraceEvent.ts).getD 0

/-- The windows of a stream: each from its start to its end or, if it was not closed, to the last
record. -/
def windowsOf (l : List TraceEvent) : List Span :=
  closedWindows none l ++
    ((openWindow none l).map fun start => (⟨start, lastRecordNs l⟩ : Span)).toList

/-- Runs of a daemon one after the other on a monotonic clock. -/
structure History where
  runs : List DaemonRun
  ordered : (runs.flatMap DaemonRun.stream).Pairwise fun a b => a.ts ≤ b.ts
  alternates : ∀ r ∈ runs, Alternates false r.stream

/-- The files of all runs, in order. -/
def History.files (h : History) : List TraceFileData := h.runs.flatMap DaemonRun.files

/-- A file with a block of a type. -/
def TraceFileData.has (f : TraceFileData) (type : BlockType) : Bool :=
  f.blocks.any fun b => b.type = type

/-- No file of the history meets the rules for files without samples or without markers, and nothing
comes behind a window that a crash left open. -/
structure History.Regular (h : History) : Prop where
  marked : ∀ f ∈ h.files, f.has .transitions = true → f.has .samples = true ∧
    ∃ ev ∈ blockStream f.blocks, (covMark ev).isSome = true
  crashLast : h.runs.Pairwise fun r r' => (openWindow none r.stream).isSome = true → r'.stream = []

/-! ### Streams -/

theorem alternates_append {b : Bool} {o : Option ℕ} (ho : o.isSome = b) (A B : List TraceEvent)
    (hA : Alternates b A) (hB : Alternates (openWindow o A).isSome B) : Alternates b (A ++ B) := by
  induction A generalizing b o with
  | nil => exact ho ▸ hB
  | cons ev A ih =>
    rw [List.cons_append, Alternates]
    rw [Alternates] at hA
    rw [openWindow] at hB
    cases hm : covMark ev with
    | none =>
      rw [hm] at hA hB
      exact ⟨hA.1, ih (ho.trans hA.1) hA.2 hB⟩
    | some m =>
      rw [hm] at hA hB
      refine ⟨hA.1, ih ?_ hA.2 hB⟩
      cases m.isStart <;> rfl

theorem openWindow_append (o : Option ℕ) (A B : List TraceEvent) :
    openWindow o (A ++ B) = openWindow (openWindow o A) B := by
  induction A generalizing o with
  | nil => rfl
  | cons ev A ih =>
    rw [List.cons_append, openWindow, openWindow]
    cases covMark ev with
    | none => exact ih o
    | some m => exact ih _

theorem closedWindows_append (o : Option ℕ) (A B : List TraceEvent) :
    closedWindows o (A ++ B) = closedWindows o A ++ closedWindows (openWindow o A) B := by
  induction A generalizing o with
  | nil => rfl
  | cons ev A ih =>
    rw [List.cons_append, closedWindows, closedWindows, openWindow]
    cases covMark ev with
    | none => exact ih o
    | some m =>
      cases hs : m.isStart
      · simp only [hs, Bool.false_eq_true, if_false, ih, List.append_assoc]
      · simp only [hs, if_true, ih]

theorem lastRecordNs_append (A : List TraceEvent) {B : List TraceEvent} (hB : B ≠ []) :
    lastRecordNs (A ++ B) = lastRecordNs B := by
  rw [lastRecordNs, lastRecordNs, List.getLast?_append_of_ne_nil _ hB]

theorem windowsOf_append {A : List TraceEvent} (hA : openWindow none A = none)
    (B : List TraceEvent) :
    windowsOf (A ++ B) = closedWindows none A ++ windowsOf B := by
  rw [windowsOf, windowsOf, closedWindows_append, openWindow_append, hA, List.append_assoc]
  cases B with
  | nil => rfl
  | cons ev B => rw [lastRecordNs_append A (List.cons_ne_nil ev B)]

theorem windows_of_runs {runs : List DaemonRun} (halt : ∀ r ∈ runs, Alternates false r.stream)
    (hlast : runs.Pairwise fun r r' => (openWindow none r.stream).isSome = true → r'.stream = []) :
    Alternates false (runs.flatMap DaemonRun.stream) ∧
      windowsOf (runs.flatMap DaemonRun.stream) = runs.flatMap fun r => windowsOf r.stream := by
  induction runs with
  | nil => exact ⟨trivial, rfl⟩
  | cons r runs ih =>
    obtain ⟨hr, hruns⟩ := List.forall_mem_cons.mp halt
    obtain ⟨hopen, hlast⟩ := List.pairwise_cons.mp hlast
    obtain ⟨ihA, ihW⟩ := ih hruns hlast
    rw [List.flatMap_cons, List.flatMap_cons]
    cases ho : openWindow none r.stream with
    | none =>
      refine ⟨alternates_append (o := none) rfl _ _ hr (by rw [ho]; exact ihA), ?_⟩
      rw [windowsOf_append ho, ihW, windowsOf, ho, Option.map_none, Option.toList_none,
        List.append_nil]
    | some start =>
      have hnil : ∀ r' ∈ runs, r'.stream = [] := fun r' hr' => hopen r' hr' (by rw [ho]; rfl)
      have hrest : runs.flatMap DaemonRun.stream = [] := List.flatMap_eq_nil_iff.mpr hnil
      have hrest' : (runs.flatMap fun r => windowsOf r.stream) = [] :=
        List.flatMap_eq_nil_iff.mpr fun r' hr' => by rw [hnil r' hr']; rfl
      rw [hrest, hrest', List.append_nil, List.append_nil]
      exact ⟨hr, rfl⟩

/-! ### Spans in order -/

/-- Spans that end no later than a time. -/
def EndBy (l : List Span) (t : ℕ) : Prop := ∀ s ∈ l, s.start ≤ s.stop ∧ s.stop ≤ t

theorem EndBy.mono {l : List Span} {t t' : ℕ} (h : EndBy l t) (htt : t ≤ t') : EndBy l t' :=
  fun s hs => ⟨(h s hs).1, (h s hs).2.trans htt⟩

/-- A span behind the others is added as it is. -/
theorem spanListAdd_of_endBy {l : List Span} {start stop : ℕ} (h : EndBy l start)
    (hle : start ≤ stop) : EndBy (spanListAdd 0 l start stop) stop ∧
      ∀ t, t ∈ cover (spanListAdd 0 l start stop) ↔ t ∈ cover l ∨ (start ≤ t ∧ t < stop) := by
  rw [spanListAdd, if_neg (Nat.not_lt.mpr hle)]
  cases hlast : l.getLast? with
  | none =>
    obtain rfl := List.getLast?_eq_none_iff.mp hlast
    refine ⟨fun s hs => ?_, fun t => ?_⟩
    · rw [List.mem_singleton.mp hs]
      exact ⟨hle, le_rfl⟩
    · rw [mem_cover_singleton, cover_nil]
      simp
  | some p =>
    have hsplit : l = l.dropLast ++ [p] := (List.dropLast_append_getLast? p hlast).symm
    have hinit : EndBy l.dropLast start := fun s hs => h s (List.mem_of_mem_dropLast hs)
    obtain ⟨hp, hpstart⟩ := h p (List.mem_of_getLast? hlast)
    have hcover : ∀ t, t ∈ cover l ↔ t ∈ cover l.dropLast ∨ (p.start ≤ t ∧ t < p.stop) := by
      intro t
      conv_lhs => rw [hsplit]
      rw [mem_cover_append, mem_cover_singleton]
    dsimp only
    split_ifs with hin hlt
    · -- the span touches the last one
      obtain rfl : start = p.stop := by omega
      refine ⟨fun s hs => ?_, fun t => ?_⟩
      · rcases List.mem_append.mp hs with hs | hs
        · exact (hinit.mono hle) s hs
        · rw [List.mem_singleton.mp hs]
          exact ⟨hp.trans hle, le_rfl⟩
      · rw [mem_cover_append, mem_cover_singleton, hcover, or_assoc]
        refine or_congr_right ?_
        dsimp only
        omega
    · obtain rfl : start = p.stop := by omega
      obtain rfl : stop = p.stop := by omega
      refine ⟨fun s hs => ?_, fun t => ?_⟩
      · rcases List.mem_append.mp hs with hs | hs
        · exact hinit s hs
        · rw [List.mem_singleton.mp hs]
          exact ⟨hp, le_rfl⟩
      · rw [mem_cover_append, mem_cover_singleton, hcover, or_assoc]
        refine or_congr_right ?_
        dsimp only
        omega
    · refine ⟨fun s hs => ?_, fun t => ?_⟩
      · rcases List.mem_append.mp hs with hs | hs
        · exact (h.mono hle) s hs
        · rw [List.mem_singleton.mp hs]
          exact ⟨hle, le_rfl⟩
      · rw [mem_cover_append, mem_cover_singleton]

/-! ### The state machine -/

theorem covMark_ts {ev : TraceEvent} {m : CovMark} (h : covMark ev = some m) : m.ts = ev.ts := by
  rw [covMark] at h
  split_ifs at h <;> rw [← Option.some_inj.mp h]

/-- A marker without its file. -/
def GenMark.mark (m : GenMark) : CovMark := ⟨m.ts, m.isStart⟩

/-- **The markers of an alternating stream are paired.** The spans from before end by the time of
the open window, and that is not later than the records. -/
theorem foldl_markStep {G : List TraceEvent} (hord : G.Pairwise fun a b => a.ts ≤ b.ts)
    {s : MarkState} (halt : Alternates s.openStart.isSome G)
    (hexact : ∀ x ∈ s.exact, x.start ≤ x.stop) (hspans : ∀ ev ∈ G, EndBy s.exact ev.ts)
    (hopen : ∀ start, s.openStart = some start → EndBy s.exact start ∧ ∀ ev ∈ G, start ≤ ev.ts)
    {ms : List GenMark} (hms : ms.map GenMark.mark = G.filterMap covMark) :
    let s' := ms.foldl MarkState.step s
    s'.openStart = openWindow s.openStart G ∧
      (∀ t, t ∈ cover s'.exact ↔ t ∈ cover s.exact ∨ t ∈ cover (closedWindows s.openStart G)) ∧
      (∀ start, s'.openStart = some start → EndBy s'.exact start) ∧
      ∀ x ∈ s'.exact, x.start ≤ x.stop := by
  induction G generalizing s ms with
  | nil =>
    obtain rfl : ms = [] := by simpa using hms
    refine ⟨rfl, fun t => ?_, fun start hs => (hopen start hs).1, hexact⟩
    rw [closedWindows, cover_nil]
    simp
  | cons ev G ih =>
    obtain ⟨hev, hord⟩ := List.pairwise_cons.mp hord
    obtain ⟨hspan, hspans⟩ := List.forall_mem_cons.mp hspans
    rw [Alternates] at halt
    rw [openWindow, closedWindows]
    cases hm : covMark ev with
    | none =>
      rw [hm] at halt
      rw [List.filterMap_cons_none hm] at hms
      refine ih hord (halt.1 ▸ halt.2) hexact hspans (fun start hs => ?_) hms
      obtain ⟨hby, hle⟩ := hopen start hs
      exact ⟨hby, fun ev' hev' => hle ev' (List.mem_cons_of_mem _ hev')⟩
    | some m =>
      have hts := covMark_ts hm
      rw [hm] at halt
      dsimp only at halt ⊢
      rw [List.filterMap_cons_some hm] at hms
      obtain ⟨g, ms, rfl, hg, hms⟩ := List.map_eq_cons_iff.mp hms
      have hgts : g.ts = m.ts := congrArg CovMark.ts hg
      have hgs : g.isStart = m.isStart := congrArg CovMark.isStart hg
      rw [List.foldl_cons]
      cases hs : m.isStart
      · -- an end closes the window that is open
        rw [hs] at halt
        obtain ⟨start, hstart⟩ := Option.isSome_iff_exists.mp halt.1
        obtain ⟨hend, hlate⟩ := hopen start hstart
        have hle : start ≤ m.ts := hts ▸ hlate ev List.mem_cons_self
        obtain ⟨hby, hcover⟩ := spanListAdd_of_endBy hend hle
        have hstep : s.step g = ⟨none, spanListAdd 0 s.exact start m.ts⟩ := by
          rw [MarkState.step, hgs, hs, hstart, hgts]
          rfl
        rw [hstep]
        obtain ⟨ho, hc, he, hx⟩ := ih hord (s := ⟨none, spanListAdd 0 s.exact start m.ts⟩) halt.2
          (fun x hx => (hby x hx).1) (fun ev' hev' => hby.mono (hts ▸ hev ev' hev'))
          (fun _ h => by cases h) hms
        refine ⟨ho, fun t => ?_, he, hx⟩
        rw [hc, hcover, hstart, Option.map_some, Option.toList_some, if_neg Bool.false_ne_true,
          List.singleton_append, mem_cover_cons, or_assoc]
      · -- a start opens a window
        rw [hs] at halt
        have hstart : s.openStart = none := Option.not_isSome_iff_eq_none.mp (by simp [halt.1])
        have hstep : s.step g = { s with openStart := some m.ts } := by
          rw [MarkState.step, hgs, hs, if_pos rfl, hstart, hgts]
          rfl
        rw [hstep]
        exact ih hord (s := { s with openStart := some m.ts }) halt.2 hexact hspans
          (fun start h => by
            obtain rfl := Option.some_inj.mp h
            exact ⟨hts ▸ hspan, fun ev' hev' => hts ▸ hev ev' hev'⟩) hms

/-! ### The scan of a file -/

/-- The transition blocks of a file. -/
def TraceFileData.transBlocks (f : TraceFileData) : List TraceBlock :=
  f.blocks.filter fun b => b.type = .transitions

theorem foldl_covScanBlock (bs : List TraceBlock) (fc : FileCov) :
    let r := bs.foldl covScanBlock fc
    let ts := bs.filter fun b => b.type = .transitions
    r.hasSamples = (fc.hasSamples || bs.any fun b => b.type = .samples) ∧
      r.hasTransitions = (fc.hasTransitions || bs.any fun b => b.type = .transitions) ∧
      r.pending = fc.pending ++ ts ∧ r.escDone = fc.escDone ∧ r.marks = fc.marks ∧
      r.tSpans = ts.foldl (fun l b => spanListAdd 0 l b.firstNs b.lastNs) fc.tSpans := by
  induction bs generalizing fc with
  | nil => simp
  | cons b bs ih =>
    obtain ⟨hs, ht, hp, he, hm, hts⟩ := ih (covScanBlock fc b)
    dsimp only
    rw [List.foldl_cons, hs, ht, hp, he, hm, hts]
    cases htype : b.type <;> simp [covScanBlock, htype]

/-- The coverage of a file. -/
theorem covScanFile_spec (anySamples : Bool) {f : TraceFileData} (hf : f.blocks ≠ []) :
    let fc := covScanFile anySamples f
    fc.hasSamples = f.has .samples ∧ fc.hasTransitions = f.has .transitions ∧
      fc.tSpans = f.transBlocks.foldl (fun l b => spanListAdd 0 l b.firstNs b.lastNs) [] ∧
      (f.has .samples = true ∨ f.transBlocks = [] →
        fc.marks = (blockStream f.blocks).filterMap covMark) := by
  obtain ⟨b, bs, hb⟩ := List.exists_cons_of_ne_nil hf
  set start : FileCov :=
    { valid := true, ownOffset := f.ownOffset, monoFirst := b.firstNs, monoLast := b.firstNs }
  obtain ⟨hs, ht, hp, he, hm, hts⟩ := foldl_covScanBlock (b :: bs) start
  have hscan : covScanFile anySamples f =
      covDecodeMarkers anySamples ((b :: bs).foldl covScanBlock start) := by
    rw [covScanFile, hb]
  have hdecode : ∀ fc, (covDecodeMarkers anySamples fc).hasSamples = fc.hasSamples ∧
      (covDecodeMarkers anySamples fc).hasTransitions = fc.hasTransitions ∧
      (covDecodeMarkers anySamples fc).tSpans = fc.tSpans := by
    intro fc
    rw [covDecodeMarkers]
    split_ifs <;> exact ⟨rfl, rfl, rfl⟩
  intro fc
  obtain ⟨h₁, h₂, h₃⟩ := hdecode ((b :: bs).foldl covScanBlock start)
  refine ⟨?_, ?_, ?_, fun hor => ?_⟩
  · rw [show fc = _ from hscan, h₁, hs, TraceFileData.has, hb]
    rfl
  · rw [show fc = _ from hscan, h₂, ht, TraceFileData.has, hb]
    rfl
  · rw [show fc = _ from hscan, h₃, hts, TraceFileData.transBlocks, hb]
  · have hpend : ((b :: bs).foldl covScanBlock start).pending = f.transBlocks := by
      rw [hp, TraceFileData.transBlocks, hb]
      rfl
    have hstream : blockStream f.blocks = f.transBlocks.flatMap TraceBlock.events := rfl
    rw [show fc = _ from hscan, covDecodeMarkers, hpend, he, hm, hs, hstream]
    rcases hor with hsamples | hnil
    · rw [TraceFileData.has, hb] at hsamples
      rw [hsamples]
      split_ifs with h
      · change [] ++ _ = _
        rw [List.nil_append, List.drop_zero, List.filterMap_flatMap]
      · have hle : f.transBlocks.length ≤ start.escDone := by simpa using h
        have hlen : f.transBlocks.length = 0 := Nat.le_zero.mp hle
        rw [List.length_eq_zero_iff.mp hlen]
        exact hm
    · rw [hnil, if_neg (by simp)]
      exact hm

/-! ### The files of a generation -/

/-- The end of the last span. -/
def lastStop (l : List Span) : ℕ := (l.getLast?.map Span.stop).getD 0

theorem lastStop_spanListAdd (l : List Span) {start stop : ℕ} (h : start ≤ stop) :
    lastStop (spanListAdd 0 l start stop) = max (lastStop l) stop := by
  rw [spanListAdd, if_neg (Nat.not_lt.mpr h), lastStop, lastStop]
  cases hlast : l.getLast? with
  | none => simp
  | some p =>
    dsimp only
    split_ifs with hin hlt
    · simp [Nat.le_of_lt hlt]
    · simp [Nat.not_lt.mp hlt]
    · simp
      omega

/-- The latest of the last timestamps of blocks. -/
def latestNs (bs : List TraceBlock) (e : ℕ) : ℕ := bs.foldl (fun e b => max e b.lastNs) e

theorem latestNs_append (A B : List TraceBlock) (e : ℕ) :
    latestNs (A ++ B) e = latestNs B (latestNs A e) := List.foldl_append

theorem max_latestNs (bs : List TraceBlock) (e e' : ℕ) :
    max e (latestNs bs e') = latestNs bs (max e e') := by
  induction bs generalizing e' with
  | nil => rfl
  | cons b bs ih => exact (ih (max e' b.lastNs)).trans (by rw [← max_assoc]; rfl)

theorem lastStop_foldl {bs : List TraceBlock} (h : ∀ b ∈ bs, b.firstNs ≤ b.lastNs) (l : List Span) :
    lastStop (bs.foldl (fun l b => spanListAdd 0 l b.firstNs b.lastNs) l) =
      latestNs bs (lastStop l) := by
  induction bs generalizing l with
  | nil => rfl
  | cons b bs ih =>
    obtain ⟨hb, hbs⟩ := List.forall_mem_cons.mp h
    rw [List.foldl_cons, ih hbs, lastStop_spanListAdd l hb]
    rfl

theorem transEnd_eq {fc : FileCov} (h : fc.tSpans ≠ [] → fc.hasTransitions = true) (e : ℕ) :
    fc.transEnd e = max e (lastStop fc.tSpans) := by
  rw [FileCov.transEnd, lastStop]
  cases hlast : fc.tSpans.getLast? with
  | none => simp
  | some s =>
    have hne : fc.tSpans ≠ [] := by
      rintro hnil
      rw [hnil] at hlast
      cases hlast
    dsimp only
    rw [h hne, Option.map_some, Option.getD_some]
    split_ifs with hlt
    · exact (max_eq_right (Nat.le_of_lt hlt.2)).symm
    · exact (max_eq_left (by simpa using hlt)).symm

/-- A file that meets neither rule adds its markers and its evidence. -/
theorem genAddFile_of_marked (anySamples : Bool) {f : TraceFileData} (hf : f.blocks ≠ [])
    (hmarked : f.has .transitions = true → f.has .samples = true ∧
      ∃ ev ∈ blockStream f.blocks, (covMark ev).isSome = true)
    (hblocks : ∀ b ∈ f.transBlocks, b.firstNs ≤ b.lastNs) (g : GenBuild) :
    let g' := genAddFile g (covScanFile anySamples f)
    g'.cov.exact = g.cov.exact ∧
      g'.marks.map GenMark.mark =
        g.marks.map GenMark.mark ++ (blockStream f.blocks).filterMap covMark ∧
      g'.lastTransEnd = latestNs f.transBlocks g.lastTransEnd := by
  obtain ⟨hs, ht, hts, hmarks⟩ := covScanFile_spec anySamples hf
  set fc := covScanFile anySamples f
  have hnone : f.has .transitions = false → f.transBlocks = [] := by
    intro h
    rw [TraceFileData.transBlocks, List.filter_eq_nil_iff]
    simpa [TraceFileData.has] using h
  have hend : fc.transEnd g.lastTransEnd = latestNs f.transBlocks g.lastTransEnd := by
    have htrans : fc.tSpans ≠ [] → fc.hasTransitions = true := by
      intro hne
      by_contra hno
      rw [ht, Bool.not_eq_true] at hno
      rw [hts, hnone hno] at hne
      exact hne rfl
    rw [transEnd_eq htrans, hts, lastStop_foldl hblocks, max_latestNs,
      show lastStop [] = 0 from rfl, Nat.max_zero]
  have hmarks : fc.marks = (blockStream f.blocks).filterMap covMark := by
    refine hmarks ?_
    cases h : f.has .transitions
    · exact Or.inr (hnone h)
    · exact Or.inl (hmarked h).1
  have hmap : (fc.marks.map fun m => (⟨m.ts, m.isStart, fc.monoFirst⟩ : GenMark)).map GenMark.mark =
      fc.marks := by
    rw [List.map_map]
    exact List.map_id _
  have hrules : (!fc.hasSamples && fc.hasTransitions) = false ∧
      (fc.hasSamples && fc.hasTransitions && fc.marks.isEmpty) = false := by
    rw [hs, ht]
    cases h : f.has .transitions
    · simp
    · obtain ⟨hsamples, ev, hev, hm⟩ := hmarked h
      obtain ⟨m, hm⟩ := Option.isSome_iff_exists.mp hm
      have hne : fc.marks ≠ [] :=
        hmarks ▸ List.ne_nil_of_mem (List.mem_filterMap.mpr ⟨ev, hev, hm⟩)
      simp [hsamples, hne]
  intro g'
  have hg' : g' = { g with
      cov := { g.cov with
        samplePeriodNs := if g.cov.samplePeriodNs < fc.samplePeriodNs then fc.samplePeriodNs
          else g.cov.samplePeriodNs
        sampled := fc.sSpans.foldl (fun l s => spanListAdd 0 l s.start s.stop) g.cov.sampled }
      lastTransEnd := fc.transEnd g.lastTransEnd
      marks := g.marks ++ fc.marks.map fun m => ⟨m.ts, m.isStart, fc.monoFirst⟩ } := by
    simp only [g', genAddFile, hrules.1, hrules.2, Bool.false_eq_true, if_false]
  rw [hg']
  refine ⟨rfl, ?_, hend⟩
  rw [List.map_append, hmap, hmarks]

theorem foldl_genAddFile (anySamples : Bool) {files : List TraceFileData}
    (hmarked : ∀ f ∈ files, f.has .transitions = true → f.has .samples = true ∧
      ∃ ev ∈ blockStream f.blocks, (covMark ev).isSome = true)
    (hblocks : ∀ f ∈ files, ∀ b ∈ f.transBlocks, b.firstNs ≤ b.lastNs) (g : GenBuild) :
    let g' := ((files.filter fun f => f.blocks ≠ []).map
      (covScanFile anySamples)).foldl genAddFile g
    g'.cov.exact = g.cov.exact ∧
      g'.marks.map GenMark.mark = g.marks.map GenMark.mark ++
        (files.flatMap fun f => blockStream f.blocks).filterMap covMark ∧
      g'.lastTransEnd = latestNs (files.flatMap TraceFileData.transBlocks) g.lastTransEnd := by
  induction files generalizing g with
  | nil => exact ⟨rfl, (List.append_nil _).symm, rfl⟩
  | cons f files ih =>
    obtain ⟨hf, hmarked⟩ := List.forall_mem_cons.mp hmarked
    obtain ⟨hb, hblocks⟩ := List.forall_mem_cons.mp hblocks
    have ih := ih hmarked hblocks
    by_cases hne : f.blocks = []
    · have hstream : blockStream f.blocks = [] := by rw [hne]; rfl
      have htrans : f.transBlocks = [] := by rw [TraceFileData.transBlocks, hne]; rfl
      rw [List.filter_cons_of_neg (by simpa using hne), List.flatMap_cons, List.flatMap_cons,
        hstream, htrans, List.nil_append, List.nil_append]
      exact ih g
    · rw [List.filter_cons_of_pos (by simpa using hne), List.map_cons, List.foldl_cons,
        List.flatMap_cons, List.flatMap_cons, List.filterMap_append, latestNs_append]
      obtain ⟨he, hm, hl⟩ := genAddFile_of_marked anySamples hne hf hb g
      obtain ⟨he', hm', hl'⟩ := ih (genAddFile g (covScanFile anySamples f))
      exact ⟨he'.trans he, by rw [hm', hm, List.append_assoc], by rw [hl', hl]⟩

theorem latestNs_eq_lastRecordNs {bs : List TraceBlock}
    (hord : (bs.flatMap TraceBlock.events).Pairwise fun a b => a.ts ≤ b.ts) :
    latestNs bs 0 = lastRecordNs (bs.flatMap TraceBlock.events) := by
  induction bs using List.reverseRecOn with
  | nil => rfl
  | append_singleton bs b ih =>
    rw [List.flatMap_append, List.flatMap_singleton] at hord ⊢
    obtain ⟨hbs, -, hcross⟩ := List.pairwise_append.mp hord
    have hlast : lastRecordNs b.events = b.lastNs := by
      rw [lastRecordNs, List.getLast?_eq_some_getLast b.nonempty]
      rfl
    rw [latestNs_append, ih hbs, lastRecordNs_append _ b.nonempty, hlast]
    change max _ _ = _
    rw [max_eq_right]
    rw [lastRecordNs]
    cases hl : (bs.flatMap TraceBlock.events).getLast? with
    | none => exact Nat.zero_le _
    | some ev => exact hcross ev (List.mem_of_getLast? hl) _ (List.getLast_mem b.nonempty)

/-- A window that is open in the end was opened by a record of the stream. -/
theorem le_lastRecordNs_of_open {G : List TraceEvent} (hord : G.Pairwise fun a b => a.ts ≤ b.ts)
    {start : ℕ} (h : openWindow none G = some start) : start ≤ lastRecordNs G := by
  have hmem : ∀ (l : List TraceEvent) (o : Option ℕ), openWindow o l = some start →
      o = some start ∨ ∃ ev ∈ l, ev.ts = start := by
    intro l
    induction l with
    | nil => exact fun o ho => Or.inl ho
    | cons ev l ih =>
      intro o ho
      rw [openWindow] at ho
      cases hm : covMark ev with
      | none =>
        rw [hm] at ho
        rcases ih o ho with h | ⟨ev', hev', hts⟩
        · exact Or.inl h
        · exact Or.inr ⟨ev', List.mem_cons_of_mem _ hev', hts⟩
      | some m =>
        rw [hm] at ho
        rcases ih _ ho with h | ⟨ev', hev', hts⟩
        · cases hs : m.isStart
          · rw [hs] at h
            cases h
          · rw [hs] at h
            exact Or.inr ⟨ev, List.mem_cons_self, (covMark_ts hm).symm.trans (Option.some_inj.mp h)⟩
        · exact Or.inr ⟨ev', List.mem_cons_of_mem _ hev', hts⟩
  rcases hmem G none h with h | ⟨ev, hev, rfl⟩
  · cases h
  · have hne := List.ne_nil_of_mem hev
    have hlast : lastRecordNs G = (G.getLast hne).ts := by
      rw [lastRecordNs, List.getLast?_eq_some_getLast hne]
      rfl
    rw [hlast]
    rw [← List.dropLast_append_getLast hne] at hev hord
    rcases List.mem_append.mp hev with hev | hev
    · exact (List.pairwise_append.mp hord).2.2 ev hev _ List.mem_cons_self
    · rw [List.mem_singleton.mp hev]

/-- The coverage of a regular history: the windows of its runs. -/
theorem mem_cover_genCovBuild (anySamples : Bool) (h : History) (hreg : h.Regular) :
    let cov := genCovBuild ((h.files.filter fun f => f.blocks ≠ []).map (covScanFile anySamples))
    Normalized cov.exact ∧
      ∀ t, t ∈ cover cov.exact ↔ ∃ r ∈ h.runs, t ∈ cover (windowsOf r.stream) := by
  set G := h.runs.flatMap DaemonRun.stream with hG
  have hGord : G.Pairwise fun a b => a.ts ≤ b.ts := h.ordered
  obtain ⟨halt, hwin⟩ := windows_of_runs h.alternates hreg.crashLast
  rw [← hG] at halt hwin
  have hstream : (h.files.flatMap fun f => blockStream f.blocks) = G := by
    rw [History.files, List.flatMap_assoc]
    rfl
  have hevents : (h.files.flatMap TraceFileData.transBlocks).flatMap TraceBlock.events = G := by
    rw [← hstream, List.flatMap_assoc]
    rfl
  have hblocks : ∀ f ∈ h.files, ∀ b ∈ f.transBlocks, b.firstNs ≤ b.lastNs := by
    intro f hf b hb
    rw [← hevents] at hGord
    have hsub := (List.pairwise_flatMap.mp hGord).1 b (List.mem_flatMap.mpr ⟨f, hf, hb⟩)
    rw [TraceBlock.firstNs, TraceBlock.lastNs]
    obtain ⟨ev, l, hl⟩ := List.exists_cons_of_ne_nil b.nonempty
    simp only [hl, List.head_cons]
    rw [hl] at hsub
    rcases List.mem_cons.mp (List.getLast_mem (List.cons_ne_nil ev l)) with heq | hmem
    · rw [heq]
    · exact (List.pairwise_cons.mp hsub).1 _ hmem
  obtain ⟨hexact, hmarks, hend⟩ := foldl_genAddFile anySamples hreg.marked hblocks {}
  set g := ((h.files.filter fun f => f.blocks ≠ []).map
    (covScanFile anySamples)).foldl genAddFile {} with hg
  rw [latestNs_eq_lastRecordNs (by rw [hevents]; exact hGord), hevents] at hend
  replace hexact : g.cov.exact = [] := hexact
  replace hmarks : g.marks.map GenMark.mark = G.filterMap covMark := hstream ▸ hmarks
  have hsorted : g.marks.Pairwise fun a b => a.ts ≤ b.ts := by
    have hpair : (G.filterMap covMark).Pairwise fun a b => a.ts ≤ b.ts := by
      refine List.Pairwise.filterMap _ (fun a a' hle m hm m' hm' => ?_) hGord
      rw [covMark_ts hm, covMark_ts hm']
      exact hle
    rw [← hmarks, List.pairwise_map] at hpair
    exact hpair
  obtain ⟨hopen, hcover, hby, hord⟩ := foldl_markStep hGord (s := ⟨none, g.cov.exact⟩) halt
    (by rw [hexact]; exact fun _ hx => absurd hx List.not_mem_nil)
    (by rw [hexact]; exact fun _ _ _ hx => absurd hx List.not_mem_nil) (fun _ ho => by cases ho)
    hmarks
  set s := g.marks.foldl MarkState.step ⟨none, g.cov.exact⟩ with hs
  have hfinish : (∀ x ∈ s.finish g.lastTransEnd, x.start ≤ x.stop) ∧
      ∀ t, t ∈ cover (s.finish g.lastTransEnd) ↔ t ∈ cover (windowsOf G) := by
    have hclosed : ∀ t, t ∈ cover s.exact ↔ t ∈ cover (closedWindows none G) := by
      intro t
      rw [hcover, hexact, cover_nil]
      simp
    rw [MarkState.finish, windowsOf, ← hopen]
    cases ho : s.openStart with
    | none =>
      refine ⟨hord, fun t => ?_⟩
      rw [Option.map_none, Option.toList_none, List.append_nil]
      exact hclosed t
    | some start =>
      have hle := le_lastRecordNs_of_open hGord (hopen.symm.trans ho)
      have hstop : (if start < g.lastTransEnd then g.lastTransEnd else start) = lastRecordNs G := by
        rw [hend]
        split_ifs <;> omega
      obtain ⟨hby', hcover'⟩ := spanListAdd_of_endBy (hby start ho) hle
      dsimp only
      rw [hstop]
      refine ⟨fun x hx => (hby' x hx).1, fun t => ?_⟩
      rw [hcover', hclosed, mem_cover_append, Option.map_some, Option.toList_some,
        mem_cover_singleton]
  intro cov
  have hcov : cov.exact = spansNormalize (s.finish g.lastTransEnd) := by
    simp only [cov, genCovBuild, ← hg, hsorted.insertionSort_eq, ← hs]
  rw [hcov]
  refine ⟨normalized_normalize hfinish.1, fun t => ?_⟩
  rw [spansNormalize, cover_normalize, hfinish.2, hwin]
  simp only [mem_cover, List.mem_flatMap]
  constructor
  · rintro ⟨w, ⟨r, hr, hw⟩, ht⟩
    exact ⟨r, hr, w, hw, ht⟩
  · rintro ⟨r, hr, w, hw, ht⟩
    exact ⟨w, ⟨r, hr, hw⟩, ht⟩

/-- **Exact coverage is observed time.** In a regular history every instant of the exact coverage of
the generation lies in a window of a run, between its start and its end or, if it was left open, the
last record of that run; every closed window is covered; and what a sample holds outside all windows
is emitted by the merge. -/
theorem genCov_observed (dir : List TraceFileData) (gen : ℤ) (h : History)
    (hgen : generationFiles (coverageRefresh dir) gen =
      (h.files.filter fun f => f.blocks ≠ []).map (covScanFile (dir.any fun f => f.has .samples)))
    (hreg : h.Regular) :
    let exact := (genCovBuild (generationFiles (coverageRefresh dir) gen)).exact
    (∀ t ∈ cover exact, ∃ r ∈ h.runs, t ∈ cover (windowsOf r.stream)) ∧
      (∀ r ∈ h.runs, ∀ w ∈ closedWindows none r.stream, ∀ t, w.start ≤ t → t < w.stop →
        t ∈ cover exact) ∧
      ∀ seg : MergeSegment, seg.exact = exact → ∀ ev ∈ seg.events, ev.isSample = true →
        ∀ t, ev.ts - ev.dur ≤ t → t < ev.ts → seg.fromM ≤ t → t < seg.toM →
          (∀ r ∈ h.runs, t ∉ cover (windowsOf r.stream)) →
          t ∈ cover ((seg.emitted ev).map (TraceEvent.monoSpan seg.off)) := by
  intro exact
  obtain ⟨hnorm, hcover⟩ := mem_cover_genCovBuild (dir.any fun f => f.has .samples) h hreg
  rw [← hgen] at hnorm hcover
  refine ⟨fun t ht => (hcover t).mp ht, fun r hr w hw t hstart hstop => ?_,
    fun seg hseg ev _ hsample t h₁ h₂ h₃ h₄ hout => ?_⟩
  · exact (hcover t).mpr ⟨r, hr, w, List.mem_append_left _ hw, hstart, hstop⟩
  · have hnorm' : Normalized seg.exact := hseg ▸ hnorm
    have hemitted : (seg.emitted ev).map (TraceEvent.monoSpan seg.off) = seg.parts ev := by
      rw [MergeSegment.emitted, if_pos hsample,
        map_monoSpan_partRecords _ _ _ (parts_ordered hnorm' ev).2]
    rw [hemitted, mem_cover_parts hnorm', hseg]
    refine ⟨⟨⟨h₁, h₂⟩, fun hin => ?_⟩, h₃, h₄⟩
    obtain ⟨r, hr, hrt⟩ := (hcover t).mp hin
    exact hout r hr hrt

/-! ### Histories of one process -/

/-- A record at a time. -/
def escRecord (event flags : UInt32) (ts : UInt64) : TraceEvent :=
  ⟨ts, 7, event, 0, flags, 1, 0, cpuNsUnknown⟩

/-- The start of a window. -/
def escStart (ts : UInt64) : TraceEvent := escRecord markerEscalateStart 0 ts

/-- The end of a window. -/
def escEnd (ts : UInt64) : TraceEvent := escRecord markerEscalateEnd 0 ts

/-- The record of a wait. -/
def escWait (ts : UInt64) : TraceEvent := escRecord 0x0A000001 0 ts

/-- A file of a block of one sample and a block of transitions. -/
def tieredFile (sample : UInt64) (ev : TraceEvent) (l : List TraceEvent) : TraceFileData where
  ownOffset := 0
  blocks := [⟨.samples, 5, [escRecord 0x0A000001 flagSample sample], List.cons_ne_nil _ _⟩,
    ⟨.transitions, 0, ev :: l, List.cons_ne_nil _ _⟩]

theorem marked_tieredFile (sample start : UInt64) (l : List TraceEvent) :
    (tieredFile sample (escStart start) l).has .samples = true ∧
      ∃ ev ∈ blockStream (tieredFile sample (escStart start) l).blocks,
        (covMark ev).isSome = true :=
  ⟨rfl, escStart start, List.mem_cons_self, rfl⟩

/-- A closed window, and a window that a crash leaves open in the end. -/
def regularHistory : History where
  runs := [⟨[tieredFile 5 (escStart 10) [escWait 12, escEnd 20]]⟩,
    ⟨[tieredFile 90 (escStart 100) [escWait 108]]⟩]
  ordered := by decide
  alternates := by
    simp [Alternates, DaemonRun.stream, blockStream, tieredFile, covMark, escStart, escWait, escEnd,
      escRecord, markerEscalateStart, markerEscalateEnd]

/-- The instants 15 and 104 are in the two windows, and 50 is between them. -/
theorem genCov_observed_twoRuns :
    let exact := (genCovBuild (generationFiles (coverageRefresh regularHistory.files) 0)).exact
    exact = [⟨10, 20⟩, ⟨100, 108⟩] ∧ (15 ∈ cover exact ∧ 50 ∉ cover exact) ∧
      ∃ r ∈ regularHistory.runs, 104 ∈ cover (windowsOf r.stream) := by
  intro exact
  have hexact : exact = [⟨10, 20⟩, ⟨100, 108⟩] := by decide +kernel
  have hreg : regularHistory.Regular := by
    refine ⟨fun f hf _ => ?_, ?_⟩
    · simp only [History.files, regularHistory, List.flatMap_cons, List.flatMap_nil,
        List.append_nil, List.singleton_append, List.mem_cons, List.not_mem_nil, or_false] at hf
      rcases hf with rfl | rfl
      · exact marked_tieredFile 5 10 _
      · exact marked_tieredFile 90 100 _
    · simp [regularHistory, tieredFile, DaemonRun.stream, blockStream, openWindow, covMark,
        escStart, escWait, escEnd, escRecord, markerEscalateStart, markerEscalateEnd]
  obtain ⟨hsound, hclosed, -⟩ := genCov_observed regularHistory.files 0 regularHistory rfl hreg
  refine ⟨hexact, ⟨?_, ?_⟩, hsound 104 ?_⟩
  · exact hclosed ⟨[tieredFile 5 (escStart 10) [escWait 12, escEnd 20]]⟩ List.mem_cons_self ⟨10, 20⟩
      (by decide +kernel) 15 (by decide) (by decide)
  · rw [hexact, mem_cover]
    decide
  · change 104 ∈ cover exact
    rw [hexact]
    exact ⟨⟨100, 108⟩, by simp, by decide, by decide⟩

/-- A window that a crash leaves open, and one of the next run. -/
def crashHistory : History where
  runs := [⟨[tieredFile 5 (escStart 10) [escWait 12]]⟩,
    ⟨[tieredFile 90 (escStart 100) [escWait 101, escEnd 110]]⟩]
  ordered := by decide
  alternates := by
    simp [Alternates, DaemonRun.stream, blockStream, tieredFile, covMark, escStart, escWait, escEnd,
      escRecord, markerEscalateStart, markerEscalateEnd]

/-- Two windows, of which the second one goes over three files. -/
def rotatedHistory : History where
  runs := [⟨[tieredFile 5 (escStart 10) [escWait 12, escEnd 20, escStart 30, escWait 35],
    tieredFile 41 (escWait 42) [escWait 50], tieredFile 60 (escWait 62) [escEnd 70]]⟩]
  ordered := by decide
  alternates := by
    simp [Alternates, DaemonRun.stream, blockStream, tieredFile, covMark, escStart, escWait, escEnd,
      escRecord, markerEscalateStart, markerEscalateEnd]

/-- The start of the second run is ignored, so that its end closes the window of the first one, and
the time between the runs is covered. With a file in the middle of a window, a window before it is
not. -/
theorem genCov_unobserved :
    (generationFiles (coverageRefresh crashHistory.files) 0 =
        (crashHistory.files.filter fun f => f.blocks ≠ []).map (covScanFile true) ∧
      50 ∈ cover (genCovBuild (generationFiles (coverageRefresh crashHistory.files) 0)).exact ∧
      ∀ r ∈ crashHistory.runs, 50 ∉ cover (windowsOf r.stream)) ∧
    generationFiles (coverageRefresh rotatedHistory.files) 0 =
        (rotatedHistory.files.filter fun f => f.blocks ≠ []).map (covScanFile true) ∧
      15 ∉ cover (genCovBuild (generationFiles (coverageRefresh rotatedHistory.files) 0)).exact ∧
      ∃ r ∈ rotatedHistory.runs, ⟨10, 20⟩ ∈ closedWindows none r.stream := by
  have hcrash : (genCovBuild (generationFiles (coverageRefresh crashHistory.files) 0)).exact =
      [⟨10, 110⟩] := by decide +kernel
  have hrotated : (genCovBuild (generationFiles (coverageRefresh rotatedHistory.files) 0)).exact =
      [⟨42, 70⟩] := by decide +kernel
  have hwindows : crashHistory.runs.map (fun r => windowsOf r.stream) =
      [[⟨10, 12⟩], [⟨100, 110⟩]] := by decide +kernel
  refine ⟨⟨rfl, ?_, fun r hr hin => ?_⟩, rfl, ?_, ?_⟩
  · rw [hcrash, mem_cover]
    exact ⟨⟨10, 110⟩, List.mem_cons_self, by decide, by decide⟩
  · have hmem : windowsOf r.stream ∈ [[(⟨10, 12⟩ : Span)], [⟨100, 110⟩]] :=
      hwindows ▸ List.mem_map_of_mem hr
    rw [mem_cover] at hin
    obtain ⟨w, hw, hstart, hstop⟩ := hin
    simp only [List.mem_cons, List.not_mem_nil, or_false] at hmem
    rcases hmem with h | h
    · rw [h, List.mem_singleton] at hw
      rw [hw] at hstop
      exact absurd hstop (by decide)
    · rw [h, List.mem_singleton] at hw
      rw [hw] at hstart
      exact absurd hstart (by decide)
  · rw [hrotated, mem_cover]
    decide
  · exact ⟨_, List.mem_cons_self, by decide +kernel⟩

end PgWaitTracer
