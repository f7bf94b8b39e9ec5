import PgWaitTracer.Server.ExactGaps

/-!
# The fidelity of a window

From the coverage alone the server says how well a wall window was observed (`src/server.c`).
`window_fidelity` gives one verdict for the whole window: whether exact coverage overlaps it, and
whether some sampled span lies outside the exact coverage of its generation by more than a sample
period. `window_fidelity_ranges` divides the window into ranges of one fidelity each: the exact spans
of all generations, and what they leave of the sampled spans that pass the same rule. It works in
arrays of a fixed size and refuses when one of them is full.

Times are natural numbers and offsets integers. A clipped span put on the wall clock lies in the
window, so its ends do not wrap.
-/

namespace PgWaitTracer

open Spans

/-- `enum pgwt_fidelity`. -/
inductive Fidelity
  | none | exact | sampled | mixed
  deriving DecidableEq, Repr

/-- `pgwt_fidelity_of`. -/
def fidelityOf (hasTransitions hasSamples : Bool) : Fidelity :=
  match hasTransitions, hasSamples with
  | true, true => .mixed
  | true, false => .exact
  | false, true => .sampled
  | false, false => .none

/-! ### The window in a generation -/

/-- The window on the monotonic clock of a generation, unless it ends before that clock starts. -/
def PlacedCov.window (gc : PlacedCov) (fromWall toWall : ℕ) : Option Span :=
  if (toWall : ℤ) - gc.canonOffset ≤ 0 then none
  else some ⟨((fromWall : ℤ) - gc.canonOffset).toNat, ((toWall : ℤ) - gc.canonOffset).toNat⟩

/-- A span cut to the window. It is empty when it does not end past its start. -/
def clip (w s : Span) : Span where
  start := if w.start < s.start then s.start else w.start
  stop := if s.stop < w.stop then s.stop else w.stop

/-- `span_overlap`. -/
def spanOverlap (a b : Span) : ℕ :=
  let c := clip b a
  if c.start < c.stop then c.stop - c.start else 0

/-- What the exact spans of a generation cover of a span, added up. -/
def PlacedCov.covered (gc : PlacedCov) (s : Span) : ℕ :=
  gc.exact.foldl (fun covered x => covered + spanOverlap x s) 0

/-- The tolerance at the edges of spans: a sample period, a second when there is none. -/
def PlacedCov.slop (gc : PlacedCov) : ℕ :=
  if gc.samplePeriodNs = 0 then 1000000000 else gc.samplePeriodNs

/-- A clipped sampled span exceeds its exact coverage by more than the tolerance. -/
def PlacedCov.uncovered (gc : PlacedCov) (s : Span) : Bool :=
  gc.covered s + gc.slop < s.stop - s.start

/-! ### One verdict for the window -/

/-- `struct pgwt_wfid` under way, with the two flags it is computed from. -/
structure FidelityScan where
  hasExact : Bool := false
  hasUncoveredSamples : Bool := false
  samplePeriodNs : ℕ := 0
  deriving DecidableEq, Repr

/-- A sampled span of the generation. -/
def FidelityScan.addSampled (gc : PlacedCov) (w : Span) (st : FidelityScan) (s : Span) :
    FidelityScan :=
  let c := clip w s
  if c.stop ≤ c.start then st
  else
    { st with
      samplePeriodNs := gc.samplePeriodNs
      hasUncoveredSamples := st.hasUncoveredSamples || gc.uncovered c }

/-- A generation. -/
def FidelityScan.addGen (fromWall toWall : ℕ) (st : FidelityScan) (gc : PlacedCov) :
    FidelityScan :=
  match gc.window fromWall toWall with
  | none => st
  | some w =>
    let hasExact := st.hasExact || gc.exact.any fun s => 0 < spanOverlap s w
    gc.sampled.foldl (addSampled gc w) { st with hasExact := hasExact }

/-- `window_fidelity`: the verdict and the sample period. -/
def windowFidelity (gens : List PlacedCov) (fromWall toWall : ℕ) : Fidelity × ℕ :=
  let st := gens.foldl (FidelityScan.addGen fromWall toWall) {}
  let fid := fidelityOf st.hasExact st.hasUncoveredSamples
  (fid, if fid = .exact then 0 else st.samplePeriodNs)

/-! ### Span lists of bounded size -/

/-- `PGWT_FID_SPAN_CAP`. -/
def fidSpanCap : ℕ := 512

/-- `fid_span_push`: an empty span is dropped, and a full array refuses. -/
def fidSpanPush (l : List Span) (s : Span) : Option (List Span) :=
  if s.stop ≤ s.start then some l else if fidSpanCap ≤ l.length then none else some (l ++ [s])

/-- `cmp_fid_span` does not put `y` first. -/
def fidSpanLe (x y : Span) : Prop := x.start < y.start ∨ x.start = y.start ∧ x.stop ≤ y.stop

instance : DecidableRel fidSpanLe := fun x y =>
  inferInstanceAs (Decidable (x.start < y.start ∨ x.start = y.start ∧ x.stop ≤ y.stop))

/-- `fid_spans_union`: sorted, and merged where spans meet. -/
def fidSpansUnion (l : List Span) : List Span :=
  match l.insertionSort fidSpanLe with
  | [] => []
  | w :: l => coalesce w l

/-- The part between the cursor and a cut. -/
def pushBefore (stop : ℕ) (c : Span) (cursor : ℕ) (dst : List Span) : Option (List Span) :=
  if cursor < c.start then fidSpanPush dst ⟨cursor, if c.start < stop then c.start else stop⟩
  else some dst

/-- The inner loop of `fid_spans_subtract`: what the cuts leave between the cursor and `stop` goes
to `dst`. The cursor at the end of the loop is returned with it. -/
def subtractCuts (stop : ℕ) : List Span → ℕ → List Span → Option (ℕ × List Span)
  | [], cursor, dst => some (cursor, dst)
  | c :: cut, cursor, dst =>
    if stop ≤ cursor then some (cursor, dst)
    else if c.stop ≤ cursor then subtractCuts stop cut cursor dst
    else if stop ≤ c.start then some (cursor, dst)
    else do
      let dst ← pushBefore stop c cursor dst
      subtractCuts stop cut (if c.stop < stop then c.stop else stop) dst

/-- One span of `fid_spans_subtract`. -/
def subtractSpan (cut dst : List Span) (s : Span) : Option (List Span) := do
  let (cursor, dst) ← subtractCuts s.stop cut s.start dst
  if cursor < s.stop then fidSpanPush dst ⟨cursor, s.stop⟩ else some dst

/-- `fid_spans_subtract`. -/
def fidSpansSubtract (src cut : List Span) : Option (List Span) := src.foldlM (subtractSpan cut) []

/-! ### The ranges of the window -/

/-- `struct pgwt_fid_range`. -/
structure FidRange where
  fromNs : ℕ
  toNs : ℕ
  fid : Fidelity
  deriving DecidableEq, Repr

/-- A span of the generation on the wall clock. -/
def PlacedCov.place (gc : PlacedCov) (s : Span) : Span where
  start := ((s.start : ℤ) + gc.canonOffset).toNat
  stop := ((s.stop : ℤ) + gc.canonOffset).toNat

/-- An exact span of the generation. -/
def addExactSpan (gc : PlacedCov) (w : Span) (ex : List Span) (s : Span) : Option (List Span) :=
  let c := clip w s
  if c.stop ≤ c.start then some ex else fidSpanPush ex (gc.place c)

/-- A sampled span of the generation: what its exact spans leave of it, if it passes the rule of
`windowFidelity`. -/
def addSampledSpan (gc : PlacedCov) (w : Span) (sm : List Span) (s : Span) :
    Option (List Span) :=
  let c := clip w s
  if c.stop ≤ c.start then some sm
  else if !gc.uncovered c then some sm
  else do
    let pieces ← fidSpansSubtract [c] gc.exact
    pieces.foldlM (fun sm p => fidSpanPush sm (gc.place p)) sm

/-- A generation, with the exact and the sampled spans so far. -/
def addGenSpans (fromWall toWall : ℕ) (acc : List Span × List Span) (gc : PlacedCov) :
    Option (List Span × List Span) :=
  match gc.window fromWall toWall with
  | none => some acc
  | some w => do
    let ex ← gc.exact.foldlM (addExactSpan gc w) acc.1
    let sm ← gc.sampled.foldlM (addSampledSpan gc w) acc.2
    pure (ex, sm)

/-- The start of the first span, if it comes before `stop`. -/
def firstStart (l : List Span) (stop : ℕ) : ℕ :=
  match l.head? with
  | some s => if s.start < stop then s.start else stop
  | none => stop

/-- The fidelity at the cursor and where it may change, from the spans that end past it. -/
def nextRange (ex sm : List Span) (cursor toWall : ℕ) : Fidelity × ℕ :=
  match ex.head?.filter (·.start ≤ cursor), sm.head?.filter (·.start ≤ cursor) with
  | some e, _ => (.exact, e.stop)
  | none, some s => (.sampled, s.stop)
  | none, none => (.none, firstStart sm (firstStart ex toWall))

/-- A range behind those written: it extends the last one when they meet and have one fidelity. -/
def pushRange (cap : ℕ) (out : List FidRange) (r : FidRange) : Option (List FidRange) :=
  match out.getLast? with
  | some last =>
    if last.fid = r.fid ∧ last.toNs = r.fromNs then
      some (out.dropLast ++ [{ last with toNs := r.toNs }])
    else if cap ≤ out.length then none else some (out ++ [r])
  | none => if cap ≤ out.length then none else some (out ++ [r])

/-- The sweep with two cursors over the spans. Each round moves the cursor on, so the length of the
window bounds the rounds. -/
def sweepRanges (toWall cap : ℕ) : ℕ → List Span → List Span → ℕ → List FidRange →
    Option (List FidRange)
  | 0, _, _, cursor, out => if cursor < toWall then none else some out
  | fuel + 1, ex, sm, cursor, out =>
    if cursor < toWall then
      let ex := ex.dropWhile (·.stop ≤ cursor)
      let sm := sm.dropWhile (·.stop ≤ cursor)
      let r := nextRange ex sm cursor toWall
      let stop := if toWall < r.2 then toWall else r.2
      if stop ≤ cursor then none
      else do
        let out ← pushRange cap out ⟨cursor, stop, r.1⟩
        sweepRanges toWall cap fuel ex sm stop out
    else some out

/-- `window_fidelity_ranges`, with room for `cap` ranges. -/
def windowFidelityRanges (gens : List PlacedCov) (fromWall toWall cap : ℕ) :
    Option (List FidRange) :=
  if toWall ≤ fromWall ∨ cap = 0 then none
  else do
    let (ex, sm) ← gens.foldlM (addGenSpans fromWall toWall) ([], [])
    let ex := fidSpansUnion ex
    let sm := fidSpansUnion sm
    let smOnly ← fidSpansSubtract sm ex
    sweepRanges toWall cap (toWall - fromWall) ex smOnly fromWall []

end PgWaitTracer
