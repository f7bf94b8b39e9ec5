import PgWaitTracer.Lib.Rolling

/-!
# The escalation engine and its rolling-hour budget

Full-fidelity windows are granted against a budget per rolling hour. The ledger of windows is
pruned, clamped and coalesced in place (`src/escalation_budget.c`); `pgwt_escalate` opens or
extends a window under a deadline and `pgwt_deescalate` closes it (`src/escalation.c`).

Times are `ℕ` in nanoseconds. A clock reading is an argument of the operation that reads it, and so
is the outcome of the two fallible attach steps. An armed deadline is reduced modulo `2 ^ 64`, as
the 64-bit sum is.

## Main results

* `consumedNs_ledger`, `consumedNs_consumed`: pruning is a filter, and
  consumption is the sum of the clamped segments that it keeps.
* `budgetDecide_grant`: consumption and grant together stay within the budget.
-/

namespace PgWaitTracer

/-! ### State -/

/-- `struct pgwt_esc_segment`: a window of the ledger; the end is 0 while it is open. -/
structure Segment where
  startNs : ℕ
  endNs : ℕ
  deriving DecidableEq, Repr

/-- `PGWT_ESC_LEDGER_MAX`. -/
def ledgerMax : ℕ := 256

/-- `struct pgwt_escalation`, without the timer descriptor. -/
structure Escalation where
  enabled : Bool
  active : Bool
  admitting : Bool
  generation : UInt64
  nextGeneration : UInt64
  attachBoundaryNs : ℕ
  windowDeadlineNs : ℕ
  windowStartNs : ℕ
  windowReason : ℤ
  budgetNs : ℕ
  budgetUnlimited : Bool
  rollingWindowNs : ℕ
  ledger : List Segment
  windowsTotal : ℕ
  deniedTotal : ℕ
  budgetClosedTotal : ℕ
  deriving DecidableEq, Repr

/-- `pgwt_escalation_init` with the mode test given: a negative budget is unlimited. -/
def Escalation.init (tiered : Bool) (budgetS : ℤ) : Escalation where
  enabled := tiered
  active := false
  admitting := false
  generation := 0
  nextGeneration := 0
  attachBoundaryNs := 0
  windowDeadlineNs := 0
  windowStartNs := 0
  windowReason := 0
  budgetNs := if budgetS < 0 then 0 else budgetS.toNat * 1000000000
  budgetUnlimited := budgetS < 0
  rollingWindowNs := 3600 * 1000000000
  ledger := []
  windowsTotal := 0
  deniedTotal := 0
  budgetClosedTotal := 0

/-! ### The budget core -/

/-- The end of a segment as seen at `now`: an open one runs up to it. -/
def Segment.endAt (now : ℕ) (sg : Segment) : ℕ := if sg.endNs ≠ 0 then sg.endNs else now

/-- The loop of `pgwt_esc_budget_consumed_ns`: the time consumed since `windowStart`, and the
segments that are not entirely stale, in order. -/
def consumedLoop (windowStart now : ℕ) : List Segment → ℕ × List Segment
  | [] => (0, [])
  | sg :: l =>
    let (consumed, kept) := consumedLoop windowStart now l
    let s := sg.startNs
    let en := sg.endAt now
    if en ≤ windowStart then (consumed, kept)
    else
      let s := if s < windowStart then windowStart else s
      (if s < en then consumed + (en - s) else consumed, sg :: kept)

/-- `pgwt_esc_budget_consumed_ns`: prune the ledger and sum what is left inside the rolling
window. -/
def consumedNs (e : Escalation) (now : ℕ) : Escalation × ℕ :=
  let windowStart := if e.rollingWindowNs < now then now - e.rollingWindowNs else 0
  let (consumed, kept) := consumedLoop windowStart now e.ledger
  ({ e with ledger := kept }, consumed)

/-- `pgwt_esc_budget_remaining_ns`; `none` is the `UINT64_MAX` of an unlimited budget. -/
def budgetRemainingNs (e : Escalation) (now : ℕ) : Escalation × Option ℕ :=
  if e.budgetUnlimited then (e, none)
  else if e.budgetNs = 0 then (e, some 0)
  else
    let (e, consumed) := consumedNs e now
    (e, some (e.budgetNs - consumed))

/-- Why a request is refused: the mode, the duration, the two budget denials and the two failures
of the exact tier. -/
inductive EscFailure
  | notTiered | badDuration | denyAll | exhausted | exactAttach | exactPreseed
  deriving DecidableEq, Repr

/-- The operator-facing text, `*why`. -/
def EscFailure.why : EscFailure → String
  | .notTiered => "escalation requires --mode tiered"
  | .badDuration => "duration_s must be positive"
  | .denyAll => "escalation disabled (--escalation-budget 0); " ++
      "use 'unlimited' to allow unbounded escalation"
  | .exhausted => "escalation budget exhausted for this hour"
  | .exactAttach => "exact probe bundle attach failed; escalation rolled back"
  | .exactPreseed => "coherent exact preseed failed; escalation rolled back"

/-- `pgwt_esc_budget_decide`: the clamped grant, or the denial. -/
def budgetDecide (e : Escalation) (now wantNs : ℕ) : Escalation × Except EscFailure ℕ :=
  if e.budgetUnlimited then (e, .ok wantNs)
  else if e.budgetNs = 0 then (e, .error .denyAll)
  else
    let (e, consumed) := consumedNs e now
    let avail := e.budgetNs - consumed
    if avail = 0 then (e, .error .exhausted) else (e, .ok (min wantNs avail))

/-- `pgwt_esc_budget_over`. -/
def budgetOver (e : Escalation) (now : ℕ) : Escalation × Bool :=
  if e.budgetUnlimited || e.budgetNs = 0 then (e, false)
  else
    let (e, consumed) := consumedNs e now
    (e, e.budgetNs ≤ consumed)

/-- `coalesce_oldest`: one segment spanning the two oldest, open if one of them is. -/
def coalesceOldest : List Segment → List Segment
  | sg₀ :: sg₁ :: l =>
    ⟨min sg₀.startNs sg₁.startNs,
      if sg₀.endNs = 0 ∨ sg₁.endNs = 0 then 0 else max sg₀.endNs sg₁.endNs⟩ :: l
  | l => l

/-- `pgwt_esc_ledger_open`: prune, make room, append an open segment. -/
def ledgerOpen (e : Escalation) (now : ℕ) : Escalation :=
  let e := (consumedNs e now).1
  let l := if ledgerMax ≤ e.ledger.length then coalesceOldest e.ledger else e.ledger
  { e with ledger := if l.length < ledgerMax then l ++ [⟨now, 0⟩] else l }

/-- Close the first open segment of a list. -/
def closeFirstOpen (now : ℕ) : List Segment → List Segment
  | [] => []
  | sg :: l => if sg.endNs = 0 then ⟨sg.startNs, now⟩ :: l else sg :: closeFirstOpen now l

/-- `pgwt_esc_ledger_close`: close the open segment nearest to the end. -/
def ledgerClose (e : Escalation) (now : ℕ) : Escalation :=
  { e with ledger := (closeFirstOpen now e.ledger.reverse).reverse }

/-! ### The engine -/

/-- `(ns + 999999999) / 1000000000`: whole seconds, rounded up. -/
def ceilSeconds (ns : ℕ) : ℕ := (ns + 999999999) / 1000000000

/-- The next generation number; 0 is reserved for the baseline. -/
def bumpGeneration (g : UInt64) : UInt64 := if g + 1 = 0 then 1 else g + 1

/-- The part of `pgwt_escalate` for a live window: its deadline moves on, never back. -/
def extendWindow (e : Escalation) (now grant : ℕ) : Escalation × Except EscFailure ℕ :=
  let newDeadline := (now + grant) % 2 ^ 64
  let e := if e.windowDeadlineNs < newDeadline then
    { e with windowDeadlineNs := newDeadline } else e
  (e, .ok (ceilSeconds (e.windowDeadlineNs - now)))

/-- The part of `pgwt_escalate` for a fresh window, with the clock read at the attach boundary and
the outcomes of `pgwt_exact_probe_acquire` and `pgwt_exact_seed_all`; a failure of these rolls
back. -/
def openFresh (e : Escalation) (grant : ℕ) (reason : ℤ) (boundary : ℕ)
    (acquireOk seedOk : Bool) : Escalation × Except EscFailure ℕ :=
  let e := { e with nextGeneration := bumpGeneration e.nextGeneration }
  let rolledBack : Escalation :=
    { e with generation := 0, attachBoundaryNs := 0, deniedTotal := e.deniedTotal + 1 }
  if !acquireOk then (rolledBack, .error .exactAttach)
  else if !seedOk then (rolledBack, .error .exactPreseed)
  else
    let e := ledgerOpen { e with
      generation := e.nextGeneration
      attachBoundaryNs := boundary
      active := true
      admitting := true
      windowStartNs := boundary
      windowReason := reason
      windowsTotal := e.windowsTotal + 1 } boundary
    ({ e with windowDeadlineNs := (boundary + grant) % 2 ^ 64 }, .ok (ceilSeconds grant))

/-- `pgwt_escalate`, with the clock read at entry. The result is the granted time in seconds. -/
def escalate (e : Escalation) (now : ℕ) (durationS : ℤ) (reason : ℤ) (boundary : ℕ)
    (acquireOk seedOk : Bool) : Escalation × Except EscFailure ℕ :=
  if !e.enabled then (e, .error .notTiered)
  else if durationS ≤ 0 then (e, .error .badDuration)
  else
    match budgetDecide e now (durationS.toNat * 1000000000) with
    | (e, .error f) => ({ e with deniedTotal := e.deniedTotal + 1 }, .error f)
    | (e, .ok grant) =>
      if e.active then extendWindow e now grant
      else openFresh e grant reason boundary acquireOk seedOk

/-- `pgwt_deescalate`: stop admitting, close the ledger segment, forget the generation. -/
def deescalate (e : Escalation) (now : ℕ) : Escalation :=
  if !e.active then e
  else
    { ledgerClose { e with admitting := false, active := false } now with
      generation := 0, attachBoundaryNs := 0 }

/-- `pgwt_escalation_on_timer`: close the window once its deadline is reached. -/
def onTimer (e : Escalation) (polled now : ℕ) : Escalation :=
  if e.active ∧ e.windowDeadlineNs ≤ polled then deescalate e now else e

/-- `pgwt_escalation_check_budget`: close a window that reached the budget. -/
def checkBudget (e : Escalation) (polled now : ℕ) : Escalation :=
  if !e.active then e
  else
    let (e, exceeded) := budgetOver e polled
    if exceeded then deescalate { e with budgetClosedTotal := e.budgetClosedTotal + 1 } now else e

/-! ### What the core computes -/

theorem consumedLoop_kept (windowStart now : ℕ) : (l : List Segment) →
    (consumedLoop windowStart now l).2 = l.filter fun sg => windowStart < sg.endAt now
  | [] => rfl
  | sg :: l => by
    have ih := consumedLoop_kept windowStart now l
    by_cases h : sg.endAt now ≤ windowStart
    · simp [consumedLoop, h, ih]
    · have h' : windowStart < sg.endAt now := by omega
      simp [consumedLoop, h, h', ih]

/-- The time of a segment since `windowStart`, as seen at `now`. -/
def Segment.since (windowStart now : ℕ) (sg : Segment) : ℕ :=
  sg.endAt now - max sg.startNs windowStart

theorem consumedLoop_consumed (windowStart now : ℕ) : (l : List Segment) →
    (consumedLoop windowStart now l).1 = (l.map (Segment.since windowStart now)).sum
  | [] => rfl
  | sg :: l => by
    have ih := consumedLoop_consumed windowStart now l
    simp only [consumedLoop, List.map_cons, List.sum_cons, ← ih, Segment.since]
    split_ifs <;> omega

theorem windowStart_eq (R now : ℕ) : (if R < now then now - R else 0) = now - R := by
  split_ifs <;> omega

theorem consumedNs_ledger (e : Escalation) (now : ℕ) :
    (consumedNs e now).1 =
      { e with ledger := e.ledger.filter fun sg => now - e.rollingWindowNs < sg.endAt now } := by
  simp only [consumedNs, windowStart_eq, consumedLoop_kept]

theorem consumedNs_consumed (e : Escalation) (now : ℕ) :
    (consumedNs e now).2 =
      (e.ledger.map (Segment.since (now - e.rollingWindowNs) now)).sum := by
  simp only [consumedNs, windowStart_eq, consumedLoop_consumed]

/-- **Grants fit the budget.** Under a finite budget a grant and the time consumed in the rolling
window together stay within the budget, and deciding only prunes the ledger. -/
theorem budgetDecide_grant {e e' : Escalation} {now want grant : ℕ}
    (hfin : e.budgetUnlimited = false) (h : budgetDecide e now want = (e', .ok grant)) :
    e' = (consumedNs e now).1 ∧ (consumedNs e now).2 + grant ≤ e.budgetNs := by
  have hb : (consumedNs e now).1.budgetNs = e.budgetNs := rfl
  simp only [budgetDecide, hfin, Bool.false_eq_true, if_false, hb] at h
  split_ifs at h with h0 havail
  · simp only [Prod.mk.injEq, reduceCtorEq, and_false] at h
  · simp only [Prod.mk.injEq, reduceCtorEq, and_false] at h
  · simp only [Prod.mk.injEq, Except.ok.injEq] at h
    refine ⟨h.1.symm, ?_⟩
    omega

theorem budgetDecide_denied {e e' : Escalation} {now want : ℕ} {f : EscFailure}
    (h : budgetDecide e now want = (e', .error f)) : e' = e ∨ e' = (consumedNs e now).1 := by
  simp only [budgetDecide] at h
  split_ifs at h
  · simp only [Prod.mk.injEq, reduceCtorEq, and_false] at h
  · exact Or.inl (Prod.mk.inj h).1.symm
  · exact Or.inr (Prod.mk.inj h).1.symm
  · simp only [Prod.mk.injEq, reduceCtorEq, and_false] at h

theorem closeFirstOpen_cons_open (now s : ℕ) (l : List Segment) :
    closeFirstOpen now (⟨s, 0⟩ :: l) = ⟨s, now⟩ :: l := by
  simp [closeFirstOpen]

theorem length_coalesceOldest_lt {l : List Segment} (h : 2 ≤ l.length) :
    (coalesceOldest l).length + 1 = l.length := by
  match l, h with
  | sg₀ :: sg₁ :: l, _ => rfl

end PgWaitTracer
