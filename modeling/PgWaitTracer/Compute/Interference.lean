import Mathlib.Algebra.Order.Ring.Rat
import PgWaitTracer.Compute.TripleMap
import PgWaitTracer.Compute.Executions
import PgWaitTracer.Lib.Run
import PgWaitTracer.Lib.StableSort
import PgWaitTracer.Lib.Tally

/-!
# Interference

`pgwt_compute_interference` (`src/compute.c`) adds up, for every two sessions, how long they waited
on one event at the same time. The intervals are sorted by their start, and each is compared with
those that start before it ends. Every two sessions that overlap have an accumulator, which an index
finds.

Any allocation may fail. The accumulators are 64-bit words, and sums wrap around. The score is a
double in the source and a rational number here. `qsort` is any function that sorts.

## Main results

* `pairSum_eq`: the pairs that the pass meets have the sum of all pairs.
* `interference_exact`: the overlap of every two sessions.
-/

namespace PgWaitTracer

open StableSort

/-! ### Intervals -/

/-- `struct active_entry`. -/
structure ActiveEntry where
  pid : UInt32
  eventId : UInt32
  startNs : ℕ
  endNs : ℕ
  deriving DecidableEq, Repr

/-- The interval of a record. -/
def activeEntry (ev : TraceEvent) : ActiveEntry := ⟨ev.pid, ev.oldEvent, ev.ts - ev.dur, ev.ts⟩

/-- The records that take part: waits that are not idle and whose close was seen. -/
def interferes (mask : UInt32) (f : Filter) (ev : TraceEvent) : Bool :=
  if !filterMatches f ev || isIdleEvent mask ev.oldEvent then false
  else if rightOpenFlagged ev then false
  else ev.oldEvent ≠ 0

/-- The most intervals that are compared. -/
def interferenceCap : ℕ := 50000

/-! ### Accumulators -/

/-- `struct pair_accum`. -/
structure PairAccum where
  pidA : UInt32
  pidB : UInt32
  overlapNs : ℕ := 0
  topEvent : UInt32 := 0
  topEventNs : ℕ := 0
  deriving DecidableEq, Repr

/-- An overlap is added. -/
def PairAccum.add (acc : PairAccum) (event : UInt32) (overlap : ℕ) : PairAccum :=
  { acc with
    overlapNs := (acc.overlapNs + overlap) % 2 ^ 64
    topEvent := if acc.topEventNs < overlap then event else acc.topEvent
    topEventNs := if acc.topEventNs < overlap then overlap else acc.topEventNs }

/-- The state of the pass. `calls` counts the searches in the index. -/
structure InterferenceState where
  ix : TripleMap ℕ := {}
  ht : List PairAccum := []
  calls : ℕ := 0
  maxOverlap : ℕ := 0

/-- Two processes, the smaller one first. -/
def pidPair (p q : UInt32) : UInt32 × UInt32 := (if p < q then p else q, if p < q then q else p)

/-- The key of two processes. -/
def pairKey (k : UInt32 × UInt32) : Triple := (k.1, k.2, 0)

/-- An overlap of two processes. `full n` says that there is no room for an accumulator after the
first `n`. -/
def InterferenceState.addOverlap (fails full : ℕ → Bool) (k : UInt32 × UInt32) (event : UInt32)
    (overlap : ℕ) (st : InterferenceState) : Option InterferenceState :=
  match st.ix.slot (fails st.calls) (pairKey k) with
  | none => none
  | some (ix, created) =>
    if created && full st.ht.length then none
    else
      let ix := if created then ix.store (pairKey k) st.ht.length else ix
      let ht := if created then st.ht ++ [⟨k.1, k.2, 0, 0, 0⟩] else st.ht
      let h := (ix.val? (pairKey k)).getD 0
      let acc := (ht.getD h ⟨k.1, k.2, 0, 0, 0⟩).add event overlap
      some
        { ix := ix
          ht := ht.set h acc
          calls := st.calls + 1
          maxOverlap := max st.maxOverlap acc.overlapNs }

/-- An interval `y` that starts while `x` has not ended. -/
def InterferenceState.meet (fails full : ℕ → Bool) (x : ActiveEntry) (st : InterferenceState)
    (y : ActiveEntry) : Option InterferenceState :=
  if y.eventId ≠ x.eventId then some st
  else if y.pid = x.pid then some st
  else
    let oend := if x.endNs < y.endNs then x.endNs else y.endNs
    if oend ≤ y.startNs then some st
    else st.addOverlap fails full (pidPair x.pid y.pid) x.eventId (oend - y.startNs)

/-- The pass over the sorted intervals. -/
def InterferenceState.sweep (fails full : ℕ → Bool) :
    List ActiveEntry → InterferenceState → Option InterferenceState
  | [], st => some st
  | x :: rest, st =>
    ((rest.takeWhile fun y => y.startNs < x.endNs).foldlM (InterferenceState.meet fails full x)
      st).bind (sweep fails full rest)

/-! ### The computation -/

/-- `struct pgwt_interference_row`. -/
structure InterferenceRow where
  pidA : UInt32
  pidB : UInt32
  score : ℚ
  topEvent : UInt32
  topEventName : String
  overlapNs : ℕ
  deriving DecidableEq, Repr

/-- `struct pgwt_interference_result`: all rows that are stored, and the number of those to show. -/
structure InterferenceResult where
  rows : List InterferenceRow := []
  numRows : ℤ := 0
  deriving DecidableEq, Repr

/-- The row of an accumulator. -/
def interferenceRow (fullName : UInt32 → String) (maxOverlap : ℕ) (acc : PairAccum) :
    InterferenceRow :=
  { pidA := acc.pidA
    pidB := acc.pidB
    score := if 0 < maxOverlap then (acc.overlapNs : ℚ) / maxOverlap else 0
    topEvent := acc.topEvent
    topEventName := fullName acc.topEvent
    overlapNs := acc.overlapNs }

/-- The key of `cmp_interference_desc`. -/
def scoreKey (row : InterferenceRow) : ℚᵒᵈ := OrderDual.toDual row.score

/-- `pgwt_compute_interference`. There is no result if it reports a failure: its intervals or its
rows are not allocated, the index does not grow, or the accumulators do not. -/
def computeInterference (noIntervals noRows : Bool) (fails full : ℕ → Bool)
    (byStart : Sorter ActiveEntry.startNs) (byScore : Sorter scoreKey) (mask : UInt32)
    (fullName : UInt32 → String) (events : List TraceEvent) (f : Filter) (maxRows : ℤ) :
    Option InterferenceResult :=
  let cap := min events.length interferenceCap
  if cap = 0 then some {}
  else if noIntervals then none
  else
    let active := ((events.filter (interferes mask f)).take cap).map activeEntry
    match InterferenceState.sweep fails full (byStart.sort active) {} with
    | none => none
    | some st =>
      if st.ht ≠ [] ∧ noRows then none
      else
        let rows := st.ht.map (interferenceRow fullName st.maxOverlap)
        some
          { rows := if 1 < rows.length then byScore.sort rows else rows
            numRows := if (rows.length : ℤ) < maxRows then rows.length else maxRows }

/-! ### All pairs of intervals -/

/-- The length of the intersection of two intervals. -/
def overlapNs (x y : ActiveEntry) : ℕ := min x.endNs y.endNs - max x.startNs y.startNs

/-- The sum over all pairs of intervals of one event, one of each process. -/
def sharedWaitNs (waits : List ActiveEntry) (a b : UInt32) : ℕ :=
  ((waits.filter fun x => x.pid = a).map fun x =>
    ((waits.filter fun y => y.pid = b && y.eventId = x.eventId).map (overlapNs x)).sum).sum

/-- What two intervals add to the overlap of two processes. -/
def jointNs (k : UInt32 × UInt32) (x y : ActiveEntry) : ℕ :=
  if y.eventId = x.eventId ∧ y.pid ≠ x.pid ∧ pidPair x.pid y.pid = k then overlapNs x y else 0

/-- What every interval adds with those after it. -/
def pairSum (k : UInt32 × UInt32) : List ActiveEntry → ℕ
  | [] => 0
  | x :: rest => (rest.map (jointNs k x)).sum + pairSum k rest

theorem overlapNs_comm (x y : ActiveEntry) : overlapNs x y = overlapNs y x := by
  rw [overlapNs, overlapNs, Nat.min_comm, Nat.max_comm]

theorem pidPair_eq_iff {p q a b : UInt32} (hpq : q ≠ p) (hab : a < b) :
    pidPair p q = (a, b) ↔ p = a ∧ q = b ∨ q = a ∧ p = b := by
  rw [UInt32.lt_iff_toNat_lt] at hab
  have hne : q.toNat ≠ p.toNat := fun h => hpq (UInt32.toNat_inj.mp h)
  rw [pidPair, Prod.mk.injEq]
  split_ifs with hlt
  · refine (or_iff_left ?_).symm
    rintro ⟨rfl, rfl⟩
    rw [UInt32.lt_iff_toNat_lt] at hlt
    omega
  · refine (or_iff_right ?_).symm
    rintro ⟨rfl, rfl⟩
    rw [UInt32.lt_iff_toNat_lt] at hlt
    omega

/-- What an ordered pair adds. -/
def orderedNs (a b : UInt32) (x y : ActiveEntry) : ℕ :=
  if x.pid = a ∧ y.pid = b ∧ y.eventId = x.eventId then overlapNs x y else 0

theorem sharedWaitNs_eq_sum (waits : List ActiveEntry) (a b : UInt32) :
    sharedWaitNs waits a b =
      (waits.map fun x => (waits.map (orderedNs a b x)).sum).sum := by
  rw [sharedWaitNs, Tally.sum_filter_map]
  refine congrArg List.sum (List.map_congr_left fun x _ => ?_)
  rw [Tally.sum_filter_map]
  by_cases hx : x.pid = a
  · rw [if_pos (decide_eq_true hx)]
    refine congrArg List.sum (List.map_congr_left fun y _ => ?_)
    simp only [orderedNs, hx, true_and, Bool.and_eq_true, decide_eq_true_eq]
  · rw [if_neg (by simpa using hx)]
    refine (List.sum_eq_zero fun v hv => ?_).symm
    obtain ⟨y, -, rfl⟩ := List.mem_map.mp hv
    rw [orderedNs, if_neg fun h => hx h.1]

theorem jointNs_eq {a b : UInt32} (hab : a < b) (x y : ActiveEntry) :
    jointNs (a, b) x y = orderedNs a b x y + orderedNs a b y x := by
  have hne : a ≠ b := by
    rintro rfl
    exact absurd hab (by rw [UInt32.lt_iff_toNat_lt]; exact lt_irrefl _)
  have hiff : (y.eventId = x.eventId ∧ y.pid ≠ x.pid ∧ pidPair x.pid y.pid = (a, b)) ↔
      (x.pid = a ∧ y.pid = b ∧ y.eventId = x.eventId) ∨
        (y.pid = a ∧ x.pid = b ∧ x.eventId = y.eventId) := by
    constructor
    · rintro ⟨hevent, hpid, hpair⟩
      rcases (pidPair_eq_iff hpid hab).mp hpair with ⟨hx, hy⟩ | ⟨hy, hx⟩
      · exact Or.inl ⟨hx, hy, hevent⟩
      · exact Or.inr ⟨hy, hx, hevent.symm⟩
    · rintro (⟨rfl, rfl, hevent⟩ | ⟨rfl, rfl, hevent⟩)
      · exact ⟨hevent, hne.symm, (pidPair_eq_iff hne.symm hab).mpr (Or.inl ⟨rfl, rfl⟩)⟩
      · exact ⟨hevent.symm, hne, (pidPair_eq_iff hne hab).mpr (Or.inr ⟨rfl, rfl⟩)⟩
  rw [jointNs, if_congr hiff rfl rfl, orderedNs, orderedNs, overlapNs_comm y x]
  by_cases hxy : x.pid = a ∧ y.pid = b ∧ y.eventId = x.eventId
  · rw [if_pos (Or.inl hxy), if_pos hxy, if_neg fun h => hne (hxy.1.symm.trans h.2.1), Nat.add_zero]
  · rw [if_neg hxy, Nat.zero_add]
    exact if_congr (or_iff_right hxy) rfl rfl

/-- **The pairs that a pass meets have the sum of all pairs.** -/
theorem pairSum_eq {a b : UInt32} (hab : a < b) (waits : List ActiveEntry) :
    pairSum (a, b) waits = sharedWaitNs waits a b := by
  rw [sharedWaitNs_eq_sum]
  induction waits with
  | nil => rfl
  | cons x rest ih =>
    have hself : orderedNs a b x x = 0 := by
      refine if_neg fun h => ?_
      rw [h.1.symm.trans h.2.1, UInt32.lt_iff_toNat_lt] at hab
      exact lt_irrefl _ hab
    have hfirst : (rest.map (jointNs (a, b) x)).sum =
        (rest.map (orderedNs a b x)).sum + (rest.map fun y => orderedNs a b y x).sum := by
      rw [← List.sum_map_add]
      exact congrArg List.sum (List.map_congr_left fun y _ => jointNs_eq hab x y)
    have hrest : (rest.map fun y => ((x :: rest).map (orderedNs a b y)).sum).sum =
        (rest.map fun y => orderedNs a b y x).sum +
          (rest.map fun y => (rest.map (orderedNs a b y)).sum).sum := by
      rw [← List.sum_map_add]
      rfl
    rw [pairSum, ih, hfirst, List.map_cons, List.sum_cons, hrest, List.map_cons, List.sum_cons,
      hself, Nat.zero_add, Nat.add_assoc]

theorem sharedWaitNs_perm {waits waits' : List ActiveEntry} (h : waits.Perm waits')
    (a b : UInt32) : sharedWaitNs waits a b = sharedWaitNs waits' a b := by
  rw [sharedWaitNs_eq_sum, sharedWaitNs_eq_sum, (h.map _).sum_eq]
  refine congrArg List.sum (List.map_congr_left fun x _ => ?_)
  exact (h.map _).sum_eq

theorem sum_takeWhile_joint (k : UInt32 × UInt32) {x : ActiveEntry} {rest : List ActiveEntry}
    (hsorted : Sorted ActiveEntry.startNs rest) :
    ((rest.takeWhile fun y => y.startNs < x.endNs).map (jointNs k x)).sum =
      (rest.map (jointNs k x)).sum := by
  induction rest with
  | nil => rfl
  | cons y rest ih =>
    obtain ⟨hfirst, hrest⟩ := List.pairwise_cons.mp hsorted
    by_cases hstart : y.startNs < x.endNs
    · rw [List.takeWhile_cons_of_pos (by rw [decide_eq_true_eq]; exact hstart), List.map_cons,
        List.sum_cons, ih hrest, List.map_cons, List.sum_cons]
    · rw [List.takeWhile_cons_of_neg (by rw [decide_eq_true_eq]; exact hstart)]
      refine (List.sum_eq_zero fun v hv => ?_).symm
      obtain ⟨z, hz, rfl⟩ := List.mem_map.mp hv
      have hlater : y.startNs ≤ z.startNs := by
        rcases List.mem_cons.mp hz with rfl | hz
        · exact le_rfl
        · exact hfirst z hz
      rw [jointNs]
      split_ifs
      · rw [overlapNs]
        omega
      · rfl

/-! ### What the accumulators hold -/

/-- **What the accumulators hold.** Two processes have one if they overlap, and it has the sum of
their overlaps as a 64-bit word. -/
structure InterferenceState.Sums (st : InterferenceState) (c : UInt32 × UInt32 → ℕ) : Prop where
  ok : st.ix.Ok
  none_iff : ∀ k, st.ix.val? (pairKey k) = none ↔ c k = 0
  some_spec : ∀ k h, st.ix.val? (pairKey k) = some h →
    ∃ acc, st.ht[h]? = some acc ∧ (acc.pidA, acc.pidB) = k ∧ acc.overlapNs = c k % 2 ^ 64
  index : ∀ (h : ℕ) acc, st.ht[h]? = some acc → st.ix.val? (pairKey (acc.pidA, acc.pidB)) = some h

theorem InterferenceState.sums_start : InterferenceState.Sums {} fun _ => 0 where
  ok := TripleMap.ok_empty
  none_iff := fun _ => iff_of_true rfl rfl
  some_spec := fun _ _ h => absurd h (by simp)
  index := fun _ _ h => absurd h (by simp)

variable {k : UInt32 × UInt32}

theorem pairKey_inj {k' : UInt32 × UInt32} : pairKey k = pairKey k' ↔ k = k' := by
  simp [pairKey, Prod.ext_iff]

variable {fails full : ℕ → Bool} {st st' : InterferenceState} {c : UInt32 × UInt32 → ℕ}

/-- An overlap of two processes that have an accumulator, or have it now. -/
theorem InterferenceState.Sums.store {ix : TripleMap ℕ} {ht : List PairAccum} {acc : PairAccum}
    {h : ℕ} (hok : ix.Ok)
    (hval : ∀ k', ix.val? (pairKey k') = if k' = k then some h else st.ix.val? (pairKey k'))
    (hacc : ht[h]? = some acc) (hkey : (acc.pidA, acc.pidB) = k)
    (hsum : acc.overlapNs = c k % 2 ^ 64) (hother : ∀ h' ≠ h, ht[h']? = st.ht[h']?) (hs : st.Sums c)
    (hfresh : ∀ h', st.ix.val? (pairKey k) = some h' → h' = h)
    (hend : st.ht[h]? = none ∨ st.ix.val? (pairKey k) = some h) (event : UInt32) {ns : ℕ}
    (hpos : 0 < ns) (calls maxOverlap : ℕ) :
    InterferenceState.Sums ⟨ix, ht.set h (acc.add event ns), calls, maxOverlap⟩
      fun k' => c k' + if k' = k then ns else 0 := by
  have hlt : h < ht.length := (List.getElem?_eq_some_iff.mp hacc).1
  -- the accumulator of another pair is not the one that is stored to
  have hne : ∀ k' h', k' ≠ k → st.ix.val? (pairKey k') = some h' → h' ≠ h := by
    rintro k' h' hk' hk'h rfl
    obtain ⟨acc', hacc', hkey', -⟩ := hs.some_spec k' h' hk'h
    rcases hend with hend | hend
    · exact absurd (hend.symm.trans hacc') (by simp)
    · obtain ⟨acc'', hacc'', hkey'', -⟩ := hs.some_spec k h' hend
      obtain rfl := Option.some.inj (hacc'.symm.trans hacc'')
      exact hk' (hkey'.symm.trans hkey'')
  refine ⟨hok, fun k' => ?_, fun k' h' hk' => ?_, fun h' acc' hacc' => ?_⟩
  · rw [hval]
    split_ifs with heq
    · exact iff_of_false (by simp) (by omega)
    · rw [hs.none_iff, Nat.add_zero]
  · rw [hval] at hk'
    split_ifs at hk' with heq
    · obtain rfl := Option.some.inj hk'
      refine ⟨acc.add event ns, List.getElem?_set_self hlt, hkey.trans heq.symm, ?_⟩
      rw [if_pos heq, heq, PairAccum.add, hsum, Nat.mod_add_mod]
    · obtain ⟨acc', hacc', hkey', hsum'⟩ := hs.some_spec k' h' hk'
      have hh := hne k' h' heq hk'
      refine ⟨acc', ?_, hkey', ?_⟩
      · rw [List.getElem?_set_ne (Ne.symm hh), hother h' hh, hacc']
      · rw [if_neg heq, Nat.add_zero, hsum']
  · by_cases hh : h' = h
    · subst hh
      rw [List.getElem?_set_self hlt] at hacc'
      obtain rfl := Option.some.inj hacc'
      rw [hval]
      exact if_pos hkey
    · rw [List.getElem?_set_ne (Ne.symm hh), hother h' hh] at hacc'
      have hix := hs.index h' acc' hacc'
      rw [hval, if_neg, hix]
      intro heq
      rw [heq] at hix
      exact hh (hfresh h' hix)

/-- **An overlap of two processes.** -/
theorem InterferenceState.Sums.addOverlap (hs : st.Sums c) {event : UInt32} {ns : ℕ} (hpos : 0 < ns)
    (hrun : st.addOverlap fails full k event ns = some st') :
    st'.Sums fun k' => c k' + if k' = k then ns else 0 := by
  rw [InterferenceState.addOverlap] at hrun
  rcases hs.ok.slot_cases (fails st.calls) (pairKey k) with ⟨hnone, -⟩ | ⟨ix, hslot, hok, hval⟩
  · rw [hnone] at hrun
    exact absurd hrun (by simp)
  rw [hslot] at hrun
  cases hcase : st.ix.val? (pairKey k) with
  | some h =>
    obtain ⟨acc, hacc, hkey, hsum⟩ := hs.some_spec k h hcase
    simp only [hcase, Option.isNone_some, Bool.false_and, Bool.false_eq_true, if_false,
      Option.some.injEq] at hrun
    have hself : ix.val? (pairKey k) = some h := by rw [hval, if_pos rfl, hcase]; rfl
    subst hrun
    rw [hself]
    dsimp only [Option.getD_some]
    rw [List.getD_eq_getElem?_getD, hacc, Option.getD_some]
    refine InterferenceState.Sums.store hok (fun k' => ?_) hacc hkey hsum (fun _ _ => rfl) hs
      (fun h' hh' => Option.some.inj (hh'.symm.trans hcase)) (Or.inr hcase) event hpos _ _
    rw [hval, hcase]
    simp only [pairKey_inj, Option.getD_some]
  | none =>
    simp only [hcase, Option.isNone_none, Bool.true_and, if_true] at hrun
    split_ifs at hrun with hfull
    obtain ⟨hstored, hsval⟩ := hok.store (k := pairKey k) (by rw [hval, if_pos rfl]; rfl)
      st.ht.length
    have hself : (ix.store (pairKey k) st.ht.length).val? (pairKey k) = some st.ht.length := by
      rw [hsval, if_pos rfl]
    obtain rfl := Option.some.inj hrun
    have hzero : c k = 0 := (hs.none_iff k).mp hcase
    rw [hself]
    dsimp only [Option.getD_some]
    rw [List.getD_eq_getElem?_getD, List.getElem?_concat_length, Option.getD_some]
    refine InterferenceState.Sums.store hstored (fun k' => ?_) List.getElem?_concat_length rfl ?_
      (fun h' hh' => ?_) hs (fun h' hh' => ?_) (Or.inl ?_) event hpos _ _
    · rw [hsval, hval]
      simp only [pairKey_inj]
      split_ifs
      · rfl
      · rfl
    · rw [hzero]
      rfl
    · rcases Nat.lt_or_gt_of_ne hh' with hlt | hgt
      · rw [List.getElem?_append_left hlt]
      · rw [List.getElem?_eq_none (by rw [List.length_append]; exact hgt),
          List.getElem?_eq_none hgt.le]
    · exact absurd (hh'.symm.trans hcase) (by simp)
    · exact List.getElem?_eq_none le_rfl

/-- **An interval that starts while another one has not ended.** -/
theorem InterferenceState.Sums.meet (hs : st.Sums c) {x y : ActiveEntry}
    (hxy : x.startNs ≤ y.startNs) (hrun : st.meet fails full x y = some st') :
    st'.Sums fun k => c k + jointNs k x y := by
  have hoverlap : overlapNs x y =
      (if x.endNs < y.endNs then x.endNs else y.endNs) - y.startNs := by
    rw [overlapNs, Nat.max_eq_right hxy]
    split_ifs
    · rw [Nat.min_eq_left (by omega)]
    · rw [Nat.min_eq_right (by omega)]
  have hsame (hzero : ∀ k, jointNs k x y = 0) : st.Sums fun k => c k + jointNs k x y := by
    simp only [hzero, Nat.add_zero]
    exact hs
  rw [InterferenceState.meet] at hrun
  dsimp only at hrun
  generalize (if x.endNs < y.endNs then x.endNs else y.endNs) = oend at hoverlap hrun
  split_ifs at hrun with hevent hpid hend
  · obtain rfl := Option.some.inj hrun
    exact hsame fun k => if_neg fun h => hevent h.1
  · obtain rfl := Option.some.inj hrun
    exact hsame fun k => if_neg fun h => h.2.1 hpid
  · obtain rfl := Option.some.inj hrun
    refine hsame fun k => ?_
    rw [jointNs, hoverlap, Nat.sub_eq_zero_of_le hend, ite_self]
  · have hsum := hs.addOverlap (Nat.sub_pos_of_lt (Nat.lt_of_not_le hend)) hrun
    rw [not_not] at hevent
    simp only [jointNs, hevent, hpid, ne_eq, not_false_eq_true, true_and, hoverlap,
      eq_comm (a := pidPair x.pid y.pid)]
    exact hsum

theorem InterferenceState.Sums.foldlM_meet {x : ActiveEntry} (ys : List ActiveEntry)
    (hstart : ∀ y ∈ ys, x.startNs ≤ y.startNs) (hs : st.Sums c)
    (hrun : ys.foldlM (InterferenceState.meet fails full x) st = some st') :
    st'.Sums fun k => c k + (ys.map (jointNs k x)).sum := by
  induction ys generalizing st c with
  | nil =>
    obtain rfl := Option.some.inj hrun
    exact hs
  | cons y ys ih =>
    rw [List.foldlM_cons] at hrun
    obtain ⟨st₁, hmeet, hrun⟩ := Option.bind_eq_some_iff.mp hrun
    have hrest := ih (fun z hz => hstart z (List.mem_cons_of_mem y hz))
      (hs.meet (hstart y List.mem_cons_self) hmeet) hrun
    simpa only [List.map_cons, List.sum_cons, Nat.add_assoc] using hrest

/-- **The pass over the sorted intervals.** -/
theorem InterferenceState.Sums.sweep {l : List ActiveEntry}
    (hsorted : Sorted ActiveEntry.startNs l) (hs : st.Sums c)
    (hrun : st.sweep fails full l = some st') : st'.Sums fun k => c k + pairSum k l := by
  induction l generalizing st c with
  | nil =>
    obtain rfl := Option.some.inj hrun
    exact hs
  | cons x rest ih =>
    obtain ⟨hfirst, hrest⟩ := List.pairwise_cons.mp hsorted
    rw [InterferenceState.sweep] at hrun
    obtain ⟨st₁, hmeet, hrun⟩ := Option.bind_eq_some_iff.mp hrun
    have hx := InterferenceState.Sums.foldlM_meet _
      (fun y hy => hfirst y ((List.takeWhile_sublist _).mem hy)) hs hmeet
    simp only [sum_takeWhile_joint _ hrest] at hx
    have hall := ih hrest hx hrun
    simpa only [pairSum, Nat.add_assoc] using hall

/-! ### Exact overlaps -/

theorem lt_of_pairSum_ne_zero {l : List ActiveEntry} (h : pairSum k l ≠ 0) : k.1 < k.2 := by
  induction l with
  | nil => exact absurd rfl h
  | cons x rest ih =>
    by_cases hrest : pairSum k rest = 0
    · have hsum : (rest.map (jointNs k x)).sum ≠ 0 := by
        rw [pairSum, hrest] at h
        exact h
      obtain ⟨v, hv, hne⟩ := List.exists_mem_ne_zero_of_sum_ne_zero hsum
      obtain ⟨y, -, rfl⟩ := List.mem_map.mp hv
      have hcond := (ite_ne_right_iff.mp hne).1
      have hpid : y.pid.toNat ≠ x.pid.toNat := fun h => hcond.2.1 (UInt32.toNat_inj.mp h)
      rw [← hcond.2.2, pidPair]
      dsimp only
      rw [UInt32.lt_iff_toNat_lt]
      split_ifs with hlt
      · exact UInt32.lt_iff_toNat_lt.mp hlt
      · rw [UInt32.lt_iff_toNat_lt] at hlt
        omega
    · exact ih hrest

/-- **Exact overlaps, as 64-bit words.** Two processes that overlap have one row, with the sum over
all pairs of their intervals. -/
structure InterferenceExact (waits : List ActiveEntry) (rows : List InterferenceRow) : Prop where
  ordered : ∀ row ∈ rows, row.pidA < row.pidB
  overlap_eq : ∀ row ∈ rows, row.overlapNs = sharedWaitNs waits row.pidA row.pidB % 2 ^ 64
  exists_iff : ∀ a b, a < b →
    ((∃ row ∈ rows, row.pidA = a ∧ row.pidB = b) ↔ 0 < sharedWaitNs waits a b)
  nodup : (rows.map fun row => (row.pidA, row.pidB)).Nodup

theorem InterferenceExact.perm {waits : List ActiveEntry} {rows rows' : List InterferenceRow}
    (h : InterferenceExact waits rows) (hperm : rows'.Perm rows) :
    InterferenceExact waits rows' where
  ordered := fun row hrow => h.ordered row (hperm.mem_iff.mp hrow)
  overlap_eq := fun row hrow => h.overlap_eq row (hperm.mem_iff.mp hrow)
  exists_iff := fun a b hab => by
    simp only [hperm.mem_iff]
    exact h.exists_iff a b hab
  nodup := (hperm.map _).nodup_iff.mpr h.nodup

/-- The rows of the accumulators. -/
theorem InterferenceState.Sums.exact {waits l : List ActiveEntry} (hperm : l.Perm waits)
    (hs : st.Sums fun k => pairSum k l) (fullName : UInt32 → String) (maxOverlap : ℕ) :
    InterferenceExact waits (st.ht.map (interferenceRow fullName maxOverlap)) := by
  have hshared : ∀ a b, a < b → pairSum (a, b) l = sharedWaitNs waits a b := fun a b hab =>
    (pairSum_eq hab l).trans (sharedWaitNs_perm hperm a b)
  have hacc : ∀ acc ∈ st.ht, acc.pidA < acc.pidB ∧
      acc.overlapNs = pairSum (acc.pidA, acc.pidB) l % 2 ^ 64 := by
    intro acc hmem
    obtain ⟨h, hget⟩ := List.mem_iff_getElem?.mp hmem
    have hix := hs.index h acc hget
    obtain ⟨acc', hget', -, hsum⟩ := hs.some_spec _ h hix
    obtain rfl := Option.some.inj (hget.symm.trans hget')
    refine ⟨lt_of_pairSum_ne_zero (k := (acc.pidA, acc.pidB)) (l := l) fun hzero => ?_, hsum⟩
    exact absurd (hix.symm.trans ((hs.none_iff _).mpr hzero)) (by simp)
  refine ⟨fun row hrow => ?_, fun row hrow => ?_, fun a b hab => ?_, ?_⟩
  · obtain ⟨acc, hmem, rfl⟩ := List.mem_map.mp hrow
    exact (hacc acc hmem).1
  · obtain ⟨acc, hmem, rfl⟩ := List.mem_map.mp hrow
    exact (hacc acc hmem).2.trans (congrArg (· % 2 ^ 64) (hshared _ _ (hacc acc hmem).1))
  · rw [← hshared a b hab, Nat.pos_iff_ne_zero, ne_eq, ← hs.none_iff]
    constructor
    · rintro ⟨row, hrow, rfl, rfl⟩ hnone
      obtain ⟨acc, hmem, rfl⟩ := List.mem_map.mp hrow
      obtain ⟨h, hget⟩ := List.mem_iff_getElem?.mp hmem
      exact absurd ((hs.index h acc hget).symm.trans hnone) (by simp)
    · intro hsome
      obtain ⟨h, hix⟩ := Option.ne_none_iff_exists'.mp hsome
      obtain ⟨acc, hget, hkey, -⟩ := hs.some_spec _ h hix
      refine ⟨_, List.mem_map_of_mem (List.mem_of_getElem? hget), ?_, ?_⟩
      · exact congrArg Prod.fst hkey
      · exact congrArg Prod.snd hkey
  · rw [List.map_map, List.Nodup, List.pairwise_map, List.pairwise_iff_getElem]
    intro i j hi hj hlt heq
    have hix := hs.index i _ (List.getElem?_eq_getElem hi)
    have hjx := hs.index j _ (List.getElem?_eq_getElem hj)
    have hkey : (st.ht[i].pidA, st.ht[i].pidB) = (st.ht[j].pidA, st.ht[j].pidB) := heq
    rw [hkey, hjx] at hix
    exact hlt.ne (Option.some.inj hix).symm

/-- **The overlap of every two sessions.** If at most 50000 intervals take part and no failure is
reported, every two sessions that overlap have one row, with the sum over all pairs of their
intervals as a 64-bit word. -/
theorem interference_exact (noIntervals noRows : Bool) (fails full : ℕ → Bool)
    (byStart : Sorter ActiveEntry.startNs) (byScore : Sorter scoreKey) (mask : UInt32)
    (fullName : UInt32 → String) (events : List TraceEvent) (f : Filter) (maxRows : ℤ)
    (hcap : (events.filter (interferes mask f)).length ≤ interferenceCap)
    {r : InterferenceResult}
    (hr : computeInterference noIntervals noRows fails full byStart byScore mask fullName events f
      maxRows = some r) :
    InterferenceExact ((events.filter (interferes mask f)).map activeEntry) r.rows := by
  have hlen : (events.filter (interferes mask f)).length ≤ min events.length interferenceCap :=
    Nat.le_min.mpr ⟨List.length_filter_le _ _, hcap⟩
  rw [computeInterference, List.take_of_length_le hlen] at hr
  dsimp only at hr
  have hperm := byStart.perm ((events.filter (interferes mask f)).map activeEntry)
  have hsums {st : InterferenceState} (hrun : InterferenceState.sweep fails full
      (byStart.sort ((events.filter (interferes mask f)).map activeEntry)) {} = some st) :
      st.Sums fun k => pairSum k
        (byStart.sort ((events.filter (interferes mask f)).map activeEntry)) := by
    have hall := InterferenceState.sums_start.sweep (byStart.sorted _) hrun
    simpa only [Nat.zero_add] using hall
  split_ifs at hr with hnone
  · obtain rfl := Option.some.inj hr
    have hnil : (events.filter (interferes mask f)).map activeEntry = [] := by
      rw [hnone] at hlen
      rw [List.eq_nil_of_length_eq_zero (Nat.le_zero.mp hlen), List.map_nil]
    rw [hnil]
    exact ⟨fun _ h => absurd h List.not_mem_nil, fun _ h => absurd h List.not_mem_nil,
      fun a b _ => iff_of_false (by simp) (by simp [sharedWaitNs]), List.nodup_nil⟩
  · cases hrun : InterferenceState.sweep fails full
        (byStart.sort ((events.filter (interferes mask f)).map activeEntry)) {} with
    | none =>
      rw [hrun] at hr
      exact absurd hr (by simp)
    | some st =>
      rw [hrun] at hr
      dsimp only at hr
      have hexact := (hsums hrun).exact hperm fullName st.maxOverlap
      rw [Option.ite_none_left_eq_some] at hr
      obtain rfl := Option.some.inj hr.2
      dsimp only
      split_ifs
      · exact hexact.perm (byScore.perm _)
      · exact hexact

/-- Two sessions that wait on one event for 20 ns and 10 ns. -/
def twoSessions : List TraceEvent :=
  [{ timestampNs := 30, pid := 1, oldEvent := 0x0A000001, newEvent := 0, flags := 0,
     durationNs := 20, queryId := 0, cpuNs := cpuNsUnknown },
   { timestampNs := 30, pid := 2, oldEvent := 0x0A000001, newEvent := 0, flags := 0,
     durationNs := 10, queryId := 0, cpuNs := cpuNsUnknown }]

/-- The two sessions have a row. -/
theorem interference_exact_twoSessions :
    ∃ r, computeInterference false false (fun _ => false) (fun _ => false)
        (insertionSorter _) (insertionSorter _) 0 (fun _ => "") twoSessions {} 5 = some r ∧
      InterferenceExact ((twoSessions.filter (interferes 0 {})).map activeEntry) r.rows := by
  have hsome : (computeInterference false false (fun _ => false) (fun _ => false)
      (insertionSorter _) (insertionSorter _) 0 (fun _ => "") twoSessions {} 5).isSome := by
    decide +kernel
  obtain ⟨r, hr⟩ := Option.isSome_iff_exists.mp hsome
  exact ⟨r, hr, interference_exact false false (fun _ => false) (fun _ => false) _ _ 0 (fun _ => "")
    twoSessions {} 5 (by decide) hr⟩

/-- Two waits of one session and one of another, which begin with the clock and last `2 ^ 63` ns. -/
def longWaits : List TraceEvent :=
  let wait (pid : UInt32) : TraceEvent :=
    { timestampNs := 9223372036854775808, pid := pid, oldEvent := 0x0A000001, newEvent := 0,
      flags := 0, durationNs := 9223372036854775808, queryId := 0, cpuNs := cpuNsUnknown }
  [wait 1, wait 1, wait 2]

/-- The two overlaps of the long waits have the sum `2 ^ 64`, and the accumulator wraps around. -/
theorem interference_wraps_longWaits :
    ∃ r, computeInterference false false (fun _ => false) (fun _ => false)
        (insertionSorter _) (insertionSorter _) 0 (fun _ => "") longWaits {} 5 = some r ∧
      ∃ row ∈ r.rows, row.overlapNs = 0 ∧
        sharedWaitNs ((longWaits.filter (interferes 0 {})).map activeEntry) row.pidA row.pidB =
          2 ^ 64 := by
  have hrow : (computeInterference false false (fun _ => false) (fun _ => false)
      (insertionSorter _) (insertionSorter _) 0 (fun _ => "") longWaits {} 5).any
        (fun r => r.rows.any fun row => row.overlapNs = 0 &&
          sharedWaitNs ((longWaits.filter (interferes 0 {})).map activeEntry) row.pidA row.pidB =
            2 ^ 64) = true := by
    decide +kernel
  rw [Option.any_eq_true] at hrow
  obtain ⟨r, hr, hrow⟩ := hrow
  obtain ⟨row, hmem, hrow⟩ := List.any_eq_true.mp hrow
  rw [Bool.and_eq_true, decide_eq_true_eq, decide_eq_true_eq] at hrow
  exact ⟨r, hr, row, hmem, hrow⟩

end PgWaitTracer
