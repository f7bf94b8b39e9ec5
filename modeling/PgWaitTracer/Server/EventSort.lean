import PgWaitTracer.Lib.StableSort
import PgWaitTracer.Server.ExactMerge

/-!
# The sort of a loaded window

The loader puts the records of several files behind each other and then restores the order of time
(`pgwt_stable_sort_events`, `src/event_sort.h`). The records come in long runs that overlap a
little, so runs are merged into a sorted prefix in place. Only the tail of the prefix that starts
after the run is moved, through a scratch buffer. When more records were moved than there are, the
array is handed over to a merge sort with runs of a fixed width (`pgwt_event_sort_fixed_width`).

An access outside of an array has no value. Any allocation may fail, and what is in memory that was
just allocated is arbitrary.

## Main results

* `mergeTail_eq`: merging in place never overwrites a record that is still to be read.
* `stableSortEvents_spec`: the sort is stable, on both ways.
-/

namespace PgWaitTracer

open StableSort

/-! ### Arrays -/

/-- The array after a store. There is none out of bounds. -/
def storeAt (l : List TraceEvent) (i : ℕ) (ev : TraceEvent) : Option (List TraceEvent) :=
  if i < l.length then some (l.set i ev) else none

/-- `while (a < stop) dst[out++] = src[a++]`. -/
def copyRest (src : List TraceEvent) (stop a out : ℕ) (dst : List TraceEvent) :
    Option (List TraceEvent) :=
  if a < stop then do
    let dst ← storeAt dst out (← src[a]?)
    copyRest src stop (a + 1) (out + 1) dst
  else some dst
termination_by stop - a

/-! ### The merge sort with runs of a fixed width -/

/-- Two runs that follow each other are merged into the other array. -/
def mergeRuns (src : List TraceEvent) (mid stop left right out : ℕ) (dst : List TraceEvent) :
    Option (List TraceEvent) :=
  if left < mid ∧ right < stop then do
    let l ← src[left]?
    let r ← src[right]?
    if l.ts ≤ r.ts then
      let dst ← storeAt dst out l
      mergeRuns src mid stop (left + 1) right (out + 1) dst
    else
      let dst ← storeAt dst out r
      mergeRuns src mid stop left (right + 1) (out + 1) dst
  else do
    let dst ← copyRest src mid left out dst
    copyRest src stop right (out + (mid - left)) dst
termination_by (mid - left) + (stop - right)

/-- A pass over the array: pairs of runs of the width, which is not 0, are merged. -/
def mergePass (count width : ℕ) (src : List TraceEvent) (base : ℕ) (dst : List TraceEvent) :
    Option (List TraceEvent) :=
  if base < count ∧ 0 < width then do
    let mid := min (base + width) count
    let stop := min (base + 2 * width) count
    let dst ← mergeRuns src mid stop base mid base dst
    mergePass count width src (base + 2 * width) dst
  else some dst
termination_by count - base

/-- The passes, each of which changes the two arrays. What they are left with is copied to the first
array. -/
def mergePasses (count width : ℕ) (src dst : List TraceEvent) : Option (List TraceEvent) :=
  if width < count ∧ 0 < width then do
    let dst ← mergePass count width src 0 dst
    if count / 2 < width then some dst else mergePasses count (2 * width) dst src
  else some src
termination_by count - width

/-- What the sort returns, and the array that it leaves. -/
structure SortResult where
  ret : ℤ
  events : List TraceEvent
  fellBack : Bool := false
  moves : ℕ := 0

/-- `pgwt_event_sort_fixed_width`. `tmp` is what is in the memory that it allocates. -/
def eventSortFixedWidth (fails : Bool) (tmp : ℕ → TraceEvent) (events : List TraceEvent) :
    Option SortResult :=
  if events.length < 2 then some { ret := 0, events := events }
  else if fails then some { ret := -1, events := events }
  else do
    let events ← mergePasses events.length 1 events ((List.range events.length).map tmp)
    some { ret := 0, events := events }

/-! ### The chain merge -/

/-- The end of the run that `i` is in or follows. -/
def scanRun (events : List TraceEvent) (count i : ℕ) : Option ℕ :=
  if i < count then do
    let a ← events[i - 1]?
    let b ← events[i]?
    if a.ts ≤ b.ts then scanRun events count (i + 1) else some i
  else some i
termination_by count - i

/-- The start of the tail whose records are later than the first of the run. -/
def scanTail (events : List TraceEvent) (first : ℕ) : ℕ → Option ℕ
  | 0 => some 0
  | lo + 1 => do
    let ev ← events[lo]?
    if first < ev.ts then scanTail events first lo else some (lo + 1)

/-- The tail of the prefix and a run are merged in place. The number of records that are taken from
the run is returned too. -/
def mergeTail (scratch : List TraceEvent) (tail runEnd a b out : ℕ) (events : List TraceEvent) :
    Option (List TraceEvent × ℕ) :=
  if a < tail ∧ b < runEnd then do
    let l ← scratch[a]?
    let r ← events[b]?
    if l.ts ≤ r.ts then
      let events ← storeAt events out l
      mergeTail scratch tail runEnd (a + 1) b (out + 1) events
    else
      let events ← storeAt events out r
      mergeTail scratch tail runEnd a (b + 1) (out + 1) events
  else do
    let events ← copyRest scratch tail a out events
    some (events, b)
termination_by (tail - a) + (runEnd - b)

/-- The capacity is doubled until the tail fits; `fuel` bounds how often. -/
def growCap (tail : ℕ) : (fuel next : ℕ) → ℕ
  | 0, next => next
  | fuel + 1, next =>
    if next < tail then if intMax / 2 < next then tail else growCap tail fuel (2 * next) else next

/-- The chain merge between two runs. `sorted` is the length of the prefix that is merged, and the
start of the next run. -/
structure ChainState where
  events : List TraceEvent
  sorted : ℕ
  tailTotal : ℕ := 0
  scratchCap : ℕ := 0
  /-- How many allocations were tried. -/
  allocs : ℕ := 0
  moves : ℕ := 0

/-- The scratch buffer takes the tail, unless an allocation fails. -/
def ChainState.reserve (fails : ℕ → Bool) (s : ChainState) (tail : ℕ) : Option ChainState :=
  if tail ≤ s.scratchCap then some s
  else if fails s.allocs then none
  else some { s with
    allocs := s.allocs + 1
    scratchCap := growCap tail tail (if s.scratchCap = 0 then 64 else s.scratchCap) }

/-- How the chain merge ends. -/
inductive ChainExit
  | merged
  | fellBack
  | failed
  deriving DecidableEq

/-- The next run is merged, or the chain merge ends. -/
def chainStep (fails : ℕ → Bool) (s : ChainState) : Option (ChainState × Option ChainExit) :=
  let count := s.events.length
  if s.sorted < count then do
    let runEnd ← scanRun s.events count (s.sorted + 1)
    let first ← s.events[s.sorted]?
    let lo ← scanTail s.events first.ts s.sorted
    let tail := s.sorted - lo
    let s := { s with tailTotal := s.tailTotal + tail }
    if count < s.tailTotal then some (s, some .fellBack)
    else match s.reserve fails tail with
      | none => some (s, some .failed)
      | some s => do
        let scratch := slice s.events lo s.sorted
        let (events, b) ← mergeTail scratch tail runEnd 0 s.sorted lo s.events
        some ({ s with
          events := events
          moves := s.moves + tail + (b - s.sorted)
          sorted := runEnd }, none)
  else some (s, some .merged)

/-- The chain merge. Without fuel it does not end. -/
def chainMerge (fails : ℕ → Bool) : (fuel : ℕ) → ChainState → Option (ChainState × ChainExit)
  | 0, _ => none
  | fuel + 1, s => do
    match ← chainStep fails s with
    | (s, some exit) => some (s, exit)
    | (s, none) => chainMerge fails fuel s

/-- `pgwt_stable_sort_events`. `fails` tells which allocations fail. -/
def stableSortEvents (fails : ℕ → Bool) (tmp : ℕ → TraceEvent) (events : List TraceEvent) :
    Option SortResult :=
  if events.length < 2 then some { ret := 0, events := events }
  else do
    let sorted ← scanRun events events.length 1
    let (s, exit) ← chainMerge fails (events.length + 1) { events, sorted }
    match exit with
    | .merged => some { ret := 0, events := s.events, moves := s.moves }
    | .failed => some { ret := -1, events := s.events, moves := s.moves }
    | .fellBack => do
      let r ← eventSortFixedWidth (fails s.allocs) tmp s.events
      some { r with fellBack := true, moves := s.moves }

/-! ### Copies and merges -/

section Merge

variable {src dst events scratch : List TraceEvent}

theorem storeAt_eq {i : ℕ} (h : i < dst.length) (ev : TraceEvent) :
    storeAt dst i ev = some (dst.set i ev) := if_pos h

theorem exists_at {i : ℕ} (h : i < src.length) : ∃ ev, src[i]? = some ev :=
  ⟨src[i], List.getElem?_eq_getElem h⟩

theorem copyRest_eq {stop a out : ℕ} (hsrc : stop ≤ src.length)
    (hdst : out + (stop - a) ≤ dst.length) :
    copyRest src stop a out dst = some (paste dst out (slice src a stop)) := by
  induction hn : stop - a generalizing a out dst with
  | zero =>
    rw [copyRest, if_neg (by omega), slice_of_le (by omega), paste_nil]
  | succ n ih =>
    obtain ⟨ev, hev⟩ := exists_at (show a < src.length by omega)
    have hout : out < dst.length := by omega
    rw [copyRest, if_pos (by omega), hev, slice_cons (by omega) hev, ← paste_set hout]
    simp only [Option.bind_eq_bind, Option.bind_some, storeAt_eq hout]
    exact ih (by rw [List.length_set]; omega) (by omega)

/-- **Merging into the other array.** -/
theorem mergeRuns_eq {mid stop left right out : ℕ} (hmid : mid ≤ src.length)
    (hstop : stop ≤ src.length) (hdst : out + (mid - left) + (stop - right) ≤ dst.length) :
    mergeRuns src mid stop left right out dst =
      some (paste dst out (merge TraceEvent.ts (slice src left mid) (slice src right stop))) := by
  induction hn : (mid - left) + (stop - right) generalizing left right out dst with
  | zero =>
    rw [mergeRuns, if_neg (by omega), copyRest_eq hmid (by omega),
      slice_of_le (i := left) (by omega), slice_of_le (i := right) (by omega), nil_merge, paste_nil]
    simp only [Option.bind_eq_bind, Option.bind_some]
    rw [copyRest_eq hstop (by omega), slice_of_le (by omega), paste_nil]
  | succ n ih =>
    by_cases hboth : left < mid ∧ right < stop
    · obtain ⟨l, hl⟩ := exists_at (show left < src.length by omega)
      obtain ⟨r, hr⟩ := exists_at (show right < src.length by omega)
      have hout : out < dst.length := by omega
      rw [mergeRuns, if_pos hboth, hl, hr]
      simp only [Option.bind_eq_bind, Option.bind_some, storeAt_eq hout]
      rw [slice_cons hboth.1 hl, slice_cons hboth.2 hr, cons_merge_cons]
      split_ifs with hle
      · rw [ih (by rw [List.length_set]; omega) (by omega), paste_set hout,
          slice_cons hboth.2 hr]
      · rw [ih (by rw [List.length_set]; omega) (by omega), paste_set hout,
          slice_cons hboth.1 hl]
    · -- one of the runs is used up
      have hleft : (slice src left mid).length = mid - left := length_slice hmid
      rw [mergeRuns, if_neg hboth, copyRest_eq hmid (by omega)]
      simp only [Option.bind_eq_bind, Option.bind_some]
      rw [copyRest_eq hstop (by rw [length_paste (by omega)]; omega)]
      have hpaste : paste (paste dst out (slice src left mid)) (out + (mid - left))
          (slice src right stop) = paste dst out (slice src left mid ++ slice src right stop) := by
        rw [← hleft]
        exact paste_paste (by omega)
      rw [hpaste]
      rcases not_and_or.mp hboth with hend | hend
      · rw [slice_of_le (i := left) (by omega), nil_merge, List.nil_append]
      · rw [slice_of_le (i := right) (by omega), merge_nil, List.append_nil]

/-- **Merging in place.** A store never overwrites a record of the run that is still to be read. -/
theorem mergeTail_eq {tail runEnd a b out : ℕ} (htail : tail ≤ scratch.length)
    (hrun : runEnd ≤ events.length) (hout : out + (tail - a) = b) (hb : b ≤ runEnd) :
    ∃ b', mergeTail scratch tail runEnd a b out events =
      some (paste events out
        (merge TraceEvent.ts (slice scratch a tail) (slice events b runEnd)), b') := by
  induction hn : (tail - a) + (runEnd - b) generalizing a b out events with
  | zero =>
    refine ⟨b, ?_⟩
    rw [mergeTail, if_neg (by omega), copyRest_eq htail (by omega), slice_of_le (by omega),
      slice_of_le (by omega), nil_merge, paste_nil]
    rfl
  | succ n ih =>
    by_cases hboth : a < tail ∧ b < runEnd
    · obtain ⟨l, hl⟩ := exists_at (show a < scratch.length by omega)
      obtain ⟨r, hr⟩ := exists_at (show b < events.length by omega)
      have hlt : out < events.length := by omega
      rw [mergeTail, if_pos hboth, hl, hr]
      simp only [Option.bind_eq_bind, Option.bind_some, storeAt_eq hlt]
      rw [slice_cons hboth.1 hl, slice_cons hboth.2 hr, cons_merge_cons]
      split_ifs with hle
      · have hlen : runEnd ≤ (events.set out l).length := by rwa [List.length_set]
        have hnext : out + 1 + (tail - (a + 1)) = b := by omega
        obtain ⟨b', hb'⟩ := ih hlen hnext hb (by omega)
        refine ⟨b', ?_⟩
        rw [hb', paste_set hlt, slice_set (by omega), slice_cons hboth.2 hr]
      · have hlen : runEnd ≤ (events.set out r).length := by rwa [List.length_set]
        have hnext : out + 1 + (tail - a) = b + 1 := by omega
        obtain ⟨b', hb'⟩ := ih hlen hnext (by omega) (by omega)
        refine ⟨b', ?_⟩
        rw [hb', paste_set hlt, slice_set (by omega), slice_cons hboth.1 hl]
    · refine ⟨b, ?_⟩
      rw [mergeTail, if_neg hboth, copyRest_eq htail (by omega)]
      simp only [Option.bind_eq_bind, Option.bind_some]
      rcases not_and_or.mp hboth with hend | hend
      · -- the rest of the run is in its place
        have hself : paste events b (slice events b runEnd) = events := by
          rw [paste, length_slice hrun, take_append_slice hb, Nat.add_sub_cancel' hb,
            List.take_append_drop]
        have hoeq : out = b := by omega
        have hnil : slice scratch a tail = [] := slice_of_le (by omega)
        rw [hnil, nil_merge, paste_nil, hoeq, hself]
      · have hnil : slice events b runEnd = [] := slice_of_le (by omega)
        rw [hnil, merge_nil]

end Merge

/-! ### Fixed width -/

/-- A pass writes the merged pairs of runs. -/
theorem mergePass_eq {src dst : List TraceEvent} {width base : ℕ} (hwidth : 0 < width)
    (hlen : dst.length = src.length) :
    mergePass src.length width src base dst =
      some (paste dst base (mergePairs TraceEvent.ts width (src.drop base))) := by
  induction hn : src.length - base using Nat.strong_induction_on generalizing base dst with
  | _ n ih =>
    by_cases hbase : base < src.length
    · set mid := min (base + width) src.length with hmid
      set stop := min (base + 2 * width) src.length with hstop
      have hne : ¬ (src.drop base = [] ∨ width = 0) := by
        rw [List.drop_eq_nil_iff]
        omega
      have hfirst : slice src base mid = (src.drop base).take width := slice_min width
      have hsecond : slice src mid stop = ((src.drop base).drop width).take width := by
        rw [List.drop_drop, ← slice_min width]
        rcases Nat.le_total (base + width) src.length with hle | hle
        · rw [hmid, hstop, Nat.min_eq_left hle]
          exact congrArg (fun k => slice src (base + width) (min k src.length)) (by omega)
        · rw [slice_of_le (by omega), slice_of_le (by omega)]
      have hsum := length_take_add width (src.drop base)
      rw [List.length_drop] at hsum
      rw [mergePass, if_pos ⟨hbase, hwidth⟩, mergePairs, if_neg hne]
      simp only [Option.bind_eq_bind]
      rw [mergeRuns_eq (by omega) (by omega) (by omega), Option.bind_some, ← hmid, ← hstop, hfirst,
        hsecond]
      set merged := merge TraceEvent.ts ((src.drop base).take width)
        (((src.drop base).drop width).take width) with hmerged
      have hmlen : merged.length = min (2 * width) (src.length - base) := by
        rw [hmerged, StableSort.length_merge, hsum]
      rw [ih _ (by omega) (by rw [length_paste (by omega), hlen]) rfl, List.drop_drop]
      rcases Nat.le_total (2 * width) (src.length - base) with hle | hle
      · rw [Nat.min_eq_left hle] at hmlen
        rw [← hmlen, paste_paste (by omega)]
      · -- the last pair of runs
        have hnil : mergePairs TraceEvent.ts width (src.drop (base + 2 * width)) = [] := by
          rw [List.drop_eq_nil_of_le (by omega), mergePairs, if_pos (Or.inl rfl)]
        rw [hnil, paste_nil, List.append_nil]
    · have hnil : src.drop base = [] := List.drop_eq_nil_of_le (by omega)
      rw [mergePass, if_neg (by omega), hnil, mergePairs, if_pos (Or.inl rfl), paste_nil]

/-- **The passes sort.** -/
theorem mergePasses_spec {src dst : List TraceEvent} {width : ℕ} (hwidth : 0 < width)
    (hlen : dst.length = src.length) (hruns : RunsSorted TraceEvent.ts width src) :
    ∃ l, mergePasses src.length width src dst = some l ∧ Sorts TraceEvent.ts src l := by
  induction hn : src.length - width using Nat.strong_induction_on generalizing src dst width with
  | _ n ih =>
    by_cases hlt : width < src.length
    · have hpass : paste dst 0 (mergePairs TraceEvent.ts width (src.drop 0)) =
          mergePairs TraceEvent.ts width src := by
        rw [List.drop_zero, paste, Nat.zero_add, length_mergePairs, ← hlen, List.drop_length,
          List.take_zero, List.nil_append, List.append_nil]
      have hsame := sameOrder_mergePairs src hruns
      have hdouble := runsSorted_mergePairs src hruns
      rw [mergePasses, if_pos ⟨hlt, hwidth⟩]
      simp only [Option.bind_eq_bind]
      rw [mergePass_eq hwidth hlen, Option.bind_some, hpass]
      split_ifs with hbreak
      · refine ⟨_, rfl, hdouble.sorted ?_, hsame⟩
        rw [length_mergePairs]
        omega
      · obtain ⟨l, hl, hsorts⟩ := ih (src.length - 2 * width) (by omega) (by omega)
          (length_mergePairs src).symm hdouble (by rw [length_mergePairs])
        rw [length_mergePairs] at hl
        exact ⟨l, hl, hsorts.sorted, hsame.trans hsorts.order⟩
    · rw [mergePasses, if_neg (by omega)]
      exact ⟨src, rfl, hruns.sorted (by omega), SameOrder.refl src⟩

theorem eventSortFixedWidth_spec (fails : Bool) (tmp : ℕ → TraceEvent) (events : List TraceEvent) :
    ∃ r, eventSortFixedWidth fails tmp events = some r ∧
      (r.ret = 0 ∧ Sorts TraceEvent.ts events r.events ∨
        r.ret = -1 ∧ r.events = events ∧ fails = true) := by
  rw [eventSortFixedWidth]
  split_ifs with hshort hfails
  · have hsorted : Sorted TraceEvent.ts events :=
      sorted_of_length_le (Nat.lt_succ_iff.mp hshort)
    exact ⟨_, rfl, Or.inl ⟨rfl, hsorted, SameOrder.refl events⟩⟩
  · exact ⟨_, rfl, Or.inr ⟨rfl, rfl, hfails⟩⟩
  · have hlen : ((List.range events.length).map tmp).length = events.length := by simp
    obtain ⟨l, hl, hsorts⟩ := mergePasses_spec one_pos hlen (runsSorted_one events)
    rw [hl]
    exact ⟨_, rfl, Or.inl ⟨rfl, hsorts⟩⟩

/-! ### The chain merge -/

section Chain

variable {events input : List TraceEvent}

theorem slice_succ {i j : ℕ} {ev : TraceEvent} (hij : i ≤ j) (hev : events[j]? = some ev) :
    slice events i (j + 1) = slice events i j ++ [ev] := by
  have hlt : j < events.length := (List.getElem?_eq_some_iff.mp hev).1
  rw [← slice_append hij (Nat.le_succ j) hlt, slice_cons (Nat.lt_succ_self j) hev,
    slice_of_le le_rfl]

theorem sorted_slice_one {i : ℕ} {ev : TraceEvent} (hev : events[i]? = some ev) :
    Sorted TraceEvent.ts (slice events i (i + 1)) := by
  rw [slice_cons (Nat.lt_succ_self i) hev, slice_of_le le_rfl]
  exact List.pairwise_singleton _ ev

theorem scanRun_spec {start i : ℕ} (hstart : start < i) (hi : i ≤ events.length)
    (hsorted : Sorted TraceEvent.ts (slice events start i)) :
    ∃ stop, scanRun events events.length i = some stop ∧ i ≤ stop ∧ stop ≤ events.length ∧
      Sorted TraceEvent.ts (slice events start stop) := by
  induction hn : events.length - i generalizing i with
  | zero =>
    rw [scanRun, if_neg (by omega)]
    exact ⟨i, rfl, le_rfl, hi, hsorted⟩
  | succ n ih =>
    obtain ⟨a, ha⟩ := exists_at (show i - 1 < events.length by omega)
    obtain ⟨b, hb⟩ := exists_at (show i < events.length by omega)
    rw [scanRun, if_pos (by omega), ha, hb]
    simp only [Option.bind_eq_bind, Option.bind_some]
    split_ifs with hle
    · have hlast := slice_succ (i := start) (by omega) ha
      rw [Nat.sub_add_cancel (by omega)] at hlast
      have hnext : Sorted TraceEvent.ts (slice events start (i + 1)) := by
        rw [slice_succ hstart.le hb, sorted_append]
        refine ⟨hsorted, List.pairwise_singleton _ b, fun x hx y hy => ?_⟩
        rw [List.mem_singleton.mp hy]
        rw [hlast, sorted_append] at hsorted
        rw [hlast] at hx
        rcases List.mem_append.mp hx with hx | hx
        · exact (hsorted.2.2 x hx a (List.mem_singleton_self a)).trans hle
        · rwa [List.mem_singleton.mp hx]
      obtain ⟨stop, hstop, hlo, hhi, hall⟩ := ih (by omega) (by omega) hnext (by omega)
      exact ⟨stop, hstop, by omega, hhi, hall⟩
    · exact ⟨i, rfl, le_rfl, hi, hsorted⟩

theorem scanTail_spec (first : ℕ) {n : ℕ} (hn : n ≤ events.length)
    (hsorted : Sorted TraceEvent.ts (events.take n)) :
    ∃ lo, scanTail events first n = some lo ∧ lo ≤ n ∧
      (∀ ev ∈ events.take lo, ev.ts ≤ first) ∧ ∀ ev ∈ slice events lo n, first < ev.ts := by
  induction n with
  | zero => exact ⟨0, rfl, le_rfl, by simp, by simp [slice]⟩
  | succ n ih =>
    obtain ⟨ev, hev⟩ := exists_at (show n < events.length by omega)
    have htake : events.take (n + 1) = events.take n ++ [ev] := by
      rw [List.take_add_one, hev]
      rfl
    rw [htake, sorted_append] at hsorted
    rw [scanTail, hev]
    simp only [Option.bind_eq_bind, Option.bind_some]
    split_ifs with hlt
    · obtain ⟨lo, hlo, hle, hbefore, hafter⟩ := ih (by omega) hsorted.1
      refine ⟨lo, hlo, by omega, hbefore, fun e he => ?_⟩
      rw [slice_succ hle hev] at he
      rcases List.mem_append.mp he with he | he
      · exact hafter e he
      · rwa [List.mem_singleton.mp he]
    · refine ⟨n + 1, rfl, le_rfl, fun e he => ?_, by simp [slice_of_le]⟩
      rw [htake] at he
      rcases List.mem_append.mp he with he | he
      · exact (hsorted.2.2 e he ev (List.mem_singleton_self ev)).trans (Nat.not_lt.mp hlt)
      · rw [List.mem_singleton.mp he]
        exact Nat.not_lt.mp hlt

/-- **What holds between two runs.** The prefix is sorted, and no two records of one time have
changed places in the array. -/
structure ChainState.Ok (input : List TraceEvent) (s : ChainState) : Prop where
  pos : 0 < s.sorted
  sorted_le : s.sorted ≤ s.events.length
  sorted : Sorted TraceEvent.ts (s.events.take s.sorted)
  order : SameOrder TraceEvent.ts input s.events

theorem ChainState.Ok.length_eq {s : ChainState} (h : s.Ok input) :
    s.events.length = input.length := h.order.perm.length_eq

theorem ChainState.reserve_cases (fails : ℕ → Bool) (s : ChainState) (tail : ℕ) :
    s.reserve fails tail = none ∧ (∃ k, fails k = true) ∨
      ∃ s', s.reserve fails tail = some s' ∧ s'.events = s.events ∧ s'.sorted = s.sorted := by
  rw [ChainState.reserve]
  split_ifs with hfits hfails
  · exact Or.inr ⟨s, rfl, rfl, rfl⟩
  · exact Or.inl ⟨rfl, _, hfails⟩
  all_goals exact Or.inr ⟨_, rfl, rfl, rfl⟩

/-- **A run is merged.** The records before the tail are not later than the first of the run, and
the tail is later. -/
theorem sorted_mergeRun {lo n stop : ℕ} {first : TraceEvent} (hlo : lo ≤ n) (hn : n < stop)
    (hstop : stop ≤ events.length) (hfront : Sorted TraceEvent.ts (events.take n))
    (hrun : Sorted TraceEvent.ts (slice events n stop)) (hfirst : events[n]? = some first)
    (hbefore : ∀ ev ∈ events.take lo, ev.ts ≤ first.ts)
    (hafter : ∀ ev ∈ slice events lo n, first.ts < ev.ts) :
    let l := paste events lo
      (merge TraceEvent.ts (slice events lo n) (slice events n stop))
    Sorted TraceEvent.ts (l.take stop) ∧ SameOrder TraceEvent.ts events l := by
  intro l
  have hlen : (merge TraceEvent.ts (slice events lo n) (slice events n stop)).length =
      stop - lo := by
    rw [StableSort.length_merge, length_slice (by omega), length_slice hstop]
    omega
  have hl : l = events.take lo ++
      merge TraceEvent.ts (slice events lo n) (slice events n stop) ++ events.drop stop := by
    have hend : lo + (stop - lo) = stop := by omega
    simp only [l, paste, hlen, hend]
  have htail : Sorted TraceEvent.ts (slice events lo n) := hfront.sublist (List.drop_sublist ..)
  have hhead : (events.take lo ++
      merge TraceEvent.ts (slice events lo n) (slice events n stop)).length = stop := by
    rw [List.length_append, hlen, List.length_take]
    omega
  constructor
  · rw [hl, List.take_left' hhead, sorted_append]
    refine ⟨?_, sorted_merge htail hrun, fun a ha b hb => ?_⟩
    · have hsub : List.Sublist (events.take lo) (events.take n) := List.take_sublist_take_left hlo
      exact hfront.sublist hsub
    · refine (hbefore a ha).trans ?_
      rcases mem_merge.mp hb with hb | hb
      · exact (hafter b hb).le
      · rw [slice_cons hn hfirst] at hb hrun
        rcases List.mem_cons.mp hb with rfl | hb
        · exact le_rfl
        · exact List.rel_of_pairwise_cons hrun hb
  · have hsplit : events = events.take lo ++ (slice events lo n ++ slice events n stop) ++
        events.drop stop := by
      rw [slice_append hlo hn.le hstop, take_append_slice (hlo.trans hn.le), List.take_append_drop]
    rw [hl]
    conv => arg 2; rw [hsplit]
    exact ((SameOrder.refl _).append (sameOrder_merge htail _)).append (SameOrder.refl _)

/-- **One round of the chain merge.** It merges the next run, or it ends. -/
theorem ChainState.Ok.step (fails : ℕ → Bool) {s : ChainState} (h : s.Ok input) :
    ∃ s' exit, chainStep fails s = some (s', exit) ∧ s'.Ok input ∧
      (exit = none ∧ s.sorted < s'.sorted ∨
        exit = some .merged ∧ s'.sorted = s'.events.length ∨
        exit = some .fellBack ∨
        exit = some .failed ∧ ∃ k, fails k = true) := by
  rw [chainStep]
  by_cases hend : s.sorted < s.events.length
  · obtain ⟨first, hfirst⟩ := exists_at hend
    obtain ⟨stop, hstop, hlt, hle, hrun⟩ :=
      scanRun_spec (Nat.lt_succ_self _) hend (sorted_slice_one hfirst)
    obtain ⟨lo, hlo, hlon, hbefore, hafter⟩ := scanTail_spec first.ts h.sorted_le h.sorted
    rw [if_pos hend]
    simp only [Option.bind_eq_bind, hstop, hfirst, hlo, Option.bind_some]
    split_ifs with hbudget
    · exact ⟨_, _, rfl, ⟨h.pos, h.sorted_le, h.sorted, h.order⟩, Or.inr (Or.inr (Or.inl rfl))⟩
    · rcases ChainState.reserve_cases fails
        { s with tailTotal := s.tailTotal + (s.sorted - lo) } (s.sorted - lo) with
        ⟨hnone, hfails⟩ | ⟨s', hsome, hevents, hsorted⟩
      · rw [hnone]
        exact ⟨_, _, rfl, ⟨h.pos, h.sorted_le, h.sorted, h.order⟩,
          Or.inr (Or.inr (Or.inr ⟨rfl, hfails⟩))⟩
      · obtain ⟨hnext, hsame⟩ := sorted_mergeRun hlon hlt hle h.sorted hrun hfirst hbefore hafter
        have hscratch : slice (slice s.events lo s.sorted) 0 (s.sorted - lo) =
            slice s.events lo s.sorted := by
          rw [slice, List.drop_zero, ← length_slice h.sorted_le, List.take_length]
        have hplace : lo + (s.sorted - lo - 0) = s.sorted := by omega
        have hrunle : s.sorted ≤ stop := by omega
        obtain ⟨b, hb⟩ := mergeTail_eq (length_slice h.sorted_le).ge hle hplace hrunle
        rw [hscratch] at hb
        rw [hsome]
        simp only [hevents, hsorted, hb, Option.bind_some]
        have hroom : lo + (merge TraceEvent.ts (slice s.events lo s.sorted)
            (slice s.events s.sorted stop)).length ≤ s.events.length := by
          rw [StableSort.length_merge, length_slice h.sorted_le, length_slice hle]
          omega
        refine ⟨_, _, rfl, ⟨?_, ?_, hnext, h.order.trans hsame⟩, Or.inl ⟨rfl, hlt⟩⟩
        · change 0 < stop
          omega
        · change stop ≤ (paste _ _ _).length
          rwa [length_paste hroom]
  · rw [if_neg hend]
    exact ⟨s, _, rfl, h, Or.inr (Or.inl ⟨rfl, le_antisymm h.sorted_le (Nat.not_lt.mp hend)⟩)⟩

/-- **The chain merge** ends, since every round but the last merges a run. -/
theorem ChainState.Ok.run (fails : ℕ → Bool) {fuel : ℕ} {s : ChainState} (h : s.Ok input)
    (hfuel : input.length < s.sorted + fuel) :
    ∃ s' exit, chainMerge fails fuel s = some (s', exit) ∧ s'.Ok input ∧
      (exit = .merged ∧ s'.sorted = s'.events.length ∨ exit = .fellBack ∨
        exit = .failed ∧ ∃ k, fails k = true) := by
  induction fuel generalizing s with
  | zero =>
    have := h.sorted_le.trans h.length_eq.le
    omega
  | succ fuel ih =>
    obtain ⟨s', exit, hstep, hok, hcases⟩ := h.step fails
    rw [chainMerge, hstep]
    simp only [Option.bind_eq_bind, Option.bind_some]
    rcases hcases with ⟨rfl, hlt⟩ | ⟨rfl, hdone⟩ | rfl | ⟨rfl, hfails⟩
    · exact ih hok (by omega)
    · exact ⟨s', _, rfl, hok, Or.inl ⟨rfl, hdone⟩⟩
    · exact ⟨s', _, rfl, hok, Or.inr (Or.inl rfl)⟩
    · exact ⟨s', _, rfl, hok, Or.inr (Or.inr ⟨rfl, hfails⟩)⟩

end Chain

/-- **The sort of a loaded window is stable**, whether the chain merge finishes or hands over. It
fails only if an allocation does, and then no record is lost. -/
theorem stableSortEvents_spec (fails : ℕ → Bool) (tmp : ℕ → TraceEvent) (events : List TraceEvent) :
    ∃ r, stableSortEvents fails tmp events = some r ∧
      (r.ret = 0 ∧ Sorts TraceEvent.ts events r.events ∧
          (∀ l, Sorts TraceEvent.ts events l → l = r.events) ∨
        r.ret = -1 ∧ r.events.Perm events ∧ ∃ k, fails k = true) := by
  rw [stableSortEvents]
  by_cases hshort : events.length < 2
  · have hsorts : Sorts TraceEvent.ts events events :=
      ⟨sorted_of_length_le (Nat.lt_succ_iff.mp hshort), SameOrder.refl events⟩
    rw [if_pos hshort]
    exact ⟨_, rfl, Or.inl ⟨rfl, hsorts, fun l hl => hsorts.unique hl⟩⟩
  · obtain ⟨first, hfirst⟩ := exists_at (show 0 < events.length by omega)
    obtain ⟨sorted, hsorted, hpos, hle, hfront⟩ :=
      scanRun_spec one_pos (by omega) (sorted_slice_one hfirst)
    rw [slice, List.drop_zero] at hfront
    have hstart : ChainState.Ok events { events, sorted } :=
      ⟨hpos, hle, hfront, SameOrder.refl events⟩
    obtain ⟨s, exit, hrun, hok, hcases⟩ :=
      hstart.run fails (show events.length < sorted + (events.length + 1) by omega)
    rw [if_neg hshort]
    simp only [Option.bind_eq_bind, hsorted, hrun, Option.bind_some]
    rcases hcases with ⟨rfl, hdone⟩ | rfl | ⟨rfl, hfails⟩
    · have hsorts : Sorts TraceEvent.ts events s.events := by
        refine ⟨?_, hok.order⟩
        have hall := hok.sorted
        rwa [hdone, List.take_length] at hall
      exact ⟨_, rfl, Or.inl ⟨rfl, hsorts, fun l hl => hsorts.unique hl⟩⟩
    · -- records of one time are in the order of the input, so sorting the rest keeps it
      obtain ⟨r, hr, hret⟩ := eventSortFixedWidth_spec (fails s.allocs) tmp s.events
      simp only [hr, Option.bind_some]
      refine ⟨_, rfl, ?_⟩
      rcases hret with ⟨hret, hsorts⟩ | ⟨hret, hevents, hfails⟩
      · have hall : Sorts TraceEvent.ts events r.events :=
          ⟨hsorts.sorted, hok.order.trans hsorts.order⟩
        exact Or.inl ⟨hret, hall, fun l hl => hall.unique hl⟩
      · refine Or.inr ⟨hret, ?_, _, hfails⟩
        rw [hevents]
        exact hok.order.perm
    · exact ⟨_, rfl, Or.inr ⟨rfl, hok.order.perm, hfails⟩⟩

end PgWaitTracer
