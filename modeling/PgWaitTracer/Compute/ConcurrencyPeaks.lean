import Mathlib.Order.Lattice.Nat
import Mathlib.Data.Finset.Lattice.Fold
import PgWaitTracer.Compute.ConcurrencyMaps
import PgWaitTracer.Compute.WindowPartition

/-!
# What the peaks are

The peaks that `pgwt_compute_concurrency` finds (`src/compute.c`), against the sessions that wait on
one event in a bucket. The last bucket of an interval is a 64-bit quotient that is cut to an `int`
before it is compared with the number of buckets, so an interval that closes `2 ^ 31` buckets after
the start of the window may be in no bucket. The first bucket is compared first.

## Main results

* `mem_overlappedBuckets`: the buckets of an interval are those it overlaps and
  reaches.
* `PeakState.tracks_foldl`: the peaks after any records.
* `peaksExact_iff`: when the peaks are exact.
-/

namespace PgWaitTracer

/-! ### The buckets of an interval -/

/-- The interval of a record overlaps a bucket. -/
def overlapsBucket (fromNs bucketNs b : ℕ) (ev : TraceEvent) : Bool :=
  ev.ts - ev.dur < fromNs + (b + 1) * bucketNs && fromNs + b * bucketNs < ev.ts

/-- The bucket is not after the last one of the record, which is cut to an `int`. -/
def reaches (fromNs bucketNs b : ℕ) (ev : TraceEvent) : Bool :=
  (b : ℤ) ≤ toInt ((ev.ts - fromNs - 1) / bucketNs)

theorem bmod_le (q m : ℕ) : Int.bmod q m ≤ q := by
  have hmod : (q : ℤ) % m ≤ q := by exact_mod_cast Nat.mod_le q m
  rw [Int.bmod_def]
  split_ifs
  · exact hmod
  · omega

theorem toInt_le (q : ℕ) : toInt q ≤ q := bmod_le q _

variable {evs : List TraceEvent} {event : UInt32} {b bucketNs fromNs : ℕ}

/-- **The buckets of an interval**: those it overlaps, up to the last one as it is cut. -/
theorem mem_overlappedBuckets {n : ℕ} (hw : 0 < bucketNs) (hb : b < n) (ev : TraceEvent) :
    b ∈ overlappedBuckets fromNs bucketNs n (ev.ts - ev.dur) ev.ts ↔
      overlapsBucket fromNs bucketNs b ev = true ∧ reaches fromNs bucketNs b ev = true := by
  have hlo : (ev.ts - ev.dur - fromNs) / bucketNs ≤ b ↔
      ev.ts - ev.dur < fromNs + (b + 1) * bucketNs := by
    have hpos : 0 < (b + 1) * bucketNs := Nat.mul_pos (Nat.succ_pos b) hw
    rw [← Nat.lt_add_one_iff, Nat.div_lt_iff_lt_mul hw]
    omega
  rw [overlapsBucket, reaches, Bool.and_eq_true, decide_eq_true_eq, decide_eq_true_eq,
    decide_eq_true_eq, ← hlo, overlappedBuckets]
  split_ifs with hend
  · refine iff_of_false List.not_mem_nil fun h => ?_
    exact absurd ((Nat.le_add_right fromNs _).trans_lt h.1.2) (Nat.not_lt.mpr hend)
  · have hhi : (b : ℤ) ≤ toInt ((ev.ts - fromNs - 1) / bucketNs) →
        fromNs + b * bucketNs < ev.ts := by
      intro h
      have hle : b ≤ (ev.ts - fromNs - 1) / bucketNs := by
        have := h.trans (toInt_le _)
        omega
      have hmul := (Nat.le_div_iff_mul_le hw).mp hle
      omega
    rw [List.mem_range'_1]
    constructor
    · intro h
      have hreach : (b : ℤ) ≤ toInt ((ev.ts - fromNs - 1) / bucketNs) := by omega
      exact ⟨⟨by omega, hhi hreach⟩, hreach⟩
    · rintro ⟨⟨hle, -⟩, hreach⟩
      omega

/-! ### The peaks after any records -/

/-- A process that is on an event in a bucket. -/
@[ext] structure BucketVisit where
  event : UInt32
  pid : UInt32
  bucket : ℕ
  deriving DecidableEq

/-- The processes that are on an event in a bucket. -/
def visitors (vs : List BucketVisit) (event : UInt32) (b : ℕ) : Finset UInt32 :=
  ((vs.filter fun v => v.event = event && v.bucket = b).map BucketVisit.pid).toFinset

variable {vs : List BucketVisit}

@[simp] theorem mem_visitors {pid : UInt32} : pid ∈ visitors vs event b ↔ ⟨event, pid, b⟩ ∈ vs := by
  simp only [visitors, List.mem_toFinset, List.mem_map, List.mem_filter, Bool.and_eq_true,
    decide_eq_true_eq]
  constructor
  · rintro ⟨v, ⟨hv, rfl, rfl⟩, rfl⟩
    exact hv
  · exact fun h => ⟨_, ⟨h, rfl, rfl⟩, rfl⟩

theorem visitors_append (vs : List BucketVisit) (v : BucketVisit) (event : UInt32) (b : ℕ) :
    visitors (vs ++ [v]) event b =
      if event = v.event ∧ b = v.bucket then insert v.pid (visitors vs event b)
      else visitors vs event b := by
  ext pid
  rw [mem_visitors, List.mem_append, List.mem_singleton]
  split_ifs with hkey
  · obtain ⟨rfl, rfl⟩ := hkey
    rw [Finset.mem_insert, mem_visitors]
    constructor
    · rintro (h | h)
      · exact Or.inr h
      · exact Or.inl (congrArg BucketVisit.pid h)
    · rintro (rfl | h)
      · exact Or.inr rfl
      · exact Or.inl h
  · rw [mem_visitors]
    refine or_iff_left fun h => hkey ?_
    exact ⟨congrArg BucketVisit.event h, congrArg BucketVisit.bucket h⟩

theorem getD_set {α : Type*} {l : List α} {i j : ℕ} (hi : i < l.length) (x d : α) :
    (l.set i x).getD j d = if j = i then x else l.getD j d := by
  split_ifs with hij
  · rw [hij, List.getD_eq_getElem?_getD, List.getElem?_set_self hi]
    rfl
  · rw [List.getD_eq_getElem?_getD, List.getElem?_set_ne (Ne.symm hij),
      ← List.getD_eq_getElem?_getD]

/-- **What the peaks are.** No event has more processes in a bucket than its peak, and the event of
the peak has as many. -/
structure PeakState.Tracks (n : ℕ) (vs : List BucketVisit) (ps : PeakState) : Prop where
  length_sessions : ps.peakSessions.length = n
  length_event : ps.peakEvent.length = n
  seen_iff : ∀ b event pid, ps.seen (b, event, pid) = true ↔ ⟨event, pid, b⟩ ∈ vs
  counts_eq : ∀ b event, ps.counts (b, event) = (visitors vs event b).card
  le_peak : ∀ b < n, ∀ event, (visitors vs event b).card ≤ ps.peakSessions.getD b 0
  peak_eq : ∀ b < n, ps.peakSessions.getD b 0 = (visitors vs (ps.peakEvent.getD b 0) b).card

theorem PeakState.tracks_nil (n : ℕ) :
    PeakState.Tracks n []
      { peakSessions := List.replicate n 0, peakEvent := List.replicate n 0 } where
  length_sessions := List.length_replicate
  length_event := List.length_replicate
  seen_iff := fun _ _ _ => by simp
  counts_eq := fun _ _ => rfl
  le_peak := fun _ _ _ => Nat.zero_le _
  peak_eq := fun b hb => by simp [visitors, hb]

theorem PeakState.Tracks.enter {n : ℕ} {ps : PeakState} (h : ps.Tracks n vs) {v : BucketVisit}
    (hv : v.bucket < n) : (ps.enter v.event v.pid v.bucket).Tracks n (vs ++ [v]) := by
  rw [PeakState.enter]
  by_cases hseen : ps.seen (v.bucket, v.event, v.pid) = true
  · have hmem := (h.seen_iff _ _ _).mp hseen
    have hsame : ∀ event b, visitors (vs ++ [v]) event b = visitors vs event b := by
      intro event b
      rw [visitors_append]
      split_ifs with hkey
      · obtain ⟨rfl, rfl⟩ := hkey
        exact Finset.insert_eq_self.mpr (mem_visitors.mpr hmem)
      · rfl
    rw [if_pos hseen]
    refine ⟨h.length_sessions, h.length_event, fun b event pid => ?_, fun b event => ?_,
      fun b hb event => ?_, fun b hb => ?_⟩
    · rw [h.seen_iff, ← mem_visitors, ← hsame, mem_visitors]
    · rw [hsame, h.counts_eq]
    · rw [hsame]
      exact h.le_peak b hb event
    · rw [hsame]
      exact h.peak_eq b hb
  · have hnew : v.pid ∉ visitors vs v.event v.bucket := by
      rw [mem_visitors]
      exact fun hmem => hseen ((h.seen_iff _ _ _).mpr hmem)
    have hcard : (visitors (vs ++ [v]) v.event v.bucket).card =
        (visitors vs v.event v.bucket).card + 1 := by
      rw [visitors_append, if_pos ⟨rfl, rfl⟩, Finset.card_insert_of_notMem hnew]
    have hother : ∀ event b, ¬ (event = v.event ∧ b = v.bucket) →
        visitors (vs ++ [v]) event b = visitors vs event b := fun event b hne => by
      rw [visitors_append, if_neg hne]
    have hcounts := h.counts_eq v.bucket v.event
    rw [if_neg hseen]
    refine ⟨?_, ?_, fun b event pid => ?_, fun b event => ?_, fun b hb event => ?_, fun b hb => ?_⟩
    · dsimp only
      split_ifs
      · rw [List.length_set, h.length_sessions]
      · exact h.length_sessions
    · dsimp only
      split_ifs
      · rw [List.length_set, h.length_event]
      · exact h.length_event
    · dsimp only
      rw [Function.update_apply, List.mem_append, List.mem_singleton, ← h.seen_iff]
      simp only [Prod.mk.injEq, BucketVisit.ext_iff]
      split_ifs with hkey
      · exact iff_of_true rfl (Or.inr ⟨hkey.2.1, hkey.2.2, hkey.1⟩)
      · exact (or_iff_left fun hv => hkey ⟨hv.2.2, hv.1, hv.2.1⟩).symm
    · dsimp only
      rw [Function.update_apply, hcounts]
      split_ifs with hkey
      · obtain ⟨rfl, rfl⟩ := Prod.mk.injEq .. ▸ hkey
        exact hcard.symm
      · rw [hother _ _ fun hne => hkey (Prod.ext hne.2 hne.1), h.counts_eq]
    · dsimp only
      have hle := h.le_peak b hb event
      by_cases hkey : event = v.event ∧ b = v.bucket
      · obtain ⟨rfl, rfl⟩ := hkey
        rw [hcard, ← hcounts]
        split_ifs with hhigher
        · rw [getD_set (by rw [h.length_sessions]; exact hv), if_pos rfl]
        · exact Nat.not_lt.mp hhigher
      · rw [hother _ _ hkey]
        split_ifs with hhigher
        · rw [getD_set (by rw [h.length_sessions]; exact hv)]
          split_ifs with hb'
          · subst hb'
            exact hle.trans hhigher.le
          · exact hle
        · exact hle
    · dsimp only
      have heq := h.peak_eq b hb
      split_ifs with hhigher
      · rw [getD_set (by rw [h.length_sessions]; exact hv),
          getD_set (by rw [h.length_event]; exact hv)]
        split_ifs with hb'
        · rw [hb', hcard, hcounts]
        · rw [heq, hother _ _ fun hne => hb' hne.2]
      · rw [heq, hother]
        rintro ⟨hevent, rfl⟩
        rw [heq, hevent, hcounts] at hhigher
        omega

/-- The buckets that a record is counted in. -/
def visitsOf (fromNs bucketNs n : ℕ) (ev : TraceEvent) : List BucketVisit :=
  (overlappedBuckets fromNs bucketNs n (ev.ts - ev.dur) ev.ts).map (⟨ev.oldEvent, ev.pid, ·⟩)

theorem PeakState.Tracks.step {n : ℕ} {ps : PeakState} (h : ps.Tracks n vs) (fromNs bucketNs : ℕ)
    (ev : TraceEvent) :
    (ps.step fromNs bucketNs n ev).Tracks n (vs ++ visitsOf fromNs bucketNs n ev) := by
  rw [PeakState.step, visitsOf]
  have hlt : ∀ b ∈ overlappedBuckets fromNs bucketNs n (ev.ts - ev.dur) ev.ts, b < n :=
    fun b hb => lt_of_mem_overlappedBuckets hb
  generalize overlappedBuckets fromNs bucketNs n (ev.ts - ev.dur) ev.ts = bs at hlt
  induction bs generalizing vs ps with
  | nil =>
    rw [List.map_nil, List.append_nil]
    exact h
  | cons b bs ih =>
    have hrest := ih (h.enter (v := ⟨ev.oldEvent, ev.pid, b⟩) (hlt b List.mem_cons_self))
      fun b' hb' => hlt b' (List.mem_cons_of_mem _ hb')
    rwa [List.append_assoc] at hrest

/-- **The peaks after any records.** -/
theorem PeakState.tracks_foldl (fromNs bucketNs n : ℕ) (evs : List TraceEvent) :
    PeakState.Tracks n (evs.flatMap (visitsOf fromNs bucketNs n))
      (evs.foldl (PeakState.step fromNs bucketNs n)
        { peakSessions := List.replicate n 0, peakEvent := List.replicate n 0 }) := by
  induction evs using List.reverseRecOn with
  | nil => exact PeakState.tracks_nil n
  | append_singleton evs ev ih =>
    rw [List.foldl_append, List.flatMap_append, List.flatMap_singleton]
    exact ih.step fromNs bucketNs ev

/-! ### Exact peaks -/

/-- The sessions that wait on an event in a bucket. -/
def waitingPids (fromNs bucketNs : ℕ) (evs : List TraceEvent) (event : UInt32) (b : ℕ) :
    Finset UInt32 :=
  ((evs.filter fun ev => ev.oldEvent = event && overlapsBucket fromNs bucketNs b ev).map
    TraceEvent.pid).toFinset

theorem mem_waitingPids {pid : UInt32} :
    pid ∈ waitingPids fromNs bucketNs evs event b ↔ ∃ ev ∈ evs, ev.oldEvent = event ∧
      ev.pid = pid ∧ overlapsBucket fromNs bucketNs b ev = true := by
  simp only [waitingPids, List.mem_toFinset, List.mem_map, List.mem_filter, Bool.and_eq_true,
    decide_eq_true_eq]
  constructor
  · rintro ⟨ev, ⟨hev, hevent, hover⟩, hpid⟩
    exact ⟨ev, hev, hevent, hpid, hover⟩
  · rintro ⟨ev, hev, hevent, hpid, hover⟩
    exact ⟨ev, ⟨hev, hevent, hover⟩, hpid⟩

/-- The most sessions that wait on one event in a bucket. -/
def truePeak (fromNs bucketNs : ℕ) (evs : List TraceEvent) (b : ℕ) : ℕ :=
  (evs.map TraceEvent.oldEvent).toFinset.sup fun event =>
    (waitingPids fromNs bucketNs evs event b).card

theorem card_le_truePeak (fromNs bucketNs : ℕ) (evs : List TraceEvent) (event : UInt32) (b : ℕ) :
    (waitingPids fromNs bucketNs evs event b).card ≤ truePeak fromNs bucketNs evs b := by
  by_cases hmem : event ∈ (evs.map TraceEvent.oldEvent).toFinset
  · exact Finset.le_sup (f := fun event => (waitingPids fromNs bucketNs evs event b).card) hmem
  · have hnone : waitingPids fromNs bucketNs evs event b = ∅ := by
      refine Finset.eq_empty_of_forall_notMem fun pid hpid => hmem ?_
      obtain ⟨ev, hev, hevent, -⟩ := mem_waitingPids.mp hpid
      exact List.mem_toFinset.mpr (List.mem_map.mpr ⟨ev, hev, hevent⟩)
    rw [hnone]
    exact Nat.zero_le _

theorem truePeak_eq_of_forall (h : ∀ event', (waitingPids fromNs bucketNs evs event' b).card ≤
      (waitingPids fromNs bucketNs evs event b).card) :
    truePeak fromNs bucketNs evs b = (waitingPids fromNs bucketNs evs event b).card :=
  le_antisymm (Finset.sup_le fun event' _ => h event')
    (card_le_truePeak fromNs bucketNs evs event b)

theorem mem_visitors_flatMap {n : ℕ} (hw : 0 < bucketNs) (hb : b < n) {pid : UInt32} :
    pid ∈ visitors (evs.flatMap (visitsOf fromNs bucketNs n)) event b ↔
      ∃ ev ∈ evs, ev.oldEvent = event ∧ ev.pid = pid ∧ overlapsBucket fromNs bucketNs b ev = true ∧
        reaches fromNs bucketNs b ev = true := by
  simp only [mem_visitors, List.mem_flatMap, visitsOf, List.mem_map, BucketVisit.mk.injEq]
  constructor
  · rintro ⟨ev, hev, b', hb', hevent, hpid, rfl⟩
    exact ⟨ev, hev, hevent, hpid, (mem_overlappedBuckets hw hb ev).mp hb'⟩
  · rintro ⟨ev, hev, hevent, hpid, hover⟩
    exact ⟨ev, hev, b, (mem_overlappedBuckets hw hb ev).mpr hover, hevent, hpid, rfl⟩

/-- The bucket has an event with the most sessions, each of which waits in an interval that reaches
the bucket. -/
def PeakReached (fromNs bucketNs : ℕ) (evs : List TraceEvent) (b : ℕ) : Prop :=
  ∃ event, (∀ event', (waitingPids fromNs bucketNs evs event' b).card ≤
      (waitingPids fromNs bucketNs evs event b).card) ∧
    ∀ pid ∈ waitingPids fromNs bucketNs evs event b, ∃ ev ∈ evs, ev.oldEvent = event ∧
      ev.pid = pid ∧ overlapsBucket fromNs bucketNs b ev = true ∧
      reaches fromNs bucketNs b ev = true

/-- **When the peak of a bucket is exact.** -/
theorem peak_eq_iff {n : ℕ} (hw : 0 < bucketNs) (hb : b < n) {ps : PeakState}
    (h : ps.Tracks n (evs.flatMap (visitsOf fromNs bucketNs n))) :
    ps.peakSessions.getD b 0 = truePeak fromNs bucketNs evs b ↔
      PeakReached fromNs bucketNs evs b := by
  have hsub : ∀ event, visitors (evs.flatMap (visitsOf fromNs bucketNs n)) event b ⊆
      waitingPids fromNs bucketNs evs event b := by
    intro event pid hpid
    obtain ⟨ev, hev, hevent, hp, hover, -⟩ := (mem_visitors_flatMap hw hb).mp hpid
    exact mem_waitingPids.mpr ⟨ev, hev, hevent, hp, hover⟩
  constructor
  · intro heq
    rw [h.peak_eq b hb] at heq
    refine ⟨ps.peakEvent.getD b 0, fun event' => ?_, fun pid hpid => ?_⟩
    · exact (card_le_truePeak fromNs bucketNs evs event' b).trans
        (heq.ge.trans (Finset.card_le_card (hsub _)))
    · -- as many are counted as wait, so all who wait are counted
      have hall := Finset.eq_of_subset_of_card_le (hsub (ps.peakEvent.getD b 0))
        ((card_le_truePeak fromNs bucketNs evs _ b).trans heq.ge)
      rw [← hall] at hpid
      exact (mem_visitors_flatMap hw hb).mp hpid
  · rintro ⟨event, hmost, hreach⟩
    have hall : visitors (evs.flatMap (visitsOf fromNs bucketNs n)) event b =
        waitingPids fromNs bucketNs evs event b :=
      (hsub event).antisymm fun pid hpid => (mem_visitors_flatMap hw hb).mpr (hreach pid hpid)
    rw [truePeak_eq_of_forall hmost]
    refine le_antisymm ?_ (hall ▸ h.le_peak b hb event)
    rw [h.peak_eq b hb]
    exact (Finset.card_le_card (hsub _)).trans (hmost _)

/-- **Exact peaks.** The peak of every bucket is the most sessions that wait on one event in it. -/
def PeaksExact (fromNs : ℕ) (evs : List TraceEvent) (r : ConcurrencyResult) : Prop :=
  ∀ b < r.numBuckets, r.peakSessions.getD b 0 = truePeak fromNs r.bucketNs evs b

/-- **When the peaks are exact.** If no failure is reported, the peaks are exact if and only if the
last bucket of an interval, cut to an `int`, loses no session of an event that has the most. -/
theorem peaksExact_iff (noArrays : Bool) (fails : ℕ → Bool) (mask : UInt32)
    (fullName : UInt32 → String) (events : List TraceEvent) (f : Filter) {fromNs toNs : UInt64}
    (hwindow : fromNs.toNat < toNs.toNat) {numBuckets : ℤ} (hpos : 0 < numBuckets)
    (hint : numBuckets < 2 ^ 31) (burstWindowNs : UInt64) (burstThreshold : ℤ)
    {r : ConcurrencyResult}
    (hr : computeConcurrencyOrFail noArrays fails mask fullName events f fromNs toNs numBuckets
      burstWindowNs burstThreshold = some r) :
    let bucketNs := max ((toNs.toNat - fromNs.toNat) / numBuckets.toNat) 1
    let evs := events.filter (concurrencyQualifies mask f fromNs.toNat toNs.toNat)
    (events ≠ [] → r.numBuckets = numBuckets.toNat ∧ r.bucketNs = bucketNs) ∧
      (PeaksExact fromNs.toNat evs r ↔
        ∀ b < numBuckets.toNat, PeakReached fromNs.toNat bucketNs evs b) := by
  intro bucketNs evs
  have hsame : r = computeConcurrency mask fullName events f fromNs toNs numBuckets burstWindowNs
      burstThreshold := by
    rcases computeConcurrencyOrFail_follows noArrays fails mask fullName events f fromNs toNs hint
      burstWindowNs burstThreshold with ⟨hnone, -⟩ | ⟨r', hr', rfl⟩
    · exact absurd (hnone.symm.trans hr) (by simp)
    · exact Option.some.inj (hr.symm.trans hr')
  have hw : 0 < bucketNs := lt_of_lt_of_le one_pos (le_max_right _ _)
  subst hsame
  rw [computeConcurrency]
  by_cases hempty : events = []
  · rw [if_pos (Or.inl hempty)]
    have hnil : evs = [] := by simp [evs, hempty]
    refine ⟨fun hne => absurd hempty hne, iff_of_true (fun b hb => absurd hb (Nat.not_lt_zero b))
      fun b _ => ⟨0, fun event' => ?_, fun pid hpid => ?_⟩⟩
    · rw [hnil]
      exact Nat.zero_le _
    · rw [hnil] at hpid
      exact absurd hpid (Finset.notMem_empty pid)
  · rw [if_neg (by rw [not_or, not_or]; exact ⟨hempty, by omega, by omega⟩)]
    refine ⟨fun _ => ⟨rfl, rfl⟩, ?_⟩
    have htracks := PeakState.tracks_foldl fromNs.toNat bucketNs numBuckets.toNat evs
    exact forall_congr' fun b => forall_congr' fun hb => peak_eq_iff hw hb htracks

/-- A wait of 10 ns that closes in the first bucket. -/
theorem peaksExact_oneWait :
    ∃ r, computeConcurrencyOrFail false (fun _ => false) 0 (fun _ => "")
        [waitRecord 0x0A000001 20] {} 10 30 1 0 2 = some r ∧
      (PeaksExact 10 ([waitRecord 0x0A000001 20].filter (concurrencyQualifies 0 {} 10 30)) r ↔
        ∀ b < 1, PeakReached 10 20
          ([waitRecord 0x0A000001 20].filter (concurrencyQualifies 0 {} 10 30)) b) := by
  rcases computeConcurrencyOrFail_follows false (fun _ => false) 0 (fun _ => "")
    [waitRecord 0x0A000001 20] {} 10 30 (show (1 : ℤ) < 2 ^ 31 by decide) 0 2 with
    ⟨-, hfail⟩ | ⟨r, hr, -⟩
  · simp at hfail
  · exact ⟨r, hr, (peaksExact_iff false (fun _ => false) 0 (fun _ => "") _ {} (by decide)
      one_pos (by decide) 0 2 hr).2⟩

/-- A wait that starts in a window of ten buckets of 1 ns, and closes `2 ^ 31` buckets later. -/
def longWait : TraceEvent :=
  { timestampNs := 2147483659, pid := 1, oldEvent := 0x0A000001, newEvent := 0, flags := 0,
    durationNs := 2147483648, queryId := 0, cpuNs := cpuNsUnknown }

/-- The long wait is in no bucket. -/
theorem peaks_lose_longWait :
    ∃ r, computeConcurrencyOrFail false (fun _ => false) 0 (fun _ => "") [longWait] {} 10 20 10
        0 2 = some r ∧
      ¬ PeaksExact 10 ([longWait].filter (concurrencyQualifies 0 {} 10 20)) r := by
  rcases computeConcurrencyOrFail_follows false (fun _ => false) 0 (fun _ => "")
    [longWait] {} 10 20 (show (10 : ℤ) < 2 ^ 31 by decide) 0 2 with
    ⟨-, hfail⟩ | ⟨r, hr, rfl⟩
  · simp at hfail
  · refine ⟨_, hr, fun hexact => ?_⟩
    have hpeak := hexact 5 (by decide)
    revert hpeak
    decide

end PgWaitTracer
