import PgWaitTracer.Compute.Concurrency
import PgWaitTracer.Compute.TripleMap
import PgWaitTracer.Lib.Run

/-!
# Concurrency and bursts, over hash maps

`pgwt_compute_concurrency` (`src/compute.c`) counts distinct sessions in hash maps that grow, and it
reports a failure if there is no memory for them. Here the maps are those of `TripleMap`, and any
allocation may fail. A result that is not a failure is that of `computeConcurrency`, where the maps
are functions.

## Main results

* `computeConcurrencyOrFail_follows`: the result does not depend on the maps.
-/

namespace PgWaitTracer

/-! ### Peaks -/

/-- The state of the first phase. `calls` counts the searches in both maps. -/
structure PeakMaps where
  seen : TripleMap ℕ := {}
  counts : TripleMap ℕ := {}
  calls : ℕ := 0
  peakSessions : List ℕ
  peakEvent : List UInt32

/-- A process is on an event in a bucket. -/
def PeakMaps.enter (fails : ℕ → Bool) (event pid : UInt32) (st : PeakMaps) (b : ℕ) :
    Option PeakMaps :=
  match st.seen.slot (fails st.calls) (UInt32.ofNat b, event, pid) with
  | none => none
  | some (seen, false) => some { st with seen := seen, calls := st.calls + 1 }
  | some (seen, true) =>
    match st.counts.slot (fails (st.calls + 1)) (UInt32.ofNat b, event, 0) with
    | none => none
    | some (counts, _) =>
      let cnt := (counts.val? (UInt32.ofNat b, event, 0)).getD 0 + 1
      let higher := st.peakSessions.getD b 0 < cnt
      some
        { seen := seen
          counts := counts.store (UInt32.ofNat b, event, 0) cnt
          calls := st.calls + 2
          peakSessions := if higher then st.peakSessions.set b cnt else st.peakSessions
          peakEvent := if higher then st.peakEvent.set b event else st.peakEvent }

/-- A record in the buckets that it overlaps. -/
def PeakMaps.step (fails : ℕ → Bool) (fromNs bucketNs numBuckets : ℕ) (st : PeakMaps)
    (ev : TraceEvent) : Option PeakMaps :=
  (overlappedBuckets fromNs bucketNs numBuckets (ev.ts - ev.dur) ev.ts).foldlM
    (PeakMaps.enter fails ev.oldEvent ev.pid) st

/-! ### Bursts -/

/-- The key of a process in the map of a window. -/
def winKey (pid : UInt32) : Triple := (pid, 0, 0)

/-- The sliding window over the entries of an event, with its counts in a map. -/
structure BurstMaps where
  i : ℕ := 0
  j : ℕ := 0
  win : TripleMap ℤ
  calls : ℕ
  distinct : ℤ := 0
  perBucket : List (Option Burst)
  total : ℕ

/-- The window with its counts as a function. -/
def BurstMaps.toScan (s : BurstMaps) : BurstScan :=
  { i := s.i
    j := s.j
    win := fun pid => (s.win.val? (winKey pid)).getD 0
    distinct := s.distinct
    perBucket := s.perBucket
    total := s.total }

/-- An entry comes into the window. -/
def BurstMaps.add (fails : ℕ → Bool) (s : BurstMaps) (e : BurstEntry) : Option BurstMaps := do
  let (win, _) ← s.win.slot (fails s.calls) (winKey e.pid)
  let m := (win.val? (winKey e.pid)).getD 0
  some { s with
    win := win.store (winKey e.pid) (m + 1)
    calls := s.calls + 1
    distinct := if m = 0 then s.distinct + 1 else s.distinct
    j := s.j + 1 }

/-- An entry leaves the window. -/
def BurstMaps.remove (fails : ℕ → Bool) (s : BurstMaps) (e : BurstEntry) : Option BurstMaps := do
  let (win, _) ← s.win.slot (fails s.calls) (winKey e.pid)
  let m := (win.val? (winKey e.pid)).getD 0 - 1
  some { s with
    win := win.store (winKey e.pid) m
    calls := s.calls + 1
    distinct := if m = 0 then s.distinct - 1 else s.distinct
    i := s.i + 1 }

/-- The burst of the window, which reads no count of a process. -/
def BurstMaps.report (cfg : BurstConfig) (es : List BurstEntry) (first : BurstEntry)
    (s : BurstMaps) : BurstMaps :=
  let r := s.toScan.report cfg es first
  { s with total := r.total, perBucket := r.perBucket }

/-- A round of the pass. -/
def BurstMaps.round (fails : ℕ → Bool) (cfg : BurstConfig) (es : List BurstEntry)
    (first : BurstEntry) (s : BurstMaps) : Option BurstMaps := do
  let wend := (first.startNs + cfg.burstWindowNs) % 2 ^ 64
  let s ← ((es.drop s.j).takeWhile fun e => e.startNs ≤ wend).foldlM (BurstMaps.add fails) s
  if cfg.burstThreshold ≤ s.distinct then
    let onset := (es.drop (s.i + 1)).takeWhile fun e => e.startNs ≤ wend
    (first :: onset).foldlM (BurstMaps.remove fails) (s.report cfg es first)
  else s.remove fails first

/-- The pass over the entries of an event. -/
def BurstMaps.run (fails : ℕ → Bool) (cfg : BurstConfig) (es : List BurstEntry) :
    ℕ → BurstMaps → Option BurstMaps
  | 0, s => some s
  | fuel + 1, s =>
    match es[s.i]? with
    | none => some s
    | some first => (s.round fails cfg es first).bind (run fails cfg es fuel)

/-- The pass over the entries of one more event. The map is cleared, and it keeps its size. -/
def BurstMaps.group (fails : ℕ → Bool) (cfg : BurstConfig) (s : BurstMaps) (es : List BurstEntry) :
    Option BurstMaps :=
  BurstMaps.run fails cfg es es.length
    { win := s.win.clear, calls := s.calls, perBucket := s.perBucket, total := s.total }

/-! ### The computation -/

/-- Both phases, for records that qualify. The searches of the second phase are counted from those
of the first. -/
def concurrencyOrFail (fails : ℕ → Bool) (fullName : UInt32 → String)
    (fromNs toNs numBuckets burstWindowNs : ℕ) (burstThreshold : ℤ) (qualified : List TraceEvent) :
    Option ConcurrencyResult := do
  let bucketNs := concurrencyBucketNs fromNs toNs numBuckets
  let peaks ← qualified.foldlM (PeakMaps.step fails fromNs bucketNs numBuckets)
    { peakSessions := List.replicate numBuckets 0, peakEvent := List.replicate numBuckets 0 }
  let entries := (qualified.map burstEntry).mergeSort BurstEntry.le
  let cfg : BurstConfig :=
    ⟨fromNs, bucketNs, numBuckets, burstWindowNs, burstThreshold, fullName⟩
  let found ← (entries.splitBy fun x y => x.eventId == y.eventId).foldlM
    (BurstMaps.group fails cfg)
    { win := {}, calls := peaks.calls, perBucket := List.replicate numBuckets none, total := 0 }
  some
    { peakSessions := peaks.peakSessions
      peakEvent := peaks.peakEvent
      numBuckets := numBuckets
      bucketNs := bucketNs
      bursts := (found.perBucket.filterMap id).mergeSort Burst.le
      burstsTotal := found.total }

/-- `pgwt_compute_concurrency`. There is no result if it reports a failure: one of its arrays is not
allocated, or a map does not grow. -/
def computeConcurrencyOrFail (noArrays : Bool) (fails : ℕ → Bool) (mask : UInt32)
    (fullName : UInt32 → String) (events : List TraceEvent) (f : Filter) (fromNs toNs : UInt64)
    (numBuckets : ℤ) (burstWindowNs : UInt64) (burstThreshold : ℤ) : Option ConcurrencyResult :=
  if events = [] ∨ toNs.toNat ≤ fromNs.toNat ∨ numBuckets ≤ 0 then some {}
  else if noArrays then none
  else concurrencyOrFail fails fullName fromNs.toNat toNs.toNat numBuckets.toNat
    burstWindowNs.toNat burstThreshold
    (events.filter (concurrencyQualifies mask f fromNs.toNat toNs.toNat))

/-! ### The maps of the first phase -/

/-- What the maps hold of the functions, for the buckets there are. -/
structure PeakMaps.Holds (n : ℕ) (st : PeakMaps) (ps : PeakState) : Prop where
  seen_ok : st.seen.Ok
  counts_ok : st.counts.Ok
  seen_eq : ∀ b < n, ∀ event pid,
    (st.seen.val? (UInt32.ofNat b, event, pid)).isSome = ps.seen (b, event, pid)
  counts_eq : ∀ b < n, ∀ event,
    (st.counts.val? (UInt32.ofNat b, event, 0)).getD 0 = ps.counts (b, event)
  sessions_eq : st.peakSessions = ps.peakSessions
  event_eq : st.peakEvent = ps.peakEvent

theorem ofNat_inj {n : ℕ} (hn : n ≤ 2 ^ 32) {b b' : ℕ} (hb : b < n) (hb' : b' < n) :
    UInt32.ofNat b = UInt32.ofNat b' ↔ b = b' := by
  refine ⟨fun h => ?_, congrArg UInt32.ofNat⟩
  have hnat := congrArg UInt32.toNat h
  rwa [UInt32.toNat_ofNat', UInt32.toNat_ofNat', Nat.mod_eq_of_lt (by omega),
    Nat.mod_eq_of_lt (by omega)] at hnat

theorem PeakMaps.Holds.enter (fails : ℕ → Bool) {n : ℕ} (hn : n ≤ 2 ^ 32) {st : PeakMaps}
    {ps : PeakState} (h : st.Holds n ps) (event pid : UInt32) {b : ℕ} (hb : b < n) :
    Run.Follows (∃ k, fails k = true) (PeakMaps.Holds n) (PeakMaps.enter fails event pid st b)
      (ps.enter event pid b) := by
  rw [PeakMaps.enter]
  rcases h.seen_ok.slot_cases (fails st.calls) (UInt32.ofNat b, event, pid) with
    ⟨hnone, hfails⟩ | ⟨seen, hseen, hok, hval⟩
  · rw [hnone]
    exact Or.inl ⟨rfl, _, hfails⟩
  rw [hseen]
  have hold := h.seen_eq b hb event pid
  cases hcase : st.seen.val? (UInt32.ofNat b, event, pid) with
  | some v =>
    rw [hcase] at hold hval
    have henter : ps.enter event pid b = ps := if_pos hold.symm
    rw [henter]
    refine Or.inr ⟨_, rfl, hok, h.counts_ok, fun b' hb' event' pid' => ?_, h.counts_eq,
      h.sessions_eq, h.event_eq⟩
    rw [← h.seen_eq b' hb', hval]
    split_ifs with hkey
    · rw [hkey, hcase]
      rfl
    · rfl
  | none =>
    rw [hcase] at hold hval
    have hnew : ¬ ps.seen (b, event, pid) = true := by simp [← hold]
    rcases h.counts_ok.slot_store (fails (st.calls + 1)) (UInt32.ofNat b, event, 0) with
      ⟨hnone, hfails⟩ | ⟨counts, hcounts, hcnt, hstore⟩
    · simp only [Option.isNone_none, hnone]
      exact Or.inl ⟨rfl, _, hfails⟩
    · rw [h.counts_eq b hb] at hcnt
      obtain ⟨hsok, hsval⟩ := hstore (ps.counts (b, event) + 1)
      simp only [Option.isNone_none, hcounts, hcnt]
      refine Or.inr ⟨_, rfl, ?_⟩
      rw [PeakState.enter, if_neg hnew]
      refine ⟨hok, hsok, fun b' hb' event' pid' => ?_, fun b' hb' event' => ?_, ?_, ?_⟩
      · dsimp only
        rw [hval, Function.update_apply, ← h.seen_eq b' hb']
        simp only [Prod.mk.injEq, ofNat_inj hn hb' hb]
        split_ifs with hkey
        · rfl
        · rfl
      · dsimp only
        rw [hsval, Function.update_apply, ← h.counts_eq b' hb']
        simp only [Prod.mk.injEq, ofNat_inj hn hb' hb, and_true]
        split_ifs with hkey
        · rfl
        · rfl
      · simp only [h.sessions_eq]
      · simp only [h.sessions_eq, h.event_eq]

theorem lt_of_mem_overlappedBuckets {fromNs bucketNs numBuckets startNs endNs b : ℕ}
    (hb : b ∈ overlappedBuckets fromNs bucketNs numBuckets startNs endNs) : b < numBuckets := by
  rw [overlappedBuckets] at hb
  split_ifs at hb with hend
  · exact absurd hb List.not_mem_nil
  · have hlt := (List.mem_range'_1.mp hb).2
    omega

theorem PeakMaps.Holds.step (fails : ℕ → Bool) (fromNs bucketNs : ℕ) {n : ℕ} (hn : n ≤ 2 ^ 32)
    {st : PeakMaps} {ps : PeakState} (h : st.Holds n ps) (ev : TraceEvent) :
    Run.Follows (∃ k, fails k = true) (PeakMaps.Holds n) (st.step fails fromNs bucketNs n ev)
      (ps.step fromNs bucketNs n ev) :=
  Run.Follows.foldlM _ (fun _ hb _ _ h' => h'.enter fails hn _ _ (lt_of_mem_overlappedBuckets hb))
    st ps h

theorem PeakMaps.holds_start (n : ℕ) (sessions : List ℕ) (events : List UInt32) :
    PeakMaps.Holds n { peakSessions := sessions, peakEvent := events }
      { peakSessions := sessions, peakEvent := events } :=
  ⟨TripleMap.ok_empty, TripleMap.ok_empty, fun _ _ _ _ => rfl, fun _ _ _ => rfl, rfl, rfl⟩

/-! ### The map of the second phase -/

/-- The map of the window holds the counts of the function. -/
structure BurstMaps.Holds (s : BurstMaps) (t : BurstScan) : Prop where
  ok : s.win.Ok
  scan_eq : s.toScan = t

variable {s : BurstMaps} {t : BurstScan}

theorem winKey_inj {pid pid' : UInt32} : winKey pid = winKey pid' ↔ pid = pid' := by
  simp [winKey]

theorem BurstMaps.counts_store {win : TripleMap ℤ} {pid : UInt32} {v : ℤ}
    (h : ∀ k, (win.store (winKey pid) v).val? k =
      if k = winKey pid then some v else s.win.val? k) :
    (fun pid' => ((win.store (winKey pid) v).val? (winKey pid')).getD 0) =
      Function.update s.toScan.win pid v := by
  funext pid'
  rw [h, Function.update_apply]
  simp only [winKey_inj]
  split_ifs with hpid
  · rfl
  · rfl

theorem BurstMaps.Holds.add (fails : ℕ → Bool) (h : s.Holds t) (e : BurstEntry) :
    Run.Follows (∃ k, fails k = true) BurstMaps.Holds (s.add fails e) (t.add e) := by
  obtain ⟨hok, rfl⟩ := h
  rw [BurstMaps.add]
  rcases hok.slot_store (fails s.calls) (winKey e.pid) with
    ⟨hnone, hfails⟩ | ⟨win, hwin, hcnt, hstore⟩
  · rw [hnone]
    exact Or.inl ⟨rfl, _, hfails⟩
  · rw [hwin]
    simp only [Option.bind_eq_bind, Option.bind_some, hcnt]
    obtain ⟨hsok, hsval⟩ := hstore ((s.win.val? (winKey e.pid)).getD 0 + 1)
    refine Run.Follows.of_some ⟨hsok, ?_⟩
    rw [BurstMaps.toScan, BurstMaps.counts_store hsval]
    rfl

theorem BurstMaps.Holds.remove (fails : ℕ → Bool) (h : s.Holds t) (e : BurstEntry) :
    Run.Follows (∃ k, fails k = true) BurstMaps.Holds (s.remove fails e) (t.remove e) := by
  obtain ⟨hok, rfl⟩ := h
  rw [BurstMaps.remove]
  rcases hok.slot_store (fails s.calls) (winKey e.pid) with
    ⟨hnone, hfails⟩ | ⟨win, hwin, hcnt, hstore⟩
  · rw [hnone]
    exact Or.inl ⟨rfl, _, hfails⟩
  · rw [hwin]
    simp only [Option.bind_eq_bind, Option.bind_some, hcnt]
    obtain ⟨hsok, hsval⟩ := hstore ((s.win.val? (winKey e.pid)).getD 0 - 1)
    refine Run.Follows.of_some ⟨hsok, ?_⟩
    rw [BurstMaps.toScan, BurstMaps.counts_store hsval]
    rfl

theorem BurstMaps.Holds.report (cfg : BurstConfig) (es : List BurstEntry) (first : BurstEntry)
    (h : s.Holds t) : (s.report cfg es first).Holds (t.report cfg es first) := by
  obtain ⟨hok, rfl⟩ := h
  exact ⟨hok, rfl⟩

theorem BurstMaps.Holds.round (fails : ℕ → Bool) (cfg : BurstConfig) (es : List BurstEntry)
    (first : BurstEntry) (h : s.Holds t) :
    Run.Follows (∃ k, fails k = true) BurstMaps.Holds (s.round fails cfg es first)
      (t.round cfg es first) := by
  have hj : s.j = t.j := congrArg BurstScan.j h.scan_eq
  rw [BurstMaps.round, BurstScan.round, hj]
  dsimp only
  refine (Run.Follows.foldlM _ (fun e _ _ _ h' => h'.add fails e) s t h).bind fun s' h' => ?_
  have hi := congrArg BurstScan.i h'.scan_eq
  have hd := congrArg BurstScan.distinct h'.scan_eq
  rw [← hi, ← hd]
  change Run.Follows _ _ (if cfg.burstThreshold ≤ s'.distinct then _ else _)
    (if cfg.burstThreshold ≤ s'.distinct then _ else _)
  split_ifs with hmany
  · exact Run.Follows.foldlM _ (fun e _ _ _ h'' => h''.remove fails e) _ _ (h'.report cfg es first)
  · exact h'.remove fails first

theorem BurstMaps.Holds.run (fails : ℕ → Bool) (cfg : BurstConfig) (es : List BurstEntry)
    (fuel : ℕ) (h : s.Holds t) :
    Run.Follows (∃ k, fails k = true) BurstMaps.Holds (s.run fails cfg es fuel)
      (t.run cfg es fuel) := by
  induction fuel generalizing s t with
  | zero => exact Run.Follows.of_some h
  | succ fuel ih =>
    have hi : s.i = t.i := congrArg BurstScan.i h.scan_eq
    rw [BurstMaps.run, BurstScan.run, hi]
    cases es[t.i]? with
    | none => exact Run.Follows.of_some h
    | some first => exact (h.round fails cfg es first).bind fun s' h' => ih h'

theorem BurstMaps.group_follows (fails : ℕ → Bool) (cfg : BurstConfig) (es : List BurstEntry)
    (hok : s.win.Ok) {acc : List (Option Burst) × ℕ} (hbucket : s.perBucket = acc.1)
    (htotal : s.total = acc.2) :
    Run.Follows (∃ k, fails k = true) BurstMaps.Holds (s.group fails cfg es)
      (BurstScan.run cfg es es.length { perBucket := acc.1, total := acc.2 }) := by
  refine BurstMaps.Holds.run fails cfg es es.length ⟨hok.clear, ?_⟩
  rw [BurstMaps.toScan, hbucket, htotal]
  simp

/-- Between two groups only what was found is read. -/
def BurstMaps.Found (s : BurstMaps) (acc : List (Option Burst) × ℕ) : Prop :=
  s.win.Ok ∧ s.perBucket = acc.1 ∧ s.total = acc.2

theorem BurstMaps.scan_follows (fails : ℕ → Bool) (cfg : BurstConfig) (entries : List BurstEntry)
    (calls : ℕ) :
    Run.Follows (∃ k, fails k = true) BurstMaps.Found
      ((entries.splitBy fun x y => x.eventId == y.eventId).foldlM (BurstMaps.group fails cfg)
        { win := {}, calls := calls, perBucket := List.replicate cfg.numBuckets none, total := 0 })
      (scanBursts cfg entries) := by
  refine Run.Follows.foldlM _ (fun es _ s acc h => ?_) _ _ ⟨TripleMap.ok_empty, rfl, rfl⟩
  rcases s.group_follows fails cfg es h.1 h.2.1 h.2.2 with hfail | ⟨s', hs', hholds⟩
  · exact Or.inl hfail
  · exact Or.inr ⟨s', hs', hholds.ok, congrArg BurstScan.perBucket hholds.scan_eq,
      congrArg BurstScan.total hholds.scan_eq⟩

/-! ### The computation does not depend on the maps -/

theorem concurrencyOrFail_follows (fails : ℕ → Bool) (fullName : UInt32 → String)
    (fromNs toNs burstWindowNs : ℕ) {numBuckets : ℕ} (hn : numBuckets ≤ 2 ^ 32)
    (burstThreshold : ℤ) (qualified : List TraceEvent) :
    Run.Follows (∃ k, fails k = true) Eq
      (concurrencyOrFail fails fullName fromNs toNs numBuckets burstWindowNs burstThreshold
        qualified)
      (concurrencyOf fullName fromNs toNs numBuckets burstWindowNs burstThreshold qualified) := by
  rw [concurrencyOrFail, concurrencyOf]
  refine (Run.Follows.foldlM _ (fun ev _ _ _ h => h.step fails _ _ hn ev) _ _
    (PeakMaps.holds_start numBuckets _ _)).bind fun peaks hpeaks => ?_
  dsimp only
  refine (BurstMaps.scan_follows fails _ _ peaks.calls).bind fun found hfound => ?_
  refine Run.Follows.of_some ?_
  rw [hpeaks.sessions_eq, hpeaks.event_eq, hfound.2.1, hfound.2.2]

/-- **The result does not depend on the maps.** A failure has a cause. -/
theorem computeConcurrencyOrFail_follows (noArrays : Bool) (fails : ℕ → Bool) (mask : UInt32)
    (fullName : UInt32 → String) (events : List TraceEvent) (f : Filter) (fromNs toNs : UInt64)
    {numBuckets : ℤ} (hn : numBuckets < 2 ^ 31) (burstWindowNs : UInt64) (burstThreshold : ℤ) :
    Run.Follows (noArrays = true ∨ ∃ k, fails k = true) Eq
      (computeConcurrencyOrFail noArrays fails mask fullName events f fromNs toNs numBuckets
        burstWindowNs burstThreshold)
      (computeConcurrency mask fullName events f fromNs toNs numBuckets burstWindowNs
        burstThreshold) := by
  rw [computeConcurrencyOrFail, computeConcurrency]
  split_ifs with hnothing harrays
  · exact Run.Follows.of_some rfl
  · exact Or.inl ⟨rfl, Or.inl harrays⟩
  · have hle : numBuckets.toNat ≤ 2 ^ 32 := by omega
    rcases concurrencyOrFail_follows fails fullName fromNs.toNat toNs.toNat burstWindowNs.toNat hle
      burstThreshold (events.filter (concurrencyQualifies mask f fromNs.toNat toNs.toNat)) with
      ⟨hnone, hfails⟩ | hsome
    · exact Or.inl ⟨hnone, Or.inr hfails⟩
    · exact Or.inr hsome

end PgWaitTracer
