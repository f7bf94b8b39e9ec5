import Mathlib.Data.List.GetD
import Mathlib.Data.List.TakeWhile
import PgWaitTracer.Compute.ConcurrencyPeaks
import PgWaitTracer.Lib.StableSort

/-!
# What the bursts are

The bursts that `pgwt_compute_concurrency` finds (`src/compute.c`), against a scan that counts the
processes of every window anew. The sliding pass keeps its counts while both ends of the window
move, and it takes all entries of an onset out at once. It finds the same bursts, if no window ends
past the 64-bit times.

## Main results

* `BurstScan.run_eq`: the pass over the entries of one event.
* `bursts_greedy`: all bursts, and which of them are returned.
-/

namespace PgWaitTracer

/-! ### The scan that counts anew -/

/-- From each anchor on, the processes of its window are counted. If there are enough of them, the
anchor is that of a burst, and the other times of its window are skipped. -/
def greedyAnchors (window : ℕ) (threshold : ℤ) (count : ℕ → ℕ) : List ℕ → List ℕ
  | [] => []
  | a :: rest =>
    if threshold ≤ count a then
      a :: greedyAnchors window threshold count (rest.dropWhile fun t => t ≤ a + window)
    else greedyAnchors window threshold count rest
termination_by l => l.length
decreasing_by
  · exact Nat.lt_succ_of_le (List.dropWhile_sublist _).length_le
  · exact Nat.lt_succ_self _

/-- The entries of a window. -/
def inWindow (window a : ℕ) (es : List BurstEntry) : List BurstEntry :=
  es.filter fun e => a ≤ e.startNs && e.startNs ≤ a + window

/-- The processes of some entries. -/
def pidsOf (es : List BurstEntry) : Finset UInt32 := (es.map BurstEntry.pid).toFinset

/-- The burst of an anchor. -/
def burstAt (fullName : UInt32 → String) (window : ℕ) (event : UInt32) (es : List BurstEntry)
    (a : ℕ) : Burst :=
  { timestampNs := a
    eventId := event
    eventName := fullName event
    numSessions := (pidsOf (inWindow window a es)).card
    pids := ((inWindow window a es).map BurstEntry.pid).eraseDups.take burstPidSample }

/-- The bursts of one event, whose entries are sorted by time. -/
def burstsOf (fullName : UInt32 → String) (window : ℕ) (threshold : ℤ) (event : UInt32)
    (es : List BurstEntry) : List Burst :=
  (greedyAnchors window threshold (fun a => (pidsOf (inWindow window a es)).card)
    (es.map BurstEntry.startNs)).map (burstAt fullName window event es)

/-! ### The buckets of the bursts -/

/-- The bucket of a burst. -/
def burstBucket (cfg : BurstConfig) (startNs : ℕ) : ℕ :=
  if cfg.fromNs < startNs then
    min ((startNs - cfg.fromNs) / cfg.bucketNs) (cfg.numBuckets - 1) else 0

theorem burstBucket_lt {cfg : BurstConfig} (hn : 0 < cfg.numBuckets) (startNs : ℕ) :
    burstBucket cfg startNs < cfg.numBuckets := by
  rw [burstBucket]
  split_ifs
  · omega
  · exact hn

/-- A burst in its bucket, if it is the largest there, and counted. -/
def placeBurst (cfg : BurstConfig) (acc : List (Option Burst) × ℕ) (b : Burst) :
    List (Option Burst) × ℕ :=
  (match acc.1.getD (burstBucket cfg b.timestampNs) none with
    | none => acc.1.set (burstBucket cfg b.timestampNs) (some b)
    | some old =>
      if old.numSessions < b.numSessions then acc.1.set (burstBucket cfg b.timestampNs) (some b)
      else acc.1,
    acc.2 + 1)

/-- **The largest of each bucket.** -/
structure Largest (cfg : BurstConfig) (bs : List Burst) (acc : List (Option Burst) × ℕ) : Prop where
  length_eq : acc.1.length = cfg.numBuckets
  total_eq : acc.2 = bs.length
  none_iff : ∀ k < cfg.numBuckets, acc.1.getD k none = none ↔
    ∀ b ∈ bs, burstBucket cfg b.timestampNs ≠ k
  some_spec : ∀ k b, acc.1.getD k none = some b → b ∈ bs ∧ burstBucket cfg b.timestampNs = k ∧
    ∀ b' ∈ bs, burstBucket cfg b'.timestampNs = k → b'.numSessions ≤ b.numSessions

theorem largest_nil (cfg : BurstConfig) :
    Largest cfg [] (List.replicate cfg.numBuckets none, 0) where
  length_eq := List.length_replicate
  total_eq := rfl
  none_iff := fun k hk => by simp [hk]
  some_spec := fun k b hb => by
    rw [List.getD_eq_getElem?_getD, List.getElem?_replicate] at hb
    split_ifs at hb
    · exact absurd hb (by simp)
    · exact absurd hb (by simp)

theorem Largest.place {cfg : BurstConfig} (hn : 0 < cfg.numBuckets) {bs : List Burst}
    {acc : List (Option Burst) × ℕ} (h : Largest cfg bs acc) (b : Burst) :
    Largest cfg (bs ++ [b]) (placeBurst cfg acc b) := by
  set k₀ := burstBucket cfg b.timestampNs with hk₀
  have hlt : k₀ < acc.1.length := h.length_eq ▸ burstBucket_lt hn b.timestampNs
  -- what is in the buckets after the burst was placed
  have hother : ∀ k, k ≠ k₀ → (placeBurst cfg acc b).1.getD k none = acc.1.getD k none := by
    intro k hk
    rw [placeBurst]
    dsimp only
    rw [← hk₀]
    split
    · rw [getD_set hlt, if_neg hk]
    · split_ifs
      · rw [getD_set hlt, if_neg hk]
      · rfl
  have hown : (placeBurst cfg acc b).1.getD k₀ none = some b ∧
        (∀ b' ∈ bs, burstBucket cfg b'.timestampNs = k₀ → b'.numSessions ≤ b.numSessions) ∨
      ∃ old, (placeBurst cfg acc b).1.getD k₀ none = some old ∧ acc.1.getD k₀ none = some old ∧
        b.numSessions ≤ old.numSessions := by
    rw [placeBurst]
    dsimp only
    rw [← hk₀]
    split
    · next hnone =>
      refine Or.inl ⟨by rw [getD_set hlt, if_pos rfl], fun b' hb' hk => ?_⟩
      exact absurd hk ((h.none_iff k₀ (h.length_eq ▸ hlt)).mp hnone b' hb')
    · next old hold =>
      split_ifs with hless
      · refine Or.inl ⟨by rw [getD_set hlt, if_pos rfl], fun b' hb' hk => ?_⟩
        exact ((h.some_spec k₀ old hold).2.2 b' hb' hk).trans hless.le
      · exact Or.inr ⟨old, hold, hold, not_lt.mp hless⟩
  refine ⟨?_, ?_, fun k hk => ?_, fun k b' hb' => ?_⟩
  · rw [placeBurst]
    dsimp only
    split
    · rw [List.length_set, h.length_eq]
    · split_ifs
      · rw [List.length_set, h.length_eq]
      · exact h.length_eq
  · rw [placeBurst, List.length_append, h.total_eq]
    rfl
  · simp only [List.forall_mem_append, List.mem_singleton, forall_eq]
    by_cases hkk : k = k₀
    · refine iff_of_false ?_ fun hne => hne.2 hkk.symm
      rw [hkk]
      rcases hown with ⟨hsome, -⟩ | ⟨old, hsome, -⟩
      · rw [hsome]
        exact Option.some_ne_none _
      · rw [hsome]
        exact Option.some_ne_none _
    · rw [hother k hkk, h.none_iff k hk]
      exact (and_iff_left (Ne.symm hkk)).symm
  · have hmore {v : ℤ} {k : ℕ}
        (hle : ∀ b' ∈ bs, burstBucket cfg b'.timestampNs = k → b'.numSessions ≤ v)
        (hb : burstBucket cfg b.timestampNs = k → b.numSessions ≤ v) :
        ∀ b' ∈ bs ++ [b], burstBucket cfg b'.timestampNs = k → b'.numSessions ≤ v :=
      List.forall_mem_append.mpr ⟨hle, List.forall_mem_singleton.mpr hb⟩
    by_cases hkk : k = k₀
    · subst hkk
      rcases hown with ⟨hsome, hle⟩ | ⟨old, hsome, hold, hle⟩
      · obtain rfl := Option.some.inj (hsome.symm.trans hb')
        exact ⟨List.mem_append_right _ (List.mem_singleton_self _), rfl,
          hmore hle fun _ => le_rfl⟩
      · obtain rfl := Option.some.inj (hsome.symm.trans hb')
        obtain ⟨hmem, hbucket, hmost⟩ := h.some_spec k₀ _ hold
        exact ⟨List.mem_append_left _ hmem, hbucket, hmore hmost fun _ => hle⟩
    · rw [hother k hkk] at hb'
      obtain ⟨hmem, hbucket, hmost⟩ := h.some_spec k b' hb'
      exact ⟨List.mem_append_left _ hmem, hbucket,
        hmore hmost fun hk => absurd hk (Ne.symm hkk)⟩

theorem Largest.foldl {cfg : BurstConfig} (hn : 0 < cfg.numBuckets) (bs : List Burst) :
    Largest cfg bs (bs.foldl (placeBurst cfg) (List.replicate cfg.numBuckets none, 0)) := by
  induction bs using List.reverseRecOn with
  | nil => exact largest_nil cfg
  | append_singleton bs b ih =>
    rw [List.foldl_append]
    exact ih.place hn b

/-! ### The sliding window -/

/-- **What the sliding window counts**: the entries between its two ends, by process. -/
structure BurstScan.Slides (es : List BurstEntry) (s : BurstScan) (win rest : List BurstEntry) :
    Prop where
  drop_i : es.drop s.i = win ++ rest
  j_eq : s.j = s.i + win.length
  win_eq : ∀ pid, s.win pid = (win.map BurstEntry.pid).count pid
  distinct_eq : s.distinct = (pidsOf win).card

variable {es win rest : List BurstEntry} {s : BurstScan} {cfg : BurstConfig}

theorem BurstScan.Slides.drop_j (h : s.Slides es win rest) : es.drop s.j = rest := by
  rw [h.j_eq, ← List.drop_drop, h.drop_i, List.drop_left]

theorem BurstScan.Slides.slice (h : s.Slides es win rest) :
    (es.drop s.i).take (s.j - s.i) = win := by
  rw [h.drop_i, h.j_eq, Nat.add_sub_cancel_left, List.take_left]

theorem pidsOf_append (es es' : List BurstEntry) : pidsOf (es ++ es') = pidsOf es ∪ pidsOf es' := by
  rw [pidsOf, List.map_append, List.toFinset_append, pidsOf, pidsOf]

theorem mem_pidsOf_iff {pid : UInt32} :
    pid ∈ pidsOf es ↔ (es.map BurstEntry.pid).count pid ≠ 0 := by
  rw [pidsOf, List.mem_toFinset, ← List.count_pos_iff, Nat.pos_iff_ne_zero]

theorem BurstScan.Slides.add {e : BurstEntry} (h : s.Slides es win (e :: rest)) :
    (s.add e).Slides es (win ++ [e]) rest := by
  refine ⟨?_, ?_, fun pid => ?_, ?_⟩
  · rw [List.append_assoc]
    exact h.drop_i
  · rw [List.length_append, ← Nat.add_assoc]
    exact congrArg (· + 1) h.j_eq
  · rw [BurstScan.add]
    dsimp only
    rw [Function.update_apply, List.map_append, List.count_append, h.win_eq,
      h.win_eq, List.map_singleton, List.count_singleton]
    simp only [beq_iff_eq, eq_comm (a := pid)]
    split_ifs with hpid
    · rw [hpid]
      push_cast
      rfl
    · rfl
  · have hsingle : pidsOf [e] = {e.pid} := rfl
    rw [BurstScan.add, h.win_eq, h.distinct_eq, pidsOf_append, hsingle]
    dsimp only
    split_ifs with hnew
    · have hpid : e.pid ∉ pidsOf win := fun hmem => mem_pidsOf_iff.mp hmem (by exact_mod_cast hnew)
      rw [Finset.union_comm, ← Finset.insert_eq, Finset.card_insert_of_notMem hpid]
      rfl
    · have hpid : e.pid ∈ pidsOf win := mem_pidsOf_iff.mpr (by exact_mod_cast hnew)
      rw [Finset.union_eq_left.mpr (Finset.singleton_subset_iff.mpr hpid)]

theorem BurstScan.Slides.remove {e : BurstEntry} (h : s.Slides es (e :: win) rest) :
    (s.remove e).Slides es win rest := by
  have hcount : ∀ pid, s.win pid =
      ((win.map BurstEntry.pid).count pid : ℤ) + if pid = e.pid then 1 else 0 := by
    intro pid
    rw [h.win_eq, List.map_cons, List.count_cons]
    simp only [beq_iff_eq, eq_comm (a := pid)]
    split_ifs
    · push_cast
      rfl
    · simp
  refine ⟨?_, ?_, fun pid => ?_, ?_⟩
  · have hdrop := congrArg (List.drop 1) h.drop_i
    rwa [List.drop_drop] at hdrop
  · have hj := h.j_eq
    rw [List.length_cons] at hj
    rw [BurstScan.remove]
    dsimp only
    omega
  · rw [BurstScan.remove]
    dsimp only
    rw [Function.update_apply, hcount e.pid, hcount pid, if_pos (rfl : e.pid = e.pid),
      add_sub_cancel_right]
    split_ifs with hpid
    · rw [hpid]
    · exact add_zero _
  · have hcons : pidsOf (e :: win) = insert e.pid (pidsOf win) := List.toFinset_cons
    rw [BurstScan.remove, hcount, if_pos rfl, add_sub_cancel_right, h.distinct_eq, hcons]
    dsimp only
    split_ifs with hlast
    · have hpid : e.pid ∉ pidsOf win := fun hmem => mem_pidsOf_iff.mp hmem (by exact_mod_cast hlast)
      rw [Finset.card_insert_of_notMem hpid]
      push_cast
      exact add_sub_cancel_right _ _
    · have hpid : e.pid ∈ pidsOf win := mem_pidsOf_iff.mpr (by exact_mod_cast hlast)
      rw [Finset.insert_eq_of_mem hpid]

theorem BurstScan.Slides.fill (l : List BurstEntry) (h : s.Slides es win (l ++ rest)) :
    (l.foldl BurstScan.add s).Slides es (win ++ l) rest := by
  induction l generalizing s win with
  | nil =>
    rw [List.append_nil]
    exact h
  | cons e l ih =>
    have hrest := ih h.add
    rwa [List.append_assoc] at hrest

theorem BurstScan.Slides.empty (l : List BurstEntry) (h : s.Slides es (l ++ win) rest) :
    (l.foldl BurstScan.remove s).Slides es win rest := by
  induction l generalizing s with
  | nil => exact h
  | cons e l ih => exact ih h.remove

theorem BurstScan.found_foldl_add (l : List BurstEntry) (s : BurstScan) :
    (l.foldl BurstScan.add s).perBucket = s.perBucket ∧ (l.foldl BurstScan.add s).total = s.total ∧
      (l.foldl BurstScan.add s).i = s.i := by
  induction l generalizing s with
  | nil => exact ⟨rfl, rfl, rfl⟩
  | cons e l ih => exact ih (s.add e)

theorem BurstScan.found_foldl_remove (l : List BurstEntry) (s : BurstScan) :
    (l.foldl BurstScan.remove s).perBucket = s.perBucket ∧
      (l.foldl BurstScan.remove s).total = s.total := by
  induction l generalizing s with
  | nil => exact ⟨rfl, rfl⟩
  | cons e l ih => exact ih (s.remove e)

/-! ### A round -/

/-- The scan over entries as the sliding pass goes: a window is what follows its first entry. -/
def onsets (window : ℕ) (threshold : ℤ) : List BurstEntry → List (List BurstEntry)
  | [] => []
  | first :: rest =>
    if threshold ≤ (pidsOf (first :: rest.takeWhile fun e =>
        e.startNs ≤ first.startNs + window)).card then
      (first :: rest.takeWhile fun e => e.startNs ≤ first.startNs + window) ::
        onsets window threshold (rest.dropWhile fun e => e.startNs ≤ first.startNs + window)
    else onsets window threshold rest
termination_by l => l.length
decreasing_by
  · exact Nat.lt_succ_of_le (List.dropWhile_sublist _).length_le
  · exact Nat.lt_succ_self _

/-- The burst of an onset. -/
def onsetBurst (fullName : UInt32 → String) (event : UInt32) (onset : List BurstEntry) : Burst :=
  { timestampNs := (onset.head?.map BurstEntry.startNs).getD 0
    eventId := event
    eventName := fullName event
    numSessions := (pidsOf onset).card
    pids := (onset.map BurstEntry.pid).eraseDups.take burstPidSample }

variable {first : BurstEntry} {all done entries tail : List BurstEntry} {evs : List TraceEvent}
  {event : UInt32} {window : ℕ}

theorem BurstScan.Slides.report (h : s.Slides es (first :: win) rest) :
    ((s.report cfg es first).perBucket, (s.report cfg es first).total) =
      placeBurst cfg (s.perBucket, s.total)
        (onsetBurst cfg.fullName first.eventId (first :: win)) := by
  rw [BurstScan.report, h.slice, h.distinct_eq, placeBurst]
  dsimp only [onsetBurst, burstBucket, List.head?_cons, Option.map_some, Option.getD_some]
  cases s.perBucket.getD _ none with
  | none => rfl
  | some old =>
    simp only [decide_eq_true_eq]
    rfl

theorem BurstScan.Slides.after_report (first : BurstEntry) (h : s.Slides es win rest) :
    (s.report cfg es first).Slides es win rest :=
  ⟨h.drop_i, h.j_eq, h.win_eq, h.distinct_eq⟩

/-- **A round of the pass** is one of the scan over entries: it reports the onset and takes it out
of the window, or it takes out the first entry. -/
theorem BurstScan.Slides.round (h : s.Slides es win rest) (hall : win ++ rest = first :: tail)
    (hwin : ∀ e ∈ win, e.startNs ≤ first.startNs + cfg.burstWindowNs)
    (hlt : first.startNs + cfg.burstWindowNs < 2 ^ 64) :
    let late := fun e : BurstEntry => decide (e.startNs ≤ first.startNs + cfg.burstWindowNs)
    if cfg.burstThreshold ≤ (pidsOf (first :: tail.takeWhile late)).card then
      (s.round cfg es first).Slides es [] (tail.dropWhile late) ∧
        ((s.round cfg es first).perBucket, (s.round cfg es first).total) =
          placeBurst cfg (s.perBucket, s.total)
            (onsetBurst cfg.fullName first.eventId (first :: tail.takeWhile late))
    else
      (s.round cfg es first).Slides es (tail.takeWhile late) (tail.dropWhile late) ∧
        (s.round cfg es first).perBucket = s.perBucket ∧
          (s.round cfg es first).total = s.total := by
  intro late
  have hpos : ∀ e ∈ win, late e = true := fun e he => decide_eq_true (hwin e he)
  have hfirst : late first = true := decide_eq_true (Nat.le_add_right _ _)
  have htake : win ++ rest.takeWhile late = first :: tail.takeWhile late := by
    rw [← List.takeWhile_append_of_pos hpos, hall, List.takeWhile_cons_of_pos hfirst]
  have hdrop : rest.dropWhile late = tail.dropWhile late := by
    rw [← List.dropWhile_append_of_pos hpos, hall, List.dropWhile_cons_of_pos hfirst]
  -- the window is filled
  have hsplit : s.Slides es win (rest.takeWhile late ++ rest.dropWhile late) := by
    rw [List.takeWhile_append_dropWhile]
    exact h
  have hfill := hsplit.fill (rest.takeWhile late)
  obtain ⟨hbucket, htotal, hi⟩ := BurstScan.found_foldl_add (rest.takeWhile late) s
  have hround : s.round cfg es first =
      if cfg.burstThreshold ≤ ((rest.takeWhile late).foldl BurstScan.add s).distinct then
        (first :: (es.drop (((rest.takeWhile late).foldl BurstScan.add s).i + 1)).takeWhile
          late).foldl BurstScan.remove
            (((rest.takeWhile late).foldl BurstScan.add s).report cfg es first)
      else ((rest.takeWhile late).foldl BurstScan.add s).remove first := by
    rw [BurstScan.round, h.drop_j, Nat.mod_eq_of_lt hlt]
  generalize (rest.takeWhile late).foldl BurstScan.add s = filled at hfill hbucket htotal hi hround
  have honset : es.drop (filled.i + 1) = tail := by
    have htail := congrArg (List.drop 1) (h.drop_i.trans hall)
    rwa [List.drop_drop, ← hi] at htail
  rw [htake, hdrop] at hfill
  rw [honset, hfill.distinct_eq] at hround
  rw [hround]
  split_ifs with hmany
  · refine ⟨BurstScan.Slides.empty (first :: tail.takeWhile late) ?_, ?_⟩
    · rw [List.append_nil]
      exact hfill.after_report first
    · have hplaced := @BurstScan.Slides.report _ _ _ _ cfg _ hfill
      rw [hbucket, htotal] at hplaced
      obtain ⟨hb, ht⟩ := BurstScan.found_foldl_remove (first :: tail.takeWhile late)
        (filled.report cfg es first)
      rw [hb, ht]
      exact hplaced
  · exact ⟨hfill.remove, hbucket, htotal⟩

/-- The entries of one event, in order of time. -/
structure OneEvent (window : ℕ) (event : UInt32) (es : List BurstEntry) : Prop where
  sorted : es.Pairwise fun e e' => e.startNs ≤ e'.startNs
  event_eq : ∀ e ∈ es, e.eventId = event
  window_lt : ∀ e ∈ es, e.startNs + window < 2 ^ 64

theorem OneEvent.of_sublist {es' : List BurstEntry} (h : OneEvent window event es)
    (hsub : es'.Sublist es) : OneEvent window event es' :=
  ⟨h.sorted.sublist hsub, fun e he => h.event_eq e (hsub.mem he),
    fun e he => h.window_lt e (hsub.mem he)⟩

/-- The window ends before what follows the window of its first entry. -/
def WindowBefore (window : ℕ) (win all : List BurstEntry) : Prop :=
  ∀ first ∈ all.head?, ∀ e ∈ win, e.startNs ≤ first.startNs + window

/-- **The pass over the entries of one event** finds the onsets of the scan over entries. -/
theorem BurstScan.Slides.run (fuel : ℕ) (h : s.Slides es win rest) (hall : win ++ rest = all)
    (hfuel : all.length ≤ fuel) (hone : OneEvent cfg.burstWindowNs event all)
    (hwin : WindowBefore cfg.burstWindowNs win all) :
    ((s.run cfg es fuel).perBucket, (s.run cfg es fuel).total) =
      ((onsets cfg.burstWindowNs cfg.burstThreshold all).map
        (onsetBurst cfg.fullName event)).foldl (placeBurst cfg) (s.perBucket, s.total) := by
  induction fuel generalizing s win rest all with
  | zero =>
    obtain rfl := List.eq_nil_of_length_eq_zero (Nat.le_zero.mp hfuel)
    rw [onsets]
    rfl
  | succ fuel ih =>
    have hhead : es[s.i]? = all.head? := by
      rw [← hall, ← h.drop_i, List.head?_drop]
    rw [BurstScan.run, hhead]
    cases all with
    | nil =>
      rw [onsets]
      rfl
    | cons first tail =>
      have hround := h.round hall (hwin first rfl)
        (hone.window_lt first List.mem_cons_self)
      dsimp only at hround
      rw [onsets]
      dsimp only [List.head?_cons]
      have htail : tail.length ≤ fuel := Nat.le_of_succ_le_succ hfuel
      split_ifs at hround ⊢ with hmany
      · obtain ⟨hslides, hplaced⟩ := hround
        rw [List.map_cons, List.foldl_cons, ← hone.event_eq first List.mem_cons_self, ← hplaced]
        have hsub := List.dropWhile_sublist
          (fun e : BurstEntry => decide (e.startNs ≤ first.startNs + cfg.burstWindowNs))
            (l := tail)
        rw [hone.event_eq first List.mem_cons_self]
        exact ih hslides rfl (hsub.length_le.trans htail)
          (hone.of_sublist (hsub.trans (List.sublist_cons_self _ _)))
          fun _ _ e he => absurd he List.not_mem_nil
      · obtain ⟨hslides, hbucket, htotal⟩ := hround
        rw [← hbucket, ← htotal]
        refine ih hslides List.takeWhile_append_dropWhile htail
          (hone.of_sublist (List.sublist_cons_self _ _)) fun next hnext e he => ?_
        -- the next entry is not earlier than the first one
        have hle := List.rel_of_pairwise_cons hone.sorted (List.mem_of_mem_head? hnext)
        have hlate := List.mem_takeWhile_imp he
        rw [decide_eq_true_eq] at hlate
        omega

/-! ### Windows after an entry, and windows of all entries -/

theorem filter_eq_takeWhile {a b : ℕ} (hsorted : all.Pairwise fun e e' => e.startNs ≤ e'.startNs)
    (hle : ∀ e ∈ all, a ≤ e.startNs) :
    (all.filter fun e => a ≤ e.startNs && e.startNs ≤ b) =
      all.takeWhile fun e => e.startNs ≤ b := by
  induction all with
  | nil => rfl
  | cons e all ih =>
    obtain ⟨hfirst, hrest⟩ := List.pairwise_cons.mp hsorted
    have hea := hle e List.mem_cons_self
    by_cases heb : e.startNs ≤ b
    · rw [List.filter_cons_of_pos (by simp [hea, heb]), List.takeWhile_cons_of_pos (by simp [heb]),
        ih hrest fun e' he' => hle e' (List.mem_cons_of_mem _ he')]
    · rw [List.takeWhile_cons_of_neg (by simp [heb])]
      refine List.filter_eq_nil_iff.mpr fun e' he' => ?_
      have hlater : e.startNs ≤ e'.startNs := by
        rcases List.mem_cons.mp he' with rfl | he'
        · exact le_rfl
        · exact hfirst e' he'
      simp only [Bool.and_eq_true, decide_eq_true_eq, not_and]
      omega

/-- An earlier entry is not at the time of the first one that is left, or a window from that time on
has too few processes. -/
def AnchorSettled (window : ℕ) (threshold : ℤ) (done all : List BurstEntry) : Prop :=
  ∀ first ∈ all.head?, (∀ e ∈ done, e.startNs < first.startNs) ∨
    ((pidsOf (inWindow window first.startNs (done ++ all))).card : ℤ) < threshold

theorem inWindow_append (window a : ℕ) (done all : List BurstEntry) :
    inWindow window a (done ++ all) = inWindow window a done ++ inWindow window a all :=
  List.filter_append ..

theorem inWindow_cons_self (hsorted : (first :: tail).Pairwise fun e e' => e.startNs ≤ e'.startNs) :
    inWindow window first.startNs (first :: tail) =
      first :: tail.takeWhile fun e => e.startNs ≤ first.startNs + window := by
  rw [inWindow, filter_eq_takeWhile hsorted, List.takeWhile_cons_of_pos (by simp)]
  intro e he
  rcases List.mem_cons.mp he with rfl | he
  · exact le_rfl
  · exact List.rel_of_pairwise_cons hsorted he

theorem AnchorSettled.next {window : ℕ} {threshold : ℤ} {done tail : List BurstEntry}
    {first : BurstEntry}
    (hsorted : (done ++ first :: tail).Pairwise fun e e' => e.startNs ≤ e'.startNs)
    (hfew : ((pidsOf (inWindow window first.startNs (done ++ first :: tail))).card : ℤ) <
      threshold) : AnchorSettled window threshold (done ++ [first]) tail := by
  intro next hnext
  obtain ⟨-, hall, hbefore⟩ := List.pairwise_append.mp hsorted
  have hmem : next ∈ tail := List.mem_of_mem_head? hnext
  have hle : first.startNs ≤ next.startNs := List.rel_of_pairwise_cons hall hmem
  rcases hle.eq_or_lt with heq | hlt
  · right
    rw [← heq, List.append_assoc]
    exact hfew
  · left
    intro e he
    rcases List.mem_append.mp he with he | he
    · exact (hbefore e he first List.mem_cons_self).trans_lt hlt
    · rwa [List.mem_singleton.mp he]

theorem AnchorSettled.window_eq {threshold : ℤ}
    (h : AnchorSettled window threshold done (first :: tail))
    (hsorted : (done ++ first :: tail).Pairwise fun e e' => e.startNs ≤ e'.startNs) :
    inWindow window first.startNs (done ++ first :: tail) =
        first :: (tail.takeWhile fun e => e.startNs ≤ first.startNs + window) ∨
      ((pidsOf (inWindow window first.startNs (done ++ first :: tail))).card : ℤ) < threshold := by
  refine (h first rfl).imp_left fun hbefore => ?_
  have hnone : inWindow window first.startNs done = [] := by
    refine List.filter_eq_nil_iff.mpr fun e he => ?_
    have hlt := hbefore e he
    simp only [Bool.and_eq_true, decide_eq_true_eq, not_and]
    omega
  rw [inWindow_append, hnone, List.nil_append,
    inWindow_cons_self (List.pairwise_append.mp hsorted).2.1]

theorem card_onset_le
    (hsorted : (done ++ first :: tail).Pairwise fun e e' => e.startNs ≤ e'.startNs) :
    (pidsOf (first :: tail.takeWhile fun e => e.startNs ≤ first.startNs + window)).card ≤
      (pidsOf (inWindow window first.startNs (done ++ first :: tail))).card := by
  rw [inWindow_append, inWindow_cons_self (List.pairwise_append.mp hsorted).2.1, pidsOf_append]
  exact Finset.card_le_card Finset.subset_union_right

/-- **The scan over entries is the scan that counts anew**: when an onset is large enough, no
earlier entry is at its time. -/
theorem onsets_eq (fullName : UInt32 → String) (event : UInt32) {threshold : ℤ}
    (hes : done ++ all = es) (hsorted : es.Pairwise fun e e' => e.startNs ≤ e'.startNs)
    (hsettled : AnchorSettled window threshold done all) :
    (onsets window threshold all).map (onsetBurst fullName event) =
      (greedyAnchors window threshold (fun a => (pidsOf (inWindow window a es)).card)
        (all.map BurstEntry.startNs)).map (burstAt fullName window event es) := by
  induction all using onsets.induct window threshold generalizing done with
  | case1 =>
    rw [onsets, List.map_nil, List.map_nil, greedyAnchors]
    rfl
  | case2 first tail hmany ih =>
    have hwindow : inWindow window first.startNs es =
        first :: tail.takeWhile fun e => e.startNs ≤ first.startNs + window := by
      subst hes
      refine (hsettled.window_eq hsorted).resolve_right fun hfew => ?_
      have hle := @card_onset_le _ _ _ window hsorted
      omega
    have hburst : onsetBurst fullName event
          (first :: tail.takeWhile fun e => e.startNs ≤ first.startNs + window) =
        burstAt fullName window event es first.startNs := by
      rw [burstAt, hwindow]
      rfl
    rw [onsets, if_pos hmany, List.map_cons, hburst, List.map_cons, greedyAnchors,
      if_pos (by rw [hwindow]; exact hmany), List.map_cons, List.dropWhile_map]
    refine congrArg (_ :: ·) (@ih (done ++
      first :: tail.takeWhile fun e => e.startNs ≤ first.startNs + window) ?_ ?_)
    · rw [List.append_assoc, List.cons_append, List.takeWhile_append_dropWhile, hes]
    · -- what is left is later than the window, and what was taken is not
      intro next hnext
      left
      have hlater := List.head?_dropWhile_not
        (fun e : BurstEntry => decide (e.startNs ≤ first.startNs + window)) tail
      rw [Option.mem_def.mp hnext] at hlater
      dsimp only at hlater
      rw [decide_eq_false_iff_not] at hlater
      intro e he
      rcases List.mem_append.mp he with he | he
      · have hbefore := (List.pairwise_append.mp (hes ▸ hsorted)).2.2 e he first
          List.mem_cons_self
        omega
      · have hmem : e ∈ inWindow window first.startNs es := hwindow ▸ he
        have hin := (List.mem_filter.mp hmem).2
        simp only [Bool.and_eq_true, decide_eq_true_eq] at hin
        omega
  | case3 first tail hfew ih =>
    have hcount : ((pidsOf (inWindow window first.startNs es)).card : ℤ) < threshold := by
      subst hes
      rcases hsettled.window_eq hsorted with hwindow | hcount
      · rw [hwindow]
        exact not_le.mp hfew
      · exact hcount
    rw [onsets, if_neg hfew, List.map_cons, greedyAnchors, if_neg (not_le.mpr hcount)]
    refine @ih (done ++ [first]) ?_ ?_
    · rw [List.append_assoc]
      exact hes
    · subst hes
      exact AnchorSettled.next hsorted hcount

/-- **The pass over the entries of one event**: it finds the bursts of the scan that counts anew. -/
theorem BurstScan.run_eq (hone : OneEvent cfg.burstWindowNs event es)
    (acc : List (Option Burst) × ℕ) :
    ((BurstScan.run cfg es es.length { perBucket := acc.1, total := acc.2 }).perBucket,
        (BurstScan.run cfg es es.length { perBucket := acc.1, total := acc.2 }).total) =
      (burstsOf cfg.fullName cfg.burstWindowNs cfg.burstThreshold event es).foldl
        (placeBurst cfg) acc := by
  have hstart : BurstScan.Slides es { perBucket := acc.1, total := acc.2 } [] es :=
    ⟨rfl, rfl, fun _ => rfl, rfl⟩
  rw [hstart.run es.length (List.nil_append es) le_rfl hone
      fun _ _ e he => absurd he List.not_mem_nil,
    @onsets_eq _ _ [] _ cfg.fullName event _ rfl hone.sorted
      fun _ _ => Or.inl fun e he => absurd he List.not_mem_nil]
  rfl

/-! ### The entries of each event -/

theorem BurstEntry.le_iff {x y : BurstEntry} : x.le y = true ↔
    x.eventId.toNat < y.eventId.toNat ∨ x.eventId = y.eventId ∧
      (x.startNs < y.startNs ∨ x.startNs = y.startNs ∧ x.pid.toNat ≤ y.pid.toNat) := by
  rw [BurstEntry.le]
  split_ifs with hevent hstart
  · rw [decide_eq_true_eq, UInt32.lt_iff_toNat_lt]
    exact ⟨Or.inl, fun h => h.resolve_right fun h' => hevent h'.1⟩
  · rw [not_not] at hevent
    rw [decide_eq_true_eq, hevent]
    exact ⟨fun h => Or.inr ⟨rfl, Or.inl h⟩, by omega⟩
  · rw [not_not] at hevent hstart
    rw [decide_eq_true_eq, hevent, hstart, UInt32.le_iff_toNat_le]
    exact ⟨fun h => Or.inr ⟨rfl, Or.inr ⟨rfl, h⟩⟩, by omega⟩

theorem pairwise_sortedEntries (entries : List BurstEntry) :
    (entries.mergeSort BurstEntry.le).Pairwise fun x y => x.le y = true := by
  refine List.pairwise_mergeSort (fun x y z hxy hyz => ?_) (fun x y => ?_) entries
  · rw [BurstEntry.le_iff] at hxy hyz ⊢
    rcases hxy with hxy | ⟨hxy, hxy'⟩
    · rcases hyz with hyz | ⟨hyz, -⟩
      · exact Or.inl (hxy.trans hyz)
      · exact Or.inl (hyz ▸ hxy)
    · rcases hyz with hyz | ⟨hyz, hyz'⟩
      · exact Or.inl (hxy ▸ hyz)
      · exact Or.inr ⟨hxy.trans hyz, by omega⟩
  · rw [Bool.or_eq_true, BurstEntry.le_iff, BurstEntry.le_iff]
    rcases lt_trichotomy x.eventId.toNat y.eventId.toNat with h | h | h
    · exact Or.inl (Or.inl h)
    · have heq := UInt32.toNat_inj.mp h
      rcases lt_trichotomy x.startNs y.startNs with hs | hs | hs
      · exact Or.inl (Or.inr ⟨heq, Or.inl hs⟩)
      · exact (le_total x.pid.toNat y.pid.toNat).imp (fun hp => Or.inr ⟨heq, Or.inr ⟨hs, hp⟩⟩)
          fun hp => Or.inr ⟨heq.symm, Or.inr ⟨hs.symm, hp⟩⟩
      · exact Or.inr (Or.inr ⟨heq.symm, Or.inl hs⟩)
    · exact Or.inr (Or.inl h)

/-- The sorted entries come in groups, one for each event. -/
theorem exists_events_splitBy (hsorted : entries.Pairwise fun x y => x.le y = true) :
    ∃ events : List UInt32, events.Nodup ∧
      (∀ event, event ∈ events ↔ event ∈ entries.map BurstEntry.eventId) ∧
        (entries.splitBy fun x y => x.eventId == y.eventId) =
          events.map fun event => entries.filter fun e => e.eventId = event := by
  have hle : StableSort.Sorted (fun e : BurstEntry => e.eventId.toNat) entries := by
    refine hsorted.imp fun h => ?_
    rcases BurstEntry.le_iff.mp h with h | ⟨h, -⟩
    · exact h.le
    · exact (congrArg UInt32.toNat h).le
  obtain ⟨keys, hnodup, hmem, hsplit⟩ := StableSort.exists_keys_splitBy hle
  have hof : ∀ k ∈ keys, (UInt32.ofNat k).toNat = k := by
    intro k hk
    obtain ⟨e, -, rfl⟩ := List.mem_map.mp ((hmem k).mp hk)
    rw [UInt32.ofNat_toNat]
  have hrel : (fun x y : BurstEntry => x.eventId == y.eventId) =
      fun x y => x.eventId.toNat == y.eventId.toNat := by
    funext x y
    rw [Bool.eq_iff_iff, beq_iff_eq, beq_iff_eq, UInt32.toNat_inj]
  refine ⟨keys.map UInt32.ofNat, List.Nodup.map_on ?_ hnodup, fun event => ?_, ?_⟩
  · intro k hk k' hk' heq
    rw [← hof k hk, heq, hof k' hk']
  · rw [List.mem_map, List.mem_map]
    constructor
    · rintro ⟨k, hk, rfl⟩
      obtain ⟨e, he, rfl⟩ := List.mem_map.mp ((hmem k).mp hk)
      exact ⟨e, he, (UInt32.ofNat_toNat).symm⟩
    · rintro ⟨e, he, rfl⟩
      exact ⟨e.eventId.toNat, (hmem _).mpr (List.mem_map_of_mem he), UInt32.ofNat_toNat⟩
  · rw [hrel, hsplit, List.map_map]
    refine List.map_congr_left fun k hk => List.filter_congr fun e _ => ?_
    rw [decide_eq_decide, ← UInt32.toNat_inj, hof k hk]

theorem pairwise_eventEntries (hsorted : entries.Pairwise fun x y => x.le y = true)
    (event : UInt32) :
    (entries.filter fun e => e.eventId = event).Pairwise fun e e' => e.startNs ≤ e'.startNs := by
  rw [List.pairwise_filter]
  refine hsorted.imp fun {x y} h hx hy => ?_
  rw [decide_eq_true_eq] at hx hy
  rcases BurstEntry.le_iff.mp h with h | ⟨-, h⟩
  · rw [hx, hy] at h
    exact absurd h (lt_irrefl _)
  · omega

/-- **The pass over the entries of all events**: it places the bursts of each event. -/
theorem scanBursts_eq (hsorted : entries.Pairwise fun x y => x.le y = true)
    (hlt : ∀ e ∈ entries, e.startNs + cfg.burstWindowNs < 2 ^ 64) :
    ∃ events : List UInt32, events.Nodup ∧
      (∀ event, event ∈ events ↔ event ∈ entries.map BurstEntry.eventId) ∧
        scanBursts cfg entries =
          (events.flatMap fun event => burstsOf cfg.fullName cfg.burstWindowNs cfg.burstThreshold
            event (entries.filter fun e => e.eventId = event)).foldl (placeBurst cfg)
              (List.replicate cfg.numBuckets none, 0) := by
  obtain ⟨events, hnodup, hmem, hsplit⟩ := exists_events_splitBy hsorted
  refine ⟨events, hnodup, hmem, ?_⟩
  rw [scanBursts, hsplit, List.foldl_map, List.foldl_flatMap]
  refine List.foldl_ext _ _ _ fun acc event _ => ?_
  exact BurstScan.run_eq ⟨pairwise_eventEntries hsorted event,
    fun e he => of_decide_eq_true (List.mem_filter.mp he).2,
    fun e he => hlt e (List.mem_of_mem_filter he)⟩ acc

/-! ### Exact bursts -/

/-- The processes that enter a wait from a time on, for the length of the burst window. -/
def enteringPids (evs : List TraceEvent) (window : ℕ) (event : UInt32) (a : ℕ) : Finset UInt32 :=
  ((evs.filter fun ev => ev.oldEvent = event &&
    (a ≤ ev.ts - ev.dur && ev.ts - ev.dur ≤ a + window)).map TraceEvent.pid).toFinset

/-- The times at which a wait is entered, in order. -/
def entryTimes (evs : List TraceEvent) (event : UInt32) : List ℕ :=
  ((evs.filter fun ev => ev.oldEvent = event).map fun ev => ev.ts - ev.dur).mergeSort (· ≤ ·)

/-- The anchors of the bursts of an event. -/
def greedyBursts (evs : List TraceEvent) (window : ℕ) (threshold : ℤ) (event : UInt32) : List ℕ :=
  greedyAnchors window threshold (fun a => (enteringPids evs window event a).card)
    (entryTimes evs event)

/-- **Exact bursts.** All bursts of the scan that counts anew are counted, and of each bucket with a
burst one is returned that is a largest one. -/
structure BurstsExact (cfg : BurstConfig) (evs : List TraceEvent) (r : ConcurrencyResult) :
    Prop where
  total_eq : r.burstsTotal = ∑ event ∈ (evs.map TraceEvent.oldEvent).toFinset,
    (greedyBursts evs cfg.burstWindowNs cfg.burstThreshold event).length
  burst_spec : ∀ b ∈ r.bursts,
    b.timestampNs ∈ greedyBursts evs cfg.burstWindowNs cfg.burstThreshold b.eventId ∧
      b.numSessions = (enteringPids evs cfg.burstWindowNs b.eventId b.timestampNs).card
  largest : ∀ b ∈ r.bursts, ∀ event,
    ∀ a ∈ greedyBursts evs cfg.burstWindowNs cfg.burstThreshold event,
      burstBucket cfg a = burstBucket cfg b.timestampNs →
        (enteringPids evs cfg.burstWindowNs event a).card ≤ b.numSessions
  nodup : (r.bursts.map fun b => burstBucket cfg b.timestampNs).Nodup
  complete : ∀ event, ∀ a ∈ greedyBursts evs cfg.burstWindowNs cfg.burstThreshold event,
    ∃ b ∈ r.bursts, burstBucket cfg b.timestampNs = burstBucket cfg a

theorem mem_eventEntries {e : BurstEntry} :
    e ∈ ((evs.map burstEntry).mergeSort BurstEntry.le).filter (fun e => e.eventId = event) ↔
      ∃ ev ∈ evs, ev.oldEvent = event ∧ burstEntry ev = e := by
  rw [List.mem_filter, List.mem_mergeSort, List.mem_map, decide_eq_true_eq]
  constructor
  · rintro ⟨⟨ev, hev, rfl⟩, hevent⟩
    exact ⟨ev, hev, hevent, rfl⟩
  · rintro ⟨ev, hev, hevent, rfl⟩
    exact ⟨⟨ev, hev, rfl⟩, hevent⟩

theorem pidsOf_inWindow (evs : List TraceEvent) (window : ℕ) (event : UInt32) (a : ℕ) :
    pidsOf (inWindow window a (((evs.map burstEntry).mergeSort BurstEntry.le).filter
      fun e => e.eventId = event)) = enteringPids evs window event a := by
  ext pid
  simp only [pidsOf, inWindow, enteringPids, List.mem_toFinset, List.mem_map,
    List.mem_filter (p := fun e : BurstEntry => decide (a ≤ e.startNs) &&
      decide (e.startNs ≤ a + window)), mem_eventEntries]
  constructor
  · rintro ⟨_, ⟨⟨ev, hev, hevent, rfl⟩, hin⟩, rfl⟩
    exact ⟨ev, List.mem_filter.mpr ⟨hev, Bool.and_eq_true _ _ ▸ ⟨decide_eq_true hevent, hin⟩⟩, rfl⟩
  · rintro ⟨ev, hmem, rfl⟩
    obtain ⟨hev, hin⟩ := List.mem_filter.mp hmem
    rw [Bool.and_eq_true, decide_eq_true_eq] at hin
    exact ⟨burstEntry ev, ⟨⟨ev, hev, hin.1, rfl⟩, hin.2⟩, rfl⟩

theorem map_startNs_eventEntries (evs : List TraceEvent) (event : UInt32) :
    (((evs.map burstEntry).mergeSort BurstEntry.le).filter fun e => e.eventId = event).map
      BurstEntry.startNs = entryTimes evs event := by
  have hperm : ((((evs.map burstEntry).mergeSort BurstEntry.le).filter
      fun e => e.eventId = event).map BurstEntry.startNs).Perm
        ((evs.filter fun ev => ev.oldEvent = event).map fun ev => ev.ts - ev.dur) := by
    have hsame := ((List.mergeSort_perm (evs.map burstEntry) BurstEntry.le).filter
      fun e => e.eventId = event).map BurstEntry.startNs
    rwa [List.filter_map, List.map_map] at hsame
  refine List.Perm.eq_of_pairwise' (r := fun t t' : ℕ => t ≤ t') ?_ ?_
    (hperm.trans (List.mergeSort_perm _ _).symm)
  · exact List.pairwise_map.mpr (pairwise_eventEntries (pairwise_sortedEntries _) event)
  · have hpair := @List.pairwise_mergeSort ℕ (fun t t' => decide (t ≤ t'))
      (fun t u v htu huv => by simp only [decide_eq_true_eq] at *; omega)
      (fun t u => by simp only [Bool.or_eq_true, decide_eq_true_eq]; omega)
      ((evs.filter fun ev => ev.oldEvent = event).map fun ev => ev.ts - ev.dur)
    exact hpair.imp fun h => of_decide_eq_true h

theorem burstsOf_eventEntries (fullName : UInt32 → String) (evs : List TraceEvent) (window : ℕ)
    (threshold : ℤ) (event : UInt32) :
    burstsOf fullName window threshold event (((evs.map burstEntry).mergeSort BurstEntry.le).filter
        fun e => e.eventId = event) =
      (greedyBursts evs window threshold event).map (burstAt fullName window event
        (((evs.map burstEntry).mergeSort BurstEntry.le).filter fun e => e.eventId = event)) := by
  rw [burstsOf, map_startNs_eventEntries, greedyBursts]
  simp only [pidsOf_inWindow]

theorem greedyBursts_eq_nil (h : event ∉ evs.map TraceEvent.oldEvent) (window : ℕ) (threshold : ℤ) :
    greedyBursts evs window threshold event = [] := by
  have hnone : (evs.filter fun ev => ev.oldEvent = event) = [] := by
    refine List.filter_eq_nil_iff.mpr fun ev hev => ?_
    rw [decide_eq_true_eq]
    exact fun heq => h (List.mem_map.mpr ⟨ev, hev, heq⟩)
  rw [greedyBursts, entryTimes, hnone, List.map_nil, List.mergeSort_nil, greedyAnchors]

theorem mem_bursts_iff {bs : List (Option Burst)} {b : Burst} :
    b ∈ (bs.filterMap id).mergeSort Burst.le ↔ ∃ k < bs.length, bs.getD k none = some b := by
  rw [List.mem_mergeSort, List.mem_filterMap]
  constructor
  · rintro ⟨o, ho, rfl⟩
    obtain ⟨k, hk, hget⟩ := List.mem_iff_getElem.mp ho
    exact ⟨k, hk, by rw [List.getD_eq_getElem _ _ hk, hget]⟩
  · rintro ⟨k, hk, hget⟩
    rw [List.getD_eq_getElem _ _ hk] at hget
    exact ⟨_, List.getElem_mem hk, hget⟩

theorem Largest.nodup_buckets {bs : List Burst} {acc : List (Option Burst) × ℕ}
    (h : Largest cfg bs acc) : (((acc.1.filterMap id).mergeSort Burst.le).map fun b =>
      burstBucket cfg b.timestampNs).Nodup := by
  refine (((List.mergeSort_perm _ Burst.le).map _).nodup_iff).mpr ?_
  rw [List.Nodup, List.pairwise_map, List.pairwise_filterMap, List.pairwise_iff_getElem]
  intro k k' hk hk' hlt b hb b' hb' heq
  have hbucket : ∀ (i : ℕ) (hi : i < acc.1.length) (c : Burst), id acc.1[i] = some c →
      burstBucket cfg c.timestampNs = i := by
    intro i hi c hc
    exact (h.some_spec i c (by rw [List.getD_eq_getElem _ _ hi]; exact hc)).2.1
  rw [hbucket k hk b hb, hbucket k' hk' b' hb'] at heq
  omega

/-- What is returned of the buckets is exact. -/
theorem burstsExact_of_qualified (hn : 0 < cfg.numBuckets)
    (hlt : ∀ ev ∈ evs, ev.ts - ev.dur + cfg.burstWindowNs < 2 ^ 64) {r : ConcurrencyResult}
    (hbursts : r.bursts = ((scanBursts cfg ((evs.map burstEntry).mergeSort
      BurstEntry.le)).1.filterMap id).mergeSort Burst.le)
    (htotal : r.burstsTotal = (scanBursts cfg ((evs.map burstEntry).mergeSort BurstEntry.le)).2) :
    BurstsExact cfg evs r := by
  obtain ⟨events, hnodup, hmem, hscan⟩ := scanBursts_eq
    (pairwise_sortedEntries (evs.map burstEntry)) fun e he => by
      obtain ⟨ev, hev, rfl⟩ := List.mem_map.mp (List.mem_mergeSort.mp he)
      exact hlt ev hev
  simp only [burstsOf_eventEntries] at hscan
  have hlargest := Largest.foldl hn (events.flatMap fun event =>
    (greedyBursts evs cfg.burstWindowNs cfg.burstThreshold event).map
      (burstAt cfg.fullName cfg.burstWindowNs event
        (((evs.map burstEntry).mergeSort BurstEntry.le).filter fun e => e.eventId = event)))
  rw [← hscan] at hlargest
  have hevents : ∀ event, event ∈ events ↔ event ∈ evs.map TraceEvent.oldEvent := by
    intro event
    rw [hmem, List.mem_map, List.mem_map]
    constructor
    · rintro ⟨e, he, rfl⟩
      obtain ⟨ev, hev, rfl⟩ := List.mem_map.mp (List.mem_mergeSort.mp he)
      exact ⟨ev, hev, rfl⟩
    · rintro ⟨ev, hev, rfl⟩
      exact ⟨burstEntry ev, List.mem_mergeSort.mpr (List.mem_map_of_mem hev), rfl⟩
  have hall : ∀ event, ∀ a ∈ greedyBursts evs cfg.burstWindowNs cfg.burstThreshold event,
      event ∈ events := by
    intro event a ha
    by_contra hno
    rw [hevents] at hno
    rw [greedyBursts_eq_nil hno] at ha
    exact List.not_mem_nil ha
  set bs := events.flatMap fun event =>
    (greedyBursts evs cfg.burstWindowNs cfg.burstThreshold event).map
      (burstAt cfg.fullName cfg.burstWindowNs event
        (((evs.map burstEntry).mergeSort BurstEntry.le).filter fun e => e.eventId = event)) with hbs
  have hin : ∀ b, b ∈ bs → b.timestampNs ∈
        greedyBursts evs cfg.burstWindowNs cfg.burstThreshold b.eventId ∧
      b.numSessions = (enteringPids evs cfg.burstWindowNs b.eventId b.timestampNs).card := by
    intro b hb
    obtain ⟨event, -, hb⟩ := List.mem_flatMap.mp hb
    obtain ⟨a, ha, rfl⟩ := List.mem_map.mp hb
    exact ⟨ha, by rw [← pidsOf_inWindow]; rfl⟩
  have hout : ∀ event, ∀ a ∈ greedyBursts evs cfg.burstWindowNs cfg.burstThreshold event,
      ∃ b ∈ bs, b.timestampNs = a ∧
        b.numSessions = (enteringPids evs cfg.burstWindowNs event a).card := by
    intro event a ha
    refine ⟨_, List.mem_flatMap.mpr ⟨event, hall event a ha, List.mem_map_of_mem ha⟩, rfl, ?_⟩
    rw [← pidsOf_inWindow]
    rfl
  refine ⟨?_, fun b hb => ?_, fun b hb event a ha hbucket => ?_, ?_, fun event a ha => ?_⟩
  · rw [htotal, hlargest.total_eq, hbs, List.length_flatMap]
    simp only [List.length_map]
    rw [← List.sum_toFinset _ hnodup]
    refine Finset.sum_congr ?_ fun event _ => rfl
    ext event
    rw [List.mem_toFinset, List.mem_toFinset, hevents]
  · rw [hbursts, mem_bursts_iff] at hb
    obtain ⟨k, -, hget⟩ := hb
    exact hin b (hlargest.some_spec k b hget).1
  · rw [hbursts, mem_bursts_iff] at hb
    obtain ⟨k, -, hget⟩ := hb
    obtain ⟨-, hk, hmost⟩ := hlargest.some_spec k b hget
    obtain ⟨b', hb', rfl, hsessions⟩ := hout event a ha
    rw [← hsessions]
    exact hmost b' hb' (hbucket.trans hk)
  · rw [hbursts]
    exact hlargest.nodup_buckets
  · obtain ⟨b', hb', rfl, -⟩ := hout event a ha
    have hk := burstBucket_lt hn b'.timestampNs
    cases hget : (scanBursts cfg ((evs.map burstEntry).mergeSort BurstEntry.le)).1.getD
      (burstBucket cfg b'.timestampNs) none with
    | none => exact absurd rfl ((hlargest.none_iff _ hk).mp hget b' hb')
    | some b =>
      refine ⟨b, ?_, (hlargest.some_spec _ b hget).2.1⟩
      rw [hbursts, mem_bursts_iff]
      exact ⟨_, hlargest.length_eq ▸ hk, hget⟩

/-- **Bursts are those of the scan that counts anew.** If no failure is reported and no window ends
past the 64-bit times, all bursts are counted, and of each bucket with a burst a largest one is
returned, with the number of its processes. -/
theorem bursts_greedy (noArrays : Bool) (fails : ℕ → Bool) (mask : UInt32)
    (fullName : UInt32 → String) (events : List TraceEvent) (f : Filter) {fromNs toNs : UInt64}
    (hwindow : fromNs.toNat < toNs.toNat) {numBuckets : ℤ} (hpos : 0 < numBuckets)
    (hint : numBuckets < 2 ^ 31) (burstWindowNs : UInt64) (burstThreshold : ℤ)
    (hlt : ∀ ev ∈ events.filter (concurrencyQualifies mask f fromNs.toNat toNs.toNat),
      ev.ts - ev.dur + burstWindowNs.toNat < 2 ^ 64)
    {r : ConcurrencyResult}
    (hr : computeConcurrencyOrFail noArrays fails mask fullName events f fromNs toNs numBuckets
      burstWindowNs burstThreshold = some r) :
    BurstsExact
      ⟨fromNs.toNat, concurrencyBucketNs fromNs.toNat toNs.toNat numBuckets.toNat,
        numBuckets.toNat, burstWindowNs.toNat, burstThreshold, fullName⟩
      (events.filter (concurrencyQualifies mask f fromNs.toNat toNs.toNat)) r := by
  have hsame : r = computeConcurrency mask fullName events f fromNs toNs numBuckets burstWindowNs
      burstThreshold := by
    rcases computeConcurrencyOrFail_follows noArrays fails mask fullName events f fromNs toNs hint
      burstWindowNs burstThreshold with ⟨hnone, -⟩ | ⟨r', hr', rfl⟩
    · exact absurd (hnone.symm.trans hr) (by simp)
    · exact Option.some.inj (hr.symm.trans hr')
  have hn : 0 < numBuckets.toNat := by omega
  subst hsame
  rw [computeConcurrency]
  by_cases hempty : events = []
  · have hnothing (cfg : BurstConfig) : scanBursts cfg (([] : List BurstEntry).mergeSort
        BurstEntry.le) = (List.replicate cfg.numBuckets none, 0) := by
      rw [List.mergeSort_nil, scanBursts, List.splitBy_nil, List.foldl_nil]
    rw [if_pos (Or.inl hempty), hempty]
    refine burstsExact_of_qualified hn (fun ev hev => absurd hev List.not_mem_nil) ?_ ?_
    · rw [List.map_nil, hnothing, List.filterMap_replicate_of_none rfl, List.mergeSort_nil]
    · rw [List.map_nil, hnothing]
  · rw [if_neg (by rw [not_or, not_or]; exact ⟨hempty, by omega, by omega⟩)]
    exact burstsExact_of_qualified hn hlt rfl rfl

/-- Two sessions that enter a wait 5 ns apart. -/
def twoWaits : List TraceEvent :=
  [{ timestampNs := 30, pid := 1, oldEvent := 0x0A000001, newEvent := 0, flags := 0,
     durationNs := 15, queryId := 0, cpuNs := cpuNsUnknown },
   { timestampNs := 30, pid := 2, oldEvent := 0x0A000001, newEvent := 0, flags := 0,
     durationNs := 10, queryId := 0, cpuNs := cpuNsUnknown }]

/-- The two sessions, in a window of three buckets, with bursts of two sessions within 10 ns. -/
theorem bursts_greedy_twoWaits :
    ∃ r, computeConcurrencyOrFail false (fun _ => false) 0 (fun _ => "") twoWaits {} 10 40 3 10 2 =
        some r ∧
      BurstsExact ⟨10, 10, 3, 10, 2, fun _ => ""⟩
        (twoWaits.filter (concurrencyQualifies 0 {} 10 40)) r := by
  rcases computeConcurrencyOrFail_follows false (fun _ => false) 0 (fun _ => "") twoWaits {} 10 40
    (show (3 : ℤ) < 2 ^ 31 by decide) 10 2 with ⟨-, hfail⟩ | ⟨r, hr, -⟩
  · simp at hfail
  · exact ⟨r, hr, bursts_greedy false (fun _ => false) 0 (fun _ => "") twoWaits {} (by decide)
      (by decide) (by decide) 10 2 (by decide) hr⟩

end PgWaitTracer
