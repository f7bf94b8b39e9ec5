import PgWaitTracer.Lib.StableSort
import PgWaitTracer.Server.Transitions

/-!
# Fingerprints

A fingerprint of a query has the number of its transitions and its top transition
(`pgwt_compute_fingerprints` in `src/compute.c`). The transitions of a query are counted by pair, in a
table of 64 rows that admits no pair after that. The total counts all of them.

## Main results

* `fingerprintsRight_iff`: the fingerprints are right exactly if this is so for each
  query.
* `fingerprints_lateFrequent`: a query with 64 transitions before its most frequent one.
-/

namespace PgWaitTracer

open StableSort

/-! ### The function -/

/-- The rows of `top_trans`. -/
def fpTopTrans : ℕ := 64

/-- `struct fp_accum`. -/
structure FpAccum where
  queryId : UInt64
  classNs : WaitClass → UInt64 := fun _ => 0
  totalNs : UInt64 := 0
  totalTransitions : ℕ := 0
  topTrans : List TransAccum := []

/-- A transition in the row of its pair. -/
def TransAccum.countOne (r : TransAccum) (_ : TraceEvent) : TransAccum :=
  { r with count := r.count + 1 }

/-- A transition is counted unless the session exits or becomes idle. -/
def countsAsTransition (mask : UInt32) (ev : TraceEvent) : Bool :=
  ev.newEvent ≠ eventExit && !isIdleEvent mask ev.newEvent

/-- A record in the row of its query. A pair that the full table does not have is not admitted. -/
def FpAccum.addRecord (mask : UInt32) (r : FpAccum) (ev : TraceEvent) : FpAccum :=
  let r := { r with
    classNs := fun c =>
      if c = waitClassIndex ev.oldEvent then r.classNs c + ev.durationNs else r.classNs c
    totalNs := r.totalNs + ev.durationNs }
  if countsAsTransition mask ev then
    { r with
      totalTransitions := r.totalTransitions + 1
      topTrans := Tally.boundedRow TransAccum.pair TransAccum.new TraceEvent.pair
        TransAccum.countOne fpTopTrans r.topTrans ev }
  else r

/-- The record is counted for a fingerprint. -/
def fingerprintTakes (mask : UInt32) (f : Filter) (ev : TraceEvent) : Bool :=
  if ev.isSample then false
  else if rightOpenFlagged ev then false
  else if !filterMatches f ev then false
  else if isIdleEvent mask ev.oldEvent then false
  else if ev.queryId = 0 then false
  else true

/-- What can be allocated: the row of one more query, and the rows of the result. -/
structure FpMemory where
  entry : ℕ → Bool
  rows : Bool

/-- The table of the queries. -/
abbrev FpTable := Tally.IndexedRows UInt64 FpAccum

/-- A record in the loop of `pgwt_compute_fingerprints`, which ends without memory for a new
query. -/
def fingerprintStep (mem : FpMemory) (mask : UInt32) (f : Filter) (t : FpTable) (ev : TraceEvent) :
    Option FpTable :=
  if !fingerprintTakes mask f ev then some t
  else if (t.ix.find? Prod.fst qidIndexHash ev.queryId).isNone && !mem.entry t.rows.length then none
  else some (Tally.indexRow qidIndexHash (fun id => { queryId := id }) TraceEvent.queryId
    (FpAccum.addRecord mask) 128 t ev)

/-- `struct pgwt_fingerprint_row`. -/
structure FingerprintRow where
  queryId : UInt64
  totalTransitions : ℕ
  topFrom : UInt32
  topTo : UInt32
  deriving DecidableEq, Repr

/-- The pair of the highest count, the first one of them, with that count. -/
def pickTop (rows : List TransAccum) : ℕ × UInt32 × UInt32 :=
  rows.foldl (fun best t => if best.1 < t.count then (t.count, t.pair) else best) (0, 0, 0)

/-- The row of a query. -/
def FpAccum.row (r : FpAccum) : FingerprintRow where
  queryId := r.queryId
  totalTransitions := r.totalTransitions
  topFrom := (pickTop r.topTrans).2.1
  topTo := (pickTop r.topTrans).2.2

/-- The key of `cmp_fp_desc`. -/
def fpKey (r : FingerprintRow) : ℤ := -r.totalTransitions

/-- `pgwt_compute_fingerprints`; without rows it has failed. -/
def computeFingerprints (mem : FpMemory) (byTransitions : Sorter fpKey) (mask : UInt32)
    (events : List TraceEvent) (f : Filter) : Option (List FingerprintRow) :=
  (events.foldlM (fingerprintStep mem mask f) {}).bind fun t =>
    if !t.rows.isEmpty && !mem.rows then none
    else some (byTransitions.sort (t.rows.map FpAccum.row))

/-! ### What the fingerprints should say -/

/-- The counted records. -/
def fingerprintRecords (mask : UInt32) (f : Filter) (events : List TraceEvent) : List TraceEvent :=
  events.filter (fingerprintTakes mask f)

/-- The pairs of the counted transitions of a query. -/
def queryPairs (mask : UInt32) (f : Filter) (events : List TraceEvent) (q : UInt64) :
    List (UInt32 × UInt32) :=
  (((fingerprintRecords mask f events).filter fun ev => ev.queryId = q).filter
    (countsAsTransition mask)).map TraceEvent.pair

/-- There is one row for each query of a counted record. It has the number of transitions of the
query, and no pair of them is more frequent than its top one. -/
structure FingerprintsRight (mask : UInt32) (f : Filter) (events : List TraceEvent)
    (rows : List FingerprintRow) : Prop where
  nodup : (rows.map FingerprintRow.queryId).Nodup
  mem_iff : ∀ q, q ∈ rows.map FingerprintRow.queryId ↔
    q ∈ (fingerprintRecords mask f events).map TraceEvent.queryId
  total : ∀ r ∈ rows, r.totalTransitions = (queryPairs mask f events r.queryId).length
  top : ∀ r ∈ rows, 0 < r.totalTransitions → ∀ p,
    (queryPairs mask f events r.queryId).count p ≤
      (queryPairs mask f events r.queryId).count (r.topFrom, r.topTo)

/-- A most frequent pair of the query is among its first 64 different ones. -/
def FrequentAdmitted (mask : UInt32) (f : Filter) (events : List TraceEvent) (q : UInt64) : Prop :=
  queryPairs mask f events q ≠ [] →
    ∃ p ∈ Tally.firstKeys fpTopTrans (queryPairs mask f events q),
      ∀ p', (queryPairs mask f events q).count p' ≤ (queryPairs mask f events q).count p

/-! ### The table of a query -/

theorem keyed_countOne : Tally.Keyed TransAccum.pair TransAccum.new TransAccum.countOne :=
  ⟨fun _ => rfl, fun _ _ => rfl⟩

theorem keyed_fingerprint (mask : UInt32) :
    Tally.Keyed FpAccum.queryId (fun id => { queryId := id }) (FpAccum.addRecord mask) := by
  refine ⟨fun _ => rfl, fun r ev => ?_⟩
  rw [FpAccum.addRecord]
  split_ifs <;> rfl

theorem foldl_countOne (l : List TraceEvent) (r : TransAccum) :
    l.foldl TransAccum.countOne r = { r with count := r.count + l.length } := by
  induction l generalizing r with
  | nil => rfl
  | cons ev l ih =>
    rw [List.foldl_cons, ih, TransAccum.countOne, List.length_cons]
    simp only [Nat.add_assoc, Nat.add_comm 1]

theorem boundedRows_countOne (l : List TraceEvent) (cap : ℕ) :
    let rows := Tally.boundedRows TransAccum.pair TransAccum.new TraceEvent.pair
      TransAccum.countOne cap l
    rows.map TransAccum.pair = Tally.firstKeys cap (l.map TraceEvent.pair) ∧
      ∀ r ∈ rows, r.count = (l.map TraceEvent.pair).count r.pair := by
  intro rows
  obtain ⟨hkeys, ht⟩ :=
    Tally.boundedRows_tallied (k := TraceEvent.pair) keyed_countOne cap l
  refine ⟨hkeys, fun r hr => ?_⟩
  have hmem : r.pair ∈ Tally.firstKeys cap (l.map TraceEvent.pair) :=
    hkeys ▸ List.mem_map_of_mem hr
  have hrow := (ht.mem_iff r).mp hr
  rw [Tally.rowOf] at hrow
  split_ifs at hrow
  have heq := Option.some.inj hrow
  rw [foldl_countOne] at heq
  have hcount : r.count = (l.filter fun ev => ev.pair = r.pair).length := by
    refine (congrArg TransAccum.count heq).symm.trans ?_
    simp only [TransAccum.new, Nat.zero_add, List.filter_filter]
    -- the elements of an admitted pair are all kept
    refine congrArg List.length (List.filter_congr fun ev _ => ?_)
    by_cases hp : ev.pair = r.pair
    · simp [hp, hmem]
    · simp [hp]
  rw [hcount, List.count_eq_countP, List.countP_map, List.countP_eq_length_filter]
  refine congrArg List.length (List.filter_congr fun ev _ => ?_)
  rw [Function.comp_apply, Bool.eq_iff_iff, decide_eq_true_eq, beq_iff_eq]

theorem foldl_addRecord_fingerprint (mask : UInt32) (l : List TraceEvent) (r : FpAccum) :
    (l.foldl (FpAccum.addRecord mask) r).totalTransitions =
        r.totalTransitions + (l.filter (countsAsTransition mask)).length ∧
      (l.foldl (FpAccum.addRecord mask) r).topTrans =
        (l.filter (countsAsTransition mask)).foldl (Tally.boundedRow TransAccum.pair TransAccum.new
          TraceEvent.pair TransAccum.countOne fpTopTrans) r.topTrans := by
  induction l generalizing r with
  | nil => exact ⟨rfl, rfl⟩
  | cons ev l ih =>
    obtain ⟨htotal, htop⟩ := ih (r.addRecord mask ev)
    rw [List.foldl_cons, htotal, htop, FpAccum.addRecord]
    by_cases hcounts : countsAsTransition mask ev
    · rw [if_pos hcounts, List.filter_cons_of_pos hcounts, List.length_cons, List.foldl_cons]
      refine ⟨?_, rfl⟩
      dsimp only
      omega
    · rw [if_neg hcounts, List.filter_cons_of_neg hcounts]
      exact ⟨rfl, rfl⟩

theorem pickTop_spec (rows : List TransAccum) :
    (∀ r ∈ rows, r.count ≤ (pickTop rows).1) ∧
      (0 < (pickTop rows).1 → ∃ r ∈ rows, r.count = (pickTop rows).1 ∧
        r.pair = (pickTop rows).2) := by
  induction rows using List.reverseRecOn with
  | nil => exact ⟨nofun, fun h => absurd h (by simp [pickTop])⟩
  | append_singleton rows r ih =>
    obtain ⟨hle, hex⟩ := ih
    have hrun : pickTop (rows ++ [r]) =
        if (pickTop rows).1 < r.count then (r.count, r.pair) else pickTop rows := by
      rw [pickTop, List.foldl_append]
      rfl
    rw [hrun]
    split_ifs with hmore
    · refine ⟨fun r' hr' => ?_, fun _ => ⟨r, by simp, rfl, rfl⟩⟩
      rcases List.mem_append.mp hr' with hr' | hr'
      · exact (hle r' hr').trans hmore.le
      · rw [List.mem_singleton.mp hr']
    · refine ⟨fun r' hr' => ?_, fun hpos => ?_⟩
      · rcases List.mem_append.mp hr' with hr' | hr'
        · exact hle r' hr'
        · rw [List.mem_singleton.mp hr']
          exact Nat.not_lt.mp hmore
      · obtain ⟨r', hr', hcount, hpair⟩ := hex hpos
        exact ⟨r', List.mem_append_left _ hr', hcount, hpair⟩

/-! ### The rows -/

theorem foldlM_fingerprintStep {mem : FpMemory} {mask : UInt32} {f : Filter} (l : List TraceEvent)
    {t t' : FpTable} (h : l.foldlM (fingerprintStep mem mask f) t = some t') :
    t' = (fingerprintRecords mask f l).foldl (Tally.indexRow qidIndexHash
      (fun id => { queryId := id }) TraceEvent.queryId (FpAccum.addRecord mask) 128) t := by
  induction l generalizing t with
  | nil => exact (Option.some.inj h).symm
  | cons ev l ih =>
    obtain ⟨t₁, ht₁, h⟩ := Option.bind_eq_some_iff.mp h
    rw [fingerprintStep] at ht₁
    rw [ih h, fingerprintRecords, fingerprintRecords, List.filter_cons]
    by_cases htakes : fingerprintTakes mask f ev
    · rw [if_neg (by simp [htakes])] at ht₁
      split_ifs at ht₁
      obtain rfl := Option.some.inj ht₁
      rw [if_pos htakes, List.foldl_cons]
    · rw [if_pos (by simp [htakes])] at ht₁
      obtain rfl := Option.some.inj ht₁
      rw [if_neg htakes]

/-- **The rows of the result.** They are in some order those of the queries of the counted records. -/
theorem computeFingerprints_rows {mem : FpMemory} {byTransitions : Sorter fpKey} {mask : UInt32}
    {events : List TraceEvent} {f : Filter} {rows : List FingerprintRow}
    (h : computeFingerprints mem byTransitions mask events f = some rows) :
    ∃ entries : List FpAccum, rows.Perm (entries.map FpAccum.row) ∧
      Tally.Tallied FpAccum.queryId (fun id => { queryId := id }) TraceEvent.queryId
        (FpAccum.addRecord mask) entries (fingerprintRecords mask f events) := by
  obtain ⟨t, ht, h⟩ := Option.bind_eq_some_iff.mp h
  split_ifs at h
  obtain rfl := Option.some.inj h
  have hrun := foldlM_fingerprintStep events ht
  refine ⟨t.rows, byTransitions.perm _, ?_⟩
  have hrows : Tally.Tallied FpAccum.queryId (fun id => { queryId := id }) TraceEvent.queryId
      (FpAccum.addRecord mask) (Tally.indexRows qidIndexHash (fun id => { queryId := id })
        TraceEvent.queryId (FpAccum.addRecord mask) 128 (fingerprintRecords mask f events)).rows
      (fingerprintRecords mask f events) :=
    Tally.indexRows_tallied (keyed_fingerprint mask) (by omega) _
  rwa [Tally.indexRows, ← hrun] at hrows

/-- The entry of a query has its transitions, and those of the admitted pairs with their counts. -/
structure FpAccum.Describes (r : FpAccum) (pairs : List (UInt32 × UInt32)) : Prop where
  total : r.totalTransitions = pairs.length
  keys : r.topTrans.map TransAccum.pair = Tally.firstKeys fpTopTrans pairs
  count : ∀ t ∈ r.topTrans, t.count = pairs.count t.pair

theorem describes_of_tallied {mask : UInt32} {events : List TraceEvent} {f : Filter}
    {entries : List FpAccum} (ht : Tally.Tallied FpAccum.queryId (fun id => { queryId := id })
      TraceEvent.queryId (FpAccum.addRecord mask) entries (fingerprintRecords mask f events))
    {r : FpAccum} (hr : r ∈ entries) : r.Describes (queryPairs mask f events r.queryId) := by
  have hrow := (ht.mem_iff r).mp hr
  rw [Tally.rowOf] at hrow
  split_ifs at hrow
  have heq := Option.some.inj hrow
  obtain ⟨htotal, htop⟩ := foldl_addRecord_fingerprint mask
    ((fingerprintRecords mask f events).filter fun ev => ev.queryId = r.queryId)
    { queryId := r.queryId }
  rw [heq] at htotal htop
  obtain ⟨hkeys, hcount⟩ := boundedRows_countOne
    (((fingerprintRecords mask f events).filter fun ev => ev.queryId = r.queryId).filter
      (countsAsTransition mask)) fpTopTrans
  refine ⟨?_, ?_, ?_⟩
  · rw [htotal, Nat.zero_add, queryPairs, List.length_map]
  · rw [htop]
    exact hkeys
  · rw [htop]
    exact hcount

/-- The top pair is a most frequent one exactly if one of these was admitted. -/
theorem FpAccum.Describes.top_iff {r : FpAccum} {pairs : List (UInt32 × UInt32)}
    (h : r.Describes pairs) (hne : pairs ≠ []) :
    (∀ p, pairs.count p ≤ pairs.count (r.row.topFrom, r.row.topTo)) ↔
      ∃ p ∈ Tally.firstKeys fpTopTrans pairs, ∀ p', pairs.count p' ≤ pairs.count p := by
  obtain ⟨hle, hex⟩ := pickTop_spec r.topTrans
  have hpos : 0 < (pickTop r.topTrans).1 := by
    -- the first pair is admitted
    obtain ⟨t, ht⟩ : ∃ t, t ∈ r.topTrans := by
      refine List.exists_mem_of_ne_nil _ fun hnil => ?_
      have hkeys := h.keys
      rw [hnil, List.map_nil] at hkeys
      obtain ⟨p, hp⟩ := List.exists_mem_of_ne_nil _ hne
      have hroom : (Tally.firstKeys fpTopTrans pairs).length < fpTopTrans := by
        rw [← hkeys]
        decide
      exact absurd (hkeys ▸ Tally.mem_firstKeys_of_room hroom p hp) List.not_mem_nil
    have hmem : t.pair ∈ pairs := Tally.mem_of_mem_firstKeys (h.keys ▸ List.mem_map_of_mem ht)
    calc 0 < pairs.count t.pair := List.count_pos_iff.mpr hmem
      _ = t.count := (h.count t ht).symm
      _ ≤ (pickTop r.topTrans).1 := hle t ht
  obtain ⟨t, ht, hcount, hpair⟩ := hex hpos
  have htop : (r.row.topFrom, r.row.topTo) = t.pair := hpair.symm
  rw [htop]
  constructor
  · exact fun hall => ⟨t.pair, h.keys ▸ List.mem_map_of_mem ht, hall⟩
  · rintro ⟨p, hp, hall⟩ p'
    rw [← h.keys] at hp
    obtain ⟨t', ht', rfl⟩ := List.mem_map.mp hp
    calc pairs.count p' ≤ pairs.count t'.pair := hall p'
      _ = t'.count := (h.count t' ht').symm
      _ ≤ t.count := hcount ▸ hle t' ht'
      _ = pairs.count t.pair := h.count t ht

/-- **Fingerprints.** The rows that `pgwt_compute_fingerprints` returns are those of the queries of the
counted records, with their numbers of transitions; and their top pairs are most frequent ones exactly
if each query has a most frequent pair among its first 64 different ones. -/
theorem fingerprintsRight_iff (mem : FpMemory) (byTransitions : Sorter fpKey) (mask : UInt32)
    (events : List TraceEvent) (f : Filter) (rows : List FingerprintRow)
    (h : computeFingerprints mem byTransitions mask events f = some rows) :
    FingerprintsRight mask f events rows ↔ ∀ q, FrequentAdmitted mask f events q := by
  obtain ⟨entries, hperm, ht⟩ := computeFingerprints_rows h
  have hids : (rows.map FingerprintRow.queryId).Perm (entries.map FpAccum.queryId) := by
    refine (hperm.map FingerprintRow.queryId).trans (List.Perm.of_eq ?_)
    rw [List.map_map]
    rfl
  have hkeys : ∀ q, q ∈ rows.map FingerprintRow.queryId ↔
      q ∈ (fingerprintRecords mask f events).map TraceEvent.queryId := fun q =>
    hids.mem_iff.trans (ht.mem_keys (keyed_fingerprint mask) q)
  have hrow : ∀ r ∈ rows, ∃ e : FpAccum, r = e.row ∧
      e.Describes (queryPairs mask f events r.queryId) := by
    intro r hr
    obtain ⟨e, he, rfl⟩ := List.mem_map.mp (hperm.mem_iff.mp hr)
    exact ⟨e, rfl, describes_of_tallied ht he⟩
  constructor
  · intro hright q hne
    have hq : q ∈ rows.map FingerprintRow.queryId := by
      rw [hkeys]
      obtain ⟨p, hp⟩ := List.exists_mem_of_ne_nil _ hne
      obtain ⟨ev, hev, -⟩ := List.mem_map.mp hp
      obtain ⟨hev, hid⟩ := List.mem_filter.mp (List.mem_filter.mp hev).1
      exact List.mem_map.mpr ⟨ev, hev, by simpa using hid⟩
    obtain ⟨r, hr, rfl⟩ := List.mem_map.mp hq
    obtain ⟨e, rfl, hdesc⟩ := hrow r hr
    refine (hdesc.top_iff hne).mp (hright.top _ hr ?_)
    rw [hright.total _ hr]
    exact List.length_pos_iff.mpr hne
  · intro hadmitted
    refine ⟨hids.nodup_iff.mpr ht.nodup, hkeys, fun r hr => ?_, fun r hr hpos => ?_⟩
    · obtain ⟨e, rfl, hdesc⟩ := hrow r hr
      exact hdesc.total
    · obtain ⟨e, rfl, hdesc⟩ := hrow r hr
      have hne : queryPairs mask f events e.row.queryId ≠ [] := by
        have hlen : e.row.totalTransitions =
          (queryPairs mask f events e.row.queryId).length := hdesc.total
        exact List.length_pos_iff.mp (hlen ▸ hpos)
      exact (hdesc.top_iff hne).mpr (hadmitted _ hne)

/-! ### A late transition -/

/-- A record of query 1. -/
def fingerprintRecord (oldEvent newEvent : UInt32) : TraceEvent :=
  ⟨1000, 7, oldEvent, newEvent, 0, 10, 1, 0⟩

/-- Two of these records, and the memory for them. -/
theorem fingerprintsRight_twoRecords :
    ∃ rows, computeFingerprints ⟨fun _ => true, true⟩ (insertionSorter fpKey) 0
        [fingerprintRecord 0x03000001 0x03000002, fingerprintRecord 0x03000002 0x03000001] {} =
          some rows ∧
      (FingerprintsRight 0 {}
          [fingerprintRecord 0x03000001 0x03000002, fingerprintRecord 0x03000002 0x03000001] rows ↔
        ∀ q, FrequentAdmitted 0 {}
          [fingerprintRecord 0x03000001 0x03000002, fingerprintRecord 0x03000002 0x03000001] q) := by
  have hrows : computeFingerprints ⟨fun _ => true, true⟩ (insertionSorter fpKey) 0
      [fingerprintRecord 0x03000001 0x03000002, fingerprintRecord 0x03000002 0x03000001] {} =
        some [⟨1, 2, 0x03000001, 0x03000002⟩] := by
    decide +kernel
  exact ⟨_, hrows, fingerprintsRight_iff _ _ _ _ _ _ hrows⟩

/-- 64 different transitions, and another one that comes twice. -/
def lateFrequent : List TraceEvent :=
  (List.range 64).map (fun i => fingerprintRecord 0x03000001 (0x03000100 + UInt32.ofNat i)) ++
    [fingerprintRecord 0x03000002 0x03000003, fingerprintRecord 0x03000002 0x03000003]

/-- The transition that comes twice is not the top one. -/
theorem fingerprints_lateFrequent :
    computeFingerprints ⟨fun _ => true, true⟩ (insertionSorter fpKey) 0 lateFrequent {} =
        some [⟨1, 66, 0x03000001, 0x03000100⟩] ∧
      ¬FingerprintsRight 0 {} lateFrequent [⟨1, 66, 0x03000001, 0x03000100⟩] := by
  refine ⟨by decide +kernel, fun hright => ?_⟩
  have htop := hright.top _ (List.mem_singleton_self _) (by decide) (0x03000002, 0x03000003)
  have htwo : (queryPairs 0 {} lateFrequent 1).count (0x03000002, 0x03000003) = 2 := by
    decide +kernel
  have hone : (queryPairs 0 {} lateFrequent 1).count (0x03000001, 0x03000100) = 1 := by
    decide +kernel
  rw [htwo, hone] at htop
  exact absurd htop (by decide)

end PgWaitTracer
