import Mathlib.Data.List.Sigma
import PgWaitTracer.Compute.Executions

/-!
# Downsampling a scatter of executions

A scatter of more executions than it may have points is downsampled (`scatter_downsample` in
`src/server.c`). The window is cut into equal time buckets, the longest execution of each is reserved,
and the other points are drawn from the rest by a reservoir whose random numbers are a hash of the rows.

## Main results

* `bucketIndex_eq_iff`: the bucket that is computed is the one the execution starts in.
* `scatterDownsample_keeps`: the points are executions at different positions, as many as
  the limit says, with a longest one of each bucket among them.
-/

namespace PgWaitTracer

/-! ### The function -/

/-- `scatter_rand`. -/
def scatterRand (x : UInt64) : UInt64 :=
  let x := x + 0x9e3779b97f4a7c15
  let x := (x ^^^ (x >>> 30)) * 0xbf58476d1ce4e5b9
  let x := (x ^^^ (x >>> 27)) * 0x94d049bb133111eb
  x ^^^ (x >>> 31)

/-- `execution_duration_ns`. -/
def executionDurationNs (row : Execution) : UInt64 :=
  if row.inProgress then 0 else UInt64.ofNat row.endNs - UInt64.ofNat row.startNs

/-- The number of buckets. -/
def scatterBuckets (maxPoints count : ℕ) : ℕ :=
  min (if 4 ≤ maxPoints then maxPoints / 4 else 1) count

/-- The length of the window. -/
def scatterRange (fromNs toNs : ℕ) : ℕ := if fromNs < toNs then toNs - fromNs else 1

/-- The cast of a wide number to `int`. -/
def castInt (n : ℕ) : ℤ := Int.bmod n (2 ^ 32)

/-- The bucket of an execution: a 128-bit quotient as an `int`, which is at most the last bucket. -/
def bucketIndex (nb fromNs toNs : ℕ) (row : Execution) : ℤ :=
  let b := castInt ((row.startNs - fromNs) * nb / scatterRange fromNs toNs)
  if (nb : ℤ) ≤ b then nb - 1 else b

/-- A row and its position. -/
abbrev ScatterEntry := Execution × ℕ

/-- A row in pass one: it is the longest of its bucket so far, or not. -/
def bucketMaxStep (nb fromNs toNs : ℕ) (best : List (Option ScatterEntry)) (e : ScatterEntry) :
    List (Option ScatterEntry) :=
  let b := (bucketIndex nb fromNs toNs e.1).toNat
  match (best[b]?).join with
  | none => best.set b (some e)
  | some old =>
    if executionDurationNs old.1 < executionDurationNs e.1 then best.set b (some e) else best

/-- `bucket_max` after pass one. -/
def bucketMax (nb fromNs toNs : ℕ) (entries : List ScatterEntry) : List (Option ScatterEntry) :=
  entries.foldl (bucketMaxStep nb fromNs toNs) (List.replicate nb none)

/-- The rows that are not reserved, and the reservoir. -/
structure Reservoir where
  seen : UInt64 := 0
  picks : List ScatterEntry := []

/-- A row in pass two. -/
def reservoirStep (reserved : List ScatterEntry) (cap : ℕ) (s : Reservoir) (e : ScatterEntry) :
    Reservoir :=
  if cap = 0 ∨ e ∈ reserved then s
  else
    let seen := s.seen + 1
    if s.picks.length < cap then { seen := seen, picks := s.picks ++ [e] }
    else
      let rnd := scatterRand (UInt64.ofNat e.1.startNs ^^^ (e.1.pid.toUInt64 <<< 32) ^^^ seen)
      let replace := rnd % seen
      { seen := seen
        picks := if replace.toNat < cap then s.picks.set replace.toNat e else s.picks }

/-- The rows that are kept, the reserved ones first. -/
def scatterEntries (rows : List Execution) (maxPoints fromNs toNs : ℕ) : List ScatterEntry :=
  let reserved := (bucketMax (scatterBuckets maxPoints rows.length) fromNs toNs
    rows.zipIdx).filterMap id
  reserved ++ (rows.zipIdx.foldl (reservoirStep reserved (maxPoints - reserved.length)) {}).picks

/-- `scatter_downsample`, with what can be allocated: `bucket_max`, and the other arrays. -/
def scatterDownsample (maxAlloc arrays : Bool) (rows : List Execution) (maxPoints fromNs toNs : ℕ) :
    Option (List Execution) :=
  if !maxAlloc || !arrays then none
  else some ((scatterEntries rows maxPoints fromNs toNs).map Prod.fst)

/-! ### Buckets -/

/-- The execution starts in the `k`-th of `nb` equal parts of the window, where what starts before the
window counts as its start. -/
def InBucket (nb fromNs toNs k : ℕ) (row : Execution) : Prop :=
  k * (toNs - fromNs) ≤ (row.startNs - fromNs) * nb ∧
    (row.startNs - fromNs) * nb < (k + 1) * (toNs - fromNs)

variable {done : List ScatterEntry} {e : ScatterEntry}

section Buckets

variable {nb fromNs toNs : ℕ}

theorem castInt_of_lt {n : ℕ} (h : n < 2 ^ 31) : castInt n = n := by
  apply Int.bmod_eq_of_le <;> omega

/-- **The bucket of an execution.** -/
theorem bucketIndex_eq_iff {row : Execution} (hnb : nb < 2 ^ 31) (hwindow : fromNs < toNs)
    (hpos : 0 < nb) (hrow : row.startNs < toNs) :
    (0 ≤ bucketIndex nb fromNs toNs row ∧ bucketIndex nb fromNs toNs row < nb) ∧
      ∀ k : ℕ, (bucketIndex nb fromNs toNs row).toNat = k ↔ InBucket nb fromNs toNs k row := by
  have hrange : 0 < toNs - fromNs := by omega
  have hrel : row.startNs - fromNs < toNs - fromNs := by omega
  have hlt : (row.startNs - fromNs) * nb / (toNs - fromNs) < nb := by
    rw [Nat.div_lt_iff_lt_mul hrange, Nat.mul_comm nb]
    exact Nat.mul_lt_mul_of_pos_right hrel hpos
  have hindex : bucketIndex nb fromNs toNs row =
      ((row.startNs - fromNs) * nb / (toNs - fromNs) : ℕ) := by
    have hmod := castInt_of_lt (hlt.trans hnb)
    have hless : ¬(nb : ℤ) ≤ ((row.startNs - fromNs) * nb / (toNs - fromNs) : ℕ) := by
      rw [Int.ofNat_le]
      exact Nat.not_le.mpr hlt
    simp only [bucketIndex, scatterRange, if_pos hwindow, hmod, if_neg hless]
  rw [hindex]
  refine ⟨⟨Int.natCast_nonneg _, by exact_mod_cast hlt⟩, fun k => ?_⟩
  rw [Int.toNat_natCast, Nat.div_eq_iff hrange, InBucket, Nat.succ_mul]
  omega

/-- The bucket as a position of `bucket_max`. -/
abbrev bucketOf (nb fromNs toNs : ℕ) (e : ScatterEntry) : ℕ := (bucketIndex nb fromNs toNs e.1).toNat

/-- After some rows, `bucket_max` has a longest one of each bucket. -/
structure BucketsMax (nb fromNs toNs : ℕ) (done : List ScatterEntry)
    (best : List (Option ScatterEntry)) : Prop where
  length_eq : best.length = nb
  empty : ∀ b : ℕ, best[b]? = some none → ∀ e ∈ done, bucketOf nb fromNs toNs e ≠ b
  longest : ∀ (b : ℕ) e, best[b]? = some (some e) → e ∈ done ∧ bucketOf nb fromNs toNs e = b ∧
    ∀ e' ∈ done, bucketOf nb fromNs toNs e' = b →
      (executionDurationNs e'.1).toNat ≤ (executionDurationNs e.1).toNat

variable {best : List (Option ScatterEntry)}

theorem BucketsMax.set (h : BucketsMax nb fromNs toNs done best)
    (hmax : ∀ e' ∈ done, bucketOf nb fromNs toNs e' = bucketOf nb fromNs toNs e →
      (executionDurationNs e'.1).toNat ≤ (executionDurationNs e.1).toNat) :
    BucketsMax nb fromNs toNs (done ++ [e]) (best.set (bucketOf nb fromNs toNs e) (some e)) := by
  refine ⟨by rw [List.length_set, h.length_eq], fun b hb e' he' => ?_, fun b e' hb => ?_⟩
  · rw [List.getElem?_set] at hb
    split_ifs at hb with hbucket
    · exact nomatch hb
    · rcases List.mem_append.mp he' with he' | he'
      · exact h.empty b hb e' he'
      · rw [List.mem_singleton.mp he']
        exact hbucket
  · rw [List.getElem?_set] at hb
    split_ifs at hb with hbucket
    · obtain rfl := Option.some.inj (Option.some.inj hb)
      refine ⟨by simp, hbucket, fun e' he' hb' => ?_⟩
      rcases List.mem_append.mp he' with he' | he'
      · exact hmax e' he' (hb'.trans hbucket.symm)
      · rw [List.mem_singleton.mp he']
    · obtain ⟨hmem, hb', hall⟩ := h.longest b e' hb
      refine ⟨List.mem_append_left _ hmem, hb', fun e'' he'' hb'' => ?_⟩
      rcases List.mem_append.mp he'' with he'' | he''
      · exact hall e'' he'' hb''
      · rw [List.mem_singleton.mp he''] at hb''
        exact absurd hb'' hbucket

theorem BucketsMax.keep (h : BucketsMax nb fromNs toNs done best) {old : ScatterEntry}
    (hold : best[bucketOf nb fromNs toNs e]? = some (some old))
    (hle : (executionDurationNs e.1).toNat ≤ (executionDurationNs old.1).toNat) :
    BucketsMax nb fromNs toNs (done ++ [e]) best := by
  refine ⟨h.length_eq, fun b hb e' he' => ?_, fun b e' hb => ?_⟩
  · rcases List.mem_append.mp he' with he' | he'
    · exact h.empty b hb e' he'
    · rw [List.mem_singleton.mp he']
      rintro rfl
      rw [hold] at hb
      exact nomatch hb
  · obtain ⟨hmem, hb', hall⟩ := h.longest b e' hb
    refine ⟨List.mem_append_left _ hmem, hb', fun e'' he'' hb'' => ?_⟩
    rcases List.mem_append.mp he'' with he'' | he''
    · exact hall e'' he'' hb''
    · rw [List.mem_singleton.mp he''] at hb'' ⊢
      subst hb''
      rw [hold] at hb
      obtain rfl := Option.some.inj (Option.some.inj hb)
      exact hle

theorem bucketsMax_replicate : BucketsMax nb fromNs toNs [] (List.replicate nb none) := by
  refine ⟨List.length_replicate, fun _ _ e he => absurd he List.not_mem_nil, fun b e hb => ?_⟩
  exact nomatch List.eq_of_mem_replicate (List.mem_of_getElem? hb)

/-- **Pass one.** -/
theorem bucketsMax_bucketMax {entries : List ScatterEntry}
    (hb : ∀ e ∈ entries, bucketOf nb fromNs toNs e < nb) :
    BucketsMax nb fromNs toNs entries (bucketMax nb fromNs toNs entries) := by
  induction entries using List.reverseRecOn with
  | nil => exact bucketsMax_replicate
  | append_singleton done e ih =>
    have h := ih fun e' he' => hb e' (List.mem_append_left _ he')
    have hlt : bucketOf nb fromNs toNs e < (bucketMax nb fromNs toNs done).length := by
      rw [h.length_eq]
      exact hb e (by simp)
    have hget := List.getElem?_eq_getElem hlt
    rw [bucketMax, List.foldl_append, List.foldl_cons, List.foldl_nil, ← bucketMax, bucketMaxStep]
    rcases hbest : (bucketMax nb fromNs toNs done)[bucketOf nb fromNs toNs e] with _ | old
    · rw [hbest] at hget
      simp only [hget, Option.join_some]
      exact h.set fun e' he' hsame => absurd hsame (h.empty _ hget e' he')
    · rw [hbest] at hget
      simp only [hget, Option.join_some]
      split_ifs with hlonger
      · refine h.set fun e' he' hsame => ?_
        exact ((h.longest _ old hget).2.2 e' he' hsame).trans (UInt64.lt_iff_toNat_lt.mp hlonger).le
      · exact h.keep hget (Nat.not_lt.mp fun hlt => hlonger (UInt64.lt_iff_toNat_lt.mpr hlt))

theorem BucketsMax.nodup (h : BucketsMax nb fromNs toNs done best) : (best.filterMap id).Nodup := by
  rw [List.Nodup, List.pairwise_filterMap, List.pairwise_iff_getElem]
  intro i j hi hj hij e he e' he' heq
  have hi' : best[i]? = some (some e) := by
    rw [List.getElem?_eq_getElem hi]
    exact congrArg some he
  have hj' : best[j]? = some (some e') := by
    rw [List.getElem?_eq_getElem hj]
    exact congrArg some he'
  have hbi := (h.longest i e hi').2.1
  have hbj := (h.longest j e' hj').2.1
  rw [heq] at hbi
  omega

theorem mem_reserved : e ∈ best.filterMap id ↔ ∃ b : ℕ, best[b]? = some (some e) := by
  rw [List.mem_filterMap]
  constructor
  · rintro ⟨_, hmem, rfl⟩
    exact List.mem_iff_getElem?.mp hmem
  · rintro ⟨b, hb⟩
    exact ⟨_, List.mem_of_getElem? hb, rfl⟩

end Buckets

/-! ### The reservoir -/

/-- After some rows, the reservoir has different ones of those that are not reserved, as many as there
is room for. -/
structure Reservoir.Fills (reserved : List ScatterEntry) (cap : ℕ) (done : List ScatterEntry)
    (s : Reservoir) : Prop where
  nodup : s.picks.Nodup
  mem : ∀ e ∈ s.picks, e ∈ done ∧ e ∉ reserved
  length_eq : s.picks.length = min cap (done.filter (· ∉ reserved)).length

theorem Reservoir.Fills.step {reserved : List ScatterEntry} {cap : ℕ} {s : Reservoir}
    (h : s.Fills reserved cap done) (hnew : e ∉ done) :
    (reservoirStep reserved cap s e).Fills reserved cap (done ++ [e]) := by
  have hmem : ∀ e' ∈ s.picks, e' ∈ done ++ [e] ∧ e' ∉ reserved := fun e' he' =>
    ⟨List.mem_append_left _ (h.mem e' he').1, (h.mem e' he').2⟩
  have hfresh : e ∉ s.picks := fun he => hnew (h.mem e he).1
  have hlen := h.length_eq
  rw [reservoirStep]
  by_cases hres : e ∈ reserved
  · rw [if_pos (Or.inr hres)]
    refine ⟨h.nodup, hmem, ?_⟩
    rw [List.filter_append, List.filter_cons_of_neg (by simpa using hres), List.filter_nil,
      List.append_nil, hlen]
  have hcount : ((done ++ [e]).filter (· ∉ reserved)).length =
      (done.filter (· ∉ reserved)).length + 1 := by
    rw [List.filter_append, List.filter_cons_of_pos (by simpa using hres), List.filter_nil,
      List.length_append, List.length_singleton]
  by_cases hcap : cap = 0
  · rw [if_pos (Or.inl hcap)]
    exact ⟨h.nodup, hmem, by rw [hlen, hcap, Nat.zero_min, Nat.zero_min]⟩
  rw [if_neg (by tauto)]
  dsimp only
  split_ifs with hroom hreplace
  · refine ⟨?_, fun e' he' => ?_, ?_⟩
    · exact List.nodup_append.mpr ⟨h.nodup, List.nodup_singleton _, fun a ha b hb heq =>
        hfresh (List.mem_singleton.mp hb ▸ heq ▸ ha)⟩
    · rcases List.mem_append.mp he' with he' | he'
      · exact hmem e' he'
      · rw [List.mem_singleton.mp he']
        exact ⟨by simp, hres⟩
    · rw [hcount, List.length_append, List.length_singleton]
      omega
  · refine ⟨?_, fun e' he' => ?_, ?_⟩
    · exact h.nodup.set hfresh
    · rcases List.mem_or_eq_of_mem_set he' with he' | rfl
      · exact hmem e' he'
      · exact ⟨by simp, hres⟩
    · rw [List.length_set, hcount]
      omega
  · refine ⟨h.nodup, hmem, ?_⟩
    show s.picks.length = _
    rw [hcount]
    omega

/-- **Pass two.** -/
theorem Reservoir.fills_foldl (reserved : List ScatterEntry) (cap : ℕ) {entries : List ScatterEntry}
    (hnodup : entries.Nodup) :
    (entries.foldl (reservoirStep reserved cap) {}).Fills reserved cap entries := by
  induction entries using List.reverseRecOn with
  | nil => exact ⟨List.nodup_nil, fun _ he => absurd he List.not_mem_nil, (Nat.min_zero _).symm⟩
  | append_singleton done e ih =>
    obtain ⟨hdone, -, hdisj⟩ := List.nodup_append.mp hnodup
    rw [List.foldl_append]
    exact (ih hdone).step fun he => hdisj e he e (List.mem_singleton_self _) rfl

/-! ### What is kept -/

section Kept

variable {rows : List Execution} {maxPoints fromNs toNs : ℕ}

/-- What is known of a request for a scatter: it has a window, a limit, and more rows than that, all of
which start before the end of the window. The number of rows is an `int`. -/
structure ScatterInput (rows : List Execution) (maxPoints fromNs toNs : ℕ) : Prop where
  window : fromNs < toNs
  one_le : 1 ≤ maxPoints
  more : maxPoints < rows.length
  count_lt : rows.length < 2 ^ 31
  before : ∀ row ∈ rows, row.startNs < toNs

theorem ScatterInput.buckets (h : ScatterInput rows maxPoints fromNs toNs) :
    0 < scatterBuckets maxPoints rows.length ∧ scatterBuckets maxPoints rows.length ≤ maxPoints ∧
      scatterBuckets maxPoints rows.length < 2 ^ 31 := by
  have hone := h.one_le
  have hmore := h.more
  have hlt := h.count_lt
  rw [scatterBuckets]
  split_ifs <;> omega

theorem ScatterInput.bucketOf_lt (h : ScatterInput rows maxPoints fromNs toNs)
    (he : e ∈ rows.zipIdx) : bucketOf (scatterBuckets maxPoints rows.length) fromNs toNs e <
      scatterBuckets maxPoints rows.length := by
  obtain ⟨hpos, -, hlt⟩ := h.buckets
  obtain ⟨⟨-, hindex⟩, -⟩ := bucketIndex_eq_iff hlt h.window hpos
    (h.before e.1 (List.fst_mem_of_mem_zipIdx he))
  rw [bucketOf]
  omega

/-- **The rows that are kept.** They are different ones, as many as the limit. -/
theorem scatterEntries_spec (h : ScatterInput rows maxPoints fromNs toNs) :
    (scatterEntries rows maxPoints fromNs toNs).Nodup ∧
      (∀ e ∈ scatterEntries rows maxPoints fromNs toNs, e ∈ rows.zipIdx) ∧
      (scatterEntries rows maxPoints fromNs toNs).length = maxPoints := by
  have hmax := bucketsMax_bucketMax fun e he => h.bucketOf_lt he
  have hdistinct := hmax.nodup
  have hreserved : ∀ e ∈ (bucketMax (scatterBuckets maxPoints rows.length) fromNs toNs
      rows.zipIdx).filterMap id, e ∈ rows.zipIdx := by
    intro e he
    obtain ⟨b, hb⟩ := mem_reserved.mp he
    exact (hmax.longest b e hb).1
  have hfew : ((bucketMax (scatterBuckets maxPoints rows.length) fromNs toNs
      rows.zipIdx).filterMap id).length ≤ maxPoints :=
    (List.length_filterMap_le _ _).trans (hmax.length_eq.le.trans h.buckets.2.1)
  rw [scatterEntries]
  generalize (bucketMax (scatterBuckets maxPoints rows.length) fromNs toNs rows.zipIdx).filterMap id =
    reserved at hdistinct hreserved hfew
  have hfills := Reservoir.fills_foldl reserved (maxPoints - reserved.length)
    (List.nodup_zipIdx_map_snd rows).of_map
  refine ⟨?_, fun e he => ?_, ?_⟩
  · exact List.nodup_append.mpr ⟨hdistinct, hfills.nodup, fun a ha b hb heq =>
      (hfills.mem b hb).2 (heq ▸ ha)⟩
  · exact (List.mem_append.mp he).elim (hreserved e) fun he => (hfills.mem e he).1
  · -- enough rows are left for the reservoir
    have hin : (rows.zipIdx.filter (· ∈ reserved)).length ≤ reserved.length := by
      refine ((List.nodup_zipIdx_map_snd rows).of_map.filter _).subperm ?_ |>.length_le
      intro e he
      simpa using (List.mem_filter.mp he).2
    have hsplit : rows.zipIdx.length = (rows.zipIdx.filter (· ∈ reserved)).length +
        (rows.zipIdx.filter (· ∉ reserved)).length := by
      have hadd := List.length_eq_length_filter_add (l := rows.zipIdx) fun e => decide (e ∈ reserved)
      simpa only [decide_not] using hadd
    rw [List.length_zipIdx] at hsplit
    have hmore := h.more
    rw [List.length_append, hfills.length_eq]
    omega

/-- A longest row of each bucket is kept. -/
theorem exists_longest (h : ScatterInput rows maxPoints fromNs toNs) {k : ℕ} {row : Execution}
    (hrow : row ∈ rows)
    (hbucket : InBucket (scatterBuckets maxPoints rows.length) fromNs toNs k row) :
    ∃ e ∈ scatterEntries rows maxPoints fromNs toNs,
      InBucket (scatterBuckets maxPoints rows.length) fromNs toNs k e.1 ∧
        ∀ row' ∈ rows, InBucket (scatterBuckets maxPoints rows.length) fromNs toNs k row' →
          executionDurationNs row' ≤ executionDurationNs e.1 := by
  obtain ⟨hpos, -, hlt⟩ := h.buckets
  have hmax := bucketsMax_bucketMax fun e he => h.bucketOf_lt he
  have hiff : ∀ row' ∈ rows, (bucketIndex (scatterBuckets maxPoints rows.length) fromNs toNs
      row').toNat = k ↔ InBucket (scatterBuckets maxPoints rows.length) fromNs toNs k row' :=
    fun row' hrow' => (bucketIndex_eq_iff hlt h.window hpos (h.before row' hrow')).2 k
  have hentry : ∀ row' ∈ rows, ∃ e ∈ rows.zipIdx, e.1 = row' := by
    intro row' hrow'
    obtain ⟨i, hi⟩ := List.mem_iff_getElem?.mp hrow'
    exact ⟨(row', i), List.mem_zipIdx_iff_getElem?.mpr hi, rfl⟩
  obtain ⟨e₀, he₀, rfl⟩ := hentry row hrow
  have hk := (hiff _ hrow).mpr hbucket
  have hlen : k < (bucketMax (scatterBuckets maxPoints rows.length) fromNs toNs
      rows.zipIdx).length := by
    rw [hmax.length_eq, ← hk]
    exact h.bucketOf_lt he₀
  have hget := List.getElem?_eq_getElem hlen
  rcases hbest : (bucketMax (scatterBuckets maxPoints rows.length) fromNs toNs rows.zipIdx)[k]
    with _ | e
  · rw [hbest] at hget
    exact absurd hk (hmax.empty k hget e₀ he₀)
  · rw [hbest] at hget
    obtain ⟨hmem, hek, hall⟩ := hmax.longest k e hget
    refine ⟨e, List.mem_append_left _ (mem_reserved.mpr ⟨k, hget⟩),
      (hiff e.1 (List.fst_mem_of_mem_zipIdx hmem)).mp hek, fun row' hrow' hbucket' => ?_⟩
    obtain ⟨e', he', rfl⟩ := hentry row' hrow'
    exact UInt64.le_iff_toNat_le.mpr (hall e' he' ((hiff _ hrow').mpr hbucket'))

/-- **The downsampled scatter.** It fails only for want of memory. It has as many points as the limit
says, at different positions of the input, with a longest execution of each bucket that has one, where
the computed buckets are those of the window. -/
theorem scatterDownsample_keeps (maxAlloc arrays : Bool) (rows : List Execution)
    (maxPoints fromNs toNs : ℕ) (h : ScatterInput rows maxPoints fromNs toNs) :
    let nb := scatterBuckets maxPoints rows.length
    (∀ row ∈ rows, 0 ≤ bucketIndex nb fromNs toNs row ∧ bucketIndex nb fromNs toNs row < nb) ∧
      (scatterDownsample maxAlloc arrays rows maxPoints fromNs toNs = none ↔
        maxAlloc = false ∨ arrays = false) ∧
      ∀ points, scatterDownsample maxAlloc arrays rows maxPoints fromNs toNs = some points →
        points.length = maxPoints ∧ ∃ idx : List ℕ, idx.Nodup ∧
          points.map some = idx.map (fun i => rows[i]?) ∧
          ∀ k, ∀ row ∈ rows, InBucket nb fromNs toNs k row →
            ∃ i ∈ idx, ∃ longest, rows[i]? = some longest ∧ InBucket nb fromNs toNs k longest ∧
              ∀ row' ∈ rows, InBucket nb fromNs toNs k row' →
                executionDurationNs row' ≤ executionDurationNs longest := by
  intro nb
  obtain ⟨hpos, -, hlt⟩ := h.buckets
  refine ⟨fun row hrow => (bucketIndex_eq_iff hlt h.window hpos (h.before row hrow)).1, ?_,
    fun points hpoints => ?_⟩
  · rw [scatterDownsample]
    cases maxAlloc <;> cases arrays <;> simp
  · rw [scatterDownsample] at hpoints
    split_ifs at hpoints
    obtain rfl := Option.some.inj hpoints
    obtain ⟨hnodup, hmem, hlen⟩ := scatterEntries_spec h
    have hget : ∀ e ∈ scatterEntries rows maxPoints fromNs toNs, rows[e.2]? = some e.1 :=
      fun e he => List.mem_zipIdx_iff_getElem?.mp (hmem e he)
    refine ⟨by rw [List.length_map, hlen],
      (scatterEntries rows maxPoints fromNs toNs).map Prod.snd, ?_, ?_, fun k row hrow hbucket => ?_⟩
    · refine List.Nodup.map_on (fun e he e' he' heq => ?_) hnodup
      have hsame := hget e he
      rw [heq, hget e' he'] at hsame
      exact Prod.ext (Option.some.inj hsame).symm heq
    · rw [List.map_map, List.map_map]
      exact List.map_congr_left fun e he => (hget e he).symm
    · obtain ⟨e, he, hin, hall⟩ := exists_longest h hrow hbucket
      exact ⟨e.2, List.mem_map_of_mem he, e.1, hget e he, hin, hall⟩

end Kept

/-- Three executions, one of them before the window and one in progress. -/
def threeExecutions : List Execution :=
  [⟨7, 1, 5, 30, 0, 0, false, false, false, true, 1, 0, 0⟩,
    ⟨7, 1, 40, 90, 0, 0, false, false, false, false, 1, 0, 0⟩,
    ⟨8, 2, 60, 0, 0, 0, false, true, false, false, 1, 0, 0⟩]

/-- Two of them are kept. -/
theorem scatterDownsample_threeExecutions : ∃ points,
    scatterDownsample true true threeExecutions 2 10 100 = some points ∧ points.length = 2 := by
  have hinput : ScatterInput threeExecutions 2 10 100 :=
    ⟨by decide, by decide, by decide, by decide, by decide⟩
  obtain ⟨-, hnone, hsome⟩ := scatterDownsample_keeps true true threeExecutions 2 10 100 hinput
  obtain ⟨points, hpoints⟩ := Option.ne_none_iff_exists'.mp fun hfail =>
    (hnone.mp hfail).elim nofun nofun
  exact ⟨points, hpoints, (hsome points hpoints).1⟩

end PgWaitTracer
