import PgWaitTracer.Trace.BlockCodec

/-!
# Decoding into a short buffer

A block is stored column by column, without lengths. `pgwt_reader_decode_block_info`
(`src/event_reader.c`) clamps its record count to the caller's buffer and then reads that many
entries of every column, one column right behind the other. In a block with more records the columns
of the whole block do not follow the first timestamps: the timestamps of the other records do.

So a short decode is a prefix of the full one only if the bytes that happen to lie there are no
columns at all, or spell the columns of the first records.

## Main results

* `shortDecode_prefix_iff` : exactly when a short decode is a prefix.
-/

namespace PgWaitTracer

open ByteCodec

/-! ### Columns read from arbitrary bytes -/

/-- The running sums of the timestamp differences. -/
def timestampsFrom (prev : UInt64) : List UInt64 → List UInt64
  | [] => []
  | d :: ds => (prev + d) :: timestampsFrom (prev + d) ds

theorem take_timestampsFrom : (prev : UInt64) → (ds : List UInt64) → (m : ℕ) →
    (timestampsFrom prev ds).take m = timestampsFrom prev (ds.take m)
  | _, _, 0 => by simp [timestampsFrom]
  | _, [], _ + 1 => rfl
  | prev, d :: ds, m + 1 => by
    rw [timestampsFrom, List.take_succ_cons, take_timestampsFrom, List.take_succ_cons,
      timestampsFrom]

theorem decodeTimestamps_eq : (prev : UInt64) → (n : ℕ) → (bs : Bytes) →
    decodeTimestamps prev n bs =
      (readMany decodeVarint n bs).map fun r => (timestampsFrom prev r.1, r.2)
  | _, 0, _ => rfl
  | prev, n + 1, bs => by
    rw [decodeTimestamps, readMany]
    cases decodeVarint bs with
    | none => rfl
    | some r =>
      simp only [Option.bind_eq_bind, Option.bind_some, decodeTimestamps_eq _ n]
      cases readMany decodeVarint n r.2 <;> rfl

theorem length_decodeVarintLoop_le : (bs : Bytes) → (result : UInt64) → (shift : ℕ) →
    {rest : Bytes} → {v : UInt64} → decodeVarintLoop result shift bs = some (v, rest) →
      rest.length ≤ bs.length
  | [], _, _, _, _, h => nomatch h
  | b :: bs, result, shift, rest, v, h => by
    rw [decodeVarintLoop] at h
    rw [List.length_cons]
    split_ifs at h
    · obtain ⟨-, rfl⟩ := Prod.ext_iff.1 (Option.some.inj h)
      exact Nat.le_succ _
    · exact (length_decodeVarintLoop_le bs _ _ h).trans (Nat.le_succ _)

variable {bs payload rest : Bytes} {evs full : List TraceEvent} {version : UInt16} {m n : ℕ}

theorem length_decodeVarint_le {v : UInt64} (h : decodeVarint bs = some (v, rest)) :
    rest.length ≤ bs.length :=
  length_decodeVarintLoop_le bs 0 0 h

theorem fixedWidth_u32 : FixedWidth decodeU32 4 := fixedWidth_word 4 UInt32.ofNat

theorem fixedWidth_u64 : FixedWidth decodeU64 8 := fixedWidth_word 8 UInt64.ofNat

theorem eq_append_of_decodeU32 {a : UInt32} (h : decodeU32 bs = some (a, rest)) :
    bs = encodeU32 a ++ rest :=
  eq_append_of_readWord UInt32.toNat (fun _ hn => Nat.mod_eq_of_lt hn) h

theorem eq_append_of_decodeU64 {a : UInt64} (h : decodeU64 bs = some (a, rest)) :
    bs = encodeU64 a ++ rest :=
  eq_append_of_readWord UInt64.toNat (fun _ hn => Nat.mod_eq_of_lt hn) h

theorem readMany_u32_iff (field : TraceEvent → UInt32) (evs : List TraceEvent) :
    readMany decodeU32 evs.length bs = some (evs.map field, rest) ↔
      bs = evs.flatMap (fun ev => encodeU32 (field ev)) ++ rest := by
  constructor
  · intro h
    rw [eq_append_of_readMany eq_append_of_decodeU32 _ h, List.flatMap_map]
  · rintro rfl
    exact readMany_column inverts_u32 field evs rest

theorem readMany_u64_iff (field : TraceEvent → UInt64) (evs : List TraceEvent) :
    readMany decodeU64 evs.length bs = some (evs.map field, rest) ↔
      bs = evs.flatMap (fun ev => encodeU64 (field ev)) ++ rest := by
  constructor
  · intro h
    rw [eq_append_of_readMany eq_append_of_decodeU64 _ h, List.flatMap_map]
  · rintro rfl
    exact readMany_column inverts_u64 field evs rest

/-! ### What lies behind the first timestamps -/

/-- The bytes of a payload behind its first `m` timestamps. -/
def behindTimestamps (m : ℕ) (payload : Bytes) : Option Bytes :=
  (readMany decodeVarint m payload).map Prod.snd

/-- Behind the three columns of 32-bit entries there are not `m` varints, `m` query ids and, from
version 3 on, `m` varints. -/
def NoColumns (version : UInt16) (m : ℕ) (bs : Bytes) : Prop :=
  ∀ r, readMany decodeVarint m (bs.drop (12 * m)) = some r →
    r.2.length < 8 * m ∨ 3 ≤ version ∧ readMany decodeVarint m (r.2.drop (8 * m)) = none

/-- The bytes start with the columns of the records behind the timestamps of a transitions block. -/
def SpellsTransitions (version : UInt16) (evs : List TraceEvent) (bs : Bytes) : Prop :=
  ∃ b₁ b₂ b₃, bs = evs.flatMap (fun ev => encodeU32 ev.pid) ++
      (evs.flatMap (fun ev => encodeU32 ev.oldEvent) ++
        (evs.flatMap (fun ev => encodeU32 ev.newEvent) ++ b₁)) ∧
    readMany decodeVarint evs.length b₁ = some (evs.map (·.durationNs), b₂) ∧
    b₂ = evs.flatMap (fun ev => encodeU64 ev.queryId) ++ b₃ ∧
    (3 ≤ version → ∃ b₄, readMany decodeVarint evs.length b₃ = some (evs.map (·.cpuNs), b₄))

/-- The bytes start with the columns of the records behind the timestamps of a samples block. -/
def SpellsSamples (evs : List TraceEvent) (bs : Bytes) : Prop :=
  ∃ rest, bs = evs.flatMap (fun ev => encodeU32 ev.pid) ++
    (evs.flatMap (fun ev => encodeU32 ev.newEvent) ++
      (evs.flatMap (fun ev => encodeU64 ev.queryId) ++ rest))

/-- The bytes behind the first timestamps are no columns, or spell those of the records. -/
def ShortDecodeFits (blockType version : UInt16) (first : List TraceEvent) (bs : Bytes) : Prop :=
  if blockType = 1 then SpellsSamples first bs
  else NoColumns version first.length bs ∨ SpellsTransitions version first bs

/-! ### Transitions -/

/-- The columns of a transitions block behind the timestamps. -/
structure TransitionColumns where
  pids : List UInt32
  oldEvents : List UInt32
  newEvents : List UInt32
  durations : List UInt64
  queryIds : List UInt64
  cpus : List UInt64

/-- The columns behind the timestamps as the decode reads them. -/
def readTransitionColumns (version : UInt16) (m : ℕ) (bs : Bytes) : Option TransitionColumns := do
  let (pids, bs) ← readMany decodeU32 m bs
  let (olds, bs) ← readMany decodeU32 m bs
  let (news, bs) ← readMany decodeU32 m bs
  let (durs, bs) ← readMany decodeVarint m bs
  let (qids, bs) ← readMany decodeU64 m bs
  if 3 ≤ version then
    let (cpus, _) ← readMany decodeVarint m bs
    pure ⟨pids, olds, news, durs, qids, cpus⟩
  else pure ⟨pids, olds, news, durs, qids, List.replicate m cpuNsUnknown⟩

/-- The records of the columns. -/
def TransitionColumns.rows (ts : List UInt64) (c : TransitionColumns) : List TraceEvent :=
  transitionRows ts c.pids c.oldEvents c.newEvents c.durations c.queryIds c.cpus

/-- The columns of records. -/
def transitionColumns (evs : List TraceEvent) : TransitionColumns where
  pids := evs.map (·.pid)
  oldEvents := evs.map (·.oldEvent)
  newEvents := evs.map (·.newEvent)
  durations := evs.map (·.durationNs)
  queryIds := evs.map (·.queryId)
  cpus := evs.map (·.cpuNs)

theorem decodeTransitionPayload_eq (version : UInt16) (m : ℕ) (payload : Bytes) :
    decodeTransitionPayload version m payload =
      (readMany decodeVarint m payload).bind fun r =>
        (readTransitionColumns version m r.2).map (·.rows (timestampsFrom 0 r.1)) := by
  rw [decodeTransitionPayload, decodeTimestamps_eq]
  cases readMany decodeVarint m payload with
  | none => rfl
  | some r =>
    simp only [Option.map_some, Option.bind_eq_bind, Option.bind_some, readTransitionColumns,
      Option.map_bind, Function.comp_def]
    refine Option.bind_congr fun pids _ => Option.bind_congr fun olds _ =>
      Option.bind_congr fun news _ => Option.bind_congr fun durs _ =>
        Option.bind_congr fun qids _ => ?_
    split_ifs
    · rw [Option.map_bind]
      rfl
    · rfl

/-- All columns are as long as was asked for. -/
structure TransitionColumns.Long (m : ℕ) (c : TransitionColumns) : Prop where
  pids : c.pids.length = m
  oldEvents : c.oldEvents.length = m
  newEvents : c.newEvents.length = m
  durations : c.durations.length = m
  queryIds : c.queryIds.length = m
  cpus : c.cpus.length = m

variable {c : TransitionColumns}

theorem long_readTransitionColumns (h : readTransitionColumns version m bs = some c) :
    c.Long m := by
  simp only [readTransitionColumns, Option.bind_eq_bind, Option.bind_eq_some_iff,
    Prod.exists] at h
  obtain ⟨ps, _, hps, os, _, hos, ns, _, hns, ds, _, hds, qs, _, hqs, h⟩ := h
  have hps := length_of_readMany m hps
  have hos := length_of_readMany m hos
  have hns := length_of_readMany m hns
  have hds := length_of_readMany m hds
  have hqs := length_of_readMany m hqs
  split_ifs at h
  · simp only [Option.bind_eq_some_iff, Option.pure_def, Option.some.injEq, Prod.exists] at h
    obtain ⟨cs, _, hcs, rfl⟩ := h
    exact ⟨hps, hos, hns, hds, hqs, length_of_readMany m hcs⟩
  · obtain rfl := Option.some.inj h
    exact ⟨hps, hos, hns, hds, hqs, List.length_replicate⟩

theorem columns_rows : (m : ℕ) → {ts : List UInt64} → {c : TransitionColumns} → ts.length = m →
    c.Long m → transitionColumns (c.rows ts) = c ∧ (c.rows ts).map (·.timestampNs) = ts
  | 0, [], ⟨[], [], [], [], [], []⟩, _, _ => ⟨rfl, rfl⟩
  | m + 1, t :: ts, ⟨p :: ps, o :: os, n :: ns, d :: ds, q :: qs, c :: cs⟩, ht, h => by
    obtain ⟨h1, h2, h3, h4, h5, h6⟩ := h
    obtain ⟨hcols, hts⟩ := columns_rows m (c := ⟨ps, os, ns, ds, qs, cs⟩) (Nat.succ.inj ht)
      ⟨Nat.succ.inj h1, Nat.succ.inj h2, Nat.succ.inj h3, Nat.succ.inj h4, Nat.succ.inj h5,
        Nat.succ.inj h6⟩
    simp only [transitionColumns, TransitionColumns.rows, TransitionColumns.mk.injEq] at hcols hts
    simp only [transitionColumns, TransitionColumns.rows, transitionRows, List.map_cons,
      TransitionColumns.mk.injEq, List.cons.injEq, true_and]
    exact ⟨hcols, hts⟩

theorem rows_columns (h : ∀ ev ∈ evs, ev.flags = 0) :
    (transitionColumns evs).rows (evs.map (·.timestampNs)) = evs := by
  rw [TransitionColumns.rows]
  simp only [transitionColumns]
  rw [transitionRows_map]
  conv_rhs => rw [← List.map_id evs]
  refine List.map_congr_left fun ev hev => ?_
  rw [TraceEvent.asTransition, ← h ev hev]
  rfl

theorem readTransitionColumns_eq_none_iff (hlen : 12 * m ≤ bs.length) :
    readTransitionColumns version m bs = none ↔ NoColumns version m bs := by
  obtain ⟨ps, hps⟩ := fixedWidth_u32.many m bs (by omega)
  obtain ⟨os, hos⟩ := fixedWidth_u32.many m (bs.drop (4 * m)) (by rw [List.length_drop]; omega)
  obtain ⟨ns, hns⟩ := fixedWidth_u32.many m (bs.drop (4 * m + 4 * m))
    (by rw [List.length_drop]; omega)
  have hdrop : 4 * m + 4 * m + 4 * m = 12 * m := by omega
  rw [List.drop_drop] at hos hns
  rw [hdrop] at hns
  simp only [readTransitionColumns, hps, hos, hns, Option.bind_eq_bind, Option.bind_some, NoColumns]
  cases hds : readMany decodeVarint m (bs.drop (12 * m)) with
  | none => simp
  | some r =>
    simp only [Option.bind_some, Option.some.injEq, forall_eq']
    by_cases hshort : r.2.length < 8 * m
    · rw [fixedWidth_u64.many_short m r.2 hshort]
      simp [hshort]
    · obtain ⟨qs, hqs⟩ := fixedWidth_u64.many m r.2 (Nat.not_lt.1 hshort)
      simp only [hqs, Option.bind_some, hshort, false_or]
      by_cases hv : 3 ≤ version
      · simp only [hv, true_and]
        cases readMany decodeVarint m (r.2.drop (8 * m)) <;> simp
      · simp [hv]

/-- The columns spell the records exactly when they are read as theirs. In a version 2 block the
records have no measurement. -/
theorem readTransitionColumns_eq_some_iff
    (hcpu : ¬3 ≤ version → ∀ ev ∈ evs, ev.cpuNs = cpuNsUnknown) :
    readTransitionColumns version evs.length bs = some (transitionColumns evs) ↔
      SpellsTransitions version evs bs := by
  constructor
  · intro h
    simp only [readTransitionColumns, Option.bind_eq_bind, Option.bind_eq_some_iff,
      Prod.exists] at h
    obtain ⟨ps, b, hps, os, b', hos, ns, b₁, hns, ds, b₂, hds, qs, b₃, hqs, h⟩ := h
    have hall : ps = evs.map (·.pid) ∧ os = evs.map (·.oldEvent) ∧ ns = evs.map (·.newEvent) ∧
        ds = evs.map (·.durationNs) ∧ qs = evs.map (·.queryId) ∧
          (3 ≤ version → ∃ b₄, readMany decodeVarint evs.length b₃ =
            some (evs.map (·.cpuNs), b₄)) := by
      split_ifs at h with hv
      · simp only [Option.bind_eq_some_iff, Option.pure_def, Option.some.injEq, Prod.exists,
          transitionColumns, TransitionColumns.mk.injEq] at h
        obtain ⟨cs, b₄, hcs, h1, h2, h3, h4, h5, rfl⟩ := h
        exact ⟨h1, h2, h3, h4, h5, fun _ => ⟨b₄, hcs⟩⟩
      · simp only [Option.pure_def, Option.some.injEq, transitionColumns,
          TransitionColumns.mk.injEq] at h
        obtain ⟨h1, h2, h3, h4, h5, -⟩ := h
        exact ⟨h1, h2, h3, h4, h5, fun hv' => absurd hv' hv⟩
    obtain ⟨rfl, rfl, rfl, rfl, rfl, hcs⟩ := hall
    refine ⟨b₁, b₂, b₃, ?_, hds, (readMany_u64_iff (·.queryId) evs).1 hqs, hcs⟩
    rw [(readMany_u32_iff (·.pid) evs).1 hps, (readMany_u32_iff (·.oldEvent) evs).1 hos,
      (readMany_u32_iff (·.newEvent) evs).1 hns]
  · rintro ⟨b₁, b₂, b₃, rfl, hds, rfl, hcs⟩
    have hps := fun rest => readMany_column inverts_u32 (·.pid) evs rest
    have hos := fun rest => readMany_column inverts_u32 (·.oldEvent) evs rest
    have hns := fun rest => readMany_column inverts_u32 (·.newEvent) evs rest
    have hqs := fun rest => readMany_column inverts_u64 (·.queryId) evs rest
    simp only [readTransitionColumns, hps, hos, hns, hds, hqs, Option.bind_eq_bind,
      Option.bind_some]
    split_ifs with hv
    · obtain ⟨b₄, hcs⟩ := hcs hv
      simp only [hcs, Option.bind_some]
      rfl
    · have hunknown : List.replicate evs.length cpuNsUnknown = evs.map (·.cpuNs) := by
        rw [eq_comm, List.eq_replicate_iff]
        exact ⟨List.length_map _, by simpa using hcpu hv⟩
      rw [hunknown]
      rfl

theorem forall_rows_eq_iff {c? : Option TransitionColumns} (hm : evs.length = m)
    (hflags : ∀ ev ∈ evs, ev.flags = 0) (hlong : ∀ c ∈ c?, c.Long m) :
    (∀ short, c?.map (·.rows (evs.map (·.timestampNs))) = some short → short = evs) ↔
      c? = none ∨ c? = some (transitionColumns evs) := by
  cases c? with
  | none => simp
  | some c =>
    have hts : (evs.map (·.timestampNs)).length = m := by rw [List.length_map, hm]
    simp only [Option.map_some, Option.some.injEq, forall_eq', reduceCtorEq, false_or]
    constructor
    · intro h
      rw [← (columns_rows m hts (hlong c rfl)).1, h]
    · rintro rfl
      exact rows_columns hflags

theorem exists_behindTimestamps {deltas : List UInt64}
    (h : readMany decodeVarint n payload = some (deltas, rest)) (hle : m ≤ n) :
    ∃ bs, readMany decodeVarint m payload = some (deltas.take m, bs) ∧
      behindTimestamps m payload = some bs ∧ rest.length ≤ bs.length := by
  obtain ⟨bs, hfront, hback⟩ := readMany_take hle h
  refine ⟨bs, hfront, by rw [behindTimestamps, hfront]; rfl, ?_⟩
  exact length_rest_le length_decodeVarint_le _ hback

theorem length_flatMap_u32 (xs : List UInt32) : (xs.flatMap encodeU32).length = 4 * xs.length := by
  induction xs with
  | nil => rfl
  | cons x xs ih =>
    rw [List.flatMap_cons, List.length_append, ih, encodeU32, length_leBytes, List.length_cons]
    omega

theorem length_flatMap_u64 (xs : List UInt64) : (xs.flatMap encodeU64).length = 8 * xs.length := by
  induction xs with
  | nil => rfl
  | cons x xs ih =>
    rw [List.flatMap_cons, List.length_append, ih, encodeU64, length_leBytes, List.length_cons]
    omega

theorem le_length_of_readTransitionColumns (h : readTransitionColumns version n bs = some c) :
    12 * n ≤ bs.length := by
  simp only [readTransitionColumns, Option.bind_eq_bind, Option.bind_eq_some_iff,
    Prod.exists] at h
  obtain ⟨ps, b, hps, os, b', hos, ns, b₁, hns, -⟩ := h
  rw [eq_append_of_readMany eq_append_of_decodeU32 n hps,
    eq_append_of_readMany eq_append_of_decodeU32 n hos,
    eq_append_of_readMany eq_append_of_decodeU32 n hns]
  simp only [List.length_append, length_flatMap_u32, length_of_readMany n hps,
    length_of_readMany n hos, length_of_readMany n hns]
  omega

theorem cpuNs_readTransitionColumns (h : readTransitionColumns version n bs = some c)
    (hv : ¬3 ≤ version) : ∀ x ∈ c.cpus, x = cpuNsUnknown := by
  simp only [readTransitionColumns, if_neg hv, Option.bind_eq_bind, Option.bind_eq_some_iff,
    Prod.exists, Option.pure_def, Option.some.injEq] at h
  obtain ⟨ps, _, -, os, _, -, ns, _, -, ds, _, -, qs, _, -, rfl⟩ := h
  exact fun x hx => List.eq_of_mem_replicate hx

/-- **Short decodes of transitions.** -/
theorem decodeTransitionPayload_short_iff
    (hfull : decodeTransitionPayload version n payload = some full) (hle : m ≤ n) :
    ∃ bs, behindTimestamps m payload = some bs ∧
      ((∀ short, decodeTransitionPayload version m payload = some short → short = full.take m) ↔
        NoColumns version (full.take m).length bs ∨
          SpellsTransitions version (full.take m) bs) := by
  rw [decodeTransitionPayload_eq] at hfull
  simp only [Option.bind_eq_some_iff, Option.map_eq_some_iff, Prod.exists] at hfull
  obtain ⟨deltas, rest, hdeltas, c, hc, rfl⟩ := hfull
  obtain ⟨bs, hfront, hbehind, hlen⟩ := exists_behindTimestamps hdeltas hle
  have hts : (timestampsFrom 0 deltas).length = n := by
    have hdec := decodeTimestamps_eq 0 n payload
    rw [hdeltas, Option.map_some] at hdec
    exact length_of_decodeTimestamps n hdec
  obtain ⟨hcols, htimes⟩ := columns_rows n hts (long_readTransitionColumns hc)
  have hflags : ∀ ev ∈ c.rows (timestampsFrom 0 deltas), ev.flags = 0 :=
    flags_transitionRows _ _ _ _ _ _ _
  have hcpu : ¬3 ≤ version → ∀ ev ∈ c.rows (timestampsFrom 0 deltas), ev.cpuNs = cpuNsUnknown := by
    intro hv ev hev
    have hmem : ev.cpuNs ∈ c.cpus := by
      rw [← hcols]
      exact List.mem_map_of_mem hev
    exact cpuNs_readTransitionColumns hc hv _ hmem
  have hfixed := le_length_of_readTransitionColumns hc
  generalize c.rows (timestampsFrom 0 deltas) = full at hcols htimes hflags hcpu ⊢
  have hm : (full.take m).length = m := by
    have hn : full.length = n := by rw [← hts, ← htimes, List.length_map]
    rw [List.length_take, hn, Nat.min_eq_left hle]
  have hshort : timestampsFrom 0 (deltas.take m) = (full.take m).map (·.timestampNs) := by
    rw [← take_timestampsFrom, ← htimes, List.map_take]
  have hroom : 12 * m ≤ bs.length := by omega
  refine ⟨bs, hbehind, ?_⟩
  rw [decodeTransitionPayload_eq, hfront, Option.bind_some, hshort,
    forall_rows_eq_iff hm (fun ev hev => hflags ev (List.mem_of_mem_take hev))
      (fun c hc => long_readTransitionColumns hc), hm,
    readTransitionColumns_eq_none_iff hroom]
  have hsome := @readTransitionColumns_eq_some_iff bs (full.take m) version
    fun hv ev hev => hcpu hv ev (List.mem_of_mem_take hev)
  rw [hm] at hsome
  rw [hsome]

/-! ### Samples -/

theorem columns_sampleRows : (n : ℕ) → {ts : List UInt64} → {ps ns : List UInt32} →
    {qs : List UInt64} → ts.length = n → ps.length = n → ns.length = n → qs.length = n →
      (sampleRows ts ps ns qs).map (·.timestampNs) = ts ∧
        (sampleRows ts ps ns qs).map (·.pid) = ps ∧
          (sampleRows ts ps ns qs).map (·.newEvent) = ns ∧
            (sampleRows ts ps ns qs).map (·.queryId) = qs
  | 0, [], [], [], [], _, _, _, _ => ⟨rfl, rfl, rfl, rfl⟩
  | n + 1, t :: ts, p :: ps, n' :: ns, q :: qs, h1, h2, h3, h4 => by
    obtain ⟨ht, hp, hn, hq⟩ := columns_sampleRows n (Nat.succ.inj h1) (Nat.succ.inj h2)
      (Nat.succ.inj h3) (Nat.succ.inj h4)
    simp only [sampleRows, List.map_cons, List.cons.injEq, true_and]
    exact ⟨ht, hp, hn, hq⟩

theorem asSample_sampleRows : (ts : List UInt64) → (ps ns : List UInt32) → (qs : List UInt64) →
    ∀ ev ∈ sampleRows ts ps ns qs, ev.asSample = ev
  | _ :: ts, _ :: ps, _ :: ns, _ :: qs, ev, hev => by
    rw [sampleRows, List.mem_cons] at hev
    rcases hev with rfl | hev
    · rfl
    · exact asSample_sampleRows ts ps ns qs ev hev

theorem sampleRows_eq_iff {ps ns : List UInt32} {qs : List UInt64} (hm : evs.length = m)
    (hevs : ∀ ev ∈ evs, ev.asSample = ev) (hps : ps.length = m) (hns : ns.length = m)
    (hqs : qs.length = m) :
    sampleRows (evs.map (·.timestampNs)) ps ns qs = evs ↔
      ps = evs.map (·.pid) ∧ ns = evs.map (·.newEvent) ∧ qs = evs.map (·.queryId) := by
  have hts : (evs.map (·.timestampNs)).length = m := by rw [List.length_map, hm]
  obtain ⟨-, hp, hn, hq⟩ := columns_sampleRows m hts hps hns hqs
  constructor
  · intro h
    rw [h] at hp hn hq
    exact ⟨hp.symm, hn.symm, hq.symm⟩
  · rintro ⟨rfl, rfl, rfl⟩
    rw [sampleRows_map]
    conv_rhs => rw [← List.map_id evs]
    exact List.map_congr_left hevs

/-- **Short decodes of samples.** -/
theorem decodeSamplePayload_short_iff (hfull : decodeSamplePayload n payload = some full)
    (hle : m ≤ n) :
    ∃ bs, behindTimestamps m payload = some bs ∧
      ((∀ short, decodeSamplePayload m payload = some short → short = full.take m) ↔
        SpellsSamples (full.take m) bs) := by
  simp only [decodeSamplePayload, decodeTimestamps_eq, Option.bind_eq_bind,
    Option.bind_eq_some_iff, Option.map_eq_some_iff, Option.pure_def, Option.some.injEq,
    Prod.exists, Prod.mk.injEq] at hfull
  obtain ⟨_, _, ⟨deltas, rest, hdeltas, rfl, rfl⟩, ps, b₁, hps, ns, b₂, hns, qs, b₃, hqs, rfl⟩ :=
    hfull
  obtain ⟨bs, hfront, hbehind, hlen⟩ := exists_behindTimestamps hdeltas hle
  have hts : (timestampsFrom 0 deltas).length = n := by
    have hdec := decodeTimestamps_eq 0 n payload
    rw [hdeltas, Option.map_some] at hdec
    exact length_of_decodeTimestamps n hdec
  have hroom : 16 * m ≤ bs.length := by
    have hbytes := hlen
    rw [eq_append_of_readMany eq_append_of_decodeU32 n hps,
      eq_append_of_readMany eq_append_of_decodeU32 n hns,
      eq_append_of_readMany eq_append_of_decodeU64 n hqs] at hbytes
    simp only [List.length_append, length_flatMap_u32, length_flatMap_u64,
      length_of_readMany n hps, length_of_readMany n hns, length_of_readMany n hqs] at hbytes
    omega
  obtain ⟨htimes, -⟩ := columns_sampleRows n hts (length_of_readMany n hps)
    (length_of_readMany n hns) (length_of_readMany n hqs)
  have hshape := asSample_sampleRows (timestampsFrom 0 deltas) ps ns qs
  generalize sampleRows (timestampsFrom 0 deltas) ps ns qs = full at htimes hshape ⊢
  have hm : (full.take m).length = m := by
    have hn : full.length = n := by rw [← hts, ← htimes, List.length_map]
    rw [List.length_take, hn, Nat.min_eq_left hle]
  have hshort : timestampsFrom 0 (deltas.take m) = (full.take m).map (·.timestampNs) := by
    rw [← take_timestampsFrom, ← htimes, List.map_take]
  have hfirst : ∀ ev ∈ full.take m, ev.asSample = ev := fun ev hev =>
    hshape ev (List.mem_of_mem_take hev)
  generalize full.take m = first at hm hshort hfirst ⊢
  subst hm
  obtain ⟨ps', hps'⟩ := fixedWidth_u32.many first.length bs (by omega)
  obtain ⟨ns', hns'⟩ := fixedWidth_u32.many first.length (bs.drop (4 * first.length))
    (by rw [List.length_drop]; omega)
  obtain ⟨qs', hqs'⟩ := fixedWidth_u64.many first.length
    ((bs.drop (4 * first.length)).drop (4 * first.length))
    (by rw [List.length_drop, List.length_drop]; omega)
  have hdec : decodeSamplePayload first.length payload =
      some (sampleRows (first.map (·.timestampNs)) ps' ns' qs') := by
    simp only [decodeSamplePayload, decodeTimestamps_eq, hfront, Option.map_some, hps', hns', hqs',
      Option.bind_eq_bind, Option.bind_some, hshort]
    rfl
  refine ⟨bs, hbehind, ?_⟩
  simp only [hdec, Option.some.injEq, forall_eq']
  rw [sampleRows_eq_iff rfl hfirst (length_of_readMany _ hps') (length_of_readMany _ hns')
    (length_of_readMany _ hqs')]
  constructor
  · rintro ⟨rfl, rfl, rfl⟩
    refine ⟨((bs.drop (4 * first.length)).drop (4 * first.length)).drop (8 * first.length), ?_⟩
    rw [← (readMany_u64_iff (·.queryId) _).1 hqs', ← (readMany_u32_iff (·.newEvent) _).1 hns',
      ← (readMany_u32_iff (·.pid) _).1 hps']
  · rintro ⟨rest, hbs⟩
    have hps'' := (readMany_u32_iff (·.pid) _).2 hbs
    rw [hps', Option.some.injEq, Prod.mk.injEq] at hps''
    have hns'' := (readMany_u32_iff (·.newEvent) _).2 hps''.2
    rw [hns', Option.some.injEq, Prod.mk.injEq] at hns''
    have hqs'' := (readMany_u64_iff (·.queryId) _).2 hns''.2
    rw [hqs', Option.some.injEq, Prod.mk.injEq] at hqs''
    exact ⟨hps''.1, hns''.1, hqs''.1⟩

theorem decodePayload_short_iff {blockType : UInt16}
    (hfull : decodePayload blockType version n payload = some full) (hle : m ≤ n) :
    ∃ bs, behindTimestamps m payload = some bs ∧
      ((∀ short, decodePayload blockType version m payload = some short → short = full.take m) ↔
        ShortDecodeFits blockType version (full.take m) bs) := by
  simp only [decodePayload, ShortDecodeFits] at hfull ⊢
  split_ifs at hfull ⊢
  · exact decodeSamplePayload_short_iff hfull hle
  · exact decodeTransitionPayload_short_iff hfull hle

/-! ### Blocks -/

/-- The header and the decompressed payload of a block. -/
def blockPayload (lz : Lz4) (r : EventReader) (blockIdx : ℤ) : Option (BlockHeader × Bytes) := do
  if blockIdx < 0 ∨ (r.blockOffsets.length : ℤ) ≤ blockIdx then none
  else
    let offset ← r.blockOffsets[blockIdx.toNat]?
    let (bh, bs) ← readBlockHeader (r.file.drop offset.toNat)
    if 1 < bh.blockType then none
    else
      let (c, _) ← readChunk bh.compressedSize.toNat bs
      let payload ← lz4DecompressInt lz c (max r.decodeBufSize bh.uncompressedSize.toNat)
      pure (bh, payload)

theorem decodeBlockInfo_eq (lz : Lz4) (r : EventReader) (blockIdx maxEvents : ℤ) :
    decodeBlockInfo lz r blockIdx maxEvents =
      (blockPayload lz r blockIdx).bind fun p =>
        let count := min (toCInt p.1.numEvents) maxEvents
        (decodePayload p.1.blockType r.version count.toNat p.2).bind fun evs =>
          if count < 0 then none
          else some (evs, ⟨p.1.blockType, p.1.samplePeriodNs, p.1.firstTimestampNs,
            p.1.lastTimestampNs, p.1.numEvents⟩) := by
  rw [decodeBlockInfo, blockPayload]
  split_ifs with hidx
  · rfl
  simp only [Option.bind_eq_bind, Option.bind_assoc]
  refine Option.bind_congr fun offset _ => Option.bind_congr fun h _ => ?_
  by_cases htype : 1 < h.1.blockType
  · simp only [if_pos htype, Option.bind_none]
  · simp only [if_neg htype, Option.bind_assoc, Option.pure_def, Option.bind_some]

/-- **A short decode.** For a block that decodes into `n` records, the decode into a buffer of
`m < n` records fails or gives the first `m` of them exactly when the bytes behind the first `m`
timestamps are no columns of `m` records or spell those of the first `m`. -/
theorem shortDecode_prefix_iff (lz : Lz4) (r : EventReader) (blockIdx : ℤ) {n m : ℕ}
    {full : List TraceEvent} {info : BlockInfo}
    (hfull : decodeBlockInfo lz r blockIdx n = some (full, info)) (hn : info.numEvents.toNat = n)
    (hmn : m < n) :
    (∀ short info', decodeBlockInfo lz r blockIdx m = some (short, info') →
        short = full.take m) ↔
      ∃ bh payload bs, blockPayload lz r blockIdx = some (bh, payload) ∧
        behindTimestamps m payload = some bs ∧
          ShortDecodeFits bh.blockType r.version (full.take m) bs := by
  rw [decodeBlockInfo_eq] at hfull
  obtain ⟨⟨bh, payload⟩, hpayload, hfull⟩ := Option.bind_eq_some_iff.1 hfull
  obtain ⟨evs, hdec, hfull⟩ := Option.bind_eq_some_iff.1 hfull
  split_ifs at hfull with hneg
  simp only [Option.some.injEq, Prod.mk.injEq] at hfull
  obtain ⟨rfl, rfl⟩ := hfull
  have hnonneg : 0 ≤ toCInt bh.numEvents := by
    dsimp only at hneg
    omega
  have hcint : toCInt bh.numEvents = n := by
    dsimp only at hn
    rw [toCInt] at hnonneg ⊢
    split_ifs at hnonneg ⊢ with hlt
    · rw [hn]
    · have hword := bh.numEvents.toNat_lt
      omega
  rw [decodeBlockInfo_eq, hpayload, Option.bind_some]
  simp only [hcint, min_self, Int.toNat_natCast] at hdec
  have hmin : min (n : ℤ) m = m := by omega
  have hnot : ¬(m : ℤ) < 0 := by omega
  simp only [hcint, hmin, hnot, if_false, Int.toNat_natCast, Option.bind_eq_some_iff,
    Option.some.injEq, Prod.mk.injEq]
  have hsplit : (∀ short info', (∃ evs, decodePayload bh.blockType r.version m payload = some evs ∧
      evs = short ∧ (⟨bh.blockType, bh.samplePeriodNs, bh.firstTimestampNs, bh.lastTimestampNs,
        bh.numEvents⟩ : BlockInfo) = info') → short = evs.take m) ↔
      ∀ short, decodePayload bh.blockType r.version m payload = some short →
        short = evs.take m := by
    constructor
    · exact fun h short hshort => h short _ ⟨short, hshort, rfl, rfl⟩
    · rintro h short info' ⟨evs', hshort, rfl, -⟩
      exact h evs' hshort
  rw [hsplit]
  obtain ⟨bs, hbs, hiff⟩ := decodePayload_short_iff hdec hmn.le
  rw [hiff]
  constructor
  · exact fun h => ⟨bh, payload, bs, ⟨rfl, rfl⟩, hbs, h⟩
  · rintro ⟨bh', payload', bs', hpayload', hbs', h⟩
    obtain ⟨rfl, rfl⟩ := hpayload'
    obtain rfl := Option.some.inj (hbs.symm.trans hbs')
    exact h

/-- A file that is one samples block of two samples of the backend 7, at 5 and at 6. -/
def twoSampleReader : EventReader where
  file := BlockHeader.bytes ⟨5, 6, 2, 36, 34, 1, 0, 10⟩ ++ ([0xF0, 19] ++ ([5, 1] ++
    (encodeU32 7 ++ (encodeU32 7 ++ (encodeU32 0x0A000001 ++ (encodeU32 0x0A000001 ++
      (encodeU64 3 ++ encodeU64 3)))))))
  version := 3
  blockOffsets := [0]
  decodeBufSize_lt := initialDecodeBuf_lt

/-- The samples of that block. -/
def sampleOfSeven (ts : UInt64) : TraceEvent :=
  ⟨ts, 7, 0, 0x0A000001, flagSample, 0, 3, cpuNsUnknown⟩

/-- Decoded into a buffer of one record, the block gives a sample of the backend 1793. -/
theorem shortDecode_wrong_pid :
    decodeBlockInfo literalLz4 twoSampleReader 0 2 =
        some ([sampleOfSeven 5, sampleOfSeven 6], ⟨1, 10, 5, 6, 2⟩) ∧
      ¬ ∀ short info, decodeBlockInfo literalLz4 twoSampleReader 0 1 = some (short, info) →
        short = [sampleOfSeven 5, sampleOfSeven 6].take 1 := by
  refine ⟨by decide +kernel, fun h => ?_⟩
  have hpids : (decodeBlockInfo literalLz4 twoSampleReader 0 1).map (fun r => r.1.map (·.pid)) =
      some [1793] := by
    decide +kernel
  obtain ⟨⟨short, info⟩, hdec, hwrong⟩ := Option.map_eq_some_iff.1 hpids
  rw [h short info hdec] at hwrong
  exact absurd hwrong (by simp [sampleOfSeven])

/-- The condition on that block and a buffer of one record. -/
theorem shortDecode_prefix_iff_twoSamples :
    (∀ short info', decodeBlockInfo literalLz4 twoSampleReader 0 (1 : ℕ) = some (short, info') →
        short = [sampleOfSeven 5, sampleOfSeven 6].take 1) ↔
      ∃ bh payload bs, blockPayload literalLz4 twoSampleReader 0 = some (bh, payload) ∧
        behindTimestamps 1 payload = some bs ∧
          ShortDecodeFits bh.blockType 3 ([sampleOfSeven 5, sampleOfSeven 6].take 1) bs :=
  have hfull : decodeBlockInfo literalLz4 twoSampleReader 0 (2 : ℕ) =
      some ([sampleOfSeven 5, sampleOfSeven 6], ⟨1, 10, 5, 6, 2⟩) := by
    decide +kernel
  shortDecode_prefix_iff literalLz4 twoSampleReader 0 hfull rfl (by decide)

end PgWaitTracer
