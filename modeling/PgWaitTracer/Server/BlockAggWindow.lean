import PgWaitTracer.Server.BlockAgg

/-!
# A window from block aggregates

`pgwt_block_agg_window_from_reader` (`src/block_agg.c`) goes through the blocks of a file and skips,
merges or decodes each. Merging is for blocks whose aggregate is cached.

The decode buffer of the reader has one size for all blocks. The aggregates that a run offers to the
cache are made with memory of their own.

## Main results

* `cacheChangesNothing_iff`: so it is if no merged block claims more records than a
  block can have.
* `windowFromReader_offered`: what a run offers to the cache may be cached.
-/

namespace PgWaitTracer

open ByteCodec

/-! ### Readers -/

/-- A reader and the file header that it has read. -/
structure TraceReader where
  header : FileHeader
  reader : EventReader
  version_eq : reader.version = header.version

/-- `pgwt_trace_identity_of_reader`. -/
def TraceReader.identity (r : TraceReader) : TraceIdentity :=
  ⟨r.header.version.toUInt32, r.header.pgVersion, r.header.startTimeNs, r.header.clockOffsetNs⟩

/-- `pgwt_reader_block_info`. -/
def EventReader.blockInfo (r : EventReader) (b : ℕ) : Option BlockInfo := do
  let offset ← r.blockOffsets[b]?
  let (bh, _) ← readBlockHeader (r.file.drop offset.toNat)
  pure ⟨bh.blockType, bh.samplePeriodNs, bh.firstTimestampNs, bh.lastTimestampNs, bh.numEvents⟩

/-- The identity of a block, from the block header. -/
def TraceReader.blockIdentity (r : TraceReader) (b : ℕ) (bi : BlockInfo) : BlockIdentity where
  trace := r.identity
  blockIndex := UInt32.ofNat b
  numEvents := bi.numEvents
  fileOffset := r.reader.blockOffsets.getD b 0
  firstTimestampNs := bi.firstTimestampNs
  lastTimestampNs := bi.lastTimestampNs

/-- `pgwt_reader_decode_block_info` into a buffer of `PGWT_BLOCK_EVENTS` records. -/
def TraceReader.decode (lz : Lz4) (r : TraceReader) (b : ℕ) :
    Option (List TraceEvent × BlockInfo) :=
  decodeBlockInfo lz r.reader b blockEvents

/-! ### The run -/

/-- The state of the loop. -/
structure WindowRun where
  acc : BlockAgg
  exactInWindow : ℕ
  merged : ℕ := 0
  decoded : ℕ := 0
  offered : List BlockAgg := []

/-- What `pgwt_block_agg_window_from_reader` has besides the accumulator. -/
structure WindowArgs where
  mem : AggMemory
  /-- The memory of the aggregate that is made of a decoded block. -/
  freshMem : ℕ → AggMemory
  lookup : BlockIdentity → Option BlockAgg
  fromNs : UInt64
  toNs : UInt64

/-- A block is decoded. -/
def decodeWindowBlock (lz : Lz4) (r : TraceReader) (w : WindowArgs) (s : WindowRun) (b : ℕ)
    (id : BlockIdentity) : Except BaggRefusal WindowRun :=
  if !w.mem.buf then .error .nomem
  else
    match r.decode lz b with
    | none => .error .invalid
    | some (evs, bi) => do
      let (acc, admitted) ← addAggEvents w.mem s.acc evs w.fromNs w.toNs
      pure { s with
        acc
        exactInWindow := s.exactInWindow + admitted
        decoded := s.decoded + 1
        offered := s.offered ++
          (buildBlockAgg (w.freshMem b) id bi.blockType true evs).toOption.toList }

/-- One round of the loop. -/
def windowBlock (lz : Lz4) (r : TraceReader) (w : WindowArgs) (s : WindowRun) (b : ℕ) :
    Except BaggRefusal WindowRun :=
  match r.reader.blockInfo b with
  | none => .error .invalid
  | some bi =>
    if bi.blockType ≠ BlockType.transitions.code then
      if fileCanContribute bi.firstTimestampNs bi.lastTimestampNs w.fromNs w.toNs then
        .error .blockType
      else .ok s
    else
      let id := r.blockIdentity b bi
      match planBlock id (w.lookup id).isSome w.fromNs w.toNs, w.lookup id with
      | .skip, _ => .ok s
      | .merge, none => .error .invalid
      | .merge, some cached => do
        let acc ← mergeBlockAgg w.mem s.acc cached
        pure { s with
          acc
          exactInWindow := s.exactInWindow + id.numEvents.toNat
          merged := s.merged + 1 }
      | .decode, _ => decodeWindowBlock lz r w s b id

/-- `pgwt_block_agg_window_from_reader`. -/
def windowFromReader (lz : Lz4) (r : TraceReader) (w : WindowArgs) (s : WindowRun) :
    Except BaggRefusal WindowRun :=
  if s.acc.mode ≠ .window then .error .mode
  else if w.toNs ≤ w.fromNs then .error .invalid
  else if !r.identity.resolvable then .error .identity
  else (List.range r.reader.blockOffsets.length).foldlM (windowBlock lz r w) s

/-! ### What it should be -/

/-- The records of a block. A block that cannot be decoded has none. -/
def TraceReader.recordsOf (lz : Lz4) (r : TraceReader) (b : ℕ) : List TraceEvent :=
  ((r.decode lz b).map Prod.fst).getD []

/-- The records of the file. -/
def TraceReader.records (lz : Lz4) (r : TraceReader) : List TraceEvent :=
  (List.range r.reader.blockOffsets.length).flatMap (r.recordsOf lz)

/-- The header bounds cover the records. -/
def TraceReader.Covers (lz : Lz4) (r : TraceReader) : Prop :=
  ∀ b evs bi, r.decode lz b = some (evs, bi) → ∀ ev ∈ evs,
    bi.firstTimestampNs ≤ ev.timestampNs ∧ ev.timestampNs ≤ bi.lastTimestampNs

/-- The aggregate matches a block, and `pgwt_block_agg_build` built it from the block. -/
def BuiltFrom (lz : Lz4) (r : TraceReader) (b : ℕ) (bi : BlockInfo) (a : BlockAgg) : Prop :=
  a.matchesBlock (r.blockIdentity b bi) = true ∧ ∃ mem id evs, r.decode lz b = some (evs, bi) ∧
    buildBlockAgg mem id bi.blockType true evs = .ok a

/-- Every cached aggregate was built from the block that it matches. -/
def CacheOf (lz : Lz4) (r : TraceReader) (lookup : BlockIdentity → Option BlockAgg) : Prop :=
  ∀ b bi a, r.reader.blockInfo b = some bi → lookup (r.blockIdentity b bi) = some a →
    BuiltFrom lz r b bi a

/-- The tables are the same finite maps, and the totals are the same. -/
structure BlockAgg.SameTables (a b : BlockAgg) : Prop where
  pairs : ∀ k, a.lookupPair k = b.lookupPair k
  nodes : ∀ k, a.lookupNode k = b.lookupNode k
  totals : a.totalTransitions = b.totalTransitions ∧ a.pairTotalNs = b.pairTotalNs ∧
    a.nodeRecords = b.nodeRecords ∧ a.nodeTotalNs = b.nodeTotalNs

/-- **The cache changes nothing.** The run without a cache and the fold over the records of the
window succeed, given memory; whenever they do, they have the tables of this run, and the number of
records in the window is the one counted. -/
structure CacheChangesNothing (lz : Lz4) (r : TraceReader) (w : WindowArgs) (s out : WindowRun) :
    Prop where
  uncached : ∀ mem out',
    windowFromReader lz r { w with mem, lookup := fun _ => none } s = .ok out' →
    out.acc.SameTables out'.acc ∧ out.exactInWindow = out'.exactInWindow
  uncached_succeeds : ∃ out',
    windowFromReader lz r { w with mem := .enough, lookup := fun _ => none } s = .ok out'
  folded : ∀ mem a,
    ((r.records lz).filter (·.inAggWindow w.fromNs w.toNs)).foldlM (addAggEvent mem) s.acc = .ok a →
    out.acc.SameTables a
  folded_succeeds : ∃ a, ((r.records lz).filter (·.inAggWindow w.fromNs w.toNs)).foldlM
    (addAggEvent .enough) s.acc = .ok a
  counted : out.exactInWindow = s.exactInWindow +
    ((r.records lz).filter (·.admitted w.fromNs w.toNs)).length

/-! ### Blocks -/

variable {lz : Lz4} {r : TraceReader} {w : WindowArgs} {b : ℕ} {bi : BlockInfo}

variable {evs : List TraceEvent} {out s : WindowRun}

/-- What is decoded has the header of the block, and as many records as the header says, up to the
size of the buffer. -/
theorem decode_spec (h : r.decode lz b = some (evs, bi)) :
    r.reader.blockInfo b = some bi ∧ evs.length = min bi.numEvents.toNat blockEvents := by
  rw [TraceReader.decode, decodeBlockInfo] at h
  by_cases hidx : (b : ℤ) < 0 ∨ (r.reader.blockOffsets.length : ℤ) ≤ b
  · rw [if_pos hidx] at h
    exact absurd h (by simp)
  rw [if_neg hidx] at h
  simp only [Option.bind_eq_bind, Option.bind_eq_some_iff, Int.toNat_natCast] at h
  obtain ⟨offset, hoff, ⟨bh, bs⟩, hread, h⟩ := h
  by_cases htype : 1 < bh.blockType
  · rw [if_pos htype] at h
    exact absurd h (by simp)
  rw [if_neg htype] at h
  simp only [Option.bind_eq_some_iff] at h
  obtain ⟨⟨c, _⟩, -, payload, -, evs', hevs, h⟩ := h
  split_ifs at h with hneg
  simp only [Option.pure_def, Option.some.injEq, Prod.mk.injEq] at h
  obtain ⟨rfl, rfl⟩ := h
  refine ⟨?_, ?_⟩
  · rw [EventReader.blockInfo, hoff]
    simp only [Option.bind_eq_bind, Option.bind_some, hread]
    rfl
  · rw [length_of_decodePayload hevs]
    rw [toCInt] at hneg ⊢
    split_ifs at hneg ⊢ with hint
    · change (min (bh.numEvents.toNat : ℤ) blockEvents).toNat = min bh.numEvents.toNat blockEvents
      omega
    · have hlt := bh.numEvents.toNat_lt
      exact absurd (lt_of_le_of_lt (min_le_left _ _) (by omega)) hneg

theorem planBlock_spec {id : BlockIdentity} {haveAgg : Bool} {fromNs toNs : UInt64} :
    (planBlock id haveAgg fromNs toNs = .skip → toNs < fromNs ∨
      fileCanContribute id.firstTimestampNs id.lastTimestampNs fromNs toNs = false) ∧
    (planBlock id haveAgg fromNs toNs = .merge → fromNs ≤ id.firstTimestampNs ∧
      id.lastTimestampNs < toNs) := by
  rw [planBlock]
  split_ifs with h1 h2 h3 h4 h5
  · exact ⟨fun _ => Or.inl h1, fun h => absurd h (by simp)⟩
  · exact ⟨fun h => absurd h (by simp), fun h => absurd h (by simp)⟩
  · exact ⟨fun _ => Or.inr (by simpa using h3), fun h => absurd h (by simp)⟩
  · exact ⟨fun h => absurd h (by simp), fun h => absurd h (by simp)⟩
  · exact ⟨fun h => absurd h (by simp), fun _ => by simpa using h5⟩
  · exact ⟨fun h => absurd h (by simp), fun h => absurd h (by simp)⟩

theorem recordsOf_eq (h : r.decode lz b = some (evs, bi)) : r.recordsOf lz b = evs := by
  rw [TraceReader.recordsOf, h]
  rfl

theorem TraceReader.Covers.mem (h : r.Covers lz) (hinfo : r.reader.blockInfo b = some bi)
    {ev : TraceEvent} (hev : ev ∈ r.recordsOf lz b) :
    bi.firstTimestampNs ≤ ev.timestampNs ∧ ev.timestampNs ≤ bi.lastTimestampNs := by
  rcases hdecode : r.decode lz b with _ | ⟨evs, bi'⟩
  · rw [TraceReader.recordsOf, hdecode] at hev
    exact absurd hev (by simp)
  · rw [recordsOf_eq hdecode] at hev
    obtain rfl := Option.some.inj (hinfo.symm.trans (decode_spec hdecode).1)
    exact h b evs bi hdecode ev hev

theorem filter_admitted_eq_nil (h : r.Covers lz) (hinfo : r.reader.blockInfo b = some bi)
    {fromNs toNs : UInt64} (hapart : toNs < fromNs ∨
      fileCanContribute bi.firstTimestampNs bi.lastTimestampNs fromNs toNs = false) :
    (r.recordsOf lz b).filter (·.admitted fromNs toNs) = [] := by
  refine List.filter_eq_nil_iff.2 fun ev hev hadm => ?_
  obtain ⟨hfirst, hlast⟩ := h.mem hinfo hev
  simp only [TraceEvent.admitted, fileCanContribute, Bool.and_eq_true, decide_eq_true_eq,
    Bool.and_eq_false_iff, Bool.not_eq_false', UInt64.le_iff_toNat_le,
    UInt64.lt_iff_toNat_lt] at hadm hapart hfirst hlast
  omega

theorem inAggWindow_of_inside (h : r.Covers lz) (hinfo : r.reader.blockInfo b = some bi)
    {fromNs toNs : UInt64} (hfrom : fromNs ≤ bi.firstTimestampNs)
    (hto : bi.lastTimestampNs < toNs) :
    ∀ ev ∈ r.recordsOf lz b, ev.inAggWindow fromNs toNs = true := by
  intro ev hev
  obtain ⟨hfirst, hlast⟩ := h.mem hinfo hev
  simp only [TraceEvent.inAggWindow, Bool.and_eq_true, decide_eq_true_eq,
    UInt64.le_iff_toNat_le, UInt64.lt_iff_toNat_lt] at hfrom hto hfirst hlast ⊢
  omega

/-- A block that is merged. -/
def mergesBlock (r : TraceReader) (w : WindowArgs) (b : ℕ) : Bool :=
  (r.reader.blockInfo b).any fun bi => bi.blockType = BlockType.transitions.code &&
    planBlock (r.blockIdentity b bi) (w.lookup (r.blockIdentity b bi)).isSome w.fromNs w.toNs =
      .merge

/-- What a block adds to `exact_in_window`. -/
def blockExact (lz : Lz4) (r : TraceReader) (w : WindowArgs) (b : ℕ) : ℕ :=
  if mergesBlock r w b then ((r.reader.blockInfo b).map (·.numEvents.toNat)).getD 0
  else ((r.recordsOf lz b).filter (·.admitted w.fromNs w.toNs)).length

/-- What a block adds to the tables. -/
noncomputable def blockSums (lz : Lz4) (r : TraceReader) (w : WindowArgs) (b : ℕ) : AggSums :=
  (((r.recordsOf lz b).filter (·.inAggWindow w.fromNs w.toNs)).map eventSums).sum

/-- **One round.** The records of the block that are before the right edge add their shares, whether
the block is skipped, merged or decoded. -/
theorem windowBlock_spec (hcov : r.Covers lz) (hcache : CacheOf lz r w.lookup) {s' : WindowRun}
    {m : AggSums} (h : s.acc.Sums m) (hstep : windowBlock lz r w s b = .ok s') :
    s'.acc.Sums (m + blockSums lz r w b) ∧ s'.acc.SameKind s.acc ∧
      s'.exactInWindow = s.exactInWindow + blockExact lz r w b := by
  -- a block without a record in the window, which leaves the state
  have hnone : (r.recordsOf lz b).filter (·.admitted w.fromNs w.toNs) = [] →
      mergesBlock r w b = false → s.acc.Sums (m + blockSums lz r w b) ∧ s.acc.SameKind s.acc ∧
      s.exactInWindow = s.exactInWindow + blockExact lz r w b := by
    intro hnil hmerges
    have hwin : (r.recordsOf lz b).filter (·.inAggWindow w.fromNs w.toNs) = [] :=
      List.filter_eq_nil_iff.2 fun ev hev hin =>
        List.filter_eq_nil_iff.1 hnil ev hev (admitted_of_inAggWindow hin)
    rw [blockSums, hwin, blockExact, hmerges, hnil]
    exact ⟨by simpa using h, BlockAgg.SameKind.refl _, by simp⟩
  rcases hinfo : r.reader.blockInfo b with _ | bi
  · simp only [windowBlock, hinfo] at hstep
    exact absurd hstep (by simp)
  simp only [windowBlock, hinfo] at hstep
  by_cases htype : bi.blockType ≠ BlockType.transitions.code
  · rw [if_pos htype] at hstep
    split_ifs at hstep with hover
    obtain rfl := Except.ok.inj hstep
    exact hnone (filter_admitted_eq_nil hcov hinfo (Or.inr (by simpa using hover)))
      (by simp [mergesBlock, hinfo, htype])
  rw [if_neg htype] at hstep
  rw [not_not] at htype
  have hmerges : mergesBlock r w b = decide (planBlock (r.blockIdentity b bi)
      (w.lookup (r.blockIdentity b bi)).isSome w.fromNs w.toNs = .merge) := by
    simp [mergesBlock, hinfo, htype]
  split at hstep
  · -- skipped
    rename_i hplan
    obtain rfl := Except.ok.inj hstep
    exact hnone (filter_admitted_eq_nil hcov hinfo (planBlock_spec.1 hplan))
      (by rw [hmerges, hplan]; rfl)
  · exact absurd hstep (by simp)
  · -- merged
    rename_i cached hplan hlookup
    obtain ⟨acc, hacc, hstep⟩ := Run.bind_eq_ok.1 hstep
    obtain rfl := Except.ok.inj hstep
    obtain ⟨-, mem, id, evs, hdecode, hbuild⟩ := hcache b bi cached hinfo hlookup
    obtain ⟨hfrom, hto⟩ := planBlock_spec.2 hplan
    have hall : (r.recordsOf lz b).filter (·.inAggWindow w.fromNs w.toNs) = evs := by
      rw [List.filter_eq_self.2 (inAggWindow_of_inside hcov hinfo hfrom hto), recordsOf_eq hdecode]
    obtain ⟨hsums, hkind⟩ := mergeBlockAgg_sums h (buildBlockAgg_sums hbuild).1 hacc
    refine ⟨?_, hkind, ?_⟩
    · rw [blockSums, hall]
      exact hsums
    · rw [blockExact, hmerges, hplan, hinfo]
      rfl
  · -- decoded
    rename_i hplan
    rw [decodeWindowBlock] at hstep
    split_ifs at hstep
    split at hstep
    · exact absurd hstep (by simp)
    rename_i evs bi' hdecode
    obtain ⟨⟨acc, admitted⟩, hadd, hstep⟩ := Run.bind_eq_ok.1 hstep
    obtain rfl := Except.ok.inj hstep
    obtain ⟨hsums, hkind, hnum⟩ := addAggEvents_sums h hadd
    refine ⟨?_, hkind, ?_⟩
    · rw [blockSums, recordsOf_eq hdecode]
      exact hsums
    · rw [blockExact, hmerges, hplan, recordsOf_eq hdecode]
      exact congrArg (s.exactInWindow + ·) hnum

/-- **The run.** -/
theorem windowFromReader_spec (hcov : r.Covers lz) (hcache : CacheOf lz r w.lookup) {m : AggSums}
    (h : s.acc.Sums m) (hrun : windowFromReader lz r w s = .ok out) :
    out.acc.Sums (m + (((r.records lz).filter (·.inAggWindow w.fromNs w.toNs)).map eventSums).sum) ∧
      out.acc.SameKind s.acc ∧ out.exactInWindow = s.exactInWindow +
        ((List.range r.reader.blockOffsets.length).map (blockExact lz r w)).sum := by
  rw [windowFromReader] at hrun
  split_ifs at hrun
  have hsteps := Run.foldlM_adds (M := AggSums × ℕ)
    (P := fun s' n => s'.acc.Sums n.1 ∧ s'.acc.SameKind s.acc ∧ s'.exactInWindow = n.2)
    (w := fun b => (blockSums lz r w b, blockExact lz r w b))
    (List.range r.reader.blockOffsets.length)
    (fun b _ s₁ s₂ n h₁ hstep => by
      obtain ⟨hsums, hkind, hexact⟩ := windowBlock_spec hcov hcache h₁.1 hstep
      exact ⟨hsums, hkind.trans h₁.2.1, by rw [hexact, h₁.2.2]; rfl⟩)
    s out (m, s.exactInWindow) ⟨h, BlockAgg.SameKind.refl _, rfl⟩ hrun
  rw [Tally.sum_map_prodMk] at hsteps
  rw [TraceReader.records, Tally.sum_filter_flatMap]
  exact hsteps

/-! ### The same tables -/

/-- An accumulator: what `pgwt_block_agg_init_window` makes, and what all operations keep. -/
structure BlockAgg.Accumulator (a : BlockAgg) : Prop extends a.IsWindow where
  sums : ∃ s, a.Sums s

theorem initWindowAgg_accumulator : initWindowAgg.Accumulator :=
  ⟨⟨rfl, rfl⟩, 0, SumTable.holds_empty, SumTable.holds_empty, rfl, rfl, counted_zero, counted_zero⟩

theorem sameTables_of_sums {a b : BlockAgg} {s : AggSums} (ha : a.Sums s) (hb : b.Sums s)
    (hwa : a.IsWindow) (hwb : b.IsWindow) : a.SameTables b := by
  have hma : a.mode ≠ .none := by simp [hwa.mode]
  have hmb : b.mode ≠ .none := by simp [hwb.mode]
  have hpairs := Prod.ext_iff.1 (ha.pairTotals.trans hb.pairTotals.symm)
  have hnodes := Prod.ext_iff.1 (ha.nodeTotals.trans hb.nodeTotals.symm)
  refine ⟨fun k => ?_, fun k => ?_, hpairs.1, hpairs.2, hnodes.1, hnodes.2⟩
  · rw [BlockAgg.lookupPair, BlockAgg.lookupPair, if_neg hma, if_neg hmb,
      ha.pairs.find?_congr hb.pairs]
  · rw [BlockAgg.lookupNode, BlockAgg.lookupNode, if_neg hma, if_neg hmb,
      ha.nodes.find?_congr hb.nodes]

theorem foldlM_addAggEvent_sums {mem : AggMemory} {a a' : BlockAgg} {s : AggSums} (h : a.Sums s)
    (hfold : evs.foldlM (addAggEvent mem) a = .ok a') :
    a'.Sums (s + (evs.map eventSums).sum) ∧ a'.SameKind a :=
  Run.foldlM_adds (P := fun b m => b.Sums m ∧ b.SameKind a) evs
    (fun ev _ b b' m hb hstep => by
      obtain ⟨hs, hk⟩ := addAggEvent_sums hb.1 hstep
      exact ⟨hs, hk.trans hb.2⟩)
    a a' s ⟨h, BlockAgg.SameKind.refl a⟩ hfold

/-! ### Without a cache -/

theorem cacheOf_none : CacheOf lz r fun _ => none := fun _ _ _ _ h => absurd h (by simp)

theorem planBlock_uncached (id : BlockIdentity) (haveAgg : Bool) (fromNs toNs : UInt64) :
    (planBlock id haveAgg fromNs toNs = .skip → planBlock id false fromNs toNs = .skip) ∧
      planBlock id false fromNs toNs ≠ .merge := by
  simp only [planBlock, Bool.not_false, if_true]
  split_ifs <;> simp

theorem decodeWindowBlock_enough {bi' : BlockInfo} {id : BlockIdentity} {t : WindowRun}
    (hmem : w.mem = .enough) (hdecode : r.decode lz b = some (evs, bi')) (ht : t.acc.IsWindow) :
    ∃ t', decodeWindowBlock lz r w t b id = .ok t' ∧ t'.acc.IsWindow := by
  obtain ⟨⟨acc, admitted⟩, hadd, hacc⟩ := addAggEvents_enough ht evs w.fromNs w.toNs
  rw [decodeWindowBlock, hmem, if_neg (by simp [AggMemory.enough]), hdecode]
  exact ⟨_, Run.bind_eq_ok.2 ⟨(acc, admitted), hadd, rfl⟩, hacc⟩

/-- What is decoded with a cache can be decoded without one. -/
theorem windowBlock_uncached (hcache : CacheOf lz r w.lookup) {s' t : WindowRun}
    (hstep : windowBlock lz r w s b = .ok s') (ht : t.acc.IsWindow) :
    ∃ t', windowBlock lz r { w with mem := .enough, lookup := fun _ => none } t b = .ok t' ∧
      t'.acc.IsWindow := by
  rcases hinfo : r.reader.blockInfo b with _ | bi
  · simp only [windowBlock, hinfo] at hstep
    exact absurd hstep (by simp)
  simp only [windowBlock, hinfo, Option.isSome_none] at hstep ⊢
  by_cases htype : bi.blockType ≠ BlockType.transitions.code
  · rw [if_pos htype] at hstep ⊢
    split_ifs at hstep ⊢
    exact ⟨t, rfl, ht⟩
  rw [if_neg htype] at hstep ⊢
  obtain ⟨hskip, hmerge⟩ := planBlock_uncached (r.blockIdentity b bi)
    (w.lookup (r.blockIdentity b bi)).isSome w.fromNs w.toNs
  split at hstep
  · rename_i hplan
    rw [hskip hplan]
    exact ⟨t, rfl, ht⟩
  · exact absurd hstep (by simp)
  · rename_i cached hplan hlookup
    obtain ⟨-, mem, id, evs, hdecode, -⟩ := hcache b bi cached hinfo hlookup
    split
    · exact ⟨t, rfl, ht⟩
    · rename_i hplan' _
      exact absurd hplan' hmerge
    · rename_i hplan' _
      exact absurd hplan' hmerge
    · exact decodeWindowBlock_enough rfl hdecode ht
  · rw [decodeWindowBlock] at hstep
    split_ifs at hstep
    split at hstep
    · exact absurd hstep (by simp)
    rename_i evs bi' hdecode
    split
    · exact ⟨t, rfl, ht⟩
    · rename_i hplan' _
      exact absurd hplan' hmerge
    · rename_i hplan' _
      exact absurd hplan' hmerge
    · exact decodeWindowBlock_enough rfl hdecode ht

theorem windowFromReader_uncached (hcache : CacheOf lz r w.lookup) (hs : s.acc.IsWindow)
    (hrun : windowFromReader lz r w s = .ok out) :
    ∃ out', windowFromReader lz r { w with mem := .enough, lookup := fun _ => none } s =
      .ok out' := by
  rw [windowFromReader] at hrun ⊢
  split_ifs at hrun ⊢
  obtain ⟨out', hout', -⟩ := Run.foldlM_succeeds (P := fun t : WindowRun => t.acc.IsWindow)
    (f := windowBlock lz r { w with mem := .enough, lookup := fun _ => none }) _
    (fun b hb t ht => by
      obtain ⟨t₁, t₂, hstep⟩ := Run.exists_of_foldlM _ _ _ hrun b hb
      exact windowBlock_uncached hcache hstep ht) s hs
  exact ⟨out', hout'⟩

/-! ### The cache changes nothing -/

/-- What is counted for a block is never less than what was admitted, and is the same if no block
that is merged claims more records than were decoded. -/
theorem blockExact_spec (hcov : r.Covers lz) (hcache : CacheOf lz r w.lookup) (b : ℕ) :
    ((r.recordsOf lz b).filter (·.admitted w.fromNs w.toNs)).length ≤ blockExact lz r w b ∧
      (blockExact lz r w b = ((r.recordsOf lz b).filter (·.admitted w.fromNs w.toNs)).length ↔
        ∀ bi, r.reader.blockInfo b = some bi → mergesBlock r w b = true →
          bi.numEvents.toNat ≤ blockEvents) := by
  by_cases hmerges : mergesBlock r w b = true
  · rw [blockExact, if_pos hmerges]
    obtain ⟨bi, hinfo, hplan⟩ := (Option.any_eq_true _ _).1 hmerges
    simp only [Bool.and_eq_true, decide_eq_true_eq] at hplan
    obtain ⟨-, hplan⟩ := hplan
    -- the block is cached, so that it can be decoded
    rcases hlookup : w.lookup (r.blockIdentity b bi) with _ | cached
    · rw [hlookup] at hplan
      exact absurd hplan (planBlock_uncached _ false _ _).2
    obtain ⟨-, mem, id, evs, hdecode, -⟩ := hcache b bi cached hinfo hlookup
    obtain ⟨hfrom, hto⟩ := planBlock_spec.2 hplan
    obtain ⟨-, hlen⟩ := decode_spec hdecode
    have hall : (r.recordsOf lz b).filter (·.admitted w.fromNs w.toNs) = evs := by
      rw [List.filter_eq_self.2 fun ev hev =>
        admitted_of_inAggWindow (inAggWindow_of_inside hcov hinfo hfrom hto ev hev),
        recordsOf_eq hdecode]
    rw [hall, hinfo, hlen]
    refine ⟨Nat.min_le_left _ _, ?_⟩
    rw [Option.map_some, Option.getD_some, eq_comm, min_eq_left_iff]
    exact ⟨fun h _ hbi _ => by rwa [← Option.some.inj hbi], fun h => h bi rfl hmerges⟩
  · rw [blockExact, if_neg hmerges]
    exact ⟨le_rfl, fun _ _ _ h => absurd h hmerges, fun _ => rfl⟩

theorem lt_of_blockInfo (hinfo : r.reader.blockInfo b = some bi) :
    b < r.reader.blockOffsets.length := by
  rw [EventReader.blockInfo] at hinfo
  obtain ⟨offset, hoff, -⟩ := Option.bind_eq_some_iff.1 hinfo
  exact (List.getElem?_eq_some_iff.1 hoff).1

theorem counted_iff (hcov : r.Covers lz) (hcache : CacheOf lz r w.lookup) (hs : s.acc.Accumulator)
    (hrun : windowFromReader lz r w s = .ok out) :
    out.exactInWindow = s.exactInWindow +
        ((r.records lz).filter (·.admitted w.fromNs w.toNs)).length ↔
      ∀ b bi, r.reader.blockInfo b = some bi → mergesBlock r w b = true →
        bi.numEvents.toNat ≤ blockEvents := by
  obtain ⟨m, hm⟩ := hs.sums
  rw [(windowFromReader_spec hcov hcache hm hrun).2.2, Nat.add_left_cancel_iff,
    TraceReader.records, Tally.length_filter_flatMap,
    Tally.sum_map_eq_iff_of_le fun b _ => (blockExact_spec hcov hcache b).1]
  constructor
  · intro h b bi hinfo
    exact (blockExact_spec hcov hcache b).2.1
      (h b (List.mem_range.2 (lt_of_blockInfo hinfo))) bi hinfo
  · intro h b _
    exact (blockExact_spec hcov hcache b).2.2 (h b)

/-- **The cache changes nothing if, and only if, no merged block claims more records than a block
can have.** The tables are the same in any case. A header that claims more is let through if the
file has a footer; decoding stops at the size of the buffer, merging adds what the header says. -/
theorem cacheChangesNothing_iff (hcov : r.Covers lz) (hcache : CacheOf lz r w.lookup)
    {s out : WindowRun} (hs : s.acc.Accumulator) (hrun : windowFromReader lz r w s = .ok out) :
    CacheChangesNothing lz r w s out ↔ ∀ b bi, r.reader.blockInfo b = some bi →
      mergesBlock r w b = true → bi.numEvents.toNat ≤ blockEvents := by
  refine ⟨fun h => (counted_iff hcov hcache hs hrun).1 h.counted, fun h => ?_⟩
  have hcounted := (counted_iff hcov hcache hs hrun).2 h
  obtain ⟨m, hm⟩ := hs.sums
  obtain ⟨hsums, hkind, -⟩ := windowFromReader_spec hcov hcache hm hrun
  have hout := hs.toIsWindow.of_sameKind hkind
  refine ⟨fun mem out' hrun' => ?_, windowFromReader_uncached hcache hs.toIsWindow hrun,
    fun mem a hfold => ?_, ?_, hcounted⟩
  · -- the run without a cache merges nothing
    obtain ⟨hsums', hkind', -⟩ := windowFromReader_spec hcov cacheOf_none hm hrun'
    have hcounted' := (counted_iff hcov cacheOf_none hs hrun').2 fun b bi hinfo hmerges => by
      obtain ⟨bi', hinfo', hplan⟩ := (Option.any_eq_true _ _).1 hmerges
      simp only [Bool.and_eq_true, decide_eq_true_eq] at hplan
      exact absurd hplan.2 (planBlock_uncached _ false _ _).2
    exact ⟨sameTables_of_sums hsums hsums' hout (hs.toIsWindow.of_sameKind hkind'),
      hcounted.trans hcounted'.symm⟩
  · obtain ⟨hsums', hkind'⟩ := foldlM_addAggEvent_sums hm hfold
    exact sameTables_of_sums hsums hsums' hout (hs.toIsWindow.of_sameKind hkind')
  · obtain ⟨a, ha, -⟩ := Run.foldlM_succeeds (P := BlockAgg.IsWindow)
      ((r.records lz).filter (·.inAggWindow w.fromNs w.toNs))
      (fun ev _ a ha => addAggEvent_enough ha ev) s.acc hs.toIsWindow
    exact ⟨a, ha⟩

/-! ### What a run offers -/

/-- An aggregate of a block of the file. -/
def Cacheable (lz : Lz4) (r : TraceReader) (a : BlockAgg) : Prop :=
  ∃ b bi, r.reader.blockInfo b = some bi ∧ BuiltFrom lz r b bi a

theorem windowBlock_offered {s' : WindowRun} (h : ∀ a ∈ s.offered, Cacheable lz r a)
    (hstep : windowBlock lz r w s b = .ok s') : ∀ a ∈ s'.offered, Cacheable lz r a := by
  rcases hinfo : r.reader.blockInfo b with _ | bi
  · simp only [windowBlock, hinfo] at hstep
    exact absurd hstep (by simp)
  simp only [windowBlock, hinfo] at hstep
  by_cases htype : bi.blockType ≠ BlockType.transitions.code
  · rw [if_pos htype] at hstep
    split_ifs at hstep
    obtain rfl := Except.ok.inj hstep
    exact h
  rw [if_neg htype] at hstep
  split at hstep
  · obtain rfl := Except.ok.inj hstep
    exact h
  · exact absurd hstep (by simp)
  · obtain ⟨acc, -, hstep⟩ := Run.bind_eq_ok.1 hstep
    obtain rfl := Except.ok.inj hstep
    exact h
  · -- the block that was decoded is offered
    rw [decodeWindowBlock] at hstep
    split_ifs at hstep
    split at hstep
    · exact absurd hstep (by simp)
    rename_i evs bi' hdecode
    obtain ⟨⟨acc, admitted⟩, -, hstep⟩ := Run.bind_eq_ok.1 hstep
    obtain rfl := Except.ok.inj hstep
    obtain rfl := Option.some.inj (hinfo.symm.trans (decode_spec hdecode).1)
    intro a ha
    rcases List.mem_append.1 ha with ha | ha
    · exact h a ha
    · rcases hbuild : buildBlockAgg (w.freshMem b) (r.blockIdentity b bi) bi.blockType true evs
        with e | a'
      · rw [hbuild] at ha
        exact absurd ha List.not_mem_nil
      · rw [hbuild] at ha
        obtain rfl := List.mem_singleton.1 ha
        exact ⟨b, bi, hinfo, matchesBlock_of_build hbuild, _, _, evs, hdecode, hbuild⟩

/-- **What a run offers to the cache may be cached.** -/
theorem windowFromReader_offered (hs : ∀ a ∈ s.offered, Cacheable lz r a)
    (hrun : windowFromReader lz r w s = .ok out) : ∀ a ∈ out.offered, Cacheable lz r a := by
  rw [windowFromReader] at hrun
  split_ifs at hrun
  exact Run.foldlM_invariant (P := fun s : WindowRun => ∀ a ∈ s.offered, Cacheable lz r a) _
    (fun b _ _ _ h hstep => windowBlock_offered h hstep) s out hs hrun

/-! ### A file of one block -/

/-- The compressed payload of a block, of which nothing repeats. -/
def oneBlockPayload (evs : List TraceEvent) : Bytes :=
  lz4LiteralPrefix (encodeBlock evs).length ++ encodeBlock evs

/-- The header of a block that says `n` records, all at one time. -/
def oneBlockHeader (n : UInt32) (evs : List TraceEvent) : BlockHeader where
  firstTimestampNs := 5
  lastTimestampNs := 5
  numEvents := n
  compressedSize := UInt32.ofNat (oneBlockPayload evs).length
  uncompressedSize := UInt32.ofNat (encodeBlock evs).length
  blockType := 0
  reserved := 0
  samplePeriodNs := 0

/-- A reader of a file of this block. -/
def oneBlockReader (n : UInt32) (evs : List TraceEvent) : TraceReader where
  header := ⟨traceMagic, 3, 0, 17, 1, 2⟩
  reader :=
    { file := FileHeader.bytes ⟨traceMagic, 3, 0, 17, 1, 2⟩ ++
        ((oneBlockHeader n evs).bytes ++ oneBlockPayload evs)
      version := 3
      blockOffsets := [28]
      decodeBufSize_lt := initialDecodeBuf_lt }
  version_eq := rfl

theorem readBlockHeader_oneBlock (n : UInt32) (evs : List TraceEvent) :
    readBlockHeader ((oneBlockReader n evs).reader.file.drop 28) =
      some (oneBlockHeader n evs, oneBlockPayload evs) := by
  rw [oneBlockReader, List.drop_left' (length_fileHeader_bytes _)]
  exact inverts_blockHeader (oneBlockHeader n evs) trivial (oneBlockPayload evs)

theorem blockInfo_oneBlock (n : UInt32) (evs : List TraceEvent) :
    (oneBlockReader n evs).reader.blockInfo 0 = some ⟨0, 0, 5, 5, n⟩ := by
  have hread := readBlockHeader_oneBlock n evs
  have hoff : (oneBlockReader n evs).reader.blockOffsets[0]? = some 28 := rfl
  rw [EventReader.blockInfo, hoff]
  simp only [Option.bind_eq_bind, Option.bind_some]
  rw [show (28 : UInt64).toNat = 28 from rfl, hread]
  rfl

/-- The block decodes to its records if the header says as many, or more than the buffer has room
for. -/
theorem decode_oneBlock {n : UInt32} (hlen : evs.length ≤ blockEvents)
    (hn : min (toCInt n) blockEvents = evs.length) :
    (oneBlockReader n evs).decode literalLz4 0 =
      some (evs.map TraceEvent.asTransition, ⟨0, 0, 5, 5, n⟩) := by
  have hsize := length_encodeBlock_le evs
  have hpre := length_lz4LiteralPrefix_le (encodeBlock evs).length
  have hplen : (oneBlockPayload evs).length =
      (lz4LiteralPrefix (encodeBlock evs).length).length + (encodeBlock evs).length :=
    List.length_append
  simp only [blockEvents] at hlen
  have hcs : (oneBlockHeader n evs).compressedSize.toNat = (oneBlockPayload evs).length :=
    Nat.mod_eq_of_lt (by omega)
  have hus : (oneBlockHeader n evs).uncompressedSize.toNat = (encodeBlock evs).length :=
    Nat.mod_eq_of_lt (by omega)
  have hread := readBlockHeader_oneBlock n evs
  have hlz : lz4DecompressInt literalLz4 (oneBlockPayload evs)
      (max (oneBlockReader n evs).reader.decodeBufSize
        (oneBlockHeader n evs).uncompressedSize.toNat) = some (encodeBlock evs) := by
    have hcap : max (oneBlockReader n evs).reader.decodeBufSize
        (oneBlockHeader n evs).uncompressedSize.toNat < 2 ^ 31 :=
      max_lt (oneBlockReader n evs).reader.decodeBufSize_lt (by rw [hus]; omega)
    rw [lz4DecompressInt, if_neg (by omega)]
    exact literalLz4.decompress_compress (encodeBlock evs) (oneBlockPayload evs).length _ _
      (if_pos le_rfl) (by rw [hus]; exact le_max_right _ _)
  have hbody : decodePayload 0 3 evs.length (encodeBlock evs) =
      some (evs.map TraceEvent.asTransition) :=
    decodeTransitionPayload_encodeBlock (by decide) evs
  rw [TraceReader.decode, decodeBlockInfo, if_neg (by simp [oneBlockReader])]
  have hoff : (oneBlockReader n evs).reader.blockOffsets[(((0 : ℕ) : ℤ)).toNat]? = some 28 := rfl
  simp only [hoff, Option.bind_eq_bind, Option.bind_some]
  rw [show (28 : UInt64).toNat = 28 from rfl, hread]
  have htype : ¬ 1 < (oneBlockHeader n evs).blockType := by
    change ¬ (1 : UInt16) < 0
    decide
  have hchunk : readChunk (oneBlockPayload evs).length (oneBlockPayload evs) =
      some (oneBlockPayload evs, []) := by
    simpa using readChunk_append (rfl : (oneBlockPayload evs).length = _) []
  have hcount : min (toCInt (oneBlockHeader n evs).numEvents) blockEvents = evs.length := hn
  have hbody' : decodePayload (oneBlockHeader n evs).blockType
      (oneBlockReader n evs).reader.version evs.length (encodeBlock evs) =
      some (evs.map TraceEvent.asTransition) := hbody
  simp only [Option.bind_some, hcs, if_neg htype, hchunk, hlz, hcount, Int.toNat_natCast, hbody',
    if_neg (show ¬(evs.length : ℤ) < 0 by omega)]
  rfl

/-- The aggregates of the block, and a window around it. -/
def oneBlockArgs (evs : List TraceEvent) : WindowArgs where
  mem := .enough
  freshMem _ := .enough
  lookup id := (buildBlockAgg .enough id 0 true (evs.map TraceEvent.asTransition)).toOption
  fromNs := 0
  toNs := 10

section OneBlock

variable {n : UInt32} {evs : List TraceEvent} (hlen : evs.length ≤ blockEvents)
  (hn : min (toCInt n) blockEvents = evs.length)

include hlen hn

theorem eq_zero_of_decode {evs' : List TraceEvent}
    (h : (oneBlockReader n evs).decode literalLz4 b = some (evs', bi)) :
    b = 0 ∧ evs' = evs.map TraceEvent.asTransition ∧ bi = ⟨0, 0, 5, 5, n⟩ := by
  have hlt : b < 1 := lt_of_blockInfo (decode_spec h).1
  obtain rfl : b = 0 := by omega
  rw [decode_oneBlock hlen hn] at h
  obtain ⟨rfl, rfl⟩ := Prod.ext_iff.1 (Option.some.inj h)
  exact ⟨rfl, rfl, rfl⟩

theorem covers_oneBlock (hts : ∀ ev ∈ evs, ev.timestampNs = 5) :
    (oneBlockReader n evs).Covers literalLz4 := by
  intro b evs' bi h ev hev
  obtain ⟨-, rfl, rfl⟩ := eq_zero_of_decode hlen hn h
  obtain ⟨ev', hev', rfl⟩ := List.mem_map.1 hev
  have htime : (TraceEvent.asTransition ev').timestampNs = 5 := hts ev' hev'
  rw [htime]
  exact ⟨UInt64.le_refl _, UInt64.le_refl _⟩

theorem cacheOf_oneBlock :
    CacheOf literalLz4 (oneBlockReader n evs) (oneBlockArgs evs).lookup := by
  intro b bi a hinfo hlookup
  have hlt : b < 1 := lt_of_blockInfo hinfo
  obtain rfl : b = 0 := by omega
  obtain rfl := Option.some.inj ((blockInfo_oneBlock n evs).symm.trans hinfo)
  rcases hbuild : buildBlockAgg .enough ((oneBlockReader n evs).blockIdentity 0 ⟨0, 0, 5, 5, n⟩) 0
    true (evs.map TraceEvent.asTransition) with e | a'
  · simp only [oneBlockArgs, hbuild] at hlookup
    exact absurd hlookup (by simp [Except.toOption])
  · simp only [oneBlockArgs, hbuild] at hlookup
    obtain rfl := Option.some.inj hlookup
    exact ⟨matchesBlock_of_build hbuild, _, _, _, decode_oneBlock hlen hn, hbuild⟩

omit hlen hn in
/-- The block is merged. -/
theorem run_oneBlock :
    mergesBlock (oneBlockReader n evs) (oneBlockArgs evs) 0 = true ∧
      ∃ out, windowFromReader literalLz4 (oneBlockReader n evs) (oneBlockArgs evs)
        ⟨initWindowAgg, 0, 0, 0, []⟩ = .ok out := by
  have hknown :
      ((oneBlockReader n evs).blockIdentity 0 ⟨0, 0, 5, 5, n⟩).trace.resolvable = true := by
    change TraceIdentity.resolvable ⟨3, 17, 1, 2⟩ = true
    decide
  obtain ⟨a, ha⟩ := buildBlockAgg_enough hknown (show ¬ (5 : UInt64) < 5 by decide)
    (evs.map TraceEvent.asTransition)
  have hlookup : (oneBlockArgs evs).lookup
      ((oneBlockReader n evs).blockIdentity 0 ⟨0, 0, 5, 5, n⟩) = some a :=
    congrArg Except.toOption ha
  have hplan : planBlock ((oneBlockReader n evs).blockIdentity 0 ⟨0, 0, 5, 5, n⟩) true
      (oneBlockArgs evs).fromNs (oneBlockArgs evs).toNs = .merge := by
    simp [planBlock, TraceReader.blockIdentity, fileCanContribute, oneBlockArgs]
  obtain ⟨-, hid, hmode, hversion⟩ := buildBlockAgg_sums ha
  obtain ⟨d, hd⟩ := mergeBlockAgg_enough (show initWindowAgg.IsWindow from ⟨rfl, rfl⟩) rfl hmode
    hversion hid hknown List.not_mem_nil
  constructor
  · simp [mergesBlock, blockInfo_oneBlock, hlookup, hplan, BlockType.code]
  · have hidentity : (oneBlockReader n evs).identity.resolvable = true := hknown
    rw [windowFromReader, if_neg (by simp [initWindowAgg]), if_neg (by simp [oneBlockArgs]),
      if_neg (by simp [hidentity])]
    have hrange : List.range (oneBlockReader n evs).reader.blockOffsets.length = [0] := rfl
    rw [hrange, List.foldlM_cons]
    obtain ⟨s', hs'⟩ : ∃ s', windowBlock literalLz4 (oneBlockReader n evs) (oneBlockArgs evs)
        ⟨initWindowAgg, 0, 0, 0, []⟩ 0 = .ok s' := by
      simp only [windowBlock, blockInfo_oneBlock, hlookup, Option.isSome_some, hplan,
        BlockType.code, ne_eq, not_true_eq_false, if_false]
      exact ⟨_, Run.bind_eq_ok.2 ⟨d, hd, rfl⟩⟩
    exact ⟨s', Run.bind_eq_ok.2 ⟨s', hs', rfl⟩⟩

end OneBlock

/-- A record of a block. -/
def aggRecord : TraceEvent where
  timestampNs := 5
  pid := 7
  oldEvent := 0x0A000001
  newEvent := 0x01000001
  flags := 0
  durationNs := 2
  queryId := 0
  cpuNs := 0

theorem cacheChangesNothing_one :
    ∃ out, windowFromReader literalLz4 (oneBlockReader 1 [aggRecord]) (oneBlockArgs [aggRecord])
      ⟨initWindowAgg, 0, 0, 0, []⟩ = .ok out ∧
      CacheChangesNothing literalLz4 (oneBlockReader 1 [aggRecord]) (oneBlockArgs [aggRecord])
        ⟨initWindowAgg, 0, 0, 0, []⟩ out := by
  obtain ⟨-, out, hrun⟩ := @run_oneBlock 1 [aggRecord]
  refine ⟨out, hrun, (cacheChangesNothing_iff
    (covers_oneBlock (by decide) (by decide) fun ev hev => ?_)
    (cacheOf_oneBlock (by decide) (by decide)) initWindowAgg_accumulator hrun).2
    fun b bi hinfo _ => ?_⟩
  · rw [List.mem_singleton.1 hev]
    rfl
  · obtain rfl : b = 0 := Nat.lt_one_iff.1 (lt_of_blockInfo hinfo)
    obtain rfl := Option.some.inj ((blockInfo_oneBlock 1 [aggRecord]).symm.trans hinfo)
    decide

/-- Without a cache, the aggregate of the block is offered. -/
theorem windowFromReader_offered_one : ∃ out,
    windowFromReader literalLz4 (oneBlockReader 1 [aggRecord])
      { oneBlockArgs [aggRecord] with mem := .enough, lookup := fun _ => none }
      ⟨initWindowAgg, 0, 0, 0, []⟩ = .ok out ∧
        ∀ a ∈ out.offered, Cacheable literalLz4 (oneBlockReader 1 [aggRecord]) a := by
  obtain ⟨-, out, hrun⟩ := @run_oneBlock 1 [aggRecord]
  obtain ⟨out', hrun'⟩ :=
    windowFromReader_uncached (cacheOf_oneBlock (by decide) (by decide)) ⟨rfl, rfl⟩ hrun
  exact ⟨out', hrun', windowFromReader_offered (by simp) hrun'⟩

/-- A header that says 4097 records over 4096: with its aggregate in the cache, one record more is
counted in the window than there is. -/
theorem cacheChangesNothing_overfull :
    ∃ r w out, TraceReader.Covers literalLz4 r ∧ CacheOf literalLz4 r w.lookup ∧
      windowFromReader literalLz4 r w ⟨initWindowAgg, 0, 0, 0, []⟩ = .ok out ∧
      ¬ CacheChangesNothing literalLz4 r w ⟨initWindowAgg, 0, 0, 0, []⟩ out := by
  obtain ⟨hmerges, out, hrun⟩ := @run_oneBlock 4097 (List.replicate 4096 aggRecord)
  have hlen : (List.replicate 4096 aggRecord).length ≤ blockEvents := by
    rw [List.length_replicate]
    decide
  have hn : min (toCInt 4097) blockEvents = (List.replicate 4096 aggRecord).length := by
    rw [List.length_replicate]
    decide
  have hcov := covers_oneBlock hlen hn fun ev hev => by
    rw [(List.mem_replicate.1 hev).2]
    rfl
  have hcache := cacheOf_oneBlock hlen hn
  refine ⟨_, _, out, hcov, hcache, hrun, fun h => ?_⟩
  have hle := (counted_iff hcov hcache initWindowAgg_accumulator hrun).1 h.counted 0 _
    (blockInfo_oneBlock 4097 _) hmerges
  exact absurd hle (by decide)

end PgWaitTracer
