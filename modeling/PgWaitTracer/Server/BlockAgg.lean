import Mathlib.Data.UInt
import PgWaitTracer.EventWriter.TraceFile
import PgWaitTracer.Lib.Run
import PgWaitTracer.Lib.SumTable
import PgWaitTracer.Lib.Tally

/-!
# Block aggregates

The pairs and nodes of the transitions of a block are counted once, and blocks that are whole in a
window are merged from their aggregates (`src/block_agg.c`). Here are the tables, what adds to them,
and the plan for a block.

A count is a natural number: no run sees 2^64 records. A sum of durations wraps. Which sizes of a
table can be had is an input (`AggMemory`); of an accumulator every size is asked for at most once.

## Main results

* `buildBlockAgg_sums`, `addAggEvent_sums`: records add their shares.
* `mergeBlockAgg_sums`: merging adds maps.
-/

namespace PgWaitTracer

/-! ### Which records count -/

/-- `pgwt_block_agg_record_counts`: the record is of a pair. -/
def TraceEvent.recordCounts (ev : TraceEvent) : Bool :=
  !ev.isSample && !(ev.timestampNs < ev.durationNs) &&
    !(isHiddenEvent ev.oldEvent || isHiddenEvent ev.newEvent) && ev.newEvent ≠ eventExit &&
    !(isMarker ev.oldEvent || isMarker ev.newEvent)

/-- `pgwt_block_agg_node_counts`: the record is of a node. -/
def TraceEvent.nodeCounts (ev : TraceEvent) : Bool :=
  !ev.isSample && !(isHiddenEvent ev.oldEvent || isMarker ev.oldEvent)

/-- `pgwt_block_agg_in_window`. -/
def TraceEvent.inAggWindow (fromNs toNs : UInt64) (ev : TraceEvent) : Bool :=
  fromNs ≤ ev.timestampNs && ev.timestampNs < toNs

/-- `pgwt_block_agg_admitted`. -/
def TraceEvent.admitted (fromNs toNs : UInt64) (ev : TraceEvent) : Bool :=
  fromNs ≤ ev.timestampNs && ev.timestampNs ≤ toNs

/-- `pgwt_block_agg_file_can_contribute`. -/
def fileCanContribute (first last fromNs toNs : UInt64) : Bool :=
  !(toNs < first) && !(last < fromNs)

/-! ### Identities -/

/-- `struct pgwt_trace_identity`. -/
structure TraceIdentity where
  traceVersion : UInt32
  pgVersion : UInt32
  startTimeNs : UInt64
  clockOffsetNs : UInt64
  deriving DecidableEq, Repr

/-- `pgwt_trace_identity_resolvable`. -/
def TraceIdentity.resolvable (t : TraceIdentity) : Bool := t.traceVersion ≠ 0 && t.startTimeNs ≠ 0

/-- `trace_identity_equal`: what is unknown is equal to nothing. -/
def TraceIdentity.same (a b : TraceIdentity) : Bool := a.resolvable && b.resolvable && a = b

/-- `struct pgwt_block_identity`. -/
structure BlockIdentity where
  trace : TraceIdentity
  blockIndex : UInt32
  numEvents : UInt32
  fileOffset : UInt64
  firstTimestampNs : UInt64
  lastTimestampNs : UInt64
  deriving DecidableEq, Repr

/-- `struct pgwt_block_agg_key`. -/
structure BlockAggKey where
  startTimeNs : UInt64
  clockOffsetNs : UInt64
  fileOffset : UInt64
  blockIndex : UInt32
  deriving DecidableEq, Repr

/-- `key_of`. -/
def keyOfBlock (id : BlockIdentity) : BlockAggKey :=
  ⟨id.trace.startTimeNs, id.trace.clockOffsetNs, id.fileOffset, id.blockIndex⟩

/-! ### Aggregates -/

/-- The refusals of `enum pgwt_bagg_status`. -/
inductive BaggRefusal
  | version | identity | duplicate | blockType | uncommitted | nomem | mode | invalid
  deriving DecidableEq, Repr

/-- `enum pgwt_bagg_mode`. -/
inductive BaggMode
  | none | block | window
  deriving DecidableEq, Repr

/-- `struct pgwt_block_agg_pair`. -/
structure BlockAggPair where
  fromEvent : UInt32
  toEvent : UInt32
  count : ℕ
  totalNs : UInt64
  deriving DecidableEq, Repr

/-- `struct pgwt_block_agg_node`. -/
structure BlockAggNode where
  eventId : UInt32
  count : ℕ
  totalNs : UInt64
  deriving DecidableEq, Repr

/-- A count and a sum of durations. -/
abbrev AggCell := ℕ × UInt64

/-- A pair is a key and a cell. -/
def pairRow : (UInt32 × UInt32) × AggCell ≃ BlockAggPair where
  toFun r := ⟨r.1.1, r.1.2, r.2.1, r.2.2⟩
  invFun p := ((p.fromEvent, p.toEvent), (p.count, p.totalNs))
  left_inv _ := rfl
  right_inv _ := rfl

/-- A node is a key and a cell. -/
def nodeRow : UInt32 × AggCell ≃ BlockAggNode where
  toFun r := ⟨r.1, r.2.1, r.2.2⟩
  invFun n := (n.eventId, (n.count, n.totalNs))
  left_inv _ := rfl
  right_inv _ := rfl

/-- `pair_hash`. -/
def pairHash (k : UInt32 × UInt32) : ℕ :=
  let h := (k.1.toUInt64 <<< 32) ||| k.2.toUInt64
  let h := (h ^^^ (h >>> 33)) * 0xff51afd7ed558ccd
  let h := (h ^^^ (h >>> 33)) * 0xc4ceb9fe1a85ec53
  (h ^^^ (h >>> 33)).toUInt32.toNat

/-- `node_hash`. -/
def nodeHash (id : UInt32) : ℕ :=
  let h := id.toUInt64
  let h := (h ^^^ (h >>> 33)) * 0xff51afd7ed558ccd
  (h ^^^ (h >>> 29)).toUInt32.toNat

/-- `struct pgwt_block_agg`. A slot of a table is in use if its count is not 0. -/
structure BlockAgg where
  version : UInt32
  mode : BaggMode
  id : Option BlockIdentity
  anyTrace : Bool
  bounds : Option (UInt64 × UInt64) := none
  totalTransitions : ℕ := 0
  pairTotalNs : UInt64 := 0
  nodeRecords : ℕ := 0
  nodeTotalNs : UInt64 := 0
  payloadHash : UInt64 := 0
  pairs : GrowTable BlockAggPair := {}
  nodes : GrowTable BlockAggNode := {}
  keys : List BlockAggKey := []
  keyCap : ℕ := 0

/-- `PGWT_BLOCK_AGG_VERSION`. -/
def blockAggVersion : UInt32 := 1

/-- `pgwt_block_agg_init_window`. -/
def initWindowAgg : BlockAgg where
  version := blockAggVersion
  mode := .window
  id := none
  anyTrace := true

/-- Which sizes can be had: of the two tables, of the keys, and of the decode buffer. -/
structure AggMemory where
  pairs : ℕ → Bool
  nodes : ℕ → Bool
  keys : ℕ → Bool
  buf : Bool

/-- Memory that does not run out. -/
def AggMemory.enough : AggMemory := ⟨fun _ => true, fun _ => true, fun _ => true, true⟩

/-! ### Adding -/

/-- The number of slots after growth. -/
def grownSize (n : ℕ) : ℕ := if n = 0 then 64 else 2 * n

/-- `pair_add` and `node_add` up to the totals: the table grows first if another row would fill 70 %
of it. -/
def tableAdd {K R : Type} [DecidableEq K] (row : K × AggCell ≃ R) (hash : K → ℕ)
    (canHave : ℕ → Bool) (t : GrowTable R) (k : K) (c : AggCell) : Except BaggRefusal (GrowTable R) :=
  if (t.slots.length = 0 ∨ t.slots.length * 7 ≤ (t.num + 1) * 10) ∧
      canHave (grownSize t.slots.length) = false then .error .nomem
  else .ok (SumTable.add row hash 64 t k c)

/-- `pair_add`. -/
def pairAdd (mem : AggMemory) (a : BlockAgg) (k : UInt32 × UInt32) (c : AggCell) :
    Except BaggRefusal BlockAgg :=
  if c.1 = 0 then .ok a
  else do
    let pairs ← tableAdd pairRow pairHash mem.pairs a.pairs k c
    pure { a with
      pairs
      totalTransitions := a.totalTransitions + c.1
      pairTotalNs := a.pairTotalNs + c.2 }

/-- `node_add`. -/
def nodeAdd (mem : AggMemory) (a : BlockAgg) (k : UInt32) (c : AggCell) :
    Except BaggRefusal BlockAgg :=
  if c.1 = 0 then .ok a
  else do
    let nodes ← tableAdd nodeRow nodeHash mem.nodes a.nodes k c
    pure { a with
      nodes
      nodeRecords := a.nodeRecords + c.1
      nodeTotalNs := a.nodeTotalNs + c.2 }

/-- `key_add`. -/
def keyAdd (mem : AggMemory) (a : BlockAgg) (k : BlockAggKey) : Except BaggRefusal BlockAgg :=
  if k ∈ a.keys then .error .duplicate
  else
    let ncap := if a.keyCap = 0 then 16 else a.keyCap * 2
    if a.keys.length ≠ a.keyCap then .ok { a with keys := a.keys ++ [k] }
    else if mem.keys ncap then .ok { a with keys := a.keys ++ [k], keyCap := ncap }
    else .error .nomem

/-- `bounds_widen`. -/
def BlockAgg.boundsWiden (a : BlockAgg) (first last : UInt64) : BlockAgg :=
  match a.bounds with
  | none => { a with bounds := some (first, last) }
  | some (f, l) =>
    { a with bounds := some (if first < f then first else f, if l < last then last else l) }

/-- The record in the pair table, if it counts there. -/
def countPair (mem : AggMemory) (a : BlockAgg) (ev : TraceEvent) : Except BaggRefusal BlockAgg :=
  if ev.recordCounts then pairAdd mem a (ev.oldEvent, ev.newEvent) (1, ev.durationNs) else .ok a

/-- The record in the node table, if it counts there. -/
def countNode (mem : AggMemory) (a : BlockAgg) (ev : TraceEvent) : Except BaggRefusal BlockAgg :=
  if ev.nodeCounts then nodeAdd mem a ev.oldEvent (1, ev.durationNs) else .ok a

/-- The record in both tables, as `pgwt_block_agg_build` and `pgwt_block_agg_add_event` have it. -/
def countAggEvent (mem : AggMemory) (a : BlockAgg) (ev : TraceEvent) :
    Except BaggRefusal BlockAgg := do
  let a ← countPair mem a ev
  countNode mem a ev

/-- One 64-bit word of the FNV-1a hash. -/
def fnvWord (h v : UInt64) : UInt64 :=
  (List.range 8).foldl
    (fun h b => (h ^^^ ((v >>> UInt64.ofNat (b * 8)) &&& 0xff)) * 0x100000001b3) h

/-- `payload_hash_of`. -/
def payloadHashOf (evs : List TraceEvent) : UInt64 :=
  evs.foldl (fun h ev =>
    [ev.timestampNs, ev.pid.toUInt64, ev.oldEvent.toUInt64, ev.newEvent.toUInt64, ev.durationNs,
      ev.queryId].foldl fnvWord h) 0xcbf29ce484222325

/-- `pgwt_block_agg_build`. -/
def buildBlockAgg (mem : AggMemory) (id : BlockIdentity) (blockType : UInt16) (committed : Bool)
    (evs : List TraceEvent) : Except BaggRefusal BlockAgg :=
  if blockType ≠ BlockType.transitions.code then .error .blockType
  else if !committed then .error .uncommitted
  else if !id.trace.resolvable then .error .invalid
  else if id.lastTimestampNs < id.firstTimestampNs then .error .invalid
  else do
    let a : BlockAgg :=
      { version := blockAggVersion, mode := .block, id := some id, anyTrace := false }
    let a ← evs.foldlM (countAggEvent mem)
      (a.boundsWiden id.firstTimestampNs id.lastTimestampNs)
    pure { a with payloadHash := payloadHashOf evs }

/-- `pgwt_block_agg_add_event`. -/
def addAggEvent (mem : AggMemory) (a : BlockAgg) (ev : TraceEvent) : Except BaggRefusal BlockAgg :=
  if a.mode ≠ .window then .error .mode
  else if a.version ≠ blockAggVersion then .error .version
  else do
    let a ← countAggEvent mem a ev
    pure (if ev.recordCounts || ev.nodeCounts then a.boundsWiden ev.timestampNs ev.timestampNs
      else a)

/-- One record of `pgwt_block_agg_add_events`. -/
def admitAggEvent (mem : AggMemory) (fromNs toNs : UInt64) (s : BlockAgg × ℕ) (ev : TraceEvent) :
    Except BaggRefusal (BlockAgg × ℕ) :=
  if !ev.admitted fromNs toNs then .ok s
  else if !ev.inAggWindow fromNs toNs then .ok (s.1, s.2 + 1)
  else do
    let a ← addAggEvent mem s.1 ev
    pure (a, s.2 + 1)

/-- `pgwt_block_agg_add_events`: the accumulator, and how many records were in the window. -/
def addAggEvents (mem : AggMemory) (a : BlockAgg) (evs : List TraceEvent) (fromNs toNs : UInt64) :
    Except BaggRefusal (BlockAgg × ℕ) :=
  if a.mode ≠ .window then .error .mode
  else evs.foldlM (admitAggEvent mem fromNs toNs) (a, 0)

/-- `pgwt_block_agg_merge`. -/
def mergeBlockAgg (mem : AggMemory) (dst src : BlockAgg) : Except BaggRefusal BlockAgg :=
  if dst.mode ≠ .window then .error .mode
  else if src.mode ≠ .block then .error .mode
  else if dst.version ≠ blockAggVersion ∨ src.version ≠ blockAggVersion then .error .version
  else
    match src.id with
    | none => .error .identity
    | some id =>
      if !id.trace.resolvable then .error .identity
      else if !dst.anyTrace && !(dst.id.any fun d => d.trace.same id.trace) then .error .identity
      else do
        let a ← keyAdd mem dst (keyOfBlock id)
        let a ← (SumTable.rows src.pairs).foldlM
          (fun a p => pairAdd mem a (p.fromEvent, p.toEvent) (p.count, p.totalNs)) a
        let a ← (SumTable.rows src.nodes).foldlM
          (fun a n => nodeAdd mem a n.eventId (n.count, n.totalNs)) a
        pure (match src.bounds with
          | none => a
          | some (first, last) => a.boundsWiden first last)

/-- `pgwt_block_agg_matches`. -/
def BlockAgg.matchesBlock (a : BlockAgg) (now : BlockIdentity) : Bool :=
  a.mode = .block && a.version = blockAggVersion && a.id.any fun id =>
    id.trace.same now.trace && id.blockIndex = now.blockIndex && id.numEvents = now.numEvents &&
      id.fileOffset = now.fileOffset && id.firstTimestampNs = now.firstTimestampNs &&
      id.lastTimestampNs = now.lastTimestampNs

/-- `enum pgwt_block_plan`. -/
inductive BlockPlan
  | skip | merge | decode
  deriving DecidableEq, Repr

/-- `pgwt_block_agg_plan`. -/
def planBlock (id : BlockIdentity) (haveAgg : Bool) (fromNs toNs : UInt64) : BlockPlan :=
  if toNs < fromNs then .skip
  else if id.lastTimestampNs < id.firstTimestampNs then .decode
  else if !fileCanContribute id.firstTimestampNs id.lastTimestampNs fromNs toNs then .skip
  else if !haveAgg then .decode
  else if fromNs ≤ id.firstTimestampNs && id.lastTimestampNs < toNs then .merge
  else .decode

/-- `pgwt_block_agg_lookup`. -/
def BlockAgg.lookupPair (a : BlockAgg) (k : UInt32 × UInt32) : Option AggCell :=
  if a.mode = .none then none
  else (GrowTable.find? (SumTable.keyOf pairRow) pairHash a.pairs k).map (SumTable.amountOf pairRow)

/-- `pgwt_block_agg_node_lookup`. -/
def BlockAgg.lookupNode (a : BlockAgg) (k : UInt32) : Option AggCell :=
  if a.mode = .none then none
  else (GrowTable.find? (SumTable.keyOf nodeRow) nodeHash a.nodes k).map (SumTable.amountOf nodeRow)

/-! ### Finite maps -/

/-- What an aggregate says: a cell for each pair, and for each node. -/
abbrev AggSums := (UInt32 × UInt32 →₀ AggCell) × (UInt32 →₀ AggCell)

/-- The share of a record. -/
noncomputable def eventSums (ev : TraceEvent) : AggSums :=
  (if ev.recordCounts then Finsupp.single (ev.oldEvent, ev.newEvent) (1, ev.durationNs) else 0,
    if ev.nodeCounts then Finsupp.single ev.oldEvent (1, ev.durationNs) else 0)

/-- No cell has durations without a count. -/
def Counted {K : Type} (s : K →₀ AggCell) : Prop := ∀ k, (s k).1 = 0 → s k = 0

/-- **An aggregate of finite maps.** -/
structure BlockAgg.Sums (a : BlockAgg) (s : AggSums) : Prop where
  pairs : SumTable.Holds pairRow pairHash a.pairs s.1
  nodes : SumTable.Holds nodeRow nodeHash a.nodes s.2
  pairTotals : (a.totalTransitions, a.pairTotalNs) = s.1.sum fun _ c => c
  nodeTotals : (a.nodeRecords, a.nodeTotalNs) = s.2.sum fun _ c => c
  pairsCounted : Counted s.1
  nodesCounted : Counted s.2

/-- What is set once. -/
structure BlockAgg.SameKind (a b : BlockAgg) : Prop where
  version : a.version = b.version
  mode : a.mode = b.mode
  id : a.id = b.id
  anyTrace : a.anyTrace = b.anyTrace

theorem BlockAgg.SameKind.refl (a : BlockAgg) : a.SameKind a := ⟨rfl, rfl, rfl, rfl⟩

variable {mem : AggMemory} {s : AggSums} {a a' src : BlockAgg} {id : BlockIdentity}
  {evs : List TraceEvent} {ev : TraceEvent}

theorem BlockAgg.SameKind.trans {b c : BlockAgg} (h : a.SameKind b) (h' : b.SameKind c) :
    a.SameKind c :=
  ⟨h.version.trans h'.version, h.mode.trans h'.mode, h.id.trans h'.id,
    h.anyTrace.trans h'.anyTrace⟩

theorem counted_zero {K : Type} : Counted (0 : K →₀ AggCell) := fun _ _ => rfl

theorem Counted.add {K : Type} {s s' : K →₀ AggCell} (h : Counted s) (h' : Counted s') :
    Counted (s + s') := by
  intro k hk
  rw [Finsupp.add_apply, Prod.fst_add] at hk
  rw [Finsupp.add_apply, h k (by omega), h' k (by omega), add_zero]

theorem counted_single {K : Type} (k : K) {c : AggCell} (hc : c.1 ≠ 0) :
    Counted (Finsupp.single k c) := by
  classical
  intro k' hk'
  by_cases hk : k' = k
  · subst hk
    rw [Finsupp.single_eq_same] at hk'
    exact absurd hk' hc
  · rw [Finsupp.single_eq_of_ne hk]

theorem sum_add_single {K : Type} (s : K →₀ AggCell) (k : K) (c : AggCell) :
    ((s + Finsupp.single k c).sum fun _ x => x) = (s.sum fun _ x => x) + c := by
  classical
  rw [Finsupp.sum_add_index' (fun _ => rfl) (fun _ _ _ => rfl), Finsupp.sum_single_index rfl]

/-! ### Tables -/

theorem tableAdd_holds {K R : Type} [DecidableEq K] {row : K × AggCell ≃ R} {hash : K → ℕ}
    {canHave : ℕ → Bool} {t t' : GrowTable R} {s : K →₀ AggCell} {k : K} {c : AggCell}
    (h : SumTable.Holds row hash t s) (hc : c.1 ≠ 0)
    (hadd : tableAdd row hash canHave t k c = .ok t') :
    SumTable.Holds row hash t' (s + Finsupp.single k c) := by
  rw [tableAdd] at hadd
  split_ifs at hadd
  obtain rfl := Except.ok.inj hadd
  refine h.add (by decide) k fun x hx => hc ?_
  have hsum : x.1 + c.1 = 0 := congrArg Prod.fst hx
  omega

/-- **A cell is added to a pair.** -/
theorem pairAdd_sums {k : UInt32 × UInt32} {c : AggCell} (h : a.Sums s) (hc : c.1 ≠ 0)
    (hadd : pairAdd mem a k c = .ok a') :
    a'.Sums (s + (Finsupp.single k c, 0)) ∧ a'.SameKind a := by
  rw [pairAdd, if_neg hc] at hadd
  obtain ⟨t, htable, hadd⟩ := Run.bind_eq_ok.1 hadd
  obtain rfl := Except.ok.inj hadd
  refine ⟨⟨tableAdd_holds h.pairs hc htable, ?_, ?_, ?_, h.pairsCounted.add (counted_single k hc),
    ?_⟩, ⟨rfl, rfl, rfl, rfl⟩⟩
  · simpa using h.nodes
  · rw [Prod.fst_add, sum_add_single, ← h.pairTotals]
    rfl
  · simpa using h.nodeTotals
  · simpa using h.nodesCounted

/-- **A cell is added to a node.** -/
theorem nodeAdd_sums {k : UInt32} {c : AggCell} (h : a.Sums s) (hc : c.1 ≠ 0)
    (hadd : nodeAdd mem a k c = .ok a') :
    a'.Sums (s + (0, Finsupp.single k c)) ∧ a'.SameKind a := by
  rw [nodeAdd, if_neg hc] at hadd
  obtain ⟨t, htable, hadd⟩ := Run.bind_eq_ok.1 hadd
  obtain rfl := Except.ok.inj hadd
  refine ⟨⟨?_, tableAdd_holds h.nodes hc htable, ?_, ?_, ?_,
    h.nodesCounted.add (counted_single k hc)⟩, ⟨rfl, rfl, rfl, rfl⟩⟩
  · simpa using h.pairs
  · simpa using h.pairTotals
  · rw [Prod.snd_add, sum_add_single, ← h.nodeTotals]
    rfl
  · simpa using h.pairsCounted

/-! ### Records -/

theorem countPair_sums (h : a.Sums s) (hadd : countPair mem a ev = .ok a') :
    a'.Sums (s + ((eventSums ev).1, 0)) ∧ a'.SameKind a := by
  rw [countPair] at hadd
  by_cases hcounts : ev.recordCounts = true
  · rw [if_pos hcounts] at hadd
    rw [eventSums, if_pos hcounts]
    exact pairAdd_sums h Nat.one_ne_zero hadd
  · rw [if_neg hcounts] at hadd
    obtain rfl := Except.ok.inj hadd
    rw [eventSums, if_neg hcounts, ← Prod.zero_eq_mk, add_zero]
    exact ⟨h, BlockAgg.SameKind.refl a⟩

theorem countNode_sums (h : a.Sums s) (hadd : countNode mem a ev = .ok a') :
    a'.Sums (s + (0, (eventSums ev).2)) ∧ a'.SameKind a := by
  rw [countNode] at hadd
  by_cases hcounts : ev.nodeCounts = true
  · rw [if_pos hcounts] at hadd
    rw [eventSums, if_pos hcounts]
    exact nodeAdd_sums h Nat.one_ne_zero hadd
  · rw [if_neg hcounts] at hadd
    obtain rfl := Except.ok.inj hadd
    rw [eventSums, if_neg hcounts, ← Prod.zero_eq_mk, add_zero]
    exact ⟨h, BlockAgg.SameKind.refl a⟩

/-- **A record adds its share.** -/
theorem countAggEvent_sums (h : a.Sums s) (hadd : countAggEvent mem a ev = .ok a') :
    a'.Sums (s + eventSums ev) ∧ a'.SameKind a := by
  obtain ⟨b, hpair, hnode⟩ := Run.bind_eq_ok.1 hadd
  obtain ⟨hb, hkind⟩ := countPair_sums h hpair
  obtain ⟨ha', hkind'⟩ := countNode_sums hb hnode
  have hshare : s + eventSums ev = s + ((eventSums ev).1, 0) + (0, (eventSums ev).2) := by
    refine Prod.ext ?_ ?_ <;> simp
  exact ⟨hshare ▸ ha', hkind'.trans hkind⟩

theorem BlockAgg.Sums.boundsWiden (h : a.Sums s) (first last : UInt64) :
    (a.boundsWiden first last).Sums s ∧ (a.boundsWiden first last).SameKind a := by
  rw [BlockAgg.boundsWiden]
  split
  · exact ⟨⟨h.pairs, h.nodes, h.pairTotals, h.nodeTotals, h.pairsCounted, h.nodesCounted⟩,
      ⟨rfl, rfl, rfl, rfl⟩⟩
  · exact ⟨⟨h.pairs, h.nodes, h.pairTotals, h.nodeTotals, h.pairsCounted, h.nodesCounted⟩,
      ⟨rfl, rfl, rfl, rfl⟩⟩

/-- **`pgwt_block_agg_add_event`.** -/
theorem addAggEvent_sums (h : a.Sums s) (hadd : addAggEvent mem a ev = .ok a') :
    a'.Sums (s + eventSums ev) ∧ a'.SameKind a := by
  rw [addAggEvent] at hadd
  by_cases hmode : a.mode ≠ .window
  · rw [if_pos hmode] at hadd
    exact absurd hadd (by simp)
  by_cases hversion : a.version ≠ blockAggVersion
  · rw [if_neg hmode, if_pos hversion] at hadd
    exact absurd hadd (by simp)
  rw [if_neg hmode, if_neg hversion] at hadd
  obtain ⟨b, hb, hadd⟩ := Run.bind_eq_ok.1 hadd
  obtain ⟨hsums, hkind⟩ := countAggEvent_sums h hb
  obtain rfl := Except.ok.inj hadd
  split_ifs
  · obtain ⟨hsums', hkind'⟩ := hsums.boundsWiden ev.timestampNs ev.timestampNs
    exact ⟨hsums', hkind'.trans hkind⟩
  · exact ⟨hsums, hkind⟩

theorem admitted_of_inAggWindow {fromNs toNs : UInt64} (h : ev.inAggWindow fromNs toNs = true) :
    ev.admitted fromNs toNs = true := by
  simp only [TraceEvent.inAggWindow, TraceEvent.admitted, Bool.and_eq_true,
    decide_eq_true_eq] at h ⊢
  exact ⟨h.1, UInt64.le_of_lt h.2⟩

/-- **`pgwt_block_agg_add_events`.** The records before the right edge add their shares, the
admitted ones are counted. -/
theorem addAggEvents_sums {r : BlockAgg × ℕ} {fromNs toNs : UInt64} (h : a.Sums s)
    (hadd : addAggEvents mem a evs fromNs toNs = .ok r) :
    r.1.Sums (s + ((evs.filter (·.inAggWindow fromNs toNs)).map eventSums).sum) ∧
      r.1.SameKind a ∧ r.2 = (evs.filter (·.admitted fromNs toNs)).length := by
  rw [addAggEvents] at hadd
  split_ifs at hadd
  have hrun := Run.foldlM_adds (M := AggSums × ℕ)
    (P := fun b m => b.1.Sums m.1 ∧ b.1.SameKind a ∧ b.2 = m.2)
    (w := fun ev => (if ev.inAggWindow fromNs toNs then eventSums ev else 0,
      if ev.admitted fromNs toNs then 1 else 0)) evs ?_ (a, 0) r (s, 0)
    ⟨h, BlockAgg.SameKind.refl a, rfl⟩ hadd
  · rw [Tally.sum_map_prodMk] at hrun
    obtain ⟨hsums, hkind, hnum⟩ := hrun
    have hlen := Tally.sum_filter_map (·.admitted fromNs toNs) (fun _ => 1) evs
    rw [List.map_const', List.sum_replicate, smul_eq_mul, mul_one] at hlen
    refine ⟨?_, hkind, ?_⟩
    · rw [Tally.sum_filter_map]
      exact hsums
    · rw [hlen, hnum]
      exact zero_add _
  · rintro ev - b b' m ⟨hsums, hkind, hnum⟩ hstep
    rw [admitAggEvent] at hstep
    by_cases hadm : ev.admitted fromNs toNs = true
    · by_cases hin : ev.inAggWindow fromNs toNs = true
      · rw [if_neg (by simp [hadm]), if_neg (by simp [hin])] at hstep
        obtain ⟨c, hc, hstep⟩ := Run.bind_eq_ok.1 hstep
        obtain rfl := Except.ok.inj hstep
        obtain ⟨hsums', hkind'⟩ := addAggEvent_sums hsums hc
        rw [if_pos hin, if_pos hadm]
        exact ⟨hsums', hkind'.trans hkind, by rw [Prod.snd_add, hnum]⟩
      · rw [if_neg (by simp [hadm]), if_pos (by simp [hin])] at hstep
        obtain rfl := Except.ok.inj hstep
        rw [if_neg hin, if_pos hadm]
        exact ⟨by rwa [Prod.fst_add, add_zero], hkind, by rw [Prod.snd_add, hnum]⟩
    · rw [if_pos (by simp [hadm])] at hstep
      obtain rfl := Except.ok.inj hstep
      rw [if_neg fun hin => hadm (admitted_of_inAggWindow hin), if_neg hadm]
      exact ⟨by rwa [Prod.fst_add, add_zero], hkind, by rw [Prod.snd_add, add_zero, hnum]⟩

/-! ### Whole blocks -/

/-- **`pgwt_block_agg_build`.** -/
theorem buildBlockAgg_sums {blockType : UInt16} {committed : Bool}
    (hbuild : buildBlockAgg mem id blockType committed evs = .ok a) :
    a.Sums (evs.map eventSums).sum ∧ a.id = some id ∧ a.mode = .block ∧
      a.version = blockAggVersion := by
  rw [buildBlockAgg] at hbuild
  split_ifs at hbuild
  obtain ⟨b, hb, hbuild⟩ := Run.bind_eq_ok.1 hbuild
  obtain rfl := Except.ok.inj hbuild
  have hnew : BlockAgg.Sums ⟨blockAggVersion, .block, some id, false, none, 0, 0, 0, 0, 0, {}, {},
      [], 0⟩ 0 :=
    ⟨SumTable.holds_empty, SumTable.holds_empty, rfl, rfl, counted_zero, counted_zero⟩
  obtain ⟨hstart, hkind⟩ := hnew.boundsWiden id.firstTimestampNs id.lastTimestampNs
  obtain ⟨hsums, hkind'⟩ := Run.foldlM_adds (w := eventSums)
    (P := fun b s => b.Sums s ∧ b.SameKind (BlockAgg.boundsWiden ⟨blockAggVersion, .block, some id,
      false, none, 0, 0, 0, 0, 0, {}, {}, [], 0⟩ id.firstTimestampNs id.lastTimestampNs)) evs
    (fun ev _ b b' s hb hstep => by
      obtain ⟨hs, hk⟩ := countAggEvent_sums hb.1 hstep
      exact ⟨hs, hk.trans hb.2⟩)
    _ b 0 ⟨hstart, BlockAgg.SameKind.refl _⟩ hb
  rw [zero_add] at hsums
  exact ⟨⟨hsums.pairs, hsums.nodes, hsums.pairTotals, hsums.nodeTotals, hsums.pairsCounted,
    hsums.nodesCounted⟩, (hkind'.trans hkind).id, (hkind'.trans hkind).mode,
    (hkind'.trans hkind).version⟩

theorem matchesBlock_of_build {blockType : UInt16} {committed : Bool}
    (hbuild : buildBlockAgg mem id blockType committed evs = .ok a) : a.matchesBlock id = true := by
  obtain ⟨-, hid, hmode, hversion⟩ := buildBlockAgg_sums hbuild
  have hknown : id.trace.resolvable = true := by
    rw [buildBlockAgg] at hbuild
    split_ifs at hbuild with _ _ hknown
    simpa using hknown
  simp [BlockAgg.matchesBlock, hid, hmode, hversion, TraceIdentity.same, hknown]

theorem keyAdd_sums {k : BlockAggKey} (h : a.Sums s) (hadd : keyAdd mem a k = .ok a') :
    a'.Sums s ∧ a'.SameKind a := by
  simp only [keyAdd] at hadd
  split_ifs at hadd
  all_goals
    obtain rfl := Except.ok.inj hadd
    exact ⟨⟨h.pairs, h.nodes, h.pairTotals, h.nodeTotals, h.pairsCounted, h.nodesCounted⟩,
      ⟨rfl, rfl, rfl, rfl⟩⟩

theorem addPairs_sums {s' : AggSums} (h : a.Sums s) (h' : src.Sums s')
    (hadd : (SumTable.rows src.pairs).foldlM
      (fun a p => pairAdd mem a (p.fromEvent, p.toEvent) (p.count, p.totalNs)) a = .ok a') :
    a'.Sums (s + (s'.1, 0)) ∧ a'.SameKind a := by
  have hrun := Run.foldlM_adds
    (w := fun p => AddMonoidHom.inl _ (UInt32 →₀ AggCell)
      (Finsupp.single (SumTable.keyOf pairRow p) (SumTable.amountOf pairRow p)))
    (P := fun b m => b.Sums m ∧ b.SameKind a) (SumTable.rows src.pairs)
    (fun p hp b b' m hb hstep => by
      obtain ⟨hne, heq⟩ := h'.pairs.mem_rows_iff.1 hp
      obtain ⟨hs, hk⟩ := pairAdd_sums hb.1
        (fun hz => hne (h'.pairsCounted _ (by rw [← heq]; exact hz))) hstep
      exact ⟨hs, hk.trans hb.2⟩)
    a a' s ⟨h, BlockAgg.SameKind.refl a⟩ hadd
  rw [h'.pairs.sum_rows fun k c =>
    AddMonoidHom.inl _ (UInt32 →₀ AggCell) (Finsupp.single k c), ← map_finsuppSum,
    Finsupp.sum_single] at hrun
  exact hrun

theorem addNodes_sums {s' : AggSums} (h : a.Sums s) (h' : src.Sums s')
    (hadd : (SumTable.rows src.nodes).foldlM
      (fun a n => nodeAdd mem a n.eventId (n.count, n.totalNs)) a = .ok a') :
    a'.Sums (s + (0, s'.2)) ∧ a'.SameKind a := by
  have hrun := Run.foldlM_adds
    (w := fun n => AddMonoidHom.inr (UInt32 × UInt32 →₀ AggCell) _
      (Finsupp.single (SumTable.keyOf nodeRow n) (SumTable.amountOf nodeRow n)))
    (P := fun b m => b.Sums m ∧ b.SameKind a) (SumTable.rows src.nodes)
    (fun n hn b b' m hb hstep => by
      obtain ⟨hne, heq⟩ := h'.nodes.mem_rows_iff.1 hn
      obtain ⟨hs, hk⟩ := nodeAdd_sums hb.1
        (fun hz => hne (h'.nodesCounted _ (by rw [← heq]; exact hz))) hstep
      exact ⟨hs, hk.trans hb.2⟩)
    a a' s ⟨h, BlockAgg.SameKind.refl a⟩ hadd
  rw [h'.nodes.sum_rows fun k c =>
    AddMonoidHom.inr (UInt32 × UInt32 →₀ AggCell) _ (Finsupp.single k c), ← map_finsuppSum,
    Finsupp.sum_single] at hrun
  exact hrun

/-- **`pgwt_block_agg_merge`.** Merging adds maps. -/
theorem mergeBlockAgg_sums {dst d : BlockAgg} {s' : AggSums} (h : dst.Sums s) (h' : src.Sums s')
    (hmerge : mergeBlockAgg mem dst src = .ok d) : d.Sums (s + s') ∧ d.SameKind dst := by
  rw [mergeBlockAgg] at hmerge
  split_ifs at hmerge
  split at hmerge
  · exact absurd hmerge (by simp)
  split_ifs at hmerge
  obtain ⟨a, ha, hmerge⟩ := Run.bind_eq_ok.1 hmerge
  obtain ⟨b, hb, hmerge⟩ := Run.bind_eq_ok.1 hmerge
  obtain ⟨c, hc, hmerge⟩ := Run.bind_eq_ok.1 hmerge
  obtain ⟨hsa, hka⟩ := keyAdd_sums h ha
  obtain ⟨hsb, hkb⟩ := addPairs_sums hsa h' hb
  obtain ⟨hsc, hkc⟩ := addNodes_sums hsb h' hc
  have hsum : s + (s'.1, 0) + (0, s'.2) = s + s' := by
    refine Prod.ext ?_ ?_ <;> simp
  rw [hsum] at hsc
  have hkind := hkc.trans (hkb.trans hka)
  obtain rfl := Except.ok.inj hmerge
  split
  · exact ⟨hsc, hkind⟩
  · obtain ⟨hsd, hkd⟩ := hsc.boundsWiden _ _
    exact ⟨hsd, hkd.trans hkind⟩

/-! ### Enough memory -/

theorem tableAdd_enough {K R : Type} [DecidableEq K] (row : K × AggCell ≃ R) (hash : K → ℕ)
    (t : GrowTable R) (k : K) (c : AggCell) :
    tableAdd row hash (fun _ => true) t k c = .ok (SumTable.add row hash 64 t k c) := by
  simp [tableAdd]

theorem pairAdd_enough (a : BlockAgg) (k : UInt32 × UInt32) (c : AggCell) :
    ∃ a', pairAdd .enough a k c = .ok a' ∧ a'.SameKind a := by
  by_cases hc : c.1 = 0
  · exact ⟨a, if_pos hc, BlockAgg.SameKind.refl a⟩
  · rw [pairAdd, if_neg hc]
    exact ⟨_, Run.bind_eq_ok.2 ⟨_, tableAdd_enough .., rfl⟩, ⟨rfl, rfl, rfl, rfl⟩⟩

theorem nodeAdd_enough (a : BlockAgg) (k : UInt32) (c : AggCell) :
    ∃ a', nodeAdd .enough a k c = .ok a' ∧ a'.SameKind a := by
  by_cases hc : c.1 = 0
  · exact ⟨a, if_pos hc, BlockAgg.SameKind.refl a⟩
  · rw [nodeAdd, if_neg hc]
    exact ⟨_, Run.bind_eq_ok.2 ⟨_, tableAdd_enough .., rfl⟩, ⟨rfl, rfl, rfl, rfl⟩⟩

theorem countAggEvent_enough (a : BlockAgg) (ev : TraceEvent) :
    ∃ a', countAggEvent .enough a ev = .ok a' ∧ a'.SameKind a := by
  obtain ⟨b, hb, hkb⟩ : ∃ b, countPair .enough a ev = .ok b ∧ b.SameKind a := by
    rw [countPair]
    split_ifs
    · exact pairAdd_enough ..
    · exact ⟨a, rfl, BlockAgg.SameKind.refl a⟩
  obtain ⟨c, hc, hkc⟩ : ∃ c, countNode .enough b ev = .ok c ∧ c.SameKind b := by
    rw [countNode]
    split_ifs
    · exact nodeAdd_enough ..
    · exact ⟨b, rfl, BlockAgg.SameKind.refl b⟩
  exact ⟨c, Run.bind_eq_ok.2 ⟨b, hb, hc⟩, hkc.trans hkb⟩

/-- An accumulator that `pgwt_block_agg_init_window` made. -/
structure BlockAgg.IsWindow (a : BlockAgg) : Prop where
  mode : a.mode = .window
  version : a.version = blockAggVersion

theorem BlockAgg.IsWindow.of_sameKind {b : BlockAgg} (h : b.IsWindow) (hk : a.SameKind b) :
    a.IsWindow := ⟨hk.mode.trans h.mode, hk.version.trans h.version⟩

theorem addAggEvent_enough (h : a.IsWindow) (ev : TraceEvent) :
    ∃ a', addAggEvent .enough a ev = .ok a' ∧ a'.IsWindow := by
  obtain ⟨b, hb, hk⟩ := countAggEvent_enough a ev
  rw [addAggEvent, if_neg (not_not.2 h.mode), if_neg (not_not.2 h.version)]
  refine ⟨_, Run.bind_eq_ok.2 ⟨b, hb, rfl⟩, ?_⟩
  have hb' := h.of_sameKind hk
  split_ifs
  · rw [BlockAgg.boundsWiden]
    split <;> exact ⟨hb'.mode, hb'.version⟩
  · exact hb'

theorem admitAggEvent_enough {r : BlockAgg × ℕ} (h : r.1.IsWindow) (ev : TraceEvent)
    (fromNs toNs : UInt64) :
    ∃ r', admitAggEvent .enough fromNs toNs r ev = .ok r' ∧ r'.1.IsWindow := by
  rw [admitAggEvent]
  split_ifs
  · exact ⟨r, rfl, h⟩
  · exact ⟨_, rfl, h⟩
  · obtain ⟨a', ha', hw⟩ := addAggEvent_enough h ev
    exact ⟨_, Run.bind_eq_ok.2 ⟨a', ha', rfl⟩, hw⟩

theorem addAggEvents_enough (h : a.IsWindow) (evs : List TraceEvent) (fromNs toNs : UInt64) :
    ∃ r, addAggEvents .enough a evs fromNs toNs = .ok r ∧ r.1.IsWindow := by
  rw [addAggEvents, if_neg (not_not.2 h.mode)]
  exact Run.foldlM_succeeds (P := fun r : BlockAgg × ℕ => r.1.IsWindow) evs
    (fun ev _ r hr => admitAggEvent_enough hr ev fromNs toNs) (a, 0) h

theorem buildBlockAgg_enough (hid : id.trace.resolvable = true)
    (hle : ¬ id.lastTimestampNs < id.firstTimestampNs) (evs : List TraceEvent) :
    ∃ a, buildBlockAgg .enough id BlockType.transitions.code true evs = .ok a := by
  rw [buildBlockAgg, if_neg (not_not.2 rfl), if_neg (by simp), if_neg (by simp [hid]), if_neg hle]
  obtain ⟨a, ha, -⟩ := Run.foldlM_succeeds (f := countAggEvent .enough) (P := fun _ => True) evs
    (fun ev _ a _ => by
      obtain ⟨a', ha', -⟩ := countAggEvent_enough a ev
      exact ⟨a', ha', trivial⟩)
    (BlockAgg.boundsWiden ⟨blockAggVersion, .block, some id, false, none, 0, 0, 0, 0, 0, {}, {}, [],
      0⟩ id.firstTimestampNs id.lastTimestampNs) trivial
  exact ⟨_, Run.bind_eq_ok.2 ⟨a, ha, rfl⟩⟩

theorem mergeBlockAgg_enough {dst : BlockAgg} (hdst : dst.IsWindow) (hany : dst.anyTrace = true)
    (hmode : src.mode = .block) (hversion : src.version = blockAggVersion) (hid : src.id = some id)
    (hknown : id.trace.resolvable = true) (hnew : keyOfBlock id ∉ dst.keys) :
    ∃ d, mergeBlockAgg .enough dst src = .ok d := by
  rw [mergeBlockAgg, if_neg (not_not.2 hdst.mode), if_neg (not_not.2 hmode),
    if_neg (by simp [hdst.version, hversion])]
  simp only [hid, hknown, hany, Bool.not_true, Bool.false_and, Bool.false_eq_true, if_false]
  obtain ⟨a, ha⟩ : ∃ a, keyAdd .enough dst (keyOfBlock id) = .ok a := by
    rw [keyAdd, if_neg hnew]
    by_cases hfull : dst.keys.length ≠ dst.keyCap
    · exact ⟨_, if_pos hfull⟩
    · exact ⟨_, (if_neg hfull).trans (if_pos rfl)⟩
  obtain ⟨b, hb, -⟩ := Run.foldlM_succeeds (P := fun _ => True)
    (f := fun (a : BlockAgg) (p : BlockAggPair) =>
      pairAdd .enough a (p.fromEvent, p.toEvent) (p.count, p.totalNs)) (SumTable.rows src.pairs)
    (fun p _ a _ => by
      obtain ⟨a', ha', -⟩ := pairAdd_enough a (p.fromEvent, p.toEvent) (p.count, p.totalNs)
      exact ⟨a', ha', trivial⟩) a trivial
  obtain ⟨c, hc, -⟩ := Run.foldlM_succeeds (P := fun _ => True)
    (f := fun (a : BlockAgg) (n : BlockAggNode) =>
      nodeAdd .enough a n.eventId (n.count, n.totalNs)) (SumTable.rows src.nodes)
    (fun n _ a _ => by
      obtain ⟨a', ha', -⟩ := nodeAdd_enough a n.eventId (n.count, n.totalNs)
      exact ⟨a', ha', trivial⟩) b trivial
  exact ⟨_, Run.bind_eq_ok.2 ⟨a, ha, Run.bind_eq_ok.2 ⟨b, hb, Run.bind_eq_ok.2 ⟨c, hc, rfl⟩⟩⟩⟩

end PgWaitTracer
