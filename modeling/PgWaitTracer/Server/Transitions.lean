import Mathlib.Algebra.Order.Field.Rat
import Mathlib.Tactic.NormNum
import Mathlib.Tactic.Positivity
import PgWaitTracer.Compute.Executions
import PgWaitTracer.Compute.RankedViews
import PgWaitTracer.Server.BlockAgg
import PgWaitTracer.Server.CachedLoad

/-!
# The graph of transitions

The raw path of `handle_transitions` (`src/server.c`) answers with a graph: its links are the pairs
of `pgwt_compute_transitions` (`src/compute.c`), its nodes the events that the block aggregate
(`src/block_agg.c`) counts as old events. The client draws the graph only if
`transitionsDataError` (`web/static/lib/builders/transitions.js`) finds nothing wrong with it, and
a link whose source or target is no node is wrong.

## Main results

* `transitions_drawable_iff`: when the client draws an answer whose nodes have the
  times of their pairs.
* `transitions_eventDrill`: the answer to a drill on an event is not drawn.
-/

namespace PgWaitTracer

/-! ### Links -/

/-- `pgwt_transition_record_counts`. -/
def transitionRecordCounts (f : Filter) (ev : TraceEvent) : Bool :=
  if ev.isSample then false
  else if rightOpenFlagged ev then false
  else if !filterMatches f ev then false
  else if isHiddenEvent ev.oldEvent || isHiddenEvent ev.newEvent then false
  else if ev.newEvent = eventExit then false
  else if isMarker ev.oldEvent || isMarker ev.newEvent then false
  else true

/-- `struct trans_accum`. -/
structure TransAccum where
  fromEvent : UInt32
  toEvent : UInt32
  count : ℕ := 0
  totalNs : UInt64 := 0
  deriving DecidableEq, Repr

/-- The two events of a row. -/
def TransAccum.pair (r : TransAccum) : UInt32 × UInt32 := (r.fromEvent, r.toEvent)

/-- The row of a pair before its first record. -/
def TransAccum.new (k : UInt32 × UInt32) : TransAccum := { fromEvent := k.1, toEvent := k.2 }

/-- A record in the row of its pair. -/
def TransAccum.addRecord (r : TransAccum) (ev : TraceEvent) : TransAccum :=
  { r with count := r.count + 1, totalNs := r.totalNs + ev.durationNs }

/-- The pair of a record. -/
def TraceEvent.pair (ev : TraceEvent) : UInt32 × UInt32 := (ev.oldEvent, ev.newEvent)

/-- The key of a pair has its first event in the high half. -/
def transKey (k : UInt32 × UInt32) : UInt64 := (k.1.toUInt64 <<< 32) ||| k.2.toUInt64

/-- The hash of the index of pairs. -/
def transHash (k : UInt32 × UInt32) : ℕ := qidIndexHash (transKey k)

/-- `cmp_trans_desc`: the pairs with most records first. -/
def transRowLe (a b : TransAccum) : Bool :=
  if a.count ≠ b.count then b.count < a.count
  else if a.fromEvent ≠ b.fromEvent then a.fromEvent < b.fromEvent
  else a.toEvent ≤ b.toEvent

/-- What can be allocated: the row of one more pair, the rows of the result, the tables of the
aggregate and its sorted nodes. -/
structure TransMemory where
  pair : ℕ → Bool
  rows : Bool
  agg : AggMemory
  nodes : Bool

/-- Memory that does not run out. -/
def TransMemory.enough : TransMemory := ⟨fun _ => true, true, .enough, true⟩

/-- The accumulators of `pgwt_compute_transitions`. -/
structure TransState where
  table : Tally.IndexedRows (UInt32 × UInt32) TransAccum := {}
  total : ℕ := 0

/-- A record in the loop of `pgwt_compute_transitions`, which ends without memory for a new pair. -/
def transStep (mem : TransMemory) (f : Filter) (s : TransState) (ev : TraceEvent) :
    Option TransState :=
  if !transitionRecordCounts f ev then some s
  else if (s.table.ix.find? Prod.fst transHash ev.pair).isNone && !mem.pair s.table.rows.length then
    none
  else some
    { table := Tally.indexRow transHash TransAccum.new TraceEvent.pair TransAccum.addRecord 128
        s.table ev
      total := s.total + 1 }

/-- `struct pgwt_transitions_result`. -/
structure TransitionsResult where
  rows : List TransAccum
  totalRows : ℕ
  totalTransitions : ℕ

/-- `pgwt_compute_transitions`; without a result it has failed. -/
def computeTransitions (mem : TransMemory) (events : List TraceEvent) (f : Filter)
    (maxRows : ℕ) : Option TransitionsResult :=
  (events.foldlM (transStep mem f) {}).bind fun s =>
    let rows := s.table.rows.mergeSort transRowLe
    if !(rows.take maxRows).isEmpty && !mem.rows then none
    else some
      { rows := rows.take maxRows
        totalRows := rows.length
        totalTransitions := s.total }

/-! ### Nodes -/

/-- `cmp_node_total`: the nodes with most time first. -/
def nodeRowLe (a b : BlockAggNode) : Bool :=
  if a.totalNs ≠ b.totalNs then b.totalNs < a.totalNs else a.eventId ≤ b.eventId

/-- `pgwt_block_agg_nodes_sorted`. -/
def BlockAgg.nodesSorted (mem : TransMemory) (a : BlockAgg) : Option (List BlockAggNode) :=
  let rows := SumTable.rows a.nodes
  if a.mode = .none then none
  else if !rows.isEmpty && !mem.nodes then none
  else some (rows.mergeSort nodeRowLe)

/-- The record is in the node pass of `handle_transitions`: its close is in the window, which has
no right edge without one in the request. -/
def nodePassTakes (f : Filter) (fromNs toNs : UInt64) (ev : TraceEvent) : Bool :=
  ev.inAggWindow fromNs (if toNs ≠ 0 then toNs else 0xFFFFFFFFFFFFFFFF) &&
    transitionRecordCounts f ev

/-- A record in the node pass. -/
def nodePassStep (mem : TransMemory) (f : Filter) (fromNs toNs : UInt64) (a : BlockAgg)
    (ev : TraceEvent) : Except BaggRefusal BlockAgg :=
  if nodePassTakes f fromNs toNs ev then addAggEvent mem.agg a ev else .ok a

/-- The node pass of `handle_transitions`. -/
def nodePass (mem : TransMemory) (events : List TraceEvent) (f : Filter) (fromNs toNs : UInt64) :
    Except BaggRefusal BlockAgg :=
  events.foldlM (nodePassStep mem f fromNs toNs) initWindowAgg

/-! ### The answer -/

/-- The installed names of events, which are ASCII, and the two masks of Timeout events: which pace,
and of which that is known. -/
structure EventNames where
  eventName : UInt32 → Option String
  idleMask : UInt32
  coverageMask : UInt32

/-- `pgwt_event_full_name`, into 64 bytes. -/
def EventNames.fullName (names : EventNames) (wei : UInt32) : String :=
  if wei = 0 then "CPU*"
  else
    let text := match names.eventName wei with
      | some ev => className wei ++ ":" ++ ev
      | none => className wei ++ ":id=" ++ toString (weEvent wei).toNat
    String.ofList (text.toList.take 63)

/-- `pgwt_timeout_id_is_classifiable`. -/
def EventNames.timeoutClassifiable (names : EventNames) (id : UInt32) : Bool :=
  id < 32 && (names.coverageMask >>> id) &&& 1 ≠ 0

/-- The class of a node is what its name has before the colon. -/
def nodeClass (name : String) : String :=
  if ':' ∈ name.toList then String.ofList ((name.toList.takeWhile (· ≠ ':')).take 31) else "cpu"

/-- Milliseconds. They are sent as a double, which is as finite and not negative as this. -/
def toMs (ns : UInt64) : ℚ := ns.toNat / 1000000

/-- A node of the answer. -/
structure TransitionNode where
  name : String
  totalMs : ℚ
  eventId : UInt32
  idle : Bool
  nodeClass : String

/-- A link of the answer. -/
structure TransitionLink where
  source : String
  target : String
  value : ℕ
  durationMs : ℚ

/-- The answer, up to its id and its fidelity. -/
structure TransitionsResponse where
  total : ℕ
  linkCount : ℕ
  totalLinkCount : ℕ
  truncated : Bool
  idleClassificationComplete : Bool
  nodes : List TransitionNode
  links : List TransitionLink

/-- A node, as `emit_transitions_response` writes it. -/
def EventNames.node (names : EventNames) (n : BlockAggNode) : TransitionNode :=
  let name := if n.eventId = 0 then "CPU*" else names.fullName n.eventId
  { name
    totalMs := toMs n.totalNs
    eventId := n.eventId
    idle := isIdleEvent names.idleMask n.eventId
    nodeClass := nodeClass name }

/-- A link, as `emit_transitions_response` writes it. -/
def EventNames.link (names : EventNames) (r : TransAccum) : TransitionLink where
  source := names.fullName r.fromEvent
  target := names.fullName r.toEvent
  value := r.count
  durationMs := toMs r.totalNs

/-- `emit_transitions_response` of the raw path. -/
def emitTransitionsResponse (names : EventNames) (res : TransitionsResult)
    (nodes : List BlockAggNode) : TransitionsResponse where
  total := res.totalTransitions
  linkCount := res.rows.length
  totalLinkCount := res.totalRows
  truncated := res.rows.length < res.totalRows
  idleClassificationComplete := nodes.all fun n =>
    !(weClass n.eventId = 0x09 && !names.timeoutClassifiable (weEvent n.eventId))
  nodes := nodes.map names.node
  links := res.rows.map names.link

/-- The row limit of a request. -/
def transitionsMaxRows (numBuckets : ℤ) : ℕ := if 0 < numBuckets then numBuckets.toNat else 50

/-- `handle_transitions` from the loaded records on: a graph, or the text of the refusal. -/
def handleTransitions (names : EventNames) (mem : TransMemory) (f : Filter) (fromNs toNs : UInt64)
    (numBuckets : ℤ) (events : List TraceEvent) : Except String TransitionsResponse :=
  match computeTransitions mem events f (transitionsMaxRows numBuckets) with
  | none => .error "the transition-pair table could not be allocated"
  | some res =>
    match nodePass mem events f fromNs toNs with
    | .error _ => .error "could not accumulate transition node totals"
    | .ok agg =>
      match agg.nodesSorted mem with
      | none => .error "could not read the transition node table"
      | some nodes => .ok (emitTransitionsResponse names res nodes)

/-! ### The client -/

/-- The nodes in the loop of `transitionsDataError`: the names seen, or the fault. -/
def checkNodes : List TransitionNode → List String → Except String (List String)
  | [], names => .ok names
  | n :: nodes, names =>
    if n.name = "" ∨ n.totalMs < 0 then .error "invalid node name or dwell time"
    else if n.name ∈ names then .error ("duplicate node: " ++ n.name)
    else checkNodes nodes (n.name :: names)

/-- The links in the loop of `transitionsDataError`. -/
def checkLinks (names : List String) : List TransitionLink → Option String
  | [] => none
  | l :: links =>
    if l.source ∉ names then some ("missing node: " ++ l.source)
    else if l.target ∉ names then some ("missing node: " ++ l.target)
    else checkLinks names links

/-- `transitionsDataError`: the fault of a graph. -/
def transitionsDataError (r : TransitionsResponse) : Option String :=
  match checkNodes r.nodes [] with
  | .error e => some e
  | .ok names => checkLinks names r.links

/-! ### What is drawn -/

/-- The records of links. -/
def countedTransitions (f : Filter) (events : List TraceEvent) : List TraceEvent :=
  events.filter (transitionRecordCounts f)

/-- The records of nodes. -/
def nodeTransitions (f : Filter) (fromNs toNs : UInt64) (events : List TraceEvent) :
    List TraceEvent :=
  events.filter (nodePassTakes f fromNs toNs)

/-- The row of a pair. -/
def transRow (l : List TraceEvent) (k : UInt32 × UInt32) : TransAccum where
  fromEvent := k.1
  toEvent := k.2
  count := l.countP (·.pair = k)
  totalNs := ((l.filter (·.pair = k)).map TraceEvent.durationNs).sum

/-- The first row is before the second. -/
def transAhead (a b : TransAccum) : Bool := transRowLe a b && a.pair ≠ b.pair

/-- The rows of all pairs, before the cap. -/
def transitionPairs (f : Filter) (events : List TraceEvent) : List TransAccum :=
  ((Tally.indexRows transHash TransAccum.new TraceEvent.pair TransAccum.addRecord 128
    (countedTransitions f events)).rows).mergeSort transRowLe

/-- A pair of records that fewer other pairs are before than rows are shown. -/
def ShownPair (f : Filter) (maxRows : ℕ) (events : List TraceEvent) (k : UInt32 × UInt32) : Prop :=
  let l := countedTransitions f events
  k ∈ l.map TraceEvent.pair ∧
    (l.map TraceEvent.pair).dedup.countP (fun k' => transAhead (transRow l k') (transRow l k)) <
      maxRows

/-- **The condition.** There is a record of a node from every event of a shown pair, and the
records of links out of a node that are of no node have no time. -/
structure Drawable (f : Filter) (fromNs toNs : UInt64) (maxRows : ℕ) (events : List TraceEvent) :
    Prop where
  source : ∀ k, ShownPair f maxRows events k →
    ∃ ev ∈ nodeTransitions f fromNs toNs events, ev.oldEvent = k.1
  target : ∀ k, ShownPair f maxRows events k →
    ∃ ev ∈ nodeTransitions f fromNs toNs events, ev.oldEvent = k.2
  time : ∀ ev ∈ nodeTransitions f fromNs toNs events,
    (((countedTransitions f events).filter fun ev' =>
      !nodePassTakes f fromNs toNs ev' && ev'.oldEvent = ev.oldEvent).map
        TraceEvent.durationNs).sum = 0

/-! ### The rows of links -/

theorem keyed_transitions :
    Tally.Keyed TransAccum.pair TransAccum.new TransAccum.addRecord :=
  ⟨fun _ => rfl, fun _ _ => rfl⟩

theorem foldl_addRecord (l : List TraceEvent) (r : TransAccum) :
    l.foldl TransAccum.addRecord r =
      { r with
        count := r.count + l.length
        totalNs := r.totalNs + (l.map TraceEvent.durationNs).sum } := by
  induction l generalizing r with
  | nil => simp
  | cons ev l ih =>
    rw [List.foldl_cons, ih]
    simp only [TransAccum.addRecord, List.length_cons, List.map_cons, List.sum_cons,
      TransAccum.mk.injEq, true_and]
    exact ⟨by omega, add_assoc _ _ _⟩

theorem tallied_transitionPairs (f : Filter) (events : List TraceEvent) :
    Tally.Tallied TransAccum.pair TransAccum.new TraceEvent.pair TransAccum.addRecord
      (transitionPairs f events) (countedTransitions f events) :=
  (Tally.indexRows_tallied keyed_transitions (by decide) _).perm (List.mergeSort_perm _ _)

/-- **The pairs before the cap.** -/
theorem transitionPairs_perm (f : Filter) (events : List TraceEvent) :
    (transitionPairs f events).Perm
      (((countedTransitions f events).map TraceEvent.pair).dedup.map
        (transRow (countedTransitions f events))) := by
  have ht := tallied_transitionPairs f events
  have hinj : Function.Injective (transRow (countedTransitions f events)) := fun k k' h =>
    Prod.ext (congrArg TransAccum.fromEvent h) (congrArg TransAccum.toEvent h)
  refine (List.perm_ext_iff_of_nodup (List.Nodup.of_map _ ht.nodup)
    ((List.nodup_dedup _).map hinj)).2 fun r => ?_
  have hrow : ∀ k, ((countedTransitions f events).filter fun ev => ev.pair = k).foldl
      TransAccum.addRecord (TransAccum.new k) = transRow (countedTransitions f events) k := by
    intro k
    rw [foldl_addRecord, ← List.countP_eq_length_filter]
    simp [TransAccum.new, transRow]
  rw [ht.mem_iff, Tally.rowOf, hrow]
  constructor
  · intro h
    split_ifs at h with hmem
    exact List.mem_map.2 ⟨r.pair, List.mem_dedup.2 hmem, Option.some.inj h⟩
  · intro h
    obtain ⟨k, hk, rfl⟩ := List.mem_map.1 h
    exact if_pos (List.mem_dedup.1 hk)

theorem transRowLe_total (a b : TransAccum) : (transRowLe a b || transRowLe b a) = true := by
  simp only [transRowLe, Bool.or_eq_true]
  grind

theorem transRowLe_trans (a b c : TransAccum) (hab : transRowLe a b = true)
    (hbc : transRowLe b c = true) : transRowLe a c = true := by
  simp only [transRowLe] at *
  grind

theorem transAhead_asymm (a b : TransAccum) (h : transAhead a b = true) :
    transAhead b a = false := by
  simp only [transAhead, transRowLe, TransAccum.pair] at *
  grind

/-- **The shown rows are those of the shown pairs.** -/
theorem mem_take_transitionPairs (f : Filter) (maxRows : ℕ) (events : List TraceEvent)
    (r : TransAccum) :
    r ∈ (transitionPairs f events).take maxRows ↔
      ∃ k, ShownPair f maxRows events k ∧ r = transRow (countedTransitions f events) k := by
  have hsorted : (transitionPairs f events).Pairwise fun a b => transAhead a b = true := by
    have hle := List.pairwise_mergeSort transRowLe_trans transRowLe_total
      (Tally.indexRows transHash TransAccum.new TraceEvent.pair TransAccum.addRecord 128
        (countedTransitions f events)).rows
    have hne := List.pairwise_map.1 (tallied_transitionPairs f events).nodup
    exact (hle.and hne).imp fun {a b} h => by simp [transAhead, h.1, h.2]
  have hperm := transitionPairs_perm f events
  rw [Tally.mem_take_iff (fun a => by simp [transAhead]) transAhead_asymm hsorted,
    hperm.mem_iff, hperm.countP_eq, List.countP_map, List.mem_map]
  constructor
  · rintro ⟨⟨k, hk, rfl⟩, hrank⟩
    exact ⟨k, ⟨List.mem_dedup.1 hk, hrank⟩, rfl⟩
  · rintro ⟨k, ⟨hk, hrank⟩, rfl⟩
    exact ⟨⟨k, List.mem_dedup.2 hk, rfl⟩, hrank⟩

theorem sum_transitionPairs (f : Filter) (events : List TraceEvent) (e : UInt32) :
    (((transitionPairs f events).filter fun r => r.fromEvent = e).map TransAccum.totalNs).sum =
      (((countedTransitions f events).filter fun ev => ev.oldEvent = e).map
        TraceEvent.durationNs).sum := by
  rw [Tally.sum_filter_map, Tally.sum_filter_map]
  refine (tallied_transitionPairs f events).sum_rows keyed_transitions _ _ (fun k => ?_)
    fun r ev hr => ?_
  · split_ifs <;> rfl
  · have hfrom : r.fromEvent = ev.oldEvent := congrArg Prod.fst hr
    by_cases he : ev.oldEvent = e
    · simp [TransAccum.addRecord, hfrom, he]
    · simp [TransAccum.addRecord, hfrom, he]

variable {events : List TraceEvent}

/-- **`pgwt_compute_transitions`.** -/
theorem computeTransitions_rows {mem : TransMemory} {f : Filter} {maxRows : ℕ}
    {res : TransitionsResult} (h : computeTransitions mem events f maxRows = some res) :
    res.rows = (transitionPairs f events).take maxRows := by
  have hrun : ∀ (l : List TraceEvent) (s s' : TransState), l.foldlM (transStep mem f) s = some s' →
      s'.table = (countedTransitions f l).foldl (Tally.indexRow transHash TransAccum.new
        TraceEvent.pair TransAccum.addRecord 128) s.table := by
    intro l
    induction l with
    | nil =>
      rintro s s' h
      obtain rfl := Option.some.inj h
      rfl
    | cons ev l ih =>
      intro s s' h
      obtain ⟨t, ht, h⟩ := Option.bind_eq_some_iff.1 h
      rw [transStep] at ht
      rw [ih t s' h, countedTransitions, countedTransitions, List.filter_cons]
      by_cases hcounts : transitionRecordCounts f ev
      · rw [if_neg (by simp [hcounts])] at ht
        split_ifs at ht
        obtain rfl := Option.some.inj ht
        rw [if_pos hcounts, List.foldl_cons]
      · rw [if_pos (by simp [hcounts])] at ht
        obtain rfl := Option.some.inj ht
        rw [if_neg hcounts]
  obtain ⟨s, hs, h⟩ := Option.bind_eq_some_iff.1 h
  dsimp only at h
  split_ifs at h
  obtain rfl := Option.some.inj h
  rw [transitionPairs, Tally.indexRows, ← hrun events {} s hs]

/-! ### The rows of nodes -/

theorem counts_of_transitionRecordCounts {f : Filter} {ev : TraceEvent}
    (h : transitionRecordCounts f ev = true) : ev.recordCounts = true ∧ ev.nodeCounts = true := by
  rw [transitionRecordCounts] at h
  split_ifs at h with hsample hflag hfilter hhidden hexit hmarker
  have hlong : ¬ ev.timestampNs < ev.durationNs := by
    intro hlt
    refine hfilter ?_
    rw [filterMatches]
    have hlt' : ev.ts < ev.dur := UInt64.lt_iff_toNat_lt.1 hlt
    split_ifs <;> simp_all
  simp_all [TraceEvent.recordCounts, TraceEvent.nodeCounts]

/-- The row of a node. -/
def nodeRowOf (l : List TraceEvent) (e : UInt32) : BlockAggNode where
  eventId := e
  count := l.countP (·.oldEvent = e)
  totalNs := ((l.filter (·.oldEvent = e)).map TraceEvent.durationNs).sum

theorem sum_eventSums {l : List TraceEvent} (h : ∀ ev ∈ l, ev.nodeCounts = true) (e : UInt32) :
    (l.map eventSums).sum.2 e =
      (l.countP (·.oldEvent = e), ((l.filter (·.oldEvent = e)).map TraceEvent.durationNs).sum) := by
  classical
  induction l with
  | nil => rfl
  | cons ev l ih =>
    obtain ⟨hev, hl⟩ := List.forall_mem_cons.1 h
    rw [List.map_cons, List.sum_cons, Prod.snd_add, Finsupp.add_apply, ih hl, eventSums, if_pos hev]
    by_cases he : ev.oldEvent = e
    · subst he
      simp [Nat.add_comm]
    · simp [he]

/-- **The node pass.** -/
theorem nodePass_rows {mem : TransMemory} {f : Filter} {fromNs toNs : UInt64} {agg : BlockAgg}
    (h : nodePass mem events f fromNs toNs = .ok agg) :
    ((SumTable.rows agg.nodes).map BlockAggNode.eventId).Nodup ∧
      ∀ n, n ∈ SumTable.rows agg.nodes ↔
        n.eventId ∈ (nodeTransitions f fromNs toNs events).map TraceEvent.oldEvent ∧
          n = nodeRowOf (nodeTransitions f fromNs toNs events) n.eventId := by
  have hstart : initWindowAgg.Sums 0 :=
    ⟨SumTable.holds_empty, SumTable.holds_empty, rfl, rfl, counted_zero, counted_zero⟩
  have hsums := Run.foldlM_adds (P := BlockAgg.Sums)
    (w := fun ev => if nodePassTakes f fromNs toNs ev then eventSums ev else 0) events
    (fun ev _ b b' m hb hstep => by
      rw [nodePassStep] at hstep
      split_ifs at hstep with htakes
      · rw [if_pos htakes]
        exact (addAggEvent_sums hb hstep).1
      · obtain rfl := Except.ok.inj hstep
        rwa [if_neg htakes, add_zero])
    initWindowAgg agg 0 hstart h
  rw [zero_add, ← Tally.sum_filter_map] at hsums
  have hnodes := hsums.nodes
  have hcell := sum_eventSums (l := nodeTransitions f fromNs toNs events) fun ev hev =>
    (counts_of_transitionRecordCounts
      (Bool.and_eq_true_iff.1 (List.mem_filter.1 hev).2).2).2
  refine ⟨hnodes.wellFormed.toStored.nodup_rows, fun n => ?_⟩
  rw [hnodes.mem_rows_iff]
  have hkey : SumTable.keyOf nodeRow n = n.eventId := rfl
  have hamount : SumTable.amountOf nodeRow n = (n.count, n.totalNs) := rfl
  rw [hkey, hamount, ← nodeTransitions, hcell]
  have hmem : n.eventId ∈ (nodeTransitions f fromNs toNs events).map TraceEvent.oldEvent ↔
      (nodeTransitions f fromNs toNs events).countP (·.oldEvent = n.eventId) ≠ 0 := by
    rw [ne_eq, List.countP_eq_zero, List.mem_map]
    simp
  rw [hmem]
  constructor
  · rintro ⟨hne, heq⟩
    obtain ⟨hcount, htotal⟩ := Prod.mk.inj heq
    refine ⟨fun hzero => hne ?_, ?_⟩
    · have hnil : (nodeTransitions f fromNs toNs events).filter (·.oldEvent = n.eventId) = [] := by
        rw [← List.length_eq_zero_iff, ← List.countP_eq_length_filter]
        exact hzero
      rw [hzero, hnil]
      rfl
    · rw [nodeRowOf, ← hcount, ← htotal]
  · rintro ⟨hcount, heq⟩
    refine ⟨fun hzero => hcount (congrArg Prod.fst hzero), ?_⟩
    conv_lhs => rw [heq]
    rfl

/-! ### The check of the client -/

theorem toList_className_ne_nil (e : UInt32) : (className e).toList ≠ [] := by
  rw [className]
  cases waitClassIndex e <;> decide

theorem fullName_ne_empty (names : EventNames) (e : UInt32) : names.fullName e ≠ "" := by
  have hcut : ∀ l m : List Char, l ≠ [] → String.ofList ((l ++ m).take 63) ≠ "" := by
    intro l m hl hempty
    have hnil : (l ++ m).take 63 = [] := by
      rw [← String.toList_ofList (l := (l ++ m).take 63), hempty]
      rfl
    rw [List.take_eq_nil_iff] at hnil
    simp [hl] at hnil
  rw [EventNames.fullName]
  split_ifs
  · decide
  · dsimp only
    split
    · rw [String.toList_append, String.toList_append, List.append_assoc]
      exact hcut _ _ (toList_className_ne_nil e)
    · rw [String.toList_append, String.toList_append, List.append_assoc]
      exact hcut _ _ (toList_className_ne_nil e)

theorem checkNodes_ok : (nodes : List TransitionNode) → (names : List String) →
    (∀ n ∈ nodes, n.name ≠ "" ∧ 0 ≤ n.totalMs) → (nodes.map (·.name)).Nodup →
    (∀ n ∈ nodes, n.name ∉ names) →
    checkNodes nodes names = .ok ((nodes.map (·.name)).reverse ++ names)
  | [], _, _, _, _ => rfl
  | n :: nodes, names, hok, hnodup, hnew => by
    obtain ⟨hn, hok⟩ := List.forall_mem_cons.1 hok
    rw [List.map_cons, List.nodup_cons] at hnodup
    rw [checkNodes, if_neg (by simp [hn.1, hn.2]), if_neg (hnew n List.mem_cons_self),
      checkNodes_ok nodes (n.name :: names) hok hnodup.2 fun m hm => ?_]
    · simp
    · rw [List.mem_cons, not_or]
      exact ⟨fun heq => hnodup.1 (heq ▸ List.mem_map_of_mem hm),
        hnew m (List.mem_cons_of_mem _ hm)⟩

theorem checkLinks_eq_none (names : List String) (links : List TransitionLink) :
    checkLinks names links = none ↔ ∀ l ∈ links, l.source ∈ names ∧ l.target ∈ names := by
  induction links with
  | nil => simp [checkLinks]
  | cons l links ih =>
    rw [checkLinks, List.forall_mem_cons, ← ih]
    by_cases hs : l.source ∈ names
    · by_cases ht : l.target ∈ names
      · simp [hs, ht]
      · simp [hs, ht]
    · simp [hs]

theorem toMs_nonneg (ns : UInt64) : 0 ≤ toMs ns := by
  rw [toMs]
  positivity

theorem toMs_injective : Function.Injective toMs := by
  intro a b h
  rw [toMs, toMs, div_left_inj' (by norm_num), Nat.cast_inj] at h
  exact UInt64.toNat_inj.1 h

/-! ### The graph -/

theorem node_name (names : EventNames) (n : BlockAggNode) :
    (names.node n).name = names.fullName n.eventId := by
  rw [EventNames.node]
  dsimp only
  split_ifs with hzero
  · rw [hzero]
    rfl
  · rfl

/-- The events of records. -/
def eventsOf (events : List TraceEvent) : Set UInt32 :=
  {e | ∃ ev ∈ events, ev.oldEvent = e ∨ ev.newEvent = e}

theorem sum_countedTransitions (f : Filter) (fromNs toNs : UInt64) (events : List TraceEvent)
    (e : UInt32) :
    (((countedTransitions f events).filter fun ev => ev.oldEvent = e).map
        TraceEvent.durationNs).sum =
      (((nodeTransitions f fromNs toNs events).filter fun ev => ev.oldEvent = e).map
        TraceEvent.durationNs).sum +
      (((countedTransitions f events).filter fun ev =>
        !nodePassTakes f fromNs toNs ev && ev.oldEvent = e).map TraceEvent.durationNs).sum := by
  have hnode : nodeTransitions f fromNs toNs events =
      (countedTransitions f events).filter (nodePassTakes f fromNs toNs) := by
    rw [nodeTransitions, countedTransitions, List.filter_filter]
    refine List.filter_congr fun ev _ => ?_
    rw [nodePassTakes, Bool.and_assoc, Bool.and_self]
  rw [hnode]
  induction countedTransitions f events with
  | nil => rfl
  | cons ev l ih =>
    by_cases htakes : nodePassTakes f fromNs toNs ev
    · by_cases he : ev.oldEvent = e
      · simp [htakes, he] at ih ⊢
        rw [ih, add_assoc]
      · simpa [htakes, he] using ih
    · by_cases he : ev.oldEvent = e
      · simp [htakes, he] at ih ⊢
        rw [ih, add_left_comm]
      · simpa [htakes, he] using ih

/-- **The nodes of the answer.** -/
theorem nodesSorted_nodePass {mem : TransMemory} {f : Filter} {fromNs toNs : UInt64}
    {agg : BlockAgg} {nodes : List BlockAggNode}
    (hagg : nodePass mem events f fromNs toNs = .ok agg)
    (hnodes : agg.nodesSorted mem = some nodes) :
    (nodes.map BlockAggNode.eventId).Nodup ∧ ∀ n, n ∈ nodes ↔
      ∃ ev ∈ nodeTransitions f fromNs toNs events,
        n = nodeRowOf (nodeTransitions f fromNs toNs events) ev.oldEvent := by
  have hperm : nodes.Perm (SumTable.rows agg.nodes) := by
    rw [BlockAgg.nodesSorted] at hnodes
    split_ifs at hnodes
    obtain rfl := Option.some.inj hnodes
    exact List.mergeSort_perm _ _
  obtain ⟨hnodup, hrows⟩ := nodePass_rows hagg
  refine ⟨(hperm.map BlockAggNode.eventId).nodup_iff.2 hnodup, fun n => ?_⟩
  rw [hperm.mem_iff, hrows, List.mem_map]
  constructor
  · rintro ⟨⟨ev, hev, he⟩, heq⟩
    exact ⟨ev, hev, he ▸ heq⟩
  · rintro ⟨ev, hev, rfl⟩
    exact ⟨⟨ev, hev, rfl⟩, rfl⟩

section Graph

variable {names : EventNames} {mem : TransMemory} {f : Filter} {fromNs toNs : UInt64}
  {events : List TraceEvent} {agg : BlockAgg} {nodes : List BlockAggNode}

theorem oldEvent_mem_eventsOf {ev : TraceEvent}
    (h : ev ∈ nodeTransitions f fromNs toNs events) : ev.oldEvent ∈ eventsOf events :=
  ⟨ev, (List.mem_filter.1 h).1, Or.inl rfl⟩

theorem ShownPair.mem_eventsOf {maxRows : ℕ} {k : UInt32 × UInt32}
    (h : ShownPair f maxRows events k) : k.1 ∈ eventsOf events ∧ k.2 ∈ eventsOf events := by
  obtain ⟨ev, hev, rfl⟩ := List.mem_map.1 h.1
  have hev' := (List.mem_filter.1 hev).1
  exact ⟨⟨ev, hev', Or.inl rfl⟩, ⟨ev, hev', Or.inr rfl⟩⟩

theorem fullName_mem_nodes (hnames : Set.InjOn names.fullName (eventsOf events))
    (hagg : nodePass mem events f fromNs toNs = .ok agg)
    (hnodes : agg.nodesSorted mem = some nodes) {e : UInt32} (he : e ∈ eventsOf events) :
    names.fullName e ∈ (nodes.map names.node).map (·.name) ↔
      ∃ ev ∈ nodeTransitions f fromNs toNs events, ev.oldEvent = e := by
  obtain ⟨-, hmem⟩ := nodesSorted_nodePass hagg hnodes
  rw [List.map_map, List.mem_map]
  constructor
  · rintro ⟨n, hn, hname⟩
    obtain ⟨ev, hev, rfl⟩ := (hmem n).1 hn
    exact ⟨ev, hev,
      hnames (oldEvent_mem_eventsOf hev) he ((node_name names _).symm.trans hname)⟩
  · rintro ⟨ev, hev, rfl⟩
    exact ⟨nodeRowOf _ ev.oldEvent, (hmem _).2 ⟨ev, hev, rfl⟩, node_name names _⟩

/-- No two nodes have one name, so that the only fault can be a link without its node. -/
theorem transitionsDataError_emit (hnames : Set.InjOn names.fullName (eventsOf events))
    (hagg : nodePass mem events f fromNs toNs = .ok agg)
    (hnodes : agg.nodesSorted mem = some nodes) {maxRows : ℕ} {res : TransitionsResult}
    (hres : computeTransitions mem events f maxRows = some res) :
    transitionsDataError (emitTransitionsResponse names res nodes) = none ↔
      ∀ k, ShownPair f maxRows events k →
        (∃ ev ∈ nodeTransitions f fromNs toNs events, ev.oldEvent = k.1) ∧
          ∃ ev ∈ nodeTransitions f fromNs toNs events, ev.oldEvent = k.2 := by
  obtain ⟨hids, hmem⟩ := nodesSorted_nodePass hagg hnodes
  have hok : ∀ n ∈ nodes.map names.node, n.name ≠ "" ∧ 0 ≤ n.totalMs := by
    intro n hn
    obtain ⟨m, -, rfl⟩ := List.mem_map.1 hn
    exact ⟨node_name names m ▸ fullName_ne_empty names m.eventId, toMs_nonneg _⟩
  have hdistinct : ((nodes.map names.node).map (·.name)).Nodup := by
    rw [List.map_map]
    refine (List.nodup_map_iff_inj_on (List.Nodup.of_map _ hids)).2 fun n hn m hm heq => ?_
    rw [Function.comp_apply, Function.comp_apply, node_name, node_name] at heq
    obtain ⟨ev, hev, rfl⟩ := (hmem n).1 hn
    obtain ⟨ev', hev', rfl⟩ := (hmem m).1 hm
    have he : ev.oldEvent = ev'.oldEvent :=
      hnames (oldEvent_mem_eventsOf hev) (oldEvent_mem_eventsOf hev') heq
    rw [he]
  rw [transitionsDataError, emitTransitionsResponse, checkNodes_ok _ [] hok hdistinct
    fun _ _ => List.not_mem_nil]
  rw [checkLinks_eq_none, computeTransitions_rows hres]
  simp only [List.append_nil, List.mem_reverse, List.forall_mem_map]
  have hname := fun {e : UInt32} => fullName_mem_nodes (e := e) hnames hagg hnodes
  constructor
  · intro hlinks k hk
    have hboth := hlinks _ ((mem_take_transitionPairs f _ events _).2 ⟨k, hk, rfl⟩)
    exact ⟨(hname hk.mem_eventsOf.1).1 hboth.1, (hname hk.mem_eventsOf.2).1 hboth.2⟩
  · intro hpairs p hp
    obtain ⟨k, hk, rfl⟩ := (mem_take_transitionPairs f _ events p).1 hp
    exact ⟨(hname hk.mem_eventsOf.1).2 (hpairs k hk).1,
      (hname hk.mem_eventsOf.2).2 (hpairs k hk).2⟩

theorem totalMs_emit (hagg : nodePass mem events f fromNs toNs = .ok agg)
    (hnodes : agg.nodesSorted mem = some nodes) (res : TransitionsResult) :
    (∀ n ∈ (emitTransitionsResponse names res nodes).nodes, n.totalMs =
        toMs (((transitionPairs f events).filter fun p => p.fromEvent = n.eventId).map
          TransAccum.totalNs).sum) ↔
      ∀ ev ∈ nodeTransitions f fromNs toNs events,
        (((countedTransitions f events).filter fun ev' =>
          !nodePassTakes f fromNs toNs ev' && ev'.oldEvent = ev.oldEvent).map
            TraceEvent.durationNs).sum = 0 := by
  obtain ⟨-, hmem⟩ := nodesSorted_nodePass hagg hnodes
  set ln := nodeTransitions f fromNs toNs events with hln
  have hone : ∀ ev ∈ ln, ((names.node (nodeRowOf ln ev.oldEvent)).totalMs =
      toMs (((transitionPairs f events).filter fun p => p.fromEvent = ev.oldEvent).map
        TransAccum.totalNs).sum) ↔ (((countedTransitions f events).filter fun ev' =>
          !nodePassTakes f fromNs toNs ev' && ev'.oldEvent = ev.oldEvent).map
            TraceEvent.durationNs).sum = 0 := by
    intro ev _
    rw [sum_transitionPairs, sum_countedTransitions f fromNs toNs]
    exact toMs_injective.eq_iff.trans left_eq_add
  constructor
  · intro hall ev hev
    exact (hone ev hev).1 (hall _ (List.mem_map_of_mem ((hmem _).2 ⟨ev, hev, rfl⟩)))
  · intro hall n hn
    obtain ⟨m, hm, rfl⟩ := List.mem_map.1 hn
    obtain ⟨ev, hev, rfl⟩ := (hmem m).1 hm
    exact (hone ev hev).2 (hall ev hev)

/-- **When the graph is drawn.** If the events of the records have different names, the client
finds no fault in the graph and every node has the time of all pairs out of it exactly if the
records of nodes have the events of the shown pairs and the others have no time. -/
theorem transitions_drawable_iff {numBuckets : ℤ} {r : TransitionsResponse}
    (hnames : Set.InjOn names.fullName (eventsOf events))
    (h : handleTransitions names mem f fromNs toNs numBuckets events = .ok r) :
    (transitionsDataError r = none ∧
      ∀ n ∈ r.nodes, n.totalMs = toMs (((transitionPairs f events).filter
        fun p => p.fromEvent = n.eventId).map TransAccum.totalNs).sum) ↔
      Drawable f fromNs toNs (transitionsMaxRows numBuckets) events := by
  rw [handleTransitions] at h
  split at h
  · exact absurd h (by simp)
  rename_i res hres
  split at h
  · exact absurd h (by simp)
  rename_i agg hagg
  split at h
  · exact absurd h (by simp)
  rename_i nodes hnodes
  obtain rfl := Except.ok.inj h
  rw [transitionsDataError_emit hnames hagg hnodes hres, totalMs_emit hagg hnodes res]
  exact ⟨fun h => ⟨fun k hk => (h.1 k hk).1, fun k hk => (h.1 k hk).2, h.2⟩,
    fun h => ⟨fun k hk => ⟨h.source k hk, h.target k hk⟩, h.time⟩⟩

end Graph

/-! ### Enough memory -/

theorem transStep_enough (f : Filter) (s : TransState) (ev : TraceEvent) :
    ∃ s', transStep .enough f s ev = some s' := by
  rw [transStep]
  split_ifs with hskip hfull
  · exact ⟨s, rfl⟩
  · simp [TransMemory.enough] at hfull
  · exact ⟨_, rfl⟩

theorem computeTransitions_enough (events : List TraceEvent) (f : Filter) (maxRows : ℕ) :
    ∃ res, computeTransitions .enough events f maxRows = some res := by
  have hrun : ∀ (l : List TraceEvent) (s : TransState),
      ∃ s', l.foldlM (transStep .enough f) s = some s' := by
    intro l
    induction l with
    | nil => exact fun s => ⟨s, rfl⟩
    | cons ev l ih =>
      intro s
      obtain ⟨t, ht⟩ := transStep_enough f s ev
      obtain ⟨s', hs'⟩ := ih t
      exact ⟨s', Option.bind_eq_some_iff.2 ⟨t, ht, hs'⟩⟩
  obtain ⟨s, hs⟩ := hrun events {}
  rw [computeTransitions, hs, Option.bind_some]
  dsimp only
  rw [if_neg (by simp [TransMemory.enough])]
  exact ⟨_, rfl⟩

/-- **A graph is sent.** -/
theorem handleTransitions_enough (names : EventNames) (f : Filter) (fromNs toNs : UInt64)
    (numBuckets : ℤ) (events : List TraceEvent) :
    ∃ r, handleTransitions names .enough f fromNs toNs numBuckets events = .ok r := by
  obtain ⟨res, hres⟩ := computeTransitions_enough events f (transitionsMaxRows numBuckets)
  obtain ⟨agg, hagg, hwindow⟩ := Run.foldlM_succeeds (P := BlockAgg.IsWindow)
    (f := nodePassStep .enough f fromNs toNs) events (fun ev _ a ha => by
      rw [nodePassStep]
      split_ifs
      · exact addAggEvent_enough ha ev
      · exact ⟨a, rfl, ha⟩)
    initWindowAgg ⟨rfl, rfl⟩
  obtain ⟨nodes, hnodes⟩ : ∃ nodes, agg.nodesSorted .enough = some nodes := by
    rw [BlockAgg.nodesSorted, if_neg (by simp [hwindow.mode]),
      if_neg (by simp [TransMemory.enough])]
    exact ⟨_, rfl⟩
  refine ⟨emitTransitionsResponse names res nodes, ?_⟩
  rw [handleTransitions, hres]
  dsimp only
  rw [nodePass, hagg]
  dsimp only
  rw [hnodes]

/-! ### A drill -/

/-- No event has a name. -/
def unnamedEvents : EventNames := ⟨fun _ => none, 0, 0⟩

/-- A backend goes from one event to another and back. -/
def thereAndBack : List TraceEvent :=
  [{ timestampNs := 12, pid := 7, oldEvent := 0x0A000001, newEvent := 0x0A000002, durationNs := 1
     queryId := 0, cpuNs := 0, flags := 0 },
   { timestampNs := 14, pid := 7, oldEvent := 0x0A000002, newEvent := 0x0A000001, durationNs := 2
     queryId := 0, cpuNs := 0, flags := 0 }]

theorem injOn_thereAndBack :
    Set.InjOn unnamedEvents.fullName (eventsOf thereAndBack) := by
  have hsub : ∀ e ∈ eventsOf thereAndBack, e = 0x0A000001 ∨ e = 0x0A000002 := by
    rintro e ⟨ev, hev, he⟩
    rcases List.mem_cons.1 hev with rfl | hev
    · exact he.imp Eq.symm Eq.symm
    · obtain rfl := List.mem_singleton.1 hev
      exact he.symm.imp Eq.symm Eq.symm
  have hne : unnamedEvents.fullName 0x0A000001 ≠ unnamedEvents.fullName 0x0A000002 := by
    decide +kernel
  intro a ha b hb heq
  rcases hsub a ha with rfl | rfl <;> rcases hsub b hb with rfl | rfl
  · rfl
  · exact absurd heq hne
  · exact absurd heq.symm hne
  · rfl

/-- Without a filter its graph is drawn. -/
theorem transitions_drawable_iff_thereAndBack :
    ∃ r, handleTransitions unnamedEvents .enough {} 10 20 0 thereAndBack = .ok r ∧
      ((transitionsDataError r = none ∧
        ∀ n ∈ r.nodes, n.totalMs = toMs (((transitionPairs {} thereAndBack).filter
          fun p => p.fromEvent = n.eventId).map TransAccum.totalNs).sum) ↔
        Drawable {} 10 20 50 thereAndBack) := by
  obtain ⟨r, hr⟩ := handleTransitions_enough unnamedEvents {} 10 20 0 thereAndBack
  exact ⟨r, hr, transitions_drawable_iff injOn_thereAndBack hr⟩

/-- **A drill on one of the two events.** The other has no node. -/
theorem transitions_eventDrill :
    Set.InjOn unnamedEvents.fullName (eventsOf thereAndBack) ∧
      (handleTransitions unnamedEvents .enough { hasEventFilter := true, eventId := 0x0A000001 }
        10 20 0 thereAndBack).toOption.map transitionsDataError =
        some (some "missing node: IO:id=2") :=
  ⟨injOn_thereAndBack, by decide +kernel⟩

end PgWaitTracer
