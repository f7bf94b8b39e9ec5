import PgWaitTracer.Compute.AasIntegrates
import PgWaitTracer.Compute.TopEventsExact
import PgWaitTracer.Compute.WindowPartition

/-!
# Searches that end

Three views keep their events in a table of a fixed size that is probed until the event or a free slot
is found, with no test whether the table is full: top events (`pgwt_compute_top_events`), the chart
with its events (`pgwt_compute_aas`) and top events of summaries (`te_summary_visitor`,
`src/compute.c`). A search that meets only other events does not end.

## Main results

* `searchesEnd_iff`: when all searches of the three views end.
-/

namespace PgWaitTracer

open LinearProbe

/-! ### Top events of summaries -/

/-- The events of a record that the view searches for, with their counts. -/
def teKeys (f : Filter) (rec : SummaryAccum) : List (UInt32 × UInt64) :=
  if f.queryId ≠ 0 then
    match rec.queries.find? fun q => !q.vacant && q.queryId = f.queryId with
    | some q => (q.topEvents.filter fun e => listsEvent f e.eventId).map fun e =>
        (e.eventId, e.count)
    | none => []
  else (rec.events.filter fun e =>
    !(e.eventId = 0 && e.count = 0) && listsEvent f e.eventId).map fun e => (e.eventId, e.count)

/-- The table after the events of a list have been searched for: its owners are those with a count. -/
structure TeTable (ctx : TeSummaryCtx) (l : List (UInt32 × UInt64)) : Prop where
  laid : Filing.Laid eventHtHash (ctx.ht.map TopEventAccum.owner)
  length_eq : ctx.ht.length = eventHtSize
  holders_eq : Filing.holders (ctx.ht.map TopEventAccum.owner) =
    ((l.filter fun x => x.2 ≠ 0).map Prod.fst).toFinset

theorem teTable_start : TeTable teSummaryStart [] where
  laid := by
    rw [teSummaryStart, owners_zero]
    exact laid_noOwners
  length_eq := List.length_replicate
  holders_eq := by
    rw [teSummaryStart, owners_zero]
    ext id
    simp [noOwners, List.mem_replicate]

section Step

variable (mask : UInt32) {ctx : TeSummaryCtx} {l : List (UInt32 × UInt64)} {id : UInt32}
  {count total : UInt64} {latency : TopEventAccum → TopEventAccum}

variable (id count total) in
theorem TeTable.teAdd (h : TeTable ctx l) (hlat : ∀ s, (latency s).owner = s.owner) :
    let ends := id ∈ (l.filter fun x => x.2 ≠ 0).map Prod.fst ∨
      ((l.filter fun x => x.2 ≠ 0).map Prod.fst).toFinset.card < eventHtSize
    (¬ ends ∧ PgWaitTracer.teAdd mask ctx id count total latency = none) ∨
      ends ∧ ∃ ctx', PgWaitTracer.teAdd mask ctx id count total latency = some ctx' ∧
        TeTable ctx' (l ++ [(id, count)]) := by
  intro ends
  have hnone : Filing.slot eventHtHash (ctx.ht.map TopEventAccum.owner) id = none ↔ ¬ ends := by
    rw [h.laid.slot_eq_none_iff, h.holders_eq, List.length_map, h.length_eq, List.mem_toFinset,
      not_or, Nat.not_lt]
  rw [PgWaitTracer.teAdd, teSlot_eq]
  cases hslot : Filing.slot eventHtHash (ctx.ht.map TopEventAccum.owner) id with
  | none => exact Or.inl ⟨hnone.mp hslot, rfl⟩
  | some j =>
    refine Or.inr ⟨?_, _, rfl, ?_⟩
    · by_contra hno
      exact absurd (hslot.symm.trans (hnone.mpr hno)) (by simp)
    · have hnext := map_owner_modify count total total.toNat hlat hslot
      refine ⟨?_, ?_, ?_⟩
      · rw [hnext]
        exact h.laid.next _
      · exact (List.length_modify ..).trans h.length_eq
      · rw [hnext, Filing.holders_next hslot, h.holders_eq, List.filter_append]
        ext id'
        by_cases hc : count = 0
        · simp [hc]
        · simp [hc]

end Step

/-- All searches for the events of a list end, and the table is theirs; or one does not end. -/
def TeRun (l : List (UInt32 × UInt64)) (r : Option TeSummaryCtx) : Prop :=
  (¬ Tally.RoomFor Prod.fst (fun x => decide (x.2 ≠ 0)) eventHtSize l ∧ r = none) ∨
    Tally.RoomFor Prod.fst (fun x => decide (x.2 ≠ 0)) eventHtSize l ∧ ∃ ctx, r = some ctx ∧
      TeTable ctx l

/-- **Run.** -/
theorem TeRun.foldlM {α : Type*} (mask : UInt32) {id : α → UInt32} {count total : α → UInt64}
    {latency : α → TopEventAccum → TopEventAccum}
    (hlat : ∀ x s, (latency x s).owner = s.owner) {l : List (UInt32 × UInt64)}
    {r : Option TeSummaryCtx} (h : TeRun l r) (xs : List α) :
    TeRun (l ++ xs.map fun x => (id x, count x)) (r.bind fun ctx => xs.foldlM
      (fun ctx x => teAdd mask ctx (id x) (count x) (total x) (latency x)) ctx) := by
  induction xs generalizing l r with
  | nil =>
    have hpure : (r.bind fun ctx => ([] : List α).foldlM
        (fun ctx x => teAdd mask ctx (id x) (count x) (total x) (latency x)) ctx) = r :=
      bind_pure r
    rw [hpure, List.map_nil, List.append_nil]
    exact h
  | cons x xs ih =>
    have hstep : TeRun (l ++ [(id x, count x)])
        (r.bind fun ctx => teAdd mask ctx (id x) (count x) (total x) (latency x)) := by
      rw [TeRun, Tally.roomFor_snoc]
      rcases h with ⟨hno, rfl⟩ | ⟨hroom, ctx, rfl, htable⟩
      · exact Or.inl ⟨fun hroom => hno hroom.1, rfl⟩
      · rcases htable.teAdd mask (id x) (count x) (total x) (hlat x) with
          ⟨hfull, hnone⟩ | ⟨hends, ctx', hsome, htable'⟩
        · exact Or.inl ⟨fun hroom => hfull hroom.2, hnone⟩
        · exact Or.inr ⟨⟨hroom, hends⟩, ctx', hsome, htable'⟩
    have hrest := ih hstep
    rw [List.append_assoc, Option.bind_assoc] at hrest
    exact hrest

theorem foldlM_teQueryEvent (mask : UInt32) (f : Filter) (es : List SummaryQueryEvent)
    (ctx : TeSummaryCtx) :
    es.foldlM (teQueryEvent mask f) ctx = (es.filter fun e => listsEvent f e.eventId).foldlM
      (fun ctx e => teAdd mask ctx e.eventId e.count e.totalNs id) ctx := by
  induction es generalizing ctx with
  | nil => rfl
  | cons e es ih =>
    have hstep : teQueryEvent mask f ctx e = if listsEvent f e.eventId then
        teAdd mask ctx e.eventId e.count e.totalNs id else some ctx := by
      rw [teQueryEvent, listsEvent]
      by_cases h₁ : isHiddenEvent e.eventId = true <;>
        by_cases h₂ : summaryEventMatchesFilter f e.eventId = true <;> simp [h₁, h₂]
    rw [List.foldlM_cons, hstep, List.filter_cons]
    split_ifs with h
    · rw [List.foldlM_cons]
      exact congrArg _ (funext ih)
    · exact ih ctx

theorem TeRun.visit (mask : UInt32) (f : Filter) {l : List (UInt32 × UInt64)}
    {r : Option TeSummaryCtx} (h : TeRun l r) (rec : SummaryAccum) :
    TeRun (l ++ teKeys f rec) (r.bind fun ctx => teSummaryVisitor mask f ctx rec) := by
  have hnil : TeRun (l ++ []) (r.bind some) := by
    rw [List.append_nil]
    cases r <;> exact h
  simp only [teKeys, teSummaryVisitor]
  split_ifs with hq
  · cases rec.queries.find? fun q => !q.vacant && q.queryId = f.queryId with
    | none => exact hnil
    | some q =>
      simp only [foldlM_teQueryEvent]
      exact h.foldlM mask (fun _ _ => rfl) _
  · simp only [foldlM_teEvent]
    exact h.foldlM mask (fun e s => owner_addLatency s e) _

/-- **Top events of summaries.** All searches end exactly when every event that is searched for has a
count before, or fewer events than slots have one. -/
theorem teSummaryVisitor_eq_none_iff (mask : UInt32) (f : Filter) (recs : List SummaryAccum) :
    recs.foldlM (teSummaryVisitor mask f) teSummaryStart = none ↔
      ¬ Tally.RoomFor Prod.fst (fun x : UInt32 × UInt64 => decide (x.2 ≠ 0)) eventHtSize
        (recs.flatMap (teKeys f)) := by
  have hrun : ∀ (l : List (UInt32 × UInt64)) (r : Option TeSummaryCtx), TeRun l r →
      TeRun (l ++ recs.flatMap (teKeys f))
        (r.bind fun ctx => recs.foldlM (teSummaryVisitor mask f) ctx) := by
    induction recs with
    | nil =>
      intro l r h
      have hpure : (r.bind fun ctx => [].foldlM (teSummaryVisitor mask f) ctx) = r := bind_pure r
      rw [hpure, List.flatMap_nil, List.append_nil]
      exact h
    | cons rec recs ih =>
      intro l r h
      have hrest := ih _ _ (h.visit mask f rec)
      rw [List.append_assoc, Option.bind_assoc] at hrest
      exact hrest
  have hstart : TeRun [] (some teSummaryStart) :=
    Or.inr ⟨fun l₁ x l₂ heq => by simp at heq, teSummaryStart, rfl, teTable_start⟩
  rcases hrun [] (some teSummaryStart) hstart with ⟨hno, hnone⟩ | ⟨hroom, ctx, hsome, -⟩
  · exact ⟨fun _ => hno, fun _ => hnone⟩
  · rw [Option.bind_some] at hsome
    rw [hsome]
    exact ⟨fun h => absurd h (by simp), fun h => absurd hroom h⟩

/-! ### Top events and the chart -/

theorem topEvents_eq_none_iff (mask : UInt32) (f : Filter) (fromNs toNs : ℕ)
    (evs : List TraceEvent) :
    topEvents mask f fromNs toNs evs = none ↔ eventHtSize < (listedIds f evs).card := by
  rcases topEvents_cases mask f fromNs toNs evs with ⟨hlt, hnone⟩ | ⟨hle, r, hr, -⟩
  · exact ⟨fun _ => hlt, fun _ => hnone⟩
  · rw [hr]
    exact ⟨fun h => absurd h (by simp), fun h => absurd h (Nat.not_lt.mpr hle)⟩

theorem computeAas_eq_none_iff (mask : UInt32) (f : Filter) {fromNs toNs : ℕ}
    (hto : fromNs ≤ toNs) (numBuckets : ℕ) (maxSeries : ℤ) (evs : List TraceEvent) :
    computeAas mask f fromNs toNs numBuckets true maxSeries evs = none ↔
      fromNs < toNs ∧ 0 < numBuckets ∧ ¬ Tally.RoomFor TraceEvent.oldEvent
        (fun ev => decide (0 < (aasGrid fromNs toNs numBuckets).clipNs ev)) aasEvtHtSize
        (evs.filter ((aasGrid fromNs toNs numBuckets).lists mask f)) := by
  by_cases hempty : toNs - fromNs = 0 ∨ numBuckets = 0
  · rw [computeAas, if_pos hempty]
    refine ⟨fun h => absurd h (by simp), fun h => ?_⟩
    omega
  · have hlt : fromNs < toNs := by omega
    have hnum : 0 < numBuckets := by omega
    rw [computeAas_eq hlt hnum, if_pos rfl, Option.map_eq_none_iff]
    rcases aasEventTable_cases mask f (aasGrid fromNs toNs numBuckets) evs with
      ⟨hno, hnone⟩ | ⟨hroom, t, ht, -⟩
    · exact ⟨fun _ => ⟨hlt, hnum, hno⟩, fun _ => hnone⟩
    · rw [ht]
      exact ⟨fun h => absurd h (by simp), fun h => absurd hroom h.2.2⟩

/-- **When the searches end.** Top events end exactly when they list at most as many events as the table
has slots; the chart with its events and the top events of summaries exactly when every event that is
searched for has taken a slot before, or fewer events than slots have. -/
theorem searchesEnd_iff (mask : UInt32) (f : Filter) {fromNs toNs : ℕ} (hto : fromNs ≤ toNs)
    (numBuckets : ℕ) (maxSeries : ℤ) (evs : List TraceEvent) (recs : List SummaryAccum) :
    (topEvents mask f fromNs toNs evs ≠ none ↔ (listedIds f evs).card ≤ eventHtSize) ∧
      (computeAas mask f fromNs toNs numBuckets true maxSeries evs ≠ none ↔
        fromNs = toNs ∨ numBuckets = 0 ∨ Tally.RoomFor TraceEvent.oldEvent
          (fun ev => decide (0 < (aasGrid fromNs toNs numBuckets).clipNs ev)) aasEvtHtSize
          (evs.filter ((aasGrid fromNs toNs numBuckets).lists mask f))) ∧
      (recs.foldlM (teSummaryVisitor mask f) teSummaryStart ≠ none ↔
        Tally.RoomFor Prod.fst (fun x : UInt32 × UInt64 => decide (x.2 ≠ 0)) eventHtSize
          (recs.flatMap (teKeys f))) := by
  refine ⟨?_, ?_, ?_⟩
  · rw [Ne, topEvents_eq_none_iff, Nat.not_lt]
  · rw [Ne, computeAas_eq_none_iff mask f hto, not_and_or, not_and_or, Nat.not_lt, Nat.not_lt,
      not_not]
    refine or_congr ⟨fun h => le_antisymm hto h, fun h => h.ge⟩ (or_congr ?_ Iff.rfl)
    exact Nat.le_zero
  · rw [Ne, teSummaryVisitor_eq_none_iff, not_not]

theorem searchesEnd_oneWait :
    (topEvents 0 {} 10 30 [waitRecord 0x0A000001 20] ≠ none ↔
        (listedIds {} [waitRecord 0x0A000001 20]).card ≤ eventHtSize) ∧
      computeAas 0 {} 10 30 1 true 16 [waitRecord 0x0A000001 20] ≠ none ∧
      [lockSecond].foldlM (teSummaryVisitor 0 {}) teSummaryStart ≠ none := by
  obtain ⟨htop, haas, hte⟩ := searchesEnd_iff 0 {} (show 10 ≤ 30 by decide) 1 16
    [waitRecord 0x0A000001 20] [lockSecond]
  have hkeys : (teKeys {} lockSecond).length ≤ eventHtSize := by decide +kernel
  refine ⟨htop, haas.mpr (Or.inr (Or.inr ?_)), hte.mpr ?_⟩
  · exact Tally.roomFor_of_length_le ((List.length_filter_le _ _).trans (by decide))
  · exact Tally.roomFor_of_length_le (by simpa using hkeys)

/-! ### More events than slots -/

/-- The events of the class IO. -/
def ioEvent (i : ℕ) : UInt32 := 0x0A000000 + UInt32.ofNat i

variable {i : ℕ}

theorem toNat_ioEvent (hi : i < 2 ^ 24) : (ioEvent i).toNat = 0x0A000000 + i := by
  rw [ioEvent, UInt32.toNat_add, UInt32.toNat_ofNat']
  change (167772160 + i % 2 ^ 32) % 2 ^ 32 = _
  omega

theorem ioEvent_inj {j : ℕ} (hi : i < 2 ^ 24) (hj : j < 2 ^ 24) (h : ioEvent i = ioEvent j) :
    i = j := by
  have heq := congrArg UInt32.toNat h
  rw [toNat_ioEvent hi, toNat_ioEvent hj] at heq
  omega

theorem weClass_ioEvent (hi : i < 2 ^ 24) : weClass (ioEvent i) = 0x0A := by
  rw [weClass, ← UInt32.toNat_inj, UInt32.toNat_and, UInt32.toNat_shiftRight, toNat_ioEvent hi]
  change (167772160 + i) >>> 24 &&& (2 ^ 8 - 1) = 10
  rw [Nat.and_two_pow_sub_one_eq_mod, Nat.shiftRight_eq_div_pow]
  omega

theorem isMarker_ioEvent (hi : i < 2 ^ 24) : isMarker (ioEvent i) = false := by
  rw [isMarker, Bool.and_eq_false_iff]
  refine Or.inl (decide_eq_false ?_)
  rw [UInt32.le_iff_toNat_le, toNat_ioEvent hi]
  change ¬ 4294967280 ≤ 167772160 + i
  omega

theorem listsEvent_ioEvent (hi : i < 2 ^ 24) : listsEvent {} (ioEvent i) = true := by
  simp [listsEvent, isHiddenEvent, weClass_ioEvent hi, summaryEventMatchesFilter,
    isMarker_ioEvent hi]

theorem ioEvent_full {n : ℕ} (hn : n < 2 ^ 24) :
    ¬ (ioEvent n ∈ (List.range n).map ioEvent ∨ ((List.range n).map ioEvent).toFinset.card < n) := by
  rw [not_or]
  refine ⟨fun hmem => ?_, ?_⟩
  · obtain ⟨i, hi, heq⟩ := List.mem_map.mp hmem
    have hlt := List.mem_range.mp hi
    exact hlt.ne (ioEvent_inj (by omega) hn heq)
  · rw [List.toFinset_card_of_nodup, List.length_map, List.length_range]
    · exact lt_irrefl n
    · refine List.Nodup.map_on (fun i hi j hj heq => ?_) List.nodup_range
      have := List.mem_range.mp hi
      have := List.mem_range.mp hj
      exact ioEvent_inj (by omega) (by omega) heq

/-- A wait for each of the first events. -/
def ioWaits (n : ℕ) : List TraceEvent := (List.range n).map fun i => waitRecord (ioEvent i) 20

theorem map_oldEvent_ioWaits (n : ℕ) :
    (ioWaits n).map TraceEvent.oldEvent = (List.range n).map ioEvent := List.map_map ..

theorem sessionTakes_ioWait (hi : i < 2 ^ 24) :
    sessionTakes 0 {} (waitRecord (ioEvent i) 20) = true := by
  have hts : ¬ (waitRecord (ioEvent i) 20).ts < (waitRecord (ioEvent i) 20).dur := by
    change ¬ 20 < 10
    decide
  have hne : ioEvent i ≠ weiClientRead := by
    intro heq
    have hclass := weClass_ioEvent hi
    rw [heq] at hclass
    exact absurd hclass (by decide)
  rw [sessionTakes, filterMatches, if_neg hts]
  simp [waitRecord, isMarker_ioEvent hi, isIdleEvent, weClass_ioEvent hi, hne]

theorem topEventsTakes_ioWait (hi : i < 2 ^ 24) :
    topEventsTakes {} (waitRecord (ioEvent i) 20) = true := by
  have htakes := sessionTakes_ioWait hi
  simp only [sessionTakes, Bool.and_eq_true] at htakes
  rw [topEventsTakes, htakes.1.1, Bool.true_and]
  simp [isHiddenEvent, waitRecord, weClass_ioEvent hi]

theorem filter_ioWaits {p : TraceEvent → Bool} (n : ℕ)
    (h : ∀ i < n, p (waitRecord (ioEvent i) 20) = true) : (ioWaits n).filter p = ioWaits n := by
  refine List.filter_eq_self.mpr fun ev hev => ?_
  obtain ⟨i, hi, rfl⟩ := List.mem_map.mp hev
  exact h i (List.mem_range.mp hi)

/-- An event with a count of 1. -/
def ioEntry (i : ℕ) : SummaryEvent := { SummaryEvent.zero with eventId := ioEvent i, count := 1 }

/-- As many events as the table of a second has slots. -/
def fullEvents (k : ℕ) : List SummaryEvent :=
  (List.range' (summaryMaxEvents * k) summaryMaxEvents).map ioEntry

/-- A second with a full table. -/
def fullSecond (k : ℕ) : SummaryAccum :=
  { accumReset with events := fullEvents k, numEvents := summaryMaxEvents }

theorem teKeys_fullSecond {k : ℕ} (hk : k < 3) :
    teKeys {} (fullSecond k) = (List.range' (summaryMaxEvents * k) summaryMaxEvents).map
      fun i => (ioEvent i, (1 : UInt64)) := by
  have hkeys : teKeys {} (fullSecond k) = ((fullEvents k).filter fun e =>
      !(e.eventId = 0 && e.count = 0) && listsEvent {} e.eventId).map
        fun e => (e.eventId, e.count) := by
    rw [teKeys, if_neg (by simp)]
    rfl
  rw [hkeys, List.filter_eq_self.mpr, fullEvents, List.map_map]
  · rfl
  · intro e he
    obtain ⟨i, hi, rfl⟩ := List.mem_map.mp he
    have hlt := (List.mem_range'_1.mp hi).2
    have hsize : i < 2 ^ 24 := by
      simp only [summaryMaxEvents] at hlt
      omega
    simp [ioEntry, listsEvent_ioEvent hsize]

/-- The searches for more events than slots do not end. -/
theorem searches_do_not_end :
    topEvents 0 {} 10 30 (ioWaits 2049) = none ∧
      computeAas 0 {} 10 30 1 true 16 (ioWaits 513) = none ∧
      [fullSecond 0, fullSecond 1, fullSecond 2].foldlM (teSummaryVisitor 0 {}) teSummaryStart =
        none := by
  refine ⟨?_, ?_, ?_⟩
  · have htaken : topEventsTaken {} (ioWaits 2049) = ioWaits 2049 :=
      filter_ioWaits _ fun i hi => topEventsTakes_ioWait (by omega)
    rw [topEvents_eq_none_iff, listedIds, htaken, map_oldEvent_ioWaits]
    have hfull := ioEvent_full (n := 2049) (by decide)
    exact Nat.not_le.mp fun hle => hfull (Or.inr (Nat.lt_succ_of_le hle))
  · rw [computeAas_eq_none_iff 0 {} (by decide)]
    refine ⟨by decide, by decide, fun hroom => ?_⟩
    have hlists : ∀ i < 513, (aasGrid 10 30 1).lists 0 {} (waitRecord (ioEvent i) 20) = true := by
      intro i hi
      rw [AasGrid.lists, sessionTakes_ioWait (by omega), Bool.true_and]
      rfl
    rw [filter_ioWaits _ hlists, ioWaits, List.range_succ, List.map_append] at hroom
    have hlast := hroom _ _ [] rfl
    rw [← ioWaits, filter_ioWaits 512 fun i hi => rfl, map_oldEvent_ioWaits] at hlast
    exact ioEvent_full (n := 512) (by decide) hlast
  · rw [teSummaryVisitor_eq_none_iff]
    intro hroom
    have hfirst : List.range' (summaryMaxEvents * 0) summaryMaxEvents ++
        List.range' (summaryMaxEvents * 1) summaryMaxEvents = List.range 2048 := by
      rw [List.range_eq_range', Nat.mul_zero, Nat.mul_one]
      exact (congrArg (_ ++ List.range' · _) (Nat.zero_add _).symm).trans List.range'_append_1
    have hthird : List.range' (summaryMaxEvents * 2) summaryMaxEvents =
        2048 :: List.range' 2049 1023 := List.range'_succ
    have hsplit : [fullSecond 0, fullSecond 1, fullSecond 2].flatMap (teKeys {}) =
        ((List.range 2048).map fun i => (ioEvent i, (1 : UInt64))) ++
          (ioEvent 2048, 1) :: (List.range' 2049 1023).map fun i => (ioEvent i, 1) := by
      rw [List.flatMap_cons, List.flatMap_cons, List.flatMap_cons, List.flatMap_nil,
        List.append_nil, teKeys_fullSecond (by decide), teKeys_fullSecond (by decide),
        teKeys_fullSecond (by decide), ← List.append_assoc, ← List.map_append, hfirst, hthird,
        List.map_cons]
    have hlast := hroom _ _ _ hsplit
    rw [List.filter_eq_self.mpr fun x hx => by
      obtain ⟨i, -, rfl⟩ := List.mem_map.mp hx
      rfl, List.map_map] at hlast
    exact ioEvent_full (n := 2048) (by decide) hlast

end PgWaitTracer
