import PgWaitTracer.Compute.TopEvents
import PgWaitTracer.Lib.Tally

/-!
# When top events report the time of each event

The table of the visitor files entries as `Filing` does, with the count as the claim of a slot: time
that comes without a count goes to a slot that its event does not own, and stays there when another
event claims the slot.

## Main results

* `topEvents_exact_iff`: the rows are right if and only if no time is passed by or
  filed in a slot of another event.
-/

namespace PgWaitTracer

open LinearProbe

/-! ### The table as a filing -/

theorem stops_owner (id : UInt32) (s : TopEventAccum) :
    stops (fun o => o) Option.isNone (some id) s.owner = (s.count = 0 || s.eventId = id) := by
  rw [stops, TopEventAccum.owner]
  split_ifs with h
  · simp [h]
  · simp [h]

theorem teSlot_eq (ht : List TopEventAccum) (id : UInt32) :
    teSlot ht id = Filing.slot eventHtHash (ht.map TopEventAccum.owner) id := by
  rw [teSlot, Filing.slot, probe_map]
  refine congrArg (probe · ht _) (funext fun s => ?_)
  exact (stops_owner id s).symm

@[simp] theorem owner_addLatency (s : TopEventAccum) (e : SummaryEvent) :
    (s.addLatency e).owner = s.owner := rfl

variable {f : Filter} {recs : List SummaryAccum} {ht : List TopEventAccum} {ctx : TeSummaryCtx}
  {id : UInt32}

theorem owner_add {s : TopEventAccum} {count : UInt64} (total : UInt64)
    (hs : s.owner = none ∨ s.owner = some id) :
    (s.add id count total).owner = if count ≠ 0 then some id else s.owner := by
  have hcount : count.toNat = 0 ↔ count = 0 := by
    rw [← UInt64.toNat_inj]
    rfl
  simp only [TopEventAccum.owner, TopEventAccum.add, ne_eq] at hs ⊢
  by_cases h₀ : s.count = 0 <;> by_cases h₁ : count = 0 <;> simp_all

theorem exists_owner_of_slot {j : ℕ}
    (hj : Filing.slot eventHtHash (ht.map TopEventAccum.owner) id = some j) :
    ∃ s, ht[j]? = some s ∧ (s.owner = none ∨ s.owner = some id) := by
  have howner := Filing.owner_of_slot hj
  simp only [List.getElem?_map, Option.map_eq_some_iff] at howner
  rcases howner with ⟨s, hs, ho⟩ | ⟨s, hs, ho⟩
  · exact ⟨s, hs, Or.inl ho⟩
  · exact ⟨s, hs, Or.inr ho⟩

theorem map_owner_modify {j : ℕ} (count total : UInt64) (amount : ℕ)
    {latency : TopEventAccum → TopEventAccum} (hlat : ∀ s, (latency s).owner = s.owner)
    (hj : Filing.slot eventHtHash (ht.map TopEventAccum.owner) id = some j) :
    (ht.modify j fun s => latency (s.add id count total)).map TopEventAccum.owner =
      Filing.next eventHtHash (ht.map TopEventAccum.owner) ⟨id, count ≠ 0, amount⟩ := by
  obtain ⟨s, hs, hown⟩ := exists_owner_of_slot hj
  simp only [modify_of_getElem? hs, List.map_set, hlat, owner_add _ hown, Filing.next, hj,
    decide_eq_true_eq]
  split_ifs
  · rfl
  · exact set_of_getElem? (by rw [List.getElem?_map, hs]; rfl)

/-- What an entry adds to DB time. -/
def dbShare (mask : UInt32) (e : SummaryEvent) : ℕ :=
  if isIdleEvent mask e.eventId then 0 else e.totalNs.toNat

theorem teFile_eq_some (mask : UInt32) {e : SummaryEvent} {j : ℕ}
    (hj : Filing.slot eventHtHash (ctx.ht.map TopEventAccum.owner) e.eventId = some j) :
    ∃ ctx', teFile mask ctx e = some ctx' ∧
      ctx'.ht.map TopEventAccum.owner =
        Filing.next eventHtHash (ctx.ht.map TopEventAccum.owner) e.filing ∧
      (∀ i, (ctx'.ht[i]?).map TopEventAccum.totalNs = (ctx.ht[i]?).map fun s =>
        s.totalNs + if some j = some i then e.totalNs.toNat else 0) ∧
      ctx'.dbTimeNs = ctx.dbTimeNs + dbShare mask e := by
  obtain ⟨s, hs, -⟩ := exists_owner_of_slot hj
  have hlt : j < ctx.ht.length := (List.getElem?_eq_some_iff.1 hs).1
  rw [teFile, teAdd, teSlot_eq, hj]
  refine ⟨_, rfl, ?_, fun i => ?_, ?_⟩
  · exact map_owner_modify _ _ _ (owner_addLatency · e) hj
  · simp only [modify_of_getElem? hs, Option.some.injEq]
    rw [List.getElem?_set]
    split_ifs with hij
    · subst hij
      simp [hs, TopEventAccum.add, TopEventAccum.addLatency]
    · simp
  · simp only [dbShare]
    split_ifs
    · rfl
    · rfl

/-- **The visitor files its entries**, if every entry has a slot. -/
theorem foldlM_teFile (mask : UInt32) (es : List SummaryEvent) (ctx : TeSummaryCtx)
    (hsome : ∀ f ∈ Filing.filings eventHtHash (ctx.ht.map TopEventAccum.owner)
      (es.map SummaryEvent.filing), f.1 ≠ none) :
    ∃ ctx', es.foldlM (teFile mask) ctx = some ctx' ∧
      ctx'.ht.map TopEventAccum.owner = Filing.layout eventHtHash
        (ctx.ht.map TopEventAccum.owner) (es.map SummaryEvent.filing) ∧
      (∀ i, (ctx'.ht[i]?).map TopEventAccum.totalNs = (ctx.ht[i]?).map fun s =>
        s.totalNs + Filing.filedAt (Filing.filings eventHtHash (ctx.ht.map TopEventAccum.owner)
          (es.map SummaryEvent.filing)) i) ∧
      ctx'.dbTimeNs = ctx.dbTimeNs + (es.map (dbShare mask)).sum := by
  induction es generalizing ctx with
  | nil => exact ⟨ctx, rfl, rfl, fun i => by simp [Filing.filings, Filing.filedAt], rfl⟩
  | cons e es ih =>
    rw [List.map_cons, Filing.filings] at hsome
    obtain ⟨j, hj⟩ : ∃ j, Filing.slot eventHtHash (ctx.ht.map TopEventAccum.owner) e.eventId =
        some j := Option.ne_none_iff_exists'.1 (hsome _ List.mem_cons_self)
    obtain ⟨ctx₁, hfile, howner, htotal, hdb⟩ := teFile_eq_some mask hj
    rw [← howner] at hsome
    obtain ⟨ctx', hrun, howner', htotal', hdb'⟩ :=
      ih ctx₁ fun f hf => hsome f (List.mem_cons_of_mem _ hf)
    refine ⟨ctx', ?_, ?_, fun i => ?_, ?_⟩
    · rw [List.foldlM_cons, hfile]
      exact hrun
    · rw [howner', howner]
      rfl
    · have hsplit : ∀ i, Filing.filedAt (Filing.filings eventHtHash
          (ctx.ht.map TopEventAccum.owner) ((e :: es).map SummaryEvent.filing)) i =
          (if some j = some i then e.totalNs.toNat else 0) + Filing.filedAt (Filing.filings
            eventHtHash (ctx₁.ht.map TopEventAccum.owner) (es.map SummaryEvent.filing)) i := by
        intro i
        rw [List.map_cons, Filing.filings, howner, Filing.filedAt, List.map_cons, List.sum_cons]
        rw [show e.filing.key = e.eventId from rfl, hj]
        rfl
      have hi := htotal i
      rw [htotal' i, hsplit i]
      cases hc : ctx.ht[i]? with
      | none =>
        rw [hc, Option.map_none, Option.map_eq_none_iff] at hi
        rw [hi]
        rfl
      | some s =>
        rw [hc, Option.map_some, Option.map_eq_some_iff] at hi
        obtain ⟨s', hs', heq⟩ := hi
        rw [hs', Option.map_some, Option.map_some, heq, Nat.add_assoc]
    · rw [hdb', hdb, List.map_cons, List.sum_cons, Nat.add_assoc]

theorem filings_ne_none {mask : UInt32} (es : List SummaryEvent) {ctx' : TeSummaryCtx}
    (h : es.foldlM (teFile mask) ctx = some ctx') :
    ∀ f ∈ Filing.filings eventHtHash (ctx.ht.map TopEventAccum.owner)
      (es.map SummaryEvent.filing), f.1 ≠ none := by
  induction es generalizing ctx with
  | nil => exact fun f hf => absurd hf List.not_mem_nil
  | cons e es ih =>
    rw [List.foldlM_cons] at h
    obtain ⟨ctx₁, hfile, hrest⟩ := Option.bind_eq_some_iff.1 h
    have hslot : Filing.slot eventHtHash (ctx.ht.map TopEventAccum.owner) e.eventId ≠ none := by
      intro hnone
      rw [teFile, teAdd, teSlot_eq, hnone] at hfile
      exact absurd hfile (by simp)
    obtain ⟨j, hj⟩ := Option.ne_none_iff_exists'.1 hslot
    obtain ⟨ctx₂, hfile', howner, -, -⟩ := teFile_eq_some mask hj
    obtain rfl : ctx₁ = ctx₂ := Option.some.inj (hfile.symm.trans hfile')
    rintro f hf
    rw [List.map_cons, Filing.filings] at hf
    rcases List.mem_cons.1 hf with rfl | hf
    · exact hslot
    · rw [← howner] at hf
      exact ih hrest f hf

/-! ### Rows -/

/-- The time of an event in all records. -/
def eventTotalNs (recs : List SummaryAccum) (id : UInt32) : ℕ :=
  ((recordEvents recs).map fun e => if e.eventId = id then e.totalNs.toNat else 0).sum

/-- The time of the listed events that are not idle, in all records. -/
def listedDbTimeNs (mask : UInt32) (f : Filter) (recs : List SummaryAccum) : ℕ :=
  ((recordEvents recs).map fun e =>
    if listsEvent f e.eventId then dbShare mask e else 0).sum

/-- Every listed event with time has one row, with that time, and DB time is the time of the listed
events that are not idle. -/
def TopEventsExact (mask : UInt32) (f : Filter) (recs : List SummaryAccum) : Prop :=
  ∃ res, topEventsFromSummaries mask f recs = some res ∧
    (∀ id, listsEvent f id = true → 0 < eventTotalNs recs id →
      ∃ row, res.rows.filter (fun r => r.eventId = id) = [row] ∧
        row.totalNs = eventTotalNs recs id) ∧
    res.dbTimeNs = listedDbTimeNs mask f recs

/-- A free table. -/
def noOwners : List (Option UInt32) := List.replicate eventHtSize none

/-- **The condition on the records.** CPU time never comes without a count, if it is listed; and in a
table that is laid out by the entries with a count, every listed entry has a slot, and every one
with time has a slot that its event owns in the end. -/
def TimeKept (f : Filter) (recs : List SummaryAccum) : Prop :=
  (listsEvent f 0 = true → ∀ e ∈ recordEvents recs, e.eventId = 0 → e.count = 0 → e.totalNs = 0) ∧
    Filing.Kept eventHtHash noOwners ((filedEvents f recs).map SummaryEvent.filing)

theorem amountOf_filedEvents (hl : listsEvent f id = true)
    (h0 : id = 0 → ∀ e ∈ recordEvents recs, e.eventId = 0 → e.count = 0 → e.totalNs = 0) :
    Filing.amountOf ((filedEvents f recs).map SummaryEvent.filing) (some id) =
      eventTotalNs recs id := by
  rw [Filing.amountOf, List.map_map, filedEvents, Tally.sum_filter_map, eventTotalNs]
  refine congrArg List.sum (List.map_congr_left fun e he => ?_)
  simp only [Function.comp_apply, SummaryEvent.filing, Option.some.injEq]
  by_cases hid : e.eventId = id
  · subst hid
    by_cases hskip : e.eventId = 0 ∧ e.count = 0
    · simp [h0 hskip.1 e he hskip.1 hskip.2]
    · simp [hl, hskip]
  · simp [hid]

theorem listsEvent_of_amountOf_pos
    (h : 0 < Filing.amountOf ((filedEvents f recs).map SummaryEvent.filing) (some id)) :
    listsEvent f id = true := by
  obtain ⟨e, he, rfl, -⟩ := Filing.exists_of_amountOf_pos h
  obtain ⟨se, hse, rfl⟩ := List.mem_map.1 he
  have hfiled := (List.mem_filter.1 hse).2
  rw [Bool.and_eq_true] at hfiled
  exact hfiled.2

theorem filed_dbShare_le (mask : UInt32) (f : Filter) (e : SummaryEvent) :
    (if !(e.eventId = 0 && e.count = 0) && listsEvent f e.eventId then dbShare mask e else 0) ≤
      if listsEvent f e.eventId then dbShare mask e else 0 := by
  cases listsEvent f e.eventId
  · simp
  · simp only [Bool.and_true, if_true]
    split_ifs
    · exact Nat.le_refl _
    · exact Nat.zero_le _

theorem dbTime_filed_iff (mask : UInt32) (f : Filter) (recs : List SummaryAccum) :
    ((filedEvents f recs).map (dbShare mask)).sum = listedDbTimeNs mask f recs ↔
      (listsEvent f 0 = true →
        ∀ e ∈ recordEvents recs, e.eventId = 0 → e.count = 0 → e.totalNs = 0) := by
  rw [filedEvents, Tally.sum_filter_map, listedDbTimeNs]
  constructor
  · intro heq hl e he hid hcount
    by_contra hne
    refine absurd heq (Nat.ne_of_lt (List.sum_lt_sum _ _
      (fun x _ => filed_dbShare_le mask f x) ⟨e, he, ?_⟩))
    have hpos : 0 < e.totalNs.toNat := Nat.pos_of_ne_zero fun h =>
      hne (UInt64.toNat_inj.1 (h.trans rfl))
    simp [hid, hcount, hl, dbShare, hpos]
  · intro h
    refine congrArg List.sum (List.map_congr_left fun e he => ?_)
    by_cases hskip : e.eventId = 0 ∧ e.count = 0
    · by_cases hl : listsEvent f 0 = true
      · simp [hskip.1, hskip.2, hl, dbShare, h hl e he hskip.1 hskip.2]
      · simp [hskip.1, hskip.2, hl]
    · have hfiled : (!(e.eventId = 0 && e.count = 0)) = true := by
        simpa [imp_iff_not_or] using hskip
      rw [hfiled, Bool.true_and]

theorem laid_noOwners : Filing.Laid eventHtHash noOwners := probed_replicate rfl _

theorem owners_zero :
    (List.replicate eventHtSize TopEventAccum.zero).map TopEventAccum.owner = noOwners := by
  rw [List.map_replicate, noOwners]
  rfl

/-- The row of an event is the slot it owns. -/
theorem rows_filter_iff (hlaid : Filing.Laid eventHtHash (ht.map TopEventAccum.owner)) (id : UInt32)
    (total : ℕ) :
    (∃ row, ((ht.filter fun s => s.count ≠ 0).mergeSort eventRowLe).filter
        (fun r => r.eventId = id) = [row] ∧ row.totalNs = total) ↔
      ∃ j : ℕ, (ht.map TopEventAccum.owner)[j]? = some (some id) ∧
        (ht[j]?).map TopEventAccum.totalNs = some total := by
  have howner : ∀ s : TopEventAccum, s.owner = some id ↔ s.count ≠ 0 ∧ s.eventId = id := by
    intro s
    rw [TopEventAccum.owner]
    split_ifs with h <;> simp [h]
  constructor
  · rintro ⟨row, hrow, htotal⟩
    have hmem : row ∈ ((ht.filter fun s => s.count ≠ 0).mergeSort eventRowLe).filter
        (fun r => r.eventId = id) := by rw [hrow]; exact List.mem_singleton_self row
    obtain ⟨hmem, hid⟩ := List.mem_filter.1 hmem
    obtain ⟨hmem, hcount⟩ := List.mem_filter.1 (List.mem_mergeSort.1 hmem)
    obtain ⟨j, hj⟩ := List.mem_iff_getElem?.1 hmem
    refine ⟨j, ?_, by rw [hj, Option.map_some, htotal]⟩
    rw [List.getElem?_map, hj, Option.map_some,
      (howner row).2 ⟨of_decide_eq_true hcount, of_decide_eq_true hid⟩]
  · rintro ⟨j, hj, htotal⟩
    rw [List.getElem?_map] at hj
    obtain ⟨row, hrow, hown⟩ := Option.map_eq_some_iff.1 hj
    rw [hrow, Option.map_some, Option.some.injEq] at htotal
    obtain ⟨hcount, rfl⟩ := (howner row).1 hown
    have hmem : row ∈ (ht.filter fun s => s.count ≠ 0).mergeSort eventRowLe :=
      List.mem_mergeSort.2 (List.mem_filter.2 ⟨List.mem_of_getElem? hrow, by simpa using hcount⟩)
    refine ⟨row, filter_key_eq ?_ hmem, htotal⟩
    -- the slots with a count have different owners
    have hocc : occupied Option.isNone (ht.map TopEventAccum.owner) =
        (ht.filter fun s => s.count ≠ 0).map fun s => some s.eventId := by
      rw [occupied, List.filter_map]
      have hpred : ((fun o : Option UInt32 => !o.isNone) ∘ TopEventAccum.owner) =
          fun s : TopEventAccum => decide (s.count ≠ 0) := by
        funext s
        rw [Function.comp_apply, TopEventAccum.owner]
        split_ifs with h <;> simp [h]
      rw [hpred]
      refine List.map_congr_left fun s hs => ?_
      rw [TopEventAccum.owner, if_neg (of_decide_eq_true (List.mem_filter.1 hs).2)]
    have hnodup := hlaid.nodup_keys
    rw [hocc, List.map_map] at hnodup
    have hids : ((ht.filter fun s => s.count ≠ 0).map TopEventAccum.eventId).Nodup := by
      refine List.Nodup.of_map some ?_
      rw [List.map_map]
      exact hnodup
    exact ((List.mergeSort_perm _ _).map _).nodup_iff.2 hids

/-- Where the entries of the records are filed. -/
def eventFilings (f : Filter) (recs : List SummaryAccum) : List (Option ℕ × Filing.Entry UInt32) :=
  Filing.filings eventHtHash noOwners ((filedEvents f recs).map SummaryEvent.filing)

/-- The owners of the slots after all records. -/
def eventOwners (f : Filter) (recs : List SummaryAccum) : List (Option UInt32) :=
  Filing.layout eventHtHash noOwners ((filedEvents f recs).map SummaryEvent.filing)

theorem exists_visit (mask : UInt32) (hq : f.queryId = 0)
    (hsome : ∀ g ∈ eventFilings f recs, g.1 ≠ none) :
    ∃ ctx, recs.foldlM (teSummaryVisitor mask f) teSummaryStart = some ctx := by
  rw [eventFilings, ← owners_zero] at hsome
  obtain ⟨ctx, hctx, -⟩ := foldlM_teFile mask (filedEvents f recs) teSummaryStart hsome
  exact ⟨ctx, (foldlM_teSummaryVisitor hq recs teSummaryStart).trans hctx⟩

/-- **The table after all records**: its owners, what the slot of an owner holds, and DB time. -/
theorem visit_spec {mask : UInt32} (hq : f.queryId = 0)
    (h : recs.foldlM (teSummaryVisitor mask f) teSummaryStart = some ctx) :
    (∀ g ∈ eventFilings f recs, g.1 ≠ none) ∧
      ctx.ht.map TopEventAccum.owner = eventOwners f recs ∧
      (∀ j : ℕ, (ctx.ht[j]?).map TopEventAccum.totalNs =
        (ctx.ht[j]?).map fun _ => Filing.filedAt (eventFilings f recs) j) ∧
      ctx.dbTimeNs = ((filedEvents f recs).map (dbShare mask)).sum := by
  rw [foldlM_teSummaryVisitor hq] at h
  have hsome := filings_ne_none _ h
  obtain ⟨ctx', hctx', howner, htotal, hdb⟩ := foldlM_teFile mask (filedEvents f recs) teSummaryStart hsome
  obtain rfl : ctx = ctx' := Option.some.inj (h.symm.trans hctx')
  have hzero : teSummaryStart.ht.map TopEventAccum.owner = noOwners := owners_zero
  rw [hzero] at hsome howner htotal
  refine ⟨hsome, howner, fun j => ?_, by rw [hdb]; exact Nat.zero_add _⟩
  have hj := htotal j
  cases hs : ctx.ht[j]? with
  | none => rfl
  | some s =>
    rw [hs] at hj
    obtain ⟨s₀, hs₀, heq⟩ := Option.map_eq_some_iff.1 hj.symm
    obtain rfl : s₀ = TopEventAccum.zero := List.eq_of_mem_replicate (List.mem_of_getElem? hs₀)
    rw [Option.map_some, Option.map_some, ← heq]
    exact congrArg some (Nat.zero_add _)

theorem row_iff {mask : UInt32} (hq : f.queryId = 0)
    (h : recs.foldlM (teSummaryVisitor mask f) teSummaryStart = some ctx) (id : UInt32)
    (total : ℕ) :
    (∃ row, ((ctx.ht.filter fun s => s.count ≠ 0).mergeSort eventRowLe).filter
        (fun r => r.eventId = id) = [row] ∧ row.totalNs = total) ↔
      ∃ j : ℕ, (eventOwners f recs)[j]? = some (some id) ∧
        Filing.filedAt (eventFilings f recs) j = total := by
  obtain ⟨-, howner, htotal, -⟩ := visit_spec hq h
  have hlaid : Filing.Laid eventHtHash (ctx.ht.map TopEventAccum.owner) := by
    rw [howner]
    exact laid_noOwners.layout _
  rw [rows_filter_iff hlaid, howner]
  refine exists_congr fun j => and_congr_right fun hj => ?_
  rw [← howner, List.getElem?_map] at hj
  obtain ⟨s, hs, -⟩ := Option.map_eq_some_iff.1 hj
  rw [htotal j, hs, Option.map_some, Option.some.injEq]

/-- **When top events are exact.** Without a query filter, the view reports the time of each event
if and only if the time is kept. -/
theorem topEvents_exact_iff (mask : UInt32) (f : Filter) (hq : f.queryId = 0)
    (recs : List SummaryAccum) : TopEventsExact mask f recs ↔ TimeKept f recs := by
  constructor
  · rintro ⟨res, hres, hrows, hdb⟩
    obtain ⟨ctx, hctx, rfl⟩ := Option.map_eq_some_iff.1 hres
    obtain ⟨hsome, -, -, hdb'⟩ := visit_spec hq hctx
    have hcpu := (dbTime_filed_iff mask f recs).1 (hdb'.symm.trans hdb)
    refine ⟨hcpu, (Filing.exact_iff_kept laid_noOwners).1 ⟨hsome, fun id hpos => ?_⟩⟩
    have hl := listsEvent_of_amountOf_pos hpos
    have hamount := amountOf_filedEvents hl fun h => hcpu (h ▸ hl)
    rw [hamount] at hpos ⊢
    exact (row_iff hq hctx id _).1 (hrows id hl hpos)
  · rintro ⟨hcpu, hkept⟩
    obtain ⟨hsome, hexact⟩ := (Filing.exact_iff_kept laid_noOwners).2 hkept
    obtain ⟨ctx, hctx⟩ := exists_visit mask hq hsome
    obtain ⟨-, -, -, hdb⟩ := visit_spec hq hctx
    refine ⟨_, by rw [topEventsFromSummaries, hctx]; rfl, fun id hl hpos => ?_,
      hdb.trans ((dbTime_filed_iff mask f recs).2 hcpu)⟩
    have hamount := amountOf_filedEvents hl fun h => hcpu (h ▸ hl)
    rw [← hamount] at hpos ⊢
    exact (row_iff hq hctx id _).2 (hexact id hpos)

/-! ### Two records -/

/-- A second of an I/O wait that is still open. -/
def openReadSecond : SummaryAccum := accumOpenCredit 0 accumReset 42 0x0A000005 1000000000 0 false

/-- A second with a lock wait of 5 ns. -/
def lockSecond : SummaryAccum :=
  (accumEvent 0 accumReset ⟨1000000005, 43, 0x03000005, 0, 0, 5, 0, cpuNsUnknown⟩ 0 false
    0x03000005 {}).1

theorem topEvents_exact_lockSecond : TopEventsExact 0 {} [lockSecond] := by
  refine (topEvents_exact_iff 0 {} rfl [lockSecond]).2 ⟨by decide +kernel, ?_⟩
  have hfilings : Filing.filings eventHtHash noOwners ((filedEvents {} [lockSecond]).map
      SummaryEvent.filing) = [(some 5, ⟨0x03000005, true, 5⟩)] := by decide +kernel
  have hlayout : (Filing.layout eventHtHash noOwners ((filedEvents {} [lockSecond]).map
      SummaryEvent.filing))[5]? = some (some 0x03000005) := by decide +kernel
  intro g hg
  rw [hfilings] at hg
  obtain rfl := List.mem_singleton.1 hg
  exact ⟨5, rfl, fun _ => hlayout⟩

/-- The open wait has no row, and the lock wait has its second. -/
theorem topEvents_open_time_moves : ¬TopEventsExact 0 {} [openReadSecond, lockSecond] := by
  rintro ⟨res, hres, hrows, -⟩
  obtain ⟨ctx, hctx, rfl⟩ := Option.map_eq_some_iff.1 hres
  have hslots : ([openReadSecond, lockSecond].foldlM (teSummaryVisitor 0 {}) teSummaryStart).map
      (fun ctx => (ctx.ht.filter fun s => s.count ≠ 0).map fun s => (s.eventId, s.totalNs)) =
      some [(0x03000005, 1000000005)] := by decide +kernel
  rw [hctx, Option.map_some, Option.some.injEq] at hslots
  obtain ⟨row, hrow, htotal⟩ := hrows 0x03000005 (by decide) (by decide +kernel)
  have hfive : eventTotalNs [openReadSecond, lockSecond] 0x03000005 = 5 := by decide +kernel
  have hmem : row ∈ ((ctx.ht.filter fun s => s.count ≠ 0).mergeSort eventRowLe) := by
    refine (List.mem_filter.1 (?_ : row ∈ List.filter (fun r => r.eventId = 0x03000005) _)).1
    rw [hrow]
    exact List.mem_singleton_self row
  have hpair : (row.eventId, row.totalNs) ∈ (ctx.ht.filter fun s => s.count ≠ 0).map
      fun s => (s.eventId, s.totalNs) := List.mem_map_of_mem (List.mem_mergeSort.1 hmem)
  rw [hslots, List.mem_singleton, htotal, hfive] at hpair
  exact absurd (Prod.mk.inj hpair).2 (by decide)

end PgWaitTracer
