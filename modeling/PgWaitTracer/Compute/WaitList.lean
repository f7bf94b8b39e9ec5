import PgWaitTracer.Compute.ProbeEnds
import PgWaitTracer.Lib.Filing

/-!
# The wait list of a query

What `pgwt_compute_top_queries` lists for a query (`src/compute.c`). The slots in use of the wait
table of the query are copied to `wlist`, which has as many entries as the table has slots. CPU is
one more entry if there is time on CPU. Of the list the 16 entries of most time are shown.

A table that is full takes no new event, but what it holds is right: an event in the table has all
of its time there.

## Main results

* `waitsHold_foldl`: what the wait table of a query holds after any records.
* `topWaits_spec`: the entries that are shown have the most time.
* `listsTotals_iff`: only a full table and time on CPU overrun the list.
-/

namespace PgWaitTracer

open LinearProbe

/-! ### The list -/

/-- An entry of `wlist`. An event id of 0 is CPU. -/
structure WlistEntry where
  eid : UInt32
  ns : ℕ
  deriving DecidableEq, Repr

/-- The store to `wlist[nw]`. There is none past the end of the array. -/
def wlistPush (wlist : List WlistEntry) (w : WlistEntry) : Option (List WlistEntry) :=
  if wlist.length < waitHtSize then some (wlist ++ [w]) else none

/-- A slot of the wait table is copied to the list if it is in use. -/
def wlistCollect (wlist : List WlistEntry) (e : WaitHtEntry) : Option (List WlistEntry) :=
  if e.eventId = 0 then some wlist else wlistPush wlist ⟨e.eventId, e.totalNs⟩

/-- The list `wlist` of a query. -/
def QueryAccum.wlist (q : QueryAccum) : Option (List WlistEntry) :=
  (q.waits.foldlM wlistCollect []).bind fun wlist =>
    if 0 < q.classNs .cpu then wlistPush wlist ⟨0, q.classNs .cpu⟩ else some wlist

/-- The time of an entry of the list. -/
def nsAt (wlist : List WlistEntry) (j : ℕ) : ℕ := (wlist[j]?).elim 0 WlistEntry.ns

/-- The first entry of most time. -/
def bestWait (wlist : List WlistEntry) : ℕ :=
  (List.range wlist.length).foldl
    (fun best j => if nsAt wlist best < nsAt wlist j then j else best) 0

/-- The first entries, after each changed places with the one of most time from there on. -/
def topWaits : ℕ → List WlistEntry → List WlistEntry
  | 0, _ => []
  | _ + 1, [] => []
  | n + 1, w :: ws =>
    match bestWait (w :: ws) with
    | 0 => w :: topWaits n ws
    | j + 1 => ws.getD j w :: topWaits n (ws.set j w)

/-! ### What is shown -/

variable {waits : List WaitHtEntry} {wlist : List WlistEntry}

theorem bestWait_spec (h : wlist ≠ []) :
    bestWait wlist < wlist.length ∧
      ∀ j < wlist.length, nsAt wlist j ≤ nsAt wlist (bestWait wlist) := by
  have hrun : ∀ n ≤ wlist.length,
      ((List.range n).foldl (fun best j => if nsAt wlist best < nsAt wlist j then j else best) 0 <
        wlist.length) ∧ ∀ j < n, nsAt wlist j ≤ nsAt wlist ((List.range n).foldl
          (fun best j => if nsAt wlist best < nsAt wlist j then j else best) 0) := by
    intro n hn
    induction n with
    | zero => exact ⟨List.length_pos_of_ne_nil h, fun j hj => absurd hj (by omega)⟩
    | succ n ih =>
      obtain ⟨hlt, hmax⟩ := ih (by omega)
      rw [List.range_succ, List.foldl_append, List.foldl_cons, List.foldl_nil]
      split_ifs with hbetter
      · refine ⟨by omega, fun j hj => ?_⟩
        rcases Nat.lt_succ_iff_lt_or_eq.mp hj with hj | rfl
        · exact (hmax j hj).trans hbetter.le
        · exact le_rfl
      · refine ⟨hlt, fun j hj => ?_⟩
        rcases Nat.lt_succ_iff_lt_or_eq.mp hj with hj | rfl
        · exact hmax j hj
        · exact Nat.not_lt.mp hbetter
  exact hrun wlist.length le_rfl

theorem le_bestWait {w : WlistEntry} (hw : w ∈ wlist) : w.ns ≤ nsAt wlist (bestWait wlist) := by
  obtain ⟨j, hj⟩ := List.mem_iff_getElem?.mp hw
  have hle := (bestWait_spec (List.ne_nil_of_mem hw)).2 j (List.getElem?_eq_some_iff.mp hj).1
  rwa [nsAt, hj] at hle

theorem perm_swap {w : WlistEntry} {ws : List WlistEntry} {j : ℕ} (hj : j < ws.length) :
    (ws.getD j w :: ws.set j w).Perm (w :: ws) := by
  induction ws generalizing j with
  | nil => exact absurd hj (Nat.not_lt_zero j)
  | cons w' ws ih =>
    cases j with
    | zero => exact List.Perm.swap w w' ws
    | succ j =>
      have htail := ih (Nat.lt_of_succ_lt_succ hj)
      exact (List.Perm.swap w' _ _).trans ((htail.cons w').trans (List.Perm.swap w w' ws))

/-- **What is shown.** The other entries of the list have no more time. -/
theorem topWaits_spec (n : ℕ) (wlist : List WlistEntry) :
    ∃ rest, (topWaits n wlist ++ rest).Perm wlist ∧
      (topWaits n wlist).length = min n wlist.length ∧
      ∀ w ∈ topWaits n wlist, ∀ w' ∈ rest, w'.ns ≤ w.ns := by
  induction n generalizing wlist with
  | zero =>
    rw [topWaits]
    exact ⟨wlist, List.Perm.refl _, (Nat.zero_min _).symm, fun w hw => absurd hw List.not_mem_nil⟩
  | succ n ih =>
    cases wlist with
    | nil => exact ⟨[], List.Perm.refl _, rfl, fun w hw => absurd hw List.not_mem_nil⟩
    | cons w ws =>
      obtain ⟨hlt, -⟩ := bestWait_spec (List.cons_ne_nil w ws)
      have hmax : ∀ w' ∈ w :: ws, w'.ns ≤ nsAt (w :: ws) (bestWait (w :: ws)) :=
        fun w' hw' => le_bestWait hw'
      rw [topWaits]
      split
      · rename_i hbest
        obtain ⟨rest, hperm, hlen, hle⟩ := ih ws
        rw [hbest] at hmax
        refine ⟨rest, hperm.cons w, by simp [hlen, Nat.succ_min_succ], fun t ht r hr => ?_⟩
        rcases List.mem_cons.mp ht with rfl | ht
        · exact hmax r (List.mem_cons_of_mem _ (hperm.subset (List.mem_append_right _ hr)))
        · exact hle t ht r hr
      · rename_i j hbest
        rw [hbest] at hlt hmax
        have hj : j < ws.length := Nat.lt_of_succ_lt_succ hlt
        have hns : nsAt (w :: ws) (j + 1) = (ws.getD j w).ns := by
          simp [nsAt, List.getElem?_eq_getElem hj]
        obtain ⟨rest, hperm, hlen, hle⟩ := ih (ws.set j w)
        have hall := (hperm.cons (ws.getD j w)).trans (perm_swap hj)
        refine ⟨rest, hall, by simp [hlen, Nat.succ_min_succ], fun t ht r hr => ?_⟩
        rcases List.mem_cons.mp ht with rfl | ht
        · rw [← hns]
          exact hmax r (hall.subset (List.mem_cons_of_mem _ (List.mem_append_right _ hr)))
        · exact hle t ht r hr

theorem topWaits_subperm (n : ℕ) (wlist : List WlistEntry) : (topWaits n wlist).Subperm wlist := by
  obtain ⟨rest, hperm, -, -⟩ := topWaits_spec n wlist
  exact (List.sublist_append_left _ rest).subperm.trans hperm.subperm

/-! ### What the wait table holds -/

/-- The event that owns a slot. -/
def WaitHtEntry.owner (e : WaitHtEntry) : Option UInt32 :=
  if e.eventId = 0 then none else some e.eventId

/-- The hash of the wait table. -/
def waitHtHash (id : UInt32) : ℕ := (hash32 id).toNat

/-- The time of the records of an event. -/
def eventNs (fromNs toNs : ℕ) (evs : List TraceEvent) (id : UInt32) : ℕ :=
  ((evs.filter (·.oldEvent = id)).map (eventWindowNs · fromNs toNs)).sum

/-- The wait events of the records. -/
def waitIds (evs : List TraceEvent) : Finset UInt32 :=
  (evs.map TraceEvent.oldEvent).toFinset.erase 0

/-- **What the wait table of a query holds.** A slot in use has all the time of its event. An event
without a slot met a full table. -/
structure WaitsHold (fromNs toNs : ℕ) (evs : List TraceEvent) (waits : List WaitHtEntry) :
    Prop where
  length_eq : waits.length = waitHtSize
  laid : Filing.Laid waitHtHash (waits.map WaitHtEntry.owner)
  total_eq : ∀ e ∈ waits, e.totalNs = if e.eventId = 0 then 0 else eventNs fromNs toNs evs e.eventId
  holders_subset : Filing.holders (waits.map WaitHtEntry.owner) ⊆ waitIds evs
  full : ∀ id ∈ waitIds evs, id ∉ Filing.holders (waits.map WaitHtEntry.owner) →
    waitHtSize ≤ (Filing.holders (waits.map WaitHtEntry.owner)).card

variable {mask : UInt32} {f : Filter} {fromNs toNs : ℕ} {evs : List TraceEvent}

theorem eventNs_append (ev : TraceEvent) (id : UInt32) :
    eventNs fromNs toNs (evs ++ [ev]) id = eventNs fromNs toNs evs id +
      if ev.oldEvent = id then eventWindowNs ev fromNs toNs else 0 := by
  rw [eventNs, List.filter_append, List.map_append, List.sum_append, ← eventNs,
    List.filter_singleton]
  by_cases hid : ev.oldEvent = id
  · simp [hid]
  · simp [hid]

theorem waitIds_append (ev : TraceEvent) :
    waitIds (evs ++ [ev]) =
      if ev.oldEvent = 0 then waitIds evs else insert ev.oldEvent (waitIds evs) := by
  ext id
  simp only [waitIds, List.map_append, List.map_cons, List.map_nil, List.toFinset_append,
    Finset.mem_erase, Finset.mem_union, List.mem_toFinset, List.mem_singleton]
  split_ifs with hzero
  · simp only [Finset.mem_erase, List.mem_toFinset]
    constructor
    · rintro ⟨hne, hmem | heq⟩
      · exact ⟨hne, hmem⟩
      · exact absurd (heq.trans hzero) hne
    · exact fun ⟨hne, hmem⟩ => ⟨hne, Or.inl hmem⟩
  · simp only [Finset.mem_insert, Finset.mem_erase, List.mem_toFinset]
    constructor
    · rintro ⟨hne, hmem | heq⟩
      · exact Or.inr ⟨hne, hmem⟩
      · exact Or.inl heq
    · rintro (rfl | ⟨hne, hmem⟩)
      · exact ⟨hzero, Or.inr rfl⟩
      · exact ⟨hne, Or.inl hmem⟩

theorem ne_zero_of_mem_waitIds {id : UInt32} (h : id ∈ waitIds evs) : id ≠ 0 :=
  (Finset.mem_erase.mp h).1

theorem owner_eq_some {e : WaitHtEntry} {id : UInt32} (h : e.owner = some id) :
    e.eventId = id ∧ id ≠ 0 := by
  rw [WaitHtEntry.owner] at h
  split_ifs at h with hzero
  obtain rfl : e.eventId = id := Option.some.inj h
  exact ⟨rfl, hzero⟩

theorem owner_eq_none {e : WaitHtEntry} (h : e.owner = none) : e.eventId = 0 := by
  rw [WaitHtEntry.owner] at h
  split_ifs at h with hzero
  exact hzero

theorem waitHtSlot_eq (waits : List WaitHtEntry) (id : UInt32) :
    probe (fun e => e.eventId = id || e.eventId = 0) waits (hash32 id).toNat =
      Filing.slot waitHtHash (waits.map WaitHtEntry.owner) id := by
  rw [Filing.slot, probe_map]
  refine congrArg (probe · waits _) (funext fun e => ?_)
  rw [stops, WaitHtEntry.owner]
  split_ifs with hzero
  · simp [hzero]
  · simp [hzero]

theorem waitsHold_nil : WaitsHold fromNs toNs [] (List.replicate waitHtSize {}) where
  length_eq := List.length_replicate
  laid := by
    rw [List.map_replicate]
    exact probed_replicate rfl _
  total_eq := by
    intro e he
    rw [List.eq_of_mem_replicate he]
    rfl
  holders_subset := by
    intro id hid
    rw [Filing.mem_holders, List.map_replicate] at hid
    exact absurd (List.eq_of_mem_replicate hid) (by simp [WaitHtEntry.owner])
  full := fun id hid => absurd hid (Finset.notMem_empty id)

theorem WaitsHold.cpu (h : WaitsHold fromNs toNs evs waits) {ev : TraceEvent}
    (hev : ev.oldEvent = 0) : WaitsHold fromNs toNs (evs ++ [ev]) waits where
  length_eq := h.length_eq
  laid := h.laid
  total_eq := by
    intro e he
    rw [h.total_eq e he, eventNs_append, hev]
    split_ifs with hzero heq
    · rfl
    · exact absurd heq.symm hzero
    · rfl
  holders_subset := by
    rw [waitIds_append, if_pos hev]
    exact h.holders_subset
  full := by
    rw [waitIds_append, if_pos hev]
    exact h.full

theorem WaitsHold.refuse (h : WaitsHold fromNs toNs evs waits) {ev : TraceEvent}
    (hev : ev.oldEvent ≠ 0)
    (hslot : Filing.slot waitHtHash (waits.map WaitHtEntry.owner) ev.oldEvent = none) :
    WaitsHold fromNs toNs (evs ++ [ev]) waits := by
  obtain ⟨hno, hfull⟩ := h.laid.slot_eq_none_iff.mp hslot
  rw [List.length_map, h.length_eq] at hfull
  refine ⟨h.length_eq, h.laid, fun e he => ?_, ?_, fun _ _ _ => hfull⟩
  · rw [h.total_eq e he]
    split_ifs with hzero
    · rfl
    · have hne : ev.oldEvent ≠ e.eventId := by
        intro heq
        refine hno (Filing.mem_holders.mpr (List.mem_map.mpr ⟨e, he, ?_⟩))
        rw [WaitHtEntry.owner, if_neg hzero, heq]
      rw [eventNs_append, if_neg hne, Nat.add_zero]
  · rw [waitIds_append, if_neg hev]
    exact h.holders_subset.trans (Finset.subset_insert _ _)

theorem eventNs_eq_zero {id : UInt32} (hid : id ≠ 0) (h : id ∉ waitIds evs) :
    eventNs fromNs toNs evs id = 0 := by
  have hnil : evs.filter (·.oldEvent = id) = [] := by
    refine List.filter_eq_nil_iff.mpr fun ev hev heq => h ?_
    rw [waitIds, Finset.mem_erase, List.mem_toFinset]
    exact ⟨hid, List.mem_map.mpr ⟨ev, hev, of_decide_eq_true heq⟩⟩
  rw [eventNs, hnil]
  rfl

theorem WaitsHold.slot (h : WaitsHold fromNs toNs evs waits) {id : UInt32} (hid : id ≠ 0) {j : ℕ}
    (hslot : Filing.slot waitHtHash (waits.map WaitHtEntry.owner) id = some j) :
    ∃ e, waits[j]? = some e ∧ e.totalNs = eventNs fromNs toNs evs id := by
  have howner := Filing.owner_of_slot hslot
  rcases howner with hfree | hown
  · have hno := h.laid.notMem_holders hslot hfree
    have hroom := h.laid.card_holders_lt hfree
    rw [List.length_map, h.length_eq] at hroom
    have hnew : id ∉ waitIds evs := fun hmem => absurd (h.full id hmem hno) (by omega)
    rw [List.getElem?_map, Option.map_eq_some_iff] at hfree
    obtain ⟨e, he, hnone⟩ := hfree
    refine ⟨e, he, ?_⟩
    rw [h.total_eq e (List.mem_of_getElem? he), if_pos (owner_eq_none hnone),
      eventNs_eq_zero hid hnew]
  · rw [List.getElem?_map, Option.map_eq_some_iff] at hown
    obtain ⟨e, he, hsome⟩ := hown
    obtain ⟨heq, -⟩ := owner_eq_some hsome
    refine ⟨e, he, ?_⟩
    rw [h.total_eq e (List.mem_of_getElem? he), heq, if_neg hid]

/-- A wait is added to its slot. -/
theorem WaitsHold.add (h : WaitsHold fromNs toNs evs waits) {ev : TraceEvent}
    (hev : ev.oldEvent ≠ 0) {j : ℕ}
    (hslot : Filing.slot waitHtHash (waits.map WaitHtEntry.owner) ev.oldEvent = some j) :
    WaitsHold fromNs toNs (evs ++ [ev])
      (waits.modify j fun e => ⟨ev.oldEvent, e.totalNs + eventWindowNs ev fromNs toNs⟩) := by
  obtain ⟨s, hs, htotal⟩ := h.slot hev hslot
  rw [modify_of_getElem? hs, htotal]
  have hown : (waits.set j ⟨ev.oldEvent, eventNs fromNs toNs evs ev.oldEvent +
      eventWindowNs ev fromNs toNs⟩).map WaitHtEntry.owner =
      Filing.next waitHtHash (waits.map WaitHtEntry.owner)
        ⟨ev.oldEvent, true, eventWindowNs ev fromNs toNs⟩ := by
    rw [Filing.next, hslot, List.map_set, WaitHtEntry.owner, if_neg hev]
    rfl
  have hholders := Filing.holders_next (e := ⟨ev.oldEvent, true, eventWindowNs ev fromNs toNs⟩)
    hslot
  rw [if_pos rfl] at hholders
  refine ⟨List.length_set.trans h.length_eq, ?_, fun e he => ?_, ?_, ?_⟩
  · rw [hown]
    exact h.laid.next _
  · obtain ⟨i, hi⟩ := List.mem_iff_getElem?.mp he
    by_cases hij : j = i
    · subst hij
      rw [List.getElem?_set_self (List.getElem?_eq_some_iff.mp hs).1] at hi
      obtain rfl := Option.some.inj hi
      rw [if_neg hev, eventNs_append, if_pos rfl]
    · rw [List.getElem?_set_ne hij] at hi
      rw [h.total_eq e (List.mem_of_getElem? hi)]
      split_ifs with hzero
      · rfl
      · have hne : ev.oldEvent ≠ e.eventId := by
          intro heq
          have hslot' := h.laid.slot_of_owner (j := i) (k := e.eventId)
            (by rw [List.getElem?_map, hi, Option.map_some, WaitHtEntry.owner, if_neg hzero])
          rw [← heq, hslot] at hslot'
          exact hij (Option.some.inj hslot')
        rw [eventNs_append, if_neg hne, Nat.add_zero]
  · rw [hown, hholders, waitIds_append, if_neg hev]
    exact Finset.insert_subset_insert _ h.holders_subset
  · rw [hown, hholders, waitIds_append, if_neg hev]
    intro id hid hno
    rw [Finset.mem_insert, not_or] at hno
    have hmem := (Finset.mem_insert.mp hid).resolve_left hno.1
    exact (h.full id hmem hno.2).trans (Finset.card_le_card (Finset.subset_insert _ _))

/-- **The wait table of a query** after any records. -/
theorem waitsHold_foldl (fromNs toNs : ℕ) (evs : List TraceEvent) (id : UInt64) :
    WaitsHold fromNs toNs evs
      (evs.foldl (QueryAccum.addRecord fromNs toNs) { queryId := id }).waits := by
  induction evs using List.reverseRecOn with
  | nil => exact waitsHold_nil
  | append_singleton evs ev ih =>
    rw [List.foldl_append, List.foldl_cons, List.foldl_nil, QueryAccum.addRecord]
    dsimp only
    split_ifs with hev
    · rw [waitHtAdd, waitHtSlot_eq]
      split
      · rename_i hslot
        exact ih.refuse hev hslot
      · rename_i j hslot
        exact ih.add hev hslot
    · exact ih.cpu (not_not.mp hev)

theorem classNs_cpu_foldl (fromNs toNs : ℕ) (evs : List TraceEvent) (id : UInt64) :
    (evs.foldl (QueryAccum.addRecord fromNs toNs) { queryId := id }).classNs .cpu =
      eventNs fromNs toNs evs 0 := by
  have hstep : ∀ (q : QueryAccum), ∀ ev ∈ evs,
      (q.addRecord fromNs toNs ev).classNs .cpu =
        q.classNs .cpu + if ev.oldEvent = 0 then eventWindowNs ev fromNs toNs else 0 := by
    intro q ev _
    simp only [QueryAccum.addRecord, eq_comm (a := WaitClass.cpu), waitClassIndex_eq_cpu]
    split_ifs
    · rfl
    · rfl
  rw [Tally.foldl_proj (fun q : QueryAccum => q.classNs .cpu) _ hstep, eventNs,
    Tally.sum_filter_map]
  simp

/-! ### When the list is not overrun -/

theorem foldlM_wlistCollect (waits : List WaitHtEntry) (wlist : List WlistEntry)
    (h : wlist.length + (waits.filter (·.eventId ≠ 0)).length ≤ waitHtSize) :
    waits.foldlM wlistCollect wlist =
      some (wlist ++ (waits.filter (·.eventId ≠ 0)).map fun e => ⟨e.eventId, e.totalNs⟩) := by
  induction waits generalizing wlist with
  | nil => simp
  | cons e waits ih =>
    rw [List.foldlM_cons, wlistCollect]
    by_cases hzero : e.eventId = 0
    · rw [List.filter_cons_of_neg (by simp [hzero])] at h ⊢
      rw [if_pos hzero]
      exact ih wlist h
    · rw [List.filter_cons_of_pos (by simp [hzero])] at h ⊢
      rw [List.length_cons] at h
      rw [if_neg hzero, wlistPush, if_pos (by omega)]
      refine (ih _ ?_).trans ?_
      · rw [List.length_append, List.length_singleton]
        omega
      · rw [List.map_cons, List.append_assoc, List.singleton_append]

theorem WaitsHold.card_holders (h : WaitsHold fromNs toNs evs waits) :
    (Filing.holders (waits.map WaitHtEntry.owner)).card =
      (waits.filter (·.eventId ≠ 0)).length := by
  rw [h.laid.card_holders, occupied, List.filter_map, List.length_map]
  refine congrArg List.length (congrArg (List.filter · waits) (funext fun e => ?_))
  rw [Function.comp_apply, WaitHtEntry.owner]
  split_ifs with hzero
  · simp [hzero]
  · simp [hzero]

theorem WaitsHold.card_lt_iff (h : WaitsHold fromNs toNs evs waits) :
    (waits.filter (·.eventId ≠ 0)).length < waitHtSize ↔ (waitIds evs).card < waitHtSize := by
  rw [← h.card_holders]
  refine ⟨fun hlt => ?_, fun hlt => (Finset.card_le_card h.holders_subset).trans_lt hlt⟩
  have hsub : waitIds evs ⊆ Filing.holders (waits.map WaitHtEntry.owner) := by
    intro id hid
    by_contra hno
    exact absurd (h.full id hid hno) (by omega)
  exact (Finset.card_le_card hsub).trans_lt hlt

/-- The records of a query. -/
def queryRecords (mask : UInt32) (f : Filter) (evs : List TraceEvent) (id : UInt64) :
    List TraceEvent :=
  (queryTaken mask f evs).filter (·.queryId = id)

/-- **The waits that are listed for a query.** No entry is stored past the end of the list, and the
entries that are shown are totals of different events of the records. -/
def ListsTotals (fromNs toNs : ℕ) (evs : List TraceEvent) (q : QueryAccum) : Prop :=
  ∃ wlist, q.wlist = some wlist ∧ ((topWaits 16 wlist).map WlistEntry.eid).Nodup ∧
    ∀ w ∈ topWaits 16 wlist,
      (∃ ev ∈ evs, ev.oldEvent = w.eid) ∧ w.ns = eventNs fromNs toNs evs w.eid

/-- What is copied from the wait table. -/
def waitEntries (waits : List WaitHtEntry) : List WlistEntry :=
  (waits.filter (·.eventId ≠ 0)).map fun e => ⟨e.eventId, e.totalNs⟩

theorem WaitsHold.mem_waitEntries (h : WaitsHold fromNs toNs evs waits) {w : WlistEntry}
    (hw : w ∈ waitEntries waits) : w.eid ∈ waitIds evs ∧ w.ns = eventNs fromNs toNs evs w.eid := by
  obtain ⟨e, he, rfl⟩ := List.mem_map.mp hw
  obtain ⟨hmem, hne⟩ := List.mem_filter.mp he
  have hid : e.eventId ≠ 0 := of_decide_eq_true hne
  refine ⟨h.holders_subset (Filing.mem_holders.mpr (List.mem_map.mpr ⟨e, hmem, ?_⟩)), ?_⟩
  · rw [WaitHtEntry.owner, if_neg hid]
  · exact (h.total_eq e hmem).trans (if_neg hid)

theorem WaitsHold.nodup_waitEntries (h : WaitsHold fromNs toNs evs waits) :
    ((waitEntries waits).map WlistEntry.eid).Nodup := by
  have hnodup := h.laid.nodup_keys
  rw [List.map_id, occupied, List.filter_map] at hnodup
  have hfilter : waits.filter ((fun r => !Option.isNone r) ∘ WaitHtEntry.owner) =
      waits.filter (·.eventId ≠ 0) := by
    refine congrArg (List.filter · waits) (funext fun e => ?_)
    rw [Function.comp_apply, WaitHtEntry.owner]
    split_ifs with hzero
    · simp [hzero]
    · simp [hzero]
  rw [hfilter] at hnodup
  rw [waitEntries, List.map_map]
  refine List.Nodup.of_map some ?_
  rw [List.map_map]
  refine (List.map_congr_left fun e he => ?_) ▸ hnodup
  rw [WaitHtEntry.owner, if_neg (of_decide_eq_true (List.mem_filter.mp he).2)]
  rfl

theorem listsTotals_of_wlist {q : QueryAccum} (h : q.wlist = some wlist)
    (hnodup : (wlist.map WlistEntry.eid).Nodup) (htotal : ∀ w ∈ wlist,
      (∃ ev ∈ evs, ev.oldEvent = w.eid) ∧ w.ns = eventNs fromNs toNs evs w.eid) :
    ListsTotals fromNs toNs evs q := by
  have hsub := topWaits_subperm 16 wlist
  refine ⟨wlist, h, ?_, fun w hw => htotal w (hsub.subset hw)⟩
  obtain ⟨l, hperm, hl⟩ := hsub
  exact (hperm.map WlistEntry.eid).nodup_iff.mp ((hl.map WlistEntry.eid).nodup hnodup)

/-- **The list of a query.** It is overrun exactly if there is time on CPU and the records have as
many events as the wait table has slots. -/
theorem listsTotals_foldl_iff (fromNs toNs : ℕ) (evs : List TraceEvent) (id : UInt64) :
    ListsTotals fromNs toNs evs (evs.foldl (QueryAccum.addRecord fromNs toNs) { queryId := id }) ↔
      eventNs fromNs toNs evs 0 = 0 ∨ (waitIds evs).card < waitHtSize := by
  set q := evs.foldl (QueryAccum.addRecord fromNs toNs) { queryId := id } with hq
  have hhold : WaitsHold fromNs toNs evs q.waits := waitsHold_foldl fromNs toNs evs id
  have hcpu : q.classNs .cpu = eventNs fromNs toNs evs 0 := classNs_cpu_foldl fromNs toNs evs id
  have hlen : (q.waits.filter (·.eventId ≠ 0)).length ≤ waitHtSize :=
    (List.length_filter_le _ _).trans hhold.length_eq.le
  have hwlist : q.wlist = if 0 < q.classNs .cpu then
      wlistPush (waitEntries q.waits) ⟨0, q.classNs .cpu⟩ else some (waitEntries q.waits) := by
    rw [QueryAccum.wlist, foldlM_wlistCollect _ _ (by simpa using hlen)]
    rfl
  have hlength : (waitEntries q.waits).length = (q.waits.filter (·.eventId ≠ 0)).length :=
    List.length_map _
  have hwait : ∀ w ∈ waitEntries q.waits,
      (∃ ev ∈ evs, ev.oldEvent = w.eid) ∧ w.ns = eventNs fromNs toNs evs w.eid := by
    intro w hw
    obtain ⟨hmem, hns⟩ := hhold.mem_waitEntries hw
    rw [waitIds, Finset.mem_erase, List.mem_toFinset, List.mem_map] at hmem
    exact ⟨hmem.2, hns⟩
  rw [hcpu] at hwlist
  rcases Nat.eq_zero_or_pos (eventNs fromNs toNs evs 0) with hzero | hpos
  · rw [hzero, if_neg (lt_irrefl 0)] at hwlist
    exact iff_of_true (listsTotals_of_wlist hwlist hhold.nodup_waitEntries hwait) (Or.inl hzero)
  · rw [if_pos hpos, wlistPush, hlength] at hwlist
    rw [← hhold.card_lt_iff, or_iff_right hpos.ne']
    split_ifs at hwlist with hroom
    · refine iff_of_true (listsTotals_of_wlist hwlist ?_ fun w hw => ?_) hroom
      · rw [List.map_append, List.map_singleton, List.nodup_append_comm, List.singleton_append,
          List.nodup_cons]
        refine ⟨fun hmem => ?_, hhold.nodup_waitEntries⟩
        obtain ⟨w, hw, heq⟩ := List.mem_map.mp hmem
        exact ne_zero_of_mem_waitIds (hhold.mem_waitEntries hw).1 heq
      · rcases List.mem_append.mp hw with hw | hw
        · exact hwait w hw
        · obtain rfl := List.mem_singleton.mp hw
          refine ⟨?_, rfl⟩
          by_contra hno
          push Not at hno
          refine hpos.ne' ?_
          rw [eventNs, List.filter_eq_nil_iff.mpr fun ev hev => by simpa using hno ev hev]
          rfl
    · refine iff_of_false ?_ hroom
      rintro ⟨wlist, hsome, -⟩
      exact absurd (hwlist.symm.trans hsome) (by simp)

theorem mem_rows_topQueries (mask : UInt32) (f : Filter) (fromNs toNs : ℕ) (evs : List TraceEvent)
    (q : QueryAccum) :
    q ∈ (topQueries mask f fromNs toNs evs).rows ↔ queryRecords mask f evs q.queryId ≠ [] ∧
      (queryRecords mask f evs q.queryId).foldl (QueryAccum.addRecord fromNs toNs)
        { queryId := q.queryId } = q := by
  rw [(topQueries_rows mask f fromNs toNs evs).mem_iff q, Tally.rowOf, queryRecords]
  have hmem : q.queryId ∈ (queryTaken mask f evs).map TraceEvent.queryId ↔
      (queryTaken mask f evs).filter (·.queryId = q.queryId) ≠ [] := by
    rw [Ne, List.filter_eq_nil_iff, List.mem_map]
    push Not
    simp
  split_ifs with hq
  · rw [Option.some_inj, and_iff_right (hmem.mp hq)]
  · simp [hmem.not.mp hq]

/-- **When wait lists are not overrun.** The waits that top queries list for every query are totals,
and nothing is stored past the end of a list, if and only if every query with time on CPU has fewer
wait events than the list has entries. -/
theorem listsTotals_iff (mask : UInt32) (f : Filter) (fromNs toNs : ℕ) (evs : List TraceEvent) :
    (∀ q ∈ (topQueries mask f fromNs toNs evs).rows,
        ListsTotals fromNs toNs (queryRecords mask f evs q.queryId) q) ↔
      ∀ id, eventNs fromNs toNs (queryRecords mask f evs id) 0 = 0 ∨
        (waitIds (queryRecords mask f evs id)).card < waitHtSize := by
  constructor
  · intro h id
    rcases eq_or_ne (queryRecords mask f evs id) [] with hnil | hne
    · rw [hnil]
      exact Or.inl rfl
    · set q := (queryRecords mask f evs id).foldl (QueryAccum.addRecord fromNs toNs)
        { queryId := id } with hq
      have hid : q.queryId = id := (keyed_topQueries fromNs toNs).key_foldl _ _
      have hrow := h q ((mem_rows_topQueries mask f fromNs toNs evs q).mpr (by
        rw [hid]
        exact ⟨hne, rfl⟩))
      rw [hid] at hrow
      exact (listsTotals_foldl_iff fromNs toNs _ id).mp hrow
  · intro h q hq
    obtain ⟨-, hfold⟩ := (mem_rows_topQueries mask f fromNs toNs evs q).mp hq
    have hlist := (listsTotals_foldl_iff fromNs toNs _ q.queryId).mpr (h q.queryId)
    rwa [hfold] at hlist

/-! ### A query with every slot in use -/

/-- The waits of a query on as many events as the list has entries, and an interval on CPU. -/
def busyQuery (n : ℕ) : List TraceEvent :=
  (waitRecord 0 20 :: ioWaits n).map fun ev => { ev with queryId := 7 }

theorem queryRecords_busyQuery {n : ℕ} (hn : n < 2 ^ 24) :
    queryRecords 0 {} (busyQuery n) 7 = busyQuery n := by
  have htakes : ∀ ev ∈ busyQuery n, sessionTakes 0 {} ev = true ∧ ev.queryId = 7 := by
    intro ev hev
    obtain ⟨ev, hmem, rfl⟩ := List.mem_map.mp hev
    refine ⟨?_, rfl⟩
    rcases List.mem_cons.mp hmem with rfl | hmem
    · decide
    · obtain ⟨i, hi, rfl⟩ := List.mem_map.mp hmem
      exact sessionTakes_ioWait ((List.mem_range.mp hi).trans hn)
  have hsession : sessionTaken 0 {} (busyQuery n) = busyQuery n :=
    List.filter_eq_self.mpr fun ev hev => (htakes ev hev).1
  have hquery : queryTaken 0 {} (busyQuery n) = busyQuery n := by
    rw [queryTaken, hsession]
    exact List.filter_eq_self.mpr fun ev hev => by simp [(htakes ev hev).2]
  rw [queryRecords, hquery]
  exact List.filter_eq_self.mpr fun ev hev => by simp [(htakes ev hev).2]

theorem card_waitIds_busyQuery {n : ℕ} (hn : n < 2 ^ 24) : n ≤ (waitIds (busyQuery n)).card := by
  have hsub : ((List.range n).map ioEvent).toFinset ⊆ waitIds (busyQuery n) := by
    intro id hid
    obtain ⟨i, hi, rfl⟩ := List.mem_map.mp (List.mem_toFinset.mp hid)
    rw [waitIds, Finset.mem_erase, List.mem_toFinset, List.mem_map]
    refine ⟨fun hzero => ?_, { waitRecord (ioEvent i) 20 with queryId := 7 }, ?_, rfl⟩
    · have hnat := toNat_ioEvent ((List.mem_range.mp hi).trans hn)
      rw [hzero] at hnat
      change 0 = _ at hnat
      omega
    · exact List.mem_map.mpr ⟨_, List.mem_cons_of_mem _ (List.mem_map.mpr ⟨i, hi, rfl⟩), rfl⟩
  have hfull := ioEvent_full hn
  rw [not_or, not_lt] at hfull
  exact hfull.2.trans (Finset.card_le_card hsub)

/-- The entry of CPU is stored past the end of a full list. -/
theorem wlist_overrun :
    ¬ ∀ q ∈ (topQueries 0 {} 10 30 (busyQuery 256)).rows,
      ListsTotals 10 30 (queryRecords 0 {} (busyQuery 256) q.queryId) q := by
  intro h
  set q := (busyQuery 256).foldl (QueryAccum.addRecord 10 30) { queryId := 7 } with hq
  have hid : q.queryId = 7 := (keyed_topQueries 10 30).key_foldl _ _
  have hrecs : queryRecords 0 {} (busyQuery 256) q.queryId = busyQuery 256 := by
    rw [hid]
    exact queryRecords_busyQuery (by decide)
  have hrow : q ∈ (topQueries 0 {} 10 30 (busyQuery 256)).rows := by
    rw [mem_rows_topQueries, hrecs, hid]
    exact ⟨List.cons_ne_nil _ _, rfl⟩
  have hlist := h q hrow
  rw [hrecs] at hlist
  rcases (listsTotals_foldl_iff 10 30 (busyQuery 256) 7).mp hlist with hzero | hroom
  · have hcpu : 10 ≤ eventNs 10 30 (busyQuery 256) 0 := Nat.le_add_right _ _
    omega
  · exact absurd (card_waitIds_busyQuery (n := 256) (by decide)) (Nat.not_le.mpr hroom)

end PgWaitTracer
