import PgWaitTracer.Compute.RankedViews

/-!
# The context of a query

The Queries tab shows the text of a query only where every backend that ran it is known and all of
them agree on the database and the user. `src/query_ctx_index.h` decides this for all queries in one
pass over the events: a row for each query id, reached through a growing index, with a memo for the
row of the last event and for the backend of the last one that was resolved. The pass replaces a
scan of all events for each query, which `src/tests/test_top_queries_context.c` still has.

Allocations are numbered in the order they are asked for, and their outcomes are a function of the
number. The load of the index is compared in 32-bit words, which wrap around from 2²⁹ slots on.

## Main results

* `qidIndexPut_spec`: insertion, however the load wraps around.
* `HoldsEvents.step`: what one event does.
* `queryCtxIndexBuild_exact`: the pass agrees with the scan in any order of the events.
-/

namespace PgWaitTracer

open GrowTable

/-! ### The index -/

/-- `pgwt_qid_index_find`. -/
def qidIndexFind {V : Type} (t : GrowTable (UInt64 × V)) (key : UInt64) : Option V :=
  (find? Prod.fst qidIndexHash t key).map Prod.snd

/-- `pgwt_qid_index_put`, with the number of allocations asked for so far: growing takes three. -/
def qidIndexPut {V : Type} (alloc : ℕ → Bool) (asked : ℕ) (t : GrowTable (UInt64 × V))
    (key : UInt64) (val : V) : Option (GrowTable (UInt64 × V)) × ℕ :=
  if mustGrow t then
    if 2 ^ 29 < t.slots.length then (none, asked)
    else if alloc asked && alloc (asked + 1) && alloc (asked + 2) then
      (some (putNogrow Prod.fst qidIndexHash (grow Prod.fst qidIndexHash 128 t) (key, val)),
        asked + 3)
    else (none, asked + 3)
  else (some (putNogrow Prod.fst qidIndexHash t (key, val)), asked)

/-! ### Rows -/

/-- `struct pgwt_query_ctx`. -/
structure QueryCtx where
  queryId : UInt64 := 0
  databaseid : UInt32 := 0
  userid : UInt32 := 0
  state : ℤ := 0
  hasSynth : Bool := false
  deriving DecidableEq, Repr

/-- A slot of zeros. -/
def QueryCtx.zero : QueryCtx := {}

/-- `struct pgwt_query_ctx_index`, with the number of allocations asked for. -/
structure QueryCtxIndex where
  byQid : GrowTable (UInt64 × ℕ) := {}
  slots : List QueryCtx := []
  n : ℕ := 0
  failed : Bool := false
  asked : ℕ := 0

/-- `pgwt_query_ctx_lookup`. -/
def QueryCtxIndex.lookup (qc : QueryCtxIndex) (queryId : UInt64) : Option QueryCtx :=
  match qidIndexFind qc.byQid queryId with
  | none => none
  | some slot => if qc.n ≤ slot then none else qc.slots[slot]?

/-- The slots that a capacity grows by. -/
def queryCtxGrowth (cap : ℕ) : ℕ := if cap = 0 then 64 else cap

/-- The part of `pgwt_query_ctx_slot` that makes room for a row; what it adds is zeroed. -/
def QueryCtxIndex.makeRoom (alloc : ℕ → Bool) (qc : QueryCtxIndex) : QueryCtxIndex × Bool :=
  if qc.n ≠ qc.slots.length then (qc, true)
  else if 2 ^ 29 < qc.slots.length then (qc, false)
  else if alloc qc.asked then
    ({ qc with
      slots := qc.slots ++ List.replicate (queryCtxGrowth qc.slots.length) QueryCtx.zero
      asked := qc.asked + 1 }, true)
  else ({ qc with asked := qc.asked + 1 }, false)

/-- `pgwt_query_ctx_slot`. -/
def queryCtxSlot (alloc : ℕ → Bool) (qc : QueryCtxIndex) (queryId : UInt64) :
    QueryCtxIndex × Option ℕ :=
  match qidIndexFind qc.byQid queryId with
  | some slot => (qc, some slot)
  | none =>
    let (qc, room) := qc.makeRoom alloc
    if !room then (qc, none)
    else
      let slot := qc.n
      let qc := { qc with
        slots := qc.slots.modify slot fun row => { row with queryId := queryId } }
      let (ix, asked) := qidIndexPut alloc qc.asked qc.byQid queryId slot
      match ix with
      | none => ({ qc with asked := asked }, none)
      | some ix => ({ qc with asked := asked, byQid := ix, n := slot + 1 }, some slot)

/-- A backend in a row that is not ambiguous: `ids` are the database and the user if the backend has
usable metadata. -/
def QueryCtx.note (row : QueryCtx) (ids : Option (UInt32 × UInt32)) : QueryCtx :=
  match ids with
  | none => { row with state := -1, databaseid := 0, userid := 0 }
  | some (databaseid, userid) =>
    if row.state = 0 then { row with state := 1, databaseid := databaseid, userid := userid }
    else if row.databaseid ≠ databaseid ∨ row.userid ≠ userid then
      { row with state := -1, databaseid := 0, userid := 0 }
    else row

/-! ### The pass -/

/-- The resolver of backend metadata: the database and the user of a pid that has usable ones. -/
abbrev BmResolver := UInt32 → Option (UInt32 × UInt32)

/-- The locals of `pgwt_query_ctx_index_build`: no memo is a cold one. -/
structure QueryCtxBuild where
  qc : QueryCtxIndex := {}
  memoPid : Option (UInt32 × Option (UInt32 × UInt32)) := none
  memoSlot : Option (UInt64 × ℕ) := none

/-- What a memo has for a key. -/
def recallMemo {K V : Type} [DecidableEq K] (memo : Option (K × V)) (k : K) : Option V :=
  memo.bind fun m => if m.1 = k then some m.2 else none

/-- The slot of a query: the one of the memo, or the one that is looked up. -/
def QueryCtxBuild.slot (alloc : ℕ → Bool) (b : QueryCtxBuild) (queryId : UInt64) :
    QueryCtxIndex × Option ℕ :=
  match recallMemo b.memoSlot queryId with
  | some slot => (b.qc, some slot)
  | none => queryCtxSlot alloc b.qc queryId

/-- An event in the loop of `pgwt_query_ctx_index_build`. -/
def queryCtxStep (alloc : ℕ → Bool) (resolve : BmResolver) (b : QueryCtxBuild) (ev : TraceEvent) :
    QueryCtxBuild :=
  let (qc, slot) := b.slot alloc ev.queryId
  match slot with
  | none => { b with qc := { qc with failed := true } }
  | some slot =>
    let b := { b with memoSlot := some (ev.queryId, slot) }
    let slots := if ev.flags &&& flagQuerySynth ≠ 0 then
        qc.slots.modify slot fun row => { row with hasSynth := true }
      else qc.slots
    -- once ambiguous, always ambiguous
    if (slots[slot]?).any (·.state < 0) then { b with qc := { qc with slots := slots } }
    else
      let ids := (recallMemo b.memoPid ev.pid).getD (resolve ev.pid)
      { b with
        qc := { qc with slots := slots.modify slot (·.note ids) }
        memoPid := some (ev.pid, ids) }

/-- The loop of `pgwt_query_ctx_index_build`. -/
def queryCtxLoop (alloc : ℕ → Bool) (resolve : BmResolver) :
    QueryCtxBuild → List TraceEvent → QueryCtxBuild
  | b, [] => b
  | b, ev :: events =>
    let b := queryCtxStep alloc resolve b ev
    if b.qc.failed then b else queryCtxLoop alloc resolve b events

/-- `pgwt_query_ctx_index_build`: the index, and the value that is returned. -/
def queryCtxIndexBuild (alloc : ℕ → Bool) (resolve : Option BmResolver)
    (events : List TraceEvent) : QueryCtxIndex × ℤ :=
  match resolve with
  | none => ({ failed := true }, -1)
  | some resolve =>
    let b := queryCtxLoop alloc resolve {} events
    (b.qc, if b.qc.failed then -1 else 0)

/-- `query_context_for_events`, the scan of all events for one query: the verdict, the database and
the user. `found` is what the events before this one agree on. -/
def queryContextForEvents (resolve : BmResolver) (queryId : UInt64) :
    List TraceEvent → Option (UInt32 × UInt32) → ℤ × UInt32 × UInt32
  | [], found => found.elim (0, 0, 0) fun ids => (1, ids)
  | ev :: events, found =>
    if ev.queryId ≠ queryId then queryContextForEvents resolve queryId events found
    else
      match resolve ev.pid with
      | none => (-1, 0, 0)
      | some ids =>
        if found.any (· ≠ ids) then (-1, 0, 0)
        else queryContextForEvents resolve queryId events (some (found.getD ids))

/-! ### Insertion -/

variable {resolve : BmResolver} {t : GrowTable (UInt64 × ℕ)} {rows : List QueryCtx}
  {events : List TraceEvent} {row : QueryCtx} {b : QueryCtxBuild} {qc : QueryCtxIndex}
  {alloc : ℕ → Bool}

theorem qidIndexPut_eq {V : Type} (alloc : ℕ → Bool) (asked : ℕ) (t : GrowTable (UInt64 × V))
    (key : UInt64) (val : V) :
    (qidIndexPut alloc asked t key val).1 =
      (reserveInt Prod.fst qidIndexHash 128
        (alloc asked && alloc (asked + 1) && alloc (asked + 2)) t).map
          fun t' => putNogrow Prod.fst qidIndexHash t' (key, val) := by
  rw [qidIndexPut, reserveInt]
  split_ifs
  · rfl
  · rfl
  · rfl
  · rfl

/-- **Insertion.** The index is the finite map it should be, and the allocations it asked for were
granted. -/
theorem qidIndexPut_spec {asked : ℕ} {t' : GrowTable (UInt64 × ℕ)} {key : UInt64} {val : ℕ}
    (h : Capped Prod.fst qidIndexHash t) (hput : (qidIndexPut alloc asked t key val).1 = some t') :
    Capped Prod.fst qidIndexHash t' ∧
      (∀ κ, find? Prod.fst qidIndexHash t' κ =
        if κ = key then some (key, val) else find? Prod.fst qidIndexHash t κ) ∧
      ∀ i, asked ≤ i → i < (qidIndexPut alloc asked t key val).2 → alloc i = true := by
  have hput' := hput
  rw [qidIndexPut_eq] at hput'
  obtain ⟨t₀, hres, rfl⟩ := Option.map_eq_some_iff.mp hput'
  obtain ⟨hcap, hfind⟩ := h.put (m := 7) (by decide) (by decide) hres (key, val)
  refine ⟨hcap, hfind, fun i hi hlt => ?_⟩
  rw [qidIndexPut] at hput hlt
  split_ifs at hput hlt with hgrow hcap halloc
  · simp only [Bool.and_eq_true] at halloc
    obtain rfl | rfl | rfl : i = asked ∨ i = asked + 1 ∨ i = asked + 2 := by
      change i < asked + 3 at hlt
      omega
    · exact halloc.1.1
    · exact halloc.1.2
    · exact halloc.2
  · change i < asked at hlt
    omega

/-! ### What one event does -/

/-- An event in the row of its query. -/
def QueryCtx.addEvent (resolve : BmResolver) (row : QueryCtx) (ev : TraceEvent) : QueryCtx :=
  let row := if ev.flags &&& flagQuerySynth ≠ 0 then { row with hasSynth := true } else row
  if row.state < 0 then row else row.note (resolve ev.pid)

theorem QueryCtx.queryId_note (row : QueryCtx) (ids : Option (UInt32 × UInt32)) :
    (row.note ids).queryId = row.queryId := by
  unfold note
  split
  · rfl
  · split_ifs <;> rfl

theorem keyed_addEvent (resolve : BmResolver) :
    Tally.Keyed QueryCtx.queryId (fun q => { queryId := q }) (QueryCtx.addEvent resolve) where
  key_new _ := rfl
  key_add row ev := by
    simp only [QueryCtx.addEvent]
    split_ifs
    · rfl
    · exact QueryCtx.queryId_note ..
    · rfl
    · exact QueryCtx.queryId_note ..

/-- The slots are the rows that the index knows, and zeroed ones behind them. -/
structure QueryCtxIndex.Knows (qc : QueryCtxIndex) (rows : List QueryCtx) : Prop where
  index : Tally.Indexes QueryCtx.queryId qidIndexHash { ix := qc.byQid, rows := rows }
  ok : Capped Prod.fst qidIndexHash qc.byQid
  slots_eq : ∃ k, qc.slots = rows ++ List.replicate k QueryCtx.zero
  n_eq : qc.n = rows.length

/-- The memos are right. -/
structure QueryCtxBuild.MemosRight (resolve : BmResolver) (b : QueryCtxBuild) : Prop where
  memoPid : ∀ pid ids, b.memoPid = some (pid, ids) → ids = resolve pid
  memoSlot : ∀ q slot, b.memoSlot = some (q, slot) → qidIndexFind b.qc.byQid q = some slot

/-- The rows are those of the events so far, the memos are right, and what was asked for has been
granted. -/
structure HoldsEvents (alloc : ℕ → Bool) (resolve : BmResolver) (done : List TraceEvent)
    (b : QueryCtxBuild) : Prop where
  rows : ∃ rows, b.qc.Knows rows ∧ Tally.Tallied QueryCtx.queryId (fun q => { queryId := q })
    TraceEvent.queryId (QueryCtx.addEvent resolve) rows done
  memos : b.MemosRight resolve
  granted : ∀ i < b.qc.asked, alloc i = true
  fine : b.qc.failed = false

theorem holdsEvents_nil (alloc : ℕ → Bool) (resolve : BmResolver) :
    HoldsEvents alloc resolve [] {} where
  rows := ⟨[], ⟨Tally.indexes_empty, capped_empty, ⟨0, rfl⟩, rfl⟩, Tally.tallied_nil⟩
  memos := ⟨fun _ _ h => absurd h (by simp), fun _ _ h => absurd h (by simp)⟩
  granted := fun i h => absurd h (Nat.not_lt_zero i)
  fine := rfl

theorem QueryCtxIndex.Knows.find_iff (h : qc.Knows rows) {q : UInt64} {slot : ℕ} :
    qidIndexFind qc.byQid q = some slot ↔ (rows[slot]?).map QueryCtx.queryId = some q :=
  h.index.find_iff q slot

theorem modify_length_append {α : Type} (l l' : List α) (a : α) (g : α → α) :
    (l ++ a :: l').modify l.length g = l ++ g a :: l' := by
  induction l with
  | nil => rfl
  | cons b l ih =>
    rw [List.cons_append, List.length_cons, List.modify_succ_cons, ih, List.cons_append]

theorem QueryCtxIndex.Knows.makeRoom (h : qc.Knows rows) (hroom : (qc.makeRoom alloc).2 = true) :
    (∃ k asked, qc.makeRoom alloc = ({ qc with
        slots := rows ++ QueryCtx.zero :: List.replicate k QueryCtx.zero
        asked := asked }, true)) ∧
      ∀ i, qc.asked ≤ i → i < (qc.makeRoom alloc).1.asked → alloc i = true := by
  obtain ⟨k, hslots⟩ := h.slots_eq
  unfold QueryCtxIndex.makeRoom at hroom ⊢
  split_ifs at hroom ⊢ with hfull hcap halloc
  · refine ⟨?_, fun i hi hlt => absurd hi (Nat.not_le.mpr hlt)⟩
    obtain _ | k := k
    · exact absurd (by rw [h.n_eq, hslots]; simp) hfull
    · exact ⟨k, qc.asked, by rw [← List.replicate_succ, ← hslots]⟩
  · constructor
    · rw [Ne, not_not, h.n_eq, hslots, List.length_append, List.length_replicate] at hfull
      obtain rfl : k = 0 := by omega
      obtain ⟨m, hm⟩ : ∃ m, queryCtxGrowth qc.slots.length = m + 1 :=
        Nat.exists_eq_succ_of_ne_zero (by rw [queryCtxGrowth]; split_ifs <;> omega)
      refine ⟨m, qc.asked + 1, ?_⟩
      rw [hm, hslots, List.replicate_zero, List.append_nil, List.replicate_succ]
    · intro i hi hlt
      obtain rfl : i = qc.asked := by
        change i < qc.asked + 1 at hlt
        omega
      exact halloc

/-- **The slot of a query**: its row, or a row of zeros appended for it, if the allocations this
took were granted. -/
theorem queryCtxSlot_spec (h : qc.Knows rows) {q : UInt64} {slot : ℕ}
    (hslot : (queryCtxSlot alloc qc q).2 = some slot) :
    (queryCtxSlot alloc qc q).1.failed = qc.failed ∧
    (∀ i, qc.asked ≤ i → i < (queryCtxSlot alloc qc q).1.asked → alloc i = true) ∧
    (∀ q' s, qidIndexFind qc.byQid q' = some s →
      qidIndexFind (queryCtxSlot alloc qc q).1.byQid q' = some s) ∧
    (qidIndexFind qc.byQid q = some slot ∧ (queryCtxSlot alloc qc q).1.Knows rows ∨
      (∀ row ∈ rows, row.queryId ≠ q) ∧ slot = rows.length ∧
        (queryCtxSlot alloc qc q).1.Knows (rows ++ [{ queryId := q }])) := by
  unfold queryCtxSlot at hslot ⊢
  rcases hfind : qidIndexFind qc.byQid q with _ | s
  · simp only [hfind] at hslot ⊢
    rcases hmake : qc.makeRoom alloc with ⟨qc', _ | _⟩
    · simp [hmake] at hslot
    obtain ⟨⟨k, asked, heq⟩, hgranted⟩ := h.makeRoom (congrArg Prod.snd hmake)
    rw [heq] at hgranted
    obtain ⟨rfl, -⟩ := Prod.mk.inj (hmake.symm.trans heq)
    simp only [hmake, Bool.not_true, Bool.false_eq_true, if_false] at hslot ⊢
    rcases hput : qidIndexPut alloc asked qc.byQid q qc.n with ⟨_ | ix, asked'⟩
    · simp [hput] at hslot
    simp only [hput, Option.some.injEq] at hslot ⊢
    subst hslot
    have hnone : find? Prod.fst qidIndexHash qc.byQid q = none := Option.map_eq_none_iff.mp hfind
    have hnew : ∀ row ∈ rows, row.queryId ≠ q := h.index.ne_of_find?_eq_none hnone
    obtain ⟨hok, hfind', hgranted'⟩ := qidIndexPut_spec h.ok (congrArg Prod.fst hput)
    rw [hput] at hgranted'
    refine ⟨trivial, fun i hi hlt => ?_, fun q' s hs => ?_, Or.inr ⟨hnew, h.n_eq, ?_⟩⟩
    · by_cases hi' : i < asked
      · exact hgranted i hi hi'
      · exact hgranted' i (Nat.not_lt.mp hi') hlt
    · have hne : q' ≠ q := by
        rintro rfl
        rw [hs] at hfind
        exact absurd hfind (by simp)
      rw [qidIndexFind, hfind', if_neg hne]
      exact hs
    · refine ⟨h.index.push hnew hok.wf fun κ => ?_, hok, ⟨k, ?_⟩, ?_⟩
      · rw [hfind', h.n_eq]
      · rw [h.n_eq, modify_length_append, List.append_assoc]
        rfl
      · rw [h.n_eq, List.length_append]
        rfl
  · simp only [hfind] at hslot ⊢
    exact ⟨trivial, fun i hi hlt => absurd hi (Nat.not_le.mpr hlt), fun _ _ h => h,
      Or.inl ⟨hslot, h⟩⟩

theorem recall_eq_some {K V : Type} [DecidableEq K] {memo : Option (K × V)} {k : K} {v : V} :
    recallMemo memo k = some v ↔ memo = some (k, v) := by
  rw [recallMemo, Option.bind_eq_some_iff]
  constructor
  · rintro ⟨⟨k', v'⟩, hm, hv⟩
    split_ifs at hv with hk
    obtain rfl := Option.some.inj hv
    subst hk
    exact hm
  · exact fun hm => ⟨(k, v), hm, if_pos rfl⟩

/-- The slot for an event, by whatever way it is found: the rows that the index knows now have a row
of the query there, and the event belongs into it. -/
theorem HoldsEvents.slot {alloc : ℕ → Bool} {resolve : BmResolver} {done : List TraceEvent}
    {b : QueryCtxBuild} (h : HoldsEvents alloc resolve done b) (ev : TraceEvent) (slot : ℕ)
    (hslot : (b.slot alloc ev.queryId).2 = some slot) :
    (b.slot alloc ev.queryId).1.failed = false ∧
    (∀ i < (b.slot alloc ev.queryId).1.asked, alloc i = true) ∧
    (∀ q s, b.memoSlot = some (q, s) →
      qidIndexFind (b.slot alloc ev.queryId).1.byQid q = some s) ∧
    ∃ rows, (b.slot alloc ev.queryId).1.Knows rows ∧
      (rows[slot]?).map QueryCtx.queryId = some ev.queryId ∧
      Tally.Tallied QueryCtx.queryId (fun q => { queryId := q }) TraceEvent.queryId
        (QueryCtx.addEvent resolve) (rows.modify slot (·.addEvent resolve ev)) (done ++ [ev]) := by
  obtain ⟨rows, hknows, hrows⟩ := h.rows
  have hkeyed := keyed_addEvent resolve
  unfold QueryCtxBuild.slot at hslot ⊢
  rcases hmemo : recallMemo b.memoSlot ev.queryId with _ | s
  · simp only [hmemo] at hslot ⊢
    obtain ⟨hfailed, hgranted, hfind, hwhere⟩ := queryCtxSlot_spec hknows hslot
    refine ⟨hfailed.trans h.fine, fun i hi => ?_,
      fun q s hq => hfind q s (h.memos.memoSlot q s hq), ?_⟩
    · by_cases hi' : i < b.qc.asked
      · exact h.granted i hi'
      · exact hgranted i (Nat.not_lt.mp hi') hi
    · rcases hwhere with ⟨hold, hk⟩ | ⟨hnew, rfl, hk⟩
      · have hrow := hknows.find_iff.mp hold
        exact ⟨rows, hk, hrow, hrows.modify hkeyed hrow⟩
      · refine ⟨rows ++ [{ queryId := ev.queryId }], hk, by simp, ?_⟩
        rw [modify_length_append]
        exact hrows.push hkeyed hnew
  · simp only [hmemo, Option.some.injEq] at hslot ⊢
    subst hslot
    have hrow := hknows.find_iff.mp (h.memos.memoSlot _ _ (recall_eq_some.mp hmemo))
    exact ⟨h.fine, h.granted, h.memos.memoSlot, rows, hknows, hrow, hrows.modify hkeyed hrow⟩

theorem modify_append_left {α : Type} {l : List α} {i : ℕ} (l' : List α) (g : α → α)
    (hi : i < l.length) : (l ++ l').modify i g = l.modify i g ++ l' := by
  rw [LinearProbe.modify_of_getElem? (List.getElem?_append_left hi ▸ List.getElem?_eq_getElem hi),
    LinearProbe.modify_of_getElem? (List.getElem?_eq_getElem hi), List.set_append_left _ _ hi]

theorem QueryCtxIndex.Knows.modify (h : qc.Knows rows) {slot : ℕ} (hslot : slot < rows.length)
    {g : QueryCtx → QueryCtx} (hg : ∀ row, (g row).queryId = row.queryId) :
    QueryCtxIndex.Knows { qc with slots := qc.slots.modify slot g } (rows.modify slot g) := by
  obtain ⟨k, hk⟩ := h.slots_eq
  refine ⟨h.index.modify slot hg, h.ok, ⟨k, ?_⟩, by rw [List.length_modify]; exact h.n_eq⟩
  rw [hk, modify_append_left _ _ hslot]

/-- An event in a slot: the row there takes it, whether the backend is in the memo or not. -/
theorem queryCtxStep_eq {ev : TraceEvent} {slot : ℕ}
    (hslot : b.slot alloc ev.queryId = (qc, some slot)) (hrow : qc.slots[slot]? = some row)
    (hmemo : ∀ pid ids, b.memoPid = some (pid, ids) → ids = resolve pid) :
    ∃ memoPid, (∀ pid ids, memoPid = some (pid, ids) → ids = resolve pid) ∧
      queryCtxStep alloc resolve b ev =
        { qc := { qc with slots := qc.slots.modify slot (·.addEvent resolve ev) }
          memoPid := memoPid
          memoSlot := some (ev.queryId, slot) } := by
  have hids : (recallMemo b.memoPid ev.pid).getD (resolve ev.pid) = resolve ev.pid := by
    rcases hrec : recallMemo b.memoPid ev.pid with _ | ids
    · rfl
    · exact hmemo _ _ (recall_eq_some.mp hrec)
  let marked : QueryCtx := if ev.flags &&& flagQuerySynth ≠ 0 then { row with hasSynth := true }
    else row
  have hslots : (if ev.flags &&& flagQuerySynth ≠ 0 then
      qc.slots.modify slot fun row => { row with hasSynth := true }
      else qc.slots) = qc.slots.set slot marked := by
    simp only [marked]
    split_ifs
    · exact LinearProbe.modify_of_getElem? hrow _
    · exact (LinearProbe.set_of_getElem? hrow).symm
  have hadd : qc.slots.modify slot (·.addEvent resolve ev) =
      qc.slots.set slot (row.addEvent resolve ev) := LinearProbe.modify_of_getElem? hrow _
  have hget : (qc.slots.set slot marked)[slot]? = some marked :=
    List.getElem?_set_self (List.getElem?_eq_some_iff.mp hrow).1
  have haddEq : row.addEvent resolve ev =
      if marked.state < 0 then marked else marked.note (resolve ev.pid) := rfl
  unfold queryCtxStep
  simp only [hslot, hslots, hget, hids, hadd, haddEq, Option.any_some, decide_eq_true_eq]
  split_ifs with hneg
  · exact ⟨b.memoPid, hmemo, rfl⟩
  · refine ⟨some (ev.pid, resolve ev.pid), fun pid ids h => ?_, ?_⟩
    · obtain ⟨rfl, rfl⟩ := Prod.mk.inj (Option.some.inj h)
      rfl
    · rw [LinearProbe.modify_set_self hrow]

/-- **What one event does**, if it does not fail. -/
theorem HoldsEvents.step {done : List TraceEvent} (h : HoldsEvents alloc resolve done b)
    {ev : TraceEvent} (hfine : (queryCtxStep alloc resolve b ev).qc.failed = false) :
    HoldsEvents alloc resolve (done ++ [ev]) (queryCtxStep alloc resolve b ev) := by
  have hspec := h.slot ev
  rcases hslot : b.slot alloc ev.queryId with ⟨qc, _ | slot⟩
  · exact absurd hfine (by simp [queryCtxStep, hslot])
  rw [hslot] at hspec
  obtain ⟨hfailed, hgranted, hmemo, rows, hknows, hrow, htallied⟩ := hspec slot rfl
  obtain ⟨row, hget, hkey⟩ := Option.map_eq_some_iff.mp hrow
  obtain ⟨hlt, -⟩ := List.getElem?_eq_some_iff.mp hget
  have hget' : qc.slots[slot]? = some row := by
    obtain ⟨k, hk⟩ := hknows.slots_eq
    rw [hk, List.getElem?_append_left hlt, hget]
  obtain ⟨memoPid, hpid, hstep⟩ := queryCtxStep_eq hslot hget' h.memos.memoPid
  rw [hstep]
  refine ⟨⟨_, hknows.modify hlt fun r => (keyed_addEvent resolve).key_add r ev, htallied⟩,
    ⟨hpid, fun q s hq => ?_⟩, hgranted, hfailed⟩
  obtain ⟨rfl, rfl⟩ := Prod.mk.inj (Option.some.inj hq)
  exact hknows.find_iff.mpr hrow

/-- **What a run does**, if it does not fail. -/
theorem HoldsEvents.loop {done : List TraceEvent} (h : HoldsEvents alloc resolve done b)
    (hfine : (queryCtxLoop alloc resolve b events).qc.failed = false) :
    HoldsEvents alloc resolve (done ++ events) (queryCtxLoop alloc resolve b events) := by
  induction events generalizing done b with
  | nil => rwa [List.append_nil]
  | cons ev events ih =>
    unfold queryCtxLoop at hfine ⊢
    simp only at hfine ⊢
    split_ifs at hfine ⊢ with hstep
    · exact absurd hfine (by rw [hstep]; decide)
    · rw [List.append_cons]
      exact ih (h.step (Bool.not_eq_true _ ▸ hstep)) hfine

/-! ### The row of a query -/

/-- The events of a query. -/
def queryEvents (q : UInt64) (events : List TraceEvent) : List TraceEvent :=
  events.filter fun ev => ev.queryId = q

/-- The row of a query, if an event carries it. -/
theorem HoldsEvents.lookup_eq (h : HoldsEvents alloc resolve events b) (q : UInt64) :
    b.qc.lookup q = if queryEvents q events = [] then none
      else some ((queryEvents q events).foldl (QueryCtx.addEvent resolve) { queryId := q }) := by
  obtain ⟨rows, hknows, hrows⟩ := h.rows
  have hkeyed := keyed_addEvent resolve
  have hmem : queryEvents q events = [] ↔ q ∉ events.map TraceEvent.queryId := by
    simp [queryEvents, List.filter_eq_nil_iff]
  have hrow : (if queryEvents q events = [] then none
      else some ((queryEvents q events).foldl (QueryCtx.addEvent resolve) { queryId := q })) =
      Tally.rowOf (fun q => { queryId := q }) TraceEvent.queryId (QueryCtx.addEvent resolve)
        events q := by
    rw [Tally.rowOf]
    by_cases hq : q ∈ events.map TraceEvent.queryId
    · rw [if_neg (fun hnil => hmem.mp hnil hq), if_pos hq]
      rfl
    · rw [if_pos (hmem.mpr hq), if_neg hq]
  rw [hrow, QueryCtxIndex.lookup]
  rcases hfind : qidIndexFind b.qc.byQid q with _ | slot
  · have hnew := hknows.index.ne_of_find?_eq_none (Option.map_eq_none_iff.mp hfind)
    have hq : q ∉ events.map TraceEvent.queryId := by
      rw [← hrows.mem_keys hkeyed]
      simpa using hnew
    rw [Tally.rowOf, if_neg hq]
  · obtain ⟨row, hget, hkey⟩ := Option.map_eq_some_iff.mp (hknows.find_iff.mp hfind)
    obtain ⟨hlt, -⟩ := List.getElem?_eq_some_iff.mp hget
    obtain ⟨k, hk⟩ := hknows.slots_eq
    have hrowOf := (hrows.mem_iff row).mp (List.mem_of_getElem? hget)
    rw [hkey] at hrowOf
    rw [hrowOf]
    simp only
    rw [if_neg (by rw [hknows.n_eq]; omega), hk, List.getElem?_append_left hlt, hget]

/-- Some backend has no usable metadata, or two of them disagree. -/
def Ambiguous (resolve : BmResolver) (events : List TraceEvent) : Prop :=
  (∃ ev ∈ events, resolve ev.pid = none) ∨
    ∃ ev ∈ events, ∃ ev' ∈ events, ∃ ids ids', resolve ev.pid = some ids ∧
      resolve ev'.pid = some ids' ∧ ids ≠ ids'

theorem Ambiguous.mono {events' : List TraceEvent} (h : Ambiguous resolve events)
    (hsub : events ⊆ events') : Ambiguous resolve events' := by
  rcases h with ⟨ev, hev, hnone⟩ | ⟨ev, hev, ev', hev', ids, ids', h₁, h₂, hne⟩
  · exact Or.inl ⟨ev, hsub hev, hnone⟩
  · exact Or.inr ⟨ev, hsub hev, ev', hsub hev', ids, ids', h₁, h₂, hne⟩

theorem not_ambiguous_of_agree {ids : UInt32 × UInt32}
    (h : ∀ ev ∈ events, resolve ev.pid = some ids) : ¬Ambiguous resolve events := by
  rintro (⟨ev, hev, hnone⟩ | ⟨ev, hev, ev', hev', ids₁, ids₂, h₁, h₂, hne⟩)
  · exact absurd (hnone.symm.trans (h ev hev)) (by simp)
  · exact hne (Option.some.inj ((h₁.symm.trans (h ev hev)).trans ((h ev' hev').symm.trans h₂)))

/-- What a row says about the events it took. -/
inductive Verdict (resolve : BmResolver) (events : List TraceEvent) (row : QueryCtx) : Prop
  | absent (hev : events = []) (hstate : row.state = 0) (hids : row.databaseid = 0 ∧ row.userid = 0)
  | ambiguous (hamb : Ambiguous resolve events) (hstate : row.state = -1)
      (hids : row.databaseid = 0 ∧ row.userid = 0)
  | resolved (hev : events ≠ []) (hstate : row.state = 1)
      (hids : ∀ ev ∈ events, resolve ev.pid = some (row.databaseid, row.userid))

theorem Verdict.addEvent (h : Verdict resolve events row) (ev : TraceEvent) :
    Verdict resolve (events ++ [ev]) (row.addEvent resolve ev) := by
  have hsub : events ⊆ events ++ [ev] := List.subset_append_left _ _
  have hlast : ev ∈ events ++ [ev] := List.mem_append_right _ List.mem_cons_self
  let marked : QueryCtx := if ev.flags &&& flagQuerySynth ≠ 0 then { row with hasSynth := true }
    else row
  have hmarked : marked.state = row.state ∧ marked.databaseid = row.databaseid ∧
      marked.userid = row.userid := by
    simp only [marked]
    split_ifs <;> exact ⟨rfl, rfl, rfl⟩
  obtain ⟨hs, hdb, huid⟩ := hmarked
  have heq : row.addEvent resolve ev =
      if marked.state < 0 then marked else marked.note (resolve ev.pid) := rfl
  rw [heq]
  cases h with
  | absent hev hstate hids =>
    subst hev
    rw [if_neg (by rw [hs, hstate]; decide)]
    rcases hres : resolve ev.pid with _ | ids
    · exact .ambiguous (Or.inl ⟨ev, hlast, hres⟩) rfl ⟨rfl, rfl⟩
    · rw [QueryCtx.note, if_pos (hs.trans hstate)]
      refine .resolved (by simp) rfl fun ev' hev' => ?_
      obtain rfl := List.mem_singleton.mp hev'
      exact hres
  | ambiguous hamb hstate hids =>
    rw [if_pos (by rw [hs, hstate]; decide)]
    exact .ambiguous (hamb.mono hsub) (hs.trans hstate)
      ⟨hdb.trans hids.1, huid.trans hids.2⟩
  | resolved hev hstate hids =>
    rw [if_neg (by rw [hs, hstate]; decide)]
    rcases hres : resolve ev.pid with _ | ⟨db, uid⟩
    · exact .ambiguous (Or.inl ⟨ev, hlast, hres⟩) rfl ⟨rfl, rfl⟩
    · rw [QueryCtx.note, if_neg (by rw [hs, hstate]; decide)]
      split_ifs with hne
      · obtain ⟨ev₀, hev₀⟩ := List.exists_mem_of_ne_nil _ hev
        refine .ambiguous (Or.inr ⟨ev₀, hsub hev₀, ev, hlast, _, _, hids ev₀ hev₀, hres, ?_⟩) rfl
          ⟨rfl, rfl⟩
        rintro heq
        obtain ⟨rfl, rfl⟩ := Prod.mk.inj heq
        exact hne.elim (fun h => h hdb) fun h => h huid
      · rw [not_or, not_not, not_not] at hne
        refine .resolved (by simp) (hs.trans hstate) fun ev' hev' => ?_
        rcases List.mem_append.mp hev' with hold | hnew
        · rw [hids ev' hold, hdb, huid]
        · obtain rfl := List.mem_singleton.mp hnew
          rw [hres, hne.1, hne.2]

theorem QueryCtx.hasSynth_note (row : QueryCtx) (ids : Option (UInt32 × UInt32)) :
    (row.note ids).hasSynth = row.hasSynth := by
  unfold note
  split
  · rfl
  · split_ifs <;> rfl

theorem QueryCtx.hasSynth_addEvent (resolve : BmResolver) (row : QueryCtx) (ev : TraceEvent) :
    (row.addEvent resolve ev).hasSynth = true ↔
      row.hasSynth = true ∨ ev.flags &&& flagQuerySynth ≠ 0 := by
  by_cases hsynth : ev.flags &&& flagQuerySynth ≠ 0
  · simp only [addEvent, if_pos hsynth]
    split_ifs
    · simp [hsynth]
    · simp [hsynth, hasSynth_note]
  · simp only [addEvent, if_neg hsynth]
    split_ifs
    · simp [hsynth]
    · simp [hsynth, hasSynth_note]

theorem foldl_addEvent (resolve : BmResolver) (q : UInt64) (events : List TraceEvent) :
    Verdict resolve events (events.foldl (QueryCtx.addEvent resolve) { queryId := q }) ∧
      ((events.foldl (QueryCtx.addEvent resolve) { queryId := q }).hasSynth = true ↔
        ∃ ev ∈ events, ev.flags &&& flagQuerySynth ≠ 0) := by
  induction events using List.reverseRecOn with
  | nil => exact ⟨.absent rfl rfl ⟨rfl, rfl⟩, by simp⟩
  | append_singleton events ev ih =>
    obtain ⟨hverdict, hsynth⟩ := ih
    rw [List.foldl_append, List.foldl_cons, List.foldl_nil]
    refine ⟨hverdict.addEvent ev, ?_⟩
    rw [QueryCtx.hasSynth_addEvent, hsynth]
    simp only [List.mem_append, List.mem_singleton, or_and_right, exists_or, exists_eq_left]

/-! ### The scan -/

/-- What a lookup says, as the scan says it. -/
def contextOf (ctx : Option QueryCtx) : ℤ × UInt32 × UInt32 :=
  ctx.elim (0, 0, 0) fun row => (row.state, row.databaseid, row.userid)

theorem contextOf_addEvent (resolve : BmResolver) (row : QueryCtx) (ev : TraceEvent) :
    contextOf (some (row.addEvent resolve ev)) =
      if row.state < 0 then contextOf (some row)
      else contextOf (some (row.note (resolve ev.pid))) := by
  by_cases hsynth : ev.flags &&& flagQuerySynth ≠ 0
  · simp only [QueryCtx.addEvent, if_pos hsynth]
    by_cases hneg : row.state < 0
    · rw [if_pos hneg, if_pos hneg]
      rfl
    · rw [if_neg hneg, if_neg hneg]
      unfold QueryCtx.note
      split
      · rfl
      · split_ifs <;> rfl
  · simp only [QueryCtx.addEvent, if_neg hsynth]
    split_ifs <;> rfl

theorem contextOf_foldl_of_ambiguous (resolve : BmResolver) (events : List TraceEvent)
    (h : contextOf (some row) = (-1, 0, 0)) :
    contextOf (some (events.foldl (QueryCtx.addEvent resolve) row)) = (-1, 0, 0) := by
  induction events generalizing row with
  | nil => exact h
  | cons ev events ih =>
    refine ih ?_
    have hneg : row.state < 0 := by
      rw [show row.state = -1 from congrArg Prod.fst h]
      decide
    rw [contextOf_addEvent, if_pos hneg, h]

/-- **The scan** returns what the row of the query says: `found` is what the row says so far. -/
theorem queryContextForEvents_eq (resolve : BmResolver) (q : UInt64) (events : List TraceEvent)
    {found : Option (UInt32 × UInt32)}
    (h : contextOf (some row) = found.elim (0, 0, 0) fun ids => (1, ids)) :
    queryContextForEvents resolve q events found =
      contextOf (some ((queryEvents q events).foldl (QueryCtx.addEvent resolve) row)) := by
  induction events generalizing row found with
  | nil => exact h.symm
  | cons ev events ih =>
    rw [queryContextForEvents]
    split_ifs with hq
    · rw [queryEvents, List.filter_cons_of_neg (by simpa using hq)]
      exact ih h
    have hcons : queryEvents q (ev :: events) = ev :: queryEvents q events :=
      List.filter_cons_of_pos (by simpa using hq)
    have hpos : ¬row.state < 0 := by
      cases found with
      | none => rw [show row.state = 0 from congrArg Prod.fst h]; decide
      | some ids => rw [show row.state = 1 from congrArg Prod.fst h]; decide
    have hadd := contextOf_addEvent resolve row ev
    rw [if_neg hpos] at hadd
    rw [hcons, List.foldl_cons]
    rcases hres : resolve ev.pid with _ | ids
    · rw [hres] at hadd
      exact (contextOf_foldl_of_ambiguous resolve _ hadd).symm
    rw [hres, QueryCtx.note] at hadd
    cases found with
    | none =>
      have hstate : row.state = 0 := congrArg Prod.fst h
      rw [if_pos hstate] at hadd
      exact ih hadd
    | some first =>
      have hstate : row.state ≠ 0 := by
        rw [show row.state = 1 from congrArg Prod.fst h]
        decide
      have hids : (row.databaseid, row.userid) = first := congrArg Prod.snd h
      rw [if_neg hstate] at hadd
      simp only [Option.any_some, Option.getD_some, decide_eq_true_eq]
      split_ifs with hne
      · have hdiff : row.databaseid ≠ ids.1 ∨ row.userid ≠ ids.2 := by
          by_contra hno
          rw [not_or, not_not, not_not] at hno
          exact hne (hids.symm.trans (Prod.ext hno.1 hno.2))
        rw [if_pos hdiff] at hadd
        exact (contextOf_foldl_of_ambiguous resolve _ hadd).symm
      · rw [not_not] at hne
        have hsame : ¬(row.databaseid ≠ ids.1 ∨ row.userid ≠ ids.2) := by
          rw [← hne, ← hids]
          simp
        rw [if_neg hsame] at hadd
        exact ih (hadd.trans h)

/-- What the context of a query is: there is none if no event carries the query, and else it has the
verdict over the backends of its events, and says whether one of these is a seed. -/
structure ContextIs (resolve : BmResolver) (events : List TraceEvent) (q : UInt64)
    (ctx : Option QueryCtx) : Prop where
  absent : ctx = none ↔ ∀ ev ∈ events, ev.queryId ≠ q
  keyed : ∀ row, ctx = some row → row.queryId = q
  ambiguous : ∀ row, ctx = some row → (row.state = -1 ↔ Ambiguous resolve (queryEvents q events))
  refused : ∀ row, ctx = some row → row.state = -1 → row.databaseid = 0 ∧ row.userid = 0
  resolved : ∀ row, ctx = some row → row.state ≠ -1 → row.state = 1 ∧
    ∀ ev ∈ events, ev.queryId = q → resolve ev.pid = some (row.databaseid, row.userid)
  synth : ∀ row, ctx = some row →
    (row.hasSynth = true ↔ ∃ ev ∈ events, ev.queryId = q ∧ ev.flags &&& flagQuerySynth ≠ 0)
  scan : contextOf ctx = queryContextForEvents resolve q events none

theorem mem_queryEvents {q : UInt64} {ev : TraceEvent} :
    ev ∈ queryEvents q events ↔ ev ∈ events ∧ ev.queryId = q := by
  rw [queryEvents, List.mem_filter, decide_eq_true_eq]

theorem HoldsEvents.contextIs (h : HoldsEvents alloc resolve events b) (q : UInt64) :
    ContextIs resolve events q (b.qc.lookup q) := by
  obtain ⟨hverdict, hsynth⟩ := foldl_addEvent resolve q (queryEvents q events)
  rw [h.lookup_eq]
  by_cases hnil : queryEvents q events = []
  · rw [if_pos hnil]
    refine ⟨iff_of_true rfl fun ev hev hq => ?_, ?_, ?_, ?_, ?_, ?_, ?_⟩
    · exact List.not_mem_nil (hnil ▸ mem_queryEvents.mpr ⟨hev, hq⟩)
    · exact fun _ hrow => absurd hrow (by simp)
    · exact fun _ hrow => absurd hrow (by simp)
    · exact fun _ hrow => absurd hrow (by simp)
    · exact fun _ hrow => absurd hrow (by simp)
    · exact fun _ hrow => absurd hrow (by simp)
    · rw [@queryContextForEvents_eq { queryId := q } resolve q events none rfl, hnil]
      rfl
  · rw [if_neg hnil]
    have hrow : ∀ row, some ((queryEvents q events).foldl (QueryCtx.addEvent resolve)
        { queryId := q }) = some row →
        (queryEvents q events).foldl (QueryCtx.addEvent resolve) { queryId := q } = row :=
      fun _ => Option.some.inj
    refine ⟨iff_of_false (by simp) fun hall => hnil ?_, fun row hr => ?_, fun row hr => ?_,
      fun row hr hst => ?_, fun row hr hst => ?_, fun row hr => ?_,
      (@queryContextForEvents_eq { queryId := q } resolve q events none rfl).symm⟩
    · exact List.filter_eq_nil_iff.mpr fun ev hev => by simpa using hall ev hev
    all_goals obtain rfl := hrow row hr
    · exact (keyed_addEvent resolve).key_foldl _ _
    · cases hverdict with
      | absent hev _ _ => exact absurd hev hnil
      | ambiguous hamb hstate _ => exact iff_of_true hstate hamb
      | resolved _ hstate hids =>
        exact iff_of_false (by rw [hstate]; decide) (not_ambiguous_of_agree hids)
    · cases hverdict with
      | absent hev _ _ => exact absurd hev hnil
      | ambiguous _ _ hids => exact hids
      | resolved _ hstate _ => exact absurd (hstate.symm.trans hst) (by decide)
    · cases hverdict with
      | absent hev _ _ => exact absurd hev hnil
      | ambiguous _ hstate _ => exact absurd hstate hst
      | resolved _ hstate hids =>
        exact ⟨hstate, fun ev hev hq => hids ev (mem_queryEvents.mpr ⟨hev, hq⟩)⟩
    · rw [hsynth]
      simp only [mem_queryEvents, and_assoc]

/-- The events alone determine the context, in whatever order they come. -/
theorem ContextIs.unique {events' : List TraceEvent} {q : UInt64} {ctx ctx' : Option QueryCtx}
    (hmem : ∀ ev, ev ∈ events ↔ ev ∈ events') (h : ContextIs resolve events q ctx)
    (h' : ContextIs resolve events' q ctx') : ctx = ctx' := by
  have hsub : queryEvents q events ⊆ queryEvents q events' := fun ev hev => by
    rw [mem_queryEvents, hmem] at hev
    exact mem_queryEvents.mpr hev
  have hsub' : queryEvents q events' ⊆ queryEvents q events := fun ev hev => by
    rw [mem_queryEvents, ← hmem] at hev
    exact mem_queryEvents.mpr hev
  have hnone : ctx = none ↔ ctx' = none := by
    simp only [h.absent, h'.absent, hmem]
  rcases ctx with _ | row
  · exact (hnone.mp rfl).symm
  rcases ctx' with _ | row'
  · exact hnone.mpr rfl
  have hsynth : row.hasSynth = row'.hasSynth := by
    rw [Bool.eq_iff_iff, h.synth row rfl, h'.synth row' rfl]
    simp only [hmem]
  have hkey : row.queryId = row'.queryId := (h.keyed row rfl).trans (h'.keyed row' rfl).symm
  by_cases hamb : Ambiguous resolve (queryEvents q events)
  · have hst := (h.ambiguous row rfl).mpr hamb
    have hst' := (h'.ambiguous row' rfl).mpr (hamb.mono hsub)
    obtain ⟨hdb, huid⟩ := h.refused row rfl hst
    obtain ⟨hdb', huid'⟩ := h'.refused row' rfl hst'
    rw [Option.some_inj, QueryCtx.mk.injEq]
    exact ⟨hkey, hdb.trans hdb'.symm, huid.trans huid'.symm, hst.trans hst'.symm, hsynth⟩
  · obtain ⟨hst, hids⟩ := h.resolved row rfl fun hst => hamb ((h.ambiguous row rfl).mp hst)
    obtain ⟨hst', hids'⟩ := h'.resolved row' rfl fun hst =>
      hamb (((h'.ambiguous row' rfl).mp hst).mono hsub')
    obtain ⟨ev, hev, hq⟩ : ∃ ev ∈ events, ev.queryId = q := by
      by_contra hno
      refine absurd (h.absent.mpr fun ev hev hq => hno ⟨ev, hev, hq⟩) (by simp)
    have heq := (hids ev hev hq).symm.trans (hids' ev ((hmem ev).mp hev) hq)
    obtain ⟨hdb, huid⟩ := Prod.mk.inj (Option.some.inj heq)
    rw [Option.some_inj, QueryCtx.mk.injEq]
    exact ⟨hkey, hdb, huid, hst.trans hst'.symm, hsynth⟩

theorem queryCtxIndexBuild_eq_zero (h : (queryCtxIndexBuild alloc (some resolve) events).2 = 0) :
    HoldsEvents alloc resolve events (queryCtxLoop alloc resolve {} events) := by
  refine (holdsEvents_nil alloc resolve).loop ?_
  by_contra hno
  rw [Bool.not_eq_false] at hno
  simp [queryCtxIndexBuild, hno] at h

/-- **One pass agrees with the scan.** A build that succeeds has for every query what a scan of all
events finds, whatever their order is; a build that is refused an allocation reports that it
failed. -/
theorem queryCtxIndexBuild_exact (alloc : ℕ → Bool) (resolve : BmResolver)
    (events : List TraceEvent) :
    ((queryCtxIndexBuild alloc (some resolve) events).2 = 0 → ∀ q, ContextIs resolve events q
      ((queryCtxIndexBuild alloc (some resolve) events).1.lookup q)) ∧
    (∀ alloc' events', events'.Perm events →
      (queryCtxIndexBuild alloc (some resolve) events).2 = 0 →
      (queryCtxIndexBuild alloc' (some resolve) events').2 = 0 →
      ∀ q, (queryCtxIndexBuild alloc' (some resolve) events').1.lookup q =
        (queryCtxIndexBuild alloc (some resolve) events).1.lookup q) ∧
    ((∃ i < (queryCtxIndexBuild alloc (some resolve) events).1.asked, alloc i = false) →
      (queryCtxIndexBuild alloc (some resolve) events).1.failed = true ∧
        (queryCtxIndexBuild alloc (some resolve) events).2 = -1) := by
  refine ⟨fun hok q => (queryCtxIndexBuild_eq_zero hok).contextIs q,
    fun alloc' events' hperm hok hok' q => ?_, fun ⟨i, hi, hrefused⟩ => ?_⟩
  · exact ((queryCtxIndexBuild_eq_zero hok').contextIs q).unique (fun ev => hperm.mem_iff)
      ((queryCtxIndexBuild_eq_zero hok).contextIs q)
  · have hfailed : (queryCtxIndexBuild alloc (some resolve) events).1.failed = true := by
      by_contra hno
      rw [Bool.not_eq_true] at hno
      have hheld := (holdsEvents_nil alloc resolve).loop hno
      exact absurd ((hheld.granted i hi).symm.trans hrefused) (by decide)
    refine ⟨hfailed, ?_⟩
    rw [queryCtxIndexBuild] at hfailed ⊢
    exact if_pos hfailed

/-- Two backends of one user run query 5, and an unknown one runs query 6. -/
theorem queryCtxIndexBuild_exact_threeBackends :
    let resolve : BmResolver := fun pid => if pid = 9 then none else some (1, 10)
    let events : List TraceEvent := [⟨100, 7, 0, 0, 0, 10, 5, 0⟩, ⟨110, 8, 0, 0, 0x80, 10, 5, 0⟩,
      ⟨120, 9, 0, 0, 0, 10, 6, 0⟩]
    let out := queryCtxIndexBuild (fun _ => true) (some resolve) events
    out.1.lookup 5 = some ⟨5, 1, 10, 1, true⟩ ∧ out.1.lookup 6 = some ⟨6, 0, 0, -1, false⟩ ∧
      ∀ q, ContextIs resolve events q (out.1.lookup q) :=
  ⟨by decide +kernel, by decide +kernel,
    (queryCtxIndexBuild_exact _ _ _).1 (by decide +kernel)⟩

end PgWaitTracer
