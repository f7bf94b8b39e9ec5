import PgWaitTracer.Summary.Tables
import PgWaitTracer.Trace.BlockCodec

/-!
# Records of the summary file

The payload of a record has the rows of the three tables one after the other, without lengths
(`pgwt_summary_serialize`, `pgwt_summary_deserialize`). The writer emits the rows its own tests find
in use; the reader takes their numbers from the block header, where `flush_accum` stores the counts
of the accumulator, and inserts the rows into tables of its own.

## Main results

* `readRows_encode`: rows of different keys are read back into a table.
* `deserialize_serialize`: a record is read back if its tables count their rows.
-/

namespace PgWaitTracer

open ByteCodec LinearProbe

/-! ### Writing -/

/-- `PGWT_SUMMARY_VERSION`. -/
def summaryVersion : ℕ := 10

/-- `PGWT_SUMMARY_SERIALIZE_MAX`. -/
def summarySerializeMax : ℕ :=
  classOrder.length * 8 + summaryMaxEvents * (28 + histogramBuckets * 8) + summaryMaxSessions * 44 +
    summaryMaxQueries * (36 + classOrder.length * 8 + 1 + queryTopEvents * 20 + 8) + 12 + 40

/-- An array of times per class. -/
def encodeClassNs (f : WaitClass → UInt64) : Bytes := encodeFamily encodeU64 classOrder f

/-- The fields of an event row after its id. -/
def SummaryEvent.body (e : SummaryEvent) : Bytes :=
  encodeU64 e.count ++ (encodeU64 e.totalNs ++ (encodeU64 e.maxNs ++
    encodeFamily encodeU64 (List.finRange histogramBuckets) e.histogram))

/-- The 156 bytes of an event row. -/
def SummaryEvent.bytes (e : SummaryEvent) : Bytes := encodeU32 e.eventId ++ e.body

/-- The fields of a session row after its pid. -/
def SummarySession.body (s : SummarySession) : Bytes :=
  encodeU64 s.dbTimeNs ++ (encodeU64 s.cpuNs ++ (encodeU32 s.topWaitId ++ (encodeU64 s.topWaitNs ++
    (encodeU64 s.cpuOffcpuNs ++ encodeU32 s.cpuMeasuredRecords))))

/-- The 44 bytes of a session row. -/
def SummarySession.bytes (s : SummarySession) : Bytes := encodeU32 s.pid ++ s.body

/-- The 20 bytes of a top event. -/
def SummaryQueryEvent.bytes (e : SummaryQueryEvent) : Bytes :=
  encodeU32 e.eventId ++ (encodeU64 e.count ++ encodeU64 e.totalNs)

/-- The fields of a query row after its id. -/
def SummaryQuery.body (q : SummaryQuery) : Bytes :=
  encodeU64 q.count ++ (encodeU64 q.totalNs ++ (encodeU32 q.topWaitId ++ (encodeU64 q.topWaitNs ++
    (encodeClassNs q.classNs ++ (UInt8.ofNat q.topEvents.length ::
      (q.topEvents.flatMap SummaryQueryEvent.bytes ++ encodeU64 q.idleNs))))))

/-- The bytes of a query row. -/
def SummaryQuery.bytes (q : SummaryQuery) : Bytes := encodeU64 q.queryId ++ q.body

/-- The fields after the rows. -/
def SummaryAccum.trailer (acc : SummaryAccum) : Bytes :=
  encodeU64 acc.times.idleNs ++ (encodeU32 acc.eventsOverflow ++
    (encodeU64 acc.times.cpuMeasuredNs ++ (encodeU64 acc.times.cpuUnknownNs ++
      (encodeU64 acc.times.cpuClampedNs ++ (encodeU64 acc.times.waitGapCpuNs ++
        encodeU64 acc.times.cpuMeasuredRecords)))))

/-- `pgwt_summary_serialize`. A buffer that could be too small is refused with no bytes. -/
def summarySerialize (acc : SummaryAccum) (outSize : ℕ) : Bytes :=
  if outSize < summarySerializeMax then []
  else encodeClassNs acc.times.classNs ++
    ((occupied SummaryEvent.vacant acc.events).flatMap SummaryEvent.bytes ++
      ((occupied SummarySession.vacant acc.sessions).flatMap SummarySession.bytes ++
        ((occupied SummaryQuery.vacant acc.queries).flatMap SummaryQuery.bytes ++ acc.trailer)))

/-! ### Reading -/

/-- An array of times per class. -/
def decodeClassNs : Reader (WaitClass → UInt64) := readFamily decodeU64 classOrder

/-- A row of one table at the head of the input: the accumulator with it, and what follows. -/
abbrev RowReader := SummaryAccum × Bytes → Option (SummaryAccum × Bytes)

/-- Run a row reader exactly `n` times. -/
def readRows (row : RowReader) : ℕ → RowReader
  | 0, st => some st
  | n + 1, st => (row st).bind (readRows row n)

/-- An event row of the input. A row without a slot is passed by. -/
def readEventRow : RowReader := fun (acc, bs) =>
  if bs.length < 156 then none
  else do
    let (id, bs) ← decodeU32 bs
    match findOrInsertEvent acc id with
    | none => pure (acc, bs.drop 152)
    | some (acc, j) => do
      let (count, bs) ← decodeU64 bs
      let (totalNs, bs) ← decodeU64 bs
      let (maxNs, bs) ← decodeU64 bs
      let (histogram, bs) ← readFamily decodeU64 (List.finRange histogramBuckets) bs
      pure ({ acc with events := acc.events.modify j fun e =>
        { e with count := count, totalNs := totalNs, maxNs := maxNs, histogram := histogram } }, bs)

/-- A session row of the input: the CPU split since version 9. -/
def readSessionRow (version : ℕ) : RowReader := fun (acc, bs) =>
  if bs.length < (if 9 ≤ version then 44 else 32) then none
  else do
    let (pid, bs) ← decodeU32 bs
    match findOrInsertSession acc pid with
    | none => pure ({ acc with sessionsOverflow := acc.sessionsOverflow + 1 },
        bs.drop (if 9 ≤ version then 40 else 28))
    | some (acc, j) => do
      let (dbTimeNs, bs) ← decodeU64 bs
      let (cpuNs, bs) ← decodeU64 bs
      let (topWaitId, bs) ← decodeU32 bs
      let (topWaitNs, bs) ← decodeU64 bs
      let acc := { acc with sessions := acc.sessions.modify j fun s =>
        { s with dbTimeNs := dbTimeNs, cpuNs := cpuNs, topWaitId := topWaitId,
                 topWaitNs := topWaitNs } }
      if 9 ≤ version then do
        let (offcpu, bs) ← decodeU64 bs
        let (records, bs) ← decodeU32 bs
        pure ({ acc with sessions := acc.sessions.modify j fun s =>
          { s with cpuOffcpuNs := offcpu, cpuMeasuredRecords := records } }, bs)
      else pure (acc, bs)

/-- A top event of the input. -/
def readQueryEvent : Reader SummaryQueryEvent := fun bs => do
  let (eventId, bs) ← decodeU32 bs
  let (count, bs) ← decodeU64 bs
  let (totalNs, bs) ← decodeU64 bs
  pure (⟨eventId, count, totalNs⟩, bs)

/-- What is passed by of a query row without a slot, after its id. -/
def skipQueryBody (version : ℕ) (bs : Bytes) : Bytes :=
  let bs := bs.drop 28
  if 2 ≤ version then
    let bs := match bs.drop (8 * classOrder.length) with
      | [] => []
      | n :: bs => bs.drop (n.toNat * 20)
    if 4 ≤ version then bs.drop 8 else bs
  else bs

/-- The list of top events, cut off at its array. -/
def SummaryQuery.setTopEvents (q : SummaryQuery) (l : List SummaryQueryEvent) : SummaryQuery :=
  { q with topEvents := l.take queryTopEvents, topEvents_le := List.length_take_le .. }

/-- A query row of the input: classes and top events since version 2, idle time since version 4. -/
def readQueryRow (version : ℕ) : RowReader := fun (acc, bs) =>
  if bs.length < 36 then none
  else do
    let (id, bs) ← decodeU64 bs
    match findOrInsertQuery acc id with
    | none => pure (acc, skipQueryBody version bs)
    | some (acc, j) => do
      let (count, bs) ← decodeU64 bs
      let (totalNs, bs) ← decodeU64 bs
      let (topWaitId, bs) ← decodeU32 bs
      let (topWaitNs, bs) ← decodeU64 bs
      let acc := { acc with queries := acc.queries.modify j fun q =>
        { q with count := count, totalNs := totalNs, topWaitId := topWaitId,
                 topWaitNs := topWaitNs } }
      if 2 ≤ version then do
        let (classNs, bs) ← decodeClassNs bs
        let (n, bs) ← readByte bs
        let (topEvents, bs) ← readMany readQueryEvent (min n.toNat queryTopEvents) bs
        let acc := { acc with queries := acc.queries.modify j fun q =>
          { q with classNs := classNs }.setTopEvents topEvents }
        if 4 ≤ version then do
          let (idleNs, bs) ← decodeU64 bs
          pure ({ acc with queries := acc.queries.modify j fun q =>
            { q with idleNs := idleNs } }, bs)
        else pure (acc, bs)
      else pure (acc, bs)

/-- The fields after the rows: idle time since version 4, the CPU scalars since version 7. -/
def readTrailer (version : ℕ) (acc : SummaryAccum) (bs : Bytes) : Option SummaryAccum := do
  let (acc, bs) ←
    if 4 ≤ version then do
      let (idleNs, bs) ← decodeU64 bs
      let (overflow, bs) ← decodeU32 bs
      pure ({ acc with times := { acc.times with idleNs := idleNs }, eventsOverflow := overflow }, bs)
    else pure (acc, bs)
  if 7 ≤ version then do
    let (measured, bs) ← decodeU64 bs
    let (unknown, bs) ← decodeU64 bs
    let (clamped, bs) ← decodeU64 bs
    let (waitGap, bs) ← decodeU64 bs
    let (records, _) ← decodeU64 bs
    pure { acc with times := { acc.times with
      cpuMeasuredNs := measured, cpuUnknownNs := unknown, cpuClampedNs := clamped
      waitGapCpuNs := waitGap, cpuMeasuredRecords := records } }
  else pure acc

/-- `pgwt_summary_deserialize`: `acc` comes with the counts of the block header, which are how many
rows are read and are counted anew. -/
def summaryDeserialize (version : ℕ) (acc : SummaryAccum) (bs : Bytes) : Option SummaryAccum := do
  let (classNs, bs) ← decodeClassNs bs
  let start := { acc with
    times := { acc.times with classNs := classNs }, numEvents := 0, numSessions := 0,
    numQueries := 0 }
  let st ← readRows readEventRow acc.numEvents (start, bs)
  let st ← readRows (readSessionRow version) acc.numSessions st
  let (acc, bs) ← readRows (readQueryRow version) acc.numQueries st
  readTrailer version acc bs

/-- The counts in `struct pgwt_summary_block_header`. -/
structure EntryCounts where
  numEvents : UInt32
  numSessions : UInt16
  numQueries : UInt16
  deriving DecidableEq, Repr

/-- The counts that `flush_accum` stores. -/
def SummaryAccum.entryCounts (acc : SummaryAccum) : EntryCounts :=
  ⟨UInt32.ofNat acc.numEvents, UInt16.ofNat acc.numSessions, UInt16.ofNat acc.numQueries⟩

/-- The accumulator that `pgwt_summary_reader_decode_block` starts from. -/
def EntryCounts.accum (c : EntryCounts) : SummaryAccum :=
  { accumReset with
    numEvents := c.numEvents.toNat
    numSessions := c.numSessions.toNat
    numQueries := c.numQueries.toNat }

/-! ### Rows -/

/-- A row reader of one table: it writes the row at the head of the input into the vacant slot that
the key of the row is probed to, and counts it. -/
structure LoadsRows {K R : Type*} [DecidableEq K] (key : R → K) (vacant : R → Bool) (hash : K → ℕ)
    (keep : R → Prop) (row : RowReader) (enc : R → Bytes) (tbl : SummaryAccum → List R)
    (num : SummaryAccum → ℕ) (put : SummaryAccum → List R → ℕ → SummaryAccum) : Prop where
  tbl_put : ∀ acc t n, tbl (put acc t n) = t
  num_put : ∀ acc t n, num (put acc t n) = n
  put_put : ∀ acc t n t' n', put (put acc t n) t' n' = put acc t' n'
  put_self : ∀ acc, put acc (tbl acc) (num acc) = acc
  row_enc : ∀ acc r rest j r₀, keep r →
    probe (stops key vacant (key r)) (tbl acc) (hash (key r)) = some j → (tbl acc)[j]? = some r₀ →
      vacant r₀ = true →
        row (acc, enc r ++ rest) = some (put acc ((tbl acc).set j r) (num acc + 1), rest)

/-- **Rows are read back.** Rows of different keys, for which there is room, are what is added to
the table. -/
theorem readRows_encode {K R : Type*} [DecidableEq K] {key : R → K} {vacant : R → Bool}
    {hash : K → ℕ} {keep : R → Prop} {row : RowReader} {enc : R → Bytes}
    {tbl : SummaryAccum → List R} {num : SummaryAccum → ℕ}
    {put : SummaryAccum → List R → ℕ → SummaryAccum} {size : ℕ}
    (h : LoadsRows key vacant hash keep row enc tbl num put) :
    (rows : List R) → (acc : SummaryAccum) → (rest : Bytes) →
      (∀ r ∈ rows, keep r ∧ vacant r = false) →
      LinearProbe.Counted key vacant hash size (tbl acc) (num acc) →
      ((occupied vacant (tbl acc) ++ rows).map key).Nodup → num acc + rows.length ≤ size →
      ∃ t, readRows row rows.length (acc, rows.flatMap enc ++ rest) =
          some (put acc t (num acc + rows.length), rest) ∧
        (occupied vacant t).Perm (occupied vacant (tbl acc) ++ rows)
  | [], acc, rest, _, _, _, _ => by
    refine ⟨tbl acc, ?_, by rw [List.append_nil]⟩
    simp [readRows, h.put_self]
  | r :: rows, acc, rest, hrows, hcount, hnodup, hroom => by
    obtain ⟨hkeep, hocc⟩ := hrows r List.mem_cons_self
    rw [List.length_cons] at hroom
    have hfree : (occupied vacant (tbl acc)).length < (tbl acc).length := by
      rw [hcount.length_eq, ← hcount.num_eq]
      omega
    have hnew : ∀ r' ∈ occupied vacant (tbl acc), key r' ≠ key r := by
      intro r' hr' heq
      rw [List.map_append, List.nodup_append] at hnodup
      exact hnodup.2.2 _ (List.mem_map_of_mem hr') _ (List.mem_map_of_mem List.mem_cons_self) heq
    obtain ⟨j, r₀, hprobe, hj, hvac, -, hperm⟩ := hcount.probed.insert hfree hocc hnew
    have hcount' : LinearProbe.Counted key vacant hash size ((tbl acc).set j r) (num acc + 1) := by
      simpa [hvac] using hcount.write hprobe hj rfl hocc
    -- the row moves from the input to the table
    have hmove : (occupied vacant ((tbl acc).set j r) ++ rows).Perm
        (occupied vacant (tbl acc) ++ r :: rows) :=
      (hperm.append_right rows).trans List.perm_middle.symm
    obtain ⟨t, hread, ht⟩ := readRows_encode h rows (put acc ((tbl acc).set j r) (num acc + 1)) rest
      (fun r' hr' => hrows r' (List.mem_cons_of_mem r hr'))
      (by rw [h.tbl_put, h.num_put]; exact hcount')
      (by rw [h.tbl_put]; exact (hmove.map key).nodup_iff.2 hnodup)
      (by rw [h.num_put]; omega)
    rw [h.tbl_put] at ht
    refine ⟨t, ?_, ht.trans hmove⟩
    rw [List.length_cons, List.flatMap_cons, List.append_assoc, readRows,
      h.row_enc acc r _ j r₀ hkeep hprobe hj hvac, Option.bind_some, hread, h.put_put, h.num_put,
      Nat.add_right_comm, Nat.add_assoc]

theorem num_le_of_counted {K R : Type*} [DecidableEq K] {key : R → K} {vacant : R → Bool}
    {hash : K → ℕ} {n num : ℕ} {t : List R}
    (h : LinearProbe.Counted key vacant hash n t num) : num ≤ n := by
  rw [h.num_eq, ← h.length_eq]
  exact List.length_filter_le ..

/-- **Tables are read back.** The rows of a table that counts them, read into an empty table, are
the same finite map. -/
theorem readRows_table {K R : Type*} [DecidableEq K] {key : R → K} {vacant : R → Bool}
    {hash : K → ℕ} {keep : R → Prop} {row : RowReader} {enc : R → Bytes}
    {tbl : SummaryAccum → List R} {num : SummaryAccum → ℕ}
    {put : SummaryAccum → List R → ℕ → SummaryAccum} {size n : ℕ} {t : List R}
    (h : LoadsRows key vacant hash keep row enc tbl num put)
    (ht : LinearProbe.Counted key vacant hash size t n)
    (hkeep : ∀ r ∈ occupied vacant t, keep r) (acc : SummaryAccum) (hnum : num acc = 0)
    (hempty : LinearProbe.Counted key vacant hash size (tbl acc) 0) (rest : Bytes) :
    ∃ t', readRows row n (acc, (occupied vacant t).flatMap enc ++ rest) =
        some (put acc t' n, rest) ∧ lookup key vacant t' = lookup key vacant t := by
  have hnil : occupied vacant (tbl acc) = [] := List.length_eq_zero_iff.1 hempty.num_eq.symm
  obtain ⟨t', hread, hperm⟩ := readRows_encode h (occupied vacant t) acc rest
    (fun r hr => ⟨hkeep r hr, by simpa using (List.mem_filter.1 hr).2⟩) (hnum ▸ hempty)
    (by rw [hnil]; exact ht.probed.nodup_keys)
    (by rw [hnum, ← ht.num_eq, Nat.zero_add]; exact num_le_of_counted ht)
  rw [hnum, Nat.zero_add, ← ht.num_eq] at hread
  rw [hnil] at hperm
  exact ⟨t', hread, lookup_congr ht.probed.nodup_keys hperm⟩

theorem inverts_classNs : Inverts decodeClassNs encodeClassNs fun _ => True := by
  intro f _ rest
  have hall : ∀ c, c ∈ classOrder := fun c => by cases c <;> decide
  exact inverts_u64.family hall f (fun _ => trivial) rest

theorem length_encodeFamily_u64 {ι : Type} (order : List ι) (f : ι → UInt64) :
    (encodeFamily encodeU64 order f).length = order.length * 8 := by
  simp [encodeFamily, List.length_flatMap, encodeU64, Function.comp_def]

variable {acc : SummaryAccum} {version : ℕ}

theorem findOrInsertEvent_of_vacant {id : UInt32} {j : ℕ} {e : SummaryEvent}
    (hprobe : probe (stops SummaryEvent.eventId SummaryEvent.vacant id) acc.events (slotOf32 id) =
      some j) (he : acc.events[j]? = some e) (hvac : e.vacant = true) :
    findOrInsertEvent acc id = some ({ acc with
      events := acc.events.set j { e with eventId := id }, numEvents := acc.numEvents + 1 }, j) := by
  rw [findOrInsertEvent, found_or_vacant_event, ← slotOf32, hprobe]
  simp only [he, Option.any_some, SummaryEvent.found_eq, hvac, modify_of_getElem? he]
  rfl

theorem findOrInsertSession_of_vacant {pid : UInt32} (hpid : pid ≠ 0) {j : ℕ} {s : SummarySession}
    (hprobe : probe (stops SummarySession.pid SummarySession.vacant pid)
      acc.sessions (slotOf32 pid) = some j) (hs : acc.sessions[j]? = some s)
    (hvac : s.vacant = true) :
    findOrInsertSession acc pid = some ({ acc with
      sessions := acc.sessions.set j { s with pid := pid }
      numSessions := acc.numSessions + 1 }, j) := by
  have hne : s.pid ≠ pid := by
    rintro rfl
    exact absurd (hvac.symm.trans (SummarySession.vacant_eq_false hpid)) (by simp)
  rw [findOrInsertSession, found_or_vacant_session, ← slotOf32, hprobe]
  simp only [hs, Option.any_some, SummarySession.found, hne, modify_of_getElem? hs]
  rfl

theorem findOrInsertQuery_of_vacant {id : UInt64} (hid : id ≠ 0) {j : ℕ} {q : SummaryQuery}
    (hprobe : probe (stops SummaryQuery.queryId SummaryQuery.vacant id)
      acc.queries (slotOf64 id) = some j) (hq : acc.queries[j]? = some q) (hvac : q.vacant = true) :
    findOrInsertQuery acc id = some ({ acc with
      queries := acc.queries.set j { q with queryId := id }
      numQueries := acc.numQueries + 1 }, j) := by
  have hne : q.queryId ≠ id := by
    rintro rfl
    exact absurd (hvac.symm.trans (SummaryQuery.vacant_eq_false hid)) (by simp)
  rw [findOrInsertQuery, if_neg hid, found_or_vacant_query, ← slotOf64, hprobe]
  simp only [hq, Option.any_some, SummaryQuery.found, hne, modify_of_getElem? hq]
  rfl

theorem loadsRows_event :
    LoadsRows SummaryEvent.eventId SummaryEvent.vacant slotOf32 (fun _ => True) readEventRow
      SummaryEvent.bytes SummaryAccum.events SummaryAccum.numEvents
      (fun acc t n => { acc with events := t, numEvents := n }) where
  tbl_put _ _ _ := rfl
  num_put _ _ _ := rfl
  put_put _ _ _ _ _ := rfl
  put_self _ := rfl
  row_enc acc r rest j r₀ _ hprobe hj hvac := by
    have h64 := fun a bs => inverts_u64 a trivial bs
    have h32 := fun a bs => inverts_u32 a trivial bs
    have hist := fun bs => inverts_u64.family List.mem_finRange r.histogram (fun _ => trivial) bs
    have hlen : ¬(r.bytes ++ rest).length < 156 := by
      simp only [SummaryEvent.bytes, SummaryEvent.body, List.length_append, encodeU32, encodeU64,
        length_leBytes, length_encodeFamily_u64, List.length_finRange, histogramBuckets]
      omega
    rw [readEventRow]
    simp only [hlen, if_false]
    simp only [SummaryEvent.bytes, SummaryEvent.body, List.append_assoc, h32, h64, hist,
      Option.bind_eq_bind, Option.bind_some, findOrInsertEvent_of_vacant hprobe hj hvac,
      modify_set_self hj, Option.pure_def]

theorem loadsRows_session (hv : 9 ≤ version) :
    LoadsRows SummarySession.pid SummarySession.vacant slotOf32 (fun s => s.pid ≠ 0)
      (readSessionRow version) SummarySession.bytes SummaryAccum.sessions SummaryAccum.numSessions
      (fun acc t n => { acc with sessions := t, numSessions := n }) where
  tbl_put _ _ _ := rfl
  num_put _ _ _ := rfl
  put_put _ _ _ _ _ := rfl
  put_self _ := rfl
  row_enc acc r rest j r₀ hpid hprobe hj hvac := by
    have h64 := fun a bs => inverts_u64 a trivial bs
    have h32 := fun a bs => inverts_u32 a trivial bs
    have hlen : ¬(r.bytes ++ rest).length < 44 := by
      simp only [SummarySession.bytes, SummarySession.body, List.length_append, encodeU32,
        encodeU64, length_leBytes]
      omega
    rw [readSessionRow]
    simp only [hv, if_true, hlen, if_false]
    simp only [SummarySession.bytes, SummarySession.body, List.append_assoc, h32, h64,
      Option.bind_eq_bind, Option.bind_some, findOrInsertSession_of_vacant hpid hprobe hj hvac,
      modify_set_self hj, Option.pure_def]

theorem inverts_queryEvent : Inverts readQueryEvent SummaryQueryEvent.bytes fun _ => True := by
  intro e _ rest
  have h64 := fun a bs => inverts_u64 a trivial bs
  have h32 := fun a bs => inverts_u32 a trivial bs
  simp only [SummaryQueryEvent.bytes, List.append_assoc, readQueryEvent, h64, h32,
    Option.bind_eq_bind, Option.bind_some, Option.pure_def]

theorem loadsRows_query (hv : 4 ≤ version) :
    LoadsRows SummaryQuery.queryId SummaryQuery.vacant slotOf64 (fun q => q.queryId ≠ 0)
      (readQueryRow version) SummaryQuery.bytes SummaryAccum.queries SummaryAccum.numQueries
      (fun acc t n => { acc with queries := t, numQueries := n }) where
  tbl_put _ _ _ := rfl
  num_put _ _ _ := rfl
  put_put _ _ _ _ _ := rfl
  put_self _ := rfl
  row_enc acc r rest j r₀ hid hprobe hj hvac := by
    have h64 := fun a bs => inverts_u64 a trivial bs
    have h32 := fun a bs => inverts_u32 a trivial bs
    have hclass := fun f bs => inverts_classNs f trivial bs
    have hmany := fun bs => inverts_queryEvent.many r.topEvents (fun _ _ => trivial) bs
    have hle : r.topEvents.length ≤ 8 := r.topEvents_le
    have hnum : min (UInt8.ofNat r.topEvents.length).toNat queryTopEvents = r.topEvents.length := by
      rw [UInt8.toNat_ofNat', queryTopEvents]
      omega
    have htake : r.topEvents.take queryTopEvents = r.topEvents :=
      List.take_of_length_le r.topEvents_le
    have hlen : ¬(r.bytes ++ rest).length < 36 := by
      simp only [SummaryQuery.bytes, SummaryQuery.body, List.length_append, encodeU32, encodeU64,
        length_leBytes]
      omega
    have hv2 : 2 ≤ version := by omega
    rw [readQueryRow]
    simp only [hv, hv2, if_true, hlen, if_false]
    simp only [SummaryQuery.bytes, SummaryQuery.body, List.append_assoc, List.cons_append, h32, h64,
      hclass, readByte, hnum, hmany, Option.bind_eq_bind, Option.bind_some,
      findOrInsertQuery_of_vacant hid hprobe hj hvac, modify_set_self hj, Option.pure_def,
      SummaryQuery.setTopEvents, htake]

/-! ### Records -/

/-- Equal scalars, and tables that are equal as finite maps. -/
structure SameRecord (acc acc' : SummaryAccum) : Prop where
  times : acc.times = acc'.times
  eventsOverflow : acc.eventsOverflow = acc'.eventsOverflow
  events : lookup SummaryEvent.eventId SummaryEvent.vacant acc.events =
    lookup SummaryEvent.eventId SummaryEvent.vacant acc'.events
  sessions : lookup SummarySession.pid SummarySession.vacant acc.sessions =
    lookup SummarySession.pid SummarySession.vacant acc'.sessions
  queries : lookup SummaryQuery.queryId SummaryQuery.vacant acc.queries =
    lookup SummaryQuery.queryId SummaryQuery.vacant acc'.queries

/-- The record is read back with the counts in its block header. -/
def RoundTrips (acc : SummaryAccum) : Prop :=
  ∃ acc', summaryDeserialize summaryVersion acc.entryCounts.accum
    (summarySerialize acc summarySerializeMax) = some acc' ∧ SameRecord acc' acc

theorem readTrailer_trailer (hv : 7 ≤ version) (acc acc' : SummaryAccum) :
    readTrailer version acc acc'.trailer = some { acc with
      times := { acc'.times with classNs := acc.times.classNs }
      eventsOverflow := acc'.eventsOverflow } := by
  have h64 := fun a bs => inverts_u64 a trivial bs
  have h32 := fun a bs => inverts_u32 a trivial bs
  have hlast := fun a => inverts_u64 a trivial []
  have hv4 : 4 ≤ version := by omega
  simp only [List.append_nil] at hlast
  simp only [readTrailer, hv, hv4, if_true, SummaryAccum.trailer, h64, h32, hlast,
    Option.bind_eq_bind, Option.bind_some, Option.pure_def]

theorem entryCounts_accum (h : TablesOk acc) :
    acc.entryCounts.accum = { accumReset with
      numEvents := acc.numEvents, numSessions := acc.numSessions, numQueries := acc.numQueries } := by
  have h₁ : acc.numEvents ≤ 1024 := num_le_of_counted h.events
  have h₂ : acc.numSessions ≤ 1024 := num_le_of_counted h.sessions
  have h₃ : acc.numQueries ≤ 2048 := num_le_of_counted h.queries
  have e₁ : (UInt32.ofNat acc.numEvents).toNat = acc.numEvents := by
    rw [UInt32.toNat_ofNat']
    omega
  have e₂ : (UInt16.ofNat acc.numSessions).toNat = acc.numSessions := by
    rw [UInt16.toNat_ofNat']
    omega
  have e₃ : (UInt16.ofNat acc.numQueries).toNat = acc.numQueries := by
    rw [UInt16.toNat_ofNat']
    omega
  simp only [EntryCounts.accum, SummaryAccum.entryCounts, e₁, e₂, e₃]

/-- **A record is read back** if its tables count their rows. -/
theorem deserialize_serialize (h : TablesOk acc) : RoundTrips acc := by
  have hreset := tablesOk_reset
  let start := { accumReset with times := { TimeScalars.zero with classNs := acc.times.classNs } }
  obtain ⟨es, hes, hlookE⟩ := readRows_table loadsRows_event h.events (fun _ _ => trivial) start rfl
    hreset.events ((occupied SummarySession.vacant acc.sessions).flatMap SummarySession.bytes ++
      ((occupied SummaryQuery.vacant acc.queries).flatMap SummaryQuery.bytes ++ acc.trailer))
  obtain ⟨ss, hss, hlookS⟩ := readRows_table
    (loadsRows_session (show 9 ≤ summaryVersion from Nat.le_succ 9)) h.sessions h.pid_ne
    { start with events := es, numEvents := acc.numEvents } rfl hreset.sessions
    ((occupied SummaryQuery.vacant acc.queries).flatMap SummaryQuery.bytes ++ acc.trailer)
  obtain ⟨qs, hqs, hlookQ⟩ := readRows_table
    (loadsRows_query (show 4 ≤ summaryVersion by decide)) h.queries h.queryId_ne
    { start with
      events := es, numEvents := acc.numEvents, sessions := ss, numSessions := acc.numSessions }
    rfl hreset.queries acc.trailer
  have hclass := fun bs => inverts_classNs acc.times.classNs trivial bs
  refine ⟨{ start with
    events := es, numEvents := acc.numEvents, sessions := ss, numSessions := acc.numSessions
    queries := qs, numQueries := acc.numQueries
    times := acc.times, eventsOverflow := acc.eventsOverflow }, ?_,
    ⟨rfl, rfl, hlookE, hlookS, hlookQ⟩⟩
  rw [entryCounts_accum h, summarySerialize, if_neg (Nat.lt_irrefl _), summaryDeserialize, hclass]
  change (((readRows readEventRow acc.numEvents (start, _)).bind fun st =>
    (readRows (readSessionRow summaryVersion) acc.numSessions st).bind fun st =>
      (readRows (readQueryRow summaryVersion) acc.numQueries st).bind fun st =>
        readTrailer summaryVersion st.1 st.2) : Option SummaryAccum) = _
  rw [hes, Option.bind_some, hss, Option.bind_some, hqs, Option.bind_some]
  exact readTrailer_trailer (show 7 ≤ summaryVersion by decide) _ acc

/-- **The round trip of reachable records.** After every run of calls that file no DB time under
pid 0 and do not make the CPU row look empty, the record is read back. -/
theorem summary_record_round_trip (mask : UInt32) (calls : List AccumCall)
    (h : Run.Allowed (accumStep mask) (KeepsCounts mask) accumReset calls) :
    RoundTrips (calls.foldl (accumStep mask) accumReset) :=
  deserialize_serialize (Run.Allowed.invariant (fun _ _ => tablesOk_accumStep) calls accumReset h
    tablesOk_reset)

/-- A data file read of 5 ns by a backend. -/
def readRecord (pid : UInt32) : TraceEvent where
  timestampNs := 1000000005
  durationNs := 5
  pid := pid
  oldEvent := 0x0A000015
  newEvent := 0
  queryId := 0
  flags := 0
  cpuNs := cpuNsUnknown

theorem summary_record_round_trip_two_calls :
    RoundTrips ([AccumCall.event (readRecord 42) 7 false 0x0A000015 {},
      AccumCall.openCredit 43 0x0A000015 1000 0 false].foldl (accumStep 0) accumReset) :=
  summary_record_round_trip 0 _ ⟨Or.inr (Or.inr (Or.inr ⟨fun h => absurd h (by decide),
    fun h => absurd h (by decide)⟩)), Or.inr ⟨fun h => absurd h (by decide),
    fun h => absurd h (by decide)⟩, trivial⟩

/-! ### Pid 0 -/

theorem readEventRow_sessions {acc' : SummaryAccum} {bs bs' : Bytes}
    (h : readEventRow (acc, bs) = some (acc', bs')) : acc'.sessions = acc.sessions := by
  simp only [readEventRow] at h
  split_ifs at h
  simp only [Option.bind_eq_bind, Option.bind_eq_some_iff, Prod.exists] at h
  obtain ⟨id, bs₁, -, h⟩ := h
  split at h
  · simp only [Option.pure_def, Option.some.injEq, Prod.mk.injEq] at h
    rw [← h.1]
  · rename_i acc₁ j hslot
    simp only [Option.bind_eq_some_iff, Prod.exists, Option.pure_def, Option.some.injEq,
      Prod.mk.injEq] at h
    obtain ⟨_, _, -, _, _, -, _, _, -, _, _, -, rfl, -⟩ := h
    obtain ⟨e, -, -, rfl⟩ := findOrInsertEvent_eq_some hslot
    rfl

theorem readEventRows_sessions : (n : ℕ) → {st st' : SummaryAccum × Bytes} →
    readRows readEventRow n st = some st' → st'.1.sessions = st.1.sessions
  | 0, st, st', h => by rw [Option.some.inj h]
  | n + 1, st, st', h => by
    obtain ⟨st₁, hrow, hrest⟩ := Option.bind_eq_some_iff.1 h
    rw [readEventRows_sessions n hrest, readEventRow_sessions hrow]

theorem readTrailer_sessions (hv : 7 ≤ version) {acc' : SummaryAccum} {bs : Bytes}
    (h : readTrailer version acc bs = some acc') : acc'.sessions = acc.sessions := by
  have hv4 : 4 ≤ version := by omega
  simp only [readTrailer, hv, hv4, if_true, Option.bind_eq_bind, Option.bind_eq_some_iff,
    Prod.exists, Option.pure_def, Option.some.injEq, Prod.mk.injEq] at h
  obtain ⟨_, _, -, _, _, -, _, _, ⟨rfl, -⟩, _, _, -, _, _, -, _, _, -, _, _, -, _, _, -, rfl⟩ := h
  rfl

theorem not_roundTrips_of_uncounted (hs : acc.numSessions = 0) (hq : acc.numQueries = 0)
    {s : SummarySession} (hocc : s ∈ occupied SummarySession.vacant acc.sessions) :
    ¬RoundTrips acc := by
  rintro ⟨acc', hread, hsame⟩
  have hempty : acc'.sessions = accumReset.sessions := by
    simp only [summaryDeserialize, EntryCounts.accum, SummaryAccum.entryCounts, hs, hq,
      Option.bind_eq_bind, Option.bind_eq_some_iff, Prod.exists] at hread
    obtain ⟨_, _, -, acc₁, bs₁, hevents, acc₂, bs₂, hsessions, acc₃, bs₃, hqueries, htrailer⟩ := hread
    obtain ⟨rfl, rfl⟩ := Prod.mk.inj (Option.some.inj hsessions)
    obtain ⟨rfl, rfl⟩ := Prod.mk.inj (Option.some.inj hqueries)
    rw [readTrailer_sessions (by decide) htrailer, readEventRows_sessions _ hevents]
  have hnone : lookup SummarySession.pid SummarySession.vacant acc'.sessions s.pid = none := by
    rw [hempty, lookup, accumReset, occupied_replicate rfl, List.find?_nil]
  rw [hsame.sessions, lookup, List.find?_eq_none] at hnone
  exact absurd (hnone s hocc) (by simp)

/-- A record of pid 0 puts time into a session row that is not counted. -/
theorem summary_record_pid_zero_lost :
    ¬RoundTrips ([AccumCall.event (readRecord 0) 0 false 0x0A000015 {}].foldl (accumStep 0)
      accumReset) := by
  have hrow : (occupied SummarySession.vacant ([AccumCall.event (readRecord 0) 0 false 0x0A000015
      {}].foldl (accumStep 0) accumReset).sessions) ≠ [] := by decide +kernel
  obtain ⟨s, hs⟩ := List.exists_mem_of_ne_nil _ hrow
  exact not_roundTrips_of_uncounted (by decide +kernel) (by decide +kernel) hs

end PgWaitTracer
