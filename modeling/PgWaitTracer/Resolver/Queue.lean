import PgWaitTracer.Lib.LinearProbe
import PgWaitTracer.QueryText.Seen

/-!
# The queue of the query-text resolver

The sampler queues the keys of queries whose text is not known (`src/pgss_resolver.c`). A thread
takes batches of them, one database at a time, and looks their texts up in
`pg_stat_statements`. The queue is a table with linear probing. An entry that is done, or that gave
up and cools down, may be taken over for another key; a slot that was used once never becomes empty
again.

Whether the store of texts has the text of a key is an answer from outside here, and so is the time.

## Main results

* `QueueOk.queue`, `QueueOk.finishEntry`,
  `QueueOk.retryEntries`, `QueueOk.selectBatch`.
-/

namespace PgWaitTracer

open LinearProbe

/-! ### Entries -/

/-- `enum entry_state`. -/
inductive EntryState
  | empty
  | pending
  | done
  | cooldown
  deriving DecidableEq, Repr

/-- `struct resolver_entry`. -/
structure ResolverEntry where
  key : QueryTextKey := ⟨0, 0, 0⟩
  state : EntryState := .empty
  attempts : ℕ := 0
  retryAtMs : ℕ := 0
  deriving DecidableEq, Repr

/-- A slot that was never used. -/
def ResolverEntry.vacant (e : ResolverEntry) : Bool := e.state = .empty

/-- An entry that the thread still has to do. -/
def ResolverEntry.isPending (e : ResolverEntry) : Bool := e.state = .pending

/-- An entry that may be taken over for another key. -/
def ResolverEntry.reclaimable (e : ResolverEntry) : Bool := e.state = .done || e.state = .cooldown

/-- `PGWT_PGSS_QUEUE_SIZE`. -/
def pgssQueueSize : ℕ := 4096

/-- `PGWT_PGSS_BATCH_MAX`. -/
def pgssBatchMax : ℕ := 256

/-- `PGWT_PGSS_PRETHROTTLE_BATCH_MAX`. -/
def pgssPrethrottleBatchMax : ℕ := 32

/-- `PGWT_PGSS_MAX_RETRIES`. -/
def pgssMaxRetries : ℕ := 6

/-- `PGWT_PGSS_REQUEUE_COOLDOWN_MS`. -/
def pgssRequeueCooldownMs : ℕ := 30000

/-- `PGWT_PGSS_BATCH_INTERVAL_MS`. -/
def pgssBatchIntervalMs : ℕ := 10000

/-- `PGWT_PGSS_SCAN_MIN_INTERVAL_MS`. -/
def pgssScanMinIntervalMs : ℕ := 1000

/-- The counters of the daemon that the resolver writes. -/
structure ResolverCounters where
  pending : UInt64 := 0
  resolved : UInt64 := 0
  absent : UInt64 := 0
  error : UInt64 := 0
  retryExhausted : UInt64 := 0
  evicted : UInt64 := 0
  scans : UInt64 := 0
  deriving DecidableEq, Repr

/-- The counter that a finished entry is counted in, besides. -/
inductive FinishCounter
  | nothing
  | resolved
  | absent
  deriving DecidableEq, Repr

/-- The counters with a finished entry. -/
def FinishCounter.raise : FinishCounter → ResolverCounters → ResolverCounters
  | .nothing, c => c
  | .resolved, c => { c with resolved := c.resolved + 1 }
  | .absent, c => { c with absent := c.absent + 1 }

theorem FinishCounter.pending_raise (f : FinishCounter) (c : ResolverCounters) :
    (f.raise c).pending = c.pending := by
  cases f <;> rfl

/-- `struct pgwt_pgss_resolver`, with the counters. -/
structure Resolver where
  unthrottled : Bool := false
  nextBatchAtMs : ℕ := 0
  lastBatchDatabaseid : UInt32 := 0
  entries : List ResolverEntry := List.replicate pgssQueueSize {}
  counters : ResolverCounters := {}

/-- `resolver_hash`. -/
def resolverHash (key : QueryTextKey) : UInt64 :=
  let x := key.queryId ^^^ (key.databaseid.toUInt64 <<< 32) ^^^ key.userid.toUInt64
  let x := (x ^^^ (x >>> 33)) * 0xff51afd7ed558ccd
  let x := (x ^^^ (x >>> 33)) * 0xc4ceb9fe1a85ec53
  x ^^^ (x >>> 33)

/-- The slot at which the search for a key begins. -/
def resolverSlot (key : QueryTextKey) : ℕ := (resolverHash key).toNat

/-! ### Queueing -/

/-- How the search for a key ends: it has an entry, it gets one, or there is none for it. -/
inductive QueueSlot
  | known (i : ℕ)
  | take (i : ℕ)
  | full
  deriving DecidableEq, Repr

/-- The loop of `pgwt_pgss_resolver_queue`, from slot `i` on. The first entry on the way that may be
taken over is remembered. -/
def queueScan (entries : List ResolverEntry) (key : QueryTextKey) : ℕ → ℕ → Option ℕ → QueueSlot
  | 0, _, reclaim => reclaim.elim .full .take
  | fuel + 1, i, reclaim =>
    match entries[i]? with
    | none => .full
    | some e =>
      if e.state ≠ .empty ∧ e.key = key then .known i
      else if e.state = .empty then .take (reclaim.getD i)
      else
        queueScan entries key fuel ((i + 1) % entries.length)
          (if e.reclaimable && reclaim.isNone then some i else reclaim)

namespace Resolver

/-- The slot of a key in the queue. -/
def queueSlot (r : Resolver) (key : QueryTextKey) : QueueSlot :=
  queueScan r.entries key r.entries.length (resolverSlot key % r.entries.length) none

/-- A counter is raised. -/
def count (r : Resolver) (f : ResolverCounters → ResolverCounters) : Resolver :=
  { r with counters := f r.counters }

/-- An entry becomes pending. -/
def enqueue (r : Resolver) (i : ℕ) (key : QueryTextKey) : Resolver :=
  { r with
    entries := r.entries.set i { key := key, state := .pending }
    counters := { r.counters with pending := r.counters.pending + 1 } }

/-- `pgwt_pgss_resolver_queue`. The store of texts is asked without the lock and with it. -/
def queue (r : Resolver) (now : ℕ) (hasText hasTextLocked : Bool) (key : QueryTextKey) :
    Resolver :=
  if key.databaseid = 0 ∨ key.userid = 0 ∨ key.queryId = 0 then r
  else if hasText then r
  else if hasTextLocked then r
  else
    match r.queueSlot key with
    | .known i =>
      if (r.entries[i]?).any fun e => e.state = .cooldown && e.retryAtMs ≤ now then
        r.enqueue i key
      else r
    | .take i => r.enqueue i key
    | .full => r.count fun c => { c with error := c.error + 1 }

/-! ### Finishing and retrying -/

/-- `finish_entry`. -/
def finishEntry (r : Resolver) (i : ℕ) (f : FinishCounter) : Resolver :=
  if (r.entries[i]?).any ResolverEntry.isPending then
    { r with
      entries := r.entries.modify i fun e => { e with state := .done }
      counters := f.raise { r.counters with pending := r.counters.pending - 1 } }
  else r

/-- The delays of `retry_entries`. -/
def retryDelays : List ℕ := [200, 500, 1000, 2000, 4000]

/-- `retry_entries` of one entry. The last delay stays. -/
def retryEntry (now : ℕ) (successfulMiss : Bool) (r : Resolver) (i : ℕ) : Resolver :=
  match r.entries[i]? with
  | none => r
  | some e =>
    if e.state ≠ .pending then r
    else if pgssMaxRetries ≤ e.attempts + 1 then
      { r with
        entries := r.entries.set i
          { e with
            attempts := e.attempts + 1
            state := .cooldown
            retryAtMs := now + pgssRequeueCooldownMs }
        counters :=
          { r.counters with
            pending := r.counters.pending - 1
            retryExhausted := r.counters.retryExhausted + 1
            evicted := r.counters.evicted + if successfulMiss then 1 else 0 } }
    else
      { r with
        entries := r.entries.set i
          { e with
            attempts := e.attempts + 1
            retryAtMs := now + retryDelays.getD (min e.attempts (retryDelays.length - 1)) 0 } }

/-- `retry_entries`. -/
def retryEntries (r : Resolver) (now : ℕ) (indices : List ℕ) (successfulMiss : Bool) : Resolver :=
  indices.foldl (retryEntry now successfulMiss) r

end Resolver

/-! ### Selecting a batch -/

/-- What the first loop of `select_batch_locked` looks for: the least database with a due entry, the
least one after the last batch, and when the next entry is due. -/
structure BatchScan where
  firstDatabaseid : UInt32 := 0
  nextDatabaseid : UInt32 := 0
  nextDue : Option ℕ := none
  deriving DecidableEq, Repr

/-- The database of the next batch, or 0. -/
def BatchScan.database (s : BatchScan) : UInt32 :=
  if s.nextDatabaseid ≠ 0 then s.nextDatabaseid else s.firstDatabaseid

namespace Resolver

/-- An entry whose text is known is done. -/
def persisted (hasText : QueryTextKey → Bool) (e : ResolverEntry) : ResolverEntry :=
  if e.isPending && hasText e.key then { e with state := .done } else e

/-- The first loop of `select_batch_locked` at an entry that is not done by it. -/
def scanEntry (r : Resolver) (now : ℕ) (s : BatchScan) (e : ResolverEntry) : BatchScan :=
  if !e.isPending then s
  else
    let due := max e.retryAtMs r.nextBatchAtMs
    let db := e.key.databaseid
    if now < due then
      { s with nextDue := if s.nextDue.all fun d => due < d then some due else s.nextDue }
    else
      { s with
        firstDatabaseid :=
          if s.firstDatabaseid = 0 ∨ db < s.firstDatabaseid then db else s.firstDatabaseid
        nextDatabaseid :=
          if r.lastBatchDatabaseid < db ∧ (s.nextDatabaseid = 0 ∨ db < s.nextDatabaseid) then db
          else s.nextDatabaseid }

/-- Entries whose text is known count no more as pending. -/
def persistPass (r : Resolver) (hasText : QueryTextKey → Bool) : Resolver :=
  { r with
    entries := r.entries.map (persisted hasText)
    counters :=
      { r.counters with
        pending := r.counters.pending -
          .ofNat (r.entries.countP fun e => e.isPending && hasText e.key) } }

/-- What the first loop finds. -/
def scan (r : Resolver) (now : ℕ) : BatchScan := r.entries.foldl (r.scanEntry now) {}

/-- The entries of a database that may go into a batch, with their slots. -/
def batchOf (r : Resolver) (now : ℕ) (db : UInt32) : List (ℕ × QueryTextKey) :=
  let ready := r.entries.zipIdx.filter fun p =>
    p.1.isPending && p.1.key.databaseid = db && p.1.retryAtMs ≤ now
  (ready.map fun p => (p.2, p.1.key)).take
    (if r.unthrottled then pgssPrethrottleBatchMax else pgssBatchMax)

/-- How long after a batch of some keys the next one may begin. -/
def batchDelay (unthrottled : Bool) (count : ℕ) : ℕ :=
  if unthrottled then 0
  else max ((pgssBatchIntervalMs * count + pgssBatchMax - 1) / pgssBatchMax) pgssScanMinIntervalMs

/-- `select_batch_locked`: the batch, and when to look again. -/
def selectBatch (r : Resolver) (now : ℕ) (hasText : QueryTextKey → Bool) :
    Resolver × List (ℕ × QueryTextKey) × Option ℕ :=
  let r := r.persistPass hasText
  let s := r.scan now
  if s.database = 0 then (r, [], s.nextDue)
  else
    let batch := r.batchOf now s.database
    if batch = [] then (r, [], s.nextDue)
    else
      ({ r with
          nextBatchAtMs := now + batchDelay r.unthrottled batch.length
          lastBatchDatabaseid := s.database }, batch, s.nextDue)

end Resolver

/-! ### The table -/

/-- The entries are where their keys are probed to, the pending ones are counted, and keys have a
database. -/
structure QueueOk (r : Resolver) : Prop where
  length_eq : r.entries.length = pgssQueueSize
  probed : Probed ResolverEntry.key ResolverEntry.vacant resolverSlot r.entries
  pending_eq : r.counters.pending.toNat = r.entries.countP ResolverEntry.isPending
  databaseid_ne : ∀ e ∈ r.entries, e.state ≠ .empty → e.key.databaseid ≠ 0

theorem queueOk_start (unthrottled : Bool) : QueueOk { unthrottled := unthrottled } where
  length_eq := List.length_replicate
  probed := probed_replicate rfl _
  pending_eq := by simp [ResolverEntry.isPending, List.countP_replicate]
  databaseid_ne e he hne := by
    rw [List.eq_of_mem_replicate he] at hne
    exact absurd rfl hne

variable {e : ResolverEntry} {i : ℕ}

theorem QueueOk.eq_of_key {r : Resolver} (h : QueueOk r) {j : ℕ} {e' : ResolverEntry}
    (hi : r.entries[i]? = some e) (hj : r.entries[j]? = some e') (he : e.state ≠ .empty)
    (he' : e'.state ≠ .empty) (hkey : e.key = e'.key) : i = j :=
  h.probed.eq_of_key hi hj (decide_eq_false he) (decide_eq_false he') hkey

theorem countP_isPending_set {t : List ResolverEntry} {e' : ResolverEntry} (hi : t[i]? = some e) :
    (t.set i e').countP ResolverEntry.isPending + (if e.isPending then 1 else 0) =
      t.countP ResolverEntry.isPending + if e'.isPending then 1 else 0 := by
  obtain ⟨hlt, rfl⟩ := List.getElem?_eq_some_iff.1 hi
  rw [List.countP_set hlt]
  have hpos : (if t[i].isPending then 1 else 0) ≤ t.countP ResolverEntry.isPending := by
    split_ifs with hp
    · exact List.countP_pos_iff.2 ⟨t[i], List.getElem_mem hlt, hp⟩
    · exact Nat.zero_le _
  omega

/-! ### Queueing -/

section Scan

variable {entries : List ResolverEntry} {key : QueryTextKey} {n start e : ℕ}

/-- The slots passed so far have entries of other keys. -/
def PassedBy (entries : List ResolverEntry) (key : QueryTextKey) (n start e : ℕ) : Prop :=
  ∀ e' < e, ∃ x, entries[(start + e') % n]? = some x ∧ x.state ≠ .empty ∧ x.key ≠ key

/-- The first one among them that may be taken over is remembered. -/
def Remembered (entries : List ResolverEntry) (n start e : ℕ) : Option ℕ → Prop
  | none => ∀ e' < e, ∀ x, entries[(start + e') % n]? = some x → x.reclaimable = false
  | some j => ∃ d < e, (start + d) % n = j ∧
      (∃ x, entries[j]? = some x ∧ x.reclaimable = true) ∧
      ∀ e' < d, ∀ x, entries[(start + e') % n]? = some x → x.reclaimable = false

/-- The slot that the search ends at has an entry of the key, or the key may be written there. -/
def QueueSlot.Fits (entries : List ResolverEntry) (key : QueryTextKey) : QueueSlot → Prop
  | .known i => ∃ x, entries[i]? = some x ∧ x.state ≠ .empty ∧ x.key = key
  | .take i => (∃ x, entries[i]? = some x ∧ x.isPending = false) ∧
      Probed ResolverEntry.key ResolverEntry.vacant resolverSlot
        (entries.set i { key := key, state := .pending })
  | .full => True

theorem PassedBy.succ (h : PassedBy entries key n start e) {x : ResolverEntry}
    (hx : entries[(start + e) % n]? = some x) (hne : x.state ≠ .empty) (hkey : x.key ≠ key) :
    PassedBy entries key n start (e + 1) := by
  intro e' he'
  rcases Nat.lt_succ_iff_lt_or_eq.1 he' with hlt | rfl
  · exact h e' hlt
  · exact ⟨x, hx, hne, hkey⟩

theorem Remembered.succ {reclaim : Option ℕ} (h : Remembered entries n start e reclaim)
    {x : ResolverEntry} (hx : entries[(start + e) % n]? = some x) :
    Remembered entries n start (e + 1)
      (if x.reclaimable && reclaim.isNone then some ((start + e) % n) else reclaim) := by
  cases reclaim with
  | some j =>
    obtain ⟨d, hd, hrest⟩ := h
    rw [Option.isNone_some, Bool.and_false, if_neg Bool.false_ne_true]
    exact ⟨d, Nat.lt_succ_of_lt hd, hrest⟩
  | none =>
    rw [Option.isNone_none, Bool.and_true]
    split_ifs with hr
    · exact ⟨e, Nat.lt_succ_self e, rfl, ⟨x, hx, hr⟩, h⟩
    · intro e' he' y hy
      rcases Nat.lt_succ_iff_lt_or_eq.1 he' with hlt | rfl
      · exact h e' hlt y hy
      · rw [hx] at hy
        rw [← Option.some.inj hy]
        exact Bool.eq_false_iff.2 hr

theorem ResolverEntry.isPending_of_reclaimable {x : ResolverEntry} (h : x.reclaimable = true) :
    x.isPending = false ∧ x.vacant = false := by
  cases hx : x.state <;> simp_all [ResolverEntry.reclaimable, ResolverEntry.isPending,
    ResolverEntry.vacant]

theorem Remembered.fits {j : ℕ} (h : Remembered entries n (resolverSlot key % n) e (some j))
    (hp : Probed ResolverEntry.key ResolverEntry.vacant resolverSlot entries)
    (hn : entries.length = n) (hpass : PassedBy entries key n (resolverSlot key % n) e)
    (hen : e ≤ n) (hnew : ∀ x ∈ occupied ResolverEntry.vacant entries, x.key ≠ key) :
    (QueueSlot.take j).Fits entries key := by
  subst hn
  obtain ⟨d, hd, hjd, ⟨x, hx, hr⟩, hfirst⟩ := h
  obtain ⟨hpend, -⟩ := ResolverEntry.isPending_of_reclaimable hr
  refine ⟨⟨x, hx, hpend⟩, ?_⟩
  refine hp.replace (d := d) hx rfl hnew (by omega) (by rw [← Nat.mod_add_mod]; exact hjd)
    fun e' he' => ?_
  dsimp only
  rw [← Nat.mod_add_mod]
  obtain ⟨y, hy, hyne, -⟩ := hpass e' (by omega)
  refine ⟨?_, y, hy, decide_eq_false hyne⟩
  intro heq
  rw [heq, hx] at hy
  have hno := hfirst e' he' x (by rw [heq, hx])
  rw [hr] at hno
  exact Bool.false_ne_true hno.symm

/-- **The search.** It ends at the entry of the key or at one where the key may be written. -/
theorem fits_queueScan (hp : Probed ResolverEntry.key ResolverEntry.vacant resolverSlot entries)
    (hn : entries.length = n) (hpos : 0 < n) (fuel : ℕ) {reclaim : Option ℕ}
    (hfuel : fuel + e = n)
    (hpass : PassedBy entries key n (resolverSlot key % n) e)
    (hrem : Remembered entries n (resolverSlot key % n) e reclaim) :
    (queueScan entries key fuel ((resolverSlot key % n + e) % n)
      reclaim).Fits entries key := by
  induction fuel generalizing e reclaim with
  | zero =>
    cases reclaim with
    | none => exact trivial
    | some j =>
      refine hrem.fits hp hn hpass (by omega) fun x hx hkey => ?_
      -- all slots have been passed
      obtain ⟨i, hi⟩ := List.mem_iff_getElem?.1 (List.mem_filter.1 hx).1
      have hlt : i < n := hn ▸ (List.getElem?_eq_some_iff.1 hi).1
      obtain ⟨e', he', rfl⟩ := exists_step (resolverSlot key % n) hlt
      obtain ⟨y, hy, -, hne⟩ := hpass e' (by omega)
      rw [hi] at hy
      exact hne (Option.some.inj hy ▸ hkey)
  | succ fuel ih =>
    have hlt : (resolverSlot key % n + e) % n < entries.length :=
      hn.symm ▸ Nat.mod_lt _ hpos
    have hx := List.getElem?_eq_getElem hlt
    rw [queueScan, hn]
    generalize entries[(resolverSlot key % n + e) % n] = x at hx
    rw [hx]
    dsimp only
    by_cases hknown : x.state ≠ .empty ∧ x.key = key
    · rw [if_pos hknown]
      exact ⟨x, hx, hknown⟩
    rw [if_neg hknown]
    by_cases hempty : x.state = .empty
    · rw [if_pos hempty]
      have hprobe : probe (stops ResolverEntry.key ResolverEntry.vacant key) entries
          (resolverSlot key) = some ((resolverSlot key % n + e) % n) := by
        rw [probe_eq_some_iff, hn]
        refine ⟨e, by omega, (Nat.mod_add_mod ..).symm, ?_, fun e' he' => ?_⟩
        · rw [hx]
          simp [stops, ResolverEntry.vacant, hempty]
        · obtain ⟨y, hy, hyne, hykey⟩ := hpass e' he'
          rw [← Nat.mod_add_mod, hy]
          exact stops_eq_false_iff.2 ⟨decide_eq_false hyne, hykey⟩
      have hnew := hp.key_ne_of_vacant hprobe hx (decide_eq_true hempty)
      cases reclaim with
      | none =>
        rw [Option.getD_none]
        refine ⟨⟨x, hx, ?_⟩, hp.set hprobe rfl rfl⟩
        rw [ResolverEntry.isPending, hempty]
        rfl
      | some j => exact hrem.fits hp hn hpass (by omega) hnew
    · rw [if_neg hempty]
      have hkey : x.key ≠ key := fun hkey => hknown ⟨hempty, hkey⟩
      have hnext : ((resolverSlot key % n + e) % n + 1) % n =
          (resolverSlot key % n + (e + 1)) % n := by
        rw [Nat.mod_add_mod, Nat.add_assoc]
      rw [hnext]
      exact ih (by omega) (hpass.succ hx hempty hkey) (hrem.succ hx)

end Scan

theorem QueueOk.fits {r : Resolver} (h : QueueOk r) (key : QueryTextKey) :
    (r.queueSlot key).Fits r.entries key := by
  have hpos : 0 < r.entries.length := h.length_eq.symm ▸ (by decide : 0 < pgssQueueSize)
  have hscan := fits_queueScan h.probed rfl hpos r.entries.length (Nat.add_zero _)
    (show PassedBy r.entries key _ _ 0 from fun _ h => absurd h (Nat.not_lt_zero _))
    (show Remembered r.entries _ (resolverSlot key % r.entries.length) 0 none from
      fun _ h => absurd h (Nat.not_lt_zero _))
  rw [Nat.add_zero, Nat.mod_mod] at hscan
  exact hscan

/-! ### Calls keep the table -/

section Calls

variable {r : Resolver}

theorem QueueOk.countP_le (h : QueueOk r) :
    r.entries.countP ResolverEntry.isPending ≤ pgssQueueSize :=
  h.length_eq ▸ List.countP_le_length

theorem QueueOk.pending_add (h : QueueOk r) :
    (r.counters.pending + 1).toNat = r.counters.pending.toNat + 1 := by
  have hle := h.countP_le
  have hsize : pgssQueueSize < 2 ^ 64 - 1 := by decide
  rw [UInt64.toNat_add, h.pending_eq, UInt64.toNat_one]
  exact Nat.mod_eq_of_lt (by omega)

theorem QueueOk.pending_sub (h : QueueOk r) {n : ℕ}
    (hn : n ≤ r.entries.countP ResolverEntry.isPending) :
    (r.counters.pending - .ofNat n).toNat = r.counters.pending.toNat - n := by
  have hle := h.countP_le
  have hsize : pgssQueueSize < 2 ^ 64 - 1 := by decide
  have hof : (UInt64.ofNat n).toNat = n :=
    UInt64.toNat_ofNat_of_lt' (by rw [UInt64.size]; omega)
  have hle' : UInt64.ofNat n ≤ r.counters.pending := by
    rw [UInt64.le_iff_toNat_le, hof, h.pending_eq]
    exact hn
  rw [UInt64.toNat_sub_of_le _ _ hle', hof]

theorem QueueOk.pending_sub_one (h : QueueOk r) (hi : r.entries[i]? = some e)
    (he : e.isPending = true) : (r.counters.pending - 1).toNat + 1 = r.counters.pending.toNat := by
  have hpos : 0 < r.entries.countP ResolverEntry.isPending :=
    List.countP_pos_iff.2 ⟨e, List.mem_of_getElem? hi, he⟩
  have hsub := h.pending_sub (n := 1) hpos
  rw [show UInt64.ofNat 1 = 1 from rfl] at hsub
  rw [hsub, h.pending_eq]
  omega

theorem QueueOk.of_eq (h : QueueOk r) {r' : Resolver} (he : r'.entries = r.entries)
    (hp : r'.counters.pending = r.counters.pending) : QueueOk r' where
  length_eq := he ▸ h.length_eq
  probed := he ▸ h.probed
  pending_eq := by rw [hp, he, h.pending_eq]
  databaseid_ne := he ▸ h.databaseid_ne

/-- **A slot is written**, where the key may be written. -/
theorem QueueOk.write (h : QueueOk r) {r' : Resolver} {e' : ResolverEntry}
    (hi : r.entries[i]? = some e)
    (hp : Probed ResolverEntry.key ResolverEntry.vacant resolverSlot (r.entries.set i e'))
    (hdb : e'.key.databaseid ≠ 0) (he : r'.entries = r.entries.set i e')
    (hcount : r'.counters.pending.toNat + (if e.isPending then 1 else 0) =
      r.counters.pending.toNat + if e'.isPending then 1 else 0) : QueueOk r' where
  length_eq := by rw [he, List.length_set, h.length_eq]
  probed := he ▸ hp
  pending_eq := by
    have hset : (r.entries.set i e').countP ResolverEntry.isPending + _ = _ + _ :=
      countP_isPending_set hi
    rw [he]
    rw [h.pending_eq] at hcount
    omega
  databaseid_ne x hx hne := by
    rw [he] at hx
    rcases List.mem_or_eq_of_mem_set hx with hx | rfl
    · exact h.databaseid_ne x hx hne
    · exact hdb

theorem QueueOk.modify (h : QueueOk r) {r' : Resolver} (e' : ResolverEntry)
    (hi : r.entries[i]? = some e) (hne : e.state ≠ .empty) (hkey : e'.key = e.key)
    (hne' : e'.state ≠ .empty) (he : r'.entries = r.entries.set i e')
    (hcount : r'.counters.pending.toNat + (if e.isPending then 1 else 0) =
      r.counters.pending.toNat + if e'.isPending then 1 else 0) : QueueOk r' := by
  have hprobe := h.probed i e hi (decide_eq_false hne)
  have hset : Probed ResolverEntry.key ResolverEntry.vacant resolverSlot (r.entries.set i e') :=
    h.probed.set hprobe hkey (decide_eq_false hne')
  have hdb := h.databaseid_ne e (List.mem_of_getElem? hi) hne
  exact h.write hi hset (hkey ▸ hdb) he hcount

theorem QueueOk.enqueue (h : QueueOk r) {key : QueryTextKey}
    (hfits : (QueueSlot.take i).Fits r.entries key) (hdb : key.databaseid ≠ 0) :
    QueueOk (r.enqueue i key) := by
  obtain ⟨⟨e, hi, hpend⟩, hp⟩ := hfits
  refine h.write hi hp hdb rfl ?_
  rw [hpend]
  exact h.pending_add

/-- **`pgwt_pgss_resolver_queue`** keeps the table. -/
theorem QueueOk.queue (h : QueueOk r) (now : ℕ) (hasText hasTextLocked : Bool)
    (key : QueryTextKey) : QueueOk (r.queue now hasText hasTextLocked key) := by
  rw [Resolver.queue]
  by_cases hkey : key.databaseid = 0 ∨ key.userid = 0 ∨ key.queryId = 0
  · rwa [if_pos hkey]
  rw [if_neg hkey]
  split_ifs
  · exact h
  · exact h
  have hdb : key.databaseid ≠ 0 := fun h0 => hkey (Or.inl h0)
  have hfits := h.fits key
  cases hslot : r.queueSlot key with
  | full => exact h.of_eq rfl rfl
  | take i =>
    rw [hslot] at hfits
    exact h.enqueue hfits hdb
  | known i =>
    rw [hslot] at hfits
    obtain ⟨e, hi, hne, rfl⟩ := hfits
    dsimp only
    split_ifs with hreopen
    · rw [hi, Option.any_some, Bool.and_eq_true, decide_eq_true_eq] at hreopen
      refine h.modify { key := e.key, state := .pending } hi hne rfl (fun hno => nomatch hno) rfl ?_
      rw [ResolverEntry.isPending, hreopen.1]
      exact h.pending_add
    · exact h

/-- **`finish_entry`** keeps the table. -/
theorem QueueOk.finishEntry (h : QueueOk r) (i : ℕ) (f : FinishCounter) :
    QueueOk (r.finishEntry i f) := by
  rw [Resolver.finishEntry]
  split_ifs with hpend
  · obtain ⟨e, hi, he⟩ := (Option.any_eq_true ..).1 hpend
    have hne : e.state ≠ .empty := by
      rw [of_decide_eq_true he]
      exact nofun
    refine h.modify { e with state := .done } hi hne rfl (fun hno => nomatch hno)
      (modify_of_getElem? hi _) ?_
    rw [FinishCounter.pending_raise, he]
    exact h.pending_sub_one hi he
  · exact h

theorem QueueOk.retryEntry (h : QueueOk r) (now : ℕ) (successfulMiss : Bool) (i : ℕ) :
    QueueOk (Resolver.retryEntry now successfulMiss r i) := by
  rw [Resolver.retryEntry]
  rcases hi : r.entries[i]? with _ | e
  · exact h
  dsimp only
  by_cases hstate : e.state = .pending
  · rw [if_neg (not_not.2 hstate)]
    have he : e.isPending = true := decide_eq_true hstate
    have hne : e.state ≠ .empty := by
      rw [hstate]
      exact nofun
    by_cases hlast : pgssMaxRetries ≤ e.attempts + 1
    · rw [if_pos hlast]
      refine h.modify
        { e with
          attempts := e.attempts + 1
          state := .cooldown
          retryAtMs := now + pgssRequeueCooldownMs } hi hne rfl (fun hno => nomatch hno) rfl ?_
      rw [he]
      exact h.pending_sub_one hi he
    · rw [if_neg hlast]
      exact h.modify
        { e with
          attempts := e.attempts + 1
          retryAtMs := now + Resolver.retryDelays.getD
            (min e.attempts (Resolver.retryDelays.length - 1)) 0 } hi hne rfl hne rfl rfl
  · rw [if_pos hstate]
    exact h

/-- **`retry_entries`** keeps the table. -/
theorem QueueOk.retryEntries (h : QueueOk r) (now : ℕ) (indices : List ℕ) (successfulMiss : Bool) :
    QueueOk (r.retryEntries now indices successfulMiss) :=
  List.foldlRecOn (motive := fun r : Resolver => QueueOk r) indices _ h
    fun _ h i _ => h.retryEntry now successfulMiss i

theorem persisted_key (hasText : QueryTextKey → Bool) (e : ResolverEntry) :
    (Resolver.persisted hasText e).key = e.key := by
  rw [Resolver.persisted]
  split_ifs <;> rfl

theorem persisted_vacant (hasText : QueryTextKey → Bool) (e : ResolverEntry) :
    (Resolver.persisted hasText e).vacant = e.vacant := by
  rw [Resolver.persisted]
  split_ifs with h
  · have hstate : e.state = .pending := of_decide_eq_true (Bool.and_eq_true_iff.1 h).1
    rw [ResolverEntry.vacant, ResolverEntry.vacant, hstate]
    rfl
  · rfl

theorem persisted_isPending (hasText : QueryTextKey → Bool) (e : ResolverEntry) :
    (Resolver.persisted hasText e).isPending = (e.isPending && !hasText e.key) := by
  rw [Resolver.persisted]
  by_cases h : (e.isPending && hasText e.key) = true
  · rw [if_pos h, (Bool.and_eq_true_iff.1 h).2, Bool.not_true, Bool.and_false]
    rfl
  · rw [if_neg h]
    cases hp : e.isPending <;> cases ht : hasText e.key <;> simp_all

theorem QueueOk.persistPass (h : QueueOk r) (hasText : QueryTextKey → Bool) :
    QueueOk (r.persistPass hasText) where
  length_eq := by rw [Resolver.persistPass, List.length_map, h.length_eq]
  probed := h.probed.map (persisted_key hasText) (persisted_vacant hasText)
  pending_eq := by
    have hsplit : r.entries.countP ResolverEntry.isPending =
        r.entries.countP (fun e => e.isPending && hasText e.key) +
          r.entries.countP fun e => e.isPending && !hasText e.key := by
      induction r.entries with
      | nil => rfl
      | cons e l ih =>
        rw [List.countP_cons, List.countP_cons, List.countP_cons, ih]
        cases e.isPending <;> cases hasText e.key <;> simp <;> omega
    have hsub := h.pending_sub (n := r.entries.countP fun e => e.isPending && hasText e.key)
      (by omega)
    dsimp only [Resolver.persistPass]
    rw [hsub, h.pending_eq, List.countP_map, hsplit, Nat.add_sub_cancel_left]
    exact List.countP_congr fun e _ => by
      rw [Function.comp_apply, persisted_isPending]
  databaseid_ne x hx hne := by
    obtain ⟨e, he, rfl⟩ := List.mem_map.1 hx
    rw [persisted_key]
    refine h.databaseid_ne e he fun hempty => hne ?_
    have hvac := persisted_vacant hasText e
    rw [ResolverEntry.vacant, ResolverEntry.vacant, hempty, decide_eq_decide] at hvac
    exact hvac.2 rfl

/-- **`select_batch_locked`** keeps the table. -/
theorem QueueOk.selectBatch (h : QueueOk r) (now : ℕ) (hasText : QueryTextKey → Bool) :
    QueueOk (r.selectBatch now hasText).1 := by
  have hpass := h.persistPass hasText
  rw [Resolver.selectBatch]
  dsimp only
  split_ifs
  · exact hpass
  · exact hpass
  · exact hpass.of_eq rfl rfl

end Calls

end PgWaitTracer
