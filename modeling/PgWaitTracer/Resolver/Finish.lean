import Mathlib.Data.List.Sigma
import PgWaitTracer.Lib.Run
import PgWaitTracer.Resolver.Queue

/-!
# The keys that lookup rows finish

The thread of the resolver (`resolver_main`, `src/pgss_resolver.c`) remembers the slots of a batch
while it asks the server without the lock. A row of the answer finishes the slot of its key. A key
may have several rows, one for statements at top level and one for others, and a slot that the first
one finished may be taken over for another key before the next one is read. `finish_entry` does not
look at the key, so the next row finishes the other key.

The steps under the lock are atomic here, and calls of `pgwt_pgss_resolver_queue` may come between
any two of them. What the store of texts and the server answer comes from outside.

## Main results

* `sound_resolverSystem`: so it is in all runs in which no call takes such a slot over.
* `twoRows_unsound`: a run in which one does.
-/

namespace PgWaitTracer

open LinearProbe

/-! ### The thread -/

/-- A line of the answer, as `pgwt_pgss_parse_lookup_row` reads it: `parsed` is negative if it is
not a row, 0 if the row has no text, and otherwise the length of the text. -/
structure LookupRow where
  key : QueryTextKey
  parsed : ℤ
  deriving DecidableEq, Repr

/-- A slot of the batch, with its key. -/
structure BatchKey where
  index : ℕ
  key : QueryTextKey
  found : Bool := false
  deriving DecidableEq, Repr

/-- Where the thread is. -/
inductive ResolverThread
  | idle
  | filter (beforeLookup : Bool) (todo kept : List BatchKey)
  | database (batch : List BatchKey)
  | discovery (batch : List BatchKey)
  | absent (todo : List BatchKey)
  | lookup (batch : List BatchKey)
  | rows (batch : List BatchKey) (rows : List LookupRow)

/-- The answer of `resolve_database`. -/
inductive DatabaseResult
  | found
  | absent
  | error
  deriving DecidableEq, Repr

/-- `enum pgwt_pgss_discovery_result`. -/
inductive DiscoveryResult
  | schema
  | absent
  | permission
  | error
  deriving DecidableEq, Repr

/-- A call of the sampler, or what the thread meets next. -/
inductive ResolverEvent
  | queue (now : ℕ) (hasText hasTextLocked : Bool) (key : QueryTextKey)
  | select (now : ℕ) (hasText : QueryTextKey → Bool)
  | filter (hasText : Bool)
  | database (now : ℕ) (result : DatabaseResult)
  | discovery (now : ℕ) (result : DiscoveryResult)
  | absent
  | lookup (now : ℕ) (scans : UInt64) (answer : Option (List LookupRow))
  | row
  | endRows (now : ℕ)

/-- The resolver and its thread. What rows finished is kept besides: the key of the row, and the key
in the entry that it made done. -/
structure ResolverSystem where
  resolver : Resolver
  thread : ResolverThread := .idle
  finished : List (QueryTextKey × QueryTextKey) := []

namespace ResolverSystem

/-- The thread after `filter_persisted`. -/
def afterFilter (beforeLookup : Bool) (kept : List BatchKey) : ResolverThread :=
  if kept = [] then .idle else if beforeLookup then .lookup kept else .database kept

/-- All keys of the batch failed. -/
def fail (s : ResolverSystem) (now : ℕ) (batch : List BatchKey) : ResolverSystem :=
  { s with
    resolver := (s.resolver.count fun c => { c with error := c.error + .ofNat batch.length })
      |>.retryEntries now (batch.map (·.index)) false
    thread := .idle }

/-- A row of the answer. -/
def readRow (s : ResolverSystem) (batch : List BatchKey) (row : LookupRow)
    (rest : List LookupRow) : ResolverSystem :=
  if row.parsed < 0 then { s with thread := .rows batch rest }
  else
    match batch.find? fun b => b.key = row.key with
    | none => { s with thread := .rows batch rest }
    | some b =>
      { resolver := s.resolver.finishEntry b.index (if 0 < row.parsed then .resolved else .absent)
        thread := .rows (batch.map fun b' => if b'.index = b.index then { b' with found := true }
          else b') rest
        finished := s.finished ++ match s.resolver.entries[b.index]? with
          | none => []
          | some e => if e.isPending then [(row.key, e.key)] else [] }

/-- The system after an event. Events that the thread does not wait for change nothing. -/
def step (s : ResolverSystem) : ResolverEvent → ResolverSystem
  | .queue now hasText hasTextLocked key =>
    { s with resolver := s.resolver.queue now hasText hasTextLocked key }
  | .select now hasText =>
    match s.thread with
    | .idle =>
      let r := s.resolver.selectBatch now hasText
      { s with
        resolver := r.1
        thread := if r.2.1 = [] then .idle
          else .filter false (r.2.1.map fun p => { index := p.1, key := p.2 }) [] }
    | _ => s
  | .filter hasText =>
    match s.thread with
    | .filter beforeLookup [] kept => { s with thread := afterFilter beforeLookup kept }
    | .filter beforeLookup (b :: todo) kept =>
      if hasText then
        { s with
          resolver := s.resolver.finishEntry b.index .nothing
          thread := .filter beforeLookup todo kept }
      else { s with thread := .filter beforeLookup todo (kept ++ [b]) }
    | _ => s
  | .database now result =>
    match s.thread, result with
    | .database batch, .found => { s with thread := .discovery batch }
    | .database batch, .absent => { s with thread := .absent batch }
    | .database batch, .error => s.fail now batch
    | _, _ => s
  | .discovery now result =>
    match s.thread, result with
    | .discovery batch, .schema => { s with thread := .filter true batch [] }
    | .discovery batch, .error => s.fail now batch
    | .discovery batch, _ => { s with thread := .absent batch }
    | _, _ => s
  | .absent =>
    match s.thread with
    | .absent [] => { s with thread := .idle }
    | .absent (b :: todo) =>
      { s with
        resolver := s.resolver.finishEntry b.index .absent
        thread := .absent todo }
    | _ => s
  | .lookup now scans answer =>
    match s.thread with
    | .lookup batch =>
      let s := { s with resolver := s.resolver.count fun c => { c with scans := c.scans + scans } }
      match answer with
      | some rows => { s with thread := .rows batch rows }
      | none => s.fail now batch
    | _ => s
  | .row =>
    match s.thread with
    | .rows batch (row :: rest) => s.readRow batch row rest
    | _ => s
  | .endRows now =>
    match s.thread with
    | .rows batch [] =>
      { s with
        resolver := s.resolver.retryEntries now
          ((batch.filter fun b => !b.found).map (·.index)) true
        thread := .idle }
    | _ => s

/-- The call takes over a slot of the batch while the key that the thread remembers for it has rows
to come. -/
def TakesOver (s : ResolverSystem) : ResolverEvent → Prop
  | .queue _ hasText hasTextLocked key =>
    match s.thread with
    | .rows batch rows => key.databaseid ≠ 0 ∧ key.userid ≠ 0 ∧ key.queryId ≠ 0 ∧
        hasText = false ∧ hasTextLocked = false ∧
        ∃ b ∈ batch, s.resolver.queueSlot key = .take b.index ∧
          ∃ row ∈ rows, 0 ≤ row.parsed ∧ row.key = b.key
    | _ => False
  | _ => False

/-- Keys have one entry, pending entries are counted, and rows finished their own keys. -/
structure Sound (s : ResolverSystem) : Prop where
  one_entry : ∀ (i j : ℕ) (e e' : ResolverEntry), s.resolver.entries[i]? = some e →
    s.resolver.entries[j]? = some e' → e.state ≠ .empty → e'.state ≠ .empty → e.key = e'.key → i = j
  pending_eq : s.resolver.counters.pending.toNat =
    s.resolver.entries.countP fun e => e.state = .pending
  own_key : ∀ p ∈ s.finished, p.1 = p.2

end ResolverSystem

/-- The system after events. -/
def resolverSystem (unthrottled : Bool) (events : List ResolverEvent) : ResolverSystem :=
  events.foldl ResolverSystem.step { resolver := { unthrottled := unthrottled } }

/-! ### What the thread remembers -/

/-- The slot still has the key. -/
def Resolver.Has (r : Resolver) (b : BatchKey) (pending : Bool) : Prop :=
  ∃ e, r.entries[b.index]? = some e ∧ e.key = b.key ∧ (pending = true → e.state = .pending)

/-- The slots of a batch are different. -/
def Apart (batch : List BatchKey) : Prop := (batch.map (·.index)).Nodup

/-- The slots that the thread has not finished have their keys and are pending. A slot of a key with
rows to come has the key. -/
def ResolverThread.Ok (r : Resolver) : ResolverThread → Prop
  | .idle => True
  | .filter _ todo kept => Apart (kept ++ todo) ∧ ∀ b ∈ kept ++ todo, r.Has b true
  | .database batch | .discovery batch | .absent batch | .lookup batch =>
    Apart batch ∧ ∀ b ∈ batch, r.Has b true
  | .rows batch rest => Apart batch ∧ (∀ b ∈ batch, b.found = false → r.Has b true) ∧
    ∀ b ∈ batch, (∃ row ∈ rest, 0 ≤ row.parsed ∧ row.key = b.key) → r.Has b false

/-- What runs keep as long as no slot is taken over. -/
structure ResolverSystem.Inv (s : ResolverSystem) : Prop where
  queue : QueueOk s.resolver
  thread : s.thread.Ok s.resolver
  own_key : ∀ p ∈ s.finished, p.1 = p.2

section Steps

variable {r r' : Resolver} {b : BatchKey} {pending : Bool}

theorem Resolver.Has.weaken (h : r.Has b true) : r.Has b pending := by
  obtain ⟨e, he, hkey, hpend⟩ := h
  exact ⟨e, he, hkey, fun _ => hpend rfl⟩

theorem Resolver.Has.finishEntry (h : r.Has b pending) {i : ℕ} (hne : i ≠ b.index)
    (f : FinishCounter) : (r.finishEntry i f).Has b pending := by
  rw [Resolver.finishEntry]
  split_ifs
  · obtain ⟨e, he, hrest⟩ := h
    refine ⟨e, ?_, hrest⟩
    dsimp only
    rw [List.getElem?_modify_ne _ _ hne, he]
  · exact h

theorem Resolver.Has.finishEntry_key (h : r.Has b false) (i : ℕ) (f : FinishCounter) :
    (r.finishEntry i f).Has b false := by
  by_cases hi : i = b.index
  · rw [Resolver.finishEntry]
    split_ifs
    · obtain ⟨e, he, hkey, -⟩ := h
      refine ⟨{ e with state := .done }, ?_, hkey, by rintro ⟨⟩⟩
      dsimp only
      rw [hi, List.getElem?_modify_eq, he]
      rfl
    · exact h
  · exact h.finishEntry hi f

/-- Queueing a key keeps the slots that it does not take over. -/
theorem Resolver.Has.queue (hq : QueueOk r) (h : r.Has b pending) {now : ℕ}
    {hasText hasTextLocked : Bool} {key : QueryTextKey}
    (hno : pending = true ∨ ¬(key.databaseid ≠ 0 ∧ key.userid ≠ 0 ∧ key.queryId ≠ 0 ∧
      hasText = false ∧ hasTextLocked = false ∧ r.queueSlot key = .take b.index)) :
    (r.queue now hasText hasTextLocked key).Has b pending := by
  rw [Resolver.queue]
  split_ifs with hkey htext hlocked
  · exact h
  · exact h
  · exact h
  obtain ⟨e, he, hown, hpend⟩ := h
  have hfits := hq.fits key
  have hother {i : ℕ} (hi : i ≠ b.index) : (r.enqueue i key).Has b pending := by
    refine ⟨e, ?_, hown, hpend⟩
    dsimp only [Resolver.enqueue]
    rw [List.getElem?_set_ne hi, he]
  cases hslot : r.queueSlot key with
  | full => exact ⟨e, he, hown, hpend⟩
  | take i =>
    rw [hslot] at hfits
    refine hother ?_
    rintro rfl
    obtain ⟨⟨x, hx, hxp⟩, -⟩ := hfits
    rcases hno with rfl | hno
    · rw [he] at hx
      rw [← Option.some.inj hx, ResolverEntry.isPending, hpend rfl] at hxp
      exact absurd hxp (by decide)
    · simp_all
  | known i =>
    rw [hslot] at hfits
    obtain ⟨x, hx, -, rfl⟩ := hfits
    dsimp only
    split_ifs with hreopen
    · by_cases hi : i = b.index
      · subst hi
        rw [he] at hx
        obtain rfl := Option.some.inj hx
        refine ⟨{ key := e.key, state := .pending }, ?_, hown, fun _ => rfl⟩
        exact List.getElem?_set_self (List.getElem?_eq_some_iff.1 he).1
      · exact hother hi
    · exact ⟨e, he, hown, hpend⟩

theorem has_selectBatch (now : ℕ) (hasText : QueryTextKey → Bool) :
    ((r.selectBatch now hasText).2.1.map Prod.fst).Nodup ∧
      ∀ p ∈ (r.selectBatch now hasText).2.1,
        (r.selectBatch now hasText).1.Has { index := p.1, key := p.2 } true := by
  have hbatch (r : Resolver) (db : UInt32) : ((r.batchOf now db).map Prod.fst).Nodup ∧
      ∀ p ∈ r.batchOf now db, r.Has { index := p.1, key := p.2 } true := by
    rw [Resolver.batchOf]
    refine ⟨?_, fun p hp => ?_⟩
    · rw [List.map_take, List.map_map]
      exact ((List.nodup_zipIdx_map_snd r.entries).sublist (List.filter_sublist.map _)).sublist
        (List.take_sublist ..)
    · obtain ⟨⟨e, i⟩, hmem, rfl⟩ := List.mem_map.1 (List.mem_of_mem_take hp)
      obtain ⟨hmem, hready⟩ := List.mem_filter.1 hmem
      simp only [Bool.and_eq_true] at hready
      exact ⟨e, List.mem_zipIdx_iff_getElem?.1 hmem, rfl, fun _ => of_decide_eq_true hready.1.1⟩
  rw [Resolver.selectBatch]
  dsimp only
  split_ifs
  · exact ⟨List.nodup_nil, fun _ hp => absurd hp List.not_mem_nil⟩
  · exact ⟨List.nodup_nil, fun _ hp => absurd hp List.not_mem_nil⟩
  · exact hbatch (r.persistPass hasText) _

end Steps

namespace ResolverSystem

variable {s : ResolverSystem}

theorem Inv.fail (h : s.Inv) (now : ℕ) (batch : List BatchKey) : (s.fail now batch).Inv := by
  have hcount : QueueOk (s.resolver.count fun c =>
      { c with error := c.error + .ofNat batch.length }) := h.queue.of_eq rfl rfl
  exact ⟨hcount.retryEntries .., trivial, h.own_key⟩

theorem Inv.queueKey (h : s.Inv) (now : ℕ) (hasText hasTextLocked : Bool) (key : QueryTextKey)
    (hno : ¬s.TakesOver (.queue now hasText hasTextLocked key)) :
    (s.step (.queue now hasText hasTextLocked key)).Inv := by
  refine ⟨h.queue.queue .., ?_, h.own_key⟩
  have hthread := h.thread
  dsimp only [step]
  have hall {batch : List BatchKey} (hb : ∀ b ∈ batch, s.resolver.Has b true) :
      ∀ b ∈ batch, (s.resolver.queue now hasText hasTextLocked key).Has b true :=
    fun b hmem => (hb b hmem).queue h.queue (Or.inl rfl)
  cases ht : s.thread with
  | idle => exact trivial
  | filter beforeLookup todo kept =>
    rw [ht] at hthread
    exact ⟨hthread.1, hall hthread.2⟩
  | database batch | discovery batch | absent batch | lookup batch =>
    rw [ht] at hthread
    exact ⟨hthread.1, hall hthread.2⟩
  | rows batch rest =>
    rw [ht] at hthread
    refine ⟨hthread.1, fun b hb hf => (hthread.2.1 b hb hf).queue h.queue (Or.inl rfl),
      fun b hb hrow => (hthread.2.2 b hb hrow).queue h.queue (Or.inr fun htake => hno ?_)⟩
    obtain ⟨hdb, huser, hquery, htext, hlocked, hslot⟩ := htake
    simp only [TakesOver, ht]
    exact ⟨hdb, huser, hquery, htext, hlocked, b, hb, hslot, hrow⟩

/-- Reading a row. -/
theorem Inv.readRow (h : s.Inv) {batch : List BatchKey} {row : LookupRow} {rest : List LookupRow}
    (ht : s.thread = .rows batch (row :: rest)) : (s.readRow batch row rest).Inv := by
  have hthread := h.thread
  rw [ht] at hthread
  obtain ⟨hapart, hpend, hkeep⟩ := hthread
  have hskip : ({ s with thread := .rows batch rest } : ResolverSystem).Inv := by
    refine ⟨h.queue, ⟨hapart, hpend, fun b hb hrow => hkeep b hb ?_⟩, h.own_key⟩
    obtain ⟨x, hx, hrest⟩ := hrow
    exact ⟨x, List.mem_cons_of_mem _ hx, hrest⟩
  rw [ResolverSystem.readRow]
  by_cases hparsed : row.parsed < 0
  · rw [if_pos hparsed]
    exact hskip
  rw [if_neg hparsed]
  cases hfind : batch.find? fun b => b.key = row.key with
  | none => exact hskip
  | some b =>
    have hb := List.mem_of_find?_eq_some hfind
    have hkey : b.key = row.key := by simpa using List.find?_some hfind
    -- the slot of the row still has its key
    obtain ⟨e, he, hekey, -⟩ := hkeep b hb ⟨row, List.mem_cons_self, by omega, hkey.symm⟩
    refine ⟨h.queue.finishEntry .., ⟨?_, ?_, ?_⟩, ?_⟩
    · rw [Apart, List.map_map]
      refine (congrArg List.Nodup (List.map_congr_left fun b' _ => ?_)).mpr hapart
      rw [Function.comp_apply]
      split_ifs <;> rfl
    · intro x hx hf
      obtain ⟨b', hb', rfl⟩ := List.mem_map.1 hx
      by_cases hi : b'.index = b.index
      · rw [if_pos hi] at hf
        exact nomatch hf
      · rw [if_neg hi] at hf ⊢
        exact (hpend b' hb' hf).finishEntry (Ne.symm hi) _
    · intro x hx hrow
      obtain ⟨b', hb', rfl⟩ := List.mem_map.1 hx
      have hsame : (if b'.index = b.index then { b' with found := true } else b').index = b'.index ∧
          (if b'.index = b.index then { b' with found := true } else b').key = b'.key := by
        split_ifs <;> exact ⟨rfl, rfl⟩
      obtain ⟨y, hy, hyrest⟩ := hrow
      rw [hsame.2] at hyrest
      have hhas := (hkeep b' hb' ⟨y, List.mem_cons_of_mem _ hy, hyrest⟩).finishEntry_key b.index
        (if 0 < row.parsed then .resolved else .absent)
      rw [Resolver.Has, hsame.1, hsame.2]
      exact hhas
    · intro p hp
      rcases List.mem_append.1 hp with hp | hp
      · exact h.own_key p hp
      · rw [he] at hp
        dsimp only at hp
        split_ifs at hp
        · rw [List.mem_singleton.1 hp, hekey, hkey]
        · exact absurd hp List.not_mem_nil

/-- **An event** that takes nothing over keeps what the thread remembers. -/
theorem Inv.step (h : s.Inv) (ev : ResolverEvent) (hno : ¬s.TakesOver ev) : (s.step ev).Inv := by
  have hthread := h.thread
  cases ev with
  | queue now hasText hasTextLocked key => exact h.queueKey now hasText hasTextLocked key hno
  | select now hasText =>
    dsimp only [ResolverSystem.step]
    split
    · obtain ⟨hnodup, hhas⟩ := has_selectBatch (r := s.resolver) now hasText
      refine ⟨h.queue.selectBatch .., ?_, h.own_key⟩
      dsimp only
      split_ifs
      · exact trivial
      · refine ⟨?_, ?_⟩
        · rwa [List.nil_append, Apart, List.map_map]
        · intro b hb
          obtain ⟨p, hp, rfl⟩ := List.mem_map.1 hb
          exact hhas p hp
    · exact h
  | filter hasText =>
    dsimp only [ResolverSystem.step]
    split
    · rename_i beforeLookup kept ht
      rw [ht, ResolverThread.Ok, List.append_nil] at hthread
      refine ⟨h.queue, ?_, h.own_key⟩
      dsimp only [afterFilter]
      split_ifs
      · exact trivial
      · exact hthread
      · exact hthread
    · rename_i beforeLookup b todo kept ht
      rw [ht] at hthread
      obtain ⟨hapart, hhas⟩ := hthread
      split_ifs
      · rw [Apart, List.map_append, List.map_cons, List.nodup_middle, List.nodup_cons,
          ← List.map_append] at hapart
        refine ⟨h.queue.finishEntry .., ⟨hapart.2, fun x hx => ?_⟩, h.own_key⟩
        refine (hhas x ?_).finishEntry (fun heq => hapart.1 ?_) _
        swap
        · rw [heq]
          exact List.mem_map_of_mem hx
        exact (List.mem_append.1 hx).elim (List.mem_append_left _)
          fun hx => List.mem_append_right _ (List.mem_cons_of_mem _ hx)
      · refine ⟨h.queue, ?_, h.own_key⟩
        rw [ResolverThread.Ok, List.append_assoc]
        exact ⟨hapart, hhas⟩
    · exact h
  | database now result =>
    dsimp only [ResolverSystem.step]
    cases ht : s.thread <;> try exact h
    rw [ht] at hthread
    cases result with
    | found | absent => exact ⟨h.queue, hthread, h.own_key⟩
    | error => exact h.fail ..
  | discovery now result =>
    dsimp only [ResolverSystem.step]
    cases ht : s.thread <;> try exact h
    rw [ht] at hthread
    cases result with
    | schema | absent | permission => exact ⟨h.queue, hthread, h.own_key⟩
    | error => exact h.fail ..
  | absent =>
    dsimp only [ResolverSystem.step]
    split
    · exact ⟨h.queue, trivial, h.own_key⟩
    · rename_i b todo ht
      rw [ht] at hthread
      obtain ⟨hapart, hhas⟩ := hthread
      rw [Apart, List.map_cons, List.nodup_cons] at hapart
      refine ⟨h.queue.finishEntry .., ⟨hapart.2, fun x hx => ?_⟩, h.own_key⟩
      refine (hhas x (List.mem_cons_of_mem _ hx)).finishEntry (fun heq => hapart.1 ?_) _
      rw [heq]
      exact List.mem_map_of_mem hx
    · exact h
  | lookup now scans answer =>
    dsimp only [ResolverSystem.step]
    split
    · rename_i batch ht
      rw [ht] at hthread
      have hscan : ({ s with
          resolver := s.resolver.count fun c => { c with scans := c.scans + scans } } :
            ResolverSystem).Inv := ⟨h.queue.of_eq rfl rfl, ht ▸ hthread, h.own_key⟩
      split
      · exact ⟨hscan.queue, ⟨hthread.1, fun b hb _ => hthread.2 b hb,
          fun b hb _ => (hthread.2 b hb).weaken⟩, h.own_key⟩
      · exact hscan.fail ..
    · exact h
  | row =>
    dsimp only [ResolverSystem.step]
    split
    · rename_i ht
      exact h.readRow ht
    · exact h
  | endRows now =>
    dsimp only [ResolverSystem.step]
    split
    · exact ⟨h.queue.retryEntries .., trivial, h.own_key⟩
    · exact h

theorem Inv.sound (h : s.Inv) : s.Sound :=
  ⟨fun _ _ _ _ hi hj he he' hkey => h.queue.eq_of_key hi hj he he' hkey, h.queue.pending_eq,
    h.own_key⟩

end ResolverSystem

/-- **No key is finished by another one's row**, in every run in which no call takes over a slot
whose key has rows to come. -/
theorem sound_resolverSystem (unthrottled : Bool) (events : List ResolverEvent)
    (h : Run.Allowed ResolverSystem.step (fun s ev => ¬s.TakesOver ev)
      { resolver := { unthrottled := unthrottled } } events)
    (pre post : List ResolverEvent) (hpre : events = pre ++ post) :
    (resolverSystem unthrottled pre).Sound := by
  subst hpre
  have hstart : ({ resolver := { unthrottled := unthrottled } } : ResolverSystem).Inv :=
    ⟨queueOk_start unthrottled, trivial, fun _ hp => absurd hp List.not_mem_nil⟩
  have hend : (resolverSystem unthrottled pre).Inv :=
    @Run.Allowed.invariant _ _ ResolverSystem.step _ ResolverSystem.Inv
      (fun _ ev hinv hno => hinv.step ev hno) pre _ (Run.Allowed.of_append_left pre _ post h) hstart
  exact hend.sound

/-- A key with two rows, up to the first one. -/
def firstRow : List ResolverEvent :=
  [.queue 0 false false ⟨1, 1, 1⟩, .select 0 fun _ => false, .filter false, .filter false,
    .database 0 .found, .discovery 0 .schema, .filter false, .filter false,
    .lookup 0 1 (some [⟨⟨1, 1, 1⟩, 4⟩, ⟨⟨1, 1, 1⟩, 4⟩]), .row]

theorem sound_firstRow : (resolverSystem false (firstRow ++ [.row, .endRows 0])).Sound := by
  refine sound_resolverSystem false (firstRow ++ [.row, .endRows 0]) ?_ _ []
    (List.append_nil _).symm
  simp only [firstRow, List.cons_append, List.nil_append, Run.Allowed]
  exact ⟨id, id, id, id, id, id, id, id, id, id, id, id, trivial⟩

/-- The slot is taken over for another key, and the second row makes that key done. -/
theorem twoRows_unsound : ¬ ∀ (unthrottled : Bool) (events : List ResolverEvent),
    (resolverSystem unthrottled events).Sound := by
  intro h
  have hfinished : (resolverSystem false (firstRow ++
      [.queue 0 false false ⟨1, 1, 10106⟩, .row])).finished =
        [(⟨1, 1, 1⟩, ⟨1, 1, 1⟩), (⟨1, 1, 1⟩, ⟨1, 1, 10106⟩)] := by decide +kernel
  have hown := (h false _).own_key (⟨1, 1, 1⟩, ⟨1, 1, 10106⟩)
    (by rw [hfinished]; exact List.mem_cons_of_mem _ List.mem_cons_self)
  exact absurd hown (by decide)

end PgWaitTracer
