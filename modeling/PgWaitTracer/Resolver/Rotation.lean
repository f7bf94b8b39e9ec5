import Mathlib.Data.List.Chain
import PgWaitTracer.Resolver.Queue

/-!
# Databases take turns

Each batch of the resolver is of one database (`select_batch_locked`, `src/pgss_resolver.c`): the
least one after the last batch that has a due entry, or the least one of all. So the databases are
visited in a circle, and a database with a due entry is not passed.

Between two selections the entries may change in any way that the calls on the queue change them. A
database whose entries are due no more at a selection is passed there, so it has to be due at the
selection that closes the circle, too.

## Main results

* `database_scan`: the database that is chosen is not after one that is due.
* `selections_rotate`: batches of due keys, their distance, and the rotation.
-/

namespace PgWaitTracer

/-! ### Calls on the queue -/

/-- A call on the queue. -/
inductive ResolverOp
  | queue (now : ℕ) (hasText hasTextLocked : Bool) (key : QueryTextKey)
  | finish (i : ℕ) (f : FinishCounter)
  | retry (now : ℕ) (indices : List ℕ) (successfulMiss : Bool)
  | select (now : ℕ) (hasText : QueryTextKey → Bool)

/-- A batch that is not empty, with the time, the answers of the store and the state it was selected
in. -/
structure Selection where
  now : ℕ
  hasText : QueryTextKey → Bool
  before : Resolver
  database : UInt32
  batch : List (ℕ × QueryTextKey)

namespace Selection

/-- The entry is due and its text is not known. -/
def Due (s : Selection) (e : ResolverEntry) : Prop :=
  e.state = .pending ∧ s.hasText e.key = false ∧ e.retryAtMs ≤ s.now ∧
    s.before.nextBatchAtMs ≤ s.now

/-- The database has such an entry. -/
def IsDue (s : Selection) (db : UInt32) : Prop :=
  ∃ e ∈ s.before.entries, s.Due e ∧ e.key.databaseid = db

end Selection

/-- The queue, and the batches that were selected from it. -/
structure ResolverHistory where
  resolver : Resolver
  selections : List Selection := []

/-- The queue after a call. -/
def ResolverHistory.step (h : ResolverHistory) : ResolverOp → ResolverHistory
  | .queue now hasText hasTextLocked key =>
    { h with resolver := h.resolver.queue now hasText hasTextLocked key }
  | .finish i f => { h with resolver := h.resolver.finishEntry i f }
  | .retry now indices successfulMiss =>
    { h with resolver := h.resolver.retryEntries now indices successfulMiss }
  | .select now hasText =>
    let r := h.resolver.selectBatch now hasText
    { resolver := r.1
      selections :=
        if r.2.1 = [] then h.selections
        else h.selections ++ [⟨now, hasText, h.resolver, r.1.lastBatchDatabaseid, r.2.1⟩] }

/-- The queue after calls. -/
def resolverHistory (unthrottled : Bool) (ops : List ResolverOp) : ResolverHistory :=
  ops.foldl ResolverHistory.step { resolver := { unthrottled := unthrottled } }

/-! ### The database of a batch -/

section Scan

variable {r : Resolver} {now : ℕ}

/-- What the first loop has found in the entries so far. -/
structure ScanOk (r : Resolver) (now : ℕ) (seen : List ResolverEntry) (s : BatchScan) : Prop where
  ready : s.firstDatabaseid ≠ 0 ∨ s.nextDatabaseid ≠ 0 → r.nextBatchAtMs ≤ now
  next_gt : s.nextDatabaseid ≠ 0 → r.lastBatchDatabaseid.toNat < s.nextDatabaseid.toNat
  first_le : ∀ e ∈ seen, e.isPending = true → max e.retryAtMs r.nextBatchAtMs ≤ now →
    s.firstDatabaseid ≠ 0 ∧ s.firstDatabaseid.toNat ≤ e.key.databaseid.toNat
  next_le : ∀ e ∈ seen, e.isPending = true → max e.retryAtMs r.nextBatchAtMs ≤ now →
    r.lastBatchDatabaseid.toNat < e.key.databaseid.toNat →
      s.nextDatabaseid ≠ 0 ∧ s.nextDatabaseid.toNat ≤ e.key.databaseid.toNat

theorem ScanOk.skip {seen : List ResolverEntry} {s s' : BatchScan} (h : ScanOk r now seen s)
    {e : ResolverEntry} (hfirst : s'.firstDatabaseid = s.firstDatabaseid)
    (hnext : s'.nextDatabaseid = s.nextDatabaseid)
    (hno : e.isPending = true → ¬ max e.retryAtMs r.nextBatchAtMs ≤ now) :
    ScanOk r now (seen ++ [e]) s' := by
  constructor
  · rw [hfirst, hnext]
    exact h.ready
  · rw [hnext]
    exact h.next_gt
  · intro x hx hp hdue
    rw [hfirst]
    rcases List.mem_append.1 hx with hx | hx
    · exact h.first_le x hx hp hdue
    · obtain rfl := List.mem_singleton.1 hx
      exact absurd hdue (hno hp)
  · intro x hx hp hdue hlt
    rw [hnext]
    rcases List.mem_append.1 hx with hx | hx
    · exact h.next_le x hx hp hdue hlt
    · obtain rfl := List.mem_singleton.1 hx
      exact absurd hdue (hno hp)

theorem ScanOk.step {seen : List ResolverEntry} {s : BatchScan} (h : ScanOk r now seen s)
    {e : ResolverEntry} (hdb : e.isPending = true → e.key.databaseid ≠ 0) :
    ScanOk r now (seen ++ [e]) (r.scanEntry now s e) := by
  rw [Resolver.scanEntry]
  by_cases hp : e.isPending = true
  swap
  · rw [if_pos (by simp [hp])]
    exact h.skip rfl rfl fun hp' => absurd hp' hp
  rw [if_neg (by simp [hp])]
  dsimp only
  by_cases hdue : now < max e.retryAtMs r.nextBatchAtMs
  · rw [if_pos hdue]
    exact h.skip rfl rfl fun _ => Nat.not_le.2 hdue
  rw [if_neg hdue]
  have hready : r.nextBatchAtMs ≤ now := by omega
  have hfirst : (if s.firstDatabaseid = 0 ∨ e.key.databaseid < s.firstDatabaseid then
      e.key.databaseid else s.firstDatabaseid) ≠ 0 := by
    split_ifs with hlt
    · exact hdb hp
    · exact fun h0 => hlt (Or.inl h0)
  constructor
  · exact fun _ => hready
  · dsimp only
    intro hne
    split_ifs at hne ⊢ with hlt
    · exact UInt32.lt_iff_toNat_lt.1 hlt.1
    · exact h.next_gt hne
  · intro x hx hpx hduex
    refine ⟨hfirst, ?_⟩
    dsimp only
    rcases List.mem_append.1 hx with hx | hx
    · obtain ⟨hne, hle⟩ := h.first_le x hx hpx hduex
      split_ifs with hlt
      · exact Nat.le_trans (Nat.le_of_lt (UInt32.lt_iff_toNat_lt.1 (hlt.resolve_left hne))) hle
      · exact hle
    · obtain rfl := List.mem_singleton.1 hx
      split_ifs with hlt
      · exact Nat.le_refl _
      · exact Nat.le_of_not_lt fun h' => hlt (Or.inr (UInt32.lt_iff_toNat_lt.2 h'))
  · intro x hx hpx hduex hgt
    dsimp only
    rcases List.mem_append.1 hx with hx | hx
    · obtain ⟨hne, hle⟩ := h.next_le x hx hpx hduex hgt
      split_ifs with hlt
      · exact ⟨hdb hp,
          Nat.le_trans (Nat.le_of_lt (UInt32.lt_iff_toNat_lt.1 (hlt.2.resolve_left hne))) hle⟩
      · exact ⟨hne, hle⟩
    · obtain rfl := List.mem_singleton.1 hx
      have hgt' := UInt32.lt_iff_toNat_lt.2 hgt
      split_ifs with hlt
      · exact ⟨hdb hp, Nat.le_refl _⟩
      · exact ⟨fun h0 => hlt ⟨hgt', Or.inl h0⟩, Nat.le_of_not_lt fun h' =>
          hlt ⟨hgt', Or.inr (UInt32.lt_iff_toNat_lt.2 h')⟩⟩

theorem scanOk_scan (now : ℕ) (hdb : ∀ e ∈ r.entries, e.isPending = true → e.key.databaseid ≠ 0) :
    ScanOk r now r.entries (r.scan now) := by
  suffices h : ∀ (l seen : List ResolverEntry) (s : BatchScan), ScanOk r now seen s →
      (∀ e ∈ l, e.isPending = true → e.key.databaseid ≠ 0) →
        ScanOk r now (seen ++ l) (l.foldl (r.scanEntry now) s) by
    refine h r.entries [] {} ⟨?_, ?_, ?_, ?_⟩ hdb
    · exact fun hne => absurd rfl (hne.elim id id)
    · exact fun hne => absurd rfl hne
    · exact fun _ hx => absurd hx List.not_mem_nil
    · exact fun _ hx => absurd hx List.not_mem_nil
  intro l
  induction l with
  | nil =>
    intro seen s h _
    rwa [List.append_nil]
  | cons e l ih =>
    intro seen s h hl
    have hstep := ih _ _ (h.step (hl e List.mem_cons_self))
      fun x hx => hl x (List.mem_cons_of_mem _ hx)
    rwa [List.append_assoc] at hstep

/-- **The database of the next batch.** Some entry is due then, and the database is not after one
that is due: it is the next one, or the circle begins again. -/
theorem database_scan (hdb : ∀ e ∈ r.entries, e.isPending = true → e.key.databaseid ≠ 0)
    (hne : (r.scan now).database ≠ 0) : r.nextBatchAtMs ≤ now ∧
      ∀ e ∈ r.entries, e.isPending = true → e.retryAtMs ≤ now →
        (r.lastBatchDatabaseid.toNat < (r.scan now).database.toNat ∨
          e.key.databaseid.toNat ≤ r.lastBatchDatabaseid.toNat) ∧
        ((r.scan now).database.toNat ≤ e.key.databaseid.toNat ∨
          e.key.databaseid.toNat ≤ r.lastBatchDatabaseid.toNat ∧
            r.lastBatchDatabaseid.toNat < (r.scan now).database.toNat) := by
  have h := scanOk_scan now hdb
  rw [BatchScan.database] at hne ⊢
  have hready : r.nextBatchAtMs ≤ now := by
    refine h.ready ?_
    by_cases hnext : (r.scan now).nextDatabaseid = 0
    · rw [if_neg (not_not.2 hnext)] at hne
      exact Or.inl hne
    · exact Or.inr hnext
  refine ⟨hready, fun e he hp hdue => ?_⟩
  have hdue' : max e.retryAtMs r.nextBatchAtMs ≤ now := by omega
  by_cases hnext : (r.scan now).nextDatabaseid = 0
  · rw [if_neg (not_not.2 hnext)]
    have hbehind : e.key.databaseid.toNat ≤ r.lastBatchDatabaseid.toNat :=
      Nat.le_of_not_lt fun hlt => (h.next_le e he hp hdue' hlt).1 hnext
    exact ⟨Or.inr hbehind, Or.inl (h.first_le e he hp hdue').2⟩
  · rw [if_pos hnext]
    have hgt := h.next_gt hnext
    refine ⟨Or.inl hgt, ?_⟩
    by_cases hahead : r.lastBatchDatabaseid.toNat < e.key.databaseid.toNat
    · exact Or.inl (h.next_le e he hp hdue' hahead).2
    · exact Or.inr ⟨Nat.le_of_not_lt hahead, hgt⟩

end Scan

/-! ### A batch -/

namespace Selection

/-- How far a database is ahead of the last one in the circle. -/
def turnsTo (db last : UInt32) : ℕ :=
  if last.toNat < db.toNat then db.toNat - last.toNat else db.toNat + 2 ^ 32 - last.toNat

/-- What `select_batch_locked` makes sure of: a batch of due keys of one database, and no database
that is due is passed. -/
structure Fair (s : Selection) : Prop where
  batch_ne : s.batch ≠ []
  due : ∀ p ∈ s.batch, p.2.databaseid = s.database ∧
    ∃ e, s.before.entries[p.1]? = some e ∧ e.key = p.2 ∧ s.Due e
  ready : s.before.nextBatchAtMs ≤ s.now
  closer : ∀ db, s.IsDue db → s.database ≠ db →
    turnsTo db s.database < turnsTo db s.before.lastBatchDatabaseid

/-- What the next selection finds of the last one. -/
def LeavesTo (unthrottled : Bool) (s : Selection) (r : Resolver) : Prop :=
  r.lastBatchDatabaseid = s.database ∧
    r.nextBatchAtMs = s.now + Resolver.batchDelay unthrottled s.batch.length

end Selection

variable {hasText : QueryTextKey → Bool}

theorem persisted_eq {e : ResolverEntry} (h : (Resolver.persisted hasText e).isPending = true) :
    Resolver.persisted hasText e = e ∧ hasText e.key = false := by
  rw [persisted_isPending, Bool.and_eq_true, Bool.not_eq_true'] at h
  rw [Resolver.persisted, h.2, Bool.and_false, if_neg Bool.false_ne_true]
  exact ⟨rfl, rfl⟩

theorem due_of_mem_batchOf {r : Resolver} {now : ℕ} {db : UInt32} {q : ℕ × QueryTextKey}
    (hq : q ∈ (r.persistPass hasText).batchOf now db) :
    q.2.databaseid = db ∧ ∃ e, r.entries[q.1]? = some e ∧ e.key = q.2 ∧ e.state = .pending ∧
      hasText e.key = false ∧ e.retryAtMs ≤ now := by
  obtain ⟨⟨e', i⟩, hmem, rfl⟩ := List.mem_map.1 (List.mem_of_mem_take hq)
  obtain ⟨hmem, hready⟩ := List.mem_filter.1 hmem
  have hi := List.mem_zipIdx_iff_getElem?.1 hmem
  simp only [Bool.and_eq_true, decide_eq_true_eq] at hready
  obtain ⟨⟨hpend, hdb⟩, hretry⟩ := hready
  dsimp only [Resolver.persistPass] at hi
  rw [List.getElem?_map, Option.map_eq_some_iff] at hi
  obtain ⟨e, hi, rfl⟩ := hi
  obtain ⟨heq, hno⟩ := persisted_eq hpend
  rw [heq] at hpend hdb hretry ⊢
  exact ⟨hdb, e, hi, rfl, of_decide_eq_true hpend, hno, hretry⟩

/-- **A batch that is not empty is fair.** -/
theorem fair_selectBatch {r : Resolver} (h : QueueOk r) {now : ℕ}
    (hne : (r.selectBatch now hasText).2.1 ≠ []) :
    Selection.Fair ⟨now, hasText, r, (r.selectBatch now hasText).1.lastBatchDatabaseid,
        (r.selectBatch now hasText).2.1⟩ ∧
      (r.selectBatch now hasText).1.nextBatchAtMs =
        now + Resolver.batchDelay r.unthrottled (r.selectBatch now hasText).2.1.length := by
  have hpass := h.persistPass hasText
  have hdb : ∀ e ∈ (r.persistPass hasText).entries, e.isPending = true → e.key.databaseid ≠ 0 := by
    intro e he hp
    refine hpass.databaseid_ne e he ?_
    rw [of_decide_eq_true hp]
    exact nofun
  rw [Resolver.selectBatch] at hne ⊢
  dsimp only at hne ⊢
  by_cases hzero : ((r.persistPass hasText).scan now).database = 0
  · rw [if_pos hzero] at hne
    exact absurd rfl hne
  rw [if_neg hzero] at hne ⊢
  by_cases hnil : (r.persistPass hasText).batchOf now
      ((r.persistPass hasText).scan now).database = []
  · rw [if_pos hnil] at hne
    exact absurd rfl hne
  rw [if_neg hnil]
  obtain ⟨hready, hclose⟩ := database_scan hdb hzero
  refine ⟨⟨hnil, fun q hq => ?_, hready, ?_⟩, rfl⟩
  · obtain ⟨hqdb, e, hi, hkey, hpend, hno, hretry⟩ := due_of_mem_batchOf hq
    exact ⟨hqdb, e, hi, hkey, hpend, hno, hretry, hready⟩
  · rintro db ⟨e, he, ⟨hpend, hno, hretry, -⟩, rfl⟩ hother
    dsimp only at he hno hretry hother ⊢
    have heq : Resolver.persisted hasText e = e := by
      rw [Resolver.persisted, hno, Bool.and_false, if_neg Bool.false_ne_true]
    have hmem : e ∈ (r.persistPass hasText).entries := List.mem_map.2 ⟨e, he, heq⟩
    obtain ⟨hgt, hle⟩ := hclose e hmem (decide_eq_true hpend) hretry
    have hlast : (r.persistPass hasText).lastBatchDatabaseid = r.lastBatchDatabaseid := rfl
    rw [hlast] at hgt hle
    generalize ((r.persistPass hasText).scan now).database = chosen at *
    have hne' : chosen.toNat ≠ e.key.databaseid.toNat := fun heq => hother (UInt32.toNat_inj.1 heq)
    have hlt := r.lastBatchDatabaseid.toNat_lt
    have hlt' := chosen.toNat_lt
    rw [Selection.turnsTo, Selection.turnsTo]
    split_ifs <;> omega

/-! ### Runs -/

/-- The batches are fair, each finds what the last one left, and so will the next. -/
structure HistoryOk (unthrottled : Bool) (h : ResolverHistory) : Prop where
  queue : QueueOk h.resolver
  unthrottled_eq : h.resolver.unthrottled = unthrottled
  fair : ∀ s ∈ h.selections, s.Fair
  chain : h.selections.IsChain fun s s' => s.LeavesTo unthrottled s'.before
  last : ∀ s ∈ h.selections.getLast?, s.LeavesTo unthrottled h.resolver

/-- What does not select keeps the clock of the thread. -/
def SameClock (r r' : Resolver) : Prop :=
  r'.unthrottled = r.unthrottled ∧ r'.nextBatchAtMs = r.nextBatchAtMs ∧
    r'.lastBatchDatabaseid = r.lastBatchDatabaseid

theorem sameClock_queue (r : Resolver) (now : ℕ) (hasText hasTextLocked : Bool)
    (key : QueryTextKey) : SameClock r (r.queue now hasText hasTextLocked key) := by
  rw [Resolver.queue]
  split_ifs
  · exact ⟨rfl, rfl, rfl⟩
  · exact ⟨rfl, rfl, rfl⟩
  · exact ⟨rfl, rfl, rfl⟩
  · split
    · split_ifs <;> exact ⟨rfl, rfl, rfl⟩
    · exact ⟨rfl, rfl, rfl⟩
    · exact ⟨rfl, rfl, rfl⟩

theorem sameClock_finishEntry (r : Resolver) (i : ℕ) (f : FinishCounter) :
    SameClock r (r.finishEntry i f) := by
  rw [Resolver.finishEntry]
  split_ifs <;> exact ⟨rfl, rfl, rfl⟩

theorem sameClock_retryEntries (r : Resolver) (now : ℕ) (indices : List ℕ)
    (successfulMiss : Bool) : SameClock r (r.retryEntries now indices successfulMiss) := by
  refine List.foldlRecOn (motive := fun r' : Resolver => SameClock r r') indices _
    ⟨rfl, rfl, rfl⟩ fun r' h i _ => ?_
  rw [Resolver.retryEntry]
  split
  · exact h
  · split_ifs <;> exact h

theorem HistoryOk.of_sameClock {unthrottled : Bool} {h : ResolverHistory}
    (hok : HistoryOk unthrottled h) {r : Resolver} (hr : SameClock h.resolver r)
    (hq : QueueOk r) : HistoryOk unthrottled { h with resolver := r } where
  queue := hq
  unthrottled_eq := hr.1.trans hok.unthrottled_eq
  fair := hok.fair
  chain := hok.chain
  last s hs := ⟨hr.2.2.trans (hok.last s hs).1, hr.2.1.trans (hok.last s hs).2⟩

theorem HistoryOk.step {unthrottled : Bool} {h : ResolverHistory} (hok : HistoryOk unthrottled h)
    (op : ResolverOp) : HistoryOk unthrottled (h.step op) := by
  cases op with
  | queue now hasText hasTextLocked key =>
    exact hok.of_sameClock (sameClock_queue ..) (hok.queue.queue ..)
  | finish i f => exact hok.of_sameClock (sameClock_finishEntry ..) (hok.queue.finishEntry ..)
  | retry now indices successfulMiss =>
    exact hok.of_sameClock (sameClock_retryEntries ..) (hok.queue.retryEntries ..)
  | select now hasText =>
    have hq := hok.queue.selectBatch now hasText
    have hun : (h.resolver.selectBatch now hasText).1.unthrottled = unthrottled := by
      rw [← hok.unthrottled_eq, Resolver.selectBatch]
      dsimp only
      split_ifs <;> rfl
    rw [ResolverHistory.step]
    by_cases hnil : (h.resolver.selectBatch now hasText).2.1 = []
    · have hclock : SameClock h.resolver (h.resolver.selectBatch now hasText).1 := by
        rw [Resolver.selectBatch] at hnil ⊢
        dsimp only at hnil ⊢
        split_ifs at hnil ⊢ with h₁ h₂
        · exact ⟨rfl, rfl, rfl⟩
        · exact ⟨rfl, rfl, rfl⟩
        · exact absurd hnil h₂
      rw [if_pos hnil]
      exact hok.of_sameClock hclock hq
    · obtain ⟨hfair, hnext⟩ := fair_selectBatch hok.queue hnil
      rw [if_neg hnil]
      refine ⟨hq, hun, ?_, ?_, ?_⟩
      · intro s hs
        rcases List.mem_append.1 hs with hs | hs
        · exact hok.fair s hs
        · rw [List.mem_singleton.1 hs]
          exact hfair
      · rw [List.isChain_append]
        refine ⟨hok.chain, List.isChain_singleton _, fun s hs s' hs' => ?_⟩
        obtain rfl := Option.some.inj hs'
        exact hok.last s hs
      · intro s hs
        rw [List.getLast?_concat] at hs
        obtain rfl := Option.some.inj hs
        exact ⟨rfl, hok.unthrottled_eq ▸ hnext⟩

theorem historyOk_resolverHistory (unthrottled : Bool) (ops : List ResolverOp) :
    HistoryOk unthrottled (resolverHistory unthrottled ops) := by
  refine List.foldlRecOn (motive := fun h : ResolverHistory => HistoryOk unthrottled h) ops _
    ⟨queueOk_start unthrottled, rfl, ?_, List.IsChain.nil, ?_⟩ fun _ h op _ => h.step op
  · exact fun s hs => absurd hs List.not_mem_nil
  · exact fun s hs => nomatch hs

/-! ### The rotation -/

theorem turnsTo_lt {unthrottled : Bool} {db : UInt32} {s : Selection} {l : List Selection}
    (hchain : (s :: l).IsChain fun s s' => s.LeavesTo unthrottled s'.before)
    (hfair : ∀ s' ∈ l, s'.Fair) (hdue : ∀ s' ∈ l, s'.IsDue db)
    (hother : ∀ s' ∈ l, s'.database ≠ db) :
    ∀ s' ∈ l, Selection.turnsTo db s'.database < Selection.turnsTo db s.database := by
  induction l generalizing s with
  | nil => exact fun _ hs' => absurd hs' List.not_mem_nil
  | cons a l ih =>
    obtain ⟨hleaves, htail⟩ := List.isChain_cons_cons.1 hchain
    have ha := (hfair a List.mem_cons_self).closer db (hdue a List.mem_cons_self)
      (hother a List.mem_cons_self)
    rw [hleaves.1] at ha
    intro s' hs'
    rcases List.mem_cons.1 hs' with rfl | hs'
    · exact ha
    · refine Nat.lt_trans (ih htail ?_ ?_ ?_ s' hs') ha
      · exact fun x hx => hfair x (List.mem_cons_of_mem _ hx)
      · exact fun x hx => hdue x (List.mem_cons_of_mem _ hx)
      · exact fun x hx => hother x (List.mem_cons_of_mem _ hx)

/-- **No database starves another.** Between two batches of one database, every other database that
is due at each selection after the first one, the second one included, has a batch. A batch has only
due keys of its database, and throttled batches keep their distance. -/
theorem selections_rotate (unthrottled : Bool) (ops : List ResolverOp) :
    let log := (resolverHistory unthrottled ops).selections
    (∀ pre s₁ mid s₂ post, log = pre ++ s₁ :: (mid ++ s₂ :: post) → s₁.database = s₂.database →
      ∀ db ≠ s₁.database, (∀ s ∈ mid ++ [s₂], s.IsDue db) → ∃ s ∈ mid, s.database = db) ∧
    (∀ s ∈ log, s.batch ≠ [] ∧ ∀ q ∈ s.batch, q.2.databaseid = s.database ∧
      ∃ e, s.before.entries[q.1]? = some e ∧ e.key = q.2 ∧ s.Due e) ∧
    (unthrottled = false → ∀ pre s₁ s₂ post, log = pre ++ s₁ :: s₂ :: post →
      s₁.now + pgssScanMinIntervalMs ≤ s₂.now) := by
  have hok := historyOk_resolverHistory unthrottled ops
  refine ⟨?_, fun s hs => ⟨(hok.fair s hs).batch_ne, (hok.fair s hs).due⟩, ?_⟩
  · intro pre s₁ mid s₂ post hlog hsame db hdb hdue
    by_contra hno
    push Not at hno
    have hchain := hok.chain
    rw [hlog, List.append_cons mid, ← List.cons_append] at hchain
    have hseg := (List.isChain_append.1 (List.isChain_append.1 hchain).2.1).1
    have hfair : ∀ s ∈ mid ++ [s₂], s.Fair := fun s hs => hok.fair s <| by
      rw [hlog, List.append_cons mid]
      exact List.mem_append_right _ (List.mem_cons_of_mem _ (List.mem_append_left _ hs))
    have hcloser := turnsTo_lt hseg hfair hdue (fun s hs => by
      rcases List.mem_append.1 hs with hs | hs
      · exact hno s hs
      · rw [List.mem_singleton.1 hs, ← hsame]
        exact hdb.symm) s₂ (by simp)
    rw [hsame] at hcloser
    exact Nat.lt_irrefl _ hcloser
  · rintro rfl pre s₁ s₂ post hlog
    have hchain := hok.chain
    rw [hlog] at hchain
    have hleaves := (List.isChain_cons_cons.1 (List.isChain_append.1 hchain).2.1).1
    have hready := (hok.fair s₂ (by rw [hlog]; simp)).ready
    have hdelay : pgssScanMinIntervalMs ≤ Resolver.batchDelay false s₁.batch.length := by
      rw [Resolver.batchDelay, if_neg Bool.false_ne_true]
      exact Nat.le_max_right _ _
    rw [hleaves.2] at hready
    omega

/-! ### A database that is due no more -/

/-- Database 5 twice, and 7 in between. Database 3 is due then, but its text is known when the
circle closes. -/
def closedCircle : List ResolverOp :=
  [.queue 0 false false ⟨5, 1, 1⟩, .select 0 fun _ => false,
    .queue 0 false false ⟨7, 1, 1⟩, .queue 0 false false ⟨3, 1, 1⟩, .select 1000 fun _ => false,
    .select 2000 fun key => key.databaseid = 3]

/-- The selection that closes the circle cannot be left out. -/
theorem closedCircle_passes : ¬ ∀ (unthrottled : Bool) (ops : List ResolverOp)
    (pre : List Selection) (s₁ : Selection) (mid : List Selection) (s₂ : Selection)
    (post : List Selection),
    (resolverHistory unthrottled ops).selections = pre ++ s₁ :: (mid ++ s₂ :: post) →
      s₁.database = s₂.database → mid ≠ [] → ∀ db ≠ s₁.database,
        (∀ s ∈ mid, s.IsDue db) → ∃ s ∈ mid, s.database = db := by
  intro h
  have hlog : (resolverHistory false closedCircle).selections.map (fun s => (s.database,
      s.before.entries.any fun e => e.state = .pending && !s.hasText e.key &&
        e.retryAtMs ≤ s.now && s.before.nextBatchAtMs ≤ s.now && e.key.databaseid = 3)) =
      [(5, false), (7, true), (5, false)] := by decide +kernel
  obtain ⟨s₁, l₁, hlog, hs₁, hl₁⟩ := List.map_eq_cons_iff.1 hlog
  obtain ⟨s₂, l₂, rfl, hs₂, hl₂⟩ := List.map_eq_cons_iff.1 hl₁
  obtain ⟨s₃, l₃, rfl, hs₃, -⟩ := List.map_eq_cons_iff.1 hl₂
  rw [Prod.mk.injEq] at hs₁ hs₂ hs₃
  obtain ⟨s, hs, hdb⟩ := h false closedCircle [] s₁ [s₂] s₃ l₃ hlog (hs₁.1.trans hs₃.1.symm)
    (List.cons_ne_nil _ _) 3 (by rw [hs₁.1]; decide) (by
      intro s hs
      obtain rfl := List.mem_singleton.1 hs
      simpa [Selection.IsDue, Selection.Due, and_assoc] using hs₂.2)
  obtain rfl := List.mem_singleton.1 hs
  rw [hs₂.1] at hdb
  exact absurd hdb (by decide)

end PgWaitTracer
