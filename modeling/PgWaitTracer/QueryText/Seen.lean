import PgWaitTracer.Lib.LinearProbe

/-!
# Which query texts the daemon has seen

A text belongs to a query, a database and a user, and comes from a source. The daemon keeps a table
of the contexts whose complete text it has seen, and one of the contexts it has sampled; each entry
has the highest source seen so far. A text is stored if its context is new or its source is higher.

## Main results

* `SeenTables.covers_checkOrInsert`: what a check answers and what it records.
-/

namespace PgWaitTracer

open LinearProbe

/-- `struct pgwt_query_text_key`. -/
structure QueryTextKey where
  databaseid : UInt32
  userid : UInt32
  queryId : UInt64
  deriving DecidableEq, Repr

/-- `enum pgwt_query_text_source`, without `PGWT_QT_SOURCE_NONE`. -/
inductive QuerySource
  | pgss
  | synthetic
  | full
  deriving DecidableEq, Repr

namespace QuerySource

/-- The number of a source. -/
def priority : QuerySource → ℕ
  | pgss => 1
  | synthetic => 2
  | full => 3

theorem priority_le_full (s : QuerySource) : s.priority ≤ full.priority := by
  cases s <;> decide

end QuerySource

/-- `hash64`, and `qt_hash64` of the server. -/
def qtHash64 (x : UInt64) : UInt64 :=
  let x := (x ^^^ (x >>> 30)) * 0xbf58476d1ce4e5b9
  let x := (x ^^^ (x >>> 27)) * 0x94d049bb133111eb
  x ^^^ (x >>> 31)

/-- `key_hash`, and `qt_key_hash` of the server. -/
def keyHash (key : QueryTextKey) : UInt64 :=
  qtHash64 (key.queryId ^^^ (key.databaseid.toUInt64 <<< 32) ^^^ key.userid.toUInt64)

/-- Where a key is probed from. -/
def qtSlot (key : QueryTextKey) : ℕ := (keyHash key).toNat

/-- `QT_HT_SIZE`. -/
def qtHtSize : ℕ := 4096

/-- `struct pgwt_query_text_seen`. -/
structure SeenEntry where
  key : QueryTextKey := ⟨0, 0, 0⟩
  source : QuerySource := .pgss
  used : Bool := false
  deriving DecidableEq, Repr

/-- The slot is free. -/
def SeenEntry.vacant (e : SeenEntry) : Bool := !e.used

/-- What a check answers: 0, 1 and 2. -/
inductive SeenAnswer
  | fresh
  | known
  | noRoom
  deriving DecidableEq, Repr

/-- A table of contexts, and the number of its entries. -/
structure SeenTable where
  slots : List SeenEntry := List.replicate qtHtSize {}
  num : ℕ := 0

namespace SeenTable

/-- `table_check_or_insert`. -/
def checkOrInsert (t : SeenTable) (key : QueryTextKey) (source : QuerySource) :
    SeenAnswer × SeenTable :=
  match probe (stops SeenEntry.key SeenEntry.vacant key) t.slots (qtSlot key) with
  | none => (.noRoom, t)
  | some j =>
    match t.slots[j]? with
    | none => (.noRoom, t)
    | some e =>
      if e.used ∧ e.key = key then
        if e.source.priority < source.priority then
          (.fresh, { t with slots := t.slots.set j { e with source } })
        else (.known, t)
      else (.fresh, { slots := t.slots.set j { key, source, used := true }, num := t.num + 1 })

/-- `table_contains`. -/
def contains (t : SeenTable) (key : QueryTextKey) : Bool :=
  match probe (stops SeenEntry.key SeenEntry.vacant key) t.slots (qtSlot key) with
  | none => false
  | some j => (t.slots[j]?).any fun e => e.used

/-- The highest source seen of a context. -/
def level (t : SeenTable) (key : QueryTextKey) : Option QuerySource :=
  (lookup SeenEntry.key SeenEntry.vacant t.slots key).map SeenEntry.source

/-- The context is recorded at the source or at a higher one. -/
def Reaches (t : SeenTable) (key : QueryTextKey) (source : QuerySource) : Prop :=
  ∃ s, t.level key = some s ∧ source.priority ≤ s.priority

/-- Every entry is where its key is probed to. -/
def Placed (t : SeenTable) : Prop := Probed SeenEntry.key SeenEntry.vacant qtSlot t.slots

end SeenTable

/-- The two tables: contexts with a complete text, and contexts that were sampled. -/
structure SeenTables where
  seen : SeenTable := {}
  sampledSeen : SeenTable := {}

namespace SeenTables

/-- `seen_check_or_insert`. -/
def checkOrInsert (t : SeenTables) (key : QueryTextKey) (source : QuerySource) :
    SeenAnswer × SeenTables :=
  if source = .full then
    let r := t.seen.checkOrInsert key source
    (r.1, { t with seen := r.2 })
  else if t.seen.contains key then (.known, t)
  else
    let r := t.sampledSeen.checkOrInsert key source
    (r.1, { t with sampledSeen := r.2 })

/-- The context is recorded at the source or at a higher one. -/
def Covers (t : SeenTables) (key : QueryTextKey) (source : QuerySource) : Prop :=
  t.seen.Reaches key source ∨ t.sampledSeen.Reaches key source

/-- Entries are where their keys are probed to, and the first table, and it only, has complete
texts. -/
structure Ok (t : SeenTables) : Prop where
  seen : t.seen.Placed
  sampledSeen : t.sampledSeen.Placed
  full : ∀ key s, t.seen.level key = some s → s = .full
  sampled : ∀ key s, t.sampledSeen.level key = some s → s ≠ .full

end SeenTables

/-! ### One table -/

variable {source : QuerySource} {key : QueryTextKey} {t : SeenTable}

namespace SeenTable

theorem placed_empty : ({} : SeenTable).Placed := probed_replicate rfl qtHtSize

theorem level_empty (key : QueryTextKey) : ({} : SeenTable).level key = none := by
  rw [level, lookup, occupied_replicate rfl]
  rfl

theorem level_of_probe (h : t.Placed) {j : ℕ} {e : SeenEntry}
    (hprobe : probe (stops SeenEntry.key SeenEntry.vacant key) t.slots (qtSlot key) = some j)
    (hj : t.slots[j]? = some e) : t.level key = if e.used then some e.source else none := by
  rw [level, Probed.lookup_of_probe h hprobe hj, SeenEntry.vacant]
  cases e.used <;> rfl

theorem level_of_no_probe (h : t.Placed)
    (hprobe : probe (stops SeenEntry.key SeenEntry.vacant key) t.slots (qtSlot key) = none) :
    t.level key = none := by
  rw [level, Probed.lookup_of_no_probe h hprobe, Option.map_none]

theorem level_set (h : t.Placed) {j : ℕ}
    (hprobe : probe (stops SeenEntry.key SeenEntry.vacant key) t.slots (qtSlot key) = some j)
    (source : QuerySource) (num : ℕ) :
    ({ slots := t.slots.set j { key, source, used := true }, num } : SeenTable).Placed ∧
      ({ slots := t.slots.set j { key, source, used := true }, num } : SeenTable).level =
        Function.update t.level key (some source) := by
  refine ⟨Probed.set h hprobe rfl rfl, funext fun k => ?_⟩
  rw [level, Probed.lookup_set h hprobe rfl rfl]
  by_cases hk : k = key
  · rw [hk, Function.update_self, Function.update_self, Option.map_some]
  · rw [Function.update_of_ne hk, Function.update_of_ne hk, level]

theorem Reaches.mono {source' : QuerySource} (h : t.Reaches key source)
    (hle : source'.priority ≤ source.priority) : t.Reaches key source' := by
  obtain ⟨s, hs, hle'⟩ := h
  exact ⟨s, hs, Nat.le_trans hle hle'⟩

theorem not_reaches_empty (key : QueryTextKey) (source : QuerySource) :
    ¬({} : SeenTable).Reaches key source := by
  rintro ⟨s, hs, -⟩
  rw [level_empty] at hs
  exact nomatch hs

theorem reaches_update {t' : SeenTable} (hnew : ¬t.Reaches key source)
    (hlevel : t'.level = Function.update t.level key (some source)) (k : QueryTextKey)
    (s : QuerySource) :
    t'.Reaches k s ↔ t.Reaches k s ∨ k = key ∧ s.priority ≤ source.priority := by
  rw [Reaches, hlevel]
  by_cases hk : k = key
  · subst hk
    rw [Function.update_self]
    constructor
    · rintro ⟨s', hs', hle⟩
      obtain rfl := Option.some.inj hs'
      exact Or.inr ⟨rfl, hle⟩
    · rintro (⟨s', hs', hle⟩ | ⟨-, hle⟩)
      · refine ⟨source, rfl, Nat.le_trans hle (Nat.le_of_not_le fun hge => hnew ⟨s', hs', hge⟩)⟩
      · exact ⟨source, rfl, hle⟩
  · rw [Function.update_of_ne hk, ← Reaches, or_iff_left fun h => hk h.1]

/-- **A check**: a context with the source or a higher one is known, a new context needs a slot, and
everything else is recorded. -/
theorem checkOrInsert_spec (h : t.Placed) (key : QueryTextKey) (source : QuerySource) :
    (t.Reaches key source ∧ t.checkOrInsert key source = (.known, t)) ∨
      (t.level key = none ∧ t.checkOrInsert key source = (.noRoom, t)) ∨
      (¬t.Reaches key source ∧
        ∃ t' : SeenTable, t.checkOrInsert key source = (.fresh, t') ∧ t'.Placed ∧
          t'.level = Function.update t.level key (some source)) := by
  rw [checkOrInsert]
  cases hprobe : probe (stops SeenEntry.key SeenEntry.vacant key) t.slots (qtSlot key) with
  | none => exact Or.inr (Or.inl ⟨level_of_no_probe h hprobe, rfl⟩)
  | some j =>
    obtain ⟨e, hj, hstop⟩ := exists_of_probe hprobe
    have hlevel := level_of_probe h hprobe hj
    dsimp only
    rw [hj]
    dsimp only
    by_cases hused : e.used = true
    · have hkey : e.key = key := by simpa [stops, SeenEntry.vacant, hused] using hstop
      rw [if_pos hused] at hlevel
      rw [if_pos ⟨hused, hkey⟩]
      by_cases hlt : e.source.priority < source.priority
      · rw [if_pos hlt]
        refine Or.inr (Or.inr ⟨?_, _, rfl, ?_⟩)
        · rintro ⟨s, hs, hle⟩
          obtain rfl := Option.some.inj (hlevel.symm.trans hs)
          exact Nat.not_le_of_lt hlt hle
        · have hentry : ({ e with source } : SeenEntry) = { key, source, used := true } := by
            rw [hused, hkey]
          rw [hentry]
          exact level_set h hprobe source t.num
      · rw [if_neg hlt]
        exact Or.inl ⟨⟨e.source, hlevel, Nat.le_of_not_lt hlt⟩, rfl⟩
    · rw [if_neg hused] at hlevel
      rw [if_neg fun hc => hused hc.1]
      refine Or.inr (Or.inr ⟨?_, _, rfl, level_set h hprobe source (t.num + 1)⟩)
      rintro ⟨s, hs, -⟩
      rw [hlevel] at hs
      cases hs

theorem contains_eq (h : t.Placed) (key : QueryTextKey) :
    t.contains key = (t.level key).isSome := by
  rw [contains]
  cases hprobe : probe (stops SeenEntry.key SeenEntry.vacant key) t.slots (qtSlot key) with
  | none => rw [level_of_no_probe h hprobe, Option.isSome_none]
  | some j =>
    obtain ⟨e, hj, -⟩ := exists_of_probe hprobe
    dsimp only
    rw [level_of_probe h hprobe hj, hj, Option.any_some]
    cases e.used <;> rfl

end SeenTable

/-! ### Both tables -/

namespace SeenTables

theorem ok_empty : ({} : SeenTables).Ok where
  seen := SeenTable.placed_empty
  sampledSeen := SeenTable.placed_empty
  full key s h := by
    rw [SeenTable.level_empty] at h
    exact nomatch h
  sampled key s h := by
    rw [SeenTable.level_empty] at h
    exact nomatch h

theorem not_covers_empty (key : QueryTextKey) (source : QuerySource) :
    ¬({} : SeenTables).Covers key source :=
  not_or.mpr ⟨SeenTable.not_reaches_empty key source, SeenTable.not_reaches_empty key source⟩

theorem Covers.mono {t : SeenTables} {source' : QuerySource} (h : t.Covers key source)
    (hle : source'.priority ≤ source.priority) : t.Covers key source' :=
  h.imp (fun h => h.mono hle) fun h => h.mono hle

theorem Ok.reaches_of_level {t : SeenTables} (h : t.Ok) (hlevel : (t.seen.level key).isSome)
    (source : QuerySource) : t.seen.Reaches key source := by
  obtain ⟨s, hs⟩ := Option.isSome_iff_exists.mp hlevel
  refine ⟨s, hs, ?_⟩
  rw [h.full key s hs]
  exact source.priority_le_full

theorem level_update {t' : SeenTable} {P : QuerySource → Prop} (h : ∀ k s, t.level k = some s → P s)
    (hsource : P source) (hlevel : t'.level = Function.update t.level key (some source))
    (k : QueryTextKey) (s : QuerySource) (hs : t'.level k = some s) : P s := by
  rw [hlevel] at hs
  by_cases hk : k = key
  · subst hk
    rw [Function.update_self] at hs
    rwa [← Option.some.inj hs]
  · rw [Function.update_of_ne hk] at hs
    exact h k s hs

/-- **A check.** A context that is covered is known; a new one needs a slot; everything else is
recorded, and covers the source from then on. -/
theorem covers_checkOrInsert {t : SeenTables} (h : t.Ok) (key : QueryTextKey)
    (source : QuerySource) :
    (t.Covers key source ∧ t.checkOrInsert key source = (.known, t)) ∨
      (¬t.Covers key source ∧ t.checkOrInsert key source = (.noRoom, t)) ∨
      (¬t.Covers key source ∧
        ∃ t' : SeenTables, t.checkOrInsert key source = (.fresh, t') ∧ t'.Ok ∧
          ∀ k s, t'.Covers k s ↔
            t.Covers k s ∨ k = key ∧ s.priority ≤ source.priority) := by
  rw [checkOrInsert]
  by_cases hfull : source = .full
  · subst hfull
    rw [if_pos rfl]
    -- The table of sampled contexts is not asked, and has no complete text.
    have hsampled : ¬t.sampledSeen.Reaches key .full := by
      rintro ⟨s, hs, hle⟩
      refine h.sampled key s hs ?_
      cases s with
      | pgss => exact absurd hle (by decide)
      | synthetic => exact absurd hle (by decide)
      | full => rfl
    rcases SeenTable.checkOrInsert_spec h.seen key .full with
      ⟨hreach, heq⟩ | ⟨hnone, heq⟩ | ⟨hnew, t', heq, hplaced, hlevel'⟩
    · exact Or.inl ⟨Or.inl hreach, by rw [heq]⟩
    · refine Or.inr (Or.inl ⟨not_or.mpr ⟨?_, hsampled⟩, by rw [heq]⟩)
      rintro ⟨s, hs, -⟩
      rw [hnone] at hs
      exact nomatch hs
    · refine Or.inr (Or.inr ⟨not_or.mpr ⟨hnew, hsampled⟩, { t with seen := t' }, by rw [heq],
        ⟨hplaced, h.sampledSeen, level_update h.full rfl hlevel', h.sampled⟩, fun k s => ?_⟩)
      rw [Covers, Covers, SeenTable.reaches_update hnew hlevel', or_right_comm]
  · rw [if_neg hfull, SeenTable.contains_eq h.seen]
    by_cases hlevel : (t.seen.level key).isSome = true
    · rw [if_pos hlevel]
      exact Or.inl ⟨Or.inl (h.reaches_of_level hlevel source), rfl⟩
    · rw [if_neg hlevel]
      have hseen : ¬t.seen.Reaches key source := by
        rintro ⟨s, hs, -⟩
        rw [hs] at hlevel
        exact hlevel rfl
      rcases SeenTable.checkOrInsert_spec h.sampledSeen key source with
        ⟨hreach, heq⟩ | ⟨hnone, heq⟩ | ⟨hnew, t', heq, hplaced, hlevel'⟩
      · exact Or.inl ⟨Or.inr hreach, by rw [heq]⟩
      · refine Or.inr (Or.inl ⟨not_or.mpr ⟨hseen, ?_⟩, by rw [heq]⟩)
        rintro ⟨s, hs, -⟩
        rw [hnone] at hs
        exact nomatch hs
      · refine Or.inr (Or.inr ⟨not_or.mpr ⟨hseen, hnew⟩, { t with sampledSeen := t' }, by rw [heq],
          ⟨h.seen, hplaced, h.full, level_update h.sampled hfull hlevel'⟩, fun k s => ?_⟩)
        rw [Covers, Covers, SeenTable.reaches_update hnew hlevel', or_assoc]

end SeenTables

end PgWaitTracer
