import PgWaitTracer.Server.CachedLoad

/-!
# Filling the cache of a decoded file

`get_cached_immutable` (`src/server.c`) decodes a rotated file into an array that it allocates once
and doubles when it is full. The first allocation is not checked. A reallocation that fails ends the
loop over the block at hand, but by then the capacity has been doubled, so the next block that has a
record stores it past the end of the array. When no such block follows, the records that were left
out are missing from the entry, and only the count of the blocks that did not decode says that it
is short.

The outcomes of the allocations are a function of their number. The capacity is a natural number: a
file holds fewer records than an `int` can count. The working array of a load that uses the entry
is taken to grow; a load in which it does not reports that by itself.

## Main results

* `overrun_fillCache` : when a record is stored past the end of the array.
* `events_fillCache` : when the entry is complete.
* `fillCache_completeOrRefused_iff` : exactly when a cached file is complete or refused.
-/

namespace PgWaitTracer

/-! ### The fill -/

/-- The entry of a file while it is filled: the capacity the code believes in, the slots that are
allocated (none is the null pointer), the records stored, the allocations asked for, the blocks that
did not decode, and whether a record was stored past the slots. -/
structure CacheFill where
  cap : ℕ
  slots : ℕ
  events : List TraceEvent
  asked : ℕ
  unreadable : ℕ
  overrun : Bool
  deriving DecidableEq, Repr

/-- The entry after the first allocation, which is not checked. -/
def CacheFill.initial (alloc : ℕ → Bool) : CacheFill where
  cap := 16384
  slots := if alloc 0 then 16384 else 0
  events := []
  asked := 1
  unreadable := 0
  overrun := false

/-- A record is stored behind the others. -/
def CacheFill.store (f : CacheFill) (ev : TraceEvent) : CacheFill :=
  { f with
    events := f.events ++ [ev]
    overrun := f.overrun || f.slots ≤ f.events.length }

/-- The array after a reallocation that succeeds. -/
def CacheFill.grown (f : CacheFill) : CacheFill :=
  { f with
    cap := f.cap * 2
    slots := f.cap * 2
    asked := f.asked + 1 }

/-- The array after a reallocation that fails. -/
def CacheFill.notGrown (f : CacheFill) : CacheFill :=
  { f with
    cap := f.cap * 2
    asked := f.asked + 1 }

/-- The loop over the records of a block. A reallocation that fails ends it. -/
def CacheFill.storeBlock (alloc : ℕ → Bool) : CacheFill → List TraceEvent → CacheFill
  | f, [] => f
  | f, ev :: evs =>
    if f.cap ≤ f.events.length then
      if alloc f.asked then CacheFill.storeBlock alloc (f.grown.store ev) evs else f.notGrown
    else CacheFill.storeBlock alloc (f.store ev) evs

/-- One block of the file: a block that does not decode is counted. -/
def CacheFill.block (alloc : ℕ → Bool) (f : CacheFill) (b : ReaderBlock) : CacheFill :=
  match b.content with
  | .decoded info records =>
    f.storeBlock alloc (records.map (·.asInterval info.samplePeriodNs))
  | _ => { f with unreadable := f.unreadable + 1 }

/-- `get_cached_immutable` on a file that opens, for given outcomes of its allocations. -/
def fillCache (alloc : ℕ → Bool) (blocks : List ReaderBlock) : CacheFill :=
  blocks.foldl (CacheFill.block alloc) (.initial alloc)

/-- A load that is answered from the entry. Its blocks that did not decode are noted on every
use. -/
def CacheFill.load (f : CacheFill) (limit : Option ℕ) (rg : LoadRange) (st : LoadState) :
    LoadState :=
  loadCached limit rg { st with badBlocks := st.badBlocks + f.unreadable } f.events

/-- **Complete or refused.** No record is stored past the allocated slots, and the entry, if loads
are answered from it, has all records of the blocks that decode, or every load that is answered from
it reports blocks it could not read. -/
def CompleteOrRefused (alloc : ℕ → Bool) (blocks : List ReaderBlock) : Prop :=
  (fillCache alloc blocks).overrun = false ∧
    ((fillCache alloc blocks).slots ≠ 0 →
      (fillCache alloc blocks).events = getCachedImmutable blocks ∨
        ∀ limit rg st, 0 < ((fillCache alloc blocks).load limit rg st).badBlocks)

/-! ### Allocations -/

/-- The slots before allocation number `k`. -/
def slotsBefore : ℕ → ℕ
  | 0 => 0
  | k + 1 => 16384 * 2 ^ k

/-- The allocations that the first `n` records need all succeed. -/
def Grants (alloc : ℕ → Bool) (n : ℕ) : Prop := ∀ k, slotsBefore k < n → alloc k = true

theorem slotsBefore_strictMono : StrictMono slotsBefore := by
  refine strictMono_nat_of_lt_succ fun k => ?_
  cases k with
  | zero => simp [slotsBefore]
  | succ k =>
    have hpos := Nat.two_pow_pos k
    simp only [slotsBefore, Nat.pow_succ]
    omega

variable {f : CacheFill} {alloc : ℕ → Bool}

theorem Grants.mono {m n : ℕ} (h : Grants alloc n) (hle : m ≤ n) :
    Grants alloc m := fun k hk => h k (Nat.lt_of_lt_of_le hk hle)

theorem grants_zero (alloc : ℕ → Bool) : Grants alloc 0 := fun _ hk => absurd hk (Nat.not_lt_zero _)

/-- The records of the blocks that decode, as the cache has them. -/
def ReaderBlock.cached (b : ReaderBlock) : List TraceEvent :=
  match b.content with
  | .decoded info records => records.map (·.asInterval info.samplePeriodNs)
  | _ => []

/-- The block decodes. -/
def ReaderBlock.decodes (b : ReaderBlock) : Bool :=
  match b.content with
  | .decoded _ _ => true
  | _ => false

theorem getCachedImmutable_eq_flatMap (blocks : List ReaderBlock) :
    getCachedImmutable blocks = blocks.flatMap ReaderBlock.cached := rfl

/-- The records in front of the last block that has any. -/
def leadRecords : List ReaderBlock → ℕ
  | [] => 0
  | b :: bs => if getCachedImmutable bs = [] then 0 else b.cached.length + leadRecords bs

theorem getCachedImmutable_cons (b : ReaderBlock) (bs : List ReaderBlock) :
    getCachedImmutable (b :: bs) = b.cached ++ getCachedImmutable bs := by
  rw [getCachedImmutable_eq_flatMap, getCachedImmutable_eq_flatMap, List.flatMap_cons]

theorem leadRecords_le : (blocks : List ReaderBlock) →
    leadRecords blocks ≤ (getCachedImmutable blocks).length
  | [] => Nat.zero_le _
  | b :: bs => by
    have ih := leadRecords_le bs
    rw [leadRecords, getCachedImmutable_cons, List.length_append]
    split_ifs <;> omega

theorem leadRecords_of_nil {bs : List ReaderBlock} (h : getCachedImmutable bs = []) :
    leadRecords bs = 0 := by
  have hle := leadRecords_le bs
  rw [h] at hle
  exact Nat.le_zero.1 hle

/-! ### One block -/

/-- The array is as large as the code believes, after allocations that all succeeded. -/
structure CacheFill.Sound (alloc : ℕ → Bool) (f : CacheFill) : Prop where
  asked_pos : 0 < f.asked
  granted : ∀ k < f.asked, alloc k = true
  cap_eq : f.cap = slotsBefore f.asked
  slots_eq : f.slots = f.cap
  fits : f.events.length ≤ f.slots
  intact : f.overrun = false

/-- The array is full, and the code believes that there is room. -/
structure CacheFill.Stuck (f : CacheFill) : Prop where
  room : f.events.length < f.cap
  full : f.slots ≤ f.events.length
  intact : f.overrun = false

theorem CacheFill.Sound.grants (h : f.Sound alloc) : Grants alloc f.events.length := by
  intro k hk
  have hfits := h.fits
  rw [h.slots_eq, h.cap_eq] at hfits
  exact h.granted k (slotsBefore_strictMono.lt_iff_lt.1 (Nat.lt_of_lt_of_le hk hfits))

theorem slotsBefore_succ {k : ℕ} (h : 0 < k) : slotsBefore (k + 1) = slotsBefore k * 2 := by
  obtain ⟨k, rfl⟩ := Nat.exists_eq_add_one_of_ne_zero (Nat.ne_of_gt h)
  simp only [slotsBefore, Nat.pow_succ, Nat.mul_assoc]

theorem CacheFill.Sound.grown (h : f.Sound alloc) (halloc : alloc f.asked = true) :
    f.grown.Sound alloc where
  asked_pos := Nat.succ_pos _
  granted := by
    intro k hk
    rcases Nat.lt_succ_iff_lt_or_eq.1 hk with hlt | rfl
    · exact h.granted k hlt
    · exact halloc
  cap_eq := by
    rw [CacheFill.grown, slotsBefore_succ h.asked_pos, ← h.cap_eq]
  slots_eq := rfl
  fits := by
    have hfits := h.fits
    rw [h.slots_eq] at hfits
    change f.events.length ≤ f.cap * 2
    omega
  intact := h.intact

theorem CacheFill.Sound.store (h : f.Sound alloc) (hroom : f.events.length < f.slots)
    (ev : TraceEvent) : (f.store ev).Sound alloc where
  asked_pos := h.asked_pos
  granted := h.granted
  cap_eq := h.cap_eq
  slots_eq := h.slots_eq
  fits := by
    rw [CacheFill.store, List.length_append, List.length_singleton]
    exact hroom
  intact := by
    simp [CacheFill.store, h.intact, hroom]

/-- The records of a block that fit are stored. -/
theorem CacheFill.Sound.storeBlock (evs : List TraceEvent) (h : f.Sound alloc)
    (hgrants : Grants alloc (f.events.length + evs.length)) :
    (f.storeBlock alloc evs).Sound alloc ∧
      (f.storeBlock alloc evs).events = f.events ++ evs := by
  induction evs generalizing f with
  | nil => exact ⟨h, (List.append_nil _).symm⟩
  | cons ev evs ih =>
    have hsplit : f.events ++ ev :: evs = f.events ++ [ev] ++ evs := by simp
    have hnext : Grants alloc ((f.events ++ [ev]).length + evs.length) := by
      refine hgrants.mono (Nat.le_of_eq ?_)
      simp only [List.length_append, List.length_cons, List.length_nil]
      omega
    rw [CacheFill.storeBlock, hsplit]
    split_ifs with hfull halloc
    · have hg := h.grown halloc
      have hroom : f.grown.events.length < f.grown.slots := by
        have hfits := h.fits
        have hpos : 0 < f.cap := by
          rw [h.cap_eq]
          exact slotsBefore_strictMono h.asked_pos
        rw [h.slots_eq] at hfits
        change f.events.length < f.cap * 2
        omega
      exact ih (hg.store hroom ev) hnext
    · have hneed : slotsBefore f.asked < f.events.length + (ev :: evs).length := by
        rw [← h.cap_eq, List.length_cons]
        omega
      exact absurd (hgrants _ hneed) halloc
    · have hroom : f.events.length < f.slots := by
        rw [h.slots_eq]
        exact Nat.not_le.1 hfull
      exact ih (h.store hroom ev) hnext

/-- A block that does not fit leaves the array stuck and short. -/
theorem CacheFill.Sound.storeBlock_stuck (evs : List TraceEvent) (h : f.Sound alloc)
    (hgrants : ¬Grants alloc (f.events.length + evs.length)) :
    (f.storeBlock alloc evs).Stuck ∧
      (f.storeBlock alloc evs).events.length < f.events.length + evs.length := by
  induction evs generalizing f with
  | nil => exact absurd h.grants hgrants
  | cons ev evs ih =>
    have hnext : ¬Grants alloc ((f.events ++ [ev]).length + evs.length) := by
      refine fun hg => hgrants (hg.mono (Nat.le_of_eq ?_))
      simp only [List.length_append, List.length_cons, List.length_nil]
      omega
    have hlen : (f.events ++ [ev]).length + evs.length = f.events.length + (ev :: evs).length := by
      simp only [List.length_append, List.length_cons, List.length_nil]
      omega
    have hpos : 0 < f.cap := by
      rw [h.cap_eq]
      exact slotsBefore_strictMono h.asked_pos
    have hfits := h.fits
    rw [h.slots_eq] at hfits
    rw [CacheFill.storeBlock, ← hlen]
    split_ifs with hfull halloc
    · have hroom : f.grown.events.length < f.grown.slots := by
        change f.events.length < f.cap * 2
        omega
      exact ih ((h.grown halloc).store hroom ev) hnext
    · refine ⟨⟨?_, ?_, h.intact⟩, ?_⟩
      · change f.events.length < f.cap * 2
        omega
      · change f.slots ≤ f.events.length
        rw [h.slots_eq]
        exact hfull
      · rw [hlen]
        exact Nat.lt_add_of_pos_right (Nat.succ_pos _)
    · have hroom : f.events.length < f.slots := by
        rw [h.slots_eq]
        exact Nat.not_le.1 hfull
      exact ih (h.store hroom ev) hnext

theorem CacheFill.overrun_storeBlock (evs : List TraceEvent) (h : f.overrun = true) :
    (f.storeBlock alloc evs).overrun = true := by
  induction evs generalizing f with
  | nil => exact h
  | cons ev evs ih =>
    rw [CacheFill.storeBlock]
    split_ifs
    · exact ih (by simp [CacheFill.store, CacheFill.grown, h])
    · exact h
    · exact ih (by simp [CacheFill.store, h])

theorem CacheFill.Stuck.storeBlock_cons (alloc : ℕ → Bool) (h : f.Stuck) (ev : TraceEvent)
    (evs : List TraceEvent) : (f.storeBlock alloc (ev :: evs)).overrun = true := by
  rw [CacheFill.storeBlock, if_neg (Nat.not_le.2 h.room)]
  exact overrun_storeBlock evs (by simp [CacheFill.store, h.full])

/-! ### The whole file -/

theorem CacheFill.block_eq (alloc : ℕ → Bool) (f : CacheFill) (b : ReaderBlock) :
    f.block alloc b = if b.decodes then f.storeBlock alloc b.cached
      else { f with unreadable := f.unreadable + 1 } := by
  rw [CacheFill.block, ReaderBlock.decodes, ReaderBlock.cached]
  cases b.content <;> rfl

theorem ReaderBlock.cached_of_not_decodes {b : ReaderBlock} (h : b.decodes = false) :
    b.cached = [] := by
  rw [ReaderBlock.cached]
  rw [ReaderBlock.decodes] at h
  cases hc : b.content <;> simp_all

theorem CacheFill.overrun_blocks (alloc : ℕ → Bool) (blocks : List ReaderBlock)
    (h : f.overrun = true) : (blocks.foldl (CacheFill.block alloc) f).overrun = true := by
  induction blocks generalizing f with
  | nil => exact h
  | cons b bs ih =>
    refine ih ?_
    rw [CacheFill.block_eq]
    split_ifs
    · exact overrun_storeBlock _ h
    · exact h

theorem CacheFill.Stuck.blocks (alloc : ℕ → Bool) (blocks : List ReaderBlock) {f : CacheFill}
    (h : f.Stuck) :
    ((blocks.foldl (CacheFill.block alloc) f).overrun = false ↔ getCachedImmutable blocks = []) ∧
      (getCachedImmutable blocks = [] →
        (blocks.foldl (CacheFill.block alloc) f).events = f.events ∧
        (blocks.foldl (CacheFill.block alloc) f).slots = f.slots) := by
  induction blocks generalizing f with
  | nil => exact ⟨⟨fun _ => rfl, fun _ => h.intact⟩, fun _ => ⟨rfl, rfl⟩⟩
  | cons b bs ih =>
    rw [List.foldl_cons, getCachedImmutable_cons, CacheFill.block_eq]
    cases hd : b.decodes with
    | false =>
      rw [ReaderBlock.cached_of_not_decodes hd, List.nil_append]
      exact ih ⟨h.room, h.full, h.intact⟩
    | true =>
      rw [if_pos rfl]
      cases hc : b.cached with
      | nil =>
        rw [List.nil_append]
        exact ih h
      | cons ev evs =>
        have hover := overrun_blocks alloc bs (h.storeBlock_cons alloc ev evs)
        refine ⟨⟨fun hf => ?_, nofun⟩, nofun⟩
        rw [hover] at hf
        exact nomatch hf

theorem CacheFill.slots_storeBlock_pos (evs : List TraceEvent) (hcap : 0 < f.cap)
    (hslots : 0 < f.slots) :
    0 < (f.storeBlock alloc evs).cap ∧ 0 < (f.storeBlock alloc evs).slots := by
  have htwice : 0 < f.cap * 2 := Nat.mul_pos hcap Nat.two_pos
  induction evs generalizing f with
  | nil => exact ⟨hcap, hslots⟩
  | cons ev evs ih =>
    rw [CacheFill.storeBlock]
    split_ifs
    · exact ih htwice htwice (Nat.mul_pos htwice Nat.two_pos)
    · exact ⟨htwice, hslots⟩
    · exact ih hcap hslots htwice

theorem CacheFill.slots_blocks_pos (blocks : List ReaderBlock) (hcap : 0 < f.cap)
    (hslots : 0 < f.slots) : 0 < (blocks.foldl (CacheFill.block alloc) f).slots := by
  induction blocks generalizing f with
  | nil => exact hslots
  | cons b bs ih =>
    rw [List.foldl_cons, CacheFill.block_eq]
    split_ifs
    · obtain ⟨hc, hs⟩ := slots_storeBlock_pos b.cached hcap hslots
      exact ih hc hs
    · exact ih hcap hslots

/-- The fill from a sound array: when it is overrun, and what it holds if it is not. -/
theorem CacheFill.Sound.blocks {alloc : ℕ → Bool} (blocks : List ReaderBlock) {f : CacheFill}
    (h : f.Sound alloc) :
    ((blocks.foldl (CacheFill.block alloc) f).overrun = false ↔
        Grants alloc (f.events.length + leadRecords blocks)) ∧
      (Grants alloc (f.events.length + leadRecords blocks) →
        ((blocks.foldl (CacheFill.block alloc) f).events = f.events ++ getCachedImmutable blocks ↔
          Grants alloc (f.events.length + (getCachedImmutable blocks).length))) := by
  induction blocks generalizing f with
  | nil =>
    have hnil : getCachedImmutable [] = [] := rfl
    simp [leadRecords, h.grants, h.intact, hnil]
  | cons b bs ih =>
    have hlead : getCachedImmutable bs = [] → leadRecords bs = 0 := leadRecords_of_nil
    rw [List.foldl_cons, CacheFill.block_eq, getCachedImmutable_cons, leadRecords]
    cases hd : b.decodes with
    | false =>
      simp only [Bool.false_eq_true, if_false, ReaderBlock.cached_of_not_decodes hd,
        List.nil_append, List.length_nil, Nat.zero_add]
      have hsame := ih (f := { f with unreadable := f.unreadable + 1 })
        ⟨h.asked_pos, h.granted, h.cap_eq, h.slots_eq, h.fits, h.intact⟩
      split_ifs with hnil
      · rwa [hlead hnil] at hsame
      · exact hsame
    | true =>
      rw [if_pos rfl]
      by_cases hgrants : Grants alloc (f.events.length + b.cached.length)
      · obtain ⟨hsound, hevents⟩ := h.storeBlock b.cached hgrants
        have hrest := ih hsound
        rw [hevents, List.append_assoc, List.length_append] at hrest
        rw [List.length_append, ← Nat.add_assoc]
        split_ifs with hnil
        · rw [hlead hnil, Nat.add_zero] at hrest
          have hall : Grants alloc (f.events.length + 0) := h.grants
          exact ⟨⟨fun _ => hall, fun _ => hrest.1.2 hgrants⟩, fun _ => hrest.2 hgrants⟩
        · rwa [← Nat.add_assoc]
      · obtain ⟨hstuck, hshort⟩ := h.storeBlock_stuck b.cached hgrants
        have hrest := hstuck.blocks alloc bs
        split_ifs with hnil
        · have hall : Grants alloc (f.events.length + 0) := h.grants
          refine ⟨⟨fun _ => hall, fun _ => hrest.1.2 hnil⟩, fun _ => ?_⟩
          rw [(hrest.2 hnil).1, hnil, List.append_nil]
          refine ⟨fun heq => ?_, fun hg => absurd hg hgrants⟩
          rw [heq, List.length_append] at hshort
          exact absurd hshort (Nat.lt_irrefl _)
        · have hnot : ¬Grants alloc (f.events.length + (b.cached.length + leadRecords bs)) :=
            fun hg => hgrants (hg.mono (by omega))
          exact ⟨⟨fun hf => absurd (hrest.1.1 hf) hnil, fun hg => absurd hg hnot⟩,
            fun hg => absurd hg hnot⟩

section Fill

variable {alloc : ℕ → Bool} {blocks : List ReaderBlock}

theorem sound_initial (h : alloc 0 = true) : (CacheFill.initial alloc).Sound alloc where
  asked_pos := Nat.one_pos
  granted := by
    intro k hk
    obtain rfl : k = 0 := Nat.lt_one_iff.1 hk
    exact h
  cap_eq := rfl
  slots_eq := if_pos h
  fits := Nat.zero_le _
  intact := rfl

theorem stuck_initial (h : alloc 0 = false) : (CacheFill.initial alloc).Stuck where
  room := by simp [CacheFill.initial]
  full := by simp [CacheFill.initial, h]
  intact := rfl

theorem overrun_fillCache (alloc : ℕ → Bool) (blocks : List ReaderBlock) :
    (fillCache alloc blocks).overrun = false ↔
      Grants alloc (leadRecords blocks) ∧ (alloc 0 = true ∨ getCachedImmutable blocks = []) := by
  cases h0 : alloc 0 with
  | true =>
    have hrun := ((sound_initial h0).blocks blocks).1
    simp only [CacheFill.initial, List.length_nil, Nat.zero_add] at hrun
    rw [and_iff_left (Or.inl rfl)]
    exact hrun
  | false =>
    have hrun := (stuck_initial h0).blocks alloc blocks
    rw [fillCache, hrun.1]
    constructor
    · intro hnil
      rw [leadRecords_of_nil hnil]
      exact ⟨grants_zero alloc, .inr hnil⟩
    · rintro ⟨-, hfalse | hnil⟩
      · exact nomatch hfalse
      · exact hnil

theorem events_fillCache (h0 : alloc 0 = true) (hlead : Grants alloc (leadRecords blocks)) :
    (fillCache alloc blocks).events = getCachedImmutable blocks ↔
      Grants alloc (getCachedImmutable blocks).length := by
  have hrun := (sound_initial h0).blocks blocks
  simp only [CacheFill.initial, List.length_nil, Nat.zero_add, List.nil_append] at hrun
  exact hrun.2 hlead

theorem unreadable_storeBlock (evs : List TraceEvent) (f : CacheFill) :
    (f.storeBlock alloc evs).unreadable = f.unreadable := by
  induction evs generalizing f with
  | nil => rfl
  | cons ev evs ih =>
    rw [CacheFill.storeBlock]
    split_ifs
    · rw [ih]
      rfl
    · rfl
    · rw [ih]
      rfl

theorem unreadable_fillCache (alloc : ℕ → Bool) (blocks : List ReaderBlock) :
    (fillCache alloc blocks).unreadable = blocks.countP (!·.decodes) := by
  have hrun : ∀ f : CacheFill, (blocks.foldl (CacheFill.block alloc) f).unreadable =
      f.unreadable + blocks.countP (!·.decodes) := by
    induction blocks with
    | nil => exact fun f => rfl
    | cons b bs ih =>
      intro f
      rw [List.foldl_cons, ih, CacheFill.block_eq, List.countP_cons]
      cases b.decodes with
      | false =>
        simp only [Bool.false_eq_true, if_false, Bool.not_false, if_true]
        omega
      | true => simp [unreadable_storeBlock]
  rw [fillCache, hrun]
  exact Nat.zero_add _

theorem badBlocks_loadCached (limit : Option ℕ) (rg : LoadRange) (events : List TraceEvent)
    (st : LoadState) : (loadCached limit rg st events).badBlocks = st.badBlocks := by
  induction events generalizing st with
  | nil => rfl
  | cons ev events ih =>
    rw [loadCached]
    by_cases hfrom : ev.ts < rg.fromM
    · rw [if_pos hfrom, ih]
    by_cases hscan : rg.scanTo < ev.ts
    · rw [if_neg hfrom, if_pos hscan]
    rw [if_neg hfrom, if_neg hscan]
    cases rg.admitCached ev with
    | skip => exact ih st
    | cut => exact ih _
    | take rightOpen =>
      dsimp only
      split_ifs
      · rfl
      · exact ih _

theorem load_reports_iff (alloc : ℕ → Bool) (blocks : List ReaderBlock) :
    (∀ limit rg st, 0 < ((fillCache alloc blocks).load limit rg st).badBlocks) ↔
      ∃ b ∈ blocks, b.decodes = false := by
  have hcount : 0 < (fillCache alloc blocks).unreadable ↔ ∃ b ∈ blocks, b.decodes = false := by
    simp [unreadable_fillCache, List.countP_pos_iff]
  rw [← hcount]
  constructor
  · intro hall
    have hone := hall none windowTenToThirty {}
    rwa [CacheFill.load, badBlocks_loadCached, Nat.zero_add] at hone
  · intro hpos limit rg st
    rw [CacheFill.load, badBlocks_loadCached]
    exact Nat.add_pos_right _ hpos

end Fill

/-- **Cached files.** A cached file is complete or refused exactly when all allocations that its
records need succeed, or when only a reallocation in the last block with records fails and some
block of the file does not decode. -/
theorem fillCache_completeOrRefused_iff (alloc : ℕ → Bool) (blocks : List ReaderBlock) :
    CompleteOrRefused alloc blocks ↔
      Grants alloc (getCachedImmutable blocks).length ∨
        (alloc 0 = true ∧ Grants alloc (leadRecords blocks) ∧ ∃ b ∈ blocks, b.decodes = false) := by
  rw [CompleteOrRefused, overrun_fillCache, load_reports_iff]
  cases h0 : alloc 0 with
  | true =>
    have hslots : (fillCache alloc blocks).slots ≠ 0 := by
      refine Nat.ne_of_gt (CacheFill.slots_blocks_pos blocks ?_ ?_)
      · simp [CacheFill.initial]
      · simp [CacheFill.initial, h0]
    constructor
    · rintro ⟨⟨hlead, -⟩, hused⟩
      rcases hused hslots with hall | hbad
      · exact .inl ((events_fillCache h0 hlead).1 hall)
      · exact .inr ⟨rfl, hlead, hbad⟩
    · rintro (hall | ⟨-, hlead, hbad⟩)
      · have hlead := hall.mono (leadRecords_le blocks)
        exact ⟨⟨hlead, .inl rfl⟩, fun _ => .inl ((events_fillCache h0 hlead).2 hall)⟩
      · exact ⟨⟨hlead, .inl rfl⟩, fun _ => .inr hbad⟩
  | false =>
    have hstuck := (stuck_initial h0).blocks alloc blocks
    constructor
    · rintro ⟨⟨-, hfalse | hnil⟩, -⟩
      · exact nomatch hfalse
      · rw [hnil]
        exact .inl (grants_zero alloc)
    · rintro (hall | ⟨hfalse, -⟩)
      · have hnil : getCachedImmutable blocks = [] := by
          refine List.length_eq_zero_iff.1 (Nat.eq_zero_of_not_pos fun hpos => ?_)
          exact Bool.false_ne_true (h0.symm.trans (hall 0 hpos))
        have hslots : (fillCache alloc blocks).slots = 0 := by
          rw [fillCache, (hstuck.2 hnil).2]
          simp [CacheFill.initial, h0]
        rw [leadRecords_of_nil hnil]
        exact ⟨⟨grants_zero alloc, .inr hnil⟩, fun hused => absurd hslots hused⟩
      · exact nomatch hfalse

/-- A full block of transitions. -/
def fullBlock : ReaderBlock := transitionsClosing (List.replicate 4096 5) 5 5

theorem length_cached_transitionsClosing (times : List ℕ) (firstNs lastNs : UInt64) :
    (transitionsClosing times firstNs lastNs).cached.length = times.length := by
  simp only [ReaderBlock.cached, transitionsClosing, List.length_map]

/-- With six full blocks and every reallocation failing, the sixth block is stored past the end of
the array. -/
theorem fillCache_overruns :
    ¬ CompleteOrRefused (· = 0) [fullBlock, fullBlock, fullBlock, fullBlock, fullBlock,
      fullBlock] := by
  rintro ⟨hover, -⟩
  have hlen : fullBlock.cached.length = 4096 := by
    rw [fullBlock, length_cached_transitionsClosing, List.length_replicate]
  have hne : fullBlock.cached ≠ [] := fun hnil => by simp [hnil] at hlen
  have hlead : leadRecords [fullBlock, fullBlock, fullBlock, fullBlock, fullBlock, fullBlock] =
      20480 := by
    have hnil : getCachedImmutable [] = [] := rfl
    simp [leadRecords, getCachedImmutable_cons, hne, hlen, hnil]
  have hsecond := ((overrun_fillCache _ _).1 hover).1 1 (by rw [hlead]; decide)
  exact absurd hsecond (by decide)

end PgWaitTracer
