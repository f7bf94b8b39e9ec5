import PgWaitTracer.Server.LoadRange

/-!
# The block cache of the current trace

`current.trace` grows while it is read. `cur_trace_cache` (`src/server.c`) keeps the decoded records
of a contiguous run of its committed blocks between requests. `load_file_range_mono` serves a block
from the run if it is there, and else decodes it and offers it to the run. Before a load the cache is
compared with the file: it is dropped if the file is another one.

The cache may refuse a block, start over or fail to grow at any time. What other caches hold, the
budgets and the failures are given for each offer by a `StoreEnv`.

## Main results

* `loadCurrent_spec` : one load is as without a cache, and leaves it exact.
* `curRun_transparent` : so is every load of every sequence.
-/

namespace PgWaitTracer

/-! ### The cache -/

/-- `current.trace` as the reader of a load finds it. -/
structure CurrentTrace where
  startTimeNs : UInt64
  clockOffsetNs : UInt64
  blocks : List ReaderBlock

/-- `struct cur_cache_block`. -/
structure CurCacheBlock where
  start : ℕ
  count : ℕ
  indexTs : ℕ
  fileOffset : ℕ
  samplePeriodNs : UInt64
  lastTs : ℕ
  isSample : Bool
  deriving DecidableEq, Repr

/-- `struct cur_trace_cache`. The run is from `loBlock` on, one descriptor for each block. -/
structure CurCache where
  hdrStartWallNs : UInt64 := 0
  hdrClockOffsetNs : UInt64 := 0
  loBlock : ℕ := 0
  blk : List CurCacheBlock := []
  events : List TraceEvent := []
  deriving DecidableEq, Repr

/-- `cur_cache_restart_at`: an empty run of the file. -/
def curCacheRestartAt (f : CurrentTrace) (b : ℕ) : CurCache where
  hdrStartWallNs := f.startTimeNs
  hdrClockOffsetNs := f.clockOffsetNs
  loBlock := b

/-- The descriptors still agree with the block index of the reader. -/
def CurCache.agrees (cc : CurCache) (f : CurrentTrace) : Bool :=
  cc.blk.zipIdx.all fun c => f.blocks[cc.loBlock + c.2]?.any fun b =>
    b.indexTs = c.1.indexTs && b.fileOffset = c.1.fileOffset

/-- `cur_cache_sync`. A cache that cannot prove what it holds is dropped. -/
def curCacheSync (cc : CurCache) (f : CurrentTrace) : CurCache :=
  if cc.blk = [] then
    { cc with
      hdrStartWallNs := f.startTimeNs
      hdrClockOffsetNs := f.clockOffsetNs
      loBlock := 0 }
  else if cc.hdrStartWallNs ≠ f.startTimeNs || cc.hdrClockOffsetNs ≠ f.clockOffsetNs ||
      f.blocks.length < cc.loBlock + cc.blk.length then curCacheRestartAt f 0
  else if !cc.agrees f then curCacheRestartAt f 0
  else cc

/-- `cur_cache_get`. -/
def CurCache.get (cc : CurCache) (b : ℕ) : Option CurCacheBlock :=
  if b < cc.loBlock ∨ cc.loBlock + cc.blk.length ≤ b then none else cc.blk[b - cc.loBlock]?

/-- The circumstances of an offer: the records in the other caches, the shared and the own budget,
and whether the arrays can grow. -/
structure StoreEnv where
  otherEvents : ℕ
  cacheMaxEvents : ℕ
  curCacheMaxEvents : ℕ
  blkGrowFails : Bool
  eventsGrowFails : Bool

/-- The records of a block at the end of the run. -/
def CurCache.append (cc : CurCache) (block : ReaderBlock) (info : BlockMeta)
    (records : List TraceEvent) : CurCache :=
  { cc with
    blk := cc.blk ++ [{
      start := cc.events.length
      count := records.length
      indexTs := block.indexTs
      fileOffset := block.fileOffset
      samplePeriodNs := info.samplePeriodNs
      lastTs := info.lastNs
      isSample := info.isSample }]
    events := cc.events ++ records }

/-- `cur_cache_store` from the allocations on. -/
def CurCache.extend (cc : CurCache) (env : StoreEnv) (b : ℕ) (block : ReaderBlock)
    (info : BlockMeta) (records : List TraceEvent) : CurCache :=
  let cc := if cc.blk = [] then { cc with loBlock := b } else cc
  if env.blkGrowFails || env.eventsGrowFails then cc
  else cc.append block info records

/-- `cur_cache_store`. A block below the run is declined, a gap or a full budget starts the run over
at the block. -/
def curCacheStore (cc : CurCache) (env : StoreEnv) (f : CurrentTrace) (b : ℕ)
    (block : ReaderBlock) (info : BlockMeta) (records : List TraceEvent) : CurCache :=
  if cc.blk ≠ [] ∧ b ≠ cc.loBlock + cc.blk.length ∧ b < cc.loBlock then cc
  else
    let cc :=
      if cc.blk ≠ [] ∧ b ≠ cc.loBlock + cc.blk.length then curCacheRestartAt f b else cc
    if env.cacheMaxEvents < env.otherEvents + cc.events.length + records.length ∨
        env.curCacheMaxEvents < cc.events.length + records.length then
      if env.cacheMaxEvents < records.length ∨ env.curCacheMaxEvents < records.length then
        curCacheRestartAt f b
      else (curCacheRestartAt f b).extend env b block info records
    else cc.extend env b block info records

/-! ### The block loop -/

/-- The header as far as the descriptor has it. -/
def CurCacheBlock.info (cb : CurCacheBlock) : BlockMeta :=
  ⟨cb.isSample, cb.samplePeriodNs, cb.indexTs, cb.lastTs⟩

/-- The block is decoded, that is, neither ruled out by its header nor damaged. -/
def decodedBy (rg : LoadRange) (st : LoadState) (b : ReaderBlock) :
    Option (BlockMeta × List TraceEvent) :=
  match b.content with
  | .decoded info records =>
    if (considerBlock rg info (rg.candidate info) st).2 then some (info, records) else none
  | _ => none

/-- One block of the block loop with the cache. -/
def loadCurrentBlock (limit : Option ℕ) (rg : LoadRange) (env : ℕ → StoreEnv) (f : CurrentTrace)
    (s : LoadState × CurCache) (p : ReaderBlock × ℕ) : LoadState × CurCache :=
  if s.1.overloaded then s
  else
    match s.2.get p.2 with
    | some cb =>
      let r := considerBlock rg cb.info (!(rg.scanTo < cb.indexTs || cb.lastTs < rg.fromM)) s.1
      if r.2 then
        (((s.2.events.drop cb.start).take cb.count).foldl (loadRecord limit rg cb.info) r.1, s.2)
      else (r.1, s.2)
    | none =>
      (loadBlock limit rg s.1 p.1,
        match decodedBy rg s.1 p.1 with
        | some (info, records) => curCacheStore s.2 (env p.2) f p.2 p.1 info records
        | none => s.2)

/-- `load_file_range_mono` with the cache. -/
def loadCurrent (limit : Option ℕ) (rg : LoadRange) (env : ℕ → StoreEnv) (f : CurrentTrace)
    (st : LoadState) (cc : CurCache) : LoadState × CurCache :=
  f.blocks.zipIdx.foldl (loadCurrentBlock limit rg env f) (st, curCacheSync cc f)

/-! ### What the cache holds -/

/-- The blocks of the run. -/
def CurCache.run (cc : CurCache) (f : CurrentTrace) : List ReaderBlock :=
  (f.blocks.drop cc.loBlock).take cc.blk.length

/-- The descriptors of decoded blocks whose records start at `start`. -/
def describeRun (start : ℕ) : List ReaderBlock → List CurCacheBlock
  | [] => []
  | b :: bs =>
    match b.content with
    | .decoded info records =>
      { start := start, count := records.length, indexTs := b.indexTs, fileOffset := b.fileOffset
        samplePeriodNs := info.samplePeriodNs, lastTs := info.lastNs, isSample := info.isSample } ::
          describeRun (start + records.length) bs
    | _ => describeRun start bs

/-- The cache names the file, its run is a range of blocks of it, all of which decode, and it has
exactly their records. -/
structure CurCache.Exact (cc : CurCache) (f : CurrentTrace) : Prop where
  start_eq : cc.hdrStartWallNs = f.startTimeNs
  clock_eq : cc.hdrClockOffsetNs = f.clockOffsetNs
  range : cc.blk ≠ [] → cc.loBlock + cc.blk.length ≤ f.blocks.length
  decoded : ∀ b ∈ cc.run f, ∃ info records, b.content = .decoded info records
  blk_eq : cc.blk = describeRun 0 (cc.run f)
  events_eq : cc.events = (cc.run f).flatMap (·.content.records)

variable {info : BlockMeta} {cc : CurCache} {f : CurrentTrace} {records : List TraceEvent}

theorem run_eq_nil (h : cc.blk = []) (f : CurrentTrace) : cc.run f = [] := by
  rw [CurCache.run, h, List.length_nil, List.take_zero]

theorem exact_of_empty (hs : cc.hdrStartWallNs = f.startTimeNs)
    (hc : cc.hdrClockOffsetNs = f.clockOffsetNs) (hblk : cc.blk = []) (hev : cc.events = []) :
    cc.Exact f := by
  refine ⟨hs, hc, fun hne => absurd hblk hne, ?_, ?_, ?_⟩
  · rw [run_eq_nil hblk]
    exact nofun
  · rw [run_eq_nil hblk, hblk]
    rfl
  · rw [run_eq_nil hblk, hev]
    rfl

theorem restartAt_exact (f : CurrentTrace) (b : ℕ) : (curCacheRestartAt f b).Exact f :=
  exact_of_empty rfl rfl rfl rfl

theorem CurCache.Exact.events_eq_nil (h : cc.Exact f) (hblk : cc.blk = []) : cc.events = [] := by
  rw [h.events_eq, run_eq_nil hblk]
  rfl

/-- The blocks all decode. -/
def AllDecoded (bs : List ReaderBlock) : Prop :=
  ∀ b ∈ bs, ∃ info records, b.content = .decoded info records

theorem describeRun_append (start : ℕ) (xs ys : List ReaderBlock) :
    describeRun start (xs ++ ys) = describeRun start xs ++
      describeRun (start + (xs.flatMap (·.content.records)).length) ys := by
  induction xs generalizing start with
  | nil => simp [describeRun]
  | cons b xs ih =>
    rw [List.cons_append, describeRun, describeRun]
    cases hc : b.content with
    | unreadable => simp [ih, hc, BlockContent.records]
    | damaged info => simp [ih, hc, BlockContent.records]
    | decoded info records => simp [ih, hc, BlockContent.records, Nat.add_assoc]

theorem describeRun_getElem {bs : List ReaderBlock} (h : AllDecoded bs) {start i : ℕ}
    {cb : CurCacheBlock} (hcb : (describeRun start bs)[i]? = some cb) :
    ∃ b records, bs[i]? = some b ∧ b.content = .decoded cb.info records ∧
      ∀ pre : List TraceEvent, pre.length = start →
        ((pre ++ bs.flatMap (·.content.records)).drop cb.start).take cb.count = records := by
  induction bs generalizing start i with
  | nil => simp [describeRun] at hcb
  | cons b bs ih =>
    obtain ⟨⟨info, records, hc⟩, hbs⟩ := List.forall_mem_cons.1 h
    rw [describeRun, hc] at hcb
    have hrecords : b.content.records = records := by rw [hc]; rfl
    cases i with
    | zero =>
      simp only [List.getElem?_cons_zero, Option.some.injEq] at hcb
      subst hcb
      have hfirst : b.indexTs = info.firstNs := b.indexed info (by rw [hc]; rfl)
      refine ⟨b, records, rfl, ?_, fun pre hpre => ?_⟩
      · rw [hc, CurCacheBlock.info, hfirst]
      · simp only [List.flatMap_cons, hrecords]
        rw [← hpre, List.drop_left, List.take_left]
    | succ i =>
      simp only [List.getElem?_cons_succ] at hcb
      obtain ⟨b', records', hb', hc', hslice⟩ := ih hbs hcb
      refine ⟨b', records', by rw [List.getElem?_cons_succ, hb'], hc', fun pre hpre => ?_⟩
      have hlen : (pre ++ records).length = start + records.length := by
        rw [List.length_append, hpre]
      simpa [List.flatMap_cons, hrecords, List.append_assoc] using hslice (pre ++ records) hlen

theorem CurCache.Exact.get_eq_some (h : cc.Exact f) {b : ℕ} {cb : CurCacheBlock}
    (hget : cc.get b = some cb) :
    ∃ block records, f.blocks[b]? = some block ∧ block.content = .decoded cb.info records ∧
      (cc.events.drop cb.start).take cb.count = records := by
  rw [CurCache.get] at hget
  split_ifs at hget with hout
  push Not at hout
  rw [h.blk_eq] at hget
  obtain ⟨block, records, hblock, hc, hslice⟩ := describeRun_getElem h.decoded hget
  refine ⟨block, records, ?_, hc, ?_⟩
  · have hlt : b - cc.loBlock < cc.blk.length := by omega
    rw [CurCache.run, List.getElem?_take_of_lt hlt, List.getElem?_drop,
      Nat.add_sub_cancel' hout.1] at hblock
    exact hblock
  · rw [h.events_eq]
    exact hslice [] rfl

/-! ### The operations keep it exact -/

/-- A file that a load finds after another: the same capture with more blocks, or a file with another
header. -/
def CurrentTrace.Evolves (f g : CurrentTrace) : Prop :=
  (f.startTimeNs = g.startTimeNs ∧ f.clockOffsetNs = g.clockOffsetNs ∧ f.blocks <+: g.blocks) ∨
    f.startTimeNs ≠ g.startTimeNs ∨ f.clockOffsetNs ≠ g.clockOffsetNs

theorem sync_exact {g : CurrentTrace} (h : cc.Exact f) (hfg : f.Evolves g) :
    (curCacheSync cc g).Exact g := by
  rw [curCacheSync]
  by_cases hblk : cc.blk = []
  · rw [if_pos hblk]
    exact exact_of_empty rfl rfl hblk (h.events_eq_nil hblk)
  rw [if_neg hblk]
  split_ifs with hident hagrees
  · exact restartAt_exact g 0
  · exact restartAt_exact g 0
  · simp only [ne_eq, decide_not, Bool.or_eq_true, Bool.not_eq_eq_eq_not, Bool.not_true,
      decide_eq_false_iff_not, decide_eq_true_eq, not_or, not_not, Nat.not_lt] at hident
    obtain ⟨⟨hs, hc⟩, hlen⟩ := hident
    rcases hfg with ⟨-, -, rest, hrest⟩ | hs' | hc'
    · have hrun : cc.run g = cc.run f := by
        have hle := h.range hblk
        rw [CurCache.run, CurCache.run, ← hrest, List.drop_append_of_le_length (by omega),
          List.take_append_of_le_length]
        rw [List.length_drop]
        omega
      refine ⟨hs, hc, fun _ => hlen, ?_, ?_, ?_⟩
      · rw [hrun]
        exact h.decoded
      · rw [hrun]
        exact h.blk_eq
      · rw [hrun]
        exact h.events_eq
    · exact absurd (h.start_eq.symm.trans hs) hs'
    · exact absurd (h.clock_eq.symm.trans hc) hc'

theorem append_exact (h : cc.Exact f) {block : ReaderBlock}
    (hblock : f.blocks[cc.loBlock + cc.blk.length]? = some block)
    (hc : block.content = .decoded info records) : (cc.append block info records).Exact f := by
  obtain ⟨hlt, -⟩ := List.getElem?_eq_some_iff.1 hblock
  have hlen : (cc.append block info records).blk.length = cc.blk.length + 1 := by
    simp [CurCache.append]
  have hrun : (cc.append block info records).run f = cc.run f ++ [block] := by
    rw [CurCache.run, CurCache.run, hlen, List.take_add_one, List.getElem?_drop]
    change _ ++ (f.blocks[cc.loBlock + cc.blk.length]?).toList = _
    rw [hblock]
    rfl
  have hrecords : block.content.records = records := by rw [hc]; rfl
  refine ⟨h.start_eq, h.clock_eq, fun _ => ?_, ?_, ?_, ?_⟩
  · rw [hlen]
    exact hlt
  · rw [hrun]
    intro x hx
    rcases List.mem_append.1 hx with hx | hx
    · exact h.decoded x hx
    · obtain rfl := List.mem_singleton.1 hx
      exact ⟨info, records, hc⟩
  · rw [hrun, describeRun_append, ← h.blk_eq, ← h.events_eq, describeRun, hc, describeRun,
      Nat.zero_add]
    rfl
  · rw [hrun, List.flatMap_append, ← h.events_eq, List.flatMap_singleton, hrecords]
    rfl

theorem extend_exact (h : cc.Exact f) {env : StoreEnv} {b : ℕ} {block : ReaderBlock}
    (hblock : f.blocks[b]? = some block) (hc : block.content = .decoded info records)
    (hnext : cc.blk ≠ [] → b = cc.loBlock + cc.blk.length) :
    (cc.extend env b block info records).Exact f := by
  rw [CurCache.extend]
  by_cases hblk : cc.blk = []
  · rw [if_pos hblk]
    have hexact : CurCache.Exact { cc with loBlock := b } f :=
      exact_of_empty h.start_eq h.clock_eq hblk (h.events_eq_nil hblk)
    split_ifs
    · exact hexact
    · refine append_exact hexact ?_ hc
      simpa [hblk] using hblock
  · rw [if_neg hblk]
    split_ifs
    · exact h
    · exact append_exact h (hnext hblk ▸ hblock) hc

theorem store_exact (h : cc.Exact f) (env : StoreEnv) {b : ℕ} {block : ReaderBlock}
    (hblock : f.blocks[b]? = some block) (hc : block.content = .decoded info records) :
    (curCacheStore cc env f b block info records).Exact f := by
  have hrestart : ((curCacheRestartAt f b).extend env b block info records).Exact f :=
    extend_exact (restartAt_exact f b) hblock hc fun hne => absurd rfl hne
  rw [curCacheStore]
  by_cases hbelow : cc.blk ≠ [] ∧ b ≠ cc.loBlock + cc.blk.length ∧ b < cc.loBlock
  · rw [if_pos hbelow]
    exact h
  rw [if_neg hbelow]
  by_cases hgap : cc.blk ≠ [] ∧ b ≠ cc.loBlock + cc.blk.length
  · rw [if_pos hgap]
    dsimp only
    split_ifs
    · exact restartAt_exact f b
    · exact hrestart
    · exact hrestart
  · rw [if_neg hgap]
    dsimp only
    split_ifs
    · exact restartAt_exact f b
    · exact hrestart
    · refine extend_exact h hblock hc fun hne => ?_
      by_contra hb
      exact hgap ⟨hne, hb⟩

/-! ### Loads -/

theorem decodedBy_eq_some {rg : LoadRange} {st : LoadState} {b : ReaderBlock}
    (h : decodedBy rg st b = some (info, records)) : b.content = .decoded info records := by
  rw [decodedBy] at h
  cases hc : b.content with
  | unreadable => simp [hc] at h
  | damaged info' => simp [hc] at h
  | decoded info' records' =>
    simp only [hc, Option.ite_none_right_eq_some, Option.some.injEq, Prod.mk.injEq] at h
    rw [h.2.1, h.2.2]

theorem candidate_cached (rg : LoadRange) (info : BlockMeta) :
    (!(rg.scanTo < info.firstNs || info.lastNs < rg.fromM)) = rg.candidate info := by
  rw [Bool.eq_iff_iff, candidate_iff]
  simp only [Bool.not_eq_true', Bool.or_eq_false_iff, decide_eq_false_iff_not, Nat.not_lt]
  exact and_comm

/-- **One block.** With the cache it is loaded as without, and the cache stays exact. -/
theorem loadCurrentBlock_spec (limit : Option ℕ) (rg : LoadRange) (env : ℕ → StoreEnv)
    (h : cc.Exact f) (st : LoadState) {b : ReaderBlock} {i : ℕ} (hb : f.blocks[i]? = some b) :
    (loadCurrentBlock limit rg env f (st, cc) (b, i)).1 = loadBlock limit rg st b ∧
      (loadCurrentBlock limit rg env f (st, cc) (b, i)).2.Exact f := by
  rw [loadCurrentBlock]
  by_cases hst : st.overloaded = true
  · rw [if_pos hst, loadBlock, if_pos hst]
    exact ⟨rfl, h⟩
  rw [if_neg hst]
  cases hget : cc.get i with
  | some cb =>
    obtain ⟨block, records, hblock, hc, hslice⟩ := h.get_eq_some hget
    obtain rfl : b = block := Option.some.inj (hb.symm.trans hblock)
    have hcand : (!(rg.scanTo < cb.indexTs || cb.lastTs < rg.fromM)) = rg.candidate cb.info :=
      candidate_cached rg cb.info
    simp only [hcand, hslice]
    rw [loadBlock, if_neg hst, hc]
    dsimp only
    split_ifs
    · exact ⟨rfl, h⟩
    · exact ⟨rfl, h⟩
  | none =>
    refine ⟨rfl, ?_⟩
    dsimp only
    cases hdec : decodedBy rg st b with
    | none => exact h
    | some r => exact store_exact h _ hb (decodedBy_eq_some hdec)

theorem foldl_loadCurrentBlock (limit : Option ℕ) (rg : LoadRange) (env : ℕ → StoreEnv)
    {bs : List ReaderBlock} {k : ℕ} (hbs : ∀ p ∈ bs.zipIdx k, f.blocks[p.2]? = some p.1)
    (h : cc.Exact f) (st : LoadState) :
    ((bs.zipIdx k).foldl (loadCurrentBlock limit rg env f) (st, cc)).1 =
        bs.foldl (loadBlock limit rg) st ∧
      ((bs.zipIdx k).foldl (loadCurrentBlock limit rg env f) (st, cc)).2.Exact f := by
  induction bs generalizing k st cc with
  | nil => exact ⟨rfl, h⟩
  | cons b bs ih =>
    rw [List.zipIdx_cons] at hbs ⊢
    obtain ⟨hb, hrest⟩ := List.forall_mem_cons.1 hbs
    obtain ⟨hstep, hexact⟩ := loadCurrentBlock_spec limit rg env h st hb
    rw [List.foldl_cons, List.foldl_cons, ← hstep]
    exact ih hrest hexact _

/-- **One load.** -/
theorem loadCurrent_spec (limit : Option ℕ) (rg : LoadRange) (env : ℕ → StoreEnv)
    (h : (curCacheSync cc f).Exact f) (st : LoadState) :
    (loadCurrent limit rg env f st cc).1 = loadFileRange limit rg st f.blocks ∧
      (loadCurrent limit rg env f st cc).2.Exact f := by
  refine foldl_loadCurrentBlock limit rg env (fun p hp => ?_) h st
  exact List.mem_zipIdx_iff_getElem?.1 hp

/-! ### Sequences of loads -/

/-- A load of the current trace, from the state that the files before it left. -/
structure CurLoad where
  file : CurrentTrace
  limit : Option ℕ
  rg : LoadRange
  env : ℕ → StoreEnv
  st : LoadState

/-- What happens to the cache: a load, or a request that finds no current trace and drops it. -/
inductive CurEvent
  | load (l : CurLoad)
  | gone

/-- The cache after the event, and what the load has. -/
def curStep (cc : CurCache) : CurEvent → CurCache × Option LoadState
  | .load l =>
    let r := loadCurrent l.limit l.rg l.env l.file l.st cc
    (r.2, some r.1)
  | .gone => (if cc.blk = [] then cc else {}, none)

/-- The cache after a sequence of events, and what its loads have. -/
def curRun (cc : CurCache) : List CurEvent → CurCache × List (Option LoadState)
  | [] => (cc, [])
  | e :: es =>
    let r := curStep cc e
    let rest := curRun r.1 es
    (rest.1, r.2 :: rest.2)

/-- The same without a cache. -/
def CurEvent.uncached : CurEvent → Option LoadState
  | .load l => some (loadFileRange l.limit l.rg l.st l.file.blocks)
  | .gone => none

/-- The file of the last load, if it is still there. -/
def lastFile (f : Option CurrentTrace) : List CurEvent → Option CurrentTrace
  | [] => f
  | .load l :: es => lastFile (some l.file) es
  | .gone :: es => lastFile none es

/-- From one load to the next the file grows or gets another header. -/
def Evolving (f : Option CurrentTrace) : List CurEvent → Prop
  | [] => True
  | .load l :: es => (∀ g ∈ f, CurrentTrace.Evolves g l.file) ∧ Evolving (some l.file) es
  | .gone :: es => Evolving none es

/-- The cache holds a run of the file that it names, or nothing. -/
def CurCache.Names (cc : CurCache) : Option CurrentTrace → Prop
  | some f => cc.Exact f
  | none => cc.blk = [] ∧ cc.events = []

theorem curRun_spec {f : Option CurrentTrace} (hcc : cc.Names f) {es : List CurEvent}
    (hes : Evolving f es) :
    (curRun cc es).2 = es.map CurEvent.uncached ∧ (curRun cc es).1.Names (lastFile f es) := by
  induction es generalizing f cc with
  | nil => exact ⟨rfl, hcc⟩
  | cons e es ih =>
    rw [curRun, List.map_cons]
    cases e with
    | load l =>
      obtain ⟨hevolves, hrest⟩ := hes
      have hsync : (curCacheSync cc l.file).Exact l.file := by
        cases f with
        | some g => exact sync_exact hcc (hevolves g rfl)
        | none =>
          rw [curCacheSync, if_pos hcc.1]
          exact exact_of_empty rfl rfl hcc.1 hcc.2
      obtain ⟨hload, hexact⟩ := loadCurrent_spec l.limit l.rg l.env hsync l.st
      obtain ⟨hmap, hnames⟩ := ih (f := some l.file) hexact hrest
      refine ⟨?_, hnames⟩
      rw [← hmap, CurEvent.uncached, ← hload]
      rfl
    | gone =>
      have hempty : CurCache.Names (curStep cc .gone).1 none := by
        rw [curStep]
        by_cases hblk : cc.blk = []
        · rw [if_pos hblk]
          refine ⟨hblk, ?_⟩
          cases f with
          | some g => exact CurCache.Exact.events_eq_nil hcc hblk
          | none => exact hcc.2
        · rw [if_neg hblk]
          exact ⟨rfl, rfl⟩
      obtain ⟨hmap, hnames⟩ := ih (f := none) hempty hes
      exact ⟨congrArg _ hmap, hnames⟩

theorem Evolving.take {f : Option CurrentTrace} {es : List CurEvent} (h : Evolving f es) (n : ℕ) :
    Evolving f (es.take n) := by
  induction es generalizing f n with
  | nil => simpa using h
  | cons e es ih =>
    cases n with
    | zero => trivial
    | succ n =>
      cases e with
      | load l => exact ⟨h.1, ih h.2 n⟩
      | gone => exact ih (f := none) h n

/-- **The cache is transparent.** In every sequence of loads over a file that grows or is replaced,
under any budgets and failures, each load has what it would have without a cache, and after every
step the cache holds exactly the records of a run of blocks of the file that it names. -/
theorem curRun_transparent {es : List CurEvent} (hes : Evolving none es) :
    (curRun {} es).2 = es.map CurEvent.uncached ∧
      ∀ n, (curRun {} (es.take n)).1.Names (lastFile none (es.take n)) := by
  have hempty : CurCache.Names {} none := ⟨rfl, rfl⟩
  exact ⟨(curRun_spec hempty hes).1, fun n => (curRun_spec hempty (hes.take n)).2⟩

/-- Loads of a capture of one block, of the same capture with a second one, and of the capture after
a restart. -/
def growThenRestart : List CurEvent :=
  let first := transitionsClosing [20, 15] 15 20
  let second := transitionsClosing [25] 25 25
  let env : ℕ → StoreEnv := fun _ => ⟨0, 1000, 1000, false, false⟩
  [.load ⟨⟨1, 1, [first]⟩, none, windowTenToThirty, env, {}⟩,
    .load ⟨⟨1, 1, [first, second]⟩, none, windowTenToThirty, env, {}⟩,
    .load ⟨⟨2, 2, [second]⟩, none, windowTenToThirty, env, {}⟩]

/-- The second load is served the first block, and the third one nothing. -/
theorem curRun_transparent_growThenRestart :
    (curRun {} (growThenRestart.take 2)).1.blk.length = 2 ∧
      (curRun {} growThenRestart).1.blk.length = 1 ∧
      (curRun {} growThenRestart).2 = growThenRestart.map CurEvent.uncached := by
  have hes : Evolving none growThenRestart := by
    refine ⟨nofun, ?_, ?_, trivial⟩
    · rintro g ⟨⟩
      exact .inl ⟨rfl, rfl, List.prefix_append [_] [_]⟩
    · rintro g ⟨⟩
      exact .inr (.inl (by decide))
  exact ⟨by decide, by decide, (curRun_transparent hes).1⟩

end PgWaitTracer
