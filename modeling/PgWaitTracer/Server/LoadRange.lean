import PgWaitTracer.Trace.BlockCodec

/-!
# Loading a range of a trace file

`load_file_range_mono` (`src/server.c`) loads the records of a file for a window on the file's
monotonic clock. Blocks lie in the file in the order in which they were committed and records in a
block in the order in which they arrived, and neither is the order of time. So every block is judged
by its header alone, and every record of a block that may matter by itself. A record that closes past
the right edge is admitted when it was already running at the edge, as far as the lookahead goes.

A reader has for each block an index entry, the header, and the records if the block decodes
(`ReaderBlock`). Times are natural numbers. The working array can grow; `limit` is the number of
records after which a load gives up.

## Main results

* `decodeBlockInfo_shape` : what the decode gives has the shape that a `ReaderBlock` asks for.
* `loadFileRange_holds` : a load within its budget has the admitted records of the whole file.
-/

namespace PgWaitTracer

/-! ### Blocks -/

/-- `struct pgwt_block_info`, with the block type as far as it matters here. -/
structure BlockMeta where
  isSample : Bool
  samplePeriodNs : UInt64
  firstNs : ℕ
  lastNs : ℕ
  deriving DecidableEq, Repr

/-- The flags of a decoded record: samples are flagged and have no event before them, the flags of
transitions are cleared. -/
def DecodedAs (isSample : Bool) (ev : TraceEvent) : Prop :=
  if isSample then ev.flags = flagSample ∧ ev.oldEvent = 0 ∧ ev.durationNs = 0 else ev.flags = 0

instance (isSample : Bool) (ev : TraceEvent) : Decidable (DecodedAs isSample ev) := by
  unfold DecodedAs
  infer_instance

/-- What can be read of a block: not even its header, only its header, or its records. -/
inductive BlockContent
  | unreadable
  | damaged (info : BlockMeta)
  | decoded (info : BlockMeta) (records : List TraceEvent)
  deriving DecidableEq, Repr

/-- The header, if it can be read (`pgwt_reader_block_info`). -/
def BlockContent.header : BlockContent → Option BlockMeta
  | unreadable => none
  | damaged info => some info
  | decoded info _ => some info

/-- The decoded records, none of a block that does not decode. -/
def BlockContent.records : BlockContent → List TraceEvent
  | decoded _ records => records
  | _ => []

/-- `UINT64_MAX`, the largest time. -/
def clockMax : ℕ := 18446744073709551615

/-- A block as a reader has it. The index entry has the first timestamp of the header. -/
structure ReaderBlock where
  indexTs : ℕ
  fileOffset : ℕ
  content : BlockContent
  indexTs_le : indexTs ≤ clockMax
  indexed : ∀ info ∈ content.header, indexTs = info.firstNs
  shape : ∀ info ∈ content.header, ∀ ev ∈ content.records, DecodedAs info.isSample ev

/-- The header bounds the records. -/
def BlockContent.Bounded (c : BlockContent) : Prop :=
  ∀ info ∈ c.header, ∀ ev ∈ c.records, info.firstNs ≤ ev.ts ∧ ev.ts ≤ info.lastNs

theorem toNat_le_clockMax (t : UInt64) : t.toNat ≤ clockMax := Nat.le_of_lt_succ t.toNat_lt

/-- A block of transitions of one pid that closed at the given times, each a nanosecond long. -/
def transitionsClosing (times : List ℕ) (firstNs lastNs : UInt64) : ReaderBlock where
  indexTs := firstNs.toNat
  fileOffset := 64
  content := .decoded ⟨false, 0, firstNs.toNat, lastNs.toNat⟩ (times.map fun t =>
    { timestampNs := .ofNat t, pid := 7, oldEvent := 0x0A000001, newEvent := 0, durationNs := 1
      queryId := 0, cpuNs := 0, flags := 0 })
  indexTs_le := toNat_le_clockMax firstNs
  indexed := by
    rintro info ⟨⟩
    rfl
  shape := by
    rintro info ⟨⟩ ev hev
    obtain ⟨t, -, rfl⟩ := List.mem_map.1 hev
    rfl

/-! ### The request -/

/-- `struct straddle_scan`: whether the caller asked for a bounded right edge, and how far past it
to look, in time and in blocks. -/
structure StraddleScan where
  enabled : Bool
  lookaheadNs : ℕ
  maxBlocks : ℕ
  deriving DecidableEq, Repr

/-- The arguments of a load, in the clock of the file. Windows that end before that clock starts are
not loaded. -/
structure LoadRange where
  fromM : ℕ
  toM : ℕ
  sampleTo : ℕ
  rightBounded : Bool
  pid : UInt32
  markersOnly : Bool
  straddle : StraddleScan
  toM_pos : 0 < toM
  toM_le : toM ≤ clockMax

/-- The window from 10 to 30 with a lookahead of 10 nanoseconds and 64 blocks. -/
def windowTenToThirty : LoadRange where
  fromM := 10
  toM := 30
  sampleTo := 30
  rightBounded := true
  pid := 0
  markersOnly := false
  straddle := ⟨true, 10, 64⟩
  toM_pos := by decide
  toM_le := by decide

/-- The lookahead is on. -/
def StraddleScan.on (ss : StraddleScan) : Bool := ss.enabled && ss.lookaheadNs ≠ 0

/-- `straddle_to`: the end of the lookahead. -/
def LoadRange.straddleTo (rg : LoadRange) : ℕ :=
  if rg.straddle.on then
    if clockMax - rg.toM < rg.straddle.lookaheadNs then clockMax
    else rg.toM + rg.straddle.lookaheadNs
  else rg.toM

/-- `scan_to`: the right edge of the whole scan. -/
def LoadRange.scanTo (rg : LoadRange) : ℕ :=
  if rg.straddleTo < rg.sampleTo then rg.sampleTo else rg.straddleTo

/-! ### Records -/

/-- What the record loop does with a record: passes over it, passes over it and reports that a bound
cut the search for straddlers, or takes it. -/
inductive Admission
  | skip
  | cut
  | take (rightOpen : Bool)
  deriving DecidableEq, Repr

/-- The pid and marker filters of the load. -/
def LoadRange.filters (rg : LoadRange) (ev : TraceEvent) : Bool :=
  !(rg.pid ≠ 0 && ev.pid ≠ rg.pid) && !(rg.markersOnly && !isMarker ev.oldEvent)

/-- A record past its right edge that is not a sample. It is taken if it was running at the edge. -/
def LoadRange.admitLate (rg : LoadRange) (ev : TraceEvent) : Admission :=
  if !rg.straddle.on then
    if rg.straddle.enabled then .cut else .skip
  else if rg.straddleTo < ev.ts then .cut
  else if ev.dur = 0 then .skip
  else if ev.ts < ev.dur then .skip
  else if rg.toM < ev.ts - ev.dur then .skip
  else if rg.filters ev then .take true
  else .skip

/-- One record of the record loop. -/
def LoadRange.admission (rg : LoadRange) (isSample : Bool) (ev : TraceEvent) : Admission :=
  if ev.ts < rg.fromM then .skip
  else if (if isSample then rg.sampleTo else rg.toM) < ev.ts then
    if isSample then .skip else rg.admitLate ev
  else if rg.filters ev then .take false
  else .skip

/-- A sample in interval shape: worth its period. -/
def TraceEvent.asInterval (period : UInt64) (ev : TraceEvent) : TraceEvent :=
  if ev.isSample then { ev with oldEvent := ev.newEvent, durationNs := period } else ev

/-- The record closes on the requested edge. -/
def LoadRange.closesOnEdge (rg : LoadRange) (ev : TraceEvent) : Bool :=
  rg.rightBounded && ev.ts = rg.toM && !ev.isSample && !isMarker ev.oldEvent

/-- The flags that a load derives from a record. -/
def LoadRange.edgeFlags (rg : LoadRange) (rightOpen : Bool) (ev : TraceEvent) : UInt32 :=
  (if rightOpen then flagRightOpen else 0) ||| (if rg.closesOnEdge ev then flagEdgeClose else 0)

/-- A record as it enters the working array. -/
def LoadRange.loaded (rg : LoadRange) (period : UInt64) (rightOpen : Bool) (ev : TraceEvent) :
    TraceEvent :=
  let out := ev.asInterval period
  { out with flags := out.flags ||| rg.edgeFlags rightOpen ev }

/-! ### The block loop -/

/-- The state of a load: the working array, the straddler blocks decoded, the truncation flag, the
headers that could not be read, the blocks that did not decode, and whether the array is full. -/
structure LoadState where
  out : List TraceEvent := []
  straddleBlocks : ℕ := 0
  truncated : Bool := false
  headersUnreadable : ℕ := 0
  badBlocks : ℕ := 0
  overloaded : Bool := false
  deriving DecidableEq, Repr

/-- One record of a block. -/
def loadRecord (limit : Option ℕ) (rg : LoadRange) (info : BlockMeta) (st : LoadState)
    (ev : TraceEvent) : LoadState :=
  if st.overloaded then st
  else
    match rg.admission info.isSample ev with
    | .skip => st
    | .cut => { st with truncated := true }
    | .take rightOpen =>
      if limit.any (· ≤ st.out.length) then { st with overloaded := true }
      else { st with out := st.out ++ [rg.loaded info.samplePeriodNs rightOpen ev] }

/-- `pgwt_reader_block_candidate` on a header, and whether all its records close after `to`. -/
def BlockMeta.candidate (info : BlockMeta) (fromNs toNs : ℕ) : Bool × Bool :=
  if fromNs ≠ 0 ∧ info.lastNs < fromNs then (false, false)
  else if toNs ≠ 0 ∧ toNs < info.firstNs then
    if info.isSample then (false, false) else (true, true)
  else (true, false)

/-- A block is a candidate of the load: a block past the scan edge is not. -/
def LoadRange.candidate (rg : LoadRange) (info : BlockMeta) : Bool :=
  let c := info.candidate rg.fromM rg.scanTo
  c.1 && !c.2

/-- A block of transitions past the sample edge can only hold straddlers. -/
def LoadRange.onlyStraddlers (rg : LoadRange) (info : BlockMeta) : Bool :=
  !info.isSample && rg.sampleTo < info.firstNs

/-- Whether a block is decoded, from what its header says and whether it is a candidate; the
straddler budget is charged here. -/
def considerBlock (rg : LoadRange) (info : BlockMeta) (candidate : Bool) (st : LoadState) :
    LoadState × Bool :=
  if info.isSample && rg.sampleTo < info.firstNs then (st, false)
  else if !candidate then
    ({ st with truncated := st.truncated ||
        (rg.straddle.enabled && rg.straddleTo < info.firstNs && !info.isSample) }, false)
  else if rg.onlyStraddlers info && rg.straddle.enabled && rg.straddle.maxBlocks ≠ 0 &&
      rg.straddle.maxBlocks ≤ st.straddleBlocks then ({ st with truncated := true }, false)
  else
    ({ st with straddleBlocks :=
        if rg.onlyStraddlers info then st.straddleBlocks + 1 else st.straddleBlocks }, true)

/-- One block of the block loop. A header that cannot be read is not a no, and the decode that
follows fails too. -/
def loadBlock (limit : Option ℕ) (rg : LoadRange) (st : LoadState) (b : ReaderBlock) : LoadState :=
  if st.overloaded then st
  else
    match b.content with
    | .unreadable =>
      { st with headersUnreadable := st.headersUnreadable + 1, badBlocks := st.badBlocks + 1 }
    | .damaged info =>
      let r := considerBlock rg info (rg.candidate info) st
      if r.2 then { r.1 with badBlocks := r.1.badBlocks + 1 } else r.1
    | .decoded info records =>
      let r := considerBlock rg info (rg.candidate info) st
      if r.2 then records.foldl (loadRecord limit rg info) r.1 else r.1

/-- `load_file_range_mono` without a cache. -/
def loadFileRange (limit : Option ℕ) (rg : LoadRange) (st : LoadState) (blocks : List ReaderBlock) :
    LoadState :=
  blocks.foldl (loadBlock limit rg) st

/-! ### The shape of decoded records -/

theorem shape_sampleRows : (ts : List UInt64) → (ps ns : List UInt32) → (qs : List UInt64) →
    ∀ ev ∈ sampleRows ts ps ns qs, DecodedAs true ev
  | _ :: ts, _ :: ps, _ :: ns, _ :: qs, ev, hev => by
    rw [sampleRows, List.mem_cons] at hev
    rcases hev with rfl | hev
    · exact ⟨rfl, rfl, rfl⟩
    · exact shape_sampleRows ts ps ns qs ev hev

theorem decodePayload_shape {blockType version : UInt16} {count : ℕ} {payload : ByteCodec.Bytes}
    {evs : List TraceEvent} (h : decodePayload blockType version count payload = some evs) :
    ∀ ev ∈ evs, DecodedAs (blockType = 1) ev := by
  rw [decodePayload] at h
  split_ifs at h with htype
  · simp only [decodeSamplePayload, Option.bind_eq_bind, Option.bind_eq_some_iff,
      Option.pure_def, Option.some.injEq] at h
    obtain ⟨ts, -, pids, -, news, -, qids, -, rfl⟩ := h
    simpa [htype] using shape_sampleRows ts.1 pids.1 news.1 qids.1
  · simp only [decodeTransitionPayload, Option.bind_eq_bind, Option.bind_eq_some_iff] at h
    obtain ⟨ts, -, pids, -, olds, -, news, -, durs, -, qids, -, h⟩ := h
    intro ev hev
    simp only [DecodedAs, htype, decide_false, Bool.false_eq_true, if_false]
    split_ifs at h
    · obtain ⟨cpus, -, h⟩ := Option.bind_eq_some_iff.1 h
      obtain rfl := Option.some.inj h
      exact flags_transitionRows _ _ _ _ _ _ _ ev hev
    · obtain rfl := Option.some.inj h
      exact flags_transitionRows _ _ _ _ _ _ _ ev hev

/-- The reader of a file that is one block of one sample. -/
def oneSampleReader : EventReader where
  file := BlockHeader.bytes ⟨5000000000, 5000000000, 1, 23, 21, 1, 0, 100000000⟩ ++
    [240, 6, 128, 228, 151, 208, 18, 112, 17, 1, 0, 12, 0, 0, 10, 136, 119, 102, 85, 68, 51, 34, 17]
  version := 3
  blockOffsets := [0]
  decodeBufSize_lt := initialDecodeBuf_lt

/-! ### What a load takes -/

/-- The records of the blocks with their headers, in the order of the file. -/
def fileRecords (blocks : List ReaderBlock) : List (BlockMeta × TraceEvent) :=
  blocks.flatMap fun b => b.content.header.toList.flatMap fun info =>
    b.content.records.map fun ev => (info, ev)

variable {blocks : List ReaderBlock} {taken : List TraceEvent} {rg : LoadRange} {st : LoadState}
  {limit : Option ℕ} {b : ReaderBlock}

theorem mem_fileRecords {r : BlockMeta × TraceEvent} :
    r ∈ fileRecords blocks ↔
      ∃ b ∈ blocks, b.content.header = some r.1 ∧ r.2 ∈ b.content.records := by
  simp only [fileRecords, List.mem_flatMap, Option.mem_toList, List.mem_map]
  constructor
  · rintro ⟨b, hb, info, hinfo, ev, hev, rfl⟩
    exact ⟨b, hb, hinfo, hev⟩
  · rintro ⟨b, hb, hinfo, hev⟩
    exact ⟨b, hb, r.1, hinfo, r.2, hev, rfl⟩

/-- The record as the load takes it, if it does. -/
def LoadRange.take (rg : LoadRange) (r : BlockMeta × TraceEvent) : Option TraceEvent :=
  match rg.admission r.1.isSample r.2 with
  | .take rightOpen => some (rg.loaded r.1.samplePeriodNs rightOpen r.2)
  | _ => none

theorem toM_le_straddleTo (rg : LoadRange) : rg.toM ≤ rg.straddleTo := by
  have := rg.toM_le
  rw [LoadRange.straddleTo]
  split_ifs <;> omega

theorem straddleTo_le_scanTo (rg : LoadRange) : rg.straddleTo ≤ rg.scanTo := by
  rw [LoadRange.scanTo]
  split_ifs <;> omega

theorem sampleTo_le_scanTo (rg : LoadRange) : rg.sampleTo ≤ rg.scanTo := by
  rw [LoadRange.scanTo]
  split_ifs <;> omega

theorem candidate_iff (rg : LoadRange) (info : BlockMeta) :
    rg.candidate info = true ↔ rg.fromM ≤ info.lastNs ∧ info.firstNs ≤ rg.scanTo := by
  have hpos := rg.toM_pos
  have hto := (toM_le_straddleTo rg).trans (straddleTo_le_scanTo rg)
  rw [LoadRange.candidate, BlockMeta.candidate]
  by_cases hfrom : rg.fromM ≠ 0 ∧ info.lastNs < rg.fromM
  · rw [if_pos hfrom]
    simp
    omega
  · rw [if_neg hfrom]
    by_cases hscan : rg.scanTo ≠ 0 ∧ rg.scanTo < info.firstNs
    · rw [if_pos hscan]
      cases info.isSample <;> simp <;> omega
    · rw [if_neg hscan]
      simp
      omega

/-- A record is running at the right edge, within the lookahead. -/
structure LoadRange.Straddles (rg : LoadRange) (ev : TraceEvent) : Prop where
  late : rg.toM < ev.ts
  on : rg.straddle.on = true
  ahead : ev.ts ≤ rg.straddleTo
  dur_ne : ev.dur ≠ 0
  dur_le : ev.dur ≤ ev.ts
  start_le : ev.ts - ev.dur ≤ rg.toM

theorem admitLate_eq_take {ev : TraceEvent} {b : Bool} (h : rg.toM < ev.ts) :
    rg.admitLate ev = .take b ↔ b = true ∧ rg.filters ev = true ∧ rg.Straddles ev := by
  have hiff : rg.Straddles ev ↔ rg.straddle.on = true ∧ ev.ts ≤ rg.straddleTo ∧ ev.dur ≠ 0 ∧
      ev.dur ≤ ev.ts ∧ ev.ts - ev.dur ≤ rg.toM :=
    ⟨fun hs => ⟨hs.on, hs.ahead, hs.dur_ne, hs.dur_le, hs.start_le⟩,
      fun ⟨h₁, h₂, h₃, h₄, h₅⟩ => ⟨h, h₁, h₂, h₃, h₄, h₅⟩⟩
  rw [hiff, LoadRange.admitLate]
  split_ifs <;> simp_all
  omega

/-- **When the record loop takes a record.** -/
theorem admission_eq_take {isSample b : Bool} {ev : TraceEvent} :
    rg.admission isSample ev = .take b ↔ rg.fromM ≤ ev.ts ∧ rg.filters ev = true ∧
      (b = false ∧ ev.ts ≤ (if isSample then rg.sampleTo else rg.toM) ∨
        b = true ∧ isSample = false ∧ rg.Straddles ev) := by
  rw [LoadRange.admission]
  by_cases hfrom : ev.ts < rg.fromM
  · rw [if_pos hfrom]
    simp
    omega
  rw [if_neg hfrom]
  by_cases hlate : (if isSample then rg.sampleTo else rg.toM) < ev.ts
  · rw [if_pos hlate]
    cases isSample with
    | true => simp_all
    | false =>
      simp only [Bool.false_eq_true, if_false] at hlate ⊢
      rw [admitLate_eq_take hlate]
      have hfrom' : rg.fromM ≤ ev.ts := Nat.not_lt.1 hfrom
      have hnot : ¬ev.ts ≤ rg.toM := Nat.not_le.2 hlate
      simp only [hfrom', hnot, and_false, false_or, true_and]
      tauto
  · rw [if_neg hlate]
    have hfrom' : rg.fromM ≤ ev.ts := Nat.not_lt.1 hfrom
    have hle : ev.ts ≤ (if isSample then rg.sampleTo else rg.toM) := Nat.not_lt.1 hlate
    have hnot : ¬(isSample = false ∧ rg.Straddles ev) := by
      rintro ⟨rfl, hs⟩
      simp only [Bool.false_eq_true, if_false] at hle
      exact absurd hs.late (Nat.not_lt.2 hle)
    simp only [hfrom', hle, hnot, and_true, and_false, or_false, true_and]
    cases rg.filters ev <;> cases b <;> simp

theorem take_eq_some {r : BlockMeta × TraceEvent} {out : TraceEvent} :
    rg.take r = some out ↔ ∃ b, rg.admission r.1.isSample r.2 = .take b ∧
      out = rg.loaded r.1.samplePeriodNs b r.2 := by
  rw [LoadRange.take]
  cases rg.admission r.1.isSample r.2 with
  | skip => simp
  | cut => simp
  | take b => simp [eq_comm]

theorem bounds_of_admission {isSample b : Bool} {ev : TraceEvent}
    (h : rg.admission isSample ev = .take b) :
    rg.fromM ≤ ev.ts ∧ ev.ts ≤ rg.scanTo ∧ (isSample = true → ev.ts ≤ rg.sampleTo) := by
  have hto := toM_le_straddleTo rg
  have hscan := straddleTo_le_scanTo rg
  have hsample := sampleTo_le_scanTo rg
  obtain ⟨hfrom, -, ⟨-, hle⟩ | ⟨-, hs, hst⟩⟩ := admission_eq_take.1 h
  · cases isSample
    · simp only [Bool.false_eq_true, if_false] at hle
      exact ⟨hfrom, by omega, nofun⟩
    · simp only [if_true] at hle
      exact ⟨hfrom, by omega, fun _ => hle⟩
  · have := hst.ahead
    exact ⟨hfrom, by omega, fun h => by simp_all⟩

/-- The block spends the straddler budget. -/
def LoadRange.charges (rg : LoadRange) (b : ReaderBlock) : Bool :=
  b.content.header.any fun info => rg.candidate info && rg.onlyStraddlers info

/-- The straddler budget, of which `spent` blocks are gone, is not exhausted by the blocks. -/
def LoadRange.BudgetLasts (rg : LoadRange) (spent : ℕ) (blocks : List ReaderBlock) : Prop :=
  rg.straddle.enabled = false ∨ rg.straddle.maxBlocks = 0 ∨
    spent + blocks.countP rg.charges ≤ rg.straddle.maxBlocks

/-- A load has taken `taken`, up to the size of the array. -/
structure LoadState.Holds (limit : Option ℕ) (taken : List TraceEvent) (st : LoadState) : Prop where
  out_eq : st.out = limit.elim taken taken.take
  overloaded_iff : st.overloaded = true ↔ limit.any (· < taken.length) = true

theorem LoadState.Holds.append (h : st.Holds limit taken) (hst : st.overloaded = true)
    (more : List TraceEvent) : st.Holds limit (taken ++ more) := by
  have hfull := h.overloaded_iff.1 hst
  cases limit with
  | none => simp at hfull
  | some n =>
    have hlt : n < taken.length := by simpa using hfull
    refine ⟨?_, ?_⟩
    · rw [h.out_eq, Option.elim_some, Option.elim_some, List.take_append_of_le_length hlt.le]
    · simp only [hst, Option.any_some, List.length_append, decide_eq_true_eq, true_iff]
      omega

theorem LoadState.Holds.out_of_not_overloaded (h : st.Holds limit taken)
    (hst : st.overloaded = false) : st.out = taken := by
  have hroom : ¬limit.any (· < taken.length) = true := by
    rw [← h.overloaded_iff, hst]
    exact Bool.false_ne_true
  rw [h.out_eq]
  cases limit with
  | none => rfl
  | some n =>
    simp only [Option.any_some, decide_eq_true_eq, Nat.not_lt] at hroom
    exact List.take_of_length_le hroom

theorem LoadState.Holds.push (h : st.Holds limit taken) (hst : st.overloaded = false)
    (ev : TraceEvent) :
    (if limit.any (· ≤ st.out.length) then { st with overloaded := true }
      else { st with out := st.out ++ [ev] } : LoadState).Holds limit (taken ++ [ev]) := by
  have hout := h.out_of_not_overloaded hst
  have hroom := h.overloaded_iff
  rw [hst] at hroom
  rw [hout]
  cases limit with
  | none => exact ⟨by simp, by simp [hst]⟩
  | some n =>
    simp only [Option.any_some, decide_eq_true_eq, Bool.false_eq_true, false_iff, Nat.not_lt]
      at hroom
    by_cases hn : n ≤ taken.length
    · rw [if_pos (by simpa using hn)]
      have hlen : taken.length = n := le_antisymm hroom hn
      refine ⟨?_, ?_⟩
      · simp [← hlen]
      · simp [hlen]
    · rw [if_neg (by simpa using hn)]
      refine ⟨?_, ?_⟩
      · rw [Option.elim_some, List.take_of_length_le]
        rw [List.length_append, List.length_singleton]
        omega
      · simp only [hst, Option.any_some, List.length_append, List.length_singleton,
          decide_eq_true_eq, Bool.false_eq_true, false_iff]
        omega

theorem LoadState.Holds.of_eq {st' : LoadState} (h : st.Holds limit taken) (hout : st'.out = st.out)
    (hov : st'.overloaded = st.overloaded) : st'.Holds limit taken :=
  ⟨hout.trans h.out_eq, by rw [hov, h.overloaded_iff]⟩

theorem loadRecord_holds (rg : LoadRange) (info : BlockMeta) (h : st.Holds limit taken)
    (ev : TraceEvent) :
    (loadRecord limit rg info st ev).Holds limit (taken ++ (rg.take (info, ev)).toList) ∧
      (loadRecord limit rg info st ev).straddleBlocks = st.straddleBlocks := by
  rw [loadRecord]
  by_cases hst : st.overloaded = true
  · rw [if_pos hst]
    exact ⟨h.append hst _, rfl⟩
  rw [if_neg hst]
  rw [Bool.not_eq_true] at hst
  cases hadmit : rg.admission info.isSample ev with
  | skip => exact ⟨by simpa [LoadRange.take, hadmit] using h, rfl⟩
  | cut =>
    have hcut : LoadState.Holds limit taken { st with truncated := true } := h.of_eq rfl rfl
    exact ⟨by simpa [LoadRange.take, hadmit] using hcut, rfl⟩
  | take b =>
    have htake : (rg.take (info, ev)).toList = [rg.loaded info.samplePeriodNs b ev] := by
      simp [LoadRange.take, hadmit]
    rw [htake]
    refine ⟨h.push hst _, ?_⟩
    dsimp only
    split_ifs <;> rfl

theorem foldl_loadRecord (limit : Option ℕ) (rg : LoadRange) (info : BlockMeta)
    (records : List TraceEvent) (h : st.Holds limit taken) :
    (records.foldl (loadRecord limit rg info) st).Holds limit
        (taken ++ (records.map fun ev => (info, ev)).filterMap rg.take) ∧
      (records.foldl (loadRecord limit rg info) st).straddleBlocks = st.straddleBlocks := by
  induction records generalizing st taken with
  | nil => simpa using h
  | cons ev records ih =>
    obtain ⟨hstep, hsb⟩ := loadRecord_holds rg info h ev
    obtain ⟨hih, hsb'⟩ := ih hstep
    rw [List.foldl_cons, hsb', hsb]
    refine ⟨?_, rfl⟩
    cases htake : rg.take (info, ev) <;> simpa [htake] using hih

theorem take_of_not_candidate (hb : b.content.Bounded) {info : BlockMeta}
    (hinfo : b.content.header = some info)
    (hno : (info.isSample = true ∧ rg.sampleTo < info.firstNs) ∨ rg.candidate info = false) :
    (b.content.records.map fun ev => (info, ev)).filterMap rg.take = [] := by
  rw [List.filterMap_eq_nil_iff]
  intro r hr
  obtain ⟨ev, hev, rfl⟩ := List.mem_map.1 hr
  obtain ⟨hfirst, hlast⟩ := hb info hinfo ev hev
  rw [← Option.not_isSome_iff_eq_none, Option.isSome_iff_exists]
  rintro ⟨out, hout⟩
  obtain ⟨b', hadmit, -⟩ := take_eq_some.1 hout
  obtain ⟨hfrom, hscan, hsample⟩ := bounds_of_admission hadmit
  dsimp only at hfrom hscan hsample
  rcases hno with ⟨hs, hlt⟩ | hcand
  · have := hsample hs
    omega
  · refine absurd ((candidate_iff rg info).2 ⟨by omega, by omega⟩) ?_
    rw [hcand]
    exact Bool.false_ne_true

/-- What a block that can be read and is within the budget adds to the load. -/
theorem considerBlock_spec (hb : b.content.Bounded) {info : BlockMeta}
    (hinfo : b.content.header = some info) (hbudget : rg.BudgetLasts st.straddleBlocks [b]) :
    let r := considerBlock rg info (rg.candidate info) st
    r.1.out = st.out ∧ r.1.overloaded = st.overloaded ∧
      r.1.straddleBlocks = st.straddleBlocks + [b].countP rg.charges ∧
      (r.2 = false → (b.content.records.map fun ev => (info, ev)).filterMap rg.take = []) := by
  have hcharges : [b].countP rg.charges =
      if rg.candidate info && rg.onlyStraddlers info then 1 else 0 := by
    simp [LoadRange.charges, hinfo, List.countP_cons]
  rw [LoadRange.BudgetLasts, hcharges] at hbudget
  rw [hcharges]
  dsimp only
  rw [considerBlock]
  by_cases hsample : (info.isSample && decide (rg.sampleTo < info.firstNs)) = true
  · rw [if_pos hsample]
    rw [Bool.and_eq_true, decide_eq_true_eq] at hsample
    refine ⟨rfl, rfl, ?_, fun _ => take_of_not_candidate hb hinfo (.inl hsample)⟩
    simp [LoadRange.onlyStraddlers, hsample.1]
  rw [if_neg hsample]
  by_cases hcand : rg.candidate info = true
  · simp only [hcand, Bool.not_true, Bool.false_eq_true, if_false, Bool.true_and] at hbudget ⊢
    have hroom : (rg.onlyStraddlers info && rg.straddle.enabled && rg.straddle.maxBlocks ≠ 0 &&
        rg.straddle.maxBlocks ≤ st.straddleBlocks) = false := by
      rcases hbudget with h | h | h
      · simp [h]
      · simp [h]
      · cases honly : rg.onlyStraddlers info with
        | false => simp
        | true =>
          rw [honly, if_pos rfl] at h
          simp only [Bool.and_eq_false_iff, decide_eq_false_iff_not]
          right
          omega
    rw [hroom]
    simp only [Bool.false_eq_true, if_false]
    refine ⟨trivial, trivial, ?_, nofun⟩
    cases rg.onlyStraddlers info <;> simp
  · rw [Bool.not_eq_true] at hcand
    simp only [hcand, Bool.not_false, if_true, Bool.false_and, Bool.false_eq_true, if_false]
    exact ⟨trivial, trivial, rfl, fun _ => take_of_not_candidate hb hinfo (.inr hcand)⟩

theorem fileRecords_cons (b : ReaderBlock) (blocks : List ReaderBlock) :
    fileRecords (b :: blocks) = fileRecords [b] ++ fileRecords blocks := by
  simp [fileRecords]

theorem LoadRange.BudgetLasts.mono {n m : ℕ} (h : rg.BudgetLasts n blocks) (hmn : m ≤ n) :
    rg.BudgetLasts m blocks :=
  h.imp_right (Or.imp_right fun h => by omega)

theorem loadBlock_spec (hb : b.content.Bounded) (h : st.Holds limit taken)
    (hbudget : rg.BudgetLasts st.straddleBlocks [b]) :
    (loadBlock limit rg st b).Holds limit (taken ++ (fileRecords [b]).filterMap rg.take) ∧
      (loadBlock limit rg st b).straddleBlocks ≤
        st.straddleBlocks + [b].countP rg.charges := by
  rw [loadBlock]
  by_cases hst : st.overloaded = true
  · rw [if_pos hst]
    exact ⟨h.append hst _, Nat.le_add_right _ _⟩
  rw [if_neg hst]
  cases hc : b.content with
  | unreadable =>
    have hnil : fileRecords [b] = [] := by
      simp [fileRecords, hc, BlockContent.header]
    rw [hnil, List.filterMap_nil, List.append_nil]
    exact ⟨h.of_eq rfl rfl, Nat.le_add_right _ _⟩
  | damaged info =>
    obtain ⟨hout, hov, hsb, -⟩ :=
      considerBlock_spec hb (show b.content.header = some info by rw [hc]; rfl) hbudget
    have hnil : fileRecords [b] = [] := by
      simp [fileRecords, hc, BlockContent.header, BlockContent.records]
    rw [hnil, List.filterMap_nil, List.append_nil]
    dsimp only
    split_ifs
    · exact ⟨h.of_eq hout hov, hsb.le⟩
    · exact ⟨h.of_eq hout hov, hsb.le⟩
  | decoded info records =>
    obtain ⟨hout, hov, hsb, hskip⟩ :=
      considerBlock_spec hb (show b.content.header = some info by rw [hc]; rfl) hbudget
    have hrec : fileRecords [b] = records.map fun ev => (info, ev) := by
      simp [fileRecords, hc, BlockContent.header, BlockContent.records]
    rw [hrec]
    dsimp only
    split_ifs with hgo
    · obtain ⟨hfold, hsb'⟩ := foldl_loadRecord limit rg info records (h.of_eq hout hov)
      exact ⟨hfold, (hsb'.trans hsb).le⟩
    · have hnil := hskip (Bool.eq_false_iff.2 hgo)
      rw [hc] at hnil
      rw [show (records.map fun ev => (info, ev)).filterMap rg.take = [] from hnil,
        List.append_nil]
      exact ⟨h.of_eq hout hov, hsb.le⟩

theorem LoadRange.BudgetLasts.cons {n : ℕ} (h : rg.BudgetLasts n (b :: blocks)) :
    rg.BudgetLasts n [b] ∧ rg.BudgetLasts (n + [b].countP rg.charges) blocks := by
  rw [LoadRange.BudgetLasts, List.countP_cons] at h
  rw [LoadRange.BudgetLasts, LoadRange.BudgetLasts, List.countP_cons, List.countP_nil]
  refine ⟨h.imp_right (Or.imp_right fun h => ?_), h.imp_right (Or.imp_right fun h => ?_)⟩ <;> omega

/-- **A load within its budget takes the admitted records of the whole file**, in the order of the
file, up to the size of the array. The blocks whose headers rule them out hold none. -/
theorem loadFileRange_holds (hb : ∀ b ∈ blocks, b.content.Bounded) (h : st.Holds limit taken)
    (hbudget : rg.BudgetLasts st.straddleBlocks blocks) :
    (loadFileRange limit rg st blocks).Holds limit
      (taken ++ (fileRecords blocks).filterMap rg.take) := by
  induction blocks generalizing st taken with
  | nil => simpa [loadFileRange, fileRecords] using h
  | cons b blocks ih =>
    obtain ⟨hbb, hbs⟩ := List.forall_mem_cons.1 hb
    obtain ⟨hone, hrest⟩ := hbudget.cons
    obtain ⟨hstep, hsb⟩ := loadBlock_spec hbb h hone
    have hih := ih hbs hstep (hrest.mono hsb)
    rw [fileRecords_cons b blocks, List.filterMap_append, ← List.append_assoc]
    exact hih

end PgWaitTracer
