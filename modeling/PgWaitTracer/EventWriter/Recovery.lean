import PgWaitTracer.EventWriter.TraceFile

/-!
# Startup recovery

`recover_current_trace` (`src/event_writer.c`) finds the `current.trace` a previous daemon left
behind, scans its blocks, drops what follows them, writes a footer and archives the file. There is
no block magic: the scan stops at the first 40 bytes that cannot be a block header.

A file that was closed has a footer where the scan looks for the next block. The source takes it to
be "an invalid block"; whether it is depends on the timestamps and offsets in it.

I/O on the file being recovered is taken to succeed.

## Main results

* `scanBlocks_blocks`: the scan reads the committed blocks and goes on behind them.
* `recover_reconstructs_iff`: exactly when recovery reconstructs the committed blocks.
-/

namespace PgWaitTracer

open ByteCodec

/-! ### The scan -/

/-- `PGWT_MAX_READ_BLOCKS`. -/
def maxReadBlocks : ℕ := 4 * (1024 * 1024)

/-- The sanity rules of the scan for a block header. -/
def BlockHeader.sane (bh : BlockHeader) : Bool :=
  !(bh.numEvents.toNat = 0 || blockEvents < bh.numEvents.toNat ||
    bh.compressedSize.toNat = 0 || maxBlockCompressed < bh.compressedSize.toNat ||
    15 < bh.blockType.toNat)

/-- The header of the block at the start of `bs`, if the scan accepts one there: it is plausible
and the payload lies inside the file. -/
def scanHeader (bs : Bytes) : Option BlockHeader :=
  match readBlockHeader bs with
  | none => none
  | some (bh, _) =>
    if bh.sane ∧ 40 + bh.compressedSize.toNat ≤ bs.length then some bh else none

/-- The scan of `recover_current_trace` for at most `k` more blocks: the index and the offset it
stops at. -/
def scanBlocks : ℕ → ℕ → Bytes → List IndexEntry × ℕ
  | 0, pos, _ => ([], pos)
  | k + 1, pos, bs =>
    match scanHeader bs with
    | none => ([], pos)
    | some bh =>
      let size := 40 + bh.compressedSize.toNat
      let (index, pos') := scanBlocks k (pos + size) (bs.drop size)
      (⟨bh.firstTimestampNs, UInt64.ofNat pos⟩ :: index, pos')

/-! ### Recovery -/

/-- Where a recovered file ends up: archived, preserved as corrupt, or removed. -/
inductive RecoverKind
  | archived | corrupt | removed
  deriving DecidableEq, Repr

/-- A recovered file: its bytes, and the index recovery wrote into it. -/
structure Recovered where
  kind : RecoverKind
  file : Bytes
  index : List IndexEntry
  deriving DecidableEq, Repr

/-- The flags of a recovered file: a tracked file that was not finalized, or lost committed blocks,
is marked. -/
def recoveredFlags (flags : UInt16) (committed : ℤ) (nidx : ℕ) : UInt16 :=
  if flags &&& flagClosureTracked ≠ 0 ∧
      (flags &&& (flagClosedClean ||| flagRotated) = 0 ∨ (nidx : ℤ) < committed) ∧
      flags &&& flagRecovered = 0 then
    flags ||| flagRecovered
  else flags

/-- `recover_current_trace` on the bytes of `current.trace` and the number of committed blocks in
its meta file. -/
def recoverCurrentTrace (file : Bytes) (committed : ℤ) : Recovered :=
  match readFileHeader file with
  | none => ⟨.corrupt, file, []⟩
  | some (hdr, rest) =>
    if hdr.magic ≠ traceMagic ∨ hdr.version < 2 ∨ traceVersion < hdr.version then
      ⟨.corrupt, file, []⟩
    else
      let (index, pos) := scanBlocks maxReadBlocks 28 rest
      if index = [] then
        if 28 < file.length then ⟨.corrupt, file, []⟩ else ⟨.removed, [], []⟩
      else
        ⟨.archived,
          writeHeaderFlags (file.take pos ++ footerBytes index)
            (recoveredFlags hdr.flags committed index.length), index⟩

/-! ### Scanning blocks -/

theorem BlockImage.sane (b : BlockImage) : b.header.sane = true := by
  have h1 := b.numEvents_pos
  have h2 := b.numEvents_le
  have h3 := b.payload_pos
  have h4 := b.payload_le
  have h5 := b.blockType_le
  have h6 := b.compressedSize_eq
  simp only [BlockHeader.sane, Bool.not_eq_true', Bool.or_eq_false_iff,
    decide_eq_false_iff_not]
  omega

theorem scanHeader_block (b : BlockImage) (rest : Bytes) :
    scanHeader (b.bytes ++ rest) = some b.header := by
  have hread : readBlockHeader (b.bytes ++ rest) = some (b.header, b.payload ++ rest) := by
    rw [BlockImage.bytes, List.append_assoc]
    exact inverts_blockHeader b.header trivial _
  have hlen : 40 + b.header.compressedSize.toNat ≤ (b.bytes ++ rest).length := by
    rw [List.length_append, length_blockImage_bytes, BlockImage.size, b.compressedSize_eq]
    omega
  simp only [scanHeader, hread, b.sane, hlen, and_self, if_true]

theorem scanBlocks_blocks : (bs : List BlockImage) → (k pos : ℕ) → (tail : Bytes) →
    scanBlocks (bs.length + k) pos (bs.flatMap BlockImage.bytes ++ tail) =
      (indexFrom pos bs ++ (scanBlocks k (pos + sizeOf bs) tail).1,
        (scanBlocks k (pos + sizeOf bs) tail).2)
  | [], k, pos, tail => by simp [indexFrom, sizeOf]
  | b :: bs, k, pos, tail => by
    have hscan := scanHeader_block b (bs.flatMap BlockImage.bytes ++ tail)
    have ih := scanBlocks_blocks bs k (pos + b.size) tail
    have hsize : 40 + b.header.compressedSize.toNat = b.size := by
      rw [b.compressedSize_eq, BlockImage.size]
    have hfuel : (b :: bs).length + k = bs.length + k + 1 := by
      rw [List.length_cons]
      omega
    have hdrop : (b.bytes ++ (bs.flatMap BlockImage.bytes ++ tail)).drop b.size =
        bs.flatMap BlockImage.bytes ++ tail := by
      rw [← length_blockImage_bytes, List.drop_left]
    rw [hfuel, List.flatMap_cons, List.append_assoc, scanBlocks]
    simp only [hscan, hsize, hdrop, ih, indexFrom, sizeOf, List.cons_append, Nat.add_assoc]

theorem length_scanBlocks_le : (k pos : ℕ) → (bs : Bytes) → (scanBlocks k pos bs).1.length ≤ k
  | 0, _, _ => Nat.zero_le _
  | k + 1, pos, bs => by
    rw [scanBlocks]
    split
    · exact Nat.zero_le _
    · rw [List.length_cons]
      exact Nat.succ_le_succ (length_scanBlocks_le k _ _)

variable {bs : Bytes}

theorem scanBlocks_eq_nil_iff {k pos : ℕ} :
    (scanBlocks k pos bs).1 = [] ↔ k = 0 ∨ scanHeader bs = none := by
  cases k with
  | zero => simp [scanBlocks]
  | succ k =>
    rcases h : scanHeader bs with _ | bh
    · simp [scanBlocks, h]
    · simp [scanBlocks, h]

theorem scanBlocks_pos_of_nil {k pos : ℕ} (h : (scanBlocks k pos bs).1 = []) :
    (scanBlocks k pos bs).2 = pos := by
  cases k with
  | zero => rfl
  | succ k =>
    rcases hs : scanHeader bs with _ | bh
    · simp [scanBlocks, hs]
    · simp [scanBlocks, hs] at h

/-! ### What follows the blocks -/

theorem length_of_map_readWord {α : Type} {w : ℕ} {g : ℕ → α} {rest : Bytes} {a : α}
    (h : (readWord w bs).map (fun r => (g r.1, r.2)) = some (a, rest)) :
    rest.length + w = bs.length := by
  obtain ⟨⟨n, rest'⟩, hread, heq⟩ := Option.map_eq_some_iff.1 h
  obtain rfl : rest' = rest := congrArg Prod.snd heq
  exact length_of_readWord hread

theorem length_of_readBlockHeader {rest : Bytes} {bh : BlockHeader}
    (h : readBlockHeader bs = some (bh, rest)) : rest.length + 40 = bs.length := by
  simp only [readBlockHeader, Option.bind_eq_bind, Option.bind_eq_some_iff, Option.pure_def,
    Option.some.injEq, Prod.exists, Prod.mk.injEq] at h
  obtain ⟨_, b1, h1, _, b2, h2, _, b3, h3, _, b4, h4, _, b5, h5, _, b6, h6, _, b7, h7, _, b8, h8,
    -, rfl⟩ := h
  have l1 := length_of_map_readWord h1
  have l2 := length_of_map_readWord h2
  have l3 := length_of_map_readWord h3
  have l4 := length_of_map_readWord h4
  have l5 := length_of_map_readWord h5
  have l6 := length_of_map_readWord h6
  have l7 := length_of_map_readWord h7
  have l8 := length_of_map_readWord h8
  omega

theorem scanHeader_eq_none_of_short (h : bs.length < 40) : scanHeader bs = none := by
  rw [scanHeader]
  rcases hread : readBlockHeader bs with _ | ⟨bh, rest⟩
  · rfl
  · have hlen := length_of_readBlockHeader hread
    omega

/-- **A torn block ends the scan.** Cut anywhere, a block is not accepted. -/
theorem scanHeader_torn_block (b : BlockImage) {k : ℕ} (hk : k < b.size) :
    scanHeader (b.bytes.take k) = none := by
  by_cases hshort : k < 40
  · refine scanHeader_eq_none_of_short ?_
    rw [List.length_take]
    omega
  · have hcut : b.bytes.take k = b.header.bytes ++ b.payload.take (k - 40) := by
      rw [BlockImage.bytes, List.take_append, length_blockHeader_bytes,
        List.take_of_length_le (by rw [length_blockHeader_bytes]; omega)]
    have hread : readBlockHeader (b.bytes.take k) =
        some (b.header, b.payload.take (k - 40)) := by
      rw [hcut]
      exact inverts_blockHeader b.header trivial _
    have hlen : ¬(b.header.sane = true ∧
        40 + b.header.compressedSize.toNat ≤ (b.bytes.take k).length) := by
      rw [List.length_take, length_blockImage_bytes, b.compressedSize_eq]
      simp only [BlockImage.size] at hk ⊢
      omega
    simp only [scanHeader, hread, if_neg hlen]

/-- The 40 bytes of three index entries' start, read as a block header. -/
def footerHeader (e₀ e₁ e₂ : IndexEntry) : BlockHeader where
  firstTimestampNs := e₀.timestampNs
  lastTimestampNs := e₀.fileOffset
  numEvents := UInt32.ofNat (e₁.timestampNs.toNat % 2 ^ 32)
  compressedSize := UInt32.ofNat (e₁.timestampNs.toNat / 2 ^ 32)
  uncompressedSize := UInt32.ofNat (e₁.fileOffset.toNat % 2 ^ 32)
  blockType := UInt16.ofNat (e₁.fileOffset.toNat / 2 ^ 32 % 2 ^ 16)
  reserved := UInt16.ofNat (e₁.fileOffset.toNat / 2 ^ 48)
  samplePeriodNs := e₂.timestampNs

theorem toNat_ofNat_u32 {n : ℕ} (h : n < 2 ^ 32) : (UInt32.ofNat n).toNat = n :=
  Nat.mod_eq_of_lt h

theorem toNat_ofNat_u16 {n : ℕ} (h : n < 2 ^ 16) : (UInt16.ofNat n).toNat = n :=
  Nat.mod_eq_of_lt h

theorem encodeU64_eq_halves (x : UInt64) :
    encodeU64 x = encodeU32 (UInt32.ofNat (x.toNat % 2 ^ 32)) ++
      encodeU32 (UInt32.ofNat (x.toNat / 2 ^ 32)) := by
  have hx := x.toNat_lt
  have hpow : (256 : ℕ) ^ 4 = 2 ^ 32 := by norm_num
  have hmod := leBytes_mod 4 x.toNat
  have hadd := leBytes_add 4 4 x.toNat
  rw [hpow] at hmod hadd
  rw [encodeU64, encodeU32, encodeU32, toNat_ofNat_u32 (Nat.mod_lt _ (by decide)),
    toNat_ofNat_u32 (by omega), hmod]
  exact hadd

theorem encodeU32_eq_quarters (x : UInt64) :
    encodeU32 (UInt32.ofNat (x.toNat / 2 ^ 32)) =
      leBytes 2 (UInt16.ofNat (x.toNat / 2 ^ 32 % 2 ^ 16)).toNat ++
        leBytes 2 (UInt16.ofNat (x.toNat / 2 ^ 48)).toNat := by
  have hx := x.toNat_lt
  have hpow : (256 : ℕ) ^ 2 = 2 ^ 16 := by norm_num
  have hmod := leBytes_mod 2 (x.toNat / 2 ^ 32)
  have hadd := leBytes_add 2 2 (x.toNat / 2 ^ 32)
  rw [hpow] at hmod hadd
  rw [Nat.div_div_eq_div_mul] at hadd
  rw [encodeU32, toNat_ofNat_u32 (by omega), toNat_ofNat_u16 (Nat.mod_lt _ (by decide)),
    toNat_ofNat_u16 (by omega), hmod]
  exact hadd

theorem footerHeader_bytes (e₀ e₁ e₂ : IndexEntry) :
    (footerHeader e₀ e₁ e₂).bytes = e₀.bytes ++ (e₁.bytes ++ encodeU64 e₂.timestampNs) := by
  simp only [BlockHeader.bytes, footerHeader, IndexEntry.bytes, List.append_assoc]
  rw [encodeU64_eq_halves e₁.timestampNs, encodeU64_eq_halves e₁.fileOffset,
    encodeU32_eq_quarters e₁.fileOffset]
  simp only [List.append_assoc]

/-- A footer of the entries `index`, cut after `k` bytes, passes for a block: there are three
entries, the halves of the second timestamp are a plausible number of records and payload size, the
payload ends before the cut, and the second offset has a plausible block type in it. -/
def FooterLooksLikeBlock (index : List IndexEntry) (k : ℕ) : Prop :=
  match index with
  | _ :: e₁ :: _ :: _ =>
    1 ≤ e₁.timestampNs.toNat % 2 ^ 32 ∧ e₁.timestampNs.toNat % 2 ^ 32 ≤ blockEvents ∧
      1 ≤ e₁.timestampNs.toNat / 2 ^ 32 ∧
      e₁.timestampNs.toNat / 2 ^ 32 ≤ maxBlockCompressed ∧
      e₁.fileOffset.toNat / 2 ^ 32 % 2 ^ 16 ≤ 15 ∧
      40 + e₁.timestampNs.toNat / 2 ^ 32 ≤ k
  | _ => False

theorem sane_footerHeader (e₀ e₁ e₂ : IndexEntry) :
    (footerHeader e₀ e₁ e₂).sane = true ↔
      1 ≤ e₁.timestampNs.toNat % 2 ^ 32 ∧ e₁.timestampNs.toNat % 2 ^ 32 ≤ blockEvents ∧
        1 ≤ e₁.timestampNs.toNat / 2 ^ 32 ∧
        e₁.timestampNs.toNat / 2 ^ 32 ≤ maxBlockCompressed ∧
        e₁.fileOffset.toNat / 2 ^ 32 % 2 ^ 16 ≤ 15 := by
  have ht := e₁.timestampNs.toNat_lt
  simp only [BlockHeader.sane, footerHeader, toNat_ofNat_u32 (Nat.mod_lt _ (by decide)),
    toNat_ofNat_u32 (show e₁.timestampNs.toNat / 2 ^ 32 < 2 ^ 32 by omega),
    toNat_ofNat_u16 (Nat.mod_lt _ (by decide)), Bool.not_eq_true', Bool.or_eq_false_iff,
    decide_eq_false_iff_not]
  omega

/-- A footer, possibly cut, is taken for a block exactly when it looks like one. -/
theorem scanHeader_footer {index : List IndexEntry} {k : ℕ}
    (hk : k ≤ (footerBytes index).length) :
    scanHeader ((footerBytes index).take k) = none ↔ ¬FooterLooksLikeBlock index k := by
  have hlen : ((footerBytes index).take k).length = k := by
    rw [List.length_take]
    omega
  match index, hk, hlen with
  | [], hk, hlen =>
    simp only [length_footerBytes, List.length_nil] at hk
    simp only [scanHeader_eq_none_of_short (show ((footerBytes []).take k).length < 40 by omega),
      FooterLooksLikeBlock, not_false_eq_true]
  | [e₀], hk, hlen =>
    simp only [length_footerBytes, List.length_cons, List.length_nil] at hk
    simp only [scanHeader_eq_none_of_short (show ((footerBytes [e₀]).take k).length < 40 by omega),
      FooterLooksLikeBlock, not_false_eq_true]
  | [e₀, e₁], hk, hlen =>
    simp only [length_footerBytes, List.length_cons, List.length_nil] at hk
    simp only [scanHeader_eq_none_of_short
      (show ((footerBytes [e₀, e₁]).take k).length < 40 by omega),
      FooterLooksLikeBlock, not_false_eq_true]
  | e₀ :: e₁ :: e₂ :: index, hk, hlen =>
    have ht := e₁.timestampNs.toNat_lt
    by_cases hshort : k < 40
    · simp only [scanHeader_eq_none_of_short (hlen ▸ hshort), FooterLooksLikeBlock, true_iff]
      omega
    · have hsplit : footerBytes (e₀ :: e₁ :: e₂ :: index) =
          (footerHeader e₀ e₁ e₂).bytes ++ (encodeU64 e₂.fileOffset ++
            (index.flatMap IndexEntry.bytes ++ leBytes 4 (e₀ :: e₁ :: e₂ :: index).length)) := by
        rw [footerHeader_bytes, footerBytes]
        simp only [List.flatMap_cons, IndexEntry.bytes, List.append_assoc]
      have hread : readBlockHeader ((footerBytes (e₀ :: e₁ :: e₂ :: index)).take k) =
          some (footerHeader e₀ e₁ e₂, (encodeU64 e₂.fileOffset ++
            (index.flatMap IndexEntry.bytes ++
              leBytes 4 (e₀ :: e₁ :: e₂ :: index).length)).take (k - 40)) := by
        rw [hsplit, List.take_append, length_blockHeader_bytes,
          List.take_of_length_le (by rw [length_blockHeader_bytes]; omega)]
        exact inverts_blockHeader _ trivial _
      have hcsize : (footerHeader e₀ e₁ e₂).compressedSize.toNat =
          e₁.timestampNs.toNat / 2 ^ 32 := toNat_ofNat_u32 (by omega)
      simp only [scanHeader, hread, hlen, hcsize, sane_footerHeader, FooterLooksLikeBlock]
      split_ifs with hlook
      · simp only [false_iff, not_not]
        obtain ⟨⟨h1, h2, h3, h4, h5⟩, h6⟩ := hlook
        exact ⟨h1, h2, h3, h4, h5, h6⟩
      · simp only [true_iff]
        rintro ⟨h1, h2, h3, h4, h5, h6⟩
        exact hlook ⟨⟨h1, h2, h3, h4, h5⟩, h6⟩

/-! ### Leftover files -/

/-- What can follow the committed blocks of a leftover file: a block that was torn while it was
written, or the first `k` bytes of the footer, from none of it to all of it. -/
inductive LeftoverTail
  | tornBlock (b : BlockImage) (k : ℕ) (hk : k < b.size)
  | footer (k : ℕ)

namespace LeftoverTail

/-- The bytes of a tail, given the index of the blocks before it. -/
def bytes (index : List IndexEntry) : LeftoverTail → Bytes
  | .tornBlock b k _ => b.bytes.take k
  | .footer k => (footerBytes index).take k

/-- A tail that the scan takes for one more block. -/
def LooksLikeBlock (index : List IndexEntry) : LeftoverTail → Prop
  | .tornBlock _ _ _ => False
  | .footer k => FooterLooksLikeBlock index (min k (footerBytes index).length)

/-- The whole footer is there. -/
def Intact (index : List IndexEntry) : LeftoverTail → Prop
  | .tornBlock _ _ _ => False
  | .footer k => (footerBytes index).length ≤ k

end LeftoverTail

theorem scanHeader_tail (index : List IndexEntry) (tail : LeftoverTail) :
    scanHeader (tail.bytes index) = none ↔ ¬tail.LooksLikeBlock index := by
  cases tail with
  | tornBlock b k hk =>
    simp only [LeftoverTail.bytes, LeftoverTail.LooksLikeBlock, scanHeader_torn_block b hk,
      not_false_eq_true]
  | footer k =>
    have hcut : (footerBytes index).take k =
        (footerBytes index).take (min k (footerBytes index).length) := by
      rw [List.take_eq_take_min]
    simp only [LeftoverTail.bytes, LeftoverTail.LooksLikeBlock]
    rw [hcut]
    exact scanHeader_footer (min_le_right _ _)

theorem LeftoverTail.Intact.bytes_eq {index : List IndexEntry} {tail : LeftoverTail}
    (h : tail.Intact index) : tail.bytes index = footerBytes index := by
  cases tail with
  | tornBlock b k hk => exact absurd h not_false
  | footer k => exact List.take_of_length_le h

/-- The bytes of a leftover `current.trace`. -/
def leftoverFile (hdr : FileHeader) (blocks : List BlockImage) (tail : LeftoverTail) : Bytes :=
  hdr.bytes ++ (blocks.flatMap BlockImage.bytes ++ tail.bytes (indexFrom 28 blocks))

/-- A header that recovery accepts. -/
structure FileHeader.Readable (hdr : FileHeader) : Prop where
  magic : hdr.magic = traceMagic
  version_ge : ¬hdr.version < 2
  version_le : ¬traceVersion < hdr.version

/-- What recovery is for: one index entry per committed block and no other; a file with blocks is
archived with exactly them and that index; and a file that was closed comes out as it was. -/
structure Reconstructs (hdr : FileHeader) (blocks : List BlockImage) (tail : LeftoverTail)
    (committed : ℤ) : Prop where
  index_eq : (recoverCurrentTrace (leftoverFile hdr blocks tail) committed).index =
    indexFrom 28 blocks
  archived : blocks ≠ [] →
    recoverCurrentTrace (leftoverFile hdr blocks tail) committed =
      ⟨.archived, { hdr with flags := recoveredFlags hdr.flags committed blocks.length }.bytes ++
        (blocks.flatMap BlockImage.bytes ++ footerBytes (indexFrom 28 blocks)),
        indexFrom 28 blocks⟩
  closed_unchanged : tail.Intact (indexFrom 28 blocks) →
    hdr.flags &&& (flagClosedClean ||| flagRotated) ≠ 0 → committed ≤ blocks.length →
      (recoverCurrentTrace (leftoverFile hdr blocks tail) committed).file =
        leftoverFile hdr blocks tail

variable {hdr : FileHeader} {blocks : List BlockImage} {tail : LeftoverTail} {committed : ℤ}

theorem recoverCurrentTrace_append (hr : hdr.Readable) (rest : Bytes) (committed : ℤ) :
    recoverCurrentTrace (hdr.bytes ++ rest) committed =
      if (scanBlocks maxReadBlocks 28 rest).1 = [] then
        if 28 < (hdr.bytes ++ rest).length then ⟨.corrupt, hdr.bytes ++ rest, []⟩
        else ⟨.removed, [], []⟩
      else
        ⟨.archived, writeHeaderFlags
          ((hdr.bytes ++ rest).take (scanBlocks maxReadBlocks 28 rest).2 ++
            footerBytes (scanBlocks maxReadBlocks 28 rest).1)
          (recoveredFlags hdr.flags committed (scanBlocks maxReadBlocks 28 rest).1.length),
          (scanBlocks maxReadBlocks 28 rest).1⟩ := by
  have hread := inverts_fileHeader hdr trivial rest
  have hok : ¬(hdr.magic ≠ traceMagic ∨ hdr.version < 2 ∨ traceVersion < hdr.version) := by
    rintro (h | h | h)
    · exact h hr.magic
    · exact hr.version_ge h
    · exact hr.version_le h
  simp only [recoverCurrentTrace, hread, if_neg hok]

theorem recoverCurrentTrace_index (hr : hdr.Readable) (rest : Bytes) (committed : ℤ) :
    (recoverCurrentTrace (hdr.bytes ++ rest) committed).index =
      (scanBlocks maxReadBlocks 28 rest).1 := by
  rw [recoverCurrentTrace_append hr]
  split_ifs with h
  · exact h.symm
  · exact h.symm
  · rfl

theorem scanBlocks_leftover (tail : LeftoverTail) (hle : blocks.length ≤ maxReadBlocks) :
    scanBlocks maxReadBlocks 28
        (blocks.flatMap BlockImage.bytes ++ tail.bytes (indexFrom 28 blocks)) =
      (indexFrom 28 blocks ++ (scanBlocks (maxReadBlocks - blocks.length) (28 + sizeOf blocks)
          (tail.bytes (indexFrom 28 blocks))).1,
        (scanBlocks (maxReadBlocks - blocks.length) (28 + sizeOf blocks)
          (tail.bytes (indexFrom 28 blocks))).2) := by
  have hscan := scanBlocks_blocks blocks (maxReadBlocks - blocks.length) 28
    (tail.bytes (indexFrom 28 blocks))
  rwa [Nat.add_sub_cancel' hle] at hscan

theorem index_eq_iff (committed : ℤ) (hr : hdr.Readable) :
    (recoverCurrentTrace (leftoverFile hdr blocks tail) committed).index = indexFrom 28 blocks ↔
      blocks.length ≤ maxReadBlocks ∧
        (blocks.length = maxReadBlocks ∨ ¬tail.LooksLikeBlock (indexFrom 28 blocks)) := by
  rw [leftoverFile, recoverCurrentTrace_index hr]
  by_cases hle : blocks.length ≤ maxReadBlocks
  · rw [scanBlocks_leftover tail hle, List.append_right_eq_self, scanBlocks_eq_nil_iff, scanHeader_tail]
    simp only [hle, true_and]
    refine or_congr_left ?_
    omega
  · simp only [hle, false_and, iff_false]
    intro heq
    have hlen := length_scanBlocks_le maxReadBlocks 28
      (blocks.flatMap BlockImage.bytes ++ tail.bytes (indexFrom 28 blocks))
    rw [heq, length_indexFrom] at hlen
    exact hle hlen

theorem recoveredFlags_of_finalized {flags : UInt16} {n : ℕ}
    (h : flags &&& (flagClosedClean ||| flagRotated) ≠ 0) (hc : committed ≤ n) :
    recoveredFlags flags committed n = flags := by
  refine if_neg ?_
  rintro ⟨-, h0 | hlt, -⟩
  · exact h h0
  · omega

theorem recoverCurrentTrace_of_index (hr : hdr.Readable) (hne : blocks ≠ [])
    (hle : blocks.length ≤ maxReadBlocks)
    (hstop : blocks.length = maxReadBlocks ∨ ¬tail.LooksLikeBlock (indexFrom 28 blocks)) :
    recoverCurrentTrace (leftoverFile hdr blocks tail) committed =
      ⟨.archived, { hdr with flags := recoveredFlags hdr.flags committed blocks.length }.bytes ++
        (blocks.flatMap BlockImage.bytes ++ footerBytes (indexFrom 28 blocks)),
        indexFrom 28 blocks⟩ := by
  have hnil : (scanBlocks (maxReadBlocks - blocks.length) (28 + sizeOf blocks)
      (tail.bytes (indexFrom 28 blocks))).1 = [] := by
    rw [scanBlocks_eq_nil_iff, scanHeader_tail]
    exact hstop.imp_left fun h => by omega
  have hscan := scanBlocks_leftover tail hle
  rw [hnil, List.append_nil, scanBlocks_pos_of_nil hnil] at hscan
  have hindex : indexFrom 28 blocks ≠ [] := by
    intro h
    have hlen := length_indexFrom 28 blocks
    rw [h] at hlen
    exact hne (List.length_eq_zero_iff.1 hlen.symm)
  have htake : (leftoverFile hdr blocks tail).take (28 + sizeOf blocks) =
      hdr.bytes ++ blocks.flatMap BlockImage.bytes := by
    rw [leftoverFile, ← List.append_assoc, List.take_left']
    rw [List.length_append, length_fileHeader_bytes, length_flatMap_blockImage]
  rw [leftoverFile] at htake ⊢
  rw [recoverCurrentTrace_append hr, hscan, if_neg hindex, htake, List.append_assoc,
    writeHeaderFlags_append, length_indexFrom]

theorem recoverCurrentTrace_of_nil (hr : hdr.Readable) (hintact : tail.Intact (indexFrom 28 []))
    (hindex : (recoverCurrentTrace (leftoverFile hdr [] tail) committed).index = indexFrom 28 []) :
    (recoverCurrentTrace (leftoverFile hdr [] tail) committed).file = leftoverFile hdr [] tail := by
  have hlong : 28 < (leftoverFile hdr [] tail).length := by
    rw [leftoverFile, hintact.bytes_eq]
    simp
  rw [leftoverFile] at hindex hlong ⊢
  rw [recoverCurrentTrace_index hr] at hindex
  rw [recoverCurrentTrace_append hr, hindex, if_pos (show indexFrom 28 [] = [] from rfl),
    if_pos hlong]

/-- **Recovery, exactly.** Recovery of a leftover file reconstructs the committed blocks if and only
if there are at most `PGWT_MAX_READ_BLOCKS` of them and, unless there are exactly that many, what
follows them is not a footer, whole or cut, that looks like a block. A block torn while it was
written never does.

Source: `recover_current_trace` (`src/event_writer.c`), `src/docs/TRACE_FORMAT.md`. -/
theorem recover_reconstructs_iff (hdr : FileHeader) (hr : hdr.Readable) (blocks : List BlockImage)
    (tail : LeftoverTail) (committed : ℤ) :
    Reconstructs hdr blocks tail committed ↔
      blocks.length ≤ maxReadBlocks ∧
        (blocks.length = maxReadBlocks ∨ ¬tail.LooksLikeBlock (indexFrom 28 blocks)) := by
  refine ⟨fun h => (index_eq_iff committed hr).1 h.index_eq, fun h => ?_⟩
  have hindex := (index_eq_iff committed hr).2 h
  refine ⟨hindex, fun hne => recoverCurrentTrace_of_index hr hne h.1 h.2, ?_⟩
  intro hintact hfinal hcommitted
  by_cases hne : blocks = []
  · subst hne
    exact recoverCurrentTrace_of_nil hr hintact hindex
  · rw [recoverCurrentTrace_of_index hr hne h.1 h.2, recoveredFlags_of_finalized hfinal hcommitted,
      leftoverFile, hintact.bytes_eq]

theorem recoveredFlags_recoveredFlags (flags : UInt16) (n : ℕ) :
    recoveredFlags (recoveredFlags flags committed n) committed n =
      recoveredFlags flags committed n := by
  have hbit : (flags ||| flagRecovered) &&& flagRecovered ≠ 0 := by
    intro h
    have hget := congrArg (fun x : UInt16 => x.toBitVec.getLsbD 4) h
    simp [flagRecovered] at hget
  by_cases hmark : flags &&& flagClosureTracked ≠ 0 ∧
      (flags &&& (flagClosedClean ||| flagRotated) = 0 ∨ (n : ℤ) < committed) ∧
      flags &&& flagRecovered = 0
  · have hmarked : recoveredFlags flags committed n = flags ||| flagRecovered := if_pos hmark
    rw [hmarked]
    exact if_neg fun h => hbit h.2.2
  · have hsame : recoveredFlags flags committed n = flags := if_neg hmark
    rw [hsame, hsame]

/-! ### Files closed soon after boot -/

/-- A block of one sample at `ts`, whose varint is given. -/
def oneSampleImage (ts : UInt64) (v₀ v₁ v₂ v₃ v₄ : UInt8) : BlockImage where
  header := ⟨ts, ts, 1, 23, 21, 1, 0, 100000000⟩
  payload := [240, 6, v₀, v₁, v₂, v₃, v₄, 112, 17, 1, 0, 12, 0, 0, 10, 136, 119, 102, 85, 68, 51,
    34, 17]
  numEvents_pos := show 0 < (1 : UInt32).toNat by decide
  numEvents_le := show (1 : UInt32).toNat ≤ blockEvents by decide
  compressedSize_eq := rfl
  payload_pos := Nat.succ_pos _
  payload_le := show 23 ≤ maxBlockCompressed by decide
  blockType_le := show (1 : UInt16).toNat ≤ 15 by decide

/-- The header of a file closed cleanly. -/
def closedHeader : FileHeader where
  magic := traceMagic
  version := traceVersion
  flags := flagLz4 ||| flagClosureTracked ||| flagClosedClean
  pgVersion := 170000
  startTimeNs := 1800000000000000000
  clockOffsetNs := 4000000000

theorem closedHeader_readable : closedHeader.Readable := ⟨rfl, by decide, by decide⟩

/-- Three blocks at 5 s, 8.6 s and 9 s of uptime. -/
def earlyBlocks : List BlockImage :=
  [oneSampleImage 5000000000 128 228 151 208 18, oneSampleImage 8589934597 133 128 128 128 32,
    oneSampleImage 9000000000 128 180 196 195 33]

/-- The second timestamp is `2 * 2 ^ 32 + 5`: the intact footer of the closed file is read as a
block of five records in two bytes, and recovery indexes it. -/
theorem recover_indexes_footer : ¬Reconstructs closedHeader earlyBlocks (.footer 52) 3 := by
  intro h
  have hcond := ((index_eq_iff 3 closedHeader_readable).1 h.index_eq).2
  have hlook : LeftoverTail.LooksLikeBlock (indexFrom 28 earlyBlocks) (.footer 52) := by
    refine ⟨?_, ?_, ?_, ?_, ?_, ?_⟩ <;> decide
  rcases hcond with hcap | hlook'
  · exact absurd hcap (by decide)
  · exact hlook' hlook

/-- The same file with its second block at 8 s comes out as it was. -/
theorem recover_reconstructs_eightSeconds :
    Reconstructs closedHeader [oneSampleImage 5000000000 128 228 151 208 18,
      oneSampleImage 8000000000 128 160 217 230 29, oneSampleImage 9000000000 128 180 196 195 33]
      (.footer 52) 3 := by
  refine (recover_reconstructs_iff closedHeader closedHeader_readable _ _ _).2
    ⟨by decide, Or.inr ?_⟩
  rintro ⟨-, h, -⟩
  exact absurd h (by decide)

end PgWaitTracer
