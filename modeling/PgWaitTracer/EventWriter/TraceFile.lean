import PgWaitTracer.Trace.BlockCodec

/-!
# Trace files

The layout of a trace file (`src/event_writer.h`, `src/docs/TRACE_FORMAT.md`): a packed header of
28 bytes, the blocks, and a footer of one index entry per block followed by their number. How a
file ended is recorded in the flags of its header (`src/trace_closure.h`).

## Main results

* `typedBlock_image`: what `write_typed_block` writes is a block image.
-/

namespace PgWaitTracer

open ByteCodec

/-! ### File headers -/

/-- `PGWT_TRACE_MAGIC`. -/
def traceMagic : UInt32 := 0x54574750

/-- `PGWT_TRACE_VERSION`. -/
def traceVersion : UInt16 := 3

/-- `struct pgwt_trace_file_header`, packed. -/
structure FileHeader where
  magic : UInt32
  version : UInt16
  flags : UInt16
  pgVersion : UInt32
  startTimeNs : UInt64
  clockOffsetNs : UInt64
  deriving DecidableEq, Repr

/-- The 28 bytes of a file header. -/
def FileHeader.bytes (h : FileHeader) : Bytes :=
  encodeU32 h.magic ++ (leBytes 2 h.version.toNat ++ (leBytes 2 h.flags.toNat ++
    (encodeU32 h.pgVersion ++ (encodeU64 h.startTimeNs ++ encodeU64 h.clockOffsetNs))))

/-- `fread` of a file header. -/
def readFileHeader : Reader FileHeader := fun bs => do
  let (magic, bs) ← decodeU32 bs
  let (version, bs) ← decodeU16 bs
  let (flags, bs) ← decodeU16 bs
  let (pgVersion, bs) ← decodeU32 bs
  let (startTimeNs, bs) ← decodeU64 bs
  let (clockOffsetNs, bs) ← decodeU64 bs
  pure (⟨magic, version, flags, pgVersion, startTimeNs, clockOffsetNs⟩, bs)

@[simp] theorem length_fileHeader_bytes (h : FileHeader) : h.bytes.length = 28 := by
  simp [FileHeader.bytes, encodeU64, encodeU32]

theorem inverts_fileHeader : Inverts readFileHeader FileHeader.bytes fun _ => True := by
  intro h _ rest
  have h64 := fun a bs => inverts_u64 a trivial bs
  have h32 := fun a bs => inverts_u32 a trivial bs
  have h16 := fun a bs => inverts_u16 a trivial bs
  simp only [FileHeader.bytes, List.append_assoc, readFileHeader, h64, h32, h16,
    Option.bind_eq_bind, Option.bind_some, Option.pure_def]

theorem eq_append_of_readFileHeader {bs rest : Bytes} {h : FileHeader}
    (hread : readFileHeader bs = some (h, rest)) : bs = h.bytes ++ rest := by
  simp only [readFileHeader, Option.bind_eq_bind, Option.bind_eq_some_iff, Option.pure_def,
    Option.some.injEq, Prod.exists, Prod.mk.injEq] at hread
  obtain ⟨_, b₁, h₁, _, b₂, h₂, _, b₃, h₃, _, b₄, h₄, _, b₅, h₅, _, b₆, h₆, rfl, rfl⟩ := hread
  have w₁ := eq_append_of_readWord UInt32.toNat (fun n hn => Nat.mod_eq_of_lt hn) h₁
  have w₂ := eq_append_of_readWord UInt16.toNat (fun n hn => Nat.mod_eq_of_lt hn) h₂
  have w₃ := eq_append_of_readWord UInt16.toNat (fun n hn => Nat.mod_eq_of_lt hn) h₃
  have w₄ := eq_append_of_readWord UInt32.toNat (fun n hn => Nat.mod_eq_of_lt hn) h₄
  have w₅ := eq_append_of_readWord UInt64.toNat (fun n hn => Nat.mod_eq_of_lt hn) h₅
  have w₆ := eq_append_of_readWord UInt64.toNat (fun n hn => Nat.mod_eq_of_lt hn) h₆
  simp only [FileHeader.bytes, encodeU32, encodeU64, List.append_assoc]
  rw [w₁, w₂, w₃, w₄, w₅, w₆]

/-- Rewrite the flags in place, at offset 6 (`write_header_flags`). -/
def writeHeaderFlags (file : Bytes) (flags : UInt16) : Bytes :=
  file.take 6 ++ (leBytes 2 flags.toNat ++ file.drop 8)

theorem writeHeaderFlags_append (h : FileHeader) (flags : UInt16) (rest : Bytes) :
    writeHeaderFlags (h.bytes ++ rest) flags = { h with flags := flags }.bytes ++ rest := by
  have htake : ∀ n, (leBytes 4 n).take 6 = leBytes 4 n := fun n =>
    List.take_of_length_le (by simp)
  have hdrop : ∀ n, (leBytes 4 n).drop 8 = [] := fun n => List.drop_eq_nil_of_le (by simp)
  have hdrop' : ∀ n, (leBytes 2 n).drop 4 = [] := fun n => List.drop_eq_nil_of_le (by simp)
  simp [writeHeaderFlags, FileHeader.bytes, encodeU32, List.take_append, List.drop_append, htake,
    hdrop, hdrop']

/-! ### Closure -/

/-- `PGWT_FLAG_LZ4`. -/
def flagLz4 : UInt16 := 0x0001

/-- `PGWT_FLAG_CLOSURE_TRACKED`. -/
def flagClosureTracked : UInt16 := 0x0002

/-- `PGWT_FLAG_CLOSED_CLEAN`. -/
def flagClosedClean : UInt16 := 0x0004

/-- `PGWT_FLAG_ROTATED`. -/
def flagRotated : UInt16 := 0x0008

/-- `PGWT_FLAG_RECOVERED`. -/
def flagRecovered : UInt16 := 0x0010

/-- How a trace file ended. -/
inductive Closure
  | unknown | inProgress | clean | rotated | unclean
  deriving DecidableEq, Repr

/-- `pgwt_closure_from_flags`: without the capability bit nothing is known, and contradictory
evidence is unclean. -/
def closureFromFlags (flags : UInt16) : Closure :=
  if flags &&& flagClosureTracked = 0 then .unknown
  else if flags &&& flagRecovered ≠ 0 then .unclean
  else if flags &&& flagClosedClean ≠ 0 ∧ flags &&& flagRotated ≠ 0 then .unclean
  else if flags &&& flagClosedClean ≠ 0 then .clean
  else if flags &&& flagRotated ≠ 0 then .rotated
  else .inProgress

/-! ### The index -/

/-- `struct pgwt_block_index_entry`. -/
structure IndexEntry where
  timestampNs : UInt64
  fileOffset : UInt64
  deriving DecidableEq, Repr

/-- The 16 bytes of an index entry. -/
def IndexEntry.bytes (e : IndexEntry) : Bytes := encodeU64 e.timestampNs ++ encodeU64 e.fileOffset

@[simp] theorem length_indexEntry_bytes (e : IndexEntry) : e.bytes.length = 16 := by
  simp [IndexEntry.bytes, encodeU64]

/-- `write_footer`: the entries and their number. -/
def footerBytes (index : List IndexEntry) : Bytes :=
  index.flatMap IndexEntry.bytes ++ leBytes 4 index.length

theorem length_flatMap_indexEntry : (index : List IndexEntry) →
    (index.flatMap IndexEntry.bytes).length = 16 * index.length
  | [] => rfl
  | e :: index => by
    rw [List.flatMap_cons, List.length_append, length_indexEntry_bytes,
      length_flatMap_indexEntry index, List.length_cons]
    omega

@[simp] theorem length_footerBytes (index : List IndexEntry) :
    (footerBytes index).length = 16 * index.length + 4 := by
  rw [footerBytes, List.length_append, length_flatMap_indexEntry, length_leBytes]

/-- `fread` of an index entry. -/
def readIndexEntry : Reader IndexEntry := fun bs => do
  let (timestampNs, bs) ← decodeU64 bs
  let (fileOffset, bs) ← decodeU64 bs
  pure (⟨timestampNs, fileOffset⟩, bs)

theorem inverts_indexEntry : Inverts readIndexEntry IndexEntry.bytes fun _ => True := by
  intro e _ rest
  have h64 := fun a bs => inverts_u64 a trivial bs
  simp only [IndexEntry.bytes, List.append_assoc, readIndexEntry, h64, Option.bind_eq_bind,
    Option.bind_some, Option.pure_def]

/-- The index a file carries in its footer: the last four bytes count the entries before them. -/
def footerIndex (file : Bytes) : Option (List IndexEntry) :=
  let count := leNat (file.drop (file.length - 4))
  if file.length < 4 + 16 * count then none
  else (readMany readIndexEntry count (file.drop (file.length - 4 - 16 * count))).map Prod.fst

/-- The entries in the footer are entries of the index it was written from. The count has 32 bits:
an index that is longer is cut to its end. -/
theorem footerIndex_append (front : Bytes) (index : List IndexEntry) :
    footerIndex (front ++ footerBytes index) =
      some (index.drop (index.length - index.length % 2 ^ 32)) := by
  set n := index.length % 2 ^ 32 with hn
  have hle : n ≤ index.length := Nat.mod_le _ _
  have hlen : (front ++ footerBytes index).length = front.length + 16 * index.length + 4 := by
    rw [List.length_append, length_footerBytes]
    omega
  have hcount : leNat ((front ++ footerBytes index).drop
      ((front ++ footerBytes index).length - 4)) = n := by
    have hdrop : (front ++ footerBytes index).drop ((front ++ footerBytes index).length - 4) =
        leBytes 4 index.length := by
      rw [hlen, footerBytes, ← List.append_assoc]
      refine List.drop_left' ?_
      rw [List.length_append, length_flatMap_indexEntry]
      omega
    rw [hdrop, leNat_leBytes, hn]
    norm_num
  have htail : (front ++ footerBytes index).drop
      ((front ++ footerBytes index).length - 4 - 16 * n) =
        (index.drop (index.length - n)).flatMap IndexEntry.bytes ++ leBytes 4 index.length := by
    have hsplit : footerBytes index = (index.take (index.length - n)).flatMap IndexEntry.bytes ++
        ((index.drop (index.length - n)).flatMap IndexEntry.bytes ++ leBytes 4 index.length) := by
      rw [footerBytes, ← List.append_assoc, ← List.flatMap_append, List.take_append_drop]
    rw [hlen, hsplit, ← List.append_assoc]
    refine List.drop_left' ?_
    rw [List.length_append, length_flatMap_indexEntry, List.length_take]
    omega
  have hmany := inverts_indexEntry.many (index.drop (index.length - n)) (fun _ _ => trivial)
    (leBytes 4 index.length)
  have hdroplen : (index.drop (index.length - n)).length = n := by
    rw [List.length_drop]
    omega
  rw [hdroplen] at hmany
  simp only [footerIndex, hcount, htail, hmany, Option.map_some]
  rw [if_neg (by omega)]

/-! ### Blocks -/

/-- `PGWT_MAX_BLOCK_COMPRESSED`. -/
def maxBlockCompressed : ℕ := 10 * 1024 * 1024

/-- A block in a file: a header and the compressed payload it announces. The bounds are those the
writer keeps and every scan checks. -/
structure BlockImage where
  header : BlockHeader
  payload : Bytes
  numEvents_pos : 0 < header.numEvents.toNat
  numEvents_le : header.numEvents.toNat ≤ blockEvents
  compressedSize_eq : header.compressedSize.toNat = payload.length
  payload_pos : 0 < payload.length
  payload_le : payload.length ≤ maxBlockCompressed
  blockType_le : header.blockType.toNat ≤ 15

/-- The bytes of a block. -/
def BlockImage.bytes (b : BlockImage) : Bytes := b.header.bytes ++ b.payload

/-- The size of a block in the file. -/
def BlockImage.size (b : BlockImage) : ℕ := 40 + b.payload.length

@[simp] theorem length_blockImage_bytes (b : BlockImage) : b.bytes.length = b.size := by
  rw [BlockImage.bytes, List.length_append, length_blockHeader_bytes, BlockImage.size]

/-- The index of consecutive blocks from an offset on. -/
def indexFrom : ℕ → List BlockImage → List IndexEntry
  | _, [] => []
  | pos, b :: bs => ⟨b.header.firstTimestampNs, UInt64.ofNat pos⟩ :: indexFrom (pos + b.size) bs

@[simp] theorem length_indexFrom : (pos : ℕ) → (bs : List BlockImage) →
    (indexFrom pos bs).length = bs.length
  | _, [] => rfl
  | pos, b :: bs => by
    rw [indexFrom, List.length_cons, length_indexFrom (pos + b.size) bs, List.length_cons]

/-- The total size of consecutive blocks. -/
def sizeOf : List BlockImage → ℕ
  | [] => 0
  | b :: bs => b.size + sizeOf bs

theorem length_flatMap_blockImage : (bs : List BlockImage) →
    (bs.flatMap BlockImage.bytes).length = sizeOf bs
  | [] => rfl
  | b :: bs => by
    rw [List.flatMap_cons, List.length_append, length_blockImage_bytes,
      length_flatMap_blockImage bs, sizeOf]

/-- **What the writer writes is a block image**, with the first timestamp of its records. -/
theorem typedBlock_image {lz : Lz4} {type : BlockType} {period : UInt64} {evs : List TraceEvent}
    {bytes : Bytes} (hpos : 1 ≤ evs.length) (hmax : evs.length ≤ blockEvents)
    (h : typedBlock lz type period evs = some bytes) :
    ∃ b : BlockImage, b.bytes = bytes ∧
      b.header.firstTimestampNs = (evs.head?.map (·.timestampNs)).getD 0 := by
  rw [typedBlock, blockOfPayload, if_neg (by omega), Option.bind_eq_bind,
    Option.bind_eq_some_iff] at h
  obtain ⟨c, hc, hb⟩ := h
  obtain ⟨hcpos, hcle⟩ := lz.length_compress _ _ c hc
  have hcmax : c.length ≤ maxBlockCompressed := le_trans hcle (by decide)
  have hmax' : evs.length ≤ 4096 := hmax
  have hnum : (UInt32.ofNat evs.length).toNat = evs.length := Nat.mod_eq_of_lt (by omega)
  have hcsize : (UInt32.ofNat c.length).toNat = c.length :=
    Nat.mod_eq_of_lt (lt_of_le_of_lt hcmax (by decide))
  refine ⟨⟨blockHeaderOf type period evs (encodePayload type evs).length c.length, c, ?_, ?_,
    hcsize, hcpos, hcmax, ?_⟩, Option.some.inj hb, rfl⟩
  · exact lt_of_lt_of_eq hpos hnum.symm
  · exact le_trans (le_of_eq hnum) hmax
  · change type.code.toNat ≤ 15
    cases type <;> decide

end PgWaitTracer
