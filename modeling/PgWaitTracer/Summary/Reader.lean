import Mathlib.Data.List.Sort
import PgWaitTracer.EventWriter.Recovery
import PgWaitTracer.Lib.BinarySearch
import PgWaitTracer.Summary.Serialize
import PgWaitTracer.Trace.ArchiveName

/-!
# The summary reader

A window is answered from the summary files of a directory (`src/summary_reader.c`). The directory
is scanned for archives and for `current.summary`; a file whose hour does not meet the window is left
out; in a file that is opened, the first block is found by binary search in the block index, and of
the records that decode those in the window are handed to a visitor. Before that, the preflight
`pgwt_summaries_window_current` looks at the header of every file in the window.

A directory is a list of named files in the order of `readdir`, which does not change between the
preflight and the visit. `mktime` depends on the time zone of the host and is a parameter. Memory
can be allocated, and no path is cut off.
-/

namespace PgWaitTracer

open ByteCodec

/-! ### One file -/

/-- `PGWT_SUMMARY_MAGIC`. -/
def summaryMagic : UInt32 := 0x53574750

/-- `struct pgwt_summary_block_header`, packed. -/
structure SummaryBlockHeader where
  wallNs : UInt64
  counts : EntryCounts
  compressedSize : UInt32
  uncompressedSize : UInt32
  deriving DecidableEq, Repr

/-- `fread` of the 24 bytes of a block header. -/
def readSummaryBlockHeader : Reader SummaryBlockHeader := fun bs => do
  let (wallNs, bs) ← decodeU64 bs
  let (numEvents, bs) ← decodeU32 bs
  let (numSessions, bs) ← decodeU16 bs
  let (numQueries, bs) ← decodeU16 bs
  let (compressedSize, bs) ← decodeU32 bs
  let (uncompressedSize, bs) ← decodeU32 bs
  pure (⟨wallNs, ⟨numEvents, numSessions, numQueries⟩, compressedSize, uncompressedSize⟩, bs)

/-- The 24 bytes of a block header. -/
def SummaryBlockHeader.bytes (bh : SummaryBlockHeader) : Bytes :=
  encodeU64 bh.wallNs ++ (encodeU32 bh.counts.numEvents ++ (leBytes 2 bh.counts.numSessions.toNat ++
    (leBytes 2 bh.counts.numQueries.toNat ++ (encodeU32 bh.compressedSize ++
      encodeU32 bh.uncompressedSize))))

@[simp] theorem length_summaryBlockHeader_bytes (bh : SummaryBlockHeader) :
    bh.bytes.length = 24 := by
  simp [SummaryBlockHeader.bytes, encodeU64, encodeU32]

theorem inverts_summaryBlockHeader :
    Inverts readSummaryBlockHeader SummaryBlockHeader.bytes fun _ => True := by
  intro bh _ rest
  have h64 := fun a bs => inverts_u64 a trivial bs
  have h32 := fun a bs => inverts_u32 a trivial bs
  have h16 := fun a bs => inverts_u16 a trivial bs
  simp only [SummaryBlockHeader.bytes, List.append_assoc, readSummaryBlockHeader, h64, h32, h16,
    Option.bind_eq_bind, Option.bind_some, Option.pure_def]

/-- An open file: its bytes, its header and the index of its blocks. -/
structure SummaryReader where
  file : Bytes
  header : FileHeader
  blockIndex : List IndexEntry

/-- The index entries of consecutive blocks from an offset on, at most `n` of them, up to a header
that is not complete or that is refused. -/
def scanSummaryBlocks (ok : SummaryBlockHeader → Bool) (file : Bytes) : ℕ → ℕ → List IndexEntry
  | 0, _ => []
  | n + 1, off =>
    match readSummaryBlockHeader (file.drop off) with
    | none => []
    | some (bh, _) =>
      if ok bh then
        ⟨bh.wallNs, UInt64.ofNat off⟩ ::
          scanSummaryBlocks ok file n (off + 24 + bh.compressedSize.toNat)
      else []

/-- The committed block count in a meta file. -/
def readMeta (content : Bytes) : Option ℤ :=
  (scanInt content.length (content.map fun b => Char.ofNat b.toNat)).map Prod.fst

/-- Strategy 1: as many blocks as the meta file commits. -/
def metaIndex (file : Bytes) (committed : ℤ) : List IndexEntry :=
  if 0 < committed ∧ committed < maxReadBlocks then
    scanSummaryBlocks (fun bh => 0 < bh.compressedSize.toNat &&
      bh.compressedSize.toNat ≤ maxBlockCompressed) file committed.toNat 28
  else []

/-- The index starts behind the file header, and its offsets increase within the blocks. -/
def indexShapeOk (indexStart : ℕ) : List IndexEntry → Bool
  | [] => true
  | e :: l => e.fileOffset = 28 &&
    (List.zip (e :: l) l).all fun p =>
      p.1.fileOffset < p.2.fileOffset && p.2.fileOffset.toNat < indexStart

/-- Strategy 2: the footer, if it has the shape of an index. -/
def summaryFooterIndex (file : Bytes) : Option (List IndexEntry) :=
  let nb := leNat (file.drop (file.length - 4))
  let indexStart := file.length - 4 - 16 * nb
  if 4 ≤ file.length ∧ 0 < nb ∧ nb < maxReadBlocks ∧ 28 + 16 * nb + 4 ≤ file.length then do
    let (index, _) ← readMany readIndexEntry nb (file.drop indexStart)
    if indexShapeOk indexStart index then some index else none
  else none

/-- Strategy 3: every block up to the first header that makes no sense. -/
def sequentialIndex (file : Bytes) : List IndexEntry :=
  scanSummaryBlocks (fun bh => 0 < bh.compressedSize.toNat && 0 < bh.uncompressedSize.toNat &&
    bh.compressedSize.toNat ≤ maxBlockCompressed &&
    bh.uncompressedSize.toNat ≤ maxBlockCompressed) file file.length 28

/-- The block index of a file, by the first strategy that gives one. -/
def summaryBlockIndex (file : Bytes) (metaFile : Option Bytes) : List IndexEntry :=
  match (metaFile.bind readMeta).map (metaIndex file) with
  | some (e :: l) => e :: l
  | _ => (summaryFooterIndex file).getD (sequentialIndex file)

/-- `pgwt_summary_reader_open` on the bytes of a file and of its meta file, if there is one. -/
def openSummary (file : Bytes) (metaFile : Option Bytes) : Option SummaryReader := do
  let (header, _) ← readFileHeader file
  if header.magic = summaryMagic ∧ header.version.toNat = summaryVersion then
    some ⟨file, header, summaryBlockIndex file metaFile⟩
  else none

/-- A decoded record with the second it stands for. -/
structure SummaryRecord where
  secondWallNs : UInt64
  accum : SummaryAccum

/-- The size of the decode buffer of a reader that was just opened. -/
def decodeBufSize : ℕ := 300 * 1024

/-- `pgwt_summary_reader_decode_block`, with the size of the decode buffer, which a large block
makes grow. -/
def summaryDecodeBlock (lz : Lz4) (r : SummaryReader) (buf b : ℕ) : ℕ × Option SummaryRecord :=
  match r.blockIndex[b]? with
  | none => (buf, none)
  | some e =>
    match readSummaryBlockHeader (r.file.drop e.fileOffset.toNat) with
    | none => (buf, none)
    | some (bh, rest) =>
      match readChunk bh.compressedSize.toNat rest with
      | none => (buf, none)
      | some (compressed, _) =>
        let buf := if buf < bh.uncompressedSize.toNat then bh.uncompressedSize.toNat else buf
        (buf, do
          let payload ← lz.decompress compressed buf
          let accum ← summaryDeserialize r.header.version.toNat bh.counts.accum payload
          pure ⟨bh.wallNs, accum⟩)

/-- `pgwt_summary_reader_find_block`: the last block that is not later than a time. -/
def summaryFindBlock (r : SummaryReader) (wallNs : UInt64) : ℕ :=
  BinarySearch.lowerBound (fun b => (r.blockIndex[b]?).any fun e => e.timestampNs ≤ wallNs)
    r.blockIndex.length - 1

/-! ### The directory -/

/-- A file of a directory; one that cannot be opened has no content. -/
structure DirEntry where
  name : List Char
  content : Option Bytes

/-- A directory, in the order of `readdir`. -/
structure TraceDir where
  entries : List DirEntry
  nodup : (entries.map DirEntry.name).Nodup

/-- `fopen` of a file of the directory. -/
def TraceDir.fopen (d : TraceDir) (name : List Char) : Option Bytes :=
  (d.entries.find? fun e => e.name = name).bind DirEntry.content

/-- `.summary.lz4`. -/
def archiveSuffix : List Char := ['.', 's', 'u', 'm', 'm', 'a', 'r', 'y', '.', 'l', 'z', '4']

/-- `current.summary`. -/
def currentSummary : List Char :=
  ['c', 'u', 'r', 'r', 'e', 'n', 't', '.', 's', 'u', 'm', 'm', 'a', 'r', 'y']

/-- The date of an archive, if the name is that of one. What stands between the hour and the suffix
does not count. -/
def archiveDate (name : List Char) : Option ArchiveDate :=
  if strstr name archiveSuffix = some archiveSuffix then do
    let (year, cs) ← scanInt 4 name
    let cs ← scanChar '-' cs
    let (month, cs) ← scanInt 2 cs
    let cs ← scanChar '-' cs
    let (day, cs) ← scanInt 2 cs
    let cs ← scanChar '_' cs
    let (hour, _) ← scanInt 2 cs
    pure ⟨year, month, day, hour⟩
  else none

/-- `struct pgwt_summary_file_entry`; a start of 0 is unknown. -/
structure SummaryFileEntry where
  path : List Char
  startWallNs : UInt64

/-- The start in the header of a file, 0 without a header. -/
def headerStart (content : Option Bytes) : UInt64 :=
  match content.bind readFileHeader with
  | some (h, _) => if h.magic = summaryMagic then h.startTimeNs else 0
  | none => 0

/-- The start by the name of an archive, 0 if `mktime` cannot place it. -/
def nameStart (mktime : ArchiveDate → ℤ) (date : ArchiveDate) : UInt64 :=
  let t := mktime date
  if t ≤ 0 then 0 else UInt64.ofNat t.toNat * 1000000000

/-- How the scan lists a file: an archive always, `current.summary` if its header has a start. -/
def summaryEntry (mktime : ArchiveDate → ℤ) (d : TraceDir) (e : DirEntry) :
    Option SummaryFileEntry :=
  let start := headerStart (d.fopen e.name)
  match archiveDate e.name with
  | some date => some ⟨e.name, if 0 < start then start else nameStart mktime date⟩
  | none => if e.name = currentSummary ∧ 0 < start then some ⟨e.name, start⟩ else none

/-- The files that a scan without a bound lists, in the order of the directory. -/
def listedFiles (mktime : ArchiveDate → ℤ) (d : TraceDir) : List SummaryFileEntry :=
  d.entries.filterMap (summaryEntry mktime d)

/-- The `max_entries` of both callers. -/
def maxScanEntries : ℕ := 256

/-- `pgwt_scan_summary_files`: the first `maxEntries` files, sorted by start. -/
def scanSummaryFiles (mktime : ArchiveDate → ℤ) (d : TraceDir) (maxEntries : ℕ) :
    List SummaryFileEntry :=
  ((listedFiles mktime d).take maxEntries).insertionSort fun a b => a.startWallNs ≤ b.startWallNs

/-- `summary_file_in_window`. The end of the hour is a 64-bit word. -/
def summaryFileInWindow (e : SummaryFileEntry) (fromNs toNs : UInt64) : Bool :=
  e.startWallNs = 0 ||
    !(0 < toNs && toNs < e.startWallNs) &&
      !(0 < fromNs && e.startWallNs + 3600 * 1000000000 < fromNs)

/-! ### The preflight -/

/-- The header of a file can be computed from. -/
def headerCurrent (content : Option Bytes) : Bool :=
  match content.bind readFileHeader with
  | some (h, _) => h.magic = summaryMagic && h.version.toNat = summaryVersion
  | none => false

/-- There is a `current.summary` that the scanner drops. -/
def currentHidden (d : TraceDir) : Bool :=
  (d.fopen currentSummary).any fun content => headerStart (some content) = 0

/-- How many files the preflight considers, and how many of them are unusable. -/
def windowFiles (mktime : ArchiveDate → ℤ) (d : TraceDir) (fromNs toNs : UInt64) : ℕ × ℕ :=
  let considered := (scanSummaryFiles mktime d maxScanEntries).filter
    fun e => summaryFileInWindow e fromNs toNs
  let unusable := considered.filter fun e => !headerCurrent (d.fopen e.path)
  let hidden := if currentHidden d then 1 else 0
  (considered.length + hidden, unusable.length + hidden)

/-- `pgwt_summaries_window_current`; a directory that cannot be opened is refused. -/
def summariesWindowCurrent (mktime : ArchiveDate → ℤ) (d : Option TraceDir) (fromNs toNs : UInt64) :
    Bool :=
  match d with
  | none => false
  | some d =>
    let (considered, unusable) := windowFiles mktime d fromNs toNs
    considered ≠ 0 && unusable = 0

/-! ### The visit -/

/-- The state of a visit: the number of calls, the state of the visitor, and its wish to stop. -/
structure Visit (σ : Type*) where
  total : ℕ
  state : σ
  stop : Bool

/-- The half-open window; a bound of 0 is none. -/
def SummaryRecord.inWindow (fromNs toNs : UInt64) (rec : SummaryRecord) : Bool :=
  !(0 < fromNs && rec.secondWallNs < fromNs) && !(0 < toNs && toNs ≤ rec.secondWallNs)

/-- The blocks of a file from the first one on, up to one that starts after the window. -/
def visitBlocks {σ : Type*} (lz : Lz4) (r : SummaryReader) (fromNs toNs : UInt64)
    (visitor : σ → SummaryRecord → σ × Bool) : List ℕ → ℕ → Visit σ → Visit σ
  | [], _, v => v
  | b :: bs, buf, v =>
    if v.stop then v
    else if 0 < toNs ∧ (r.blockIndex[b]?).any fun e => toNs < e.timestampNs then v
    else
      let (buf, rec?) := summaryDecodeBlock lz r buf b
      match rec? with
      | none => visitBlocks lz r fromNs toNs visitor bs buf v
      | some rec =>
        if rec.inWindow fromNs toNs then
          let (s, stop) := visitor v.state rec
          visitBlocks lz r fromNs toNs visitor bs buf ⟨v.total + 1, s, stop⟩
        else visitBlocks lz r fromNs toNs visitor bs buf v

/-- `pgwt_summary_reader_open` on a file of the directory. -/
def summaryReaderOpen (d : TraceDir) (path : List Char) : Option SummaryReader :=
  (d.fopen path).bind fun file => openSummary file (d.fopen (path ++ ['.', 'm', 'e', 't', 'a']))

/-- One file of a visit; what cannot be opened is skipped. -/
def visitFile {σ : Type*} (lz : Lz4) (d : TraceDir) (fromNs toNs : UInt64)
    (visitor : σ → SummaryRecord → σ × Bool) (v : Visit σ) (e : SummaryFileEntry) : Visit σ :=
  if v.stop || !summaryFileInWindow e fromNs toNs then v
  else
    match summaryReaderOpen d e.path with
    | none => v
    | some r =>
      let start := if 0 < fromNs then summaryFindBlock r fromNs else 0
      visitBlocks lz r fromNs toNs visitor
        (List.range' start (r.blockIndex.length - start)) decodeBufSize v

/-- `pgwt_visit_summaries` on a directory that can be opened. -/
def visitSummaries {σ : Type*} (lz : Lz4) (mktime : ArchiveDate → ℤ) (d : TraceDir)
    (fromNs toNs : UInt64) (visitor : σ → SummaryRecord → σ × Bool) (s : σ) : Visit σ :=
  (scanSummaryFiles mktime d maxScanEntries).foldl (visitFile lz d fromNs toNs visitor)
    ⟨0, s, false⟩

end PgWaitTracer
