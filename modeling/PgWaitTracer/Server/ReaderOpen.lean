import PgWaitTracer.EventWriter.Closure

/-!
# Opening a trace file

`pgwt_reader_open` (`src/event_reader.c`) finds the blocks of a file in one of three ways: it scans
as many headers as the meta file has committed, it trusts the footer, or it scans until a header is
not plausible. The scans check every header that they index. The footer is checked for its shape
alone, and `uncompressed_size` is checked nowhere; `pgwt_reader_decode_block_info` makes its buffers
as large as the header says.

Allocations of the index succeed. Whether a decode buffer can grow is an input.

## Main results

* `withinCaps_iff`: the caps hold for exactly the files whose headers are honest.
-/

namespace PgWaitTracer

open ByteCodec

/-! ### The index -/

/-- A trace file. Its size is an `off_t`. -/
structure TraceBytes where
  bytes : Bytes
  length_lt : bytes.length < 2 ^ 63

/-- The block header at an offset, if the file has 40 bytes there. -/
def headerAt (file : Bytes) (pos : ℕ) : Option BlockHeader :=
  (readBlockHeader (file.drop pos)).map Prod.fst

/-- The checks of both scans. -/
def BlockHeader.isPlausible (bh : BlockHeader) : Bool :=
  0 < bh.compressedSize.toNat && 0 < bh.numEvents.toNat && bh.numEvents.toNat ≤ blockEvents &&
    bh.compressedSize.toNat ≤ maxBlockCompressed

/-- The scan of at most `k` headers from an offset on. -/
def scanIndex (file : Bytes) : ℕ → ℕ → List IndexEntry
  | 0, _ => []
  | k + 1, pos =>
    match headerAt file pos with
    | none => []
    | some bh =>
      if bh.isPlausible then
        ⟨bh.firstTimestampNs, UInt64.ofNat pos⟩ ::
          scanIndex file k (pos + 40 + bh.compressedSize.toNat)
      else []

/-- The scan of the committed blocks. `committed` is the number that `fscanf` reads from the meta
file, none if there is no file or no number. -/
def committedIndex (file : Bytes) (committed : Option ℤ) : List IndexEntry :=
  match committed with
  | none => []
  | some n => if 0 < n ∧ n < maxReadBlocks then scanIndex file n.toNat 28 else []

/-- Offsets that increase and stay before the footer. -/
def ascends (start : ℕ) : IndexEntry → List IndexEntry → Bool
  | _, [] => true
  | e, e' :: es =>
    e.fileOffset < e'.fileOffset && e'.fileOffset.toNat < start && ascends start e' es

/-- The footer of a file, if it has the shape of one. -/
def readerFooter (file : Bytes) : Option (List IndexEntry) :=
  let nb := leNat (file.drop (file.length - 4))
  if nb = 0 ∨ maxReadBlocks ≤ nb then none
  else if file.length < 28 + 4 + 16 * nb then none
  else
    match footerIndex file with
    | none => none
    | some [] => none
    | some (e :: es) =>
      if e.fileOffset = 28 ∧ ascends (file.length - 4 - 16 * nb) e es then some (e :: es) else none

/-- Where an index is from. -/
inductive IndexSource
  | committed | footer | scan
  deriving DecidableEq, Repr

/-- The three strategies in their order. The last scan has no bound; there are not more headers than
the file has bytes (`scanIndex_of_le`). -/
def openIndex (file : Bytes) (committed : Option ℤ) : Option (IndexSource × List IndexEntry) :=
  if committedIndex file committed ≠ [] then some (.committed, committedIndex file committed)
  else
    match readerFooter file with
    | some index => some (.footer, index)
    | none =>
      if scanIndex file file.length 28 = [] then none
      else some (.scan, scanIndex file file.length 28)

/-- `pgwt_reader_open`. -/
def readerOpen (file : Bytes) (committed : Option ℤ) : Option (IndexSource × List IndexEntry) :=
  match readFileHeader file with
  | none => none
  | some (hdr, _) =>
    if hdr.magic ≠ traceMagic ∨ hdr.version < 2 ∨ traceVersion < hdr.version then none
    else openIndex file committed

/-! ### Decoding -/

/-- The sizes of the two buffers of a reader. -/
structure DecodeBuffers where
  compressSize : ℕ := blockEvents * 36 + blockEvents * 10
  decodeSize : ℕ := blockEvents * 36 + blockEvents * 10

/-- `pgwt_reader_decode_block_info` up to the decompression: the buffers after it, and the sizes it
asked for. `alloc` says which sizes can be had. -/
def growBuffers (file : Bytes) (index : List IndexEntry) (b : DecodeBuffers) (blockIdx : ℕ)
    (alloc : ℕ → Bool) : DecodeBuffers × List ℕ :=
  match index[blockIdx]? with
  | none => (b, [])
  | some e =>
    match readBlockHeader (file.drop e.fileOffset.toNat) with
    | none => (b, [])
    | some (bh, rest) =>
      if 1 < bh.blockType then (b, [])
      else
        let c := bh.compressedSize.toNat
        let u := bh.uncompressedSize.toNat
        if b.compressSize < c ∧ !alloc c then (b, [c])
        else
          let asked := if b.compressSize < c then [c] else []
          let b := { b with compressSize := max b.compressSize c }
          if rest.length < c then (b, asked)
          else if b.decodeSize < u then
            (if alloc u then { b with decodeSize := u } else b, asked ++ [u])
          else (b, asked)

/-- The sizes that a run of decodes asks for, each of a block and with what can be allocated. -/
def askedFor (file : Bytes) (index : List IndexEntry) : DecodeBuffers → List (ℕ × (ℕ → Bool)) →
    List ℕ
  | _, [] => []
  | b, (blockIdx, alloc) :: calls =>
    let r := growBuffers file index b blockIdx alloc
    r.2 ++ askedFor file index r.1 calls

/-! ### The caps -/

/-- **The caps.** Every entry of the index points at a header in the file whose numbers are in
bounds, and no run of decodes asks for more than the cap of a block. -/
structure WithinCaps (file : Bytes) (index : List IndexEntry) : Prop where
  headers : ∀ e ∈ index, ∃ bh, headerAt file e.fileOffset.toNat = some bh ∧
    0 < bh.numEvents.toNat ∧ bh.numEvents.toNat ≤ blockEvents ∧
    0 < bh.compressedSize.toNat ∧ bh.compressedSize.toNat ≤ maxBlockCompressed
  growth : ∀ calls, ∀ n ∈ askedFor file index {} calls, n ≤ maxBlockCompressed

/-- What the headers of the file must say. The entries of a footer point at plausible headers; and
no block of a known type with its payload in the file claims to be larger than the cap. -/
structure SizesHonest (file : Bytes) (source : IndexSource) (index : List IndexEntry) : Prop where
  footer : source = .footer → ∀ e ∈ index, ∃ bh, headerAt file e.fileOffset.toNat = some bh ∧
    bh.isPlausible = true
  payload : ∀ e ∈ index, ∀ bh rest,
    readBlockHeader (file.drop e.fileOffset.toNat) = some (bh, rest) → ¬ 1 < bh.blockType →
    bh.compressedSize.toNat ≤ rest.length → bh.uncompressedSize.toNat ≤ maxBlockCompressed

/-! ### Scans -/

variable {file : Bytes}

theorem le_length_of_headerAt {pos : ℕ} {bh : BlockHeader} (h : headerAt file pos = some bh) :
    pos + 40 ≤ file.length := by
  obtain ⟨⟨bh', rest⟩, hread, -⟩ := Option.map_eq_some_iff.1 h
  have hlen := length_of_readBlockHeader hread
  rw [List.length_drop] at hlen
  omega

/-- **A scan indexes plausible headers.** -/
theorem mem_scanIndex (hlt : file.length < 2 ^ 63) : (k pos : ℕ) → ∀ e ∈ scanIndex file k pos,
    ∃ bh, headerAt file e.fileOffset.toNat = some bh ∧ bh.isPlausible = true
  | 0, _, _, he => absurd he List.not_mem_nil
  | k + 1, pos, e, he => by
    rw [scanIndex] at he
    rcases hread : headerAt file pos with _ | bh
    · rw [hread] at he
      exact absurd he List.not_mem_nil
    · simp only [hread] at he
      split_ifs at he with hplausible
      · rcases List.mem_cons.1 he with rfl | he
        · have hpos := le_length_of_headerAt hread
          have hoff : (UInt64.ofNat pos).toNat = pos := by
            rw [UInt64.toNat_ofNat']
            exact Nat.mod_eq_of_lt (by omega)
          exact ⟨bh, by rw [hoff]; exact hread, hplausible⟩
        · exact mem_scanIndex hlt k _ e he
      · exact absurd he List.not_mem_nil

variable {index : List IndexEntry}

/-- What is opened other than by its footer has plausible headers. -/
theorem plausible_of_readerOpen {t : TraceBytes} {committed : Option ℤ} {source : IndexSource}
    (h : readerOpen t.bytes committed = some (source, index))
    (hfooter : source = .footer → ∀ e ∈ index, ∃ bh,
      headerAt t.bytes e.fileOffset.toNat = some bh ∧ bh.isPlausible = true) :
    ∀ e ∈ index, ∃ bh, headerAt t.bytes e.fileOffset.toNat = some bh ∧ bh.isPlausible = true := by
  rw [readerOpen] at h
  split at h
  · exact absurd h (by simp)
  split_ifs at h
  rw [openIndex] at h
  by_cases hcommitted : committedIndex t.bytes committed = []
  · rw [if_neg (not_not.2 hcommitted)] at h
    split at h
    · -- the footer
      obtain ⟨rfl, rfl⟩ := Prod.ext_iff.1 (Option.some.inj h)
      exact hfooter rfl
    · -- the scan
      split_ifs at h
      obtain ⟨-, rfl⟩ := Prod.ext_iff.1 (Option.some.inj h)
      exact mem_scanIndex t.length_lt _ _
  · -- the committed blocks
    rw [if_pos hcommitted] at h
    obtain ⟨-, rfl⟩ := Prod.ext_iff.1 (Option.some.inj h)
    simp only [committedIndex]
    split
    · exact fun _ he => absurd he List.not_mem_nil
    · split_ifs
      · exact mem_scanIndex t.length_lt _ _
      · exact fun _ he => absurd he List.not_mem_nil

theorem plausible_iff (bh : BlockHeader) :
    bh.isPlausible = true ↔ 0 < bh.numEvents.toNat ∧ bh.numEvents.toNat ≤ blockEvents ∧
      0 < bh.compressedSize.toNat ∧ bh.compressedSize.toNat ≤ maxBlockCompressed := by
  simp only [BlockHeader.isPlausible, Bool.and_eq_true, decide_eq_true_eq]
  tauto

/-! ### Growth -/

/-- What a decode asks for is a size in the header of its block. -/
theorem mem_growBuffers {b : DecodeBuffers} {blockIdx : ℕ} {alloc : ℕ → Bool} {n : ℕ}
    (h : n ∈ (growBuffers file index b blockIdx alloc).2) :
    ∃ e ∈ index, ∃ bh rest, readBlockHeader (file.drop e.fileOffset.toNat) = some (bh, rest) ∧
      (n = bh.compressedSize.toNat ∨ n = bh.uncompressedSize.toNat ∧ ¬ 1 < bh.blockType ∧
        bh.compressedSize.toNat ≤ rest.length) := by
  rw [growBuffers] at h
  split at h
  · exact absurd h List.not_mem_nil
  · rename_i e he
    split at h
    · exact absurd h List.not_mem_nil
    · rename_i bh rest hread
      refine ⟨e, List.mem_of_getElem? he, bh, rest, hread, ?_⟩
      by_cases htype : 1 < bh.blockType
      · rw [if_pos htype] at h
        exact absurd h List.not_mem_nil
      rw [if_neg htype] at h
      simp only at h
      have hc : ∀ m : ℕ, m ∈ (if b.compressSize < bh.compressedSize.toNat then
          [bh.compressedSize.toNat] else []) → m = bh.compressedSize.toNat := by
        intro m hm
        split_ifs at hm
        · exact List.mem_singleton.1 hm
        · exact absurd hm List.not_mem_nil
      split at h
      · exact Or.inl (List.mem_singleton.1 h)
      split at h
      · exact Or.inl (hc n h)
      rename_i hpayload
      split at h
      · rcases List.mem_append.1 h with h | h
        · exact Or.inl (hc n h)
        · exact Or.inr ⟨List.mem_singleton.1 h, htype, not_lt.1 hpayload⟩
      · exact Or.inl (hc n h)

theorem mem_askedFor {n : ℕ} (calls : List (ℕ × (ℕ → Bool))) :
    (b : DecodeBuffers) → n ∈ askedFor file index b calls →
    ∃ e ∈ index, ∃ bh rest, readBlockHeader (file.drop e.fileOffset.toNat) = some (bh, rest) ∧
      (n = bh.compressedSize.toNat ∨ n = bh.uncompressedSize.toNat ∧ ¬ 1 < bh.blockType ∧
        bh.compressedSize.toNat ≤ rest.length) := by
  induction calls with
  | nil => exact fun _ h => absurd h List.not_mem_nil
  | cons call calls ih =>
    intro b h
    rw [askedFor] at h
    rcases List.mem_append.1 h with h | h
    · exact mem_growBuffers h
    · exact ih _ h

theorem uncompressedSize_mem_askedFor {e : IndexEntry} {blockIdx : ℕ}
    (he : index[blockIdx]? = some e) {bh : BlockHeader} {rest : Bytes}
    (hread : readBlockHeader (file.drop e.fileOffset.toNat) = some (bh, rest))
    (htype : ¬ 1 < bh.blockType) (hpayload : bh.compressedSize.toNat ≤ rest.length)
    (hbuf : blockEvents * 36 + blockEvents * 10 < bh.uncompressedSize.toNat) :
    bh.uncompressedSize.toNat ∈ askedFor file index {} [(blockIdx, fun _ => true)] := by
  have hgrow : bh.uncompressedSize.toNat ∈
      (growBuffers file index {} blockIdx fun _ => true).2 := by
    simp only [growBuffers, he, hread, if_neg htype, Bool.not_true, Bool.false_eq_true, and_false,
      if_false, if_neg (not_lt.2 hpayload), if_pos hbuf]
    exact List.mem_append_right _ (List.mem_singleton_self _)
  rw [askedFor]
  exact List.mem_append_left _ hgrow

/-! ### The caps -/

/-- **The caps hold for exactly the files whose headers are honest.** For an index that a scan made,
this leaves the uncompressed sizes to be in bounds; for a footer, all that its entries point at. -/
theorem withinCaps_iff {t : TraceBytes} {committed : Option ℤ} {source : IndexSource}
    {index : List IndexEntry} (h : readerOpen t.bytes committed = some (source, index)) :
    WithinCaps t.bytes index ↔ SizesHonest t.bytes source index := by
  constructor
  · intro hcaps
    refine ⟨fun _ e he => ?_, fun e he bh rest hread htype hpayload => ?_⟩
    · obtain ⟨bh, hread, hbounds⟩ := hcaps.headers e he
      exact ⟨bh, hread, (plausible_iff bh).2 hbounds⟩
    · rcases Nat.lt_or_ge (blockEvents * 36 + blockEvents * 10) bh.uncompressedSize.toNat
        with hbuf | hbuf
      · obtain ⟨blockIdx, hidx⟩ := List.mem_iff_getElem?.1 he
        exact hcaps.growth _ _ (uncompressedSize_mem_askedFor hidx hread htype hpayload hbuf)
      · exact hbuf.trans (by decide)
  · intro hhonest
    have hplausible := plausible_of_readerOpen h hhonest.footer
    refine ⟨fun e he => ?_, fun calls n hn => ?_⟩
    · obtain ⟨bh, hread, hbh⟩ := hplausible e he
      exact ⟨bh, hread, (plausible_iff bh).1 hbh⟩
    · obtain ⟨e, he, bh, rest, hread, hsize⟩ := mem_askedFor calls _ hn
      rcases hsize with rfl | ⟨rfl, htype, hpayload⟩
      · obtain ⟨bh', hread', hbh⟩ := hplausible e he
        rw [headerAt, hread] at hread'
        obtain rfl := Option.some.inj hread'
        exact ((plausible_iff _).1 hbh).2.2.2
      · exact hhonest.payload e he bh rest hread htype hpayload

/-- A file of one block. -/
def oneBlockFile (bh : BlockHeader) (payload footer : Bytes) : Bytes :=
  FileHeader.bytes ⟨traceMagic, 3, 0, 17, 1, 2⟩ ++ (bh.bytes ++ (payload ++ footer))

theorem withinCaps_one :
    WithinCaps (oneBlockFile ⟨1, 2, 3, 1, 80, 0, 0, 0⟩ [0] []) [⟨1, 28⟩] := by
  have hopen : readerOpen (oneBlockFile ⟨1, 2, 3, 1, 80, 0, 0, 0⟩ [0] []) (some 1) =
      some (.committed, [⟨1, 28⟩]) := by decide +kernel
  refine (withinCaps_iff (t := ⟨oneBlockFile ⟨1, 2, 3, 1, 80, 0, 0, 0⟩ [0] [], by decide +kernel⟩)
    hopen).2 ⟨fun h => absurd h (by decide), fun e he bh rest hread _ _ => ?_⟩
  obtain rfl := List.mem_singleton.1 he
  have hbh : readBlockHeader ((oneBlockFile ⟨1, 2, 3, 1, 80, 0, 0, 0⟩ [0] []).drop 28) =
      some (⟨1, 2, 3, 1, 80, 0, 0, 0⟩, [0]) := by decide +kernel
  obtain ⟨rfl, -⟩ := Prod.ext_iff.1 (Option.some.inj (hread.symm.trans hbh))
  decide

/-- A footer of the right shape is believed, with a header that has 5000 events and 4 GiB; and a
header that passes all checks of a scan may still ask for 4 GiB to decode to. -/
theorem readerOpen_overCap :
    (readerOpen (oneBlockFile ⟨1, 2, 5000, 0xFFFFFFFF, 80, 0, 0, 0⟩ [0] (footerBytes [⟨1, 28⟩]))
        none = some (.footer, [⟨1, 28⟩]) ∧
      ¬ WithinCaps
        (oneBlockFile ⟨1, 2, 5000, 0xFFFFFFFF, 80, 0, 0, 0⟩ [0] (footerBytes [⟨1, 28⟩]))
        [⟨1, 28⟩]) ∧
    (readerOpen (oneBlockFile ⟨1, 2, 3, 1, 0xFFFFFFFF, 0, 0, 0⟩ [0] []) (some 1) =
        some (.committed, [⟨1, 28⟩]) ∧
      ¬ WithinCaps (oneBlockFile ⟨1, 2, 3, 1, 0xFFFFFFFF, 0, 0, 0⟩ [0] []) [⟨1, 28⟩]) := by
  refine ⟨⟨by decide +kernel, fun hcaps => ?_⟩, by decide +kernel, fun hcaps => ?_⟩
  all_goals
    have hgrow := hcaps.growth [(0, fun _ => false)] 0xFFFFFFFF (by decide +kernel)
    exact absurd hgrow (by decide)

end PgWaitTracer
