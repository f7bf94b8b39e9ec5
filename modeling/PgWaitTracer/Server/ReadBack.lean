import PgWaitTracer.EventWriter.Closure
import PgWaitTracer.Server.ReaderOpen

/-!
# Reading files back

What the writer or a recovery has finished is opened by its footer, and each entry of the index
decodes to the records that one block was written from. The files are read as archives are, which
have no meta file beside them.

## Main results

* `certified_readsBack`: no record of a certified file is lost on the way.
* `recovered_readsBack`: no block that was complete before a crash is lost on the way.
-/

namespace PgWaitTracer

open ByteCodec

/-- `pgwt_reader_open` of a file without a meta file: the reader of its index. -/
def openReader (file : Bytes) : Option EventReader := do
  let (hdr, _) ← readFileHeader file
  let (_, index) ← readerOpen file none
  pure { file, version := hdr.version, blockOffsets := index.map (·.fileOffset)
         decodeBufSize_lt := initialDecodeBuf_lt }

/-- What becomes of a record in a block of the type. -/
def BlockType.stored : BlockType → TraceEvent → TraceEvent
  | .transitions => TraceEvent.asTransition
  | .samples => TraceEvent.asSample

variable {lz : Lz4} {hdr : FileHeader} {blocks : List (WrittenBlock lz)} {file : Bytes} {i : ℕ}

/-- The file opens, and its blocks decode to the records of these blocks, in their order. -/
def ReadsAs (file : Bytes) (blocks : List (WrittenBlock lz)) : Prop :=
  ∃ r, openReader file = some r ∧ r.blockOffsets.length = blocks.length ∧
    ∀ (i : ℕ) b, blocks[i]? = some b →
      (decodeBlockInfo lz r i blockEvents).map Prod.fst = some (b.events.map b.type.stored)

/-! ### The footer -/

theorem ascends_indexFrom {start pos : ℕ} {e : IndexEntry} (hstart : start < 2 ^ 64)
    (he : e.fileOffset.toNat < pos) (bs : List BlockImage) (hend : pos + sizeOf bs ≤ start) :
    ascends start e (indexFrom pos bs) = true := by
  induction bs generalizing pos e with
  | nil => rfl
  | cons b bs ih =>
    rw [sizeOf, ← Nat.add_assoc] at hend
    have hsize : 40 ≤ b.size := Nat.le_add_right _ _
    have hpos : (UInt64.ofNat pos).toNat = pos := Nat.mod_eq_of_lt (by omega)
    rw [indexFrom, ascends, Bool.and_eq_true, Bool.and_eq_true, decide_eq_true_eq,
      decide_eq_true_eq, UInt64.lt_iff_toNat_lt, hpos]
    exact ⟨⟨he, by omega⟩, ih (by rw [hpos]; omega) hend⟩

theorem readerFooter_append {front : Bytes} {bs : List BlockImage} (hne : bs ≠ [])
    (hfront : front.length = 28 + sizeOf bs) (hsize : front.length < 2 ^ 64)
    (hlt : bs.length < maxReadBlocks) :
    readerFooter (front ++ footerBytes (indexFrom 28 bs)) = some (indexFrom 28 bs) := by
  have hcap : maxReadBlocks < 2 ^ 32 := by decide
  have hpos := List.length_pos_iff.2 hne
  have hlen : (front ++ footerBytes (indexFrom 28 bs)).length =
      front.length + (16 * bs.length + 4) := by
    rw [List.length_append, length_footerBytes, length_indexFrom]
  have hcount : leNat ((front ++ footerBytes (indexFrom 28 bs)).drop
      ((front ++ footerBytes (indexFrom 28 bs)).length - 4)) = bs.length := by
    rw [hlen, footerBytes, ← List.append_assoc, List.drop_left' (by
      rw [List.length_append, length_flatMap_indexEntry, length_indexFrom]
      omega), leNat_leBytes, length_indexFrom]
    exact Nat.mod_eq_of_lt (by omega)
  have hindex := footerIndex_append front (indexFrom 28 bs)
  rw [length_indexFrom, Nat.mod_eq_of_lt (by omega), Nat.sub_self, List.drop_zero] at hindex
  rw [readerFooter]
  simp only [hcount, hindex]
  rw [hlen, if_neg (by omega), if_neg (by omega)]
  cases bs with
  | nil => exact absurd rfl hne
  | cons b bs =>
    rw [sizeOf, ← Nat.add_assoc] at hfront
    have hb : 40 ≤ b.size := Nat.le_add_right _ _
    rw [indexFrom]
    dsimp only
    rw [if_pos ⟨rfl, ascends_indexFrom (by omega) (by show 28 < _; omega) bs (by omega)⟩]

theorem readerOpen_finishedFile (hr : hdr.Readable) (hne : blocks ≠ [])
    (hsize : 28 + sizeOf (images blocks) < 2 ^ 64) (hlt : blocks.length < maxReadBlocks) :
    readerOpen (finishedFile hdr blocks) none =
      some (.footer, indexFrom 28 (images blocks)) := by
  have hok : ¬(hdr.magic ≠ traceMagic ∨ hdr.version < 2 ∨ traceVersion < hdr.version) := by
    rintro (h | h | h)
    · exact h hr.magic
    · exact hr.version_ge h
    · exact hr.version_le h
  have hfront : (hdr.bytes ++ (images blocks).flatMap BlockImage.bytes).length =
      28 + sizeOf (images blocks) := by
    rw [List.length_append, length_fileHeader_bytes, length_flatMap_blockImage]
  have hne' : images blocks ≠ [] := by simpa [images] using hne
  have hfooter := readerFooter_append hne' hfront (by omega) (by simpa [images] using hlt)
  rw [List.append_assoc] at hfooter
  rw [finishedFile, readerOpen, inverts_fileHeader hdr trivial]
  dsimp only
  rw [if_neg hok, openIndex, committedIndex, if_neg (not_not.2 rfl), hfooter]

/-! ### The blocks -/

theorem getElem?_indexFrom (bs : List BlockImage) (pos i : ℕ) :
    ((indexFrom pos bs).map (·.fileOffset))[i]? =
      bs[i]?.map fun _ => UInt64.ofNat (pos + sizeOf (bs.take i)) := by
  induction bs generalizing pos i with
  | nil => rfl
  | cons b bs ih =>
    cases i with
    | zero => rfl
    | succ i =>
      rw [indexFrom, List.map_cons, List.getElem?_cons_succ, List.getElem?_cons_succ, ih,
        List.take_succ_cons, sizeOf, Nat.add_assoc]

theorem decodeBlockInfo_written (b : WrittenBlock lz) {r : EventReader} (hv : r.version = 3)
    (hat : r.BlockAt i b.image.bytes) :
    (decodeBlockInfo lz r i blockEvents).map Prod.fst = some (b.events.map b.type.stored) := by
  have hpos := List.length_pos_iff.2 b.events_ne
  have hdec {payload : Bytes} (hpayload : encodePayload b.type b.events = payload)
      (hsize : payload.length ≤ 50 * b.events.length)
      (h : decodePayload b.type.code 3 b.events.length payload =
        some (b.events.map b.type.stored)) :
      (decodeBlockInfo lz r i blockEvents).map Prod.fst = some (b.events.map b.type.stored) := by
    obtain ⟨block, hblock, hread⟩ := blockOfPayload_decodes lz b.type b.period b.events _ payload 3
      hpos b.events_le hsize h
    have henc := b.encodes
    rw [typedBlock, hpayload, hblock] at henc
    obtain rfl := Option.some.inj henc
    exact hread r i blockEvents hv hat (by exact_mod_cast b.events_le)
  cases htype : b.type with
  | transitions =>
    rw [htype] at hdec
    exact hdec rfl (length_encodeBlock_le b.events)
      (decodeTransitionPayload_encodeBlock (by decide) b.events)
  | samples =>
    rw [htype] at hdec
    have hs := length_encodeSampleBlock_le b.events
    exact hdec rfl (hs.trans (by omega)) (decodeSamplePayload_encodeSampleBlock b.events)

theorem flatMap_images {b : WrittenBlock lz} (hb : blocks[i]? = some b) :
    (images blocks).flatMap BlockImage.bytes = (images (blocks.take i)).flatMap BlockImage.bytes ++
      (b.image.bytes ++ (images (blocks.drop (i + 1))).flatMap BlockImage.bytes) := by
  obtain ⟨hi, rfl⟩ := List.getElem?_eq_some_iff.1 hb
  have hcut : blocks = blocks.take i ++ blocks[i] :: blocks.drop (i + 1) := by
    rw [← List.drop_eq_getElem_cons hi, List.take_append_drop]
  conv_lhs => rw [hcut, images, List.map_append, List.map_cons, List.flatMap_append,
    List.flatMap_cons]
  rfl

theorem readsAs_finishedFile (hr : hdr.Readable) (hv : hdr.version = traceVersion)
    (hne : blocks ≠ []) (hsize : 28 + sizeOf (images blocks) < 2 ^ 64)
    (hlt : blocks.length < maxReadBlocks) : ReadsAs (finishedFile hdr blocks) blocks := by
  have hopen := readerOpen_finishedFile hr hne hsize hlt
  have hread : readFileHeader (finishedFile hdr blocks) = some (hdr, _) :=
    inverts_fileHeader hdr trivial _
  refine ⟨_, by rw [openReader, hread, hopen]; rfl, by simp [images], fun i b hb => ?_⟩
  have hsplit := flatMap_images hb
  set n := sizeOf (images (blocks.take i)) with hn
  have hfront : (hdr.bytes ++ (images (blocks.take i)).flatMap BlockImage.bytes).length =
      28 + n := by
    rw [List.length_append, length_fileHeader_bytes, length_flatMap_blockImage]
  have hle : n ≤ sizeOf (images blocks) := by
    rw [← length_flatMap_blockImage (images blocks), hsplit, List.length_append,
      length_flatMap_blockImage]
    exact Nat.le_add_right _ _
  have hoff : (UInt64.ofNat (28 + n)).toNat = 28 + n := Nat.mod_eq_of_lt (by omega)
  have hdrop : (finishedFile hdr blocks).drop (UInt64.ofNat (28 + n)).toNat =
      b.image.bytes ++ ((images (blocks.drop (i + 1))).flatMap BlockImage.bytes ++
        footerBytes (indexFrom 28 (images blocks))) := by
    rw [hoff, finishedFile, hsplit, List.append_assoc, ← List.append_assoc hdr.bytes,
      List.drop_left' hfront, List.append_assoc]
  refine decodeBlockInfo_written b hv ⟨UInt64.ofNat (28 + n), _, ?_, hdrop⟩
  rw [getElem?_indexFrom, images, List.getElem?_map, hb, ← List.map_take]
  rfl

/-! ### Runs and recoveries -/

/-- **What a certified file vouches for can be read.** In every run of the writer whose calls lose
no records, and whatever fails in its finalisations, every record accepted into a certified file is
in the blocks that it reads as, if the file is of the current version and has no more blocks than a
reader takes from a footer. -/
theorem certified_readsBack (lz : Lz4) (pgVersion : UInt32) (cpuMeasured : Bool)
    (calls : List WriterCall)
    (h : Run.Allowed (writerStep lz) KeepsRecords (initWriter pgVersion cpuMeasured) calls) :
    ∀ f ∈ (calls.foldl (writerStep lz) (initWriter pgVersion cpuMeasured)).closedFiles,
      Certified f.bytes → ∃ (hdr : FileHeader) (blocks : List (WrittenBlock lz)),
        f.bytes = finishedFile hdr blocks ∧ (∀ ev ∈ f.accepted, ev ∈ recordsOf blocks) ∧
          (hdr.version = traceVersion → f.bytes.length < 2 ^ 64 → blocks ≠ [] →
            blocks.length < maxReadBlocks → ReadsAs f.bytes blocks) := by
  have hinit : Accounted lz (initWriter pgVersion cpuMeasured) :=
    ⟨⟨fun _ => Nat.succ_pos _, Nat.zero_le _, rfl⟩, fun _ hf => absurd hf (by simp [initWriter]),
      fun _ hf => absurd hf List.not_mem_nil⟩
  have hend := Run.Allowed.invariant writerStep_accounted calls _ h hinit
  intro f hf hcert
  rcases hend.settled f hf with hno | ⟨hdr, blocks, hr, -, hbytes, hacc⟩
  · exact absurd hcert hno
  refine ⟨hdr, blocks, hbytes, hacc, fun hv hsize hne hlt => ?_⟩
  rw [hbytes]
  refine readsAs_finishedFile hr hv hne (lt_of_le_of_lt ?_ hsize) hlt
  rw [hbytes, finishedFile, List.length_append, List.length_append, length_fileHeader_bytes,
    length_flatMap_blockImage]
  exact Nat.add_le_add_left (Nat.le_add_right _ _) 28

theorem certified_readsBack_keptBlock :
    ∃ f ∈ ((oneBlockRun { flush := .kept }).foldl (writerStep literalLz4)
        (initWriter 170000 true)).closedFiles,
      ∃ (hdr : FileHeader) (blocks : List (WrittenBlock literalLz4)),
        f.bytes = finishedFile hdr blocks ∧ laterEvent ∈ recordsOf blocks := by
  obtain ⟨body, -, hleft⟩ := oneBlockRun_leftover (Or.inr rfl)
  have hmem := List.mem_append_right
    ((oneBlockRun { flush := .kept }).foldl (writerStep literalLz4)
      (initWriter 170000 true)).archived (Option.mem_toList.2 hleft)
  have hallowed : Run.Allowed (writerStep literalLz4) KeepsRecords (initWriter 170000 true)
      (oneBlockRun { flush := .kept }) := by
    refine ⟨⟨?_, fun _ he => absurd he List.not_mem_nil, fun _ _ f hf => ?_⟩, fun e he => ?_,
      trivial, trivial⟩
    · rintro ⟨-, hfull, -⟩
      exact absurd hfull (by decide)
    · exact absurd hf (by simp [initWriter])
    · rw [List.mem_singleton.1 he]
      exact ⟨rfl, rfl, rfl, Or.inr rfl⟩
  obtain ⟨hdr, blocks, hbytes, hacc, -⟩ := certified_readsBack literalLz4 170000 true _ hallowed _
    hmem (certified_append_iff.2 (by decide))
  exact ⟨_, hmem, hdr, blocks, hbytes, hacc laterEvent (List.mem_singleton_self _)⟩

end PgWaitTracer
