import PgWaitTracer.EventWriter.BufferBounds

/-!
# What a closed file vouches for

`finalize_current_file` writes `CLOSED_CLEAN` or `ROTATED` into the header of a file only when every
step it ran itself succeeded. It does not know of the block writes before it: a block that failed
in a push dropped its records, and may have left an index entry behind.

## Main results

* `run_certified_vouched`: in every run whose calls lose no records, every certified
  file is vouched for.
* `certified_after_failed_write`: a run that certifies a file with a torn block.
-/

namespace PgWaitTracer

open ByteCodec

/-! ### The property -/

/-- The records `evs` are in the file as one completely written block at `off`. -/
def CompleteBlockAt (lz : Lz4) (file : Bytes) (off : ℕ) (evs : List TraceEvent) : Prop :=
  28 ≤ off ∧ evs ≠ [] ∧ evs.length ≤ blockEvents ∧ ∃ type period block,
    typedBlock lz type period evs = some block ∧ block <+: file.drop off

/-- The header of the file reads as closed cleanly or rotated. -/
def Certified (file : Bytes) : Prop :=
  ∃ hdr rest, readFileHeader file = some (hdr, rest) ∧
    (closureFromFlags hdr.flags = .clean ∨ closureFromFlags hdr.flags = .rotated)

/-- Every record accepted while the file was open is in a block of it, and every entry of the footer
it carries is the offset of a completely written block. -/
structure Vouched (lz : Lz4) (f : ClosedFile) : Prop where
  records : ∀ r ∈ f.accepted, ∃ off evs, CompleteBlockAt lz f.bytes off evs ∧ r ∈ evs
  entries : ∀ index, footerIndex f.bytes = some index → ∀ e ∈ index, ∃ off evs,
    e.fileOffset = UInt64.ofNat off ∧ CompleteBlockAt lz f.bytes off evs

/-! ### Written blocks -/

/-- A block in a file and the records it was written from. -/
structure WrittenBlock (lz : Lz4) where
  image : BlockImage
  type : BlockType
  period : UInt64
  events : List TraceEvent
  events_ne : events ≠ []
  events_le : events.length ≤ blockEvents
  encodes : typedBlock lz type period events = some image.bytes

variable {lz : Lz4}

/-- The images of written blocks. -/
def images (blocks : List (WrittenBlock lz)) : List BlockImage := blocks.map (·.image)

@[simp] theorem images_cons (b : WrittenBlock lz) (blocks : List (WrittenBlock lz)) :
    images (b :: blocks) = b.image :: images blocks := rfl

/-- The records of written blocks. -/
def recordsOf (blocks : List (WrittenBlock lz)) : List TraceEvent := blocks.flatMap (·.events)

theorem indexFrom_concat : (bs : List BlockImage) → (b : BlockImage) → (pos : ℕ) →
    indexFrom pos (bs ++ [b]) =
      indexFrom pos bs ++ [⟨b.header.firstTimestampNs, UInt64.ofNat (pos + sizeOf bs)⟩]
  | [], b, pos => rfl
  | a :: bs, b, pos => by
    rw [List.cons_append, indexFrom, indexFrom_concat bs b, indexFrom, List.cons_append, sizeOf,
      Nat.add_assoc]

variable {w : EventWriter} {hdr : FileHeader} {evs pending pending' : List TraceEvent}
  {f : OpenFile} {period : UInt64}

theorem completeBlockAt_of_mem {rest : Bytes} {b : WrittenBlock lz}
    {before after : List (WrittenBlock lz)} :
    CompleteBlockAt lz (hdr.bytes ++ ((images (before ++ b :: after)).flatMap BlockImage.bytes ++
      rest)) (28 + sizeOf (images before)) b.events := by
  refine ⟨Nat.le_add_right _ _, b.events_ne, b.events_le, b.type, b.period, b.image.bytes, b.encodes, ?_⟩
  have hsplit : hdr.bytes ++ ((images (before ++ b :: after)).flatMap BlockImage.bytes ++ rest) =
      (hdr.bytes ++ (images before).flatMap BlockImage.bytes) ++
        (b.image.bytes ++ ((images after).flatMap BlockImage.bytes ++ rest)) := by
    simp [images]
  have hlen : (hdr.bytes ++ (images before).flatMap BlockImage.bytes).length =
      28 + sizeOf (images before) := by
    rw [List.length_append, length_fileHeader_bytes, length_flatMap_blockImage]
  rw [hsplit, List.drop_left' hlen]
  exact List.prefix_append _ _

theorem exists_of_mem_indexFrom : (blocks : List (WrittenBlock lz)) → (pos : ℕ) → (e : IndexEntry) →
    e ∈ indexFrom pos (images blocks) → ∃ before b after, blocks = before ++ b :: after ∧
      e.fileOffset = UInt64.ofNat (pos + sizeOf (images before))
  | [], _, e, he => absurd he List.not_mem_nil
  | b :: blocks, pos, e, he => by
    rw [images_cons, indexFrom, List.mem_cons] at he
    rcases he with rfl | he
    · exact ⟨[], b, blocks, rfl, rfl⟩
    · obtain ⟨before, c, after, rfl, hoff⟩ := exists_of_mem_indexFrom blocks _ e he
      refine ⟨b :: before, c, after, rfl, ?_⟩
      rw [hoff, images_cons, sizeOf, Nat.add_assoc]

/-- The bytes of a finished file. -/
def finishedFile (hdr : FileHeader) (blocks : List (WrittenBlock lz)) : Bytes :=
  hdr.bytes ++ ((images blocks).flatMap BlockImage.bytes ++
    footerBytes (indexFrom 28 (images blocks)))

theorem vouched_finishedFile (hdr : FileHeader) (blocks : List (WrittenBlock lz))
    {accepted : List TraceEvent} (hacc : ∀ r ∈ accepted, r ∈ recordsOf blocks) :
    Vouched lz ⟨finishedFile hdr blocks, accepted⟩ := by
  refine ⟨fun r hr => ?_, fun index hindex e he => ?_⟩
  · obtain ⟨b, hb, hrb⟩ := List.mem_flatMap.1 (hacc r hr)
    obtain ⟨before, after, rfl⟩ := List.append_of_mem hb
    exact ⟨_, b.events, completeBlockAt_of_mem, hrb⟩
  · have hfooter := footerIndex_append (hdr.bytes ++ (images blocks).flatMap BlockImage.bytes)
      (indexFrom 28 (images blocks))
    rw [List.append_assoc] at hfooter
    obtain rfl := Option.some.inj (hfooter.symm.trans hindex)
    obtain ⟨before, b, after, rfl, hoff⟩ := exists_of_mem_indexFrom blocks 28 e
      (List.mem_of_mem_drop he)
    exact ⟨_, b.events, hoff, completeBlockAt_of_mem⟩

/-! ### The open file -/

/-- The flags of a file that is being written. -/
def openFlags : UInt16 := flagLz4 ||| flagClosureTracked

/-- The open file is a header, written blocks and their index, and every record accepted since it
was opened is in one of the blocks or still pending. -/
structure Holds (f : OpenFile) (pending : List TraceEvent) (hdr : FileHeader)
    (blocks : List (WrittenBlock lz)) : Prop where
  readable : hdr.Readable
  hdr_flags : hdr.flags = openFlags
  flags : f.flags = openFlags
  bytes : f.bytes = hdr.bytes ++ (images blocks).flatMap BlockImage.bytes
  index : f.index = indexFrom 28 (images blocks)
  accepted : ∀ r ∈ f.accepted, r ∈ recordsOf blocks ∨ r ∈ pending

/-- The open file misses no record but the pending ones. -/
def Consistent (lz : Lz4) (f : OpenFile) (pending : List TraceEvent) : Prop :=
  ∃ (hdr : FileHeader) (blocks : List (WrittenBlock lz)), Holds f pending hdr blocks

theorem Holds.append {block : Bytes} {type : BlockType} {blocks : List (WrittenBlock lz)}
    (h : Holds f pending hdr blocks) (pending' : List TraceEvent) (hne : evs ≠ [])
    (hmax : evs.length ≤ blockEvents) (hblock : typedBlock lz type period evs = some block)
    (hpending : ∀ r ∈ pending, r ∈ evs ∨ r ∈ pending') :
    ∃ b : WrittenBlock lz, b.type = type ∧ b.period = period ∧ b.events = evs ∧
      Holds ((f.addEntry (firstTs evs)).append block) pending' hdr (blocks ++ [b]) := by
  obtain ⟨b, hbytes, hfirst⟩ := typedBlock_image (List.length_pos_iff.2 hne) hmax hblock
  let wb : WrittenBlock lz := ⟨b, type, period, evs, hne, hmax, by rw [hbytes, hblock]⟩
  have himages : images (blocks ++ [wb]) = images blocks ++ [b] := List.map_append
  have hlen : f.bytes.length = 28 + sizeOf (images blocks) := by
    rw [h.bytes, List.length_append, length_fileHeader_bytes, length_flatMap_blockImage]
  refine ⟨wb, rfl, rfl, rfl, h.readable, h.hdr_flags, h.flags, ?_, ?_, fun r hr => ?_⟩
  · rw [himages, List.flatMap_append, ← List.append_assoc, ← h.bytes, ← hbytes]
    simp [OpenFile.append, OpenFile.addEntry]
  · rw [himages, indexFrom_concat, ← h.index, ← hlen, hfirst]
    rfl
  · rw [recordsOf, List.flatMap_append, List.mem_append]
    rcases h.accepted r hr with hrec | hpend
    · exact Or.inl (Or.inl hrec)
    · rcases hpending r hpend with hev | hpend'
      · exact Or.inl (Or.inr (by simpa [wb] using hev))
      · exact Or.inr hpend'

theorem Consistent.append {block : Bytes} {type : BlockType} (h : Consistent lz f pending)
    (hne : evs ≠ []) (hmax : evs.length ≤ blockEvents)
    (hblock : typedBlock lz type period evs = some block)
    (hpending : ∀ r ∈ pending, r ∈ evs ∨ r ∈ pending') :
    Consistent lz ((f.addEntry (firstTs evs)).append block) pending' := by
  obtain ⟨hdr, blocks, h⟩ := h
  obtain ⟨b, -, -, -, h'⟩ := h.append pending' hne hmax hblock hpending
  exact ⟨hdr, blocks ++ [b], h'⟩

theorem Holds.accept {blocks : List (WrittenBlock lz)} (h : Holds f pending hdr blocks)
    (hold : ∀ r ∈ pending, r ∈ pending') (hnew : ∀ r ∈ evs, r ∈ pending') :
    Holds (f.accept evs) pending' hdr blocks := by
  refine ⟨h.readable, h.hdr_flags, h.flags, h.bytes, h.index, fun r hr => ?_⟩
  rcases List.mem_append.1 hr with hr | hr
  · exact (h.accepted r hr).imp_right (hold r)
  · exact Or.inr (hnew r hr)

theorem Consistent.accept (h : Consistent lz f pending) (hold : ∀ r ∈ pending, r ∈ pending')
    (hnew : ∀ r ∈ evs, r ∈ pending') : Consistent lz (f.accept evs) pending' := by
  obtain ⟨hdr, blocks, h⟩ := h
  exact ⟨hdr, blocks, h.accept hold hnew⟩

/-! ### Block writes that lose nothing -/

/-- A block write after which the whole block is in the stream: at most its `fflush` fails, and the
stream keeps it. -/
def BlockFaults.Lossless (e : BlockFaults) : Prop :=
  e.lz4 = false ∧ e.grow = false ∧ e.write = none ∧ (e.flush = .done ∨ e.flush = .kept)

/-- Nothing the block writes of this call meet loses records. -/
def EventWriter.Lossless (w : EventWriter) : Prop := ∀ e ∈ w.faults, e.Lossless

theorem EventWriter.Lossless.nextFaults (h : w.Lossless) : w.nextFaults.Lossless := by
  rw [EventWriter.nextFaults]
  rcases hf : w.faults with _ | ⟨e, es⟩
  · exact ⟨rfl, rfl, rfl, Or.inl rfl⟩
  · exact h e (by simp [hf])

theorem FlushFrame.lossless {w' : EventWriter} (h : FlushFrame w w') (hw : w.Lossless) :
    w'.Lossless := fun e he => hw e (h.faults he)

theorem writeBlock_appends {type : BlockType} {block : Bytes}
    (hblock : typedBlock lz type period evs = some block) (hlz : w.nextFaults.lz4 = false)
    (hhard : w.nextFaults.failsHard (w.blockIndexCap ≤ f.index.length) = false)
    (hflush : w.nextFaults.flush = .done ∨ w.nextFaults.flush = .kept) :
    (writeBlock lz w f evs type period).1.file =
      some ((f.addEntry (firstTs evs)).append block) := by
  simp only [BlockFaults.failsHard, Bool.or_eq_false_iff, Bool.and_eq_false_iff,
    decide_eq_false_iff_not, Option.isSome_eq_false_iff, Option.isNone_iff_eq_none] at hhard
  obtain ⟨hgrow, hwrite⟩ := hhard
  have happend : ∀ w' : EventWriter, (appendBlock w' f w.nextFaults evs type block).1.file =
      some ((f.addEntry (firstTs evs)).append block) := by
    intro w'
    rcases hflush with hflush | hflush <;> simp only [appendBlock, hwrite, hflush]
  simp only [writeBlock, hlz, hblock, Bool.false_eq_true, if_false]
  split_ifs with hfull hg
  · rcases hgrow with h | h
    · exact absurd hfull h
    · exact absurd (h.symm.trans hg) Bool.false_ne_true
  · exact happend _
  · exact happend _

theorem writeBlock_file {type : BlockType} (hne : evs ≠ []) (hmax : evs.length ≤ blockEvents)
    (h : w.Lossless ∨ (writeBlock lz w f evs type period).2 = true) :
    (writeBlock lz w f evs type period).1.enabled = w.enabled ∧
      ∃ block, typedBlock lz type period evs = some block ∧
        (writeBlock lz w f evs type period).1.file =
          some ((f.addEntry (firstTs evs)).append block) := by
  obtain ⟨block, hblock⟩ := typedBlock_isSome lz type period hne hmax
  have hgood : w.nextFaults.lz4 = false ∧
      w.nextFaults.failsHard (w.blockIndexCap ≤ f.index.length) = false ∧
      (w.nextFaults.flush = .done ∨ w.nextFaults.flush = .kept) := by
    rcases h with h | h
    · obtain ⟨hlz, hgrow, hwrite, hflush⟩ := h.nextFaults
      refine ⟨hlz, ?_, hflush⟩
      rw [BlockFaults.failsHard, hgrow, hwrite, Bool.and_false]
      rfl
    · rw [writeBlock_ok lz w f type period hne hmax] at h
      simp only [Bool.and_eq_true, Bool.not_eq_true', decide_eq_true_eq] at h
      exact ⟨h.1.1, h.1.2, Or.inl h.2⟩
  obtain ⟨hlz, hhard, hflush⟩ := hgood
  refine ⟨?_, block, hblock, writeBlock_appends hblock hlz hhard hflush⟩
  rw [writeBlock_enabled lz w f type period hne hmax, hhard, Bool.not_false, Bool.or_true,
    Bool.and_true]

/-! ### Flushes that lose nothing -/

/-- The writer is enabled, its file is consistent and no buffer is over its size. -/
structure Ready (lz : Lz4) (w : EventWriter) : Prop where
  enabled : w.enabled = true
  file : ∃ f, w.file = some f ∧ Consistent lz f (w.events ++ w.sampleBuf)
  events_le : w.events.length ≤ blockEvents
  sampleBuf_le : w.sampleBuf.length ≤ blockEvents

theorem flushBlockCore_ready (h : Ready lz w) (hok : w.Lossless ∨ (flushBlockCore lz w).2 = true) :
    Ready lz (flushBlockCore lz w).1 := by
  obtain ⟨hen, ⟨f, hf, hcons⟩, hev, hsb⟩ := h
  by_cases hnil : w.events = []
  · have hsame : flushBlockCore lz w = (w, true) := by
      rw [flushBlockCore, if_pos (Or.inl hnil)]
    rw [hsame]
    exact ⟨hen, ⟨f, hf, hcons⟩, hev, hsb⟩
  · have hwrite : writeTypedBlock lz w w.events .transitions 0 =
        writeBlock lz w f w.events .transitions 0 := by
      simp only [writeTypedBlock, hf, if_neg hnil]
    have hgo : ¬(w.events = [] ∨ w.file = none) := by
      rw [hf]
      exact fun h => h.elim hnil (Option.some_ne_none f)
    rw [flushBlockCore, if_neg hgo, hwrite] at hok ⊢
    obtain ⟨hen', block, hblock, hfile⟩ := writeBlock_file hnil hev hok
    have hframe := writeBlock_frame lz w f w.events .transitions 0 (by rw [hf]; rfl)
    refine ⟨hen'.trans hen, ⟨_, hfile, hcons.append hnil hev hblock fun r hr => ?_⟩,
      Nat.zero_le _, ?_⟩
    · simpa [hframe.sampleBuf] using hr
    · simpa [hframe.sampleBuf] using hsb

theorem flushSampleBuf_ready (h : Ready lz w) (hok : w.Lossless ∨ (flushSampleBuf lz w).2 = true) :
    Ready lz (flushSampleBuf lz w).1 := by
  obtain ⟨hen, ⟨f, hf, hcons⟩, hev, hsb⟩ := h
  by_cases hnil : w.sampleBuf = []
  · have hsame : flushSampleBuf lz w = (w, true) := by
      rw [flushSampleBuf, if_pos (Or.inl hnil)]
    rw [hsame]
    exact ⟨hen, ⟨f, hf, hcons⟩, hev, hsb⟩
  · have hwrite : ∀ period, writeTypedBlock lz w w.sampleBuf w.sampleBufType period =
        writeBlock lz w f w.sampleBuf w.sampleBufType period := by
      intro period
      simp only [writeTypedBlock, hf, if_neg hnil]
    have hgo : ¬(w.sampleBuf = [] ∨ w.file = none) := by
      rw [hf]
      exact fun h => h.elim hnil (Option.some_ne_none f)
    rw [flushSampleBuf, if_neg hgo] at hok ⊢
    simp only [hwrite] at hok ⊢
    obtain ⟨hen', block, hblock, hfile⟩ := writeBlock_file hnil hsb hok
    have hframe := writeBlock_frame lz w f w.sampleBuf w.sampleBufType
      (w.sampleBufWeightNs / UInt64.ofNat w.sampleBuf.length) (by rw [hf]; rfl)
    refine ⟨hen'.trans hen, ⟨_, hfile, hcons.append hnil hsb hblock fun r hr => ?_⟩, ?_,
      Nat.zero_le _⟩
    · simpa [hframe.events, or_comm] using hr
    · simpa [hframe.events] using hev

theorem Ready.chain {g₁ g₂ : EventWriter → EventWriter × Bool} (hframe : FlushFrame w (g₁ w).1)
    (h₁ : w.Lossless ∨ (g₁ w).2 = true → Ready lz (g₁ w).1)
    (h₂ : Ready lz (g₁ w).1 → (g₁ w).1.Lossless ∨ (g₂ (g₁ w).1).2 = true →
      Ready lz (g₂ (g₁ w).1).1)
    (hok : w.Lossless ∨ (if (g₁ w).2 = true then g₂ (g₁ w).1 else g₁ w).2 = true) :
    Ready lz (if (g₁ w).2 = true then g₂ (g₁ w).1 else g₁ w).1 := by
  rcases hrc : (g₁ w).2 with _ | _
  · simp only [hrc, Bool.false_eq_true, if_false] at hok ⊢
    exact h₁ (Or.inl (hok.resolve_right id))
  · simp only [hrc, if_true] at hok ⊢
    exact h₂ (h₁ (Or.inr hrc)) (hok.imp_left hframe.lossless)

theorem flushBlock_ready (h : Ready lz w) (hok : w.Lossless ∨ (flushBlock lz w).2 = true) :
    Ready lz (flushBlock lz w).1 := by
  rw [flushBlock] at hok ⊢
  split_ifs at hok ⊢
  · exact Ready.chain (flushSampleBuf_frame lz w) (flushSampleBuf_ready h)
      (fun h' hok' => flushBlockCore_ready h' hok') hok
  · exact flushBlockCore_ready h hok

theorem flushSamples_ready (h : Ready lz w) (hok : w.Lossless ∨ (flushSamples lz w).2 = true) :
    Ready lz (flushSamples lz w).1 := by
  rw [flushSamples] at hok ⊢
  split_ifs at hok ⊢
  · exact Ready.chain (flushBlockCore_frame lz w) (flushBlockCore_ready h)
      (fun h' hok' => flushSampleBuf_ready h' hok') hok
  · exact flushSampleBuf_ready h hok

/-! ### Files without a terminal flag -/

/-- The open file starts with its header, which has no terminal flag. -/
def Headed (f : OpenFile) : Prop :=
  f.flags = openFlags ∧ ∃ (hdr : FileHeader) (rest : Bytes),
    hdr.flags = openFlags ∧ f.bytes = hdr.bytes ++ rest

theorem Consistent.headed (h : Consistent lz f pending) : Headed f := by
  obtain ⟨hdr, blocks, h⟩ := h
  exact ⟨h.flags, hdr, _, h.hdr_flags, h.bytes⟩

theorem Headed.append (h : Headed f) (ts : UInt64) (bs : Bytes) :
    Headed ((f.addEntry ts).append bs) := by
  obtain ⟨hflags, hdr, rest, hhdr, hbytes⟩ := h
  refine ⟨hflags, hdr, rest ++ bs, hhdr, ?_⟩
  rw [← List.append_assoc, ← hbytes]
  rfl

/-- The open file of the writer, if there is one, is headed. -/
def EventWriter.Headed (w : EventWriter) : Prop := ∀ f, w.file = some f → PgWaitTracer.Headed f

theorem appendBlock_file (w : EventWriter) (f : OpenFile) (e : BlockFaults) (evs : List TraceEvent)
    (type : BlockType) (block : Bytes) :
    ∃ bs, (appendBlock w f e evs type block).1.file =
      some ((f.addEntry (firstTs evs)).append bs) := by
  rw [appendBlock]
  rcases e.write with _ | k
  · rcases e.flush with _ | _ | k <;> exact ⟨_, rfl⟩
  · exact ⟨_, rfl⟩

theorem writeTypedBlock_headed (evs : List TraceEvent) (type : BlockType) (period : UInt64)
    (h : w.Headed) : (writeTypedBlock lz w evs type period).1.Headed := by
  rcases hf : w.file with _ | f
  · simp only [writeTypedBlock, hf]
    exact h
  · have happend : ∀ (w' : EventWriter) (e : BlockFaults) (block : Bytes),
        (appendBlock w' f e evs type block).1.Headed := by
      intro w' e block f' hf'
      obtain ⟨bs, hbs⟩ := appendBlock_file w' f e evs type block
      obtain rfl := Option.some.inj (hbs.symm.trans hf')
      exact (h f hf).append _ _
    simp only [writeTypedBlock, hf]
    split_ifs
    · exact h
    · rw [writeBlock]
      split
      · exact h
      · simp only
        split_ifs
        · exact h
        · exact happend _ _ _
        · exact happend _ _ _

theorem flushBlockCore_headed (h : w.Headed) : (flushBlockCore lz w).1.Headed := by
  rw [flushBlockCore]
  split_ifs
  · exact h
  · exact writeTypedBlock_headed w.events .transitions 0 h

theorem flushSampleBuf_headed (h : w.Headed) : (flushSampleBuf lz w).1.Headed := by
  rw [flushSampleBuf]
  split_ifs
  · exact h
  · exact writeTypedBlock_headed w.sampleBuf w.sampleBufType _ h

theorem flushBlock_headed (lz : Lz4) (h : w.Headed) : (flushBlock lz w).1.Headed := by
  rw [flushBlock]
  split_ifs
  · simp only
    split_ifs
    · exact flushBlockCore_headed (flushSampleBuf_headed h)
    · exact flushSampleBuf_headed h
  · exact flushBlockCore_headed h

theorem flushSamples_headed (lz : Lz4) (h : w.Headed) : (flushSamples lz w).1.Headed := by
  rw [flushSamples]
  split_ifs
  · simp only
    split_ifs
    · exact flushSampleBuf_headed (flushBlockCore_headed h)
    · exact flushBlockCore_headed h
  · exact flushSampleBuf_headed h

theorem certified_append_iff {rest : Bytes} :
    Certified (hdr.bytes ++ rest) ↔
      closureFromFlags hdr.flags = .clean ∨ closureFromFlags hdr.flags = .rotated := by
  have hread := inverts_fileHeader hdr trivial rest
  refine ⟨?_, fun h => ⟨hdr, rest, hread, h⟩⟩
  rintro ⟨hdr', rest', hread', h⟩
  obtain ⟨rfl, -⟩ := Prod.ext_iff.1 (Option.some.inj (hread.symm.trans hread'))
  exact h

theorem not_certified_of_short {bs : Bytes} (h : bs.length < 28) : ¬Certified bs := by
  rintro ⟨hdr, rest, hread, -⟩
  rw [eq_append_of_readFileHeader hread, List.length_append, length_fileHeader_bytes] at h
  omega

theorem not_certified_of_open (hflags : hdr.flags = openFlags) (rest : Bytes) (k : ℕ) :
    ¬Certified ((hdr.bytes ++ rest).take k) := by
  by_cases hk : k < 28
  · refine not_certified_of_short ?_
    rw [List.length_take]
    omega
  · have hcut : (hdr.bytes ++ rest).take k = hdr.bytes ++ rest.take (k - 28) := by
      rw [List.take_append, length_fileHeader_bytes,
        List.take_of_length_le (by rw [length_fileHeader_bytes]; omega)]
    rw [hcut, certified_append_iff, hflags]
    decide

theorem Headed.not_certified (h : Headed f) (bs : Bytes) : ¬Certified (f.bytes ++ bs) := by
  obtain ⟨-, hdr, rest, hflags, hbytes⟩ := h
  have hcut := not_certified_of_open hflags (rest ++ bs) (hdr.bytes ++ (rest ++ bs)).length
  rw [List.take_length] at hcut
  rwa [hbytes, List.append_assoc]

theorem Headed.not_certified_take (h : Headed f) (bs : Bytes) (k : ℕ) :
    ¬Certified ((f.bytes ++ bs).take k) := by
  obtain ⟨-, hdr, rest, hflags, hbytes⟩ := h
  rw [hbytes, List.append_assoc]
  exact not_certified_of_open hflags (rest ++ bs) k

/-! ### Finalisation -/

/-- A file is settled when it is not certified, or finished with all accepted records in it. -/
def Settled (lz : Lz4) (f : ClosedFile) : Prop :=
  ¬Certified f.bytes ∨ ∃ (hdr : FileHeader) (blocks : List (WrittenBlock lz)), hdr.Readable ∧
    (hdr.flags = openFlags ||| flagClosedClean ∨ hdr.flags = openFlags ||| flagRotated) ∧
    f.bytes = finishedFile hdr blocks ∧ ∀ r ∈ f.accepted, r ∈ recordsOf blocks

theorem Settled.vouched {f : ClosedFile} (h : Settled lz f) (hc : Certified f.bytes) :
    Vouched lz f := by
  rcases h with h | ⟨hdr, blocks, -, -, hbytes, hacc⟩
  · exact absurd hc h
  · have hv := vouched_finishedFile hdr blocks hacc
    rw [← hbytes] at hv
    exact hv

theorem flushBlock_events_of_ok (hf : w.file ≠ none) (hok : (flushBlock lz w).2 = true) :
    (flushBlock lz w).1.events = [] := by
  have hfile : (flushSampleBuf lz w).1.file ≠ none := by
    rw [← Option.isSome_iff_ne_none, ← (flushSampleBuf_frame lz w).file,
      Option.isSome_iff_ne_none]
    exact hf
  rw [flushBlock] at hok ⊢
  split_ifs at hok ⊢
  · rcases hrc : (flushSampleBuf lz w).2 with _ | _
    · simp [hrc] at hok
    · simp only [hrc, if_true]
      exact flushBlockCore_events lz hfile
  · exact flushBlockCore_events lz hf

theorem consistent_of_flushed (h : Ready lz w) (hok₁ : (flushBlock lz w).2 = true)
    (hok₂ : (flushSamples lz (flushBlock lz w).1).2 = true)
    (hf : (flushSamples lz (flushBlock lz w).1).1.file = some f) : Consistent lz f [] := by
  obtain ⟨f₀, hf₀, -⟩ := h.file
  have hready₁ := flushBlock_ready h (Or.inr hok₁)
  obtain ⟨f₁, hf₁, -⟩ := hready₁.file
  obtain ⟨f₂, hf₂, hcons⟩ := (flushSamples_ready hready₁ (Or.inr hok₂)).file
  obtain rfl := Option.some.inj (hf₂.symm.trans hf)
  have hevents := flushBlock_events_of_ok (by simp [hf₀]) hok₁
  have hevents' : (flushSamples lz (flushBlock lz w).1).1.events = [] := by
    rcases (flushSamples_frame lz (flushBlock lz w).1).events with h' | h'
    · rw [h', hevents]
    · exact h'
  rwa [hevents', flushSamples_sampleBuf lz (by simp [hf₁]) hok₂] at hcons

theorem finishFile_accepted (f : OpenFile) (ok : Bool) (terminal : UInt16) (e : FinalizeFaults) :
    (finishFile f ok terminal e).1.accepted = f.accepted := by
  rw [finishFile]
  simp only
  split_ifs <;> rfl

theorem finishFile_not_certified (h : Headed f) {ok : Bool} (terminal : UInt16) {e : FinalizeFaults}
    (hfail : ok = false ∨ e.footer ≠ none ∨ e.flush ≠ none ∨ e.fsync = true ∨ e.flags = true) :
    ¬Certified (finishFile f ok terminal e).1.bytes := by
  rcases e with ⟨footer, flush, fsync, flags, flagsSync⟩
  rcases flush with _ | k
  · rcases footer with _ | j
    · have hbytes : (finishFile f ok terminal ⟨none, none, fsync, flags, flagsSync⟩).1.bytes =
          f.bytes ++ footerBytes f.index := by
        rw [finishFile]
        simp only at hfail ⊢
        split_ifs with hok hflags <;> simp_all
      rw [hbytes]
      exact h.not_certified _
    · have hbytes : (finishFile f ok terminal ⟨some j, none, fsync, flags, flagsSync⟩).1.bytes =
          f.bytes ++ (footerBytes f.index).take j := by
        simp [finishFile]
      rw [hbytes]
      exact h.not_certified _
  · have hbytes : ∃ bs, (finishFile f ok terminal ⟨footer, some k, fsync, flags,
        flagsSync⟩).1.bytes = (f.bytes ++ bs).take k := by
      rcases footer with _ | j
      · exact ⟨footerBytes f.index, by simp [finishFile]⟩
      · exact ⟨(footerBytes f.index).take j, by simp [finishFile]⟩
    obtain ⟨bs, hbs⟩ := hbytes
    rw [hbs]
    exact h.not_certified_take _ _

theorem finishFile_settled (h : Consistent lz f []) {terminal : UInt16}
    (hterm : terminal = flagClosedClean ∨ terminal = flagRotated) {e : FinalizeFaults}
    (hfooter : e.footer = none) (hflush : e.flush = none) (hfsync : e.fsync = false)
    (hflags : e.flags = false) :
    Settled lz ⟨(finishFile f true terminal e).1.bytes, f.accepted⟩ := by
  obtain ⟨hdr, blocks, h⟩ := h
  refine Or.inr ⟨{ hdr with flags := openFlags ||| terminal }, blocks,
    ⟨h.readable.magic, h.readable.version_ge, h.readable.version_le⟩, ?_, ?_, fun r hr => ?_⟩
  · rcases hterm with rfl | rfl
    · exact Or.inl rfl
    · exact Or.inr rfl
  · simp only [finishFile, hfooter, hflush, hfsync, hflags, h.bytes, h.index, h.flags,
      Option.isNone_none, Bool.and_true, Bool.not_false, if_true, Bool.false_eq_true, if_false]
    rw [List.append_assoc, writeHeaderFlags_append, finishedFile]
  · exact (h.accepted r hr).resolve_right List.not_mem_nil

/-- **Finalisation.** Whatever fails in it, the file it leaves is settled. -/
theorem finalizeCurrentFile_settled (h : Ready lz w) {terminal : UInt16}
    (hterm : terminal = flagClosedClean ∨ terminal = flagRotated) (e : FinalizeFaults)
    (hf : (finalizeCurrentFile lz w terminal e).1.file = some f) :
    Settled lz ⟨f.bytes, f.accepted⟩ := by
  obtain ⟨f₀, hf₀, hcons₀⟩ := h.file
  have hhead : w.Headed := fun f' hf' => by
    obtain rfl := Option.some.inj (hf₀.symm.trans hf')
    exact hcons₀.headed
  have hhead₂ := flushSamples_headed lz (flushBlock_headed lz hhead)
  rcases hf₂ : (flushSamples lz (flushBlock lz w).1).1.file with _ | f₂
  · simp only [finalizeCurrentFile, hf₂] at hf
    exact absurd hf (by simp)
  · have hheaded := hhead₂ f₂ hf₂
    simp only [finalizeCurrentFile, hf₂, Option.some.injEq] at hf
    subst hf
    rw [finishFile_accepted]
    by_cases hall : (flushBlock lz w).2 = true ∧
        (flushSamples lz (flushBlock lz w).1).2 = true ∧ e.footer = none ∧ e.flush = none ∧
        e.fsync = false ∧ e.flags = false
    · obtain ⟨hok₁, hok₂, hfooter, hflush, hfsync, hflags⟩ := hall
      have hcons := consistent_of_flushed h hok₁ hok₂ hf₂
      rw [hok₁, hok₂]
      exact finishFile_settled hcons hterm hfooter hflush hfsync hflags
    · refine Or.inl (finishFile_not_certified hheaded terminal ?_)
      by_contra hno
      simp only [not_or, ne_eq, not_not, Bool.not_eq_false, Bool.not_eq_true,
        Bool.and_eq_true] at hno
      exact hall ⟨hno.1.1, hno.1.2, hno.2⟩

/-! ### Recovery of a leftover file -/

/-- A finished file that recovery reads as it was written: it has no more blocks than the scan
reads, and its footer does not look like one more. -/
def ReadsBack (file : Bytes) : Prop :=
  ∀ (hdr : FileHeader) (blocks : List BlockImage),
    file = leftoverFile hdr blocks (.footer (16 * blocks.length + 4)) →
      blocks.length ≤ maxReadBlocks ∧ (blocks.length = maxReadBlocks ∨
        ¬FooterLooksLikeBlock (indexFrom 28 blocks) (16 * blocks.length + 4))

theorem finishedFile_eq_leftoverFile (hdr : FileHeader) (blocks : List (WrittenBlock lz)) :
    finishedFile hdr blocks =
      leftoverFile hdr (images blocks) (.footer (16 * (images blocks).length + 4)) := by
  rw [finishedFile, leftoverFile, LeftoverTail.bytes, List.take_of_length_le]
  rw [length_footerBytes, length_indexFrom]

theorem le_scanBlocks_pos : (k pos : ℕ) → (bs : Bytes) → pos ≤ (scanBlocks k pos bs).2
  | 0, _, _ => le_refl _
  | k + 1, pos, bs => by
    rw [scanBlocks]
    split
    · exact le_refl _
    · exact le_trans (Nat.le_add_right _ _) (le_scanBlocks_pos k _ _)

theorem closureFromFlags_recovered (flags : UInt16) :
    ¬(closureFromFlags (flags ||| flagRecovered) = .clean ∨
      closureFromFlags (flags ||| flagRecovered) = .rotated) := by
  have hbit : (flags ||| flagRecovered) &&& flagRecovered = flagRecovered := by
    refine UInt16.eq_of_toBitVec_eq ?_
    simp only [UInt16.toBitVec_and, UInt16.toBitVec_or]
    ext i hi
    simp only [BitVec.getElem_and, BitVec.getElem_or, Bool.and_eq_right_iff_imp]
    exact fun h => by rw [h, Bool.or_true]
  have hrec : (flags ||| flagRecovered) &&& flagRecovered ≠ 0 := by
    rw [hbit]
    decide
  rw [closureFromFlags]
  split_ifs <;> simp

theorem not_certified_recover {file : Bytes} (h : ¬Certified file) (committed : ℤ) :
    ¬Certified (recoverCurrentTrace file committed).file := by
  rcases hread : readFileHeader file with _ | ⟨hdr, rest⟩
  · simp only [recoverCurrentTrace, hread]
    exact h
  · obtain rfl := eq_append_of_readFileHeader hread
    simp only [recoverCurrentTrace, hread]
    split_ifs
    · exact h
    · exact h
    · exact not_certified_of_short (by decide)
    · set r := scanBlocks maxReadBlocks 28 rest with hr
      have hpos : 28 ≤ r.2 := le_scanBlocks_pos _ _ _
      have htake : (hdr.bytes ++ rest).take r.2 = hdr.bytes ++ rest.take (r.2 - 28) := by
        rw [List.take_append, length_fileHeader_bytes,
          List.take_of_length_le (by rw [length_fileHeader_bytes]; omega)]
      rw [htake, List.append_assoc, writeHeaderFlags_append, certified_append_iff]
      rw [certified_append_iff] at h
      rw [recoveredFlags]
      split_ifs
      · exact closureFromFlags_recovered hdr.flags
      · exact h

theorem Settled.recover {f : ClosedFile} (h : Settled lz f) (hback : ReadsBack f.bytes)
    (committed : ℤ) : Settled lz ⟨(recoverCurrentTrace f.bytes committed).file, f.accepted⟩ := by
  rcases h with h | ⟨hdr, blocks, hread, hflags, hbytes, hacc⟩
  · exact Or.inl (not_certified_recover h committed)
  · have hleft := hbytes.trans (finishedFile_eq_leftoverFile hdr blocks)
    obtain ⟨hle, hstop⟩ := hback hdr (images blocks) hleft
    have hstop' : (images blocks).length = maxReadBlocks ∨
        ¬(LeftoverTail.footer (16 * (images blocks).length + 4)).LooksLikeBlock
          (indexFrom 28 (images blocks)) := by
      rw [LeftoverTail.LooksLikeBlock, length_footerBytes, length_indexFrom, min_self]
      exact hstop
    rw [hleft]
    by_cases hne : images blocks = []
    · have hintact : (LeftoverTail.footer (16 * (images blocks).length + 4)).Intact
          (indexFrom 28 (images blocks)) := by
        rw [LeftoverTail.Intact, length_footerBytes, length_indexFrom]
      have hindex := (index_eq_iff committed hread).2 ⟨hle, hstop'⟩
      rw [hne] at hintact hindex ⊢
      have hsame := recoverCurrentTrace_of_nil hread hintact hindex
      rw [hsame, ← hne, ← hleft]
      exact Or.inr ⟨hdr, blocks, hread, hflags, hbytes, hacc⟩
    · rw [recoverCurrentTrace_of_index hread hne hle hstop', recoveredFlags]
      split_ifs
      · exact Or.inl (certified_append_iff.not.2 (closureFromFlags_recovered hdr.flags))
      · exact Or.inr ⟨hdr, blocks, hread, hflags, rfl, hacc⟩

/-! ### The invariant -/

/-- The buffers are in bounds, an open file misses only pending records, and every other file is
settled. -/
structure Accounted (lz : Lz4) (w : EventWriter) : Prop where
  inBounds : InBounds w
  file : ∀ f, w.file = some f → w.enabled = true ∧ Consistent lz f (w.events ++ w.sampleBuf)
  settled : ∀ f ∈ w.closedFiles, Settled lz f

theorem Accounted.ready (h : Accounted lz w) (hf : w.file = some f) : Ready lz w := by
  obtain ⟨hen, hcons⟩ := h.file f hf
  exact ⟨hen, ⟨f, hf, hcons⟩, Nat.le_of_lt (h.inBounds.events_lt hen), h.inBounds.sampleBuf_le⟩

theorem Ready.accounted (h : Ready lz w) (hb : InBounds w)
    (hs : ∀ f ∈ w.closedFiles, Settled lz f) : Accounted lz w := by
  refine ⟨hb, fun f hf => ?_, hs⟩
  obtain ⟨f', hf', hcons⟩ := h.file
  obtain rfl := Option.some.inj (hf'.symm.trans hf)
  exact ⟨h.enabled, hcons⟩

/-- The leftover file that an open would recover is read back as it was written. -/
def EventWriter.LeftoverReadsBack (w : EventWriter) : Prop :=
  w.file = none → ∀ f, w.leftover = some f → ReadsBack f.bytes

theorem recoverLeftover_settled (moved : Bool) (hs : ∀ f ∈ w.closedFiles, Settled lz f)
    (hback : ∀ f, w.leftover = some f → ReadsBack f.bytes) :
    ∀ f ∈ (recoverLeftover w moved).closedFiles, Settled lz f := by
  have harch : ∀ f ∈ w.archived, Settled lz f := fun f hf => hs f (List.mem_append_left _ hf)
  rcases hleft : w.leftover with _ | g
  · simp only [recoverLeftover, hleft]
    exact hs
  · have hg : Settled lz g := hs g (List.mem_append_right _ (by simp [hleft]))
    have hrec := hg.recover (hback g hleft) w.metaBlocks
    have hcons : ∀ g, Settled lz g → ∀ f ∈ w.archived ++ [g], Settled lz f := by
      intro g hg f hf
      rcases List.mem_append.1 hf with hf | hf
      · exact harch f hf
      · rw [List.mem_singleton.1 hf]
        exact hg
    intro f hf
    simp only [recoverLeftover, hleft] at hf
    split at hf
    · exact harch f (by simpa [EventWriter.closedFiles] using hf)
    · split_ifs at hf <;> exact hcons g hg f (by simpa [EventWriter.closedFiles] using hf)
    · split_ifs at hf <;> exact hcons _ hrec f (by simpa [EventWriter.closedFiles] using hf)

theorem recoverLeftover_file (w : EventWriter) (moved : Bool) :
    (recoverLeftover w moved).file = w.file := by
  rw [recoverLeftover]
  split
  · rfl
  · simp only
    split
    · rfl
    · split_ifs <;> rfl
    · split_ifs <;> rfl

theorem newHeader_readable (pgVersion : UInt32) (call : OpenCall) :
    (newHeader pgVersion call).Readable :=
  ⟨rfl, show ¬traceVersion < 2 by decide, show ¬traceVersion < traceVersion by decide⟩

theorem consistent_newFile (pgVersion : UInt32) (call : OpenCall) (pending : List TraceEvent) :
    Consistent lz ⟨(newHeader pgVersion call).bytes, (newHeader pgVersion call).flags, [], []⟩
      pending :=
  ⟨newHeader pgVersion call, [], newHeader_readable pgVersion call, rfl, rfl,
    (List.append_nil _).symm, rfl, fun _ hr => absurd hr List.not_mem_nil⟩

/-- The lazy open keeps every file settled, and a file it opens is consistent. -/
theorem ensureOpen_accounted (call : OpenCall) (h : Accounted lz w) (hen : w.enabled = true)
    (hback : w.LeftoverReadsBack) :
    (∀ f ∈ (ensureOpen w call).1.closedFiles, Settled lz f) ∧
      ((ensureOpen w call).2 = true → Ready lz (ensureOpen w call).1) ∧
      ((ensureOpen w call).2 = false → (ensureOpen w call).1.file = none) := by
  rcases hf : w.file with _ | f
  · have hs := recoverLeftover_settled call.moved h.settled (hback hf)
    have hfile := (recoverLeftover_file w call.moved).trans hf
    have hdir := recoverLeftover_frame w call.moved
    set w₁ := recoverLeftover w call.moved with hw₁
    have hlt := h.inBounds.events_lt hen
    simp only [ensureOpen, hf, openTraceFile, ← hw₁]
    by_cases hno : w₁.leftover.isSome = true ∨ (!call.created) = true
    · simp only [if_pos hno, Bool.false_eq_true, if_false, false_implies, true_and, forall_const]
      exact ⟨hs, hfile⟩
    · rcases hcall : call.header with _ | k
      · simp only [if_neg hno, if_true, Bool.true_eq_false, false_implies, and_true, forall_const]
        refine ⟨hs, hdir.enabled.trans hen, ⟨_, rfl, consistent_newFile _ _ _⟩, ?_, ?_⟩
        · rw [hdir.events]
          exact Nat.le_of_lt hlt
        · rw [hdir.sampleBuf]
          exact h.inBounds.sampleBuf_le
      · simp only [if_neg hno, Bool.false_eq_true, if_false, false_implies, true_and, forall_const]
        refine ⟨fun f hf' => ?_, hfile⟩
        rcases List.mem_append.1 hf' with hf' | hf'
        · exact hs f (List.mem_append_left _ hf')
        · simp only [Option.toList_some, List.mem_singleton] at hf'
          subst hf'
          have hcut := not_certified_of_open (show (newHeader w₁.pgVersion call).flags = openFlags
            from rfl) [] k
          rw [List.append_nil] at hcut
          exact Or.inl hcut
  · have hopen : ensureOpen w call = (w, true) := by
      rw [ensureOpen, hf]
    rw [hopen]
    exact ⟨h.settled, fun _ => h.ready hf, fun h => absurd h.symm Bool.false_ne_true⟩

/-! ### Calls that lose nothing -/

/-- The call loses no records: nothing a block write of a push or a publication meets loses them, a
push keeps room in the buffer, and the leftover file that a push recovers is read back. Whatever
happens in a finalisation is allowed. -/
def KeepsRecords (w : EventWriter) : WriterCall → Prop
  | .pushEvent ev call faults =>
    KeepsRoom w (.pushEvent ev call faults) ∧ (∀ e ∈ faults, e.Lossless) ∧
      (w.enabled = true → w.LeftoverReadsBack)
  | .pushSamples samples _ _ faults =>
    (∀ e ∈ faults, e.Lossless) ∧ (w.enabled = true → samples ≠ [] → w.LeftoverReadsBack)
  | .publish faults => ∀ e ∈ faults, e.Lossless
  | .checkRotation _ _ _ _ => True
  | .close _ _ => True

theorem Accounted.withFaults (h : Accounted lz w) (faults : List BlockFaults) :
    Accounted lz { w with faults := faults } :=
  ⟨⟨h.inBounds.events_lt, h.inBounds.sampleBuf_le, h.inBounds.not_overran⟩, h.file, h.settled⟩

theorem storeEvent_ready (ev : TraceEvent) (h : Ready lz w) (hlt : w.events.length < blockEvents) :
    Ready lz (storeEvent w ev) := by
  obtain ⟨f, hf, hcons⟩ := h.file
  refine ⟨h.enabled, ⟨f.accept [w.stamp ev], by rw [storeEvent, hf]; rfl, ?_⟩, ?_, h.sampleBuf_le⟩
  · refine hcons.accept (fun r hr => ?_) (fun r hr => ?_)
    · simp only [storeEvent, List.mem_append] at hr ⊢
      exact hr.elim (fun h => Or.inl (Or.inl h)) Or.inr
    · simp only [storeEvent, List.mem_append]
      exact Or.inl (Or.inr hr)
  · rw [storeEvent, List.length_append]
    exact hlt

theorem pushEvent_accounted (ev : TraceEvent) (call : OpenCall) (h : Accounted lz w)
    (hl : w.Lossless)
    (hroom : ¬(w.enabled = true ∧ blockEvents ≤ w.events.length + 1 ∧ w.SamplesStall))
    (hback : w.enabled = true → w.LeftoverReadsBack) : Accounted lz (pushEvent lz w ev call).1 := by
  have hb := pushEvent_inBounds lz ev call h.inBounds hroom
  rcases hen : w.enabled with _ | _
  · simp only [pushEvent, hen, Bool.not_false, if_true]
    exact h
  · obtain ⟨hs, hready, hnone⟩ := ensureOpen_accounted call h hen (hback hen)
    simp only [pushEvent, hen, Bool.not_true, Bool.false_eq_true, if_false] at hb ⊢
    rcases ensureOpen_cases w call with ⟨hok, -⟩ | ⟨hok, hdir, -⟩
    · simp only [hok, Bool.not_false, if_true] at hb ⊢
      exact ⟨hb, fun f hf => absurd ((hnone hok).symm.trans hf) (by simp), hs⟩
    · simp only [hok, Bool.not_true, Bool.false_eq_true, if_false] at hb ⊢
      have hlt : (ensureOpen w call).1.events.length < blockEvents := by
        rw [hdir.events]
        exact h.inBounds.events_lt hen
      have hl' : (storeEvent (ensureOpen w call).1 ev).Lossless := fun e he =>
        hl e (hdir.faults ▸ he)
      have hstore := storeEvent_ready ev (hready hok) hlt
      split_ifs at hb ⊢
      · refine (flushBlock_ready hstore (Or.inl hl')).accounted hb ?_
        rw [(flushBlock_frame lz _).closedFiles]
        exact hs
      · exact hstore.accounted hb hs

theorem storeSamples_ready (samples : List TraceEvent) (period : UInt64) (h : Ready lz w)
    (hfit : w.sampleBuf.length + samples.length ≤ blockEvents) :
    Ready lz (storeSamples w samples period) := by
  obtain ⟨f, hf, hcons⟩ := h.file
  refine ⟨h.enabled, ⟨f.accept samples, by rw [storeSamples, hf]; rfl, ?_⟩, h.events_le, ?_⟩
  · refine hcons.accept (fun r hr => ?_) (fun r hr => ?_)
    · simp only [storeSamples, List.mem_append] at hr ⊢
      exact hr.imp_right Or.inl
    · simp only [storeSamples, List.mem_append]
      exact Or.inr (Or.inr hr)
  · rw [storeSamples, List.length_append]
    exact hfit

theorem pushSampleLoop_ready (period : UInt64) : (fuel : ℕ) → (w : EventWriter) →
    (samples : List TraceEvent) → Ready lz w → w.Lossless →
      Ready lz (pushSampleLoop lz period fuel w samples).1 ∧
        (pushSampleLoop lz period fuel w samples).1.Lossless ∧
        (pushSampleLoop lz period fuel w samples).1.closedFiles = w.closedFiles
  | 0, _, _, h, hl => ⟨h, hl, rfl⟩
  | fuel + 1, w, samples, h, hl => by
    have hfit : w.sampleBuf.length +
        (samples.take (blockEvents - w.sampleBuf.length)).length ≤ blockEvents := by
      have hle := h.sampleBuf_le
      rw [List.length_take]
      omega
    have hstore := storeSamples_ready (samples.take (blockEvents - w.sampleBuf.length)) period h hfit
    set w₁ := storeSamples w (samples.take (blockEvents - w.sampleBuf.length)) period with hw₁
    have hl₁ : w₁.Lossless := hl
    have hflush := flushSamples_ready hstore (Or.inl hl₁)
    have hframe := flushSamples_frame lz w₁
    rw [pushSampleLoop]
    split_ifs
    · exact ⟨h, hl, rfl⟩
    · simp only [← hw₁]
      split_ifs
      · obtain ⟨h₂, hl₂, hs₂⟩ := pushSampleLoop_ready period fuel _
          (samples.drop (blockEvents - w.sampleBuf.length)) hflush (hframe.lossless hl₁)
        exact ⟨h₂, hl₂, hs₂.trans hframe.closedFiles⟩
      · exact ⟨hflush, hframe.lossless hl₁, hframe.closedFiles⟩
      · exact pushSampleLoop_ready period fuel _ _ hstore hl₁

theorem flushIncompatible_ready (period : UInt64) (h : Ready lz w) (hl : w.Lossless) :
    Ready lz (flushIncompatible lz w period).1 := by
  rw [flushIncompatible]
  split_ifs
  · exact flushSamples_ready h (Or.inl hl)
  · exact h

theorem flushLongBatch_ready (h : Ready lz w) (hl : w.Lossless) :
    Ready lz (flushLongBatch lz w).1 := by
  rw [flushLongBatch]
  split_ifs
  · exact flushSamples_ready h (Or.inl hl)
  · exact h

theorem pushSamples_accounted (samples : List TraceEvent) (period : UInt64) (call : OpenCall)
    (h : Accounted lz w) (hl : w.Lossless)
    (hback : w.enabled = true → samples ≠ [] → w.LeftoverReadsBack) :
    Accounted lz (pushSamples lz w samples period call).1 := by
  have hb := pushSamples_inBounds lz samples period call h.inBounds
  rcases hen : w.enabled with _ | _
  · simp only [pushSamples, hen, Bool.not_false, if_true]
    exact h
  · by_cases hnil : samples = []
    · simp only [pushSamples, hen, Bool.not_true, Bool.false_eq_true, if_false, if_pos hnil]
      exact h
    · obtain ⟨hs, hready, hnone⟩ := ensureOpen_accounted call h hen (hback hen hnil)
      simp only [pushSamples, hen, Bool.not_true, Bool.false_eq_true, if_false, if_neg hnil]
        at hb ⊢
      rcases ensureOpen_cases w call with ⟨hok, -⟩ | ⟨hok, hdir, -⟩
      · simp only [hok, Bool.not_false, if_true] at hb ⊢
        exact ⟨hb, fun f hf => absurd ((hnone hok).symm.trans hf) (by simp), hs⟩
      · simp only [hok, Bool.not_true, Bool.false_eq_true, if_false] at hb ⊢
        have hl₁ : (ensureOpen w call).1.Lossless := fun e he => hl e (hdir.faults ▸ he)
        have hframe₂ := flushIncompatible_frame lz (ensureOpen w call).1 period
        have h₂ := flushIncompatible_ready period (hready hok) hl₁
        obtain ⟨h₃, hl₃, hs₃⟩ := pushSampleLoop_ready period (samples.length + 1) _ samples h₂
          (hframe₂.lossless hl₁)
        have hs₃' := hs₃.trans hframe₂.closedFiles
        split_ifs at hb ⊢
        · exact h₂.accounted hb (by rw [hframe₂.closedFiles]; exact hs)
        · exact h₃.accounted hb (by rw [hs₃']; exact hs)
        · refine (flushLongBatch_ready h₃ hl₃).accounted hb ?_
          rw [(flushLongBatch_frame lz _).closedFiles, hs₃']
          exact hs

theorem publish_accounted (h : Accounted lz w) (hl : w.Lossless) :
    Accounted lz (publish lz w).1 := by
  have hb := publish_inBounds lz h.inBounds
  rw [publish] at hb ⊢
  split_ifs at hb ⊢ with hno
  · exact h
  · obtain ⟨f, hf⟩ := Option.ne_none_iff_exists'.1 fun h => hno (Or.inr h)
    have hframe := flushBlock_frame lz w
    have h₁ := flushBlock_ready (h.ready hf) (Or.inl hl)
    have h₂ := flushSampleBuf_ready h₁ (Or.inl (hframe.lossless hl))
    refine h₂.accounted hb ?_
    rw [(flushSampleBuf_frame lz _).closedFiles, hframe.closedFiles]
    exact h.settled

theorem finalizeCurrentFile_accounted (h : Accounted lz w) (hf : w.file = some f)
    {terminal : UInt16} (hterm : terminal = flagClosedClean ∨ terminal = flagRotated)
    (e : FinalizeFaults) :
    ∃ g, (finalizeCurrentFile lz w terminal e).1.file = some g ∧
      Settled lz ⟨g.bytes, g.accepted⟩ ∧
      ∀ f ∈ (finalizeCurrentFile lz w terminal e).1.closedFiles, Settled lz f := by
  have hframe := finalizeCurrentFile_frame lz w terminal e
  have hsome : (finalizeCurrentFile lz w terminal e).1.file ≠ none := by
    rw [← Option.isSome_iff_ne_none, ← hframe.file, hf]
    rfl
  obtain ⟨g, hg⟩ := Option.ne_none_iff_exists'.1 hsome
  refine ⟨g, hg, finalizeCurrentFile_settled (h.ready hf) hterm e hg, ?_⟩
  rw [hframe.closedFiles]
  exact h.settled

theorem checkRotation_accounted (hour : ℤ) (e : FinalizeFaults) (renamed : Bool)
    (h : Accounted lz w) : Accounted lz (checkRotation lz w hour e renamed) := by
  have hb := checkRotation_inBounds lz hour e renamed h.inBounds
  rw [checkRotation] at hb ⊢
  by_cases hno : (!w.enabled) = true ∨ w.file = none
  · rw [if_pos hno]
    exact h
  · obtain ⟨f, hf⟩ := Option.ne_none_iff_exists'.1 fun h => hno (Or.inr h)
    obtain ⟨g, hg, hset, hs⟩ := finalizeCurrentFile_accounted h hf (Or.inr rfl) e
    simp only [if_neg hno] at hb ⊢
    split_ifs at hb ⊢
    · exact h
    · refine ⟨hb, fun _ hf' => absurd hf' (by simp [archiveFile]), fun f' hf' => ?_⟩
      simp only [archiveFile, hg, EventWriter.closedFiles, Option.map_some, Option.toList_some,
        List.mem_append, List.mem_singleton] at hf'
      rcases hf' with (hf' | rfl) | hf'
      · exact hs f' (List.mem_append_left _ hf')
      · exact hset
      · exact hs f' (List.mem_append_right _ hf')
    · refine ⟨hb, fun _ hf' => absurd hf' (by simp [leaveFile]), fun f' hf' => ?_⟩
      simp only [leaveFile, hg, EventWriter.closedFiles, Option.map_some, Option.toList_some,
        List.mem_append, List.mem_singleton] at hf'
      rcases hf' with hf' | rfl
      · exact hs f' (List.mem_append_left _ hf')
      · exact hset

theorem closeWriter_accounted (e : FinalizeFaults) (h : Accounted lz w) :
    Accounted lz (closeWriter lz w e) := by
  have hb := closeWriter_inBounds lz e h.inBounds
  rw [closeWriter] at hb ⊢
  by_cases hno : w.file = none
  · rw [if_pos hno]
    exact h
  · obtain ⟨f, hf⟩ := Option.ne_none_iff_exists'.1 hno
    obtain ⟨g, hg, hset, hs⟩ := finalizeCurrentFile_accounted h hf (Or.inl rfl) e
    rw [if_neg hno] at hb ⊢
    refine ⟨hb, fun _ hf' => absurd hf' (by simp [leaveFile]), fun f' hf' => ?_⟩
    simp only [leaveFile, hg, EventWriter.closedFiles, Option.map_some, Option.toList_some,
      List.mem_append, List.mem_singleton] at hf'
    rcases hf' with hf' | rfl
    · exact hs f' (List.mem_append_left _ hf')
    · exact hset

theorem writerStep_accounted (w : EventWriter) (c : WriterCall) (h : Accounted lz w)
    (hkeeps : KeepsRecords w c) : Accounted lz (writerStep lz w c) := by
  cases c with
  | pushEvent ev call faults =>
    obtain ⟨hroom, hl, hback⟩ := hkeeps
    exact pushEvent_accounted ev call (h.withFaults faults) hl hroom hback
  | pushSamples samples period call faults =>
    obtain ⟨hl, hback⟩ := hkeeps
    exact pushSamples_accounted samples period call (h.withFaults faults) hl hback
  | publish faults => exact publish_accounted (h.withFaults faults) hkeeps
  | checkRotation hour e renamed faults =>
    exact checkRotation_accounted hour e renamed (h.withFaults faults)
  | close e faults => exact closeWriter_accounted e (h.withFaults faults)

/-! ### Runs -/

/-- **A certified file vouches for its records.** In every run of the writer whose calls lose no
records, and whatever fails in its finalisations, every file that reads as closed cleanly or rotated
contains all records accepted while it was open, and its footer points at completely written blocks.

Source: `finalize_current_file`, `write_typed_block`, `pgwt_writer_close` (`src/event_writer.c`),
`src/trace_closure.h`. -/
theorem run_certified_vouched (lz : Lz4) (pgVersion : UInt32) (cpuMeasured : Bool)
    (pre post : List WriterCall)
    (h : Run.Allowed (writerStep lz) KeepsRecords (initWriter pgVersion cpuMeasured)
      (pre ++ post)) :
    ∀ f ∈ (pre.foldl (writerStep lz) (initWriter pgVersion cpuMeasured)).closedFiles,
      Certified f.bytes → Vouched lz f := by
  have hpre := Run.Allowed.of_append_left pre _ post h
  have hinit : Accounted lz (initWriter pgVersion cpuMeasured) :=
    ⟨⟨fun _ => Nat.succ_pos _, Nat.zero_le _, rfl⟩, fun _ hf => absurd hf (by simp [initWriter]),
      fun _ hf => absurd hf List.not_mem_nil⟩
  have hend := Run.Allowed.invariant writerStep_accounted pre _ hpre hinit
  exact fun f hf hc => (hend.settled f hf).vouched hc

/-- A transition, a publication whose block write meets `e`, and a close. -/
def oneBlockRun (e : BlockFaults) : List WriterCall :=
  [.pushEvent laterEvent {} [], .publish [e], .close {} []]

/-- The file the run leaves, by what the publication put into it. -/
theorem oneBlockRun_leftover {e : BlockFaults}
    (he : e = { write := some 0 } ∨ e = { flush := .kept }) :
    ∃ body, (e = { write := some 0 } → body = []) ∧
      ((oneBlockRun e).foldl (writerStep literalLz4) (initWriter 170000 true)).leftover =
        some ⟨{ newHeader 170000 {} with flags := openFlags ||| flagClosedClean }.bytes ++
          (body ++ footerBytes [⟨2, 28⟩]), [laterEvent]⟩ := by
  obtain ⟨block, hblock⟩ := typedBlock_isSome literalLz4 .transitions 0
    (show [laterEvent] ≠ [] by simp) (by decide)
  have hopen : writerStep literalLz4 (initWriter 170000 true) (.pushEvent laterEvent {} []) =
      { initWriter 170000 true with
        events := [laterEvent]
        currentHour := 0
        file := some ⟨(newHeader 170000 {}).bytes, openFlags, [], [laterEvent]⟩
        log := { accepted := [laterEvent] } } := by
    simp [writerStep, pushEvent, ensureOpen, openTraceFile, recoverLeftover, initWriter, storeEvent,
      EventWriter.stamp, blockEvents, OpenFile.accept]
    rfl
  rw [oneBlockRun, List.foldl_cons, hopen]
  rcases he with rfl | rfl
  · refine ⟨[], fun _ => rfl, ?_⟩
    simp [writerStep, publish, closeWriter, initWriter, flushBlock, EventWriter.samplesFirst,
      flushBlockCore, writeTypedBlock, writeBlock, hblock, EventWriter.nextFaults, appendBlock,
      flushSampleBuf, flushSamples, EventWriter.eventsFirst, finalizeCurrentFile, finishFile,
      leaveFile, OpenFile.append, OpenFile.addEntry, writeHeaderFlags_append, firstTs]
    rfl
  · refine ⟨block, fun h => absurd h (by decide), ?_⟩
    simp [writerStep, publish, closeWriter, initWriter, flushBlock, EventWriter.samplesFirst,
      flushBlockCore, writeTypedBlock, writeBlock, hblock, EventWriter.nextFaults, appendBlock,
      flushSampleBuf, flushSamples, EventWriter.eventsFirst, finalizeCurrentFile, finishFile,
      leaveFile, OpenFile.append, OpenFile.addEntry, writeHeaderFlags_append, firstTs]
    rfl

theorem length_of_completeBlockAt {file : Bytes} {off : ℕ} (h : CompleteBlockAt lz file off evs) :
    28 + 41 ≤ file.length := by
  obtain ⟨hoff, hne, hmax, type, period, block, hblock, hprefix⟩ := h
  obtain ⟨b, rfl, -⟩ := typedBlock_image (List.length_pos_iff.2 hne) hmax hblock
  have hlen := hprefix.length_le
  have hpos := b.payload_pos
  rw [length_blockImage_bytes, BlockImage.size, List.length_drop] at hlen
  omega

/-- The publication loses its block and leaves an index entry; the close then certifies the file:
the accepted transition is in no block, and the footer points at no block. -/
theorem certified_after_failed_write :
    ∃ f ∈ ((oneBlockRun { write := some 0 }).foldl (writerStep literalLz4)
        (initWriter 170000 true)).closedFiles,
      Certified f.bytes ∧ ¬Vouched literalLz4 f := by
  obtain ⟨body, hbody, hleft⟩ := oneBlockRun_leftover (Or.inl rfl)
  refine ⟨_, List.mem_append_right _ (Option.mem_toList.2 hleft), ?_, fun h => ?_⟩
  · rw [certified_append_iff]
    decide
  · obtain ⟨off, evs, hblock, -⟩ := h.records laterEvent (List.mem_singleton_self _)
    have hlen := length_of_completeBlockAt hblock
    rw [hbody rfl, List.nil_append, List.length_append, length_fileHeader_bytes,
      length_footerBytes] at hlen
    exact absurd hlen (by decide)

/-- When only the `fflush` of the publication fails and the close succeeds, the file is certified
and holds the transition. -/
theorem run_certified_vouched_keptBlock :
    ∃ f ∈ ((oneBlockRun { flush := .kept }).foldl (writerStep literalLz4)
        (initWriter 170000 true)).closedFiles,
      Certified f.bytes ∧ Vouched literalLz4 f := by
  obtain ⟨body, -, hleft⟩ := oneBlockRun_leftover (Or.inr rfl)
  have hmem := List.mem_append_right
    ((oneBlockRun { flush := .kept }).foldl (writerStep literalLz4)
      (initWriter 170000 true)).archived (Option.mem_toList.2 hleft)
  have hcert : Certified ({ newHeader 170000 {} with
      flags := openFlags ||| flagClosedClean }.bytes ++ (body ++ footerBytes [⟨2, 28⟩])) := by
    rw [certified_append_iff]
    decide
  refine ⟨_, hmem, hcert, run_certified_vouched literalLz4 170000 true _ [] ?_ _ hmem hcert⟩
  refine ⟨⟨?_, fun _ he => absurd he List.not_mem_nil, fun _ _ f hf => ?_⟩, fun e he => ?_,
    trivial, trivial⟩
  · rintro ⟨-, hfull, -⟩
    exact absurd hfull (by decide)
  · exact absurd hf (by simp [initWriter])
  · rw [List.mem_singleton.1 he]
    exact ⟨rfl, rfl, rfl, Or.inr rfl⟩

end PgWaitTracer
