import PgWaitTracer.EventWriter.Recovery
import Mathlib.Logic.Function.Basic

/-!
# Open-interval checkpoints

A checkpoint (`src/open_ckpt.h`) names the trace it describes by the two start stamps of that
trace's header. It lives beside the live trace as `current.trace.open` and is carried to
`<archive>.open` by `ckpt_handover` (`src/event_writer.c`) before the trace is archived.

The trace directory is a map from names to files, and the file operations of a call are listed in
their order, so that a crash is a prefix of the list. A handover looks at the destination only when
there is no live checkpoint: when it drops the live one, whatever lies at the destination stays
there.

Existing files can be opened and read, and unlinking succeeds.

## Main results

* `ckptHandover_leavesNoForeign_iff`: exactly when a handover leaves no foreign
  evidence at the destination.
-/

namespace PgWaitTracer

open ByteCodec

/-! ### The format -/

/-- `PGWT_OPEN_CKPT_MAGIC`. -/
def openCkptMagic : UInt32 := 0x4F574750

/-- `PGWT_OPEN_CKPT_VERSION`. -/
def openCkptVersion : UInt16 := 1

/-- `PGWT_OPEN_CKPT_MAX_RECORDS`, four times `MAX_BACKENDS`. -/
def openCkptMaxRecords : ℕ := 4 * 1024

/-- `sizeof(struct pgwt_open_ckpt_record)`. -/
def openCkptRecordSize : ℕ := 48

/-- `struct pgwt_open_ckpt_header`, packed. -/
structure OpenCkptHeader where
  magic : UInt32
  version : UInt16
  flags : UInt16
  traceStartWallNs : UInt64
  traceStartMonoNs : UInt64
  seq : UInt64
  checkpointMonoNs : UInt64
  committedThroughNs : UInt64
  numRecords : UInt32
  checksum : UInt32
  deriving DecidableEq, Repr

/-- The 56 bytes of a checkpoint header. -/
def OpenCkptHeader.bytes (h : OpenCkptHeader) : Bytes :=
  encodeU32 h.magic ++ (leBytes 2 h.version.toNat ++ (leBytes 2 h.flags.toNat ++
    (encodeU64 h.traceStartWallNs ++ (encodeU64 h.traceStartMonoNs ++ (encodeU64 h.seq ++
      (encodeU64 h.checkpointMonoNs ++ (encodeU64 h.committedThroughNs ++
        (encodeU32 h.numRecords ++ encodeU32 h.checksum))))))))

/-- The header at the front of a checkpoint. -/
def readOpenCkptHeader : Reader OpenCkptHeader := fun bs => do
  let (magic, bs) ← decodeU32 bs
  let (version, bs) ← decodeU16 bs
  let (flags, bs) ← decodeU16 bs
  let (traceStartWallNs, bs) ← decodeU64 bs
  let (traceStartMonoNs, bs) ← decodeU64 bs
  let (seq, bs) ← decodeU64 bs
  let (checkpointMonoNs, bs) ← decodeU64 bs
  let (committedThroughNs, bs) ← decodeU64 bs
  let (numRecords, bs) ← decodeU32 bs
  let (checksum, bs) ← decodeU32 bs
  pure (⟨magic, version, flags, traceStartWallNs, traceStartMonoNs, seq, checkpointMonoNs,
    committedThroughNs, numRecords, checksum⟩, bs)

@[simp] theorem length_openCkptHeader_bytes (h : OpenCkptHeader) : h.bytes.length = 56 := by
  simp [OpenCkptHeader.bytes, encodeU64, encodeU32]

/-- One bit of the checksum. -/
def crcBit (crc : UInt32) : UInt32 :=
  if crc &&& 1 = 1 then (crc >>> 1) ^^^ 0xEDB88320 else crc >>> 1

/-- `pgwt_open_ckpt_crc32`. -/
def openCkptCrc32 (data : Bytes) : UInt32 :=
  ~~~(data.foldl (fun crc b => Nat.iterate crcBit 8 (crc ^^^ UInt32.ofNat b.toNat)) 0xFFFFFFFF)

/-- `struct pgwt_open_ckpt_identity`. -/
structure CkptIdentity where
  traceStartWallNs : UInt64
  traceStartMonoNs : UInt64
  deriving DecidableEq, Repr

/-- The identity a checkpoint header names. -/
def OpenCkptHeader.identity (h : OpenCkptHeader) : CkptIdentity :=
  ⟨h.traceStartWallNs, h.traceStartMonoNs⟩

/-- `enum pgwt_open_ckpt_rc`, without the verdict on a file that cannot be read into memory. -/
inductive OpenCkptRc
  | ok | absent | tooShort | badMagic | badVersion | countInsane | truncated | badChecksum
  | identityMismatch
  deriving DecidableEq, Repr

/-- `pgwt_open_ckpt_parse` against the identity of a trace. -/
def openCkptParse (buf : Bytes) (expect : CkptIdentity) : OpenCkptRc :=
  match readOpenCkptHeader buf with
  | none => .tooShort
  | some (h, recs) =>
    if h.magic ≠ openCkptMagic then .badMagic
    else if h.version ≠ openCkptVersion then .badVersion
    else if openCkptMaxRecords < h.numRecords.toNat then .countInsane
    else if buf.length < 56 + h.numRecords.toNat * openCkptRecordSize then .truncated
    else if openCkptCrc32 (recs.take (h.numRecords.toNat * openCkptRecordSize)) ≠ h.checksum then
      .badChecksum
    else if h.identity ≠ expect then .identityMismatch
    else .ok

/-- `pgwt_open_ckpt_load` on the content of a file. -/
def openCkptLoad (file : Option Bytes) (expect : CkptIdentity) : OpenCkptRc :=
  match file with
  | none => .absent
  | some buf =>
    if 56 + openCkptMaxRecords * openCkptRecordSize < buf.length then .countInsane
    else if buf.length < 56 then .tooShort
    else openCkptParse buf expect

theorem openCkptLoad_eq_absent_iff {file : Option Bytes} {expect : CkptIdentity} :
    openCkptLoad file expect = .absent ↔ file = none := by
  cases file with
  | none => simp [openCkptLoad]
  | some buf =>
    have hparse : openCkptParse buf expect ≠ .absent := by
      unfold openCkptParse
      cases readOpenCkptHeader buf with
      | none => exact nofun
      | some r =>
        dsimp only
        split_ifs <;> exact nofun
    simp only [openCkptLoad, reduceCtorEq, iff_false]
    split_ifs
    · exact nofun
    · exact nofun
    · exact hparse

/-! ### The trace directory -/

/-- An archive of a trace: the hour its name spells and the numeric suffix, `0` for none. -/
structure ArchiveName (H : Type*) where
  hour : H
  suffix : ℕ
  deriving DecidableEq, Repr

/-- The names in a trace directory that the life of a trace involves. -/
inductive DirName (H : Type*)
  | current | currentMeta | currentMetaTmp | openCkpt | openCkptTmp
  | corrupt (stamp : ℕ)
  | archive (a : ArchiveName H)
  | archiveOpen (a : ArchiveName H)
  deriving DecidableEq, Repr

/-- A trace directory: the files under its names. -/
abbrev TraceDirectory (H : Type*) := DirName H → Option Bytes

/-- An operation on a directory. -/
inductive DirOp (H : Type*)
  | unlink (name : DirName H)
  | rename (source dest : DirName H)
  | write (name : DirName H) (content : Bytes)
  deriving DecidableEq, Repr

/-! ### The handover -/

variable {H : Type*}

/-- `ckpt_handover`: the operations it performs on the directory, given whether its `rename`
succeeds, and what it returns. -/
def ckptHandover (d : TraceDirectory H) (dest : ArchiveName H) (id : CkptIdentity)
    (renamed : Bool) :
    List (DirOp H) × Bool :=
  match openCkptLoad (d .openCkpt) id with
  | .ok =>
    if renamed then ([.unlink .openCkptTmp, .rename .openCkpt (.archiveOpen dest)], true)
    else ([.unlink .openCkptTmp, .unlink .openCkpt], false)
  | .absent =>
    if d (.archiveOpen dest) = none then ([.unlink .openCkptTmp], false)
    else if openCkptLoad (d (.archiveOpen dest)) id = .ok then ([.unlink .openCkptTmp], true)
    else ([.unlink .openCkptTmp, .unlink (.archiveOpen dest)], false)
  | _ => ([.unlink .openCkptTmp, .unlink .openCkpt], false)

section Handover

variable {d : TraceDirectory H} {dest : ArchiveName H} {id : CkptIdentity} {renamed : Bool}

theorem ckptHandover_of_valid (h : openCkptLoad (d .openCkpt) id = .ok) :
    ckptHandover d dest id true =
      ([.unlink .openCkptTmp, .rename .openCkpt (.archiveOpen dest)], true) := by
  simp [ckptHandover, h]

theorem ckptHandover_of_stranded (hlive : d .openCkpt = none)
    (h : openCkptLoad (d (.archiveOpen dest)) id = .ok) :
    ckptHandover d dest id renamed = ([.unlink .openCkptTmp], true) := by
  have hsome : d (.archiveOpen dest) ≠ none := by
    rintro hnone
    simp [hnone, openCkptLoad] at h
  have habsent : openCkptLoad (d .openCkpt) id = .absent := openCkptLoad_eq_absent_iff.2 hlive
  simp only [ckptHandover, habsent, hsome, if_false, h, if_true]

theorem ckptHandover_of_dropped (hlive : d .openCkpt ≠ none)
    (h : openCkptLoad (d .openCkpt) id = .ok → renamed = false) :
    ckptHandover d dest id renamed = ([.unlink .openCkptTmp, .unlink .openCkpt], false) := by
  have habsent : openCkptLoad (d .openCkpt) id ≠ .absent :=
    fun habs => hlive (openCkptLoad_eq_absent_iff.1 habs)
  unfold ckptHandover
  cases hrc : openCkptLoad (d .openCkpt) id with
  | ok => simp [h hrc]
  | absent => exact absurd hrc habsent
  | _ => rfl

end Handover

/-! ### Running operations -/

variable [DecidableEq H]

/-- The directory after an operation. Renaming replaces what is at the destination; renaming a file
that does not exist does nothing. -/
def DirOp.run (d : TraceDirectory H) : DirOp H → TraceDirectory H
  | .unlink name => Function.update d name none
  | .rename source dest =>
    match d source with
    | none => d
    | some content => Function.update (Function.update d source none) dest (some content)
  | .write name content => Function.update d name (some content)

/-- The directory after some operations. -/
def runOps (ops : List (DirOp H)) (d : TraceDirectory H) : TraceDirectory H := ops.foldl DirOp.run d

@[simp] theorem runOps_nil (d : TraceDirectory H) : runOps [] d = d := rfl

@[simp] theorem runOps_cons (op : DirOp H) (ops : List (DirOp H)) (d : TraceDirectory H) :
    runOps (op :: ops) d = runOps ops (op.run d) := rfl

theorem DirOp.run_unlink (d : TraceDirectory H) (name n : DirName H) :
    (DirOp.unlink name).run d n = if n = name then none else d n :=
  Function.update_apply d name none n

theorem DirOp.run_rename {d : TraceDirectory H} {source dest : DirName H} {content : Bytes}
    (h : d source = some content) (n : DirName H) :
    (DirOp.rename source dest).run d n =
      if n = dest then some content else if n = source then none else d n := by
  simp only [DirOp.run, h, Function.update_apply]

/-! ### No foreign evidence -/

/-- What lies at the destination after a handover. -/
def sidecarAfter (d : TraceDirectory H) (dest : ArchiveName H) (id : CkptIdentity)
    (renamed : Bool) :
    Option Bytes :=
  runOps (ckptHandover d dest id renamed).1 d (.archiveOpen dest)

/-- **No foreign evidence.** After the handover the destination is absent or a valid checkpoint of
the trace, and the call says which. -/
def LeavesNoForeign (d : TraceDirectory H) (dest : ArchiveName H) (id : CkptIdentity)
    (renamed : Bool) : Prop :=
  (sidecarAfter d dest id renamed = none ∨ openCkptLoad (sidecarAfter d dest id renamed) id = .ok) ∧
    ((ckptHandover d dest id renamed).2 = true ↔
      openCkptLoad (sidecarAfter d dest id renamed) id = .ok)

instance (d : TraceDirectory H) (dest : ArchiveName H) (id : CkptIdentity) (renamed : Bool) :
    Decidable (LeavesNoForeign d dest id renamed) :=
  inferInstanceAs (Decidable (_ ∧ _))

section Foreign

variable {d : TraceDirectory H} {dest : ArchiveName H} {id : CkptIdentity} {renamed : Bool}

theorem leavesNoForeign_of_valid (h : openCkptLoad (d .openCkpt) id = .ok) :
    LeavesNoForeign d dest id true := by
  obtain ⟨content, hcontent⟩ : ∃ content, d .openCkpt = some content := by
    refine Option.ne_none_iff_exists'.1 fun hnone => ?_
    simp [hnone, openCkptLoad] at h
  have hlive : (DirOp.unlink .openCkptTmp).run d .openCkpt = some content := by
    simp [DirOp.run_unlink, hcontent]
  have hafter : sidecarAfter d dest id true = some content := by
    simp [sidecarAfter, ckptHandover_of_valid h, DirOp.run_rename hlive]
  rw [hcontent] at h
  simp [LeavesNoForeign, hafter, h, ckptHandover_of_valid (hcontent ▸ h)]

theorem leavesNoForeign_of_absent (hlive : d .openCkpt = none) :
    LeavesNoForeign d dest id renamed := by
  have habsent : openCkptLoad (d .openCkpt) id = .absent := openCkptLoad_eq_absent_iff.2 hlive
  have hnone : openCkptLoad none id ≠ .ok := fun h => nomatch h
  by_cases hdest : d (.archiveOpen dest) = none
  · have hhand : ckptHandover d dest id renamed = ([.unlink .openCkptTmp], false) := by
      simp [ckptHandover, habsent, hdest]
    simp [LeavesNoForeign, sidecarAfter, hhand, DirOp.run_unlink, hdest, hnone]
  · by_cases hok : openCkptLoad (d (.archiveOpen dest)) id = .ok
    · have hhand : ckptHandover d dest id renamed = ([.unlink .openCkptTmp], true) :=
        ckptHandover_of_stranded hlive hok
      simp [LeavesNoForeign, sidecarAfter, hhand, DirOp.run_unlink, hok]
    · have hhand : ckptHandover d dest id renamed =
          ([.unlink .openCkptTmp, .unlink (.archiveOpen dest)], false) := by
        simp [ckptHandover, habsent, hdest, hok]
      simp [LeavesNoForeign, sidecarAfter, hhand, DirOp.run_unlink, hnone]

theorem leavesNoForeign_of_dropped (hlive : d .openCkpt ≠ none)
    (h : openCkptLoad (d .openCkpt) id = .ok → renamed = false) :
    LeavesNoForeign d dest id renamed ↔ d (.archiveOpen dest) = none := by
  have hhand : ckptHandover d dest id renamed =
      ([.unlink .openCkptTmp, .unlink .openCkpt], false) := ckptHandover_of_dropped hlive h
  have hafter : sidecarAfter d dest id renamed = d (.archiveOpen dest) := by
    simp [sidecarAfter, hhand, DirOp.run_unlink]
  simp only [LeavesNoForeign, hafter, hhand, Bool.false_eq_true, false_iff]
  constructor
  · rintro ⟨hnone | hok, hret⟩
    · exact hnone
    · exact absurd hok hret
  · intro hnone
    rw [hnone]
    exact ⟨.inl rfl, fun hok => nomatch hok⟩

end Foreign

/-- **Checkpoint handover.** A handover leaves no foreign evidence at the destination exactly when
there is no live checkpoint, or the live one is valid for the trace and the rename succeeds, or
nothing lies at the destination. -/
theorem ckptHandover_leavesNoForeign_iff (d : TraceDirectory H) (dest : ArchiveName H)
    (id : CkptIdentity) (renamed : Bool) :
    LeavesNoForeign d dest id renamed ↔
      d .openCkpt = none ∨ (openCkptLoad (d .openCkpt) id = .ok ∧ renamed = true) ∨
        d (.archiveOpen dest) = none := by
  by_cases hlive : d .openCkpt = none
  · simp [hlive, leavesNoForeign_of_absent hlive]
  · by_cases hcarried : openCkptLoad (d .openCkpt) id = .ok ∧ renamed = true
    · obtain ⟨hok, rfl⟩ := hcarried
      simp [hok, leavesNoForeign_of_valid hok]
    · have hdropped : openCkptLoad (d .openCkpt) id = .ok → renamed = false := fun hok =>
        Bool.eq_false_iff.2 fun hren => hcarried ⟨hok, hren⟩
      rw [leavesNoForeign_of_dropped hlive hdropped]
      simp [hlive, hcarried]

/-- A checkpoint without records of the trace with the given stamps. -/
def emptyCheckpoint (id : CkptIdentity) : Bytes :=
  OpenCkptHeader.bytes ⟨openCkptMagic, openCkptVersion, 0, id.traceStartWallNs,
    id.traceStartMonoNs, 1, 0, 0, 0, 0⟩

/-- The live checkpoint is one torn byte, and a checkpoint of another trace lies at the
destination. -/
def foreignSidecarDir : TraceDirectory ℕ
  | .current => none
  | .openCkpt => some [0]
  | .archiveOpen ⟨7, 0⟩ => some (emptyCheckpoint ⟨5, 5⟩)
  | _ => none

/-- The handover drops the torn live checkpoint and leaves the foreign one beside the archive. -/
theorem ckptHandover_keeps_foreign :
    ¬ LeavesNoForeign foreignSidecarDir ⟨7, 0⟩ ⟨1, 2⟩ true ∧
      openCkptLoad (sidecarAfter foreignSidecarDir ⟨7, 0⟩ ⟨1, 2⟩ true) ⟨1, 2⟩ =
        .identityMismatch := by
  decide +kernel

end PgWaitTracer
