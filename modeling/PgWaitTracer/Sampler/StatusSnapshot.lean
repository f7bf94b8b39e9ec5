import PgWaitTracer.Lib.BitMask
import PgWaitTracer.Lib.SeqLock

/-!
# Snapshots of the backend status

PostgreSQL keeps a row for every backend (`PgBackendStatus`), which the backend changes between two
increments of `st_changecount`. The sampler copies the row with one `pread` for every field, follows
the pointer to the activity text, and keeps the copy if the counter is even and the same before and
after (`read_snapshot_fd`, `src/backend_status_layout.c`).

The reads are steps in a memory that the backend goes on changing. The widths of the fields are
those of the members of the snapshot, as `structurally_sane` demands of a layout.

## Main results

* `snapshotAttempt_spec`: where an attempt reads what.
* `readSnapshotFd_coherent`: a snapshot that is kept is that of one row between two
  groups of changes, after at most 32 attempts.
-/

namespace PgWaitTracer

open BitMask

/-! ### The row and its reads -/

/-- The fields that are read between the two readings of the counter, in order. -/
inductive StatusField
  | procpid
  | databaseid
  | userid
  | state
  | activityRaw
  | queryId
  deriving DecidableEq, Repr

namespace StatusField

/-- `PGWT_PGBS_READ_*`. The bit 0 is that of the counter. -/
def bit : StatusField → UInt32
  | .procpid => 0x02
  | .databaseid => 0x04
  | .userid => 0x08
  | .state => 0x10
  | .activityRaw => 0x20
  | .queryId => 0x40

end StatusField

/-- `PGWT_PGBS_READ_CHANGECOUNT`. -/
def readChangecount : UInt32 := 0x01

/-- The fields in the order in which they are read. -/
def statusFields : List StatusField :=
  [.procpid, .databaseid, .userid, .state, .activityRaw, .queryId]

/-- What a backend keeps: the fields of `PgBackendStatus` that are read, and its memory, which holds
the activity text. -/
structure StatusRow where
  procpid : UInt32
  databaseid : UInt32
  userid : UInt32
  state : UInt32
  activityRaw : UInt64
  queryId : UInt64
  bytesAt : UInt64 → List UInt8

/-- The bytes of a field, as a number. -/
def StatusRow.field (r : StatusRow) : StatusField → UInt64
  | .procpid => r.procpid.toUInt64
  | .databaseid => r.databaseid.toUInt64
  | .userid => r.userid.toUInt64
  | .state => r.state.toUInt64
  | .activityRaw => r.activityRaw
  | .queryId => r.queryId

/-- What the reads of a call find, by their number: the row with its counter, whether a read of a
field succeeds, and how much a read of the text can copy. -/
structure StatusMemory where
  row : ℕ → SeqLock.Versioned StatusRow
  ok : ℕ → Bool
  textLen : ℕ → ℕ

/-- `struct PgBackendStatusLayout`, as far as a snapshot depends on it. -/
structure StatusLayout where
  changecountPresent : Bool := true
  present : StatusField → Bool
  activityBufferSize : ℕ

/-! ### The snapshot -/

/-- `struct pgwt_pgbs_snapshot`, without the mark that `candidate_ok` sets. -/
structure StatusSnapshot where
  changecountBefore : UInt32 := 0
  changecountAfter : UInt32 := 0
  procpid : UInt32 := 0
  databaseid : UInt32 := 0
  userid : UInt32 := 0
  state : UInt32 := 0
  activityRaw : UInt64 := 0
  queryId : UInt64 := 0
  readMask : UInt32 := 0
  activityReadable : Bool := false
  activityTruncated : Bool := false
  deriving DecidableEq, Repr

namespace StatusSnapshot

/-- A field of the snapshot. -/
def field (s : StatusSnapshot) : StatusField → UInt64
  | .procpid => s.procpid.toUInt64
  | .databaseid => s.databaseid.toUInt64
  | .userid => s.userid.toUInt64
  | .state => s.state.toUInt64
  | .activityRaw => s.activityRaw
  | .queryId => s.queryId

/-- The member of a field, with the cast to its type. -/
def setField (s : StatusSnapshot) (value : UInt64) : StatusField → StatusSnapshot
  | .procpid => { s with procpid := value.toUInt32 }
  | .databaseid => { s with databaseid := value.toUInt32 }
  | .userid => { s with userid := value.toUInt32 }
  | .state => { s with state := value.toUInt32 }
  | .activityRaw => { s with activityRaw := value }
  | .queryId => { s with queryId := value }

/-- The snapshot has read a field. -/
def hasRead (s : StatusSnapshot) (f : StatusField) : Bool := s.readMask &&& f.bit ≠ 0

end StatusSnapshot

/-- A call under way: the snapshot, the bytes in the buffer for the text and the number of reads. -/
structure SnapshotState where
  snapshot : StatusSnapshot := {}
  activity : List UInt8 := []
  preads : ℕ := 0

namespace StatusMemory

variable (env : StatusMemory)

/-- `read_field_value`: a read of a field that is there. -/
def readFieldValue (present : Bool) (value : SeqLock.Versioned StatusRow → UInt64) (k : ℕ) :
    Option UInt64 × ℕ :=
  if present then (if env.ok k then some (value (env.row k)) else none, k + 1) else (none, k)

/-- `st_changecount` in the memory, a word of 32 bits. -/
def readChangecountValue (layout : StatusLayout) (k : ℕ) : Option UInt64 × ℕ :=
  env.readFieldValue layout.changecountPresent (fun r => (UInt32.ofNat r.count).toUInt64) k

end StatusMemory

/-- `READ_VALUE`, for a field that is wanted. -/
def readValue (env : StatusMemory) (layout : StatusLayout) (wantedMask : UInt32)
    (st : SnapshotState) (f : StatusField) : SnapshotState :=
  if wantedMask &&& f.bit = 0 ∨ f = .queryId ∧ !layout.present .queryId then st
  else
    match env.readFieldValue (layout.present f) (fun r => r.val.field f) st.preads with
    | (none, k) => { st with preads := k }
    | (some value, k) =>
      { st with
        snapshot := { st.snapshot.setField value f with
          readMask := st.snapshot.readMask ||| f.bit }
        preads := k }

/-- How much of the text is wanted, with room for the terminator. -/
def StatusLayout.activityWant (layout : StatusLayout) (activitySz : ℕ) : ℕ :=
  if 0 < layout.activityBufferSize then min (activitySz - 1) layout.activityBufferSize
  else activitySz - 1

/-- The copy of the activity text. -/
def readActivity (env : StatusMemory) (layout : StatusLayout) (wantedMask : UInt32)
    (activitySz : ℕ) (st : SnapshotState) : SnapshotState :=
  if wantedMask &&& StatusField.activityRaw.bit ≠ 0 ∧ st.snapshot.activityRaw ≠ 0 ∧
      0 < activitySz then
    let bytes := ((env.row st.preads).val.bytesAt st.snapshot.activityRaw).take
      (min (env.textLen st.preads) (layout.activityWant activitySz))
    let n := bytes.length
    if 0 < n then
      let len := (bytes.takeWhile fun b => b ≠ 0).length
      { snapshot := { st.snapshot with
          activityReadable := true
          activityTruncated := len = n ∨
            0 < layout.activityBufferSize ∧ layout.activityBufferSize ≤ len + 1 }
        activity := bytes
        preads := st.preads + 1 }
    else { st with preads := st.preads + 1 }
  else st

/-- How an attempt ends. -/
inductive AttemptEnd
  | fail
  | retry
  | keep
  deriving DecidableEq, Repr

/-- An attempt of `read_snapshot_fd`, from a number of reads on. -/
def snapshotAttempt (env : StatusMemory) (layout : StatusLayout) (wantedMask : UInt32)
    (activitySz k : ℕ) : SnapshotState × AttemptEnd :=
  match env.readChangecountValue layout k with
  | (none, k) => ({ preads := k }, .fail)
  | (some value, k) =>
    let st : SnapshotState :=
      { snapshot := { changecountBefore := value.toUInt32, readMask := readChangecount }
        preads := k }
    if st.snapshot.changecountBefore &&& 1 ≠ 0 then (st, .retry)
    else
      let st := statusFields.foldl (readValue env layout wantedMask) st
      let st := readActivity env layout wantedMask activitySz st
      match env.readChangecountValue layout st.preads with
      | (none, k) => ({ st with preads := k }, .fail)
      | (some value, k) =>
        let st := { st with
          snapshot := { st.snapshot with changecountAfter := value.toUInt32 }
          preads := k }
        if st.snapshot.changecountBefore ≠ st.snapshot.changecountAfter ∨
            st.snapshot.changecountAfter &&& 1 ≠ 0 then (st, .retry)
        else (st, .keep)

/-- The loop of `read_snapshot_fd` with some attempts left: the state after the last one, whether it
returns 0, and the number of attempts. -/
def snapshotLoop (env : StatusMemory) (layout : StatusLayout) (wantedMask : UInt32)
    (activitySz : ℕ) : ℕ → SnapshotState → ℕ → SnapshotState × Bool × ℕ
  | 0, st, attempts => (st, false, attempts)
  | left + 1, st, attempts =>
    match snapshotAttempt env layout wantedMask activitySz st.preads with
    | (st, .fail) => (st, false, attempts + 1)
    | (st, .keep) => (st, true, attempts + 1)
    | (st, .retry) => snapshotLoop env layout wantedMask activitySz left st (attempts + 1)

/-- `read_snapshot_fd`. A buffer that is `NULL` has no bytes. -/
def readSnapshotFd (env : StatusMemory) (layout : StatusLayout) (wantedMask : UInt32)
    (activitySz : ℕ) : SnapshotState × Bool × ℕ :=
  snapshotLoop env layout wantedMask activitySz 32 {} 0

/-! ### What is kept -/

/-- The fields that were read and the text are those of a row. -/
structure StatusSnapshot.CopyOf (s : StatusSnapshot) (activity : List UInt8) (r : StatusRow) :
    Prop where
  field : ∀ f, s.hasRead f = true → s.field f = r.field f
  text : s.activityReadable = true → ∃ n, activity = (r.bytesAt r.activityRaw).take n
  unread : s.activityReadable = false → activity = []

/-- The fields and the text of an attempt are those of rows that were read between its first read
and a later one. -/
structure SnapshotState.ReadBetween (env : StatusMemory) (k hi : ℕ) (st : SnapshotState) :
    Prop where
  lt : k < hi
  before : st.snapshot.changecountBefore = UInt32.ofNat (env.row k).count
  field : ∀ f, st.snapshot.hasRead f = true →
    ∃ j, k < j ∧ j < hi ∧ st.snapshot.field f = (env.row j).val.field f
  raw : st.snapshot.activityRaw ≠ 0 → st.snapshot.hasRead .activityRaw = true
  text : st.snapshot.activityReadable = true → st.snapshot.hasRead .activityRaw = true ∧
    ∃ j n, k < j ∧ j < hi ∧
      st.activity = ((env.row j).val.bytesAt st.snapshot.activityRaw).take n
  unread : st.snapshot.activityReadable = false → st.activity = []

/-! ### Fields and bits -/

/-- The number of the bit of a field. -/
def StatusField.index : StatusField → ℕ
  | .procpid => 1
  | .databaseid => 2
  | .userid => 3
  | .state => 4
  | .activityRaw => 5
  | .queryId => 6

theorem StatusField.index_injective : Function.Injective StatusField.index := by
  intro f g h
  cases f <;> cases g <;> first | rfl | exact absurd h (by decide)

theorem StatusField.toBitVec_bit (f : StatusField) :
    f.bit.toBitVec = BitVec.twoPow 32 f.index := by
  cases f <;> rfl

theorem StatusField.index_lt (f : StatusField) : f.index < 32 := by
  cases f <;> decide

namespace StatusSnapshot

variable {s : StatusSnapshot} {f g : StatusField} {value : UInt64}

theorem hasRead_iff : s.hasRead f = true ↔ bitAt s.readMask f.index = true := by
  rw [hasRead, decide_eq_true_eq, ne_eq,
    and_eq_zero_iff_of_twoPow f.toBitVec_bit f.index_lt, Bool.not_eq_false]

theorem hasRead_or (f g : StatusField) (s : StatusSnapshot) (mask : UInt32) :
    hasRead { s with readMask := mask ||| f.bit } g = true ↔
      g = f ∨ hasRead { s with readMask := mask } g = true := by
  rw [hasRead_iff, hasRead_iff]
  show bitAt (mask ||| f.bit) g.index = true ↔ g = f ∨ bitAt mask g.index = true
  rw [bitAt_or, bitAt_of_twoPow f.toBitVec_bit f.index_lt, Bool.or_eq_true, decide_eq_true_eq,
    StatusField.index_injective.eq_iff, or_comm]

theorem field_setField_self (s : StatusSnapshot) (r : StatusRow) (f : StatusField) :
    (s.setField (r.field f) f).field f = r.field f := by
  cases f <;> simp [setField, field, StatusRow.field]

theorem field_setField_of_ne (h : g ≠ f) : (s.setField value f).field g = s.field g := by
  cases f <;> cases g <;> first | rfl | exact absurd rfl h

@[simp] theorem readMask_setField : (s.setField value f).readMask = s.readMask := by
  cases f <;> rfl

@[simp] theorem changecountBefore_setField :
    (s.setField value f).changecountBefore = s.changecountBefore := by
  cases f <;> rfl

@[simp] theorem activityReadable_setField :
    (s.setField value f).activityReadable = s.activityReadable := by
  cases f <;> rfl

end StatusSnapshot

/-! ### One attempt -/

namespace StatusMemory

variable {env : StatusMemory} {present : Bool} {value : SeqLock.Versioned StatusRow → UInt64}
  {k k' : ℕ} {v : UInt64}

theorem readFieldValue_some (h : env.readFieldValue present value k = (some v, k')) :
    k' = k + 1 ∧ v = value (env.row k) := by
  rw [readFieldValue] at h
  split_ifs at h
  · obtain ⟨hv, hk⟩ := Prod.mk.inj h
    exact ⟨hk.symm, (Option.some.inj hv).symm⟩
  all_goals exact absurd (congrArg Prod.fst h) (by simp)

theorem readFieldValue_preads {o : Option UInt64}
    (h : env.readFieldValue present value k = (o, k')) : k ≤ k' ∧ k' ≤ k + 1 := by
  rw [readFieldValue] at h
  split_ifs at h
  all_goals
    obtain rfl := congrArg Prod.snd h
    exact ⟨by simp, by simp⟩

end StatusMemory

namespace SnapshotState.ReadBetween

variable {env : StatusMemory} {layout : StatusLayout} {wantedMask : UInt32} {k : ℕ}
  {st : SnapshotState}

theorem skip {hi n : ℕ} (h : st.ReadBetween env k hi) (hn : hi ≤ n) (m : ℕ) :
    SnapshotState.ReadBetween env k n { st with preads := m } where
  lt := Nat.lt_of_lt_of_le h.lt hn
  before := h.before
  field f hf := by
    obtain ⟨j, hkj, hj, hval⟩ := h.field f hf
    exact ⟨j, hkj, Nat.lt_of_lt_of_le hj hn, hval⟩
  raw := h.raw
  text ha := by
    obtain ⟨hraw, j, m, hkj, hj, hval⟩ := h.text ha
    exact ⟨hraw, j, m, hkj, Nat.lt_of_lt_of_le hj hn, hval⟩
  unread := h.unread

/-- A field is read before the text. -/
theorem setField (h : st.ReadBetween env k st.preads)
    (hunread : st.snapshot.activityReadable = false) (f : StatusField) :
    SnapshotState.ReadBetween env k (st.preads + 1)
      { st with
        snapshot := { st.snapshot.setField ((env.row st.preads).val.field f) f with
          readMask := st.snapshot.readMask ||| f.bit }
        preads := st.preads + 1 } where
  lt := Nat.lt_succ_of_lt h.lt
  before := StatusSnapshot.changecountBefore_setField.trans h.before
  field g hg := by
    rw [StatusSnapshot.hasRead_or] at hg
    by_cases hgf : g = f
    · subst hgf
      exact ⟨st.preads, h.lt, Nat.lt_succ_self _, StatusSnapshot.field_setField_self ..⟩
    · have hread := StatusSnapshot.hasRead_iff.1 (hg.resolve_left hgf)
      obtain ⟨j, hkj, hj, hval⟩ := h.field g (StatusSnapshot.hasRead_iff.2 hread)
      exact ⟨j, hkj, Nat.lt_succ_of_lt hj, (StatusSnapshot.field_setField_of_ne hgf).trans hval⟩
  raw hraw := by
    rw [StatusSnapshot.hasRead_or]
    by_cases hf : StatusField.activityRaw = f
    · exact Or.inl hf
    · refine Or.inr (StatusSnapshot.hasRead_iff.2 (StatusSnapshot.hasRead_iff.1 (h.raw ?_)))
      have := @StatusSnapshot.field_setField_of_ne st.snapshot _ _
        ((env.row st.preads).val.field f) hf
      exact fun hzero => hraw (this.trans hzero)
  text ha := by
    have : st.snapshot.activityReadable = true :=
      StatusSnapshot.activityReadable_setField.symm.trans ha
    exact absurd (hunread.symm.trans this) Bool.false_ne_true
  unread _ := h.unread hunread

variable (layout wantedMask)

theorem readValue (h : st.ReadBetween env k st.preads)
    (hunread : st.snapshot.activityReadable = false) (f : StatusField) :
    let st' := PgWaitTracer.readValue env layout wantedMask st f
    st'.ReadBetween env k st'.preads ∧ st'.snapshot.activityReadable = false ∧
      st'.preads ≤ st.preads + 1 := by
  rw [PgWaitTracer.readValue]
  split_ifs
  · exact ⟨h, hunread, Nat.le_succ _⟩
  · cases hr : env.readFieldValue (layout.present f) (fun r => r.val.field f) st.preads with
    | mk o k' =>
      obtain ⟨hle, hle'⟩ := StatusMemory.readFieldValue_preads hr
      cases o with
      | none => exact ⟨h.skip hle k', hunread, hle'⟩
      | some value =>
        obtain ⟨rfl, rfl⟩ := StatusMemory.readFieldValue_some hr
        exact ⟨h.setField hunread f,
          StatusSnapshot.activityReadable_setField.trans hunread, Nat.le_refl _⟩

theorem foldl_readValue (fields : List StatusField) (h : st.ReadBetween env k st.preads)
    (hunread : st.snapshot.activityReadable = false) :
    let st' := fields.foldl (PgWaitTracer.readValue env layout wantedMask) st
    st'.ReadBetween env k st'.preads ∧ st'.snapshot.activityReadable = false ∧
      st'.preads ≤ st.preads + fields.length := by
  induction fields generalizing st with
  | nil => exact ⟨h, hunread, Nat.le_refl _⟩
  | cons f fields ih =>
    obtain ⟨hread, hunread', hle⟩ := h.readValue layout wantedMask hunread f
    obtain ⟨hall, hlast, hle'⟩ := ih hread hunread'
    refine ⟨hall, hlast, Nat.le_trans hle' ?_⟩
    rw [List.length_cons]
    omega

theorem readActivity (h : st.ReadBetween env k st.preads) (activitySz : ℕ) :
    let st' := PgWaitTracer.readActivity env layout wantedMask activitySz st
    st'.ReadBetween env k st'.preads ∧ st'.preads ≤ st.preads + 1 := by
  rw [PgWaitTracer.readActivity]
  by_cases hcopy : wantedMask &&& StatusField.activityRaw.bit ≠ 0 ∧ st.snapshot.activityRaw ≠ 0 ∧
      0 < activitySz
  · rw [if_pos hcopy]
    dsimp only
    split_ifs
    · refine ⟨⟨Nat.lt_succ_of_lt h.lt, h.before, fun f hf => ?_, h.raw, fun _ => ?_, nofun⟩,
        Nat.le_refl _⟩
      · obtain ⟨j, hkj, hj, hval⟩ := h.field f hf
        exact ⟨j, hkj, Nat.lt_succ_of_lt hj, by rw [← hval]; cases f <;> rfl⟩
      · exact ⟨h.raw hcopy.2.1, st.preads, _, h.lt, Nat.lt_succ_self _, rfl⟩
    · exact ⟨h.skip (Nat.le_succ _) _, Nat.le_refl _⟩
  · rw [if_neg hcopy]
    exact ⟨h, Nat.le_succ _⟩

end SnapshotState.ReadBetween

theorem word_and_one_eq_zero {c : ℕ} : UInt32.ofNat c &&& 1 = 0 ↔ c % 2 = 0 := by
  rw [← UInt32.toNat_inj, UInt32.toNat_and, UInt32.toNat_ofNat']
  show c % 2 ^ 32 &&& 1 = 0 ↔ _
  rw [Nat.and_one_is_mod]
  omega

/-- An attempt after its first read. -/
def startState (env : StatusMemory) (k : ℕ) : SnapshotState where
  snapshot :=
    { changecountBefore := UInt32.ofNat (env.row k).count
      readMask := readChangecount }
  preads := k + 1

theorem readBetween_start (env : StatusMemory) (k : ℕ) :
    (startState env k).ReadBetween env k (startState env k).preads := by
  refine ⟨Nat.lt_succ_self k, rfl, fun f hf => ?_, fun h => absurd rfl h, nofun, fun _ => rfl⟩
  have hf : decide (readChangecount &&& f.bit ≠ 0) = true := hf
  cases f <;> exact absurd hf (by decide)

/-- **An attempt.** Its reads follow each other, at most nine of them. If the snapshot is kept, the
counter was even at the first read and is the same word at the last one, and everything else was
read in between. -/
theorem snapshotAttempt_spec (env : StatusMemory) (layout : StatusLayout) (wantedMask : UInt32)
    (activitySz k : ℕ) :
    let r := snapshotAttempt env layout wantedMask activitySz k
    k ≤ r.1.preads ∧ r.1.preads ≤ k + 9 ∧
      (r.2 = .keep → ∃ last, r.1.preads = last + 1 ∧ r.1.ReadBetween env k last ∧
        (env.row k).count % 2 = 0 ∧
        UInt32.ofNat (env.row last).count = UInt32.ofNat (env.row k).count) := by
  rw [snapshotAttempt]
  cases hfirst : env.readChangecountValue layout k with
  | mk o k₁ =>
    obtain ⟨hle, hle'⟩ := StatusMemory.readFieldValue_preads hfirst
    cases o with
    | none => exact ⟨hle, by show k₁ ≤ k + 9; omega, nofun⟩
    | some value =>
      obtain ⟨rfl, rfl⟩ := StatusMemory.readFieldValue_some hfirst
      dsimp only
      rw [UInt32.toUInt32_toUInt64]
      by_cases hodd : UInt32.ofNat (env.row k).count &&& 1 ≠ 0
      · rw [if_pos hodd]
        exact ⟨by simp, by simp, nofun⟩
      · rw [if_neg hodd]
        obtain ⟨hfields, -, hlen⟩ :=
          (readBetween_start env k).foldl_readValue layout wantedMask statusFields rfl
        obtain ⟨htext, hlen'⟩ := hfields.readActivity layout wantedMask activitySz
        have hstart : SnapshotState.mk
            { changecountBefore := UInt32.ofNat (env.row k).count, readMask := readChangecount }
            [] (k + 1) = startState env k := rfl
        rw [hstart]
        generalize readActivity env layout wantedMask activitySz _ = st at htext hlen' ⊢
        have hpreads : st.preads ≤ k + 8 := by
          have : statusFields.length = 6 := rfl
          have : (startState env k).preads = k + 1 := rfl
          omega
        have hlt := htext.lt
        cases hlast : env.readChangecountValue layout st.preads with
        | mk o k₂ =>
          obtain ⟨hle₂, hle₂'⟩ := StatusMemory.readFieldValue_preads hlast
          cases o with
          | none => exact ⟨by show k ≤ k₂; omega, by show k₂ ≤ k + 9; omega, nofun⟩
          | some value =>
            obtain ⟨rfl, rfl⟩ := StatusMemory.readFieldValue_some hlast
            dsimp only
            rw [UInt32.toUInt32_toUInt64]
            split_ifs with hchanged
            · exact ⟨by show k ≤ st.preads + 1; omega, by show st.preads + 1 ≤ k + 9; omega, nofun⟩
            · refine ⟨by show k ≤ st.preads + 1; omega, by show st.preads + 1 ≤ k + 9; omega,
                fun _ => ⟨st.preads, rfl, ?_, ?_, ?_⟩⟩
              · exact ⟨htext.lt, htext.before, htext.field, htext.raw, htext.text, htext.unread⟩
              · exact word_and_one_eq_zero.1 (not_not.1 hodd)
              · rw [not_or, not_not] at hchanged
                exact hchanged.1.symm.trans htext.before

/-! ### A whole call -/

/-- **The loop.** It makes at most as many attempts as it has left. If it keeps a snapshot, one
attempt has read all of it. -/
theorem snapshotLoop_spec (env : StatusMemory) (layout : StatusLayout) (wantedMask : UInt32)
    (activitySz left : ℕ) (st : SnapshotState) (attempts : ℕ) :
    let r := snapshotLoop env layout wantedMask activitySz left st attempts
    r.2.2 ≤ attempts + left ∧ r.1.preads ≤ st.preads + 9 * left ∧
      (r.2.1 = true → ∃ k last, r.1.preads = last + 1 ∧ r.1.ReadBetween env k last ∧
        (env.row k).count % 2 = 0 ∧
        UInt32.ofNat (env.row last).count = UInt32.ofNat (env.row k).count) := by
  induction left generalizing st attempts with
  | zero => exact ⟨Nat.le_refl _, Nat.le_refl _, nofun⟩
  | succ left ih =>
    rw [snapshotLoop]
    obtain ⟨-, hle, hkeep⟩ := snapshotAttempt_spec env layout wantedMask activitySz st.preads
    cases hr : snapshotAttempt env layout wantedMask activitySz st.preads with
    | mk st' outcome =>
      rw [hr] at hle hkeep
      have hle : st'.preads ≤ st.preads + 9 := hle
      cases outcome with
      | fail =>
        exact ⟨by show attempts + 1 ≤ _; omega,
          by show st'.preads ≤ st.preads + 9 * (left + 1); omega, nofun⟩
      | keep =>
        exact ⟨by show attempts + 1 ≤ _; omega,
          by show st'.preads ≤ st.preads + 9 * (left + 1); omega, fun _ => ⟨st.preads, hkeep rfl⟩⟩
      | retry =>
        obtain ⟨hattempts, hpreads, hspec⟩ := ih st' (attempts + 1)
        dsimp only
        exact ⟨by omega, by omega, hspec⟩

/-- **A snapshot is never torn.** Whatever the backend does between the reads of a call, in groups
of changes of which fewer than `2 ^ 31` begin during the call: the call makes at most 32 attempts,
and a snapshot that it keeps is a copy of one row that the backend had between two groups. -/
theorem readSnapshotFd_coherent (hist : ℕ → SeqLock.Versioned StatusRow)
    (hwriter : ∀ t, SeqLock.Step (hist t) (hist (t + 1))) (times : ℕ → ℕ) (htimes : Monotone times)
    (ok : ℕ → Bool) (textLen : ℕ → ℕ) (layout : StatusLayout) (wantedMask : UInt32)
    (activitySz : ℕ) :
    let r := readSnapshotFd ⟨fun k => hist (times k), ok, textLen⟩ layout wantedMask activitySz
    r.2.2 ≤ 32 ∧ r.1.preads ≤ 288 ∧
      (SeqLock.groupsBegun (hist (times 0)).count (hist (times (r.1.preads - 1))).count < 2 ^ 31 →
        r.2.1 = true → ∃ t, times 0 ≤ t ∧ t ≤ times (r.1.preads - 1) ∧ (hist t).count % 2 = 0 ∧
          r.1.snapshot.changecountBefore = UInt32.ofNat (hist t).count ∧
          r.1.snapshot.CopyOf r.1.activity (hist t).val) := by
  let env : StatusMemory := ⟨fun k => hist (times k), ok, textLen⟩
  have hspec := snapshotLoop_spec env layout wantedMask activitySz 32 {} 0
  rw [readSnapshotFd]
  generalize snapshotLoop env layout wantedMask activitySz 32 {} 0 = r at hspec ⊢
  obtain ⟨hattempts, hpreads, hkept⟩ := hspec
  refine ⟨by omega, by simpa using hpreads, fun hfew htrue => ?_⟩
  obtain ⟨k, last, hlast, hread, heven, hword⟩ := hkept htrue
  have hmono := SeqLock.monotone_count hwriter
  rw [hlast, Nat.add_sub_cancel] at hfew ⊢
  have hkl : times k ≤ times last := htimes (Nat.le_of_lt hread.lt)
  have hcount : (hist (times last)).count = (hist (times k)).count := by
    refine SeqLock.count_eq_of_word_eq (hmono hkl) ?_ hword
    have hfirst : (hist (times 0)).count ≤ (hist (times k)).count :=
      hmono (htimes (Nat.zero_le k))
    rw [SeqLock.groupsBegun] at hfew ⊢
    omega
  have hrow : ∀ j, k < j → j < last → hist (times j) = hist (times k) := fun j hkj hjl => by
    have hlo : times k ≤ times j := htimes (Nat.le_of_lt hkj)
    have h₁ : (hist (times k)).count ≤ (hist (times j)).count := hmono hlo
    have h₂ : (hist (times j)).count ≤ (hist (times last)).count :=
      hmono (htimes (Nat.le_of_lt hjl))
    exact SeqLock.eq_of_count_eq hwriter hlo heven (by omega)
  refine ⟨times k, htimes (Nat.zero_le k), hkl, heven, hread.before, fun f hf => ?_,
    fun hreadable => ?_, hread.unread⟩
  · obtain ⟨j, hkj, hjl, hval⟩ := hread.field f hf
    rw [hval]
    exact congrArg (fun r : SeqLock.Versioned StatusRow => r.val.field f) (hrow j hkj hjl)
  · obtain ⟨hraw, j, n, hkj, hjl, htext⟩ := hread.text hreadable
    obtain ⟨i, hki, hil, hptr⟩ := hread.field .activityRaw hraw
    refine ⟨n, ?_⟩
    have hptr : r.1.snapshot.activityRaw = (hist (times i)).val.activityRaw := hptr
    have htext : r.1.activity =
        ((hist (times j)).val.bytesAt r.1.snapshot.activityRaw).take n := htext
    rw [htext, hptr, hrow i hki hil, hrow j hkj hjl]

/-- A backend that leaves a group while the first attempt is made. -/
def leavingBackend (t : ℕ) : SeqLock.Versioned StatusRow where
  count := if t = 0 then 7 else 8
  val :=
    { procpid := 4711
      databaseid := 5
      userid := 10
      state := 2
      activityRaw := 0x7F00
      queryId := 99
      bytesAt := fun _ => [0x78, 0x79, 0] }

theorem readSnapshotFd_leavingBackend :
    ∃ t, (leavingBackend t).count % 2 = 0 ∧
      (readSnapshotFd ⟨leavingBackend, fun _ => true, fun _ => 3⟩ ⟨true, fun _ => true, 1024⟩ 0x7E
        512).1.snapshot.CopyOf [0x78, 0x79, 0] (leavingBackend t).val := by
  have hwriter : ∀ t, SeqLock.Step (leavingBackend t) (leavingBackend (t + 1))
    | 0 => .leave _ rfl
    | _ + 1 => .idle _
  obtain ⟨t, -, -, heven, -, hcopy⟩ := (readSnapshotFd_coherent leavingBackend hwriter id
    monotone_id (fun _ => true) (fun _ => 3) ⟨true, fun _ => true, 1024⟩ 0x7E 512).2.2
      (by decide) (by decide)
  exact ⟨t, heven, hcopy⟩

end PgWaitTracer
