import PgWaitTracer.Lib.Run
import PgWaitTracer.Summary.WriteOnce

/-!
# CPU credits of an open interval

An interval on CPU that is still open is credited second by second with the CPU that its backend
measured so far, and the record that closes it files the rest (`src/summary_writer.c`). What was
credited is remembered in the slot of the backend, or in the one saved state behind it once a note has
replaced the interval. It is forgotten when the note expires, when the producer notes the interval
without a measurement, and when a second replacement is retired with seconds of its own.

## Main results

* `cpuCredits_conserved_iff`: the credits and the close add up exactly as long as the
  credit is remembered, and no share of a second has more CPU than time.
* `exists_slotOps`: in every run of the writer, the slot of a backend and its shares are
  those of a run of such operations.
* `cpuCredits_expired`: an interval whose note expired and was renewed.
-/

namespace PgWaitTracer

/-! ### The slot of a backend -/

/-- What is done to the slot of a backend: a note, its share of a second, the look for a second that is
owed, a record that closes, an exit. -/
inductive SlotOp
  | note (we : UInt32) (startNs : ℕ) (catFlag : UInt32) (nowNs : ℕ) (cpu : Option OpenCpu)
  | credit (sec : ℕ) (closing : Bool)
  | retire (nowHint : ℕ) (closing : Bool)
  | close (evt : TraceEvent)
  | forget

/-- The slot after an operation, and what is added to the accumulator. -/
def slotStep (mask : UInt32) (o : OpenInterval) : SlotOp → OpenInterval × List AccumCall
  | .note we startNs catFlag nowNs cpu =>
    (if catFlag &&& flagIoWorker ≠ 0 then o.stopCrediting
      else if waitClassIndex we = .cpu then ({ o with notedNs := nowNs }).noteCpu startNs cpu
      else ({ o with notedNs := nowNs }).noteWait we startNs, [])
  | .credit sec closing => o.creditSecond mask sec closing
  | .retire nowHint closing => (if o.expired nowHint closing then o.stopCrediting else o, [])
  | .close evt => (o.close evt, [])
  | .forget => (o.forget, [])

/-- The share of a second that an interval on CPU got: its length, the measured CPU in it, and whether
it was measured and not idle. -/
structure CpuShare where
  sliceNs : UInt64
  measuredNs : UInt64
  measured : Bool
  deriving DecidableEq, Repr

/-- The shares among the calls. -/
def cpuShares (calls : List AccumCall) : List CpuShare :=
  calls.filterMap fun
    | .openCredit _ _ ns measuredNs measured => some ⟨ns, measuredNs, measured⟩
    | _ => none

/-- The slot of a backend, and the shares of the interval on CPU with a given start. -/
structure CreditedSlot where
  slot : OpenInterval
  shares : List CpuShare := []
  deriving DecidableEq, Repr

/-- An operation adds the share of the interval, if the slot describes it. -/
def creditedStep (mask : UInt32) (start : ℕ) (s : CreditedSlot) (op : SlotOp) : CreditedSlot where
  slot := (slotStep mask s.slot op).1
  shares := s.shares ++ if s.slot.cpuSlot ∧ s.slot.startNs = start then
    cpuShares (slotStep mask s.slot op).2 else []

/-- The measured CPU that was credited. -/
def CreditedSlot.creditedNs (s : CreditedSlot) : ℕ :=
  (s.shares.map fun c => c.measuredNs.toNat).sum

/-! ### The close -/

/-- What `accum_event` adds to the time scalars for a record that closes. -/
def OpenInterval.closeTimes (mask : UInt32) (o : OpenInterval) (p : PushedEvent) : TimeScalars ℕ :=
  let cc := o.closeCtx p.evt
  accumTimes UInt64.toNat mask TimeScalars.zero (cc.label p.eff) p.evt.durationNs
    (excess p.evt.durationNs cc.alreadyNs) p.evt.cpuNs cc

/-- What `open_close_cpu` adds to `open_cpu_overcredit_ns_total`. -/
def OpenInterval.overcreditNs (o : OpenInterval) (evt : TraceEvent) : UInt64 :=
  match o.cpuCtx evt with
  | some c => if evt.cpuNs = cpuNsUnknown then 0
      else excess c.creditedNs (min evt.cpuNs evt.durationNs)
  | none => 0

/-- A record with a measurement that closes the interval on CPU with this start. -/
structure PushedEvent.Closes (start : ℕ) (p : PushedEvent) : Prop where
  oldEvent : p.evt.oldEvent = 0
  start : eventStartNs p.evt = start
  measured : p.evt.cpuNs ≠ cpuNsUnknown
  foreground : p.ioWorker = false

/-- The credits, the CPU filed at the close and what is clamped there are the measurement and the
recorded over-credit. -/
def CreditedSlot.ClosesWith (mask : UInt32) (s : CreditedSlot) (p : PushedEvent) : Prop :=
  s.creditedNs + (s.slot.closeTimes mask p).cpuMeasuredNs +
      (s.slot.closeTimes mask p).cpuClampedNs =
    p.evt.cpuNs.toNat + (s.slot.overcreditNs p.evt).toNat

/-- If the interval has seconds, all of them measured and none idle, it closes so with every
record. -/
def CreditedSlot.Conserves (mask : UInt32) (start : ℕ) (s : CreditedSlot) : Prop :=
  s.shares ≠ [] → (∀ c ∈ s.shares, c.measured) → ∀ p : PushedEvent, p.Closes start →
    s.ClosesWith mask p

/-! ### The condition -/

namespace OpenInterval

variable (start : ℕ) (o : OpenInterval)

/-- Another interval on CPU is in the slot, with seconds of its own. -/
def OtherFrozen : Prop := o.cpuSlot ∧ o.cpuFrozen ∧ o.startNs ≠ start

instance : Decidable (o.OtherFrozen start) :=
  inferInstanceAs (Decidable (o.cpuSlot ∧ o.cpuFrozen ∧ o.startNs ≠ start))

/-- The credit is still found when the slot is retired. -/
def RetireKeeps : Prop := o.startNs ≠ start ∧ ¬o.OtherFrozen start

instance : Decidable (o.RetireKeeps start) :=
  inferInstanceAs (Decidable (o.startNs ≠ start ∧ ¬o.OtherFrozen start))

end OpenInterval

/-- The slot still knows the credit of the interval behind the operation: a note, a share or a look for
a second does not retire the slot of the interval or put a second replacement in the place of the
first, the interval is not noted anew once it was replaced, and no other record closes. -/
def SlotOp.Keeps (start : ℕ) (o : OpenInterval) : SlotOp → Prop
  | .note we startNs catFlag _ cpu =>
    if catFlag &&& flagIoWorker ≠ 0 then o.RetireKeeps start
    else if waitClassIndex we = .cpu then
      (cpu.isSome ∧ o.cpuSlot ∧ o.startNs = startNs) ∨ (startNs ≠ start ∧ ¬o.OtherFrozen start)
    else ¬o.OtherFrozen start
  | .credit sec closing => o.creditable → sec < o.creditEnd sec closing →
    o.notedNs + openStaleNs < o.creditEnd sec closing → o.RetireKeeps start
  | .retire nowHint closing => o.expired nowHint closing → o.RetireKeeps start
  | .close _ => False
  | .forget => False

/-! ### What the slot remembers -/

namespace OpenInterval

variable {start : ℕ} {o : OpenInterval}

/-- The saved state, if it is of the interval. -/
def savedFor (start : ℕ) (o : OpenInterval) : Option SavedCpu :=
  o.prevCpu.filter fun p => p.startNs = start && p.we = 0

/-- The CPU state of the interval. -/
def frozenFor (start : ℕ) (o : OpenInterval) : Option SavedCpu :=
  if o.we = 0 ∧ o.startNs = start then
    if o.cpuSlot ∧ o.cpuFrozen then
      some ⟨o.startNs, o.we, o.cpuEffWe, o.cpuTierKnown, o.cpuCreditedNs⟩
    else none
  else o.savedFor start

theorem cpuCtx_eq {p : PushedEvent} (h : p.Closes start) (o : OpenInterval) :
    o.cpuCtx p.evt = o.frozenFor start := by
  rw [cpuCtx, frozenFor, savedFor, describes, h.oldEvent, h.start]
  simp only [Bool.and_eq_true, decide_eq_true_eq]

/-- A slot of an interval on CPU has no wait, and nothing credited before its first second. -/
structure Tidy (o : OpenInterval) : Prop where
  labels : o.LabelsOk
  we : o.cpuSlot → o.we = 0
  unfrozen : o.cpuSlot → o.cpuFrozen = false → o.cpuCreditedNs = 0

theorem stopCrediting_startNs (o : OpenInterval) : o.stopCrediting.startNs = o.startNs := by
  simp only [stopCrediting, saveCpu, saveWall]
  split_ifs <;> rfl

theorem stopCrediting_prevCpu (o : OpenInterval) : o.stopCrediting.prevCpu =
    if o.cpuSlot ∧ o.cpuFrozen then
      some ⟨o.startNs, o.we, o.cpuEffWe, o.cpuTierKnown, o.cpuCreditedNs⟩
    else o.prevCpu := by
  simp only [stopCrediting, saveCpu, saveWall]
  split_ifs <;> rfl

variable {p : SavedCpu}

theorem savedFor_stopCrediting (h : o.Tidy) (hother : ¬o.OtherFrozen start)
    (hp : o.frozenFor start = some p) : o.stopCrediting.savedFor start = some p := by
  rw [savedFor, stopCrediting_prevCpu]
  rw [frozenFor] at hp
  by_cases hfrozen : o.cpuSlot ∧ o.cpuFrozen
  · have hstart : o.startNs = start := by
      by_contra hne
      exact hother ⟨hfrozen.1, hfrozen.2, hne⟩
    rw [if_pos ⟨h.we hfrozen.1, hstart⟩, if_pos hfrozen] at hp
    rw [if_pos hfrozen, ← hp]
    simp [hstart, h.we hfrozen.1]
  · rw [if_neg hfrozen]
    split_ifs at hp
    exact hp

theorem savedFor_stopCrediting_of_other (hother : o.OtherFrozen start) :
    o.stopCrediting.savedFor start = none := by
  rw [savedFor, stopCrediting_prevCpu, if_pos ⟨hother.1, hother.2.1⟩]
  simp [hother.2.2]

theorem frozenFor_stopCrediting (o : OpenInterval) : o.stopCrediting.frozenFor start =
    if o.startNs = start then none else o.stopCrediting.savedFor start := by
  rw [frozenFor, stopCrediting_startNs]
  simp [stopCrediting]

theorem tidy_stopCrediting (h : o.Tidy) : o.stopCrediting.Tidy :=
  ⟨h.labels.stopCrediting, fun hslot => absurd hslot (by simp [stopCrediting]),
    fun hslot => absurd hslot (by simp [stopCrediting])⟩

theorem frozenFor_retire (h : o.Tidy) (hp : o.frozenFor start = some p) :
    o.stopCrediting.frozenFor start = if o.RetireKeeps start then some p else none := by
  rw [frozenFor_stopCrediting]
  split_ifs with hstart hkeeps hkeeps
  · exact absurd hstart hkeeps.1
  · rfl
  · exact savedFor_stopCrediting h hkeeps.2 hp
  · have hother : o.OtherFrozen start := by
      by_contra hother
      exact hkeeps ⟨hstart, hother⟩
    exact savedFor_stopCrediting_of_other hother

theorem frozenFor_replaced (h : o.Tidy) (hp : o.frozenFor start = some p) {o' : OpenInterval}
    (hprev : o'.prevCpu = o.stopCrediting.prevCpu) (hfresh : o'.cpuFrozen = false) :
    o'.frozenFor start =
      if ¬(o'.we = 0 ∧ o'.startNs = start) ∧ ¬o.OtherFrozen start then some p else none := by
  have hsaved : o'.savedFor start = o.stopCrediting.savedFor start := by
    rw [savedFor, savedFor, hprev]
  by_cases hsame : o'.we = 0 ∧ o'.startNs = start
  · rw [frozenFor, if_pos hsame, if_neg (by simp [hfresh]), if_neg fun hkeeps => hkeeps.1 hsame]
  · rw [frozenFor, if_neg hsame, hsaved]
    by_cases hother : o.OtherFrozen start
    · rw [savedFor_stopCrediting_of_other hother, if_neg fun hkeeps => hkeeps.2 hother]
    · rw [savedFor_stopCrediting h hother hp, if_pos ⟨hsame, hother⟩]

theorem frozenFor_noteCpu (h : o.Tidy) (hp : o.frozenFor start = some p) (startNs : ℕ)
    (cpu : Option OpenCpu) : (o.noteCpu startNs cpu).frozenFor start =
      if (cpu.isSome ∧ o.cpuSlot ∧ o.startNs = startNs) ∨ (startNs ≠ start ∧ ¬o.OtherFrozen start)
      then some p else none := by
  cases cpu with
  | none =>
    refine (frozenFor_replaced h hp (by rfl) (by rfl)).trans ?_
    simp [OpenInterval.noteCpu, stopCrediting]
  | some cpu =>
    by_cases hsame : o.cpuSlot ∧ o.startNs = startNs
    · have hwe := h.we hsame.1
      have hcond : ¬(!o.cpuSlot ∨ o.we ≠ 0 ∨ o.startNs ≠ startNs) := by
        simp [hsame.1, hsame.2, hwe]
      rw [if_pos (Or.inl ⟨rfl, hsame⟩), ← hp, noteCpu]
      simp only [if_neg hcond]
      by_cases hf : o.cpuFrozen = true <;> simp [frozenFor, savedFor, hf]
    · have hcond : !o.cpuSlot ∨ o.we ≠ 0 ∨ o.startNs ≠ startNs := by
        by_cases hslot : o.cpuSlot = true
        · exact Or.inr (Or.inr fun hst => hsame ⟨hslot, hst⟩)
        · exact Or.inl (by simpa using hslot)
      simp only [noteCpu, if_pos hcond]
      refine (frozenFor_replaced h hp (by rfl) (by rfl)).trans ?_
      simp only [hsame, and_false, false_or]
      simp [precharge, stopCrediting]

/-- A note for an interval that waits. -/
theorem frozenFor_noteWait (h : o.Tidy) (hp : o.frozenFor start = some p) {we : UInt32}
    (hwe : we ≠ 0) (startNs : ℕ) : (o.noteWait we startNs).frozenFor start =
      if ¬o.OtherFrozen start then some p else none := by
  rw [noteWait]
  by_cases hslot : o.cpuSlot = true
  · have hdiff : o.stopCrediting.we ≠ we ∨ o.stopCrediting.startNs ≠ startNs := Or.inl hwe.symm
    have hprev : ({ o.stopCrediting.saveWall.precharge startNs with we := we } :
        OpenInterval).prevCpu = o.stopCrediting.prevCpu := by
      simp only [precharge, saveWall]
      split_ifs <;> rfl
    have hfresh : ({ o.stopCrediting.saveWall.precharge startNs with we := we } :
        OpenInterval).cpuFrozen = false := by
      simp only [precharge, saveWall]
      split_ifs <;> rfl
    simp only [if_pos hslot, if_pos hdiff]
    rw [frozenFor_replaced h hp hprev hfresh]
    simp [hwe]
  · -- the credit is in the saved state, which the note leaves
    have hother : ¬o.OtherFrozen start := fun hother => hslot hother.1
    have hsaved : o.savedFor start = some p := by
      rw [frozenFor] at hp
      split_ifs at hp with hsame hfrozen
      · exact absurd hfrozen.1 hslot
      · exact hp
    rw [if_pos hother, ← hsaved]
    simp only [if_neg hslot]
    split_ifs with hdiff
    · rw [frozenFor, if_neg fun hsame => hwe hsame.1]
      simp only [savedFor, precharge, saveWall]
      split_ifs <;> rfl
    · have hsame : o.we = we := by
        by_contra hne
        exact hdiff (Or.inl hne)
      rw [frozenFor, if_neg fun hs => hwe (hsame ▸ hs.1)]

theorem Tidy.noteCpu (h : o.Tidy) (startNs : ℕ) (cpu : Option OpenCpu) :
    (o.noteCpu startNs cpu).Tidy := by
  refine ⟨h.labels.noteCpu startNs cpu, ?_, ?_⟩
  · cases cpu with
    | none => exact fun hslot => absurd hslot (by simp [OpenInterval.noteCpu, stopCrediting])
    | some cpu =>
      simp only [OpenInterval.noteCpu]
      split_ifs with hnew
      · exact fun _ => rfl
      · intro _
        simp only [not_or, not_not] at hnew
        exact hnew.2.1
  · cases cpu with
    | none => exact fun hslot => absurd hslot (by simp [OpenInterval.noteCpu, stopCrediting])
    | some cpu =>
      simp only [OpenInterval.noteCpu]
      split_ifs with hnew
      · exact fun _ _ => rfl
      · exact h.unfrozen

theorem Tidy.noteWait (h : o.Tidy) {we : UInt32} (startNs : ℕ) : (o.noteWait we startNs).Tidy := by
  have hslot : (o.noteWait we startNs).cpuSlot = false := by
    rw [OpenInterval.noteWait]
    by_cases hslot : o.cpuSlot = true
    · simp only [if_pos hslot, precharge, saveWall]
      split_ifs <;> rfl
    · simp only [if_neg hslot, precharge, saveWall]
      split_ifs <;> simpa using hslot
  exact ⟨h.labels.noteWait we startNs, fun hs => absurd hs (by simp [hslot]),
    fun hs => absurd hs (by simp [hslot])⟩

/-! ### The share of a second -/

/-- The note of the slot is out of date in the second. -/
def Expires (sec : ℕ) (closing : Bool) (o : OpenInterval) : Prop :=
  o.creditable ∧ sec < o.creditEnd sec closing ∧ o.notedNs + openStaleNs < o.creditEnd sec closing

theorem creditSecond_cases (mask : UInt32) (sec : ℕ) (closing : Bool) (o : OpenInterval) :
    (o.Expires sec closing ∧ o.creditSecond mask sec closing = (o.stopCrediting, [])) ∨
      ¬o.Expires sec closing ∧ (o.creditSecond mask sec closing = (o, []) ∨
        ∃ endNs slice, slice ≤ nsPerSec ∧ o.creditSecond mask sec closing =
          if o.cpuSlot then o.creditCpu mask endNs slice else o.creditWait endNs slice) := by
  rw [creditSecond]
  by_cases hcreditable : o.creditable = true
  · rw [if_neg (by simpa using hcreditable)]
    by_cases hend : o.creditEnd sec closing ≤ sec
    · rw [if_pos hend]
      exact Or.inr ⟨fun h => absurd h.2.1 (by omega), Or.inl rfl⟩
    rw [if_neg hend]
    by_cases hstale : o.notedNs + openStaleNs < o.creditEnd sec closing
    · rw [if_pos hstale]
      exact Or.inl ⟨⟨hcreditable, by omega, hstale⟩, rfl⟩
    rw [if_neg hstale]
    refine Or.inr ⟨fun h => hstale h.2.2, ?_⟩
    by_cases hfrom : o.creditEnd sec closing ≤ o.creditFrom
    · exact Or.inl (if_pos hfrom)
    · exact Or.inr ⟨_, _, slice_le, if_neg hfrom⟩
  · rw [if_pos (by simpa using hcreditable)]
    exact Or.inr ⟨fun h => hcreditable h.1, Or.inl rfl⟩
where
  slice_le : o.creditEnd sec closing - max o.creditFrom sec ≤ nsPerSec := by
    have hend : o.creditEnd sec closing ≤ sec + nsPerSec := by
      rw [creditEnd]
      split_ifs <;> omega
    omega

/-- The measured CPU of a share. -/
def shareNs (mask : UInt32) (o : OpenInterval) (slice : ℕ) : UInt64 :=
  if (if o.cpuFrozen then o.cpuTierKnown else o.cpuPrefixNs ≠ cpuNsUnknown) &&
    !isIdleEvent mask o.cpuEffWe then o.cpuCredit slice else 0

theorem cpuShares_creditCpu (mask : UInt32) (o : OpenInterval) (endNs slice : ℕ) :
    cpuShares (o.creditCpu mask endNs slice).2 = [⟨UInt64.ofNat slice, o.shareNs mask slice,
      (if o.cpuFrozen then o.cpuTierKnown else o.cpuPrefixNs ≠ cpuNsUnknown) &&
        !isIdleEvent mask o.cpuEffWe⟩] := by
  simp only [creditCpu, shareNs]
  split_ifs <;> rfl

theorem cpuCredit_le (o : OpenInterval) (slice : ℕ) :
    (o.cpuCredit slice).toNat ≤ (UInt64.ofNat slice).toNat := by
  rw [cpuCredit]
  split_ifs
  · exact Nat.zero_le _
  · exact Nat.zero_le _
  · rw [toNat_min_uint64]
    exact Nat.min_le_right _ _

theorem shareNs_le (mask : UInt32) (o : OpenInterval) (slice : ℕ) :
    (o.shareNs mask slice).toNat ≤ (UInt64.ofNat slice).toNat := by
  rw [shareNs]
  generalize (if o.cpuFrozen then o.cpuTierKnown else decide (o.cpuPrefixNs ≠ cpuNsUnknown)) = tier
  split_ifs
  · exact o.cpuCredit_le slice
  · exact Nat.zero_le _

theorem toNat_add_cpuCredit (o : OpenInterval) (slice : ℕ) :
    (o.cpuCreditedNs + o.cpuCredit slice).toNat =
      o.cpuCreditedNs.toNat + (o.cpuCredit slice).toNat := by
  have hprefix := o.cpuPrefixNs.toNat_lt
  rw [UInt64.toNat_add, Nat.mod_eq_of_lt]
  have hcredited := o.cpuCreditedNs.toNat_lt
  rw [cpuCredit]
  split_ifs with hunknown hle
  · simpa using hcredited
  · simpa using hcredited
  · rw [UInt64.le_iff_toNat_le, Nat.not_le] at hle
    rw [toNat_min_uint64, UInt64.toNat_sub_of_le _ _ (UInt64.le_iff_toNat_le.mpr hle.le)]
    omega

theorem frozenFor_creditCpu (h : o.Tidy) (hslot : o.cpuSlot) (hstart : o.startNs = start)
    (mask : UInt32) (endNs slice : ℕ) : (o.creditCpu mask endNs slice).1.frozenFor start =
      some ⟨start, 0, o.cpuEffWe,
        if o.cpuFrozen then o.cpuTierKnown else o.cpuPrefixNs ≠ cpuNsUnknown,
        o.cpuCreditedNs + o.shareNs mask slice⟩ := by
  have hwe := h.we hslot
  simp only [frozenFor, creditCpu, hwe, hstart, hslot, and_self, if_true, shareNs]

theorem frozenFor_credit_other (hother : ¬(o.cpuSlot ∧ o.startNs = start))
    (hp : o.frozenFor start = some p) (mask : UInt32) (endNs slice : ℕ) :
    (if o.cpuSlot then o.creditCpu mask endNs slice
      else o.creditWait endNs slice).1.frozenFor start = some p := by
  have hsame : ¬(o.we = 0 ∧ o.startNs = start) := by
    intro hsame
    rw [frozenFor, if_pos hsame, if_neg fun hslot => hother ⟨hslot.1, hsame.2⟩] at hp
    exact absurd hp (by simp)
  rw [frozenFor, if_neg hsame] at hp
  rw [← hp]
  split_ifs
  · rw [frozenFor, if_neg (by simpa [creditCpu] using hsame)]
    rfl
  · rw [frozenFor, if_neg (by simpa [creditWait] using hsame)]
    rfl

theorem Tidy.creditSecond (h : o.Tidy) (mask : UInt32) (sec : ℕ) (closing : Bool) :
    (o.creditSecond mask sec closing).1.Tidy := by
  refine ⟨h.labels.creditSecond mask sec closing, ?_, ?_⟩ <;>
    rcases creditSecond_cases mask sec closing o with ⟨-, heq⟩ | ⟨-, heq | ⟨endNs, slice, -, heq⟩⟩
  · rw [heq]
    exact (tidy_stopCrediting h).we
  · rw [heq]
    exact h.we
  · rw [heq]
    split_ifs <;> exact h.we
  · rw [heq]
    exact (tidy_stopCrediting h).unfrozen
  · rw [heq]
    exact h.unfrozen
  · rw [heq]
    split_ifs
    · exact fun _ hfrozen => absurd hfrozen (by simp [creditCpu])
    · exact h.unfrozen

/-! ### One operation -/

variable {op : SlotOp} {mask : UInt32}

theorem Tidy.slotStep (h : o.Tidy) (mask : UInt32) (op : SlotOp) :
    (slotStep mask o op).1.Tidy := by
  have hnoted : ∀ nowNs, ({ o with notedNs := nowNs } : OpenInterval).Tidy := fun _ =>
    ⟨⟨h.labels.cur, h.labels.prev⟩, h.we, h.unfrozen⟩
  cases op with
  | note we startNs catFlag nowNs cpu =>
    simp only [PgWaitTracer.slotStep]
    split_ifs
    · exact tidy_stopCrediting h
    · exact (hnoted nowNs).noteCpu startNs cpu
    · exact (hnoted nowNs).noteWait startNs
  | credit sec closing => exact h.creditSecond mask sec closing
  | retire nowHint closing =>
    simp only [PgWaitTracer.slotStep]
    split_ifs
    · exact tidy_stopCrediting h
    · exact h
  | close evt =>
    exact ⟨OpenInterval.LabelsOk.close evt, fun hs => absurd hs (by simp [PgWaitTracer.slotStep,
      OpenInterval.close, stopCrediting]), fun hs => absurd hs (by simp [PgWaitTracer.slotStep,
      OpenInterval.close, stopCrediting])⟩
  | forget =>
    exact ⟨OpenInterval.LabelsOk.forget, fun hs => absurd hs (by simp [PgWaitTracer.slotStep,
      OpenInterval.forget, stopCrediting]), fun hs => absurd hs (by simp [PgWaitTracer.slotStep,
      OpenInterval.forget, stopCrediting])⟩

/-- A slot keeps its backend. -/
theorem pid_slotStep (mask : UInt32) (o : OpenInterval) (op : SlotOp) :
    (slotStep mask o op).1.pid = o.pid := by
  have hstop : ∀ o : OpenInterval, o.stopCrediting.pid = o.pid := by
    intro o
    simp only [stopCrediting, saveCpu, saveWall]
    split_ifs <;> rfl
  cases op with
  | note we startNs catFlag nowNs cpu =>
    simp only [PgWaitTracer.slotStep]
    split_ifs
    · exact hstop o
    · cases cpu with
      | none => exact hstop _
      | some cpu =>
        simp only [OpenInterval.noteCpu]
        split_ifs
        · exact hstop _
        · rfl
    · simp only [OpenInterval.noteWait, precharge, saveWall]
      split_ifs <;> first | rfl | exact hstop _
  | credit sec closing =>
    rw [PgWaitTracer.slotStep]
    rcases creditSecond_cases mask sec closing o with ⟨-, heq⟩ | ⟨-, heq | ⟨endNs, slice, -, heq⟩⟩
    · rw [heq]
      exact hstop o
    · rw [heq]
    · rw [heq]
      split_ifs <;> rfl
  | retire nowHint closing =>
    simp only [PgWaitTracer.slotStep]
    split_ifs
    · exact hstop o
    · rfl
  | close evt => exact hstop o
  | forget => exact hstop o

theorem frozenFor_note (h : o.Tidy) (hp : o.frozenFor start = some p) {we : UInt32} {startNs : ℕ}
    {catFlag : UInt32} {nowNs : ℕ} {cpu : Option OpenCpu} :
    ((SlotOp.note we startNs catFlag nowNs cpu).Keeps start o →
      (slotStep mask o (.note we startNs catFlag nowNs cpu)).1.frozenFor start = some p) ∧
    (¬(SlotOp.note we startNs catFlag nowNs cpu).Keeps start o →
      (slotStep mask o (.note we startNs catFlag nowNs cpu)).1.frozenFor start = none) := by
  have hnoted : ({ o with notedNs := nowNs } : OpenInterval).Tidy :=
    ⟨⟨h.labels.cur, h.labels.prev⟩, h.we, h.unfrozen⟩
  simp only [SlotOp.Keeps, slotStep]
  by_cases hio : catFlag &&& flagIoWorker ≠ 0
  · simp only [if_pos hio, frozenFor_retire h hp]
    exact ⟨fun hk => if_pos hk, fun hk => if_neg hk⟩
  simp only [if_neg hio]
  by_cases hcpu : waitClassIndex we = .cpu
  · have hnote := frozenFor_noteCpu hnoted hp startNs cpu
    simp only [if_pos hcpu, hnote]
    exact ⟨fun hk => if_pos hk, fun hk => if_neg hk⟩
  · have hwe : we ≠ 0 := by
      rintro rfl
      exact hcpu rfl
    have hnote := frozenFor_noteWait hnoted hp hwe startNs
    simp only [if_neg hcpu, hnote]
    exact ⟨fun hk => if_pos hk, fun hk => if_neg hk⟩

theorem frozenFor_slotStep_of_lost (h : o.Tidy) (hp : o.frozenFor start = some p)
    (hlost : ¬op.Keeps start o) : (slotStep mask o op).1.frozenFor start = none ∧
      cpuShares (slotStep mask o op).2 = [] := by
  cases op with
  | note we startNs catFlag nowNs cpu => exact ⟨(frozenFor_note h hp).2 hlost, rfl⟩
  | credit sec closing =>
    have hexpired : o.Expires sec closing ∧ ¬o.RetireKeeps start := by
      simp only [SlotOp.Keeps, Classical.not_imp] at hlost
      exact ⟨⟨hlost.1, hlost.2.1, hlost.2.2.1⟩, hlost.2.2.2⟩
    rcases creditSecond_cases mask sec closing o with ⟨-, heq⟩ | ⟨hnot, -⟩
    · rw [slotStep, heq, frozenFor_retire h hp, if_neg hexpired.2]
      exact ⟨rfl, rfl⟩
    · exact absurd hexpired.1 hnot
  | retire nowHint closing =>
    simp only [SlotOp.Keeps, Classical.not_imp] at hlost
    rw [slotStep, if_pos hlost.1, frozenFor_retire h hp, if_neg hlost.2]
    exact ⟨rfl, rfl⟩
  | close evt =>
    refine ⟨?_, rfl⟩
    simp [slotStep, OpenInterval.close, frozenFor, savedFor, stopCrediting]
  | forget =>
    refine ⟨?_, rfl⟩
    simp [slotStep, OpenInterval.forget, frozenFor, savedFor, stopCrediting]

/-- The operation gives the interval in the slot a share of a second. -/
structure Shares (mask : UInt32) (start : ℕ) (o : OpenInterval) (op : SlotOp) (c : CpuShare) :
    Prop where
  slot : o.cpuSlot
  startNs : o.startNs = start
  calls : cpuShares (slotStep mask o op).2 = [c]
  measuredNs : c.measuredNs.toNat ≤ c.sliceNs.toNat
  sliceNs : c.sliceNs.toNat ≤ nsPerSec
  known : c.measured → o.cpuEffWe = 0 ∧ ∃ slice, c.measuredNs = o.cpuCredit slice ∧
    (slotStep mask o op).1.frozenFor start = some ⟨start, 0, 0, true, o.cpuCreditedNs + c.measuredNs⟩

theorem shares_creditCpu (h : o.Tidy) (hslot : o.cpuSlot) (hstart : o.startNs = start) {sec : ℕ}
    {closing : Bool} {endNs slice : ℕ} (hslice : slice ≤ nsPerSec)
    (heq : o.creditSecond mask sec closing = o.creditCpu mask endNs slice) :
    ∃ c, Shares mask start o (.credit sec closing) c := by
  refine ⟨_, hslot, hstart, by rw [slotStep, heq]; exact cpuShares_creditCpu mask o endNs slice,
    shareNs_le mask o slice, ?_, fun hmeasured => ?_⟩
  · have hmax : nsPerSec = 1000000000 := rfl
    rw [UInt64.toNat_ofNat', Nat.mod_eq_of_lt (by omega)]
    exact hslice
  · obtain ⟨htier, hidle⟩ := Bool.and_eq_true_iff.mp hmeasured
    have heff : o.cpuEffWe = 0 := by
      rcases h.labels.cur with heff | heff
      · exact heff
      · rw [heff] at hidle
        exact absurd hidle (by simp [isIdleEvent_of_activity
          (e := weiNoncmdCpu) (by decide)])
    have hshare : o.shareNs mask slice = o.cpuCredit slice := by
      rw [shareNs, if_pos hmeasured]
    refine ⟨heff, slice, hshare, ?_⟩
    rw [slotStep, heq, frozenFor_creditCpu h hslot hstart, heff, htier]

/-- An operation that keeps the credit leaves it, or adds a share to it. -/
theorem frozenFor_slotStep_of_keeps (h : o.Tidy) (hp : o.frozenFor start = some p)
    (hkeeps : op.Keeps start o) :
    ((slotStep mask o op).1.frozenFor start = some p ∧
      (o.cpuSlot ∧ o.startNs = start → cpuShares (slotStep mask o op).2 = [])) ∨
    ∃ c, Shares mask start o op c := by
  cases op with
  | note we startNs catFlag nowNs cpu => exact Or.inl ⟨(frozenFor_note h hp).1 hkeeps, fun _ => rfl⟩
  | credit sec closing =>
    rcases creditSecond_cases mask sec closing o with
      ⟨hexpired, heq⟩ | ⟨-, heq | ⟨endNs, slice, hslice, heq⟩⟩
    · refine Or.inl ⟨?_, fun _ => by rw [slotStep, heq]; rfl⟩
      rw [slotStep, heq, frozenFor_retire h hp,
        if_pos (hkeeps hexpired.1 hexpired.2.1 hexpired.2.2)]
    · refine Or.inl ⟨?_, fun _ => by rw [slotStep, heq]; rfl⟩
      rw [slotStep, heq]
      exact hp
    · by_cases hsame : o.cpuSlot ∧ o.startNs = start
      · rw [if_pos hsame.1] at heq
        exact Or.inr (shares_creditCpu h hsame.1 hsame.2 hslice heq)
      · refine Or.inl ⟨?_, fun hs => absurd hs hsame⟩
        rw [slotStep, heq]
        exact frozenFor_credit_other hsame hp mask endNs slice
  | retire nowHint closing =>
    refine Or.inl ⟨?_, fun _ => rfl⟩
    simp only [slotStep]
    split_ifs with hexpired
    · rw [frozenFor_retire h hp, if_pos (hkeeps hexpired)]
    · exact hp
  | close evt => exact hkeeps.elim
  | forget => exact hkeeps.elim

/-- A slot with seconds of the interval has had them before, or gets one now. -/
theorem frozenHere_slotStep
    (h : (slotStep mask o op).1.cpuSlot ∧ (slotStep mask o op).1.cpuFrozen ∧
      (slotStep mask o op).1.startNs = start) :
    (o.cpuSlot ∧ o.cpuFrozen ∧ o.startNs = start) ∨
      (o.cpuSlot ∧ o.startNs = start ∧ cpuShares (slotStep mask o op).2 ≠ []) := by
  have hstop : ¬(o.stopCrediting.cpuSlot : Prop) := by simp [stopCrediting]
  cases op with
  | note we startNs catFlag nowNs cpu =>
    simp only [slotStep] at h
    split_ifs at h
    · exact absurd h.1 hstop
    · cases cpu with
      | none => exact absurd h.1 (by simp [OpenInterval.noteCpu, stopCrediting])
      | some cpu =>
        simp only [OpenInterval.noteCpu] at h
        split_ifs at h with hnew
        · exact absurd h.2.1 (by simp [precharge, stopCrediting])
        · exact Or.inl h
    · have hslot : (({ o with notedNs := nowNs } : OpenInterval).noteWait we startNs).cpuSlot =
          false := by
        simp only [OpenInterval.noteWait, precharge, saveWall]
        split_ifs with hc <;> simp_all [stopCrediting]
      exact absurd h.1 (by simp [hslot])
  | credit sec closing =>
    rw [slotStep] at h ⊢
    rcases creditSecond_cases mask sec closing o with ⟨-, heq⟩ | ⟨-, heq | ⟨endNs, slice, -, heq⟩⟩
    · rw [heq] at h
      exact absurd h.1 hstop
    · rw [heq] at h
      exact Or.inl h
    · rw [heq] at h ⊢
      by_cases hslot : o.cpuSlot = true
      · rw [if_pos hslot] at h ⊢
        refine Or.inr ⟨hslot, h.2.2, ?_⟩
        rw [cpuShares_creditCpu]
        exact List.cons_ne_nil _ _
      · rw [if_neg hslot] at h
        exact absurd h.1 hslot
  | retire nowHint closing =>
    simp only [slotStep] at h
    split_ifs at h
    · exact absurd h.1 hstop
    · exact Or.inl h
  | close evt => exact absurd h.1 (by simp [slotStep, OpenInterval.close, stopCrediting])
  | forget => exact absurd h.1 (by simp [slotStep, OpenInterval.forget, stopCrediting])

end OpenInterval

/-! ### Runs -/

/-- The slot remembers what was credited of the interval. -/
structure CreditedSlot.Remembers (start : ℕ) (s : CreditedSlot) : Prop where
  tidy : s.slot.Tidy
  unseen : s.shares = [] → ¬(s.slot.cpuSlot ∧ s.slot.cpuFrozen ∧ s.slot.startNs = start)
  credit : s.shares ≠ [] → (∀ c ∈ s.shares, c.measured) →
    ∃ p, s.slot.frozenFor start = some p ∧ p.tierKnown = true ∧ p.effWe = 0 ∧
      p.creditedNs.toNat = s.creditedNs

/-- The condition on an operation: an interval with seconds, all of them measured and none idle, is
remembered. -/
def SlotOp.Remembered (start : ℕ) (s : CreditedSlot) (op : SlotOp) : Prop :=
  s.shares ≠ [] → (∀ c ∈ s.shares, c.measured) → op.Keeps start s.slot

namespace CreditedSlot

variable {mask : UInt32} {start : ℕ} {s : CreditedSlot} {op : SlotOp}

theorem Remembers.share (h : s.Remembers start) {c : CpuShare}
    (hc : OpenInterval.Shares mask start s.slot op c)
    (hcredited : s.slot.cpuEffWe = 0 → s.slot.cpuCreditedNs.toNat = s.creditedNs) :
    (creditedStep mask start s op).Remembers start := by
  have hshares : (creditedStep mask start s op).shares = s.shares ++ [c] := by
    rw [creditedStep]
    simp only [if_pos (And.intro hc.slot hc.startNs), hc.calls]
  refine ⟨h.tidy.slotStep mask op, fun hnil => ?_, fun _ hall => ?_⟩
  · rw [hshares] at hnil
    exact absurd hnil (by simp)
  · rw [hshares] at hall
    obtain ⟨heff, slice, hm, hfrozen⟩ := hc.known (hall c (by simp))
    have hsum : (creditedStep mask start s op).creditedNs = s.creditedNs + c.measuredNs.toNat := by
      rw [creditedNs, hshares, List.map_append, List.sum_append, List.map_singleton,
        List.sum_singleton, creditedNs]
    refine ⟨_, hfrozen, rfl, rfl, ?_⟩
    rw [hsum, hm, OpenInterval.toNat_add_cpuCredit, hcredited heff]

/-- **One operation.** -/
theorem Remembers.step (h : s.Remembers start) (hop : op.Remembered start s) :
    (creditedStep mask start s op).Remembers start := by
  by_cases hnil : s.shares = []
  · by_cases hgets : s.slot.cpuSlot ∧ s.slot.startNs = start ∧
        cpuShares (slotStep mask s.slot op).2 ≠ []
    · -- the first second of the interval
      have hunfrozen : s.slot.cpuFrozen = false := by
        by_contra hfrozen
        rw [Bool.not_eq_false] at hfrozen
        exact h.unseen hnil ⟨hgets.1, hfrozen, hgets.2.1⟩
      have hshare : ∃ c, OpenInterval.Shares mask start s.slot op c := by
        cases op with
        | credit sec closing =>
          rcases OpenInterval.creditSecond_cases mask sec closing s.slot with
            ⟨-, heq⟩ | ⟨-, heq | ⟨endNs, slice, hslice, heq⟩⟩
          · exact absurd (by rw [slotStep, heq]; rfl) hgets.2.2
          · exact absurd (by rw [slotStep, heq]; rfl) hgets.2.2
          · rw [if_pos hgets.1] at heq
            exact OpenInterval.shares_creditCpu h.tidy hgets.1 hgets.2.1 hslice heq
        | _ => exact absurd rfl hgets.2.2
      obtain ⟨c, hc⟩ := hshare
      refine h.share hc fun _ => ?_
      rw [h.tidy.unfrozen hgets.1 hunfrozen, creditedNs, hnil]
      rfl
    · have hshares : (creditedStep mask start s op).shares = [] := by
        rw [creditedStep, hnil]
        simp only [List.nil_append]
        split_ifs with hsame
        · by_contra hne
          exact hgets ⟨hsame.1, hsame.2, hne⟩
        · rfl
      refine ⟨h.tidy.slotStep mask op, fun _ hfrozen => ?_, fun hne => absurd hshares hne⟩
      rcases OpenInterval.frozenHere_slotStep hfrozen with hold | hnew
      · exact h.unseen hnil hold
      · exact hgets hnew
  by_cases hall : ∀ c ∈ s.shares, c.measured
  · obtain ⟨p, hp, htier, heff, hcredited⟩ := h.credit hnil hall
    rcases OpenInterval.frozenFor_slotStep_of_keeps h.tidy hp (hop hnil hall) with
      ⟨hsame, hnone⟩ | ⟨c, hc⟩
    · have hshares : (creditedStep mask start s op).shares = s.shares := by
        rw [creditedStep]
        simp only
        split_ifs with hslot
        · rw [hnone hslot, List.append_nil]
        · rw [List.append_nil]
      refine ⟨h.tidy.slotStep mask op, fun hnil' => absurd (hshares ▸ hnil') hnil,
        fun _ _ => ⟨p, hsame, htier, heff, ?_⟩⟩
      rw [hcredited, creditedNs, creditedNs, hshares]
    · refine h.share hc fun _ => ?_
      rw [OpenInterval.frozenFor, if_pos ⟨h.tidy.we hc.slot, hc.startNs⟩] at hp
      split_ifs at hp
      rw [← hcredited, ← Option.some.inj hp]
  · have hsuper : s.shares ⊆ (creditedStep mask start s op).shares :=
      List.subset_append_left _ _
    refine ⟨h.tidy.slotStep mask op, fun hnil' => ?_, fun _ hall' => ?_⟩
    · exact absurd (List.append_eq_nil_iff.mp hnil').1 hnil
    · exact absurd (fun c hc => hall' c (hsuper hc)) hall

theorem Remembers.conserves (h : s.Remembers start) : s.Conserves mask start := by
  intro hne hall p hp
  obtain ⟨c, hc, htier, heff, hcredited⟩ := h.credit hne hall
  have hctx : s.slot.cpuCtx p.evt = some c := by rw [OpenInterval.cpuCtx_eq hp, hc]
  have hclose : s.slot.closeCtx p.evt =
      ⟨UInt64.ofNat (min (s.slot.wallCredit p.evt) p.evt.durationNs.toNat), c.creditedNs, 0, true,
        false⟩ := by
    simp only [OpenInterval.closeCtx, hctx, heff, htier, Bool.not_true]
  rw [ClosesWith, OpenInterval.closeTimes, OpenInterval.overcreditNs, hctx, hclose]
  simp only [AccumCloseCtx.label, accumTimes, isIdleEvent_zero, Bool.false_eq_true, and_false,
    if_false, if_true, if_neg hp.measured, show waitClassIndex 0 = .cpu from rfl,
    TimeScalars.addMeasured, TimeScalars.addClass, TimeScalars.zero, toNat_excess,
    toNat_min_uint64, hcredited, Nat.zero_add]
  omega

/-- A record that closes the interval, when nothing is known of it and it is filed as idle. -/
def idleClose (start : UInt64) (cpuNs : UInt64) : PushedEvent where
  evt := ⟨start, 0, 0, 0, 0, 0, 0, cpuNs⟩
  catFlag := 0
  effEvent := weiNoncmdCpu
  queryId := 0
  deferred := []

theorem closes_idleClose (start : UInt64) {cpuNs : UInt64} (h : cpuNs ≠ cpuNsUnknown) :
    (idleClose start cpuNs).Closes start.toNat := by
  refine ⟨rfl, ?_, h, by simp [PushedEvent.ioWorker, idleClose]⟩
  simp [eventStartNs, idleClose]

theorem creditedNs_of_closesWith {start : UInt64} {cpuNs : UInt64} (h : cpuNs ≠ cpuNsUnknown)
    (hnone : s.slot.frozenFor start.toNat = none)
    (hclose : s.ClosesWith mask (idleClose start cpuNs)) : s.creditedNs = cpuNs.toNat := by
  have hctx : s.slot.cpuCtx (idleClose start cpuNs).evt = none := by
    rw [OpenInterval.cpuCtx_eq (closes_idleClose start h), hnone]
  have hidle : isIdleEvent mask weiNoncmdCpu = true := isIdleEvent_of_activity (by decide)
  have heff : (idleClose start cpuNs).eff = weiNoncmdCpu := rfl
  simp only [ClosesWith, OpenInterval.closeTimes, OpenInterval.overcreditNs, OpenInterval.closeCtx,
    hctx, AccumCloseCtx.label, heff, accumTimes, hidle, if_true, Bool.false_eq_true, if_false,
    TimeScalars.zero] at hclose
  have hsum : s.creditedNs = (idleClose start cpuNs).evt.cpuNs.toNat := by simpa using hclose
  exact hsum

theorem Remembers.remembered_of_conserves {start : UInt64} (h : s.Remembers start.toNat)
    (hafter : (creditedStep mask start.toNat s op).Conserves mask start.toNat) :
    op.Remembered start.toNat s := by
  intro hne hall
  by_contra hlost
  obtain ⟨p, hp, -⟩ := h.credit hne hall
  obtain ⟨hnone, hcalls⟩ :=
    @OpenInterval.frozenFor_slotStep_of_lost _ _ _ _ mask h.tidy hp hlost
  have hshares : (creditedStep mask start.toNat s op).shares = s.shares := by
    rw [creditedStep]
    simp only [hcalls, ite_self, List.append_nil]
  have hclose := hafter (hshares.symm ▸ hne) (hshares.symm ▸ hall)
  -- one of two measurements is not what was credited
  have hfiled : ∀ cpuNs : UInt64, cpuNs ≠ cpuNsUnknown →
      (creditedStep mask start.toNat s op).creditedNs = cpuNs.toNat := fun cpuNs hcpu =>
    creditedNs_of_closesWith hcpu hnone (hclose _ (closes_idleClose start hcpu))
  exact absurd ((hfiled 0 (by decide)).symm.trans (hfiled 1 (by decide))) (by decide)

theorem remembers_init (start : ℕ) (pid : UInt32) :
    ({ slot := { pid := pid } } : CreditedSlot).Remembers start := by
  refine ⟨⟨⟨Or.inl rfl, ?_⟩, fun hslot => absurd hslot (by simp),
    fun hslot => absurd hslot (by simp)⟩, fun _ hfrozen => absurd hfrozen.1 (by simp),
    fun hne => absurd rfl hne⟩
  rintro p ⟨⟩

end CreditedSlot

theorem mem_cpuShares_slotStep {mask : UInt32} {o : OpenInterval} {op : SlotOp} {c : CpuShare}
    (hslot : o.cpuSlot) (hc : c ∈ cpuShares (slotStep mask o op).2) :
    c.measuredNs.toNat ≤ c.sliceNs.toNat ∧ c.sliceNs.toNat ≤ nsPerSec := by
  cases op with
  | credit sec closing =>
    rw [slotStep] at hc
    rcases OpenInterval.creditSecond_cases mask sec closing o with
      ⟨-, heq⟩ | ⟨-, heq | ⟨endNs, slice, hslice, heq⟩⟩
    · rw [heq] at hc
      exact absurd hc List.not_mem_nil
    · rw [heq] at hc
      exact absurd hc List.not_mem_nil
    · rw [heq, if_pos hslot, OpenInterval.cpuShares_creditCpu] at hc
      obtain rfl := List.mem_singleton.mp hc
      have hmax : nsPerSec = 1000000000 := rfl
      refine ⟨OpenInterval.shareNs_le mask o slice, ?_⟩
      rw [UInt64.toNat_ofNat', Nat.mod_eq_of_lt (by omega)]
      exact hslice
  | _ => exact absurd hc List.not_mem_nil

/-- **CPU credits add up.** However the slot of a backend is noted, credited, retired and closed, no
share of a second has more CPU than time; and a record that closes the interval with a given start
files exactly what its credits leave of the measurement, at every point of the run, exactly as long as
no operation loses the credit. -/
theorem cpuCredits_conserved_iff (mask : UInt32) (pid : UInt32) (start : UInt64)
    (ops : List SlotOp) :
    let s₀ : CreditedSlot := { slot := { pid := pid } }
    let run := List.foldl (creditedStep mask start.toNat) s₀
    (∀ c ∈ (run ops).shares, c.measuredNs.toNat ≤ c.sliceNs.toNat ∧ c.sliceNs.toNat ≤ nsPerSec) ∧
      ((∀ pre post, ops = pre ++ post → (run pre).Conserves mask start.toNat) ↔
        Run.Allowed (creditedStep mask start.toNat) (fun s op => op.Remembered start.toNat s)
          s₀ ops) := by
  intro s₀ run
  refine ⟨?_, ?_⟩
  · refine List.foldlRecOn (motive := fun s : CreditedSlot => ∀ c ∈ s.shares,
      c.measuredNs.toNat ≤ c.sliceNs.toNat ∧ c.sliceNs.toNat ≤ nsPerSec) ops _
      (fun c hc => absurd hc List.not_mem_nil) fun s h op _ c hc => ?_
    rw [creditedStep] at hc
    rcases List.mem_append.mp hc with hc | hc
    · exact h c hc
    · split_ifs at hc with hsame
      · exact mem_cpuShares_slotStep hsame.1 hc
      · exact absurd hc List.not_mem_nil
  · have hall : Run.Allowed (creditedStep mask start.toNat) (fun _ _ => True) s₀ ops :=
      Run.Allowed.of_forall ops s₀ fun _ _ _ => trivial
    have hinit : s₀.Remembers start.toNat := CreditedSlot.remembers_init _ pid
    have hstep : ∀ (s : CreditedSlot) (op : SlotOp), s.Remembers start.toNat → True →
        op.Remembered start.toNat s → (creditedStep mask start.toNat s op).Remembers start.toNat :=
      fun s op h _ hop => h.step hop
    exact Run.Allowed.forall_state_iff hstep (fun s h => h.conserves)
      (fun s op h _ hafter => h.remembered_of_conserves hafter) ops s₀ hall hinit

/-! ### The writer -/

/-- The shares of a backend among the calls. -/
def sharesOf (pid : UInt32) (calls : List AccumCall) : List CpuShare :=
  cpuShares (calls.filter fun
    | .openCredit p _ _ _ _ => p = pid
    | _ => false)

/-- What a run of operations does to a slot. -/
def slotRun (mask : UInt32) (o : OpenInterval) (ops : List SlotOp) : OpenInterval :=
  ops.foldl (fun o op => (slotStep mask o op).1) o

/-- The shares that it gets. -/
def slotShares (mask : UInt32) : OpenInterval → List SlotOp → List CpuShare
  | _, [] => []
  | o, op :: ops => cpuShares (slotStep mask o op).2 ++ slotShares mask (slotStep mask o op).1 ops

/-- The slot of a backend, which is empty before its first note. -/
def SummaryWriter.slotOf (w : SummaryWriter) (pid : UInt32) : OpenInterval :=
  (w.openSlot pid).getD { pid := pid }

/-- Every backend has at most one slot. -/
def SummaryWriter.SlotsOk (w : SummaryWriter) : Prop := (w.opens.map OpenInterval.pid).Nodup

/-- Every call that was made, those of the seconds that a rotation discarded included. -/
def FileWriter.everyCall (w : FileWriter) : List AccumCall :=
  w.discarded.flatMap Prod.snd ++ w.base.allCalls

/-- The slot of a backend goes through operations, and the shares that it gets are those that are
added. -/
def FileWriter.Follows (mask pid : UInt32) (w w' : FileWriter) : Prop :=
  pid ≠ 0 → w.base.SlotsOk → w'.base.SlotsOk ∧ ∃ ops,
    w'.base.slotOf pid = slotRun mask (w.base.slotOf pid) ops ∧
      (sharesOf pid w'.everyCall).Perm
        (sharesOf pid w.everyCall ++ slotShares mask (w.base.slotOf pid) ops)

theorem slotShares_append (mask : UInt32) : (ops ops' : List SlotOp) → (o : OpenInterval) →
    slotShares mask o (ops ++ ops') =
      slotShares mask o ops ++ slotShares mask (slotRun mask o ops) ops'
  | [], _, _ => rfl
  | op :: ops, ops', o => by
    rw [List.cons_append, slotShares, slotShares_append mask ops ops', slotShares,
      List.append_assoc]
    rfl

theorem sharesOf_append (pid : UInt32) (l l' : List AccumCall) :
    sharesOf pid (l ++ l') = sharesOf pid l ++ sharesOf pid l' := by
  rw [sharesOf, List.filter_append, cpuShares, List.filterMap_append]
  rfl

namespace FileWriter.Follows

variable {mask pid : UInt32} {w w' w'' : FileWriter}

theorem trans (h : w.Follows mask pid w') (h' : w'.Follows mask pid w'') :
    w.Follows mask pid w'' := by
  intro hpid hok
  obtain ⟨hok', ops, hslot, hshares⟩ := h hpid hok
  obtain ⟨hok'', ops', hslot', hshares'⟩ := h' hpid hok'
  refine ⟨hok'', ops ++ ops', ?_, ?_⟩
  · rw [hslot', hslot, slotRun, slotRun, slotRun, List.foldl_append]
  · rw [slotShares_append, ← List.append_assoc, ← hslot]
    exact hshares'.trans (hshares.append_right _)

theorem of_same (hopens : w'.base.opens = w.base.opens)
    (hcalls : (sharesOf pid w'.everyCall).Perm (sharesOf pid w.everyCall)) :
    w.Follows mask pid w' := by
  refine fun _ hok => ⟨by rw [SummaryWriter.SlotsOk, hopens]; exact hok, [], ?_, ?_⟩
  · rw [slotRun, List.foldl_nil, SummaryWriter.slotOf, SummaryWriter.slotOf, SummaryWriter.openSlot,
      SummaryWriter.openSlot, hopens]
  · rw [slotShares, List.append_nil]
    exact hcalls

theorem refl (w : FileWriter) : w.Follows mask pid w := of_same rfl (List.Perm.refl _)

/-- An operation on the slots of some backends, with the calls that come of it. -/
theorem of_map (op : SlotOp) (at' : UInt32 → Prop) [DecidablePred at']
    (hopens : w'.base.opens = w.base.opens.map fun o =>
      if at' o.pid then (slotStep mask o op).1 else o)
    (hcalls : pid ≠ 0 → w.base.SlotsOk → (sharesOf pid w'.everyCall).Perm
      (sharesOf pid w.everyCall ++ ((w.base.openSlot pid).map fun o =>
        if at' pid then cpuShares (slotStep mask o op).2 else []).getD [])) :
    w.Follows mask pid w' := by
  have hkeep : ∀ o : OpenInterval,
      (if at' o.pid then (slotStep mask o op).1 else o).pid = o.pid := by
    intro o
    split_ifs
    · exact OpenInterval.pid_slotStep mask o op
    · rfl
  have hslot : w'.base.openSlot pid = (w.base.openSlot pid).map fun o =>
      if at' o.pid then (slotStep mask o op).1 else o := by
    rw [SummaryWriter.openSlot, SummaryWriter.openSlot, hopens]
    split_ifs
    · rfl
    · rw [List.find?_map]
      simp only [Function.comp_def, hkeep]
  intro hpid hok
  have hcalls' := hcalls hpid hok
  refine ⟨?_, ?_⟩
  · rw [SummaryWriter.SlotsOk, hopens, List.map_map]
    simp only [Function.comp_def, hkeep]
    exact hok
  · rcases ho : w.base.openSlot pid with _ | o
    · rw [ho, Option.map_none, Option.getD_none, List.append_nil] at hcalls'
      refine ⟨[], ?_, ?_⟩
      · rw [SummaryWriter.slotOf, SummaryWriter.slotOf, hslot, ho]
        rfl
      · rw [slotShares, List.append_nil]
        exact hcalls'
    · have hopid : o.pid = pid := by
        rw [SummaryWriter.openSlot, if_neg hpid] at ho
        simpa using List.find?_some ho
      rw [ho, Option.map_some, Option.getD_some] at hcalls'
      rw [ho, Option.map_some, hopid] at hslot
      by_cases hat' : at' pid
      · rw [if_pos hat'] at hcalls' hslot
        refine ⟨[op], ?_, ?_⟩
        · rw [SummaryWriter.slotOf, SummaryWriter.slotOf, hslot, ho]
          rfl
        · rw [SummaryWriter.slotOf, ho, slotShares, slotShares, List.append_nil]
          exact hcalls'
      · rw [if_neg hat'] at hcalls' hslot
        refine ⟨[], ?_, ?_⟩
        · rw [SummaryWriter.slotOf, SummaryWriter.slotOf, hslot, ho]
          rfl
        · rw [slotShares]
          exact hcalls'

theorem of_silent (op : SlotOp) (at' : UInt32 → Prop) [DecidablePred at']
    (hsilent : ∀ o, cpuShares (slotStep mask o op).2 = [])
    (hopens : w'.base.opens = w.base.opens.map fun o =>
      if at' o.pid then (slotStep mask o op).1 else o)
    (hcalls : (sharesOf pid w'.everyCall).Perm (sharesOf pid w.everyCall)) :
    w.Follows mask pid w' := by
  refine of_map op at' hopens fun _ _ => ?_
  have hnil : ((w.base.openSlot pid).map fun o =>
      if at' pid then cpuShares (slotStep mask o op).2 else []).getD [] = [] := by
    cases w.base.openSlot pid with
    | none => rfl
    | some o => simp [hsilent]
  rw [hnil, List.append_nil]
  exact hcalls

theorem flushAccum (env : Faults) (w : FileWriter) : w.Follows mask pid (w.flushAccum env).1 := by
  rw [FileWriter.flushAccum]
  split_ifs
  · exact refl w
  · split
    · refine of_same ?_ ?_
      · rw [SummaryWriter.flushAccum]
        split <;> rfl
      · rw [FileWriter.everyCall, FileWriter.everyCall, SummaryWriter.allCalls,
          SummaryWriter.flushAccum]
        split <;> simp [SummaryWriter.allCalls]
    · exact of_same rfl (List.Perm.refl _)
    · exact of_same rfl (List.Perm.refl _)

theorem openCounted (env : Faults) (w : FileWriter) :
    w.Follows mask pid (w.openCounted env).1 := by
  rw [FileWriter.openCounted]
  split_ifs <;> exact of_same rfl (List.Perm.refl _)

theorem sealCanWrite (env : Faults) (w : FileWriter) :
    w.Follows mask pid (w.sealCanWrite env).1 := by
  rw [FileWriter.sealCanWrite]
  split_ifs
  · exact refl w
  · exact refl w
  · exact openCounted env w

theorem nextSecond (w : FileWriter) (toSec : ℕ) (closing : Bool) :
    w.Follows mask pid (w.nextSecond toSec closing).1 := by
  rw [FileWriter.nextSecond]
  split
  · exact refl w
  · refine of_silent (.retire toSec closing) (fun _ => True) (fun _ => rfl) ?_ (List.Perm.refl _)
    simp only [SummaryWriter.earliestOpenSecond, slotStep, if_true]

theorem sharesOf_openCredit_cons (pid p e : UInt32) (ns m : UInt64) (measured : Bool)
    (l : List AccumCall) : sharesOf pid (.openCredit p e ns m measured :: l) =
      (if p = pid then [⟨ns, m, measured⟩] else []) ++ sharesOf pid l := by
  by_cases hp : p = pid <;> simp [sharesOf, cpuShares, hp]

theorem sharesOf_creditSecond (mask : UInt32) (sec : ℕ) (closing : Bool) (pid : UInt32)
    (o : OpenInterval) : sharesOf pid (o.creditSecond mask sec closing).2 =
      if o.pid = pid then cpuShares (o.creditSecond mask sec closing).2 else [] := by
  rcases OpenInterval.creditSecond_cases mask sec closing o with
    ⟨-, heq⟩ | ⟨-, heq | ⟨endNs, slice, -, heq⟩⟩
  · rw [heq]
    exact (ite_self _).symm
  · rw [heq]
    exact (ite_self _).symm
  · rw [heq]
    by_cases hslot : o.cpuSlot
    · rw [if_pos hslot, OpenInterval.cpuShares_creditCpu, OpenInterval.creditCpu]
      simp only [sharesOf_openCredit_cons, OpenInterval.shareNs]
      split_ifs <;> rfl
    · rw [if_neg hslot, OpenInterval.creditWait, sharesOf_openCredit_cons]
      split_ifs <;> rfl

theorem sharesOf_flatMap {g : OpenInterval → List AccumCall} (pid : UInt32)
    (hg : ∀ o, sharesOf pid (g o) = if o.pid = pid then cpuShares (g o) else []) :
    (l : List OpenInterval) → (l.map OpenInterval.pid).Nodup → sharesOf pid (l.flatMap g) =
      ((l.find? fun o => o.pid = pid).map fun o => cpuShares (g o)).getD []
  | [], _ => rfl
  | o :: l, hnodup => by
    rw [List.map_cons, List.nodup_cons] at hnodup
    rw [List.flatMap_cons, sharesOf_append, sharesOf_flatMap pid hg l hnodup.2, hg]
    by_cases hpid : o.pid = pid
    · have hnone : l.find? (fun o => o.pid = pid) = none := by
        rw [List.find?_eq_none]
        intro o' ho' hpid'
        rw [decide_eq_true_eq] at hpid'
        exact hnodup.1 (List.mem_map.mpr ⟨o', ho', hpid'.trans hpid.symm⟩)
      rw [if_pos hpid, hnone, List.find?_cons_of_pos (by simpa using hpid)]
      simp
    · rw [if_neg hpid, List.find?_cons_of_neg (by simpa using hpid), List.nil_append]

theorem creditSecond (w : FileWriter) (sec : ℕ) (closing : Bool) :
    w.Follows mask pid (w.creditSecond mask sec closing) := by
  refine of_map (.credit sec closing) (fun _ => True) ?_ fun hpid hok => ?_
  · simp only [FileWriter.creditSecond, SummaryWriter.creditOpenSecond, slotStep, if_true]
  · have hcalls : (w.creditSecond mask sec closing).everyCall = w.everyCall ++
        w.base.opens.flatMap fun o => (o.creditSecond mask sec closing).2 := by
      simp [FileWriter.everyCall, FileWriter.creditSecond, SummaryWriter.creditOpenSecond,
        SummaryWriter.allCalls]
    rw [hcalls, sharesOf_append, sharesOf_flatMap pid (sharesOf_creditSecond mask sec closing pid)
      _ hok, SummaryWriter.openSlot, if_neg hpid]
    simp only [slotStep, if_true]
    exact List.Perm.refl _

theorem sealThrough (env : Faults) : (guard : ℕ) → (w : FileWriter) → (toSec : ℕ) →
    (closing : Bool) → w.Follows mask pid (w.sealThrough mask env guard toSec closing)
  | 0, w, _, _ => refl w
  | guard + 1, w, toSec, closing => by
    rw [FileWriter.sealThrough]
    have hnext : w.Follows mask pid (w.nextSecond toSec closing).1 := nextSecond w toSec closing
    generalize w.nextSecond toSec closing = next at hnext ⊢
    rcases next with ⟨w₁, _ | sec⟩
    · exact hnext
    dsimp only at hnext ⊢
    split_ifs
    · exact hnext
    have hcan := hnext.trans (sealCanWrite env w₁)
    generalize w₁.sealCanWrite env = can at hcan ⊢
    rcases can with ⟨w₂, _ | _⟩
    · exact hcan
    dsimp only at hcan ⊢
    have hflush := (hcan.trans (creditSecond w₂ sec closing)).trans
      (flushAccum env (w₂.creditSecond mask sec closing))
    generalize (w₂.creditSecond mask sec closing).flushAccum env = flush at hflush ⊢
    rcases flush with ⟨w₃, _ | _⟩
    · exact hflush
    · exact hflush.trans (sealThrough env guard w₃ toSec closing)

theorem startSecond (env : Faults) (w : FileWriter) (sec : ℕ) :
    w.Follows mask pid (w.startSecond env sec) := by
  rw [FileWriter.startSecond]
  split_ifs
  · exact (flushAccum env w).trans (of_same rfl (List.Perm.refl _))
  · exact of_same rfl (List.Perm.refl _)

theorem modifySlot (w : FileWriter) (at' : UInt32) (op : SlotOp)
    (hsilent : ∀ o, cpuShares (slotStep mask o op).2 = []) :
    w.Follows mask pid
      { w with base := w.base.modifySlot at' fun o => (slotStep mask o op).1 } :=
  of_silent op (· = at') hsilent rfl (List.Perm.refl _)

theorem closeSlot (w : FileWriter) (evt : TraceEvent) :
    w.Follows mask pid { w with base := w.base.closeSlot evt } := by
  have hclose : w.Follows mask pid { w with
      base := if notInterval evt then w.base else w.base.modifySlot evt.pid (·.close evt) } := by
    split_ifs
    · exact refl w
    · exact modifySlot w evt.pid (.close evt) fun _ => rfl
  simp only [SummaryWriter.closeSlot]
  by_cases hexit : evt.newEvent = eventExit ∨ evt.oldEvent = eventExit
  · rw [if_pos hexit]
    exact hclose.trans (modifySlot _ evt.pid .forget fun _ => rfl)
  · rw [if_neg hexit]
    exact hclose

theorem addRecord (w : FileWriter) (p : PushedEvent) :
    w.Follows mask pid { w with
      base := w.base.addRecord p
      accepted := w.accepted ++ [p] } := by
  refine (closeSlot w p.evt).trans (of_same rfl ?_)
  have hcalls : (w.base.closeSlot p.evt).calls = w.base.calls := by
    rw [SummaryWriter.closeSlot]
    split_ifs <;> rfl
  have hrecords : (w.base.closeSlot p.evt).records = w.base.records := by
    rw [SummaryWriter.closeSlot]
    split_ifs <;> rfl
  have hdeferred : sharesOf pid (if p.ioWorker then [] else p.deferred.map fun d =>
      AccumCall.queryAdd d.queryId d.ev d.count d.totalNs d.longestNs) = [] := by
    split_ifs
    · rfl
    · simp [sharesOf, cpuShares, List.filter_map]
  have hclose : sharesOf pid [AccumCall.event p.evt p.queryId p.ioWorker p.eff
      (w.base.closeCtx p.evt)] = [] := rfl
  simp only [FileWriter.everyCall, SummaryWriter.allCalls, SummaryWriter.addRecord, sharesOf_append,
    hcalls, hrecords, hdeferred, hclose, List.append_nil]
  exact List.Perm.refl _

theorem pushEvent (env : Faults) (w : FileWriter) (p : PushedEvent) :
    w.Follows mask pid (w.pushEvent mask env p) := by
  rw [FileWriter.pushEvent]
  split_ifs
  · exact refl w
  have hopen : w.Follows mask pid (w.openCounted env).1 := openCounted env w
  generalize w.openCounted env = opened at hopen ⊢
  rcases opened with ⟨w₁, _ | _⟩
  · exact hopen.trans (of_same rfl (List.Perm.refl _))
  · exact hopen.trans ((sealThrough env _ w₁ _ false).trans
      ((startSecond env _ _).trans (addRecord _ p)))

theorem createSlot (w : FileWriter) (at' : UInt32) :
    w.Follows mask pid { w with base := w.base.createSlot at' } := by
  rw [SummaryWriter.createSlot]
  split_ifs with hroom
  · exact refl w
  push Not at hroom
  obtain ⟨hat', hnone, -⟩ := hroom
  refine fun hpid hok => ⟨?_, [], ?_, ?_⟩
  · rw [SummaryWriter.SlotsOk, List.map_append, List.nodup_append]
    refine ⟨hok, List.nodup_singleton _, ?_⟩
    intro a ha b hb hab
    obtain ⟨o, ho, hoa⟩ := List.mem_map.mp ha
    have hnew : o.pid = at' := by
      rw [hoa, hab]
      simpa using hb
    rw [SummaryWriter.openSlot, if_neg hat'] at hnone
    exact hnone (List.find?_isSome.mpr ⟨o, ho, decide_eq_true hnew⟩)
  · rw [slotRun, List.foldl_nil, SummaryWriter.slotOf, SummaryWriter.slotOf,
      SummaryWriter.openSlot, SummaryWriter.openSlot, if_neg hpid, if_neg hpid,
      List.find?_append]
    cases w.base.opens.find? fun o => o.pid = pid with
    | some o => rfl
    | none =>
      by_cases hnew : at' = pid
      · simp [hnew]
      · simp [hnew]
  · rw [slotShares, List.append_nil]
    exact List.Perm.refl _

theorem noteOpenEx (w : FileWriter) (at' we : UInt32) (startNs : ℕ) (catFlag : UInt32) (nowNs : ℕ)
    (cpu : Option OpenCpu) :
    w.Follows mask pid (w.noteOpenEx at' we startNs catFlag nowNs cpu) := by
  rw [FileWriter.noteOpenEx]
  split_ifs
  · exact refl w
  rw [summaryNoteOpenEx]
  have hnote := fun w : FileWriter => @modifySlot mask pid w at'
    (.note we startNs catFlag nowNs cpu) fun _ => rfl
  by_cases hat' : at' = 0
  · rw [if_pos hat']
    exact refl w
  rw [if_neg hat']
  by_cases hworker : catFlag &&& flagIoWorker ≠ 0
  · rw [if_pos hworker]
    simp only [slotStep, if_pos hworker] at hnote
    exact hnote w
  · rw [if_neg hworker]
    simp only [slotStep, if_neg hworker] at hnote
    exact (createSlot w at').trans (hnote _)

theorem flushCompleted (env : Faults) (w : FileWriter) (nowNs : ℕ) :
    w.Follows mask pid (w.flushCompleted mask env nowNs) := by
  rw [FileWriter.flushCompleted]
  split_ifs
  · exact refl w
  · exact refl w
  · exact sealThrough env _ w _ false

theorem discard (w : FileWriter) : w.Follows mask pid w.discard := by
  rw [FileWriter.discard]
  split
  · exact refl w
  · refine of_same rfl ?_
    simp only [FileWriter.everyCall, SummaryWriter.allCalls, List.flatMap_append,
      List.flatMap_singleton, List.append_nil, sharesOf_append, List.append_assoc]
    exact List.perm_append_comm.append_left _

theorem checkRotation (env : Faults) (w : FileWriter) (hourChanged : Bool) :
    w.Follows mask pid (w.checkRotation env hourChanged) := by
  rw [FileWriter.checkRotation]
  split_ifs
  · exact refl w
  have hflush : w.Follows mask pid (w.flushAccum env).1 := flushAccum env w
  generalize w.flushAccum env = flush at hflush ⊢
  rcases flush with ⟨w₁, _ | _⟩
  · exact hflush.trans ((discard w₁).trans (of_same rfl (List.Perm.refl _)))
  · exact hflush.trans (of_same rfl (List.Perm.refl _))

theorem close (env : Faults) (w : FileWriter) : w.Follows mask pid (w.close mask env) := by
  rw [FileWriter.close]
  split_ifs
  · exact refl w
  · exact (sealThrough env _ w _ true).trans
      ((flushAccum env _).trans (of_same rfl (List.Perm.refl _)))

end FileWriter.Follows

theorem follows_fileWriterStep (mask pid : UInt32) (env : Faults) (w : FileWriter) (op : WriterOp) :
    w.Follows mask pid (fileWriterStep mask env w op) := by
  cases op with
  | pushEvent p => exact .pushEvent env w p
  | noteOpenEx at' we startNs catFlag nowNs cpu =>
    exact .noteOpenEx w at' we startNs catFlag nowNs cpu
  | flushCompleted nowNs => exact .flushCompleted env w nowNs
  | flush => exact .flushAccum env w
  | checkRotation hourChanged => exact .checkRotation env w hourChanged
  | close => exact .close env w

theorem slot_foldl_creditedStep (mask : UInt32) (start : ℕ) : (ops : List SlotOp) →
    (s : CreditedSlot) → (ops.foldl (creditedStep mask start) s).slot = slotRun mask s.slot ops
  | [], _ => rfl
  | op :: ops, s => slot_foldl_creditedStep mask start ops (creditedStep mask start s op)

theorem sublist_shares_foldl (mask : UInt32) (start : ℕ) : (ops : List SlotOp) →
    (s : CreditedSlot) → (ops.foldl (creditedStep mask start) s).shares.Sublist
      (s.shares ++ slotShares mask s.slot ops)
  | [], s => by
    rw [slotShares, List.append_nil]
    exact List.Sublist.refl _
  | op :: ops, s => by
    refine (sublist_shares_foldl mask start ops (creditedStep mask start s op)).trans ?_
    rw [slotShares, ← List.append_assoc]
    refine List.Sublist.append_right (List.Sublist.append_left ?_ _) _
    split_ifs
    · exact List.Sublist.refl _
    · exact List.nil_sublist _

/-- **The slots of the writer.** Over every run of the writer, the slot of a backend is that of a run
of its own operations, and the shares of the backend are those that this run adds. -/
theorem exists_slotOps (mask : UInt32) {pid : UInt32} (hpid : pid ≠ 0) (start : ℕ) (env : Faults)
    (ops : List WriterOp) : ∃ slotOps,
      let w := ops.foldl (fileWriterStep mask env) {}
      let s := slotOps.foldl (creditedStep mask start) { slot := { pid := pid } }
      w.base.slotOf pid = s.slot ∧
        (sharesOf pid w.everyCall).Perm (slotShares mask { pid := pid } slotOps) ∧
        s.shares.Sublist (slotShares mask { pid := pid } slotOps) := by
  have hfollows : FileWriter.Follows mask pid {} (ops.foldl (fileWriterStep mask env) {}) :=
    List.foldlRecOn ops _ (.refl _) fun w h op _ =>
      h.trans (follows_fileWriterStep mask pid env w op)
  obtain ⟨-, slotOps, hslot, hshares⟩ := hfollows hpid List.nodup_nil
  have hempty : SummaryWriter.slotOf {} pid = { pid := pid } := by
    rw [SummaryWriter.slotOf, SummaryWriter.openSlot, if_neg hpid]
    rfl
  rw [hempty] at hslot hshares
  refine ⟨slotOps, ?_, ?_, ?_⟩
  · rw [hslot, slot_foldl_creditedStep]
  · simpa [sharesOf, cpuShares, FileWriter.everyCall, SummaryWriter.allCalls] using hshares
  · exact sublist_shares_foldl mask start slotOps { slot := { pid := pid } }

theorem exists_slotOps_noted : ∃ slotOps : List SlotOp,
    ([.noteOpenEx 7 0 10 0 20 none, .close].foldl
      (fileWriterStep 0 ⟨fun _ => .written, fun _ => true⟩) {}).base.slotOf 7 =
        (slotOps.foldl (creditedStep 0 0) { slot := { pid := 7 } }).slot :=
  (exists_slotOps 0 (by decide) 0 _ _).imp fun _ h => h.1

/-! ### An expired note -/

/-- What is done to the slot of an interval from 10 s on: it is noted, its first second is written,
its note expires, it is noted again and six more seconds are written. -/
def expiredNote : List SlotOp :=
  [.note 0 10000000000 0 11050000000 (some ⟨0, 1000000000⟩), .credit 10000000000 false,
    .retire 16000000000 false, .note 0 10000000000 0 16300000000 (some ⟨0, 6000000000⟩),
    .credit 11000000000 false, .credit 12000000000 false, .credit 13000000000 false,
    .credit 14000000000 false, .credit 15000000000 false, .credit 16000000000 false]

/-- The slot after it, with seven seconds of credit for six seconds of CPU. -/
def expiredSlot : CreditedSlot :=
  expiredNote.foldl (creditedStep 0 10000000000) { slot := { pid := 7 } }

/-- The record that closes the interval at 17.3 s, with 6.9 s of CPU. -/
def expiredClose : PushedEvent where
  evt := ⟨17300000000, 7, 0, 0, 0, 7300000000, 0, 6900000000⟩
  catFlag := 0
  effEvent := 0
  queryId := 0
  deferred := []

/-- The writer that this happens to: a record opens its file, and the producer pauses between the
notes. -/
def expiredWriter : SummaryWriter :=
  let w := summaryPushEvent 0 {} ⟨⟨10000000000, 9, 0, 0, 0, 0, 0, 0⟩, 0, 0, 0, []⟩
  let w := summaryNoteOpenEx w 7 0 10000000000 0 11050000000 (some ⟨0, 1000000000⟩)
  let w := summaryFlushCompleted 0 (summaryFlushCompleted 0 w 11200000000) 16200000000
  let w := summaryNoteOpenEx w 7 0 10000000000 0 16300000000 (some ⟨0, 6000000000⟩)
  summaryFlushCompleted 0 w 17200000000

/-- **An expired note forgets its credit.** The second that was written before the note expired is
credited again, and the close takes off what was credited since. -/
theorem cpuCredits_expired :
    (expiredWriter.openSlot 7 = some expiredSlot.slot ∧
      cpuShares expiredWriter.allCalls = expiredSlot.shares) ∧
      expiredSlot.creditedNs = 7000000000 ∧ expiredClose.evt.cpuNs = 6900000000 ∧
      (expiredSlot.slot.closeTimes 0 expiredClose).cpuMeasuredNs = 900000000 ∧
      (expiredSlot.slot.closeTimes 0 expiredClose).cpuClampedNs = 0 ∧
      expiredSlot.slot.overcreditNs expiredClose.evt = 0 ∧
      ¬expiredSlot.Conserves 0 10000000000 := by
  have hcredited : expiredSlot.creditedNs = 7000000000 := by decide +kernel
  have hfiled : (expiredSlot.slot.closeTimes 0 expiredClose).cpuMeasuredNs = 900000000 := by
    decide +kernel
  have hclamped : (expiredSlot.slot.closeTimes 0 expiredClose).cpuClampedNs = 0 := by
    decide +kernel
  have hover : expiredSlot.slot.overcreditNs expiredClose.evt = 0 := by decide +kernel
  have hwriter : expiredWriter.openSlot 7 = some expiredSlot.slot ∧
      cpuShares expiredWriter.allCalls = expiredSlot.shares := by decide +kernel
  refine ⟨hwriter, hcredited, rfl, hfiled, hclamped, hover, fun hconserves => ?_⟩
  have hclose := hconserves (by decide +kernel) (by decide +kernel) expiredClose
    ⟨rfl, by decide, by decide, by decide⟩
  rw [CreditedSlot.ClosesWith, hcredited, hfiled, hclamped, hover] at hclose
  exact absurd hclose (by decide)

end PgWaitTracer
