import PgWaitTracer.Lib.Tally
import PgWaitTracer.Summary.Writer

/-!
# The times of a record

The scalars of a record depend only on the calls that filled it. They are given here for counters of
any kind: the 64-bit words of the writer, and numbers, of which the words are the low bits.

## Main results

* `totalEvents_foldl_accumStep`: an accumulator has the number of the records that were
  counted.
* `times_foldl_accumStep`: the scalars of the accumulator are the low bits of the
  scalars of its record.
-/

namespace PgWaitTracer

/-- What a call adds to the scalars. -/
def timesStep {N : Type} [Add N] [One N] (num : UInt64 → N) (mask : UInt32) (t : TimeScalars N) :
    AccumCall → TimeScalars N
  | .event evt _ ioWorker effEvent cc =>
    let ev := cc.label effEvent
    if ev = eventExit ∨ isMarker ev then t
    else if ioWorker then t
    else accumTimes num mask t ev evt.durationNs (excess evt.durationNs cc.alreadyNs) evt.cpuNs cc
  | .openCredit _ we ns _ _ => if ns = 0 then t else creditTimes mask t we (num ns)
  | .openCpu measuredNs unknownNs records => { t with
      cpuMeasuredNs := t.cpuMeasuredNs + num measuredNs
      cpuUnknownNs := t.cpuUnknownNs + num unknownNs
      cpuMeasuredRecords := t.cpuMeasuredRecords + num records }
  | .queryAdd _ _ _ _ _ => t

/-- The record of the stream that a call adds to the counts of the accumulator. -/
def AccumCall.counted : AccumCall → Option TraceEvent
  | .event evt _ ioWorker effEvent cc =>
    if cc.label effEvent = eventExit ∨ isMarker (cc.label effEvent) then none
    else if ioWorker then none
    else some evt
  | _ => none

/-- The scalars of a record as numbers. -/
def recordTimes (mask : UInt32) (calls : List AccumCall) : TimeScalars ℕ :=
  calls.foldl (timesStep UInt64.toNat mask) TimeScalars.zero

/-! ### Rows keep the scalars -/

/-- The part of the accumulator outside its tables: the count of records, and the times. -/
def SummaryAccum.head (acc : SummaryAccum) : UInt32 × TimeScalars UInt64 :=
  (acc.totalEvents, acc.times)

theorem head_accumQueryAdd (mask : UInt32) (acc : SummaryAccum) (queryId : UInt64) (ev : UInt32)
    (count total longest : UInt64) :
    (accumQueryAdd mask acc queryId ev count total longest).head = acc.head := by
  rw [accumQueryAdd]
  split
  · rfl
  · rename_i acc₁ j h
    obtain ⟨-, q, -, -, rfl⟩ := findOrInsertQuery_eq_some h
    rfl

theorem head_accumEventRow (acc : SummaryAccum) (ev : UInt32) (dur tns : UInt64) :
    (accumEventRow acc ev dur tns).head = acc.head := by
  rw [accumEventRow]
  split
  · rfl
  · rename_i acc₁ j h
    obtain ⟨e, -, -, rfl⟩ := findOrInsertEvent_eq_some h
    rfl

theorem head_creditEventRow (acc : SummaryAccum) (we : UInt32) (ns : UInt64) :
    (creditEventRow acc we ns).head = acc.head := by
  rw [creditEventRow]
  split
  · rfl
  · rename_i acc₁ j h
    obtain ⟨e, -, -, rfl⟩ := findOrInsertEvent_eq_some h
    rfl

theorem head_accumSessionRow (mask : UInt32) (acc : SummaryAccum) (pid ev : UInt32)
    (dur tns : UInt64) (measured : Option UInt64) :
    (accumSessionRow mask acc pid ev dur tns measured).head = acc.head := by
  rw [accumSessionRow]
  split
  · split_ifs <;> rfl
  · rename_i acc₁ j h
    obtain ⟨s, -, -, rfl⟩ := findOrInsertSession_eq_some h
    rfl

theorem head_creditSessionRow (mask : UInt32) (acc : SummaryAccum) (pid we : UInt32) (ns : UInt64)
    (measured : Option UInt64) :
    (creditSessionRow mask acc pid we ns measured).head = acc.head := by
  rw [creditSessionRow]
  split
  · rfl
  · rename_i acc₁ j h
    obtain ⟨s, -, -, rfl⟩ := findOrInsertSession_eq_some h
    rfl

theorem head_accumStep (mask : UInt32) (acc : SummaryAccum) (c : AccumCall) :
    (accumStep mask acc c).head = (acc.totalEvents + UInt32.ofNat c.counted.toList.length,
      timesStep (fun x => x) mask acc.times c) := by
  cases c with
  | event evt queryId ioWorker effEvent cc =>
    rw [accumStep, accumEvent, timesStep, AccumCall.counted]
    simp only
    split_ifs
    · exact Prod.ext (UInt32.add_zero _).symm rfl
    · exact Prod.ext (UInt32.add_zero _).symm rfl
    · rw [head_accumQueryAdd, head_accumSessionRow, head_accumEventRow]
      rfl
  | openCredit pid we ns measuredNs measured =>
    rw [accumStep, accumOpenCredit, timesStep]
    by_cases h₁ : ns = 0
    · rw [if_pos h₁, if_pos h₁]
      exact Prod.ext (UInt32.add_zero _).symm rfl
    · rw [if_neg h₁, if_neg h₁]
      simp only
      split
      · rw [head_creditEventRow]
        exact Prod.ext (UInt32.add_zero _).symm rfl
      · rw [head_creditSessionRow, head_creditEventRow]
        exact Prod.ext (UInt32.add_zero _).symm rfl
  | openCpu measuredNs unknownNs records => exact Prod.ext (UInt32.add_zero _).symm rfl
  | queryAdd queryId ev count total longest =>
    rw [accumStep, head_accumQueryAdd]
    exact Prod.ext (UInt32.add_zero _).symm rfl

/-- **The scalars after a call.** -/
theorem times_accumStep (mask : UInt32) (acc : SummaryAccum) (c : AccumCall) :
    (accumStep mask acc c).times = timesStep (fun x => x) mask acc.times c :=
  congrArg Prod.snd (head_accumStep mask acc c)

/-- **The count of an accumulator** is the number of records that its calls count. -/
theorem totalEvents_foldl_accumStep (mask : UInt32) (calls : List AccumCall) :
    (calls.foldl (accumStep mask) accumReset).totalEvents =
      UInt32.ofNat (calls.filterMap AccumCall.counted).length := by
  suffices h : ∀ (acc : SummaryAccum) (n : ℕ), acc.totalEvents = UInt32.ofNat n →
      (calls.foldl (accumStep mask) acc).totalEvents =
        UInt32.ofNat (n + (calls.filterMap AccumCall.counted).length) by
    have h₀ := h accumReset 0 rfl
    rwa [Nat.zero_add] at h₀
  induction calls with
  | nil => exact fun _ _ h => h
  | cons c calls ih =>
    intro acc n h
    have hlen : ((c :: calls).filterMap AccumCall.counted).length =
        c.counted.toList.length + (calls.filterMap AccumCall.counted).length := by
      rw [List.filterMap_cons]
      cases c.counted with
      | none => exact (Nat.zero_add _).symm
      | some evt => exact Nat.add_comm _ 1
    rw [hlen, ← Nat.add_assoc]
    refine ih _ _ ?_
    rw [UInt32.ofNat_add, ← h]
    exact congrArg Prod.fst (head_accumStep mask acc c)

/-! ### Low bits -/

/-- The low bits of the scalars. -/
def TimeScalars.lowBits (t : TimeScalars ℕ) : TimeScalars UInt64 where
  classNs := fun c => UInt64.ofNat (t.classNs c)
  idleNs := UInt64.ofNat t.idleNs
  cpuMeasuredNs := UInt64.ofNat t.cpuMeasuredNs
  cpuUnknownNs := UInt64.ofNat t.cpuUnknownNs
  cpuClampedNs := UInt64.ofNat t.cpuClampedNs
  waitGapCpuNs := UInt64.ofNat t.waitGapCpuNs
  cpuMeasuredRecords := UInt64.ofNat t.cpuMeasuredRecords

theorem ofNat_add_toNat (n : ℕ) (x : UInt64) :
    UInt64.ofNat (n + x.toNat) = UInt64.ofNat n + x := by
  rw [UInt64.ofNat_add, UInt64.ofNat_toNat]

theorem lowBits_addClass (t : TimeScalars ℕ) (c : WaitClass) (x : UInt64) :
    (t.addClass c x.toNat).lowBits = t.lowBits.addClass c x := by
  refine TimeScalars.ext (funext fun c' => ?_) rfl rfl rfl rfl rfl rfl
  simp only [TimeScalars.lowBits, TimeScalars.addClass]
  split_ifs
  · exact ofNat_add_toNat _ x
  · rfl

theorem lowBits_addMeasured (t : TimeScalars ℕ) (m clamped : UInt64) :
    (t.addMeasured m.toNat clamped.toNat).lowBits = t.lowBits.addMeasured m clamped := by
  simp only [TimeScalars.lowBits, TimeScalars.addMeasured, ofNat_add_toNat]
  rw [UInt64.ofNat_add]
  rfl

theorem lowBits_accumTimes (mask : UInt32) (t : TimeScalars ℕ) (ev : UInt32)
    (dur tns cpuNs : UInt64) (cc : AccumCloseCtx) :
    (accumTimes UInt64.toNat mask t ev dur tns cpuNs cc).lowBits =
      accumTimes (fun x => x) mask t.lowBits ev dur tns cpuNs cc := by
  simp only [accumTimes, ← lowBits_addClass]
  split_ifs
  · simp only [TimeScalars.lowBits, ofNat_add_toNat]
  · simp only [TimeScalars.lowBits, ofNat_add_toNat]
  · simp only [TimeScalars.lowBits, ofNat_add_toNat]
  · exact lowBits_addMeasured ..
  · exact lowBits_addMeasured ..
  · rfl
  · simp only [TimeScalars.lowBits, ofNat_add_toNat]

theorem lowBits_timesStep (mask : UInt32) (t : TimeScalars ℕ) (c : AccumCall) :
    (timesStep UInt64.toNat mask t c).lowBits = timesStep (fun x => x) mask t.lowBits c := by
  cases c with
  | event evt queryId ioWorker effEvent cc =>
    simp only [timesStep]
    split_ifs
    · rfl
    · rfl
    · exact lowBits_accumTimes ..
  | openCredit pid we ns measuredNs measured =>
    simp only [timesStep, creditTimes]
    split_ifs
    · rfl
    · simp only [TimeScalars.lowBits, ofNat_add_toNat]
    · exact lowBits_addClass ..
  | openCpu measuredNs unknownNs records =>
    simp only [timesStep, TimeScalars.lowBits, ofNat_add_toNat]
  | queryAdd queryId ev count total longest => rfl

/-- **The scalars of the accumulator** are the low bits of the scalars of its record. -/
theorem times_foldl_accumStep (mask : UInt32) (calls : List AccumCall) :
    (calls.foldl (accumStep mask) accumReset).times = (recordTimes mask calls).lowBits := by
  suffices h : ∀ (acc : SummaryAccum) (t : TimeScalars ℕ), acc.times = t.lowBits →
      (calls.foldl (accumStep mask) acc).times =
        (calls.foldl (timesStep UInt64.toNat mask) t).lowBits from h _ _ rfl
  induction calls with
  | nil => exact fun _ _ h => h
  | cons c calls ih =>
    intro acc t h
    refine ih _ _ ?_
    rw [times_accumStep, h, lowBits_timesStep]

end PgWaitTracer
