import Mathlib.Algebra.Group.Prod
import Mathlib.Algebra.Order.BigOperators.Group.List
import Mathlib.Algebra.Order.Monoid.NatCast
import Mathlib.Algebra.Order.Ring.Nat
import Mathlib.Data.UInt
import PgWaitTracer.Summary.RecordTimes

/-!
# A record agrees with itself

The scalars of a record, its events and its sessions are three accounts of the same time. A call
files its time under one label: in the scalars always, in the two tables unless they are full. The
refusals are counted, an idle one only where it loses time, so a record without refusals adds up the
same way three times. Its words wrap around, all three accounts alike.

## Main results

* `events_accumStep`, `sessions_accumStep`.
* `record_consistent`: the accounts of a record agree.
-/

namespace PgWaitTracer

open LinearProbe Tally
open scoped UInt64.CommRing

/-! ### What a call files -/

/-- The label and the time that a call files. -/
def AccumCall.filed : AccumCall → Option (UInt32 × UInt64)
  | .event evt _ ioWorker effEvent cc =>
    let ev := cc.label effEvent
    if ev = eventExit ∨ isMarker ev then none
    else if ioWorker then none
    else some (ev, excess evt.durationNs cc.alreadyNs)
  | .openCredit _ we ns _ _ => if ns = 0 then none else some (we, ns)
  | _ => none

/-- The time that a call files under the labels of a kind. -/
def AccumCall.filedNs (c : AccumCall) (p : UInt32 → Bool) : UInt64 :=
  match c.filed with
  | some (ev, ns) => if p ev then ns else 0
  | none => 0

/-- DB time. -/
def AccumCall.dbNs (mask : UInt32) (c : AccumCall) : UInt64 :=
  c.filedNs fun e => !isIdleEvent mask e

/-- On-CPU time. -/
def AccumCall.onCpuNs (c : AccumCall) : UInt64 := c.filedNs fun e => e = 0

/-- Idle time. -/
def AccumCall.idleNs (mask : UInt32) (c : AccumCall) : UInt64 := c.filedNs (isIdleEvent mask)

/-! ### The scalars -/

section Scalars

variable {N : Type} [AddCommMonoid N]

/-- The time of all classes. -/
def TimeScalars.classTotal (t : TimeScalars N) : N := (classOrder.map t.classNs).sum

theorem TimeScalars.classTotal_addClass (t : TimeScalars N) (c : WaitClass) (ns : N) :
    (t.addClass c ns).classTotal = t.classTotal + ns := by
  have hsplit : (t.addClass c ns).classNs = fun c' => t.classNs c' + if c' = c then ns else 0 := by
    funext c'
    rw [TimeScalars.addClass]
    split_ifs with h
    · simp [h]
    · simp [h]
  rw [classTotal, classTotal, hsplit, List.sum_map_add]
  congr 1
  cases c <;> simp [classOrder]

variable [One N]

theorem accumTimes_classNs (num : UInt64 → N) (mask : UInt32) (t : TimeScalars N) (ev : UInt32)
    (dur tns cpuNs : UInt64) (cc : AccumCloseCtx) :
    (accumTimes num mask t ev dur tns cpuNs cc).classNs =
        (creditTimes mask t ev (num tns)).classNs ∧
      (accumTimes num mask t ev dur tns cpuNs cc).idleNs =
        (creditTimes mask t ev (num tns)).idleNs := by
  simp only [accumTimes, creditTimes]
  split_ifs <;> exact ⟨rfl, rfl⟩

/-- **What a call adds to the scalars** of the classes and of idle time. -/
theorem timesStep_filed (num : UInt64 → N) (mask : UInt32) (t : TimeScalars N) (c : AccumCall) :
    match c.filed with
    | some (ev, ns) =>
      (timesStep num mask t c).classNs = (creditTimes mask t ev (num ns)).classNs ∧
        (timesStep num mask t c).idleNs = (creditTimes mask t ev (num ns)).idleNs
    | none =>
      (timesStep num mask t c).classNs = t.classNs ∧
        (timesStep num mask t c).idleNs = t.idleNs := by
  cases c with
  | event evt queryId ioWorker effEvent cc =>
    simp only [AccumCall.filed, timesStep]
    split_ifs
    · exact ⟨rfl, rfl⟩
    · exact ⟨rfl, rfl⟩
    · exact accumTimes_classNs ..
  | openCredit pid we ns measuredNs measured =>
    simp only [AccumCall.filed, timesStep]
    split_ifs <;> exact ⟨rfl, rfl⟩
  | openCpu measuredNs unknownNs records => exact ⟨rfl, rfl⟩
  | queryAdd queryId ev count total longest => exact ⟨rfl, rfl⟩

variable {num : UInt64 → N} (hnum : num 0 = 0)

include hnum

theorem classTotal_timesStep (mask : UInt32) (t : TimeScalars N) (c : AccumCall) :
    (timesStep num mask t c).classTotal = t.classTotal + num (c.dbNs mask) := by
  have h := timesStep_filed num mask t c
  rw [TimeScalars.classTotal]
  unfold AccumCall.dbNs AccumCall.filedNs
  rcases hc : c.filed with _ | ⟨ev, ns⟩
  · rw [hc] at h
    simp only [h.1, hnum, add_zero]
    rfl
  · rw [hc] at h
    simp only [h.1, creditTimes]
    by_cases hi : isIdleEvent mask ev
    · simp only [hi, if_true, Bool.not_true, Bool.false_eq_true, if_false, hnum, add_zero]
      rfl
    · simp only [hi, if_false, Bool.false_eq_true, Bool.not_false, if_true]
      exact TimeScalars.classTotal_addClass ..

theorem idleNs_timesStep (mask : UInt32) (t : TimeScalars N) (c : AccumCall) :
    (timesStep num mask t c).idleNs = t.idleNs + num (c.idleNs mask) := by
  have h := timesStep_filed num mask t c
  unfold AccumCall.idleNs AccumCall.filedNs
  rcases hc : c.filed with _ | ⟨ev, ns⟩
  · rw [hc] at h
    simp only [h.2, hnum, add_zero]
  · rw [hc] at h
    simp only [h.2, creditTimes]
    by_cases hi : isIdleEvent mask ev
    · simp only [hi, if_true]
    · simp only [hi, if_false, Bool.false_eq_true, hnum, add_zero]
      rfl

theorem cpuClass_timesStep (mask : UInt32) (t : TimeScalars N) (c : AccumCall) :
    (timesStep num mask t c).classNs .cpu = t.classNs .cpu + num c.onCpuNs := by
  have h := timesStep_filed num mask t c
  unfold AccumCall.onCpuNs AccumCall.filedNs
  rcases hc : c.filed with _ | ⟨ev, ns⟩
  · rw [hc] at h
    simp only [h.1, hnum, add_zero]
  · rw [hc] at h
    simp only [h.1, creditTimes]
    by_cases h0 : ev = 0
    · subst h0
      simp [TimeScalars.addClass, waitClassIndex_eq_cpu.mpr rfl]
    · have hcls : WaitClass.cpu ≠ waitClassIndex ev := fun h =>
        h0 (waitClassIndex_eq_cpu.mp h.symm)
      simp only [h0, decide_false, Bool.false_eq_true, if_false, hnum, add_zero]
      split_ifs
      · rfl
      · exact if_neg hcls

end Scalars

/-! ### The tables -/

section Booked

variable {R : Type} {N : Type} [AddCommMonoid N]

/-- What a call with the cost `ns` does to a table with a counter of refusals: a row takes the cost,
or there is none to take, or it is refused. -/
inductive Booked (w : R → N) (ns : N) (T T' : List R × UInt32) : Prop
  | row {j : ℕ} {r r' : R} (hr : T.1[j]? = some r) (hw : w r' = w r + ns)
      (hT : T' = (T.1.set j r', T.2))
  | nothing (hns : ns = 0) (hT : T' = T)
  | refused (hT : T' = (T.1, T.2 + 1))

variable {w : R → N} {ns : N} {T T' : List R × UInt32}

theorem Booked.sum_eq (h : Booked w ns T T') (hc : T'.2 ≠ T.2 + 1) :
    (T'.1.map w).sum = (T.1.map w).sum + ns := by
  cases h with
  | row hr hw hT =>
    rw [hT]
    exact sum_map_set hr hw
  | nothing hns hT => rw [hT, hns, add_zero]
  | refused hT => exact absurd (by rw [hT]) hc

theorem Booked.part {M : Type} [AddCommMonoid M] (h : Booked w ns T T') (f : N →+ M) :
    Booked (fun r => f (w r)) (f ns) T T' := by
  cases h with
  | row hr hw hT => exact .row hr (by rw [hw, map_add]) hT
  | nothing hns hT => exact .nothing (by rw [hns, map_zero]) hT
  | refused hT => exact .refused hT

theorem Booked.sum_toNat_le {w : R → UInt64} {ns : UInt64} (h : Booked w ns T T') :
    (T'.1.map fun r => (w r).toNat).sum ≤ (T.1.map fun r => (w r).toNat).sum + ns.toNat := by
  cases h with
  | row hr hw hT =>
    rw [hT]
    refine sum_map_set_le hr ?_
    rw [hw, UInt64.toNat_add]
    exact Nat.mod_le _ _
  | nothing _ hT =>
    rw [hT]
    exact Nat.le_add_right ..
  | refused hT =>
    rw [hT]
    exact Nat.le_add_right ..

end Booked

/-- The events with their counter. -/
def SummaryAccum.eventTable (acc : SummaryAccum) : List SummaryEvent × UInt32 :=
  (acc.events, acc.eventsOverflow)

/-- The sessions with their counter. -/
def SummaryAccum.sessionTable (acc : SummaryAccum) : List SummarySession × UInt32 :=
  (acc.sessions, acc.sessionsOverflow)

variable {acc acc₀ : SummaryAccum}

theorem booked_accumEventRow (hacc : acc.eventTable = acc₀.eventTable) (ev : UInt32)
    (dur tns : UInt64) :
    Booked SummaryEvent.totalNs tns acc₀.eventTable (accumEventRow acc ev dur tns).eventTable := by
  rw [← hacc, accumEventRow]
  split
  · exact .refused rfl
  · rename_i acc₁ j h
    obtain ⟨e, he, -, rfl⟩ := findOrInsertEvent_eq_some h
    exact .row he rfl (Prod.ext (modify_set_self he ..) rfl)

theorem booked_creditEventRow (hacc : acc.eventTable = acc₀.eventTable) (we : UInt32)
    (ns : UInt64) :
    Booked SummaryEvent.totalNs ns acc₀.eventTable (creditEventRow acc we ns).eventTable := by
  rw [← hacc, creditEventRow]
  split
  · exact .refused rfl
  · rename_i acc₁ j h
    obtain ⟨e, he, -, rfl⟩ := findOrInsertEvent_eq_some h
    exact .row he rfl (Prod.ext (modify_set_self he ..) rfl)

/-- The DB time and the on-CPU time of a session. -/
def SummarySession.load (s : SummarySession) : UInt64 × UInt64 := (s.dbTimeNs, s.cpuNs)

/-- The load that time under a label is. -/
def loadOf (mask ev : UInt32) (ns : UInt64) : UInt64 × UInt64 :=
  (if isIdleEvent mask ev then 0 else ns, if ev = 0 then ns else 0)

theorem SummarySession.load_addTime (mask : UInt32) (s : SummarySession) (ev : UInt32)
    (tns : UInt64) (measured : Option UInt64) :
    (s.addTime mask ev tns measured).load = s.load + loadOf mask ev tns := by
  refine Prod.ext ?_ ?_
  · simp only [load, addTime, loadOf, Prod.fst_add]
    split_ifs
    · exact (add_zero _).symm
    · rfl
  · simp only [load, addTime, loadOf, Prod.snd_add]
    split_ifs
    · rfl
    · exact (add_zero _).symm

theorem SummarySession.load_addWait (mask : UInt32) (s : SummarySession) (ev : UInt32)
    (dur : UInt64) : (s.addWait mask ev dur).load = s.load := by
  rw [addWait]
  split_ifs <;> rfl

theorem loadOf_of_idle {mask ev : UInt32} (h : isIdleEvent mask ev = true) (ns : UInt64) :
    loadOf mask ev ns = 0 := by
  have h0 : ev ≠ 0 := by
    rintro rfl
    exact absurd h (by simp)
  rw [loadOf, if_pos h, if_neg h0]
  rfl

theorem booked_accumSessionRow (mask : UInt32) (hacc : acc.sessionTable = acc₀.sessionTable)
    (pid ev : UInt32) (dur tns : UInt64) (measured : Option UInt64) :
    Booked SummarySession.load (loadOf mask ev tns) acc₀.sessionTable
      (accumSessionRow mask acc pid ev dur tns measured).sessionTable := by
  rw [← hacc, accumSessionRow]
  split
  · split_ifs with hi
    · exact .nothing (loadOf_of_idle hi tns) rfl
    · exact .refused rfl
  · rename_i acc₁ j h
    obtain ⟨s, hs, -, rfl⟩ := findOrInsertSession_eq_some h
    refine .row hs ?_ (Prod.ext (modify_set_self hs ..) rfl)
    rw [SummarySession.load_addWait, SummarySession.load_addTime]
    rfl

theorem booked_creditSessionRow (mask : UInt32) (hacc : acc.sessionTable = acc₀.sessionTable)
    (pid we : UInt32) (ns : UInt64) (measured : Option UInt64) :
    Booked SummarySession.load (loadOf mask we ns) acc₀.sessionTable
      (creditSessionRow mask acc pid we ns measured).sessionTable := by
  rw [← hacc, creditSessionRow]
  split
  · exact .refused rfl
  · rename_i acc₁ j h
    obtain ⟨s, hs, -, rfl⟩ := findOrInsertSession_eq_some h
    refine .row hs ?_ (Prod.ext (modify_set_self hs ..) rfl)
    rw [SummarySession.load_addTime]
    rfl

/-! ### Rows keep the other table -/

theorem sessionTable_accumEventRow (acc : SummaryAccum) (ev : UInt32) (dur tns : UInt64) :
    (accumEventRow acc ev dur tns).sessionTable = acc.sessionTable := by
  rw [accumEventRow]
  split
  · rfl
  · rename_i acc₁ j h
    obtain ⟨e, -, -, rfl⟩ := findOrInsertEvent_eq_some h
    rfl

theorem sessionTable_creditEventRow (acc : SummaryAccum) (we : UInt32) (ns : UInt64) :
    (creditEventRow acc we ns).sessionTable = acc.sessionTable := by
  rw [creditEventRow]
  split
  · rfl
  · rename_i acc₁ j h
    obtain ⟨e, -, -, rfl⟩ := findOrInsertEvent_eq_some h
    rfl

theorem eventTable_accumSessionRow (mask : UInt32) (acc : SummaryAccum) (pid ev : UInt32)
    (dur tns : UInt64) (measured : Option UInt64) :
    (accumSessionRow mask acc pid ev dur tns measured).eventTable = acc.eventTable := by
  rw [accumSessionRow]
  split
  · split_ifs <;> rfl
  · rename_i acc₁ j h
    obtain ⟨s, -, -, rfl⟩ := findOrInsertSession_eq_some h
    rfl

theorem eventTable_creditSessionRow (mask : UInt32) (acc : SummaryAccum) (pid we : UInt32)
    (ns : UInt64) (measured : Option UInt64) :
    (creditSessionRow mask acc pid we ns measured).eventTable = acc.eventTable := by
  rw [creditSessionRow]
  split
  · rfl
  · rename_i acc₁ j h
    obtain ⟨s, -, -, rfl⟩ := findOrInsertSession_eq_some h
    rfl

theorem tables_accumQueryAdd (mask : UInt32) (acc : SummaryAccum) (queryId : UInt64)
    (ev : UInt32) (count total longest : UInt64) :
    (accumQueryAdd mask acc queryId ev count total longest).eventTable = acc.eventTable ∧
      (accumQueryAdd mask acc queryId ev count total longest).sessionTable =
        acc.sessionTable := by
  rw [accumQueryAdd]
  split
  · exact ⟨rfl, rfl⟩
  · rename_i acc₁ j h
    obtain ⟨-, q, -, -, rfl⟩ := findOrInsertQuery_eq_some h
    exact ⟨rfl, rfl⟩

/-! ### Calls -/

theorem AccumCall.filedNs_of_none {c : AccumCall} (h : c.filed = none) (p : UInt32 → Bool) :
    c.filedNs p = 0 := by
  rw [filedNs, h]

theorem AccumCall.filedNs_of_some {c : AccumCall} {ev : UInt32} {ns : UInt64}
    (h : c.filed = some (ev, ns)) (p : UInt32 → Bool) :
    c.filedNs p = if p ev then ns else 0 := by
  rw [filedNs, h]

theorem tables_of_filed_none (mask : UInt32) (acc : SummaryAccum) {c : AccumCall}
    (h : c.filed = none) :
    (accumStep mask acc c).eventTable = acc.eventTable ∧
      (accumStep mask acc c).sessionTable = acc.sessionTable := by
  cases c with
  | event evt queryId ioWorker effEvent cc =>
    simp only [AccumCall.filed] at h
    rw [accumStep, accumEvent]
    simp only
    split_ifs at h ⊢
    · exact ⟨rfl, rfl⟩
    · exact ⟨rfl, rfl⟩
  | openCredit pid we ns measuredNs measured =>
    simp only [AccumCall.filed] at h
    rw [accumStep, accumOpenCredit]
    split_ifs at h ⊢
    exact ⟨rfl, rfl⟩
  | openCpu measuredNs unknownNs records => exact ⟨rfl, rfl⟩
  | queryAdd queryId ev count total longest => exact tables_accumQueryAdd ..

/-- **What a call does to the events.** -/
theorem events_accumStep (mask : UInt32) (acc : SummaryAccum) (c : AccumCall) :
    Booked SummaryEvent.totalNs (c.dbNs mask + c.idleNs mask) acc.eventTable
      (accumStep mask acc c).eventTable := by
  rcases hc : c.filed with _ | ⟨ev, ns⟩
  · refine .nothing ?_ (tables_of_filed_none mask acc hc).1
    rw [AccumCall.dbNs, AccumCall.idleNs, AccumCall.filedNs_of_none hc,
      AccumCall.filedNs_of_none hc, add_zero]
  have hns : c.dbNs mask + c.idleNs mask = ns := by
    rw [AccumCall.dbNs, AccumCall.idleNs, AccumCall.filedNs_of_some hc,
      AccumCall.filedNs_of_some hc]
    cases isIdleEvent mask ev <;> simp
  rw [hns]
  cases c with
  | event evt queryId ioWorker effEvent cc =>
    simp only [AccumCall.filed] at hc
    rw [accumStep, accumEvent]
    simp only
    split_ifs at hc ⊢
    obtain ⟨rfl, rfl⟩ := Prod.mk.inj (Option.some.inj hc)
    rw [(tables_accumQueryAdd ..).1, eventTable_accumSessionRow]
    exact booked_accumEventRow (by rfl) ..
  | openCredit pid we ns measuredNs measured =>
    simp only [AccumCall.filed] at hc
    rw [accumStep, accumOpenCredit]
    split_ifs at hc with h0
    obtain ⟨rfl, rfl⟩ := Prod.mk.inj (Option.some.inj hc)
    rw [if_neg h0]
    by_cases hi : isIdleEvent mask we = true
    · rw [if_pos hi]
      exact booked_creditEventRow (by rfl) ..
    · rw [if_neg hi, eventTable_creditSessionRow]
      exact booked_creditEventRow (by rfl) ..
  | openCpu measuredNs unknownNs records => exact absurd hc (by simp [AccumCall.filed])
  | queryAdd queryId ev count total longest => exact absurd hc (by simp [AccumCall.filed])

/-- **What a call does to the sessions.** -/
theorem sessions_accumStep (mask : UInt32) (acc : SummaryAccum) (c : AccumCall) :
    Booked SummarySession.load (c.dbNs mask, c.onCpuNs) acc.sessionTable
      (accumStep mask acc c).sessionTable := by
  rcases hc : c.filed with _ | ⟨ev, ns⟩
  · refine .nothing ?_ (tables_of_filed_none mask acc hc).2
    rw [AccumCall.dbNs, AccumCall.onCpuNs, AccumCall.filedNs_of_none hc,
      AccumCall.filedNs_of_none hc]
    rfl
  have hns : (c.dbNs mask, c.onCpuNs) = loadOf mask ev ns := by
    rw [AccumCall.dbNs, AccumCall.onCpuNs, AccumCall.filedNs_of_some hc,
      AccumCall.filedNs_of_some hc, loadOf]
    cases isIdleEvent mask ev <;> simp
  rw [hns]
  cases c with
  | event evt queryId ioWorker effEvent cc =>
    simp only [AccumCall.filed] at hc
    rw [accumStep, accumEvent]
    simp only
    split_ifs at hc ⊢
    obtain ⟨rfl, rfl⟩ := Prod.mk.inj (Option.some.inj hc)
    rw [(tables_accumQueryAdd ..).2]
    exact booked_accumSessionRow mask (by rw [sessionTable_accumEventRow]; rfl) ..
  | openCredit pid we ns measuredNs measured =>
    simp only [AccumCall.filed] at hc
    rw [accumStep, accumOpenCredit]
    split_ifs at hc with h0
    obtain ⟨rfl, rfl⟩ := Prod.mk.inj (Option.some.inj hc)
    rw [if_neg h0]
    by_cases hi : isIdleEvent mask we = true
    · rw [if_pos hi, sessionTable_creditEventRow]
      exact .nothing (loadOf_of_idle hi ns) rfl
    · rw [if_neg hi]
      exact booked_creditSessionRow mask (by rw [sessionTable_creditEventRow]; rfl) ..
  | openCpu measuredNs unknownNs records => exact absurd hc (by simp [AccumCall.filed])
  | queryAdd queryId ev count total longest => exact absurd hc (by simp [AccumCall.filed])

/-! ### Runs -/

/-- The record that calls make. -/
def accumRun (mask : UInt32) (calls : List AccumCall) : SummaryAccum :=
  calls.foldl (accumStep mask) accumReset

theorem accumRun_concat (mask : UInt32) (calls : List AccumCall) (c : AccumCall) :
    accumRun mask (calls ++ [c]) = accumStep mask (accumRun mask calls) c := by
  rw [accumRun, List.foldl_append]
  rfl

/-- A counter of refusals is 0 all along. -/
def NothingRefused (mask : UInt32) (refused : SummaryAccum → UInt32) (calls : List AccumCall) :
    Prop :=
  ∀ pre, pre <+: calls → refused (accumRun mask pre) = 0

instance (mask : UInt32) (refused : SummaryAccum → UInt32) (calls : List AccumCall) :
    Decidable (NothingRefused mask refused calls) :=
  decidable_of_iff (∀ pre ∈ calls.inits, refused (accumRun mask pre) = 0)
    (forall_congr' fun _ => by rw [List.mem_inits])

section Runs

variable {mask : UInt32} {R N : Type} [AddCommMonoid N] (table : SummaryAccum → List R × UInt32)

theorem sum_table_accumRun {w : R → N} {cost : AccumCall → N}
    (hstep : ∀ acc c, Booked w (cost c) (table acc) (table (accumStep mask acc c)))
    (hzero : ((table accumReset).1.map w).sum = 0) (calls : List AccumCall)
    (hkept : NothingRefused mask (fun acc => (table acc).2) calls) :
    ((table (accumRun mask calls)).1.map w).sum = (calls.map cost).sum := by
  induction calls using List.reverseRecOn with
  | nil => exact hzero
  | append_singleton calls c ih =>
    have hnow := hkept _ (List.prefix_refl _)
    have hbefore : (table (accumRun mask calls)).2 = 0 := hkept calls (List.prefix_append ..)
    simp only [accumRun_concat] at hnow ⊢
    have hstay : (table (accumStep mask (accumRun mask calls) c)).2 ≠
        (table (accumRun mask calls)).2 + 1 := by
      rw [hnow, hbefore]
      decide
    rw [(hstep _ c).sum_eq hstay, ih fun pre hpre => hkept pre (hpre.trans (List.prefix_append ..)),
      List.map_append, List.sum_append, List.map_singleton, List.sum_singleton]

theorem sum_table_toNat_le {w : R → UInt64} {cost : AccumCall → UInt64}
    (hstep : ∀ acc c, Booked w (cost c) (table acc) (table (accumStep mask acc c)))
    (hzero : ((table accumReset).1.map fun r => (w r).toNat).sum = 0) (calls : List AccumCall) :
    ((table (accumRun mask calls)).1.map fun r => (w r).toNat).sum ≤
      (calls.map fun c => (cost c).toNat).sum := by
  induction calls using List.reverseRecOn with
  | nil => exact hzero.le
  | append_singleton calls c ih =>
    rw [accumRun_concat, List.map_append, List.sum_append, List.map_singleton,
      List.sum_singleton]
    exact (hstep _ c).sum_toNat_le.trans (Nat.add_le_add_right ih _)

theorem foldl_timesStep [One N] (mask : UInt32) (num : UInt64 → N) (hnum : num 0 = 0)
    (calls : List AccumCall) :
    (calls.foldl (timesStep num mask) TimeScalars.zero).classTotal =
        (calls.map fun c => num (c.dbNs mask)).sum ∧
      (calls.foldl (timesStep num mask) TimeScalars.zero).idleNs =
        (calls.map fun c => num (c.idleNs mask)).sum ∧
      (calls.foldl (timesStep num mask) TimeScalars.zero).classNs .cpu =
        (calls.map fun c => num c.onCpuNs).sum := by
  induction calls using List.reverseRecOn with
  | nil => exact ⟨by simp [TimeScalars.classTotal, TimeScalars.zero], rfl, rfl⟩
  | append_singleton calls c ih =>
    obtain ⟨hclass, hidle, hcpu⟩ := ih
    simp only [List.foldl_append, List.foldl_cons, List.foldl_nil, List.map_append,
      List.sum_append, List.map_singleton, List.sum_singleton]
    exact ⟨by rw [classTotal_timesStep hnum, hclass], by rw [idleNs_timesStep hnum, hidle],
      by rw [cpuClass_timesStep hnum, hcpu]⟩

end Runs

theorem times_accumRun (mask : UInt32) (calls : List AccumCall) :
    (accumRun mask calls).times = calls.foldl (timesStep (fun x => x) mask) TimeScalars.zero := by
  induction calls using List.reverseRecOn with
  | nil => rfl
  | append_singleton calls c ih =>
    rw [accumRun_concat, times_accumStep, ih, List.foldl_append]
    rfl

theorem dbTime_accumStep (mask : UInt32) (acc : SummaryAccum) (c : AccumCall) :
    Booked SummarySession.dbTimeNs (c.dbNs mask) acc.sessionTable
      (accumStep mask acc c).sessionTable :=
  (sessions_accumStep mask acc c).part (AddMonoidHom.fst UInt64 UInt64)

theorem cpu_accumStep (mask : UInt32) (acc : SummaryAccum) (c : AccumCall) :
    Booked SummarySession.cpuNs c.onCpuNs acc.sessionTable (accumStep mask acc c).sessionTable :=
  (sessions_accumStep mask acc c).part (AddMonoidHom.snd UInt64 UInt64)

theorem sum_replicate_zero {R N : Type} [AddCommMonoid N] {w : R → N} {r : R} (h : w r = 0)
    (n : ℕ) : ((List.replicate n r).map w).sum = 0 := by
  rw [List.map_replicate, h, List.sum_replicate, nsmul_zero]

/-! ### The accounts agree -/

/-- The three accounts of a record agree, with its words read by `num`: the classes with the
sessions while no session was refused, the events with the classes and the idle time while no event
was. -/
def AccountsAgree {N : Type} [Add N] [Zero N] (num : UInt64 → N) (mask : UInt32)
    (calls : List AccumCall) : Prop :=
  let acc := accumRun mask calls
  let classTotal := (classOrder.map fun c => num (acc.times.classNs c)).sum
  (NothingRefused mask SummaryAccum.sessionsOverflow calls →
    classTotal = (acc.sessions.map fun s => num s.dbTimeNs).sum ∧
      num (acc.times.classNs .cpu) = (acc.sessions.map fun s => num s.cpuNs).sum) ∧
  (NothingRefused mask SummaryAccum.eventsOverflow calls →
    (acc.events.map fun e => num e.totalNs).sum = classTotal + num acc.times.idleNs)

theorem accountsAgree_words (mask : UInt32) (calls : List AccumCall) :
    AccountsAgree (fun x => x) mask calls := by
  obtain ⟨hclass, hidle, hcpu⟩ :=
    foldl_timesStep mask (fun x : UInt64 => x) rfl calls
  rw [← times_accumRun] at hclass hidle hcpu
  refine ⟨fun hkept => ⟨?_, ?_⟩, fun hkept => ?_⟩
  · exact hclass.trans (sum_table_accumRun SummaryAccum.sessionTable
      (dbTime_accumStep mask) (sum_replicate_zero (by rfl) _) calls hkept).symm
  · exact hcpu.trans (sum_table_accumRun SummaryAccum.sessionTable
      (cpu_accumStep mask) (sum_replicate_zero (by rfl) _) calls hkept).symm
  · refine (sum_table_accumRun SummaryAccum.eventTable (events_accumStep mask)
      (sum_replicate_zero (by rfl) _) calls hkept).trans ?_
    rw [List.sum_map_add, ← hclass, ← hidle]
    rfl

section Bounds

variable (mask : UInt32) (calls : List AccumCall)

theorem classWords_le :
    (classOrder.map fun c => ((accumRun mask calls).times.classNs c).toNat).sum ≤
      (recordTimes mask calls).classTotal := by
  refine List.sum_le_sum fun c _ => ?_
  rw [accumRun, times_foldl_accumStep, TimeScalars.lowBits, UInt64.toNat_ofNat']
  exact Nat.mod_le _ _

theorem idleWord_le :
    (accumRun mask calls).times.idleNs.toNat ≤ (recordTimes mask calls).idleNs := by
  rw [accumRun, times_foldl_accumStep, TimeScalars.lowBits, UInt64.toNat_ofNat']
  exact Nat.mod_le _ _

theorem dbWords_le : ((accumRun mask calls).sessions.map fun s => s.dbTimeNs.toNat).sum ≤
    (recordTimes mask calls).classTotal := by
  refine (sum_table_toNat_le SummaryAccum.sessionTable (dbTime_accumStep mask)
    (sum_replicate_zero (by rfl) _) calls).trans_eq ?_
  exact (foldl_timesStep mask UInt64.toNat rfl calls).1.symm

theorem cpuWords_le : ((accumRun mask calls).sessions.map fun s => s.cpuNs.toNat).sum ≤
    (recordTimes mask calls).classTotal := by
  refine (sum_table_toNat_le SummaryAccum.sessionTable (cpu_accumStep mask)
    (sum_replicate_zero (by rfl) _) calls).trans ?_
  rw [← (foldl_timesStep mask UInt64.toNat rfl calls).2.2]
  exact List.single_le_sum (fun _ _ => Nat.zero_le _) _
    (List.mem_map.mpr ⟨.cpu, List.mem_cons_self, rfl⟩)

theorem eventWords_le : ((accumRun mask calls).events.map fun e => e.totalNs.toNat).sum ≤
    (recordTimes mask calls).classTotal + (recordTimes mask calls).idleNs := by
  obtain ⟨hclass, hidle, -⟩ := foldl_timesStep mask UInt64.toNat rfl calls
  refine (sum_table_toNat_le SummaryAccum.eventTable (events_accumStep mask)
    (sum_replicate_zero (by rfl) _) calls).trans ?_
  rw [recordTimes, hclass, hidle, ← List.sum_map_add]
  refine List.sum_le_sum fun c _ => ?_
  rw [UInt64.toNat_add]
  exact Nat.mod_le _ _

end Bounds

/-- **The accounts of a record agree** in its 64-bit words, whatever the calls are; as numbers too,
as long as the time of the record fits in a word. -/
theorem record_consistent (mask : UInt32) (calls : List AccumCall) :
    AccountsAgree (fun x => x) mask calls ∧
      ((recordTimes mask calls).classTotal + (recordTimes mask calls).idleNs < 2 ^ 64 →
        AccountsAgree UInt64.toNat mask calls) := by
  refine ⟨accountsAgree_words mask calls, fun hfits => ?_⟩
  obtain ⟨hsessions, hevents⟩ := accountsAgree_words mask calls
  have hclass := classWords_le mask calls
  have hidle := idleWord_le mask calls
  have hwords := (toNat_sum_map_eq_iff (accumRun mask calls).times.classNs classOrder).mpr
    (by omega)
  refine ⟨fun hkept => ⟨?_, ?_⟩, fun hkept => ?_⟩
  · have hdb := dbWords_le mask calls
    rw [← hwords, ← (toNat_sum_map_eq_iff SummarySession.dbTimeNs _).mpr (by omega)]
    exact congrArg UInt64.toNat (hsessions hkept).1
  · have hcpu := cpuWords_le mask calls
    rw [← (toNat_sum_map_eq_iff SummarySession.cpuNs _).mpr (by omega)]
    exact congrArg UInt64.toNat (hsessions hkept).2
  · have hev := eventWords_le mask calls
    have hwordsum : ((accumRun mask calls).events.map SummaryEvent.totalNs).sum =
        (classOrder.map (accumRun mask calls).times.classNs).sum +
          (accumRun mask calls).times.idleNs := hevents hkept
    have hsum := congrArg UInt64.toNat hwordsum
    rw [UInt64.toNat_add, hwords, Nat.mod_eq_of_lt (by omega)] at hsum
    rw [← (toNat_sum_map_eq_iff SummaryEvent.totalNs _).mpr (by omega)]
    exact hsum

/-- The share of an open on-CPU interval, the record that closes it, and an idle wait. -/
theorem record_consistent_threeCalls :
    let calls := [AccumCall.openCredit 42 0 2000 500 true,
      .event ⟨9000, 42, 0, 0x0A000015, 0, 5000, 7, 3000⟩ 7 false 0
        { alreadyNs := 2000 },
      .openCredit 43 weiClientRead 900 0 false]
    (NothingRefused 0 SummaryAccum.sessionsOverflow calls ∧
      NothingRefused 0 SummaryAccum.eventsOverflow calls ∧
      ((accumRun 0 calls).sessions.map fun s => s.cpuNs.toNat).sum = 5000) ∧
    AccountsAgree UInt64.toNat 0 calls :=
  ⟨by decide +kernel, (record_consistent _ _).2 (by decide +kernel)⟩

end PgWaitTracer
