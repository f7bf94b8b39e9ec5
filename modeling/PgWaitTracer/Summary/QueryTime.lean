import PgWaitTracer.Live.Accum
import PgWaitTracer.Summary.WriteOnce

/-!
# Time that is filed under a query

A record that closes without a query id waits on its process until the process reports one
(`summary_qattr_step`, `src/summary_writer.c`; `src/query_attr.h`). It waits under the id it has in
the stream, not under the effective id that it was pushed with. Time outside commands, which is
idle, is time on CPU there.

What waits is kept as sums. Which records a sum is of (`parked`), and what was filed so far
(`emitted`), is kept here besides, so that time can be traced back to its record.

## Main results

* `noncmd_notFiled`: time outside commands that is not put off is under no query.
-/

namespace PgWaitTracer

open LinearProbe

/-! ### What waits -/

/-- The arguments of `pgwt_summary_push_event`. -/
structure PushCall where
  evt : TraceEvent
  catFlag : UInt32
  effEvent : UInt32
  deriving DecidableEq, Repr

/-- The record, with what `summary_qattr_step` made of it. -/
def PushCall.pushed (c : PushCall) (queryId : UInt64) (deferred : List DeferredQuery) :
    PushedEvent := ⟨c.evt, c.catFlag, c.effEvent, queryId, deferred⟩

/-- The effective id. -/
def PushCall.eff (c : PushCall) : UInt32 := (c.pushed 0 []).eff

/-- The record is of an I/O worker. -/
def PushCall.ioWorker (c : PushCall) : Bool := (c.pushed 0 []).ioWorker

/-- A sum that is filed, and the records it is of. -/
structure QueryEmission where
  row : QueryEventStats
  records : List PushCall

/-- The sum as the accumulator gets it. Sums wrap around there. -/
def QueryEmission.deferred (e : QueryEmission) : DeferredQuery :=
  ⟨e.row.queryId, e.row.waitEvent, .ofNat e.row.count, .ofNat e.row.totalNs, .ofNat e.row.maxNs⟩

/-- The call of `accum_query_add`. -/
def QueryEmission.call (e : QueryEmission) : AccumCall :=
  .queryAdd e.deferred.queryId e.deferred.ev e.deferred.count e.deferred.totalNs
    e.deferred.longestNs

/-- `struct pgwt_summary_qattr_slot`, with the records that wait. -/
structure QattrSlot where
  pid : UInt32 := 0
  q : QattrPid := {}
  parked : List PushCall := []

namespace QattrSlot

/-- Sums of what waits, with their records. -/
def emissions (s : QattrSlot) (rows : List QueryEventStats) : List QueryEmission :=
  rows.map fun r => ⟨r, s.parked.filter fun c => c.evt.oldEvent = r.waitEvent⟩

/-- `pgwt_qattr_boundary`. -/
def boundary (s : QattrSlot) (newCommand : Bool) : QattrSlot × List QueryEmission :=
  ({ s with q := (s.q.boundary newCommand).1, parked := [] },
    s.emissions (s.q.boundary newCommand).2)

/-- `pgwt_qattr_observe`. -/
def observe (s : QattrSlot) (queryId : UInt64) : QattrSlot × List QueryEmission :=
  ({ s with
      q := (s.q.observe queryId).1
      parked := if queryId = 0 then s.parked else [] },
    s.emissions (s.q.observe queryId).2)

/-- `pgwt_qattr_defer`. A full list spills first. -/
def defer (s : QattrSlot) (c : PushCall) : QattrSlot × List QueryEmission :=
  let r := s.q.defer c.evt.oldEvent c.evt.durationNs.toNat
  ({ s with q := r.1, parked := (if r.2.2 then [] else s.parked) ++ [c] }, s.emissions r.2.1)

/-- The record on its process, up to an exit: the branches of `summary_qattr_step`. -/
def resolve (s : QattrSlot) (c : PushCall) : QattrSlot × List QueryEmission :=
  let we := c.evt.oldEvent
  if isMarker we then
    if we = markerCmdStart then s.boundary true
    else if c.evt.queryId ≠ 0 then s.observe c.evt.queryId
    else if we = markerCmdEnd then s.boundary false
    else (s, [])
  else if c.evt.queryId ≠ 0 then s.observe c.evt.queryId
  else if c.catFlag &&& (flagBackground ||| flagMaint) ≠ 0 then (s, [])
  else if c.catFlag ≠ 0 then (s, [])
  else if isSessionIdleEvent we then s.boundary false
  else s.defer c

/-- The exit of the process ends what waits. -/
def exit (s : QattrSlot) (c : PushCall) : QattrSlot × List QueryEmission :=
  if c.evt.newEvent = eventExit then s.boundary true else (s, [])

/-- The slot after a record, and what it files. -/
def step (s : QattrSlot) (c : PushCall) : QattrSlot × List QueryEmission :=
  (((s.resolve c).1.exit c).1, (s.resolve c).2 ++ ((s.resolve c).1.exit c).2)

end QattrSlot

/-- The query a record is filed under at once. -/
def PushCall.queryNow (c : PushCall) : UInt64 :=
  if isMarker c.evt.oldEvent then 0 else c.evt.queryId

/-- Busy time of background work without a query. -/
def PushCall.unattributedNs (mask : UInt32) (c : PushCall) : UInt64 :=
  if isMarker c.evt.oldEvent ∨ c.evt.queryId ≠ 0 ∨
      c.catFlag &&& (flagBackground ||| flagMaint) = 0 ∨ isIdleEvent mask c.evt.oldEvent then 0
  else c.evt.durationNs

/-! ### The table of processes -/

/-- `SUMMARY_QATTR_SLOTS`. -/
def summaryQattrSlots : ℕ := 1024

/-- What waits, by process, and the two counters. -/
structure SummaryQattr where
  slots : List QattrSlot := List.replicate summaryQattrSlots {}
  tableFull : ℕ := 0
  unattributedNs : UInt64 := 0

namespace SummaryQattr

/-- `qattr_slot`: the slot of a process, which is new in the table or not. -/
def slot (t : SummaryQattr) (pid : UInt32) : SummaryQattr × Option ℕ :=
  if pid = 0 then (t, none)
  else
    match probe (fun s => s.pid = pid || s.pid = 0) t.slots (hash32 pid).toNat with
    | none => ({ t with tableFull := t.tableFull + 1 }, none)
    | some j =>
      if (t.slots[j]?).any fun s => s.pid = pid then (t, some j)
      else ({ t with slots := t.slots.set j { pid := pid } }, some j)

/-- The home of the slot at `i` is after the hole, going round. -/
def homeBetween (hole home i : ℕ) : Bool :=
  if hole ≤ i then hole < home && home ≤ i else hole < home || home ≤ i

/-- The loop of `qattr_slot_free`: a slot moves into the hole if its home is not after it. -/
def closeGap : ℕ → List QattrSlot → ℕ → ℕ → List QattrSlot
  | 0, slots, hole, _ => slots.set hole {}
  | n + 1, slots, hole, i =>
    let i := (i + 1) % slots.length
    let s := slots.getD i {}
    if s.pid = 0 then slots.set hole {}
    else if homeBetween hole ((hash32 s.pid).toNat % slots.length) i then closeGap n slots hole i
    else closeGap n (slots.set hole s) i i

/-- `qattr_slot_free`. -/
def free (t : SummaryQattr) (j : ℕ) : SummaryQattr :=
  { t with slots := closeGap (t.slots.length - 1) t.slots j j }

/-- `summary_qattr_emit` of sums without a query: they are counted. -/
def unattributed (t : SummaryQattr) (es : List QueryEmission) : SummaryQattr :=
  { t with unattributedNs := t.unattributedNs +
      ((es.filter fun e => e.row.queryId = 0).map fun e => e.deferred.totalNs).sum }

end SummaryQattr

/-- `summary_qattr_step`: the table, the sums that are filed under a query, and the query the record
is filed under. -/
def summaryQattrStep (mask : UInt32) (t : SummaryQattr) (c : PushCall) :
    SummaryQattr × List QueryEmission × UInt64 :=
  if c.evt.oldEvent = markerEscalateStart ∨ c.evt.oldEvent = markerEscalateEnd then
    (t, [], c.evt.queryId)
  else
    match t.slot c.evt.pid with
    | (t, none) => (t, [], c.evt.queryId)
    | (t, some j) =>
      let r := (t.slots.getD j {}).step c
      let t := { t.unattributed r.2 with slots := t.slots.set j r.1 }
      let t := { t with unattributedNs := t.unattributedNs + c.unattributedNs mask }
      (if c.evt.newEvent = eventExit then t.free j else t,
        r.2.filter fun e => e.row.queryId ≠ 0, c.queryNow)

/-- The exit of an I/O worker gives its slot back, and files nothing. -/
def releaseIoWorker (t : SummaryQattr) (c : PushCall) : SummaryQattr :=
  if c.evt.newEvent = eventExit then
    match t.slot c.evt.pid with
    | (t, none) => t
    | (t, some j) => t.free j
  else t

/-! ### The writer -/

/-- The writer, and what waits if there was memory for it. -/
structure SummaryRun where
  file : FileWriter := {}
  qattr : Option SummaryQattr
  emitted : List QueryEmission := []

/-- The attribution of a record: what waits after it, what is filed, and its own query. -/
def attributeQuery (mask : UInt32) (qattr : Option SummaryQattr) (c : PushCall) :
    Option SummaryQattr × List QueryEmission × UInt64 :=
  match qattr with
  | none => (none, [], c.evt.queryId)
  | some t =>
    if c.ioWorker then (some (releaseIoWorker t c), [], c.evt.queryId)
    else
      let r := summaryQattrStep mask t c
      (some r.1, r.2.1, r.2.2)

/-- `pgwt_summary_push_event`. -/
def SummaryRun.pushEvent (mask : UInt32) (env : Faults) (s : SummaryRun) (c : PushCall) :
    SummaryRun :=
  if !s.file.enabled || !(s.file.openCounted env).2 then
    { s with file := s.file.pushEvent mask env (c.pushed 0 []) }
  else
    let r := attributeQuery mask s.qattr c
    { file := s.file.pushEvent mask env (c.pushed r.2.2 (r.2.1.map QueryEmission.deferred))
      qattr := r.1
      emitted := s.emitted ++ r.2.1 }

/-- A call of the producer. -/
inductive SummaryCall
  | pushEvent (c : PushCall)
  | noteOpenEx (pid we : UInt32) (startNs : ℕ) (catFlag : UInt32) (nowNs : ℕ) (cpu : Option OpenCpu)
  | flushCompleted (nowNs : ℕ)
  | flush
  | checkRotation (hourChanged : Bool)
  | close

/-- The writer after a call. -/
def summaryStep (mask : UInt32) (env : Faults) (s : SummaryRun) : SummaryCall → SummaryRun
  | .pushEvent c => s.pushEvent mask env c
  | .noteOpenEx pid we startNs catFlag nowNs cpu =>
    { s with file := fileWriterStep mask env s.file (.noteOpenEx pid we startNs catFlag nowNs cpu) }
  | .flushCompleted nowNs =>
    { s with file := fileWriterStep mask env s.file (.flushCompleted nowNs) }
  | .flush => { s with file := fileWriterStep mask env s.file .flush }
  | .checkRotation hourChanged =>
    { s with file := fileWriterStep mask env s.file (.checkRotation hourChanged) }
  | .close => { s with file := fileWriterStep mask env s.file .close }

/-- The writer before the first call; `qattr` is there if there was memory for it. -/
def SummaryRun.start (hasMemory : Bool) : SummaryRun :=
  { qattr := if hasMemory then some {} else none }

/-- The writer after calls. -/
def summaryRun (mask : UInt32) (env : Faults) (hasMemory : Bool) (ops : List SummaryCall) :
    SummaryRun := ops.foldl (summaryStep mask env) (.start hasMemory)

/-! ### Time of queries -/

/-- The call adds to `total_ns` and `class_ns` of a query: idle time is kept apart there. -/
def AccumCall.filesTime (mask : UInt32) : AccumCall → Bool
  | .event _ queryId ioWorker effEvent cc =>
    let ev := cc.label effEvent
    queryId ≠ 0 && !(ev = eventExit || isMarker ev) && !ioWorker && !isIdleEvent mask ev
  | .queryAdd queryId ev _ _ _ => queryId ≠ 0 && !isIdleEvent mask ev
  | .openCredit .. => false
  | .openCpu .. => false

/-- The records whose time a call of a run adds: the one that it closes, or those of a sum. -/
inductive CarriesTimeOf (s : SummaryRun) (c : AccumCall) (p : PushCall) : Prop
  | close (queryId : UInt64) (cc : AccumCloseCtx)
      (h : c = .event p.evt queryId p.ioWorker p.eff cc)
  | emission (e : QueryEmission) (he : e ∈ s.emitted) (h : c = e.call) (hp : p ∈ e.records)

/-- The record waits for a query id. -/
structure PushCall.Waits (c : PushCall) : Prop where
  queryId : c.evt.queryId = 0
  catFlag : c.catFlag = 0
  marker : isMarker c.evt.oldEvent = false
  busy : isSessionIdleEvent c.evt.oldEvent = false

/-- The record is put off: there is a slot for its process. -/
def PutOff (qattr : Option SummaryQattr) (c : PushCall) : Prop :=
  c.Waits ∧ ∃ t, qattr = some t ∧ (t.slot c.evt.pid).2.isSome = true

/-- **The condition on a step.** A record of time outside commands is not put off under an id that
is busy. -/
def SummaryCall.KeepsNoncmd (mask : UInt32) (env : Faults) (s : SummaryRun) (op : SummaryCall) :
    Prop :=
  ∀ c, op = .pushEvent c → c.effEvent = weiNoncmdCpu → s.file.enabled = true →
    (s.file.openCounted env).2 = true → PutOff s.qattr c → isIdleEvent mask c.evt.oldEvent = true

/-- The call notes an open interval. -/
def SummaryCall.isNote : SummaryCall → Bool
  | .noteOpenEx .. => true
  | _ => false

/-! ### Calls that file no time -/

variable {c : AccumCall} {P : PushCall → Prop} {acc acc₁ : SummaryAccum} {mask : UInt32}

/-! ### What waits, and of which records -/

/-- A sum is of records with a property that waited under its event. -/
structure QueryEmission.Ok (P : PushCall → Prop) (e : QueryEmission) : Prop where
  waits : ∀ c ∈ e.records, c.Waits ∧ P c ∧ c.evt.oldEvent = e.row.waitEvent
  count : e.row.count = e.records.length
  totalNs : e.row.totalNs = (e.records.map fun c => c.evt.durationNs.toNat).sum

/-- The records under an event. -/
def parkedUnder (parked : List PushCall) (we : UInt32) : List PushCall :=
  parked.filter fun c => c.evt.oldEvent = we

/-- What waits on a process is the sums of the records that wait on it, which have a property. -/
structure QattrSlot.Ok (P : PushCall → Prop) (s : QattrSlot) : Prop where
  waits : ∀ c ∈ s.parked, c.Waits ∧ P c
  nodup : (s.q.pending.map QattrPending.we).Nodup
  under : ∀ c ∈ s.parked, c.evt.oldEvent ∈ s.q.pending.map QattrPending.we
  count : ∀ p ∈ s.q.pending, p.count = (parkedUnder s.parked p.we).length
  totalNs : ∀ p ∈ s.q.pending,
    p.totalNs = ((parkedUnder s.parked p.we).map fun c => c.evt.durationNs.toNat).sum

namespace QattrSlot

variable {P : PushCall → Prop}

theorem ok_empty (pid : UInt32) : ({ pid := pid } : QattrSlot).Ok P :=
  ⟨nofun, List.nodup_nil, nofun, nofun, nofun⟩

variable {s : QattrSlot} {c : PushCall}

theorem Ok.emissions (h : s.Ok P) (qid : UInt64) :
    ∀ e ∈ s.emissions (s.q.pending.map (·.row qid)), e.Ok P := by
  intro e he
  rw [QattrSlot.emissions, List.map_map] at he
  obtain ⟨p, hp, rfl⟩ := List.mem_map.1 he
  refine ⟨fun c hc => ?_, h.count p hp, h.totalNs p hp⟩
  obtain ⟨hmem, hwe⟩ := List.mem_filter.1 hc
  exact ⟨(h.waits c hmem).1, (h.waits c hmem).2, of_decide_eq_true hwe⟩

theorem Ok.boundary (h : s.Ok P) (b : Bool) :
    (s.boundary b).1.Ok P ∧ ∀ e ∈ (s.boundary b).2, e.Ok P := by
  refine ⟨?_, h.emissions s.q.cmdQid⟩
  cases b
  · exact ⟨nofun, List.nodup_nil, nofun, nofun, nofun⟩
  · exact ⟨nofun, List.nodup_nil, nofun, nofun, nofun⟩

theorem Ok.observe (h : s.Ok P) (qid : UInt64) :
    (s.observe qid).1.Ok P ∧ ∀ e ∈ (s.observe qid).2, e.Ok P := by
  rw [QattrSlot.observe, QattrPid.observe]
  split_ifs
  · exact ⟨⟨h.waits, h.nodup, h.under, h.count, h.totalNs⟩, nofun⟩
  · exact ⟨⟨nofun, List.nodup_nil, nofun, nofun, nofun⟩, h.emissions qid⟩

theorem mem_addPending {we : UInt32} {x : QattrPending} {ps : List QattrPending}
    (h : (ps.map QattrPending.we).Nodup) {p : QattrPending}
    (hp : p ∈ QattrPid.addPending we x ps) :
    p ∈ ps ∧ p.we ≠ we ∨
      (∃ p' ∈ ps, p'.we = we ∧ p = p'.add x) ∨
      we ∉ ps.map QattrPending.we ∧ p = (QattrPending.fresh we).add x := by
  induction ps with
  | nil => exact Or.inr (Or.inr ⟨nofun, List.mem_singleton.1 hp⟩)
  | cons s ps ih =>
    rw [List.map_cons, List.nodup_cons] at h
    rw [QattrPid.addPending] at hp
    split_ifs at hp with hs
    · rcases List.mem_cons.1 hp with rfl | hp
      · exact Or.inr (Or.inl ⟨s, List.mem_cons_self, hs, rfl⟩)
      · refine Or.inl ⟨List.mem_cons_of_mem _ hp, fun heq => h.1 ?_⟩
        rw [hs, ← heq]
        exact List.mem_map_of_mem hp
    · rcases List.mem_cons.1 hp with rfl | hp
      · exact Or.inl ⟨List.mem_cons_self, hs⟩
      · rcases ih h.2 hp with ⟨hmem, hne⟩ | ⟨p', hmem, hwe, heq⟩ | ⟨hnew, heq⟩
        · exact Or.inl ⟨List.mem_cons_of_mem _ hmem, hne⟩
        · exact Or.inr (Or.inl ⟨p', List.mem_cons_of_mem _ hmem, hwe, heq⟩)
        · refine Or.inr (Or.inr ⟨?_, heq⟩)
          rw [List.map_cons, List.mem_cons, not_or]
          exact ⟨fun heq => hs heq.symm, hnew⟩

theorem we_addPending (we : UInt32) (ns : ℕ) (ps : List QattrPending) :
    (QattrPid.addPending we (.one we ns) ps).map QattrPending.we =
      if we ∈ ps.map QattrPending.we then ps.map QattrPending.we
      else ps.map QattrPending.we ++ [we] := by
  induction ps with
  | nil => rfl
  | cons s ps ih =>
    rw [QattrPid.addPending]
    by_cases hs : s.we = we
    · rw [if_pos hs, if_pos (by rw [List.map_cons, hs]; exact List.mem_cons_self)]
      rfl
    · rw [if_neg hs, List.map_cons, List.map_cons, ih]
      by_cases hmem : we ∈ ps.map QattrPending.we
      · rw [if_pos hmem, if_pos (List.mem_cons_of_mem _ hmem)]
      · rw [if_neg hmem, if_neg (by simp [hmem, Ne.symm hs]), List.cons_append]

/-- A record more waits. -/
theorem Ok.add (h : s.Ok P) (hc : c.Waits ∧ P c) :
    ({ s with
        q := { s.q with
          pending := QattrPid.addPending c.evt.oldEvent
            (.one c.evt.oldEvent c.evt.durationNs.toNat) s.q.pending }
        parked := s.parked ++ [c] } : QattrSlot).Ok P := by
  have hwe := we_addPending c.evt.oldEvent c.evt.durationNs.toNat s.q.pending
  have hnil : c.evt.oldEvent ∉ s.q.pending.map QattrPending.we →
      parkedUnder s.parked c.evt.oldEvent = [] := fun hnew =>
    List.filter_eq_nil_iff.2 fun c' hc' heq =>
      hnew (of_decide_eq_true heq ▸ h.under c' hc')
  have hsame : parkedUnder (s.parked ++ [c]) c.evt.oldEvent =
      parkedUnder s.parked c.evt.oldEvent ++ [c] := by
    simp [parkedUnder]
  have hother : ∀ we, we ≠ c.evt.oldEvent →
      parkedUnder (s.parked ++ [c]) we = parkedUnder s.parked we := by
    intro we hne
    simp [parkedUnder, hne.symm]
  refine ⟨?_, ?_, ?_, ?_, ?_⟩
  · intro c' hc'
    rcases List.mem_append.1 hc' with hc' | hc'
    · exact h.waits c' hc'
    · rwa [List.mem_singleton.1 hc']
  · rw [hwe]
    split_ifs with hmem
    · exact h.nodup
    · exact List.nodup_append.2 ⟨h.nodup, List.nodup_singleton _, fun a ha b hb => by
        rw [List.mem_singleton.1 hb]
        exact fun heq => hmem (heq ▸ ha)⟩
  · intro c' hc'
    rw [hwe]
    rcases List.mem_append.1 hc' with hc' | hc'
    · split_ifs
      · exact h.under c' hc'
      · exact List.mem_append_left _ (h.under c' hc')
    · rw [List.mem_singleton.1 hc']
      split_ifs with hmem
      · exact hmem
      · exact List.mem_append_right _ (List.mem_singleton_self _)
  · intro p hp
    rcases mem_addPending h.nodup hp with ⟨hmem, hne⟩ | ⟨p', hmem, hwe', rfl⟩ | ⟨hnew, rfl⟩
    · rw [hother _ hne]
      exact h.count p hmem
    · change p'.count + 1 = (parkedUnder (s.parked ++ [c]) p'.we).length
      rw [h.count p' hmem, hwe', hsame, List.length_append]
      rfl
    · change 0 + 1 = (parkedUnder (s.parked ++ [c]) c.evt.oldEvent).length
      rw [hsame, hnil hnew]
      rfl
  · intro p hp
    rcases mem_addPending h.nodup hp with ⟨hmem, hne⟩ | ⟨p', hmem, hwe', rfl⟩ | ⟨hnew, rfl⟩
    · rw [hother _ hne]
      exact h.totalNs p hmem
    · change p'.totalNs + c.evt.durationNs.toNat = ((parkedUnder (s.parked ++ [c]) p'.we).map _).sum
      rw [h.totalNs p' hmem, hwe', hsame, List.map_append, List.sum_append]
      rfl
    · change 0 + c.evt.durationNs.toNat =
        ((parkedUnder (s.parked ++ [c]) c.evt.oldEvent).map _).sum
      rw [hsame, hnil hnew, List.nil_append, List.map_singleton, List.sum_singleton, Nat.zero_add]

theorem Ok.defer (h : s.Ok P) (hc : c.Waits ∧ P c) :
    (s.defer c).1.Ok P ∧ ∀ e ∈ (s.defer c).2, e.Ok P := by
  rw [QattrSlot.defer, QattrPid.defer, QattrPid.deferStats]
  split
  · have hempty : ({ s with q := (s.q.flush 0).1, parked := [] } : QattrSlot).Ok P :=
      ⟨nofun, List.nodup_nil, nofun, nofun, nofun⟩
    exact ⟨hempty.add hc, h.emissions 0⟩
  · exact ⟨h.add hc, nofun⟩

/-- **One record on its process.** -/
theorem Ok.step (h : s.Ok P) (hc : c.Waits → P c) :
    (s.step c).1.Ok P ∧ ∀ e ∈ (s.step c).2, e.Ok P := by
  have hresolve : (s.resolve c).1.Ok P ∧ ∀ e ∈ (s.resolve c).2, e.Ok P := by
    rw [QattrSlot.resolve]
    split_ifs with hmarker h₁ h₂ h₃ hquery hwork hcat hidle
    · exact h.boundary true
    · exact h.observe _
    · exact h.boundary false
    · exact ⟨h, nofun⟩
    · exact h.observe _
    · exact ⟨h, nofun⟩
    · exact ⟨h, nofun⟩
    · exact h.boundary false
    · have hwaits : c.Waits :=
        ⟨not_not.1 hquery, not_not.1 hcat, by simpa using hmarker, by simpa using hidle⟩
      exact h.defer ⟨hwaits, hc hwaits⟩
  have hexit : ((s.resolve c).1.exit c).1.Ok P ∧ ∀ e ∈ ((s.resolve c).1.exit c).2, e.Ok P := by
    rw [QattrSlot.exit]
    split_ifs
    · exact hresolve.1.boundary true
    · exact ⟨hresolve.1, nofun⟩
  refine ⟨hexit.1, fun e he => ?_⟩
  rcases List.mem_append.1 he with he | he
  · exact hresolve.2 e he
  · exact hexit.2 e he

end QattrSlot

/-! ### The table -/

namespace SummaryQattr

/-- Every slot has sums of its records. -/
def Ok (P : PushCall → Prop) (t : SummaryQattr) : Prop := ∀ s ∈ t.slots, s.Ok P

variable {P : PushCall → Prop} {t : SummaryQattr}

theorem Ok.set {slots : List QattrSlot} (h : ∀ s ∈ slots, s.Ok P) (j : ℕ) {s : QattrSlot}
    (hs : s.Ok P) : ∀ s' ∈ slots.set j s, s'.Ok P := by
  intro s' hs'
  rcases List.mem_or_eq_of_mem_set hs' with hs' | rfl
  · exact h s' hs'
  · exact hs

theorem Ok.getD {slots : List QattrSlot} (h : ∀ s ∈ slots, s.Ok P) (j : ℕ) :
    (slots.getD j {}).Ok P := by
  rw [List.getD_eq_getElem?_getD]
  cases hj : slots[j]? with
  | none => exact QattrSlot.ok_empty 0
  | some s => exact h s (List.mem_of_getElem? hj)

theorem Ok.slot (h : t.Ok P) (pid : UInt32) : (t.slot pid).1.Ok P := by
  rw [SummaryQattr.slot]
  split_ifs
  · exact h
  · split
    · exact h
    · split_ifs
      · exact h
      · exact Ok.set h _ (QattrSlot.ok_empty pid)

theorem Ok.closeGap (n : ℕ) {slots : List QattrSlot} (h : ∀ s ∈ slots, s.Ok P) (hole i : ℕ) :
    ∀ s ∈ closeGap n slots hole i, s.Ok P := by
  induction n generalizing slots hole i with
  | zero => exact Ok.set h hole (QattrSlot.ok_empty 0)
  | succ n ih =>
    rw [SummaryQattr.closeGap]
    split
    · exact Ok.set h hole (QattrSlot.ok_empty 0)
    · split
      · exact ih h hole _
      · exact ih (Ok.set h hole (Ok.getD h _)) _ _

theorem Ok.free (h : t.Ok P) (j : ℕ) : (t.free j).Ok P := Ok.closeGap _ h j j

theorem Ok.releaseIoWorker (h : t.Ok P) (c : PushCall) : (releaseIoWorker t c).Ok P := by
  have hslot := h.slot c.evt.pid
  rw [PgWaitTracer.releaseIoWorker]
  split_ifs
  · rcases ht : t.slot c.evt.pid with ⟨t', j⟩
    rw [ht] at hslot
    cases j with
    | none => exact hslot
    | some j => exact hslot.free j
  · exact h

/-- **One record in the table.** -/
theorem Ok.qattrStep (h : t.Ok P) (mask : UInt32) {c : PushCall}
    (hc : c.Waits → (t.slot c.evt.pid).2.isSome = true → P c) :
    (summaryQattrStep mask t c).1.Ok P ∧ ∀ e ∈ (summaryQattrStep mask t c).2.1, e.Ok P := by
  have hslot := h.slot c.evt.pid
  rw [summaryQattrStep]
  split
  · exact ⟨h, nofun⟩
  · rcases ht : t.slot c.evt.pid with ⟨t', j⟩
    rw [ht] at hslot
    cases j with
    | none => exact ⟨hslot, nofun⟩
    | some j =>
      obtain ⟨hs, he⟩ := (Ok.getD hslot j).step fun hwaits => hc hwaits (by rw [ht]; rfl)
      refine ⟨?_, fun e hmem => he e (List.mem_filter.1 hmem).1⟩
      have hset := Ok.set hslot j hs
      dsimp only
      split_ifs
      · exact Ok.closeGap _ hset j j
      · exact hset

end SummaryQattr

theorem attributeQuery_ok {qattr : Option SummaryQattr} (h : ∀ t ∈ qattr, t.Ok P) (mask : UInt32)
    {c : PushCall} (hc : PutOff qattr c → P c) :
    (∀ t ∈ (attributeQuery mask qattr c).1, t.Ok P) ∧
      ∀ e ∈ (attributeQuery mask qattr c).2.1, e.Ok P := by
  cases qattr with
  | none => exact ⟨nofun, nofun⟩
  | some t =>
    have ht : t.Ok P := h t rfl
    rw [attributeQuery]
    dsimp only
    split_ifs
    · refine ⟨?_, nofun⟩
      rintro t' ⟨⟩
      exact ht.releaseIoWorker c
    · obtain ⟨hstep, he⟩ := ht.qattrStep mask fun hwaits hslot => hc ⟨hwaits, t, rfl, hslot⟩
      refine ⟨?_, he⟩
      rintro t' ⟨⟩
      exact hstep

/-! ### Calls -/

/-- The call is a share of a second for an open interval. -/
def AccumCall.isCredit : AccumCall → Bool
  | .openCredit .. => true
  | .openCpu .. => true
  | _ => false

/-- From one state to another only shares of seconds are filed, and no slot is made. -/
structure FileWriter.Credits (w w' : FileWriter) : Prop where
  calls : ∀ c ∈ w'.base.allCalls, c ∈ w.base.allCalls ∨ c.isCredit = true
  opens : w.base.opens = [] → w'.base.opens = []

namespace FileWriter

theorem Credits.refl (w : FileWriter) : w.Credits w := ⟨fun _ hc => Or.inl hc, fun h => h⟩

theorem Credits.of_eq {w w' : FileWriter} (h : w'.base.allCalls = w.base.allCalls)
    (ho : w'.base.opens = w.base.opens) : w.Credits w' :=
  ⟨fun _ hc => Or.inl (h ▸ hc), fun hnil => ho.trans hnil⟩

theorem Credits.trans {w₁ w₂ w₃ : FileWriter} (h : w₁.Credits w₂) (h' : w₂.Credits w₃) :
    w₁.Credits w₃ := by
  refine ⟨fun c hc => ?_, fun hnil => h'.opens (h.opens hnil)⟩
  rcases h'.calls c hc with hc | hc
  · exact h.calls c hc
  · exact Or.inr hc

theorem opens_flushAccum (w : SummaryWriter) : w.flushAccum.opens = w.opens := by
  rw [SummaryWriter.flushAccum]
  split <;> rfl

theorem credits_flushAccum (env : Faults) (w : FileWriter) : w.Credits (w.flushAccum env).1 := by
  rw [FileWriter.flushAccum]
  split_ifs
  · exact .refl w
  · split
    · exact .of_eq w.base.allCalls_flushAccum (opens_flushAccum _)
    · exact .of_eq rfl rfl
    · exact .of_eq rfl rfl

theorem credits_openCounted (env : Faults) (w : FileWriter) : w.Credits (w.openCounted env).1 := by
  rw [FileWriter.openCounted]
  split_ifs
  · exact .refl w
  · exact .of_eq rfl rfl
  · exact .of_eq rfl rfl

theorem credits_sealCanWrite (env : Faults) (w : FileWriter) :
    w.Credits (w.sealCanWrite env).1 := by
  rcases w.sealCanWrite_eq env with h | h
  · rw [h]
    exact .refl w
  · rw [h]
    exact w.credits_openCounted env

theorem credits_nextSecond (w : FileWriter) (toSec : ℕ) (closing : Bool) :
    w.Credits (w.nextSecond toSec closing).1 := by
  rw [FileWriter.nextSecond]
  split
  · exact .refl w
  · refine ⟨fun _ hc => Or.inl hc, fun hnil => ?_⟩
    dsimp only [SummaryWriter.earliestOpenSecond]
    rw [hnil, List.map_nil]

theorem credits_creditSecond (mask : UInt32) (w : FileWriter) (sec : ℕ) (closing : Bool) :
    w.Credits (w.creditSecond mask sec closing) := by
  have hslot : ∀ o : OpenInterval, ∀ c ∈ (o.creditSecond mask sec closing).2,
      c.isCredit = true := by
    intro o c hc
    rw [OpenInterval.creditSecond] at hc
    split_ifs at hc
    · cases hc
    · cases hc
    · cases hc
    · cases hc
    · rcases List.mem_cons.1 hc with rfl | hc
      · rfl
      · split at hc
        · cases hc
        · rcases eq_or_eq_of_mem_ite hc with rfl | rfl
          · rfl
          · rfl
    · rw [List.mem_singleton.1 hc]
      rfl
  refine ⟨fun c hc => ?_, fun hnil => ?_⟩
  swap
  · dsimp only [FileWriter.creditSecond, SummaryWriter.creditOpenSecond]
    rw [hnil, List.map_nil]
  rcases List.mem_append.1 hc with hc | hc
  · exact Or.inl (List.mem_append_left _ hc)
  · rcases List.mem_append.1 hc with hc | hc
    · exact Or.inl (List.mem_append_right _ hc)
    · obtain ⟨o, -, hc⟩ := List.mem_flatMap.1 hc
      exact Or.inr (hslot o c hc)

theorem credits_sealThrough (mask : UInt32) (env : Faults) (toSec : ℕ) (closing : Bool)
    (guard : ℕ) (w : FileWriter) : w.Credits (w.sealThrough mask env guard toSec closing) := by
  induction guard generalizing w with
  | zero => exact .refl w
  | succ guard ih =>
    rw [FileWriter.sealThrough]
    have hnext := w.credits_nextSecond toSec closing
    rcases hn : w.nextSecond toSec closing with ⟨w₁, owed⟩
    rw [hn] at hnext
    cases owed with
    | none => exact hnext
    | some sec =>
      dsimp only at hnext ⊢
      split_ifs
      · exact hnext
      · have hcan := hnext.trans (w₁.credits_sealCanWrite env)
        rcases hc : w₁.sealCanWrite env with ⟨w₂, ok⟩
        rw [hc] at hcan
        cases ok with
        | false => exact hcan
        | true =>
          have hflush := (hcan.trans (w₂.credits_creditSecond mask sec closing)).trans
            (credits_flushAccum env _)
          dsimp only
          rcases hf : (w₂.creditSecond mask sec closing).flushAccum env with ⟨w₃, ok⟩
          rw [hf] at hflush
          cases ok with
          | false => exact hflush
          | true => exact hflush.trans (ih w₃)

theorem credits_startSecond (env : Faults) (w : FileWriter) (sec : ℕ) :
    w.Credits (w.startSecond env sec) := by
  rw [FileWriter.startSecond]
  dsimp only
  split
  · exact (w.credits_flushAccum env).trans (.of_eq rfl rfl)
  · exact .of_eq rfl rfl

theorem credits_discard (w : FileWriter) : w.Credits w.discard := by
  rw [FileWriter.discard]
  split
  · exact .refl w
  · refine ⟨fun c hc => ?_, fun hnil => hnil⟩
    rw [SummaryWriter.allCalls, List.append_nil] at hc
    exact Or.inl (List.mem_append_left _ hc)

theorem allCalls_noteStep (mask : UInt32) (env : Faults) (w : FileWriter) (pid we : UInt32)
    (startNs : ℕ) (catFlag : UInt32) (nowNs : ℕ) (cpu : Option OpenCpu) :
    (fileWriterStep mask env w (.noteOpenEx pid we startNs catFlag nowNs cpu)).base.allCalls =
      w.base.allCalls := by
  rw [fileWriterStep, FileWriter.noteOpenEx]
  split_ifs
  · rfl
  · exact SummaryWriter.allCalls_noteOpenEx ..

/-- A call without a record or a note files shares of seconds only. -/
theorem credits_step (mask : UInt32) (env : Faults) (w : FileWriter) (op : WriterOp)
    (h : ∀ p, op ≠ .pushEvent p)
    (hn : ∀ pid we startNs catFlag nowNs cpu,
      op ≠ .noteOpenEx pid we startNs catFlag nowNs cpu) :
    w.Credits (fileWriterStep mask env w op) := by
  cases op with
  | pushEvent p => exact absurd rfl (h p)
  | noteOpenEx pid we startNs catFlag nowNs cpu =>
    exact absurd rfl (hn pid we startNs catFlag nowNs cpu)
  | flushCompleted nowNs =>
    rw [fileWriterStep, FileWriter.flushCompleted]
    split_ifs
    · exact .refl w
    · exact .refl w
    · exact w.credits_sealThrough mask env _ false openFillMaxSeconds
  | flush => exact w.credits_flushAccum env
  | checkRotation hourChanged =>
    rw [fileWriterStep, FileWriter.checkRotation]
    split_ifs
    · exact .refl w
    · have hflush := w.credits_flushAccum env
      rcases hf : w.flushAccum env with ⟨w₁, ok⟩
      rw [hf] at hflush
      cases ok with
      | false => exact (hflush.trans w₁.credits_discard).trans (.of_eq rfl rfl)
      | true => exact hflush.trans (.of_eq rfl rfl)
  | close =>
    rw [fileWriterStep, FileWriter.close]
    split_ifs
    · exact .refl w
    · exact ((w.credits_sealThrough mask env w.base.closeBefore true openFillMaxSeconds).trans
        (credits_flushAccum env _)).trans (.of_eq rfl rfl)

/-- **One record.** Unless it is refused, it is added to a writer that is in order. -/
theorem pushEvent_cases {w : FileWriter} (h : w.Ok) (mask : UInt32) (env : Faults)
    (p : PushedEvent) :
    ((!w.enabled || !(w.openCounted env).2) = true → w.Credits (w.pushEvent mask env p)) ∧
      ((!w.enabled || !(w.openCounted env).2) = false → ∃ w₂ : FileWriter,
        w.Credits w₂ ∧ w₂.base.InOrder ∧
          (w.pushEvent mask env p).base = w₂.base.addRecord p) := by
  have hopen := w.credits_openCounted env
  have hkeeps := w.keeps_openCounted env
  rw [FileWriter.pushEvent]
  rcases hc : w.openCounted env with ⟨w₁, ok⟩
  rw [hc] at hopen hkeeps
  cases he : w.enabled
  · exact ⟨fun _ => .refl w, by simp⟩
  · cases ok with
    | false => exact ⟨fun _ => hopen.trans (.of_eq rfl rfl), by simp⟩
    | true =>
      refine ⟨by simp, fun _ => ?_⟩
      have hok := hkeeps.ok h
      have hb := w₁.base.before_openSecondOf p.evt.timestampNs.toNat
      obtain ⟨hk, hbk⟩ := w₁.sealThrough_spec mask env
        (w₁.base.openSecondOf p.evt.timestampNs.toNat) false openFillMaxSeconds hok.inOrder
      refine ⟨_, (hopen.trans (w₁.credits_sealThrough mask env _ false openFillMaxSeconds)).trans
        (credits_startSecond env _ _), ?_, rfl⟩
      exact ((FileWriter.keeps_startSecond (hbk hb) env).ok (hk.ok hok)).inOrder

end FileWriter

/-! ### Runs -/

/-- A call that a run files: the close of a record, under its own id or, if there are notes, a label
of time on CPU, a sum, or a share of a second. -/
inductive FiledCall (noted : Prop) (emitted : List QueryEmission) : AccumCall → Prop
  | close (p : PushCall) (queryId : UInt64) (cc : AccumCloseCtx)
      (label : cc.cpuCredited = true → noted ∧ IsCpuLabel cc.frozenEff) :
      FiledCall noted emitted (.event p.evt queryId p.ioWorker p.eff cc)
  | emission (e : QueryEmission) (he : e ∈ emitted) : FiledCall noted emitted e.call
  | credit (c : AccumCall) (hc : c.isCredit = true) : FiledCall noted emitted c

namespace FiledCall

variable {noted : Prop} {es : List QueryEmission}

theorem mono {es' : List QueryEmission} (h : FiledCall noted es c) (hsub : ∀ e ∈ es, e ∈ es') :
    FiledCall noted es' c := by
  cases h with
  | close p queryId cc label => exact .close p queryId cc label
  | emission e he => exact .emission e (hsub e he)
  | credit c hc => exact .credit c hc

theorem label {evt : TraceEvent} {queryId : UInt64} {ioWorker : Bool} {eff : UInt32}
    {cc : AccumCloseCtx} (h : FiledCall noted es (.event evt queryId ioWorker eff cc))
    (hc : cc.cpuCredited = true) : noted ∧ IsCpuLabel cc.frozenEff := by
  generalize hx : AccumCall.event evt queryId ioWorker eff cc = x at h
  cases h with
  | close p queryId' cc' label =>
    obtain ⟨-, -, -, -, rfl⟩ := AccumCall.event.inj hx
    exact label hc
  | emission e he => cases hx
  | credit c hcredit =>
    subst hx
    cases hcredit

end FiledCall

/-- What waits and what was filed is sums of records with a property, and the calls are those of
records. -/
structure SummaryRun.Ok (P : PushCall → Prop) (noted : Prop) (s : SummaryRun) : Prop where
  file : s.file.Ok
  qattr : ∀ t ∈ s.qattr, t.Ok P
  emitted : ∀ e ∈ s.emitted, e.Ok P
  opens : ¬noted → s.file.base.opens = []
  calls : ∀ c ∈ s.file.base.allCalls, FiledCall noted s.emitted c

namespace SummaryRun

variable {P : PushCall → Prop} {noted : Prop} {s : SummaryRun}

theorem Ok.credits (h : s.Ok P noted) {file : FileWriter} (hfile : file.Ok)
    (hcredits : s.file.Credits file) : ({ s with file := file } : SummaryRun).Ok P noted := by
  refine ⟨hfile, h.qattr, h.emitted, fun hn => hcredits.opens (h.opens hn), fun c hc => ?_⟩
  rcases hcredits.calls c hc with hc | hc
  · exact h.calls c hc
  · exact .credit c hc

theorem label_closeCtx {w : SummaryWriter} (h : w.InOrder) (hopens : ¬noted → w.opens = [])
    (evt : TraceEvent) :
    (w.closeCtx evt).cpuCredited = true → noted ∧ IsCpuLabel (w.closeCtx evt).frozenEff := by
  rw [SummaryWriter.closeCtx]
  split_ifs
  · rintro ⟨⟩
  · split
    · rename_i o ho
      have hmem : o ∈ w.opens := by
        rw [SummaryWriter.openSlot] at ho
        split_ifs at ho
        exact List.mem_of_find?_eq_some ho
      refine fun hcredited => ⟨?_, (h.labels o hmem).closeCtx evt hcredited⟩
      by_contra hn
      rw [hopens hn] at hmem
      cases hmem
    · rintro ⟨⟩

theorem allCalls_addRecord (w : SummaryWriter) (p : PushedEvent) : ∀ c ∈ (w.addRecord p).allCalls,
    c ∈ w.allCalls ∨
      (∃ d ∈ p.deferred, c = .queryAdd d.queryId d.ev d.count d.totalNs d.longestNs) ∨
      c = .event p.evt p.queryId p.ioWorker p.eff (w.closeCtx p.evt) := by
  intro c hc
  rw [SummaryWriter.allCalls, SummaryWriter.addRecord] at hc
  dsimp only at hc
  rw [w.records_closeSlot] at hc
  simp only [List.mem_append, List.mem_singleton] at hc
  rcases hc with hc | (hc | hc) | hc
  · exact Or.inl (List.mem_append_left _ hc)
  · exact Or.inl (List.mem_append_right _ hc)
  · split_ifs at hc
    · cases hc
    · obtain ⟨d, hd, rfl⟩ := List.mem_map.1 hc
      exact Or.inr (Or.inl ⟨d, hd, rfl⟩)
  · exact Or.inr (Or.inr hc)

theorem opens_addRecord {w : SummaryWriter} (h : w.opens = []) (p : PushedEvent) :
    (w.addRecord p).opens = [] := by
  rw [SummaryWriter.addRecord]
  dsimp only
  rw [SummaryWriter.closeSlot]
  split_ifs <;> simp [SummaryWriter.modifySlot, h]

/-- **One record.** -/
theorem Ok.pushEvent (h : s.Ok P noted) (mask : UInt32) (env : Faults) {c : PushCall}
    (hc : s.file.enabled = true → (s.file.openCounted env).2 = true → PutOff s.qattr c → P c) :
    (s.pushEvent mask env c).Ok P noted := by
  rw [SummaryRun.pushEvent]
  split
  · rename_i hrefused
    exact h.credits (h.file.pushEvent mask env _)
      ((FileWriter.pushEvent_cases h.file mask env _).1 hrefused)
  · rename_i htaken
    rw [Bool.not_eq_true] at htaken
    obtain ⟨henabled, hopened⟩ := Bool.or_eq_false_iff.1 htaken
    obtain ⟨hq, he⟩ := attributeQuery_ok h.qattr mask
      (hc (by simpa using henabled) (by simpa using hopened))
    obtain ⟨w₂, hcredits, horder, hbase⟩ :=
      (FileWriter.pushEvent_cases h.file mask env (c.pushed (attributeQuery mask s.qattr c).2.2
        ((attributeQuery mask s.qattr c).2.1.map QueryEmission.deferred))).2 htaken
    have hopens : ¬noted → w₂.base.opens = [] := fun hn => hcredits.opens (h.opens hn)
    refine ⟨h.file.pushEvent mask env _, hq, fun e hmem => ?_, fun hn => ?_, fun x hx => ?_⟩
    · rcases List.mem_append.1 hmem with hmem | hmem
      · exact h.emitted e hmem
      · exact he e hmem
    · dsimp only
      rw [hbase]
      exact opens_addRecord (hopens hn) _
    · dsimp only at hx
      rw [hbase] at hx
      rcases allCalls_addRecord _ _ x hx with hx | ⟨d, hd, rfl⟩ | rfl
      · rcases hcredits.calls x hx with hx | hx
        · exact (h.calls x hx).mono fun e he => List.mem_append_left _ he
        · exact .credit x hx
      · obtain ⟨e, he, rfl⟩ := List.mem_map.1 hd
        exact .emission e (List.mem_append_right _ he)
      · exact .close c _ _ (label_closeCtx horder hopens c.evt)

theorem Ok.step (h : s.Ok P noted) (mask : UInt32) (env : Faults) {op : SummaryCall}
    (hc : ∀ c, op = .pushEvent c → s.file.enabled = true → (s.file.openCounted env).2 = true →
      PutOff s.qattr c → P c)
    (hn : op.isNote = true → noted) : (summaryStep mask env s op).Ok P noted := by
  cases op with
  | pushEvent c => exact h.pushEvent mask env (hc c rfl)
  | noteOpenEx pid we startNs catFlag nowNs cpu =>
    refine ⟨h.file.step mask env (.noteOpenEx pid we startNs catFlag nowNs cpu), h.qattr,
      h.emitted, fun hnot => absurd (hn rfl) hnot, ?_⟩
    intro c hmem
    dsimp only [summaryStep] at hmem
    rw [FileWriter.allCalls_noteStep] at hmem
    exact h.calls c hmem
  | flushCompleted =>
    exact h.credits (h.file.step mask env _) (s.file.credits_step mask env _ nofun nofun)
  | flush => exact h.credits (h.file.step mask env _) (s.file.credits_step mask env _ nofun nofun)
  | checkRotation =>
    exact h.credits (h.file.step mask env _) (s.file.credits_step mask env _ nofun nofun)
  | close => exact h.credits (h.file.step mask env _) (s.file.credits_step mask env _ nofun nofun)

theorem ok_start (P : PushCall → Prop) (noted : Prop) (hasMemory : Bool) :
    (start hasMemory).Ok P noted := by
  refine ⟨FileWriter.ok_init, ?_, nofun, fun _ => rfl, nofun⟩
  intro t ht s hs
  cases hasMemory
  · cases ht
  · cases ht
    rw [List.eq_of_mem_replicate hs]
    exact QattrSlot.ok_empty 0

end SummaryRun

/-- **Runs.** What is put off has a property that every step gives it. -/
theorem summaryRun_ok {noted : Prop} {env : Faults} {hasMemory : Bool} {ops : List SummaryCall}
    (h : Run.Allowed (summaryStep mask env) (fun s op =>
      (∀ c, op = .pushEvent c → s.file.enabled = true → (s.file.openCounted env).2 = true →
        PutOff s.qattr c → P c) ∧ (op.isNote = true → noted)) (.start hasMemory) ops) :
    (summaryRun mask env hasMemory ops).Ok P noted :=
  h.invariant (fun _ _ hs hop => hs.step mask env hop.1 hop.2) ops _
    (SummaryRun.ok_start P noted hasMemory)

theorem SummaryRun.Ok.written {noted : Prop} {s : SummaryRun} (h : s.Ok P noted)
    {r : ℕ × List AccumCall} (hr : r ∈ s.file.base.records) (hc : c ∈ r.2) :
    FiledCall noted s.emitted c :=
  h.calls c (List.mem_append_left _ (List.mem_flatMap.2 ⟨r, hr, hc⟩))

/-! ### Time of queries -/

/-- Of a record that was pushed with the effective id of time outside commands, a written record has
time under a query in two ways only: the record closes an interval of which a second is written as
time on CPU, whose label it keeps, or it was put off. -/
theorem SummaryRun.Ok.noncmd {noted : Prop} {s : SummaryRun} (h : s.Ok P noted)
    {r : ℕ × List AccumCall} (hr : r ∈ s.file.base.records) (hc : c ∈ r.2)
    (hfiles : c.filesTime mask = true) {p : PushCall} (hcarries : CarriesTimeOf s c p)
    (hnoncmd : p.effEvent = weiNoncmdCpu) :
    (noted ∧ ∃ queryId cc, c = .event p.evt queryId p.ioWorker weiNoncmdCpu cc ∧
        cc.cpuCredited = true ∧ cc.frozenEff = 0) ∨
      P p ∧ isIdleEvent mask p.evt.oldEvent = false := by
  have heff : p.eff = weiNoncmdCpu := by
    have hne : weiNoncmdCpu ≠ effUnresolved := by decide
    simp [PushCall.eff, PushedEvent.eff, PushCall.pushed, hnoncmd, hne]
  cases hcarries with
  | emission e he hcall hp =>
    obtain ⟨-, hP, hwe⟩ := (h.emitted e he).waits p hp
    refine Or.inr ⟨hP, ?_⟩
    rw [hcall, QueryEmission.call, AccumCall.filesTime, Bool.and_eq_true,
      Bool.not_eq_true'] at hfiles
    rw [hwe]
    exact hfiles.2
  | close queryId cc hcall =>
    subst hcall
    rw [heff] at hfiles hc ⊢
    have hbusy : isIdleEvent mask (cc.label weiNoncmdCpu) = false := by
      simp only [AccumCall.filesTime, Bool.and_eq_true, Bool.not_eq_true'] at hfiles
      exact hfiles.2
    have hidle : isIdleEvent mask weiNoncmdCpu = true := by
      rw [isIdleEvent, if_pos (by decide)]
    rw [AccumCloseCtx.label] at hbusy
    split_ifs at hbusy with hcredited
    · obtain ⟨hnoted, hzero | hnon⟩ := (h.written hr hc).label hcredited
      · exact Or.inl ⟨hnoted, queryId, cc, rfl, hcredited, hzero⟩
      · rw [hnon, hidle] at hbusy
        exact absurd hbusy (by simp)
    · rw [hidle] at hbusy
      exact absurd hbusy (by simp)

/-- **Time outside commands is not filed under a query**, in a run of records and flushes that puts
off no record of it. -/
theorem noncmd_notFiled {mask : UInt32} {env : Faults} {hasMemory : Bool} {ops : List SummaryCall}
    (hnotes : ∀ op ∈ ops, op.isNote = false)
    (hkeeps : Run.Allowed (summaryStep mask env) (fun s op => op.KeepsNoncmd mask env s)
      (.start hasMemory) ops) :
    let s := summaryRun mask env hasMemory ops
    ∀ r ∈ s.file.base.records, ∀ c ∈ r.2, c.filesTime mask = true →
      ∀ p, CarriesTimeOf s c p → p.effEvent ≠ weiNoncmdCpu := by
  intro s r hr c hc hfiles p hcarries hnoncmd
  have hok : s.Ok (fun p => p.effEvent = weiNoncmdCpu → isIdleEvent mask p.evt.oldEvent = true)
      False := by
    refine summaryRun_ok (hkeeps.imp ops _ fun s op hop hkeep => ⟨?_, fun hnote => ?_⟩)
    · exact fun c hc henabled hopened hput hnoncmd => hkeep c hc hnoncmd henabled hopened hput
    · rw [hnotes op hop] at hnote
      cases hnote
  rcases hok.noncmd hr hc hfiles hcarries hnoncmd with ⟨hnoted, -⟩ | ⟨hidle, hbusy⟩
  · exact hnoted
  · rw [hidle hnoncmd] at hbusy
    exact absurd hbusy (by simp)

deriving instance DecidableEq for AccumCall

/-- A file system without faults. -/
def noFaults : Faults := ⟨fun _ => .written, fun _ => true⟩

/-- Time on CPU outside commands, of one process. -/
def noncmdPush (timestampNs queryId : UInt64) (effEvent : UInt32) : PushCall :=
  { evt :=
      { timestampNs, pid := 7, oldEvent := 0, newEvent := 0x06000000, durationNs := 1400000000
        queryId, cpuNs := cpuNsUnknown, flags := 0 }
    catFlag := 0
    effEvent }

/-- A record that has a query id is not put off. -/
theorem noncmd_notFiled_queryId :
    let s := summaryRun 0 noFaults true
      [.pushEvent (noncmdPush 2600000000 5 weiNoncmdCpu), .flush]
    ∀ r ∈ s.file.base.records, ∀ c ∈ r.2, c.filesTime 0 = true →
      ∀ p, CarriesTimeOf s c p → p.effEvent ≠ weiNoncmdCpu :=
  noncmd_notFiled (by decide) ⟨by
    rintro c ⟨⟩ - - - ⟨⟨hquery, -, -, -⟩, -⟩
    exact absurd hquery (by decide), nofun, trivial⟩

/-- A record that is put off under CPU is filed as CPU under the query that the next record has. -/
theorem noncmd_filedAsCpu :
    let s := summaryRun 0 noFaults true
      [.pushEvent (noncmdPush 2600000000 0 weiNoncmdCpu), .pushEvent (noncmdPush 2700000000 5 0),
        .flush]
    ∃ r ∈ s.file.base.records, ∃ c ∈ r.2, c.filesTime 0 = true ∧
      ∃ p, CarriesTimeOf s c p ∧ p.effEvent = weiNoncmdCpu := by
  intro s
  have hrun : (s.file.base.records.any fun r => r.2.any fun c => c.filesTime 0 &&
      s.emitted.any fun e => c = e.call && e.records.any fun p => p.effEvent = weiNoncmdCpu) =
      true := by
    decide +kernel
  simp only [List.any_eq_true, Bool.and_eq_true, decide_eq_true_eq] at hrun
  obtain ⟨r, hr, c, hc, hfiles, e, he, hcall, p, hp, hnoncmd⟩ := hrun
  exact ⟨r, hr, c, hc, hfiles, p, .emission e he hcall hp, hnoncmd⟩

end PgWaitTracer
