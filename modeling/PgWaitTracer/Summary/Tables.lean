import PgWaitTracer.Lib.Run
import PgWaitTracer.Summary.Accum

/-!
# The tables of the accumulator

Each table counts the rows it inserts; the count goes into the header of the record, and the reader
walks as many rows as it says. The count is right as long as a row that was counted never looks like
an empty slot again, and no row comes into use without being counted.

## Main results

* `tablesOk_accumStep`: every call that keeps the counts keeps the tables.
-/

namespace PgWaitTracer

open LinearProbe

/-- The hash of an event id or a pid. -/
def slotOf32 (x : UInt32) : ℕ := (hash32 x).toNat

/-- The hash of a query id. -/
def slotOf64 (x : UInt64) : ℕ := (hash64 x).toNat

/-- The rows of each table are where their keys are probed to and are counted; key 0 is in use for
events only. -/
structure TablesOk (acc : SummaryAccum) : Prop where
  events : Counted SummaryEvent.eventId SummaryEvent.vacant slotOf32 summaryMaxEvents acc.events
    acc.numEvents
  sessions : Counted SummarySession.pid SummarySession.vacant slotOf32 summaryMaxSessions
    acc.sessions acc.numSessions
  pid_ne : ∀ s ∈ occupied SummarySession.vacant acc.sessions, s.pid ≠ 0
  queries : Counted SummaryQuery.queryId SummaryQuery.vacant slotOf64 summaryMaxQueries acc.queries
    acc.numQueries
  queryId_ne : ∀ q ∈ occupied SummaryQuery.vacant acc.queries, q.queryId ≠ 0

theorem tablesOk_reset : TablesOk accumReset where
  events := counted_replicate rfl _
  sessions := counted_replicate rfl _
  pid_ne := by rw [accumReset, occupied_replicate rfl]; exact fun _ h => absurd h List.not_mem_nil
  queries := counted_replicate rfl _
  queryId_ne := by
    rw [accumReset, occupied_replicate rfl]
    exact fun _ h => absurd h List.not_mem_nil

variable {acc acc₁ : SummaryAccum} {mask pid : UInt32} {j : ℕ}

theorem TablesOk.set_times (h : TablesOk acc) (n : UInt32) (t : TimeScalars UInt64) :
    TablesOk { acc with totalEvents := n, times := t } :=
  { h with }

/-! ### Finding and inserting -/

theorem SummaryEvent.vacant_eq_false {e : SummaryEvent}
    (h : e.eventId = 0 → ¬(e.count = 0 ∧ e.totalNs = 0)) : e.vacant = false := by
  rw [SummaryEvent.vacant, Bool.and_assoc, Bool.and_eq_false_imp, ← Bool.decide_and]
  intro h0
  exact decide_eq_false (h (of_decide_eq_true h0))

theorem SummarySession.vacant_eq_false {s : SummarySession} (h : s.pid ≠ 0) : s.vacant = false := by
  simp [SummarySession.vacant, h]

theorem SummaryQuery.vacant_eq_false {q : SummaryQuery} (h : q.queryId ≠ 0) : q.vacant = false := by
  simp [SummaryQuery.vacant, h]

theorem SummaryEvent.found_eq (id : UInt32) (e : SummaryEvent) :
    e.found id = (!e.vacant && e.eventId = id) := by
  have hpos : ∀ x : UInt64, (0 < x) = (x ≠ 0) := fun x => propext UInt64.pos_iff_ne_zero
  rw [Bool.eq_iff_iff]
  simp only [SummaryEvent.found, SummaryEvent.vacant, Bool.or_eq_true, Bool.and_eq_true,
    decide_eq_true_eq, hpos, Bool.not_eq_true', Bool.and_eq_false_iff, decide_eq_false_iff_not]
  constructor
  · rintro ⟨rfl, (h | h) | h⟩ <;> simp [h]
  · rintro ⟨(h | h) | h, rfl⟩ <;> simp [h]

theorem found_or_vacant_event (id : UInt32) :
    (fun e : SummaryEvent => e.found id || e.vacant) =
      stops SummaryEvent.eventId SummaryEvent.vacant id := by
  funext e
  rw [SummaryEvent.found_eq, stops]
  cases e.vacant <;> simp

theorem found_or_vacant_session (pid : UInt32) :
    (fun s : SummarySession => s.found pid || s.vacant) =
      stops SummarySession.pid SummarySession.vacant pid := by
  funext s
  rw [SummarySession.found, stops, Bool.or_comm]

theorem found_or_vacant_query (id : UInt64) :
    (fun q : SummaryQuery => q.found id || q.vacant) =
      stops SummaryQuery.queryId SummaryQuery.vacant id := by
  funext q
  rw [SummaryQuery.found, stops, Bool.or_comm]

theorem findOrInsertEvent_eq_some {id : UInt32} (h : findOrInsertEvent acc id = some (acc₁, j)) :
    ∃ e, acc.events[j]? = some e ∧
      probe (stops SummaryEvent.eventId SummaryEvent.vacant id) acc.events (slotOf32 id) = some j ∧
      acc₁ = { acc with
        events := acc.events.set j { e with eventId := id }
        numEvents := acc.numEvents + if e.vacant then 1 else 0 } := by
  rw [findOrInsertEvent, found_or_vacant_event] at h
  split at h
  · exact absurd h (by simp)
  · rename_i i hprobe
    obtain ⟨e, he, hstop⟩ := exists_of_probe hprobe
    rw [he, Option.any_some, SummaryEvent.found_eq, modify_of_getElem? he] at h
    split_ifs at h with hf
    · obtain ⟨rfl, rfl⟩ : acc = acc₁ ∧ i = j := by simpa using h
      obtain ⟨hocc, rfl⟩ : e.vacant = false ∧ e.eventId = id := by simpa using hf
      exact ⟨e, he, hprobe, by simp [hocc, set_of_getElem? he]⟩
    · obtain ⟨rfl, rfl⟩ : _ = acc₁ ∧ i = j := by simpa using h
      have hvac : e.vacant = true := by
        by_contra hno
        rw [stops] at hstop
        simp_all
      exact ⟨e, he, hprobe, by simp [hvac]⟩

theorem findOrInsertSession_eq_some (h : findOrInsertSession acc pid = some (acc₁, j)) :
    ∃ s, acc.sessions[j]? = some s ∧
      probe (stops SummarySession.pid SummarySession.vacant pid) acc.sessions (slotOf32 pid) =
        some j ∧
      acc₁ = { acc with
        sessions := acc.sessions.set j { s with pid := pid }
        numSessions := acc.numSessions + if s.vacant ∧ pid ≠ 0 then 1 else 0 } := by
  rw [findOrInsertSession, found_or_vacant_session] at h
  split at h
  · exact absurd h (by simp)
  · rename_i i hprobe
    obtain ⟨s, hs, hstop⟩ := exists_of_probe hprobe
    rw [hs, Option.any_some, SummarySession.found, modify_of_getElem? hs] at h
    split_ifs at h with hf
    · obtain ⟨rfl, rfl⟩ : acc = acc₁ ∧ i = j := by simpa using h
      obtain rfl : s.pid = pid := of_decide_eq_true hf
      have hcount : ¬(s.vacant ∧ s.pid ≠ 0) := by
        rintro ⟨hvac, hne⟩
        exact absurd (hvac.symm.trans (SummarySession.vacant_eq_false hne)) (by simp)
      exact ⟨s, hs, hprobe, by simp [hcount, set_of_getElem? hs]⟩
    · obtain ⟨rfl, rfl⟩ : _ = acc₁ ∧ i = j := by simpa using h
      have hne : s.pid ≠ pid := by simpa using hf
      have hvac : s.vacant = true := by simpa [stops, hne] using hstop
      have hzero : s.pid = 0 := by
        by_contra hno
        exact absurd (hvac.symm.trans (SummarySession.vacant_eq_false hno)) (by simp)
      exact ⟨s, hs, hprobe, by simp [hvac, (hzero ▸ hne).symm]⟩

theorem findOrInsertQuery_eq_some {id : UInt64} (h : findOrInsertQuery acc id = some (acc₁, j)) :
    id ≠ 0 ∧ ∃ q, acc.queries[j]? = some q ∧
      probe (stops SummaryQuery.queryId SummaryQuery.vacant id) acc.queries (slotOf64 id) =
        some j ∧
      acc₁ = { acc with
        queries := acc.queries.set j { q with queryId := id }
        numQueries := acc.numQueries + if q.vacant then 1 else 0 } := by
  rw [findOrInsertQuery, found_or_vacant_query] at h
  split at h
  · exact absurd h (by simp)
  rename_i hid
  split at h
  · exact absurd h (by simp)
  · rename_i i hprobe
    obtain ⟨q, hq, hstop⟩ := exists_of_probe hprobe
    rw [hq, Option.any_some, SummaryQuery.found, modify_of_getElem? hq] at h
    split_ifs at h with hf
    · obtain ⟨rfl, rfl⟩ : acc = acc₁ ∧ i = j := by simpa using h
      obtain rfl : q.queryId = id := of_decide_eq_true hf
      exact ⟨hid, q, hq, hprobe,
        by simp [SummaryQuery.vacant_eq_false hid, set_of_getElem? hq]⟩
    · obtain ⟨rfl, rfl⟩ : _ = acc₁ ∧ i = j := by simpa using h
      have hne : q.queryId ≠ id := by simpa using hf
      have hvac : q.vacant = true := by simpa [stops, hne] using hstop
      exact ⟨hid, q, hq, hprobe, by simp [hvac]⟩

/-! ### Writing rows -/

/-- A row that keeps its id can be written into the slot of an event, if the CPU row does not look
empty afterwards. -/
theorem TablesOk.write_event (h : TablesOk acc) {id : UInt32}
    (hslot : findOrInsertEvent acc id = some (acc₁, j)) {f : SummaryEvent → SummaryEvent}
    (hid : ∀ e, (f e).eventId = e.eventId)
    (hstay : id = 0 → ∀ e ∈ acc.events, e.eventId = 0 → (f e).vacant = false) :
    TablesOk { acc₁ with events := acc₁.events.modify j f } := by
  obtain ⟨e, he, hprobe, rfl⟩ := findOrInsertEvent_eq_some hslot
  obtain ⟨e', he', hstop⟩ := exists_of_probe hprobe
  obtain rfl : e = e' := Option.some.inj (he.symm.trans he')
  have hocc : (f { e with eventId := id }).vacant = false := by
    by_cases h0 : id = 0
    · subst h0
      have hzero : e.eventId = 0 := by
        simp only [stops, SummaryEvent.vacant, Bool.or_eq_true, Bool.and_eq_true,
          decide_eq_true_eq] at hstop
        tauto
      have hsame : ({ e with eventId := 0 } : SummaryEvent) = e := by rw [← hzero]
      rw [hsame]
      exact hstay rfl e (List.mem_of_getElem? he) hzero
    · exact SummaryEvent.vacant_eq_false fun h => absurd ((hid _).symm.trans h) h0
  have hset := modify_set_self he { e with eventId := id } f
  refine { h with events := ?_ }
  rw [hset]
  exact h.events.write hprobe he (hid _) hocc

/-- A row that keeps its pid can be written into the slot of a session; for pid 0 it has to look
empty. -/
theorem TablesOk.write_session (h : TablesOk acc)
    (hslot : findOrInsertSession acc pid = some (acc₁, j)) {f : SummarySession → SummarySession}
    (hid : ∀ s, (f s).pid = s.pid) (hzero : pid = 0 → ∀ s, (f s).dbTimeNs = s.dbTimeNs) :
    TablesOk { acc₁ with sessions := acc₁.sessions.modify j f } := by
  obtain ⟨s, hs, hprobe, rfl⟩ := findOrInsertSession_eq_some hslot
  have hset := modify_set_self hs { s with pid := pid } f
  by_cases h0 : pid = 0
  · subst h0
    -- no row in use has pid 0, so the slot is empty
    have hvac : s.vacant = true := by
      by_contra hno
      obtain ⟨s', hs', hstop⟩ := exists_of_probe hprobe
      obtain rfl : s = s' := Option.some.inj (hs.symm.trans hs')
      have hpid : s.pid = 0 := by simpa [stops, hno] using hstop
      exact h.pid_ne s (List.mem_filter.2 ⟨List.mem_of_getElem? hs, by simp [hno]⟩) hpid
    have hvac' : (f { s with pid := 0 }).vacant = true := by
      simp only [SummarySession.vacant, Bool.and_eq_true, decide_eq_true_eq] at hvac ⊢
      exact ⟨hid _, (hzero rfl _).trans hvac.2⟩
    refine { h with sessions := ?_, pid_ne := ?_ }
    · rw [hset]
      simpa using h.sessions.write_vacant hs hvac hvac'
    · rw [hset, occupied_set_vacant hs hvac hvac']
      exact h.pid_ne
  · have hocc := SummarySession.vacant_eq_false (s := f { s with pid := pid })
      (fun h => h0 ((hid _).symm.trans h))
    refine { h with sessions := ?_, pid_ne := ?_ }
    · rw [hset]
      simpa [h0] using h.sessions.write hprobe hs (hid _) hocc
    · rw [hset]
      rintro s' hs'
      rcases mem_occupied_set hs' with hold | rfl
      · exact h.pid_ne s' hold
      · exact fun h => h0 ((hid _).symm.trans h)

theorem TablesOk.write_query (h : TablesOk acc) {id : UInt64}
    (hslot : findOrInsertQuery acc id = some (acc₁, j)) {f : SummaryQuery → SummaryQuery}
    (hid : ∀ q, (f q).queryId = q.queryId) :
    TablesOk { acc₁ with queries := acc₁.queries.modify j f } := by
  obtain ⟨h0, q, hq, hprobe, rfl⟩ := findOrInsertQuery_eq_some hslot
  have hset := modify_set_self hq { q with queryId := id } f
  have hocc := SummaryQuery.vacant_eq_false (q := f { q with queryId := id })
    (fun h => h0 ((hid _).symm.trans h))
  refine { h with queries := ?_, queryId_ne := ?_ }
  · rw [hset]
    exact h.queries.write hprobe hq (hid _) hocc
  · rw [hset]
    rintro q' hq'
    rcases mem_occupied_set hq' with hold | rfl
    · exact h.queryId_ne q' hold
    · exact fun h => h0 ((hid _).symm.trans h)

/-! ### Calls -/

/-- A call that adds to the accumulator: a record that closes, the share of an open interval, the CPU
split of such a share, or the time of a query that was put off until the query was known. -/
inductive AccumCall
  | event (evt : TraceEvent) (queryId : UInt64) (ioWorker : Bool) (effEvent : UInt32)
      (cc : AccumCloseCtx)
  | openCredit (pid we : UInt32) (ns measuredNs : UInt64) (measured : Bool)
  | openCpu (measuredNs unknownNs records : UInt64)
  | queryAdd (queryId : UInt64) (ev : UInt32) (count total longest : UInt64)

/-- The accumulator after a call. -/
def accumStep (mask : UInt32) (acc : SummaryAccum) : AccumCall → SummaryAccum
  | .event evt queryId ioWorker effEvent cc =>
    (accumEvent mask acc evt queryId ioWorker effEvent cc).1
  | .openCredit pid we ns measuredNs measured =>
    accumOpenCredit mask acc pid we ns measuredNs measured
  | .openCpu measuredNs unknownNs records => { acc with times := { acc.times with
      cpuMeasuredNs := acc.times.cpuMeasuredNs + measuredNs
      cpuUnknownNs := acc.times.cpuUnknownNs + unknownNs
      cpuMeasuredRecords := acc.times.cpuMeasuredRecords + records } }
  | .queryAdd queryId ev count total longest => accumQueryAdd mask acc queryId ev count total longest

/-- The sums of the CPU row do not both wrap around to 0. -/
def CpuRowStays (acc : SummaryAccum) (count ns : UInt64) : Prop :=
  ∀ e ∈ acc.events, e.eventId = 0 → ¬(e.count + count = 0 ∧ e.totalNs + ns = 0)

/-- The call files no DB time under pid 0, and does not make the CPU row look empty. -/
def KeepsCounts (mask : UInt32) (acc : SummaryAccum) : AccumCall → Prop
  | .event evt _ ioWorker effEvent cc =>
    let ev := cc.label effEvent
    let tns := excess evt.durationNs cc.alreadyNs
    ev = eventExit ∨ isMarker ev = true ∨ ioWorker = true ∨
      (evt.pid = 0 → isIdleEvent mask ev = true ∨ tns = 0) ∧ (ev = 0 → CpuRowStays acc 1 tns)
  | .openCredit pid we ns _ _ =>
    ns = 0 ∨ (pid = 0 → isIdleEvent mask we = true) ∧ (we = 0 → CpuRowStays acc 0 ns)
  | .openCpu _ _ _ => True
  | .queryAdd _ _ _ _ _ => True

theorem CpuRowStays.vacant_eq_false {count ns : UInt64} (h : CpuRowStays acc count ns)
    {e e' : SummaryEvent} (he : e ∈ acc.events) (h0 : e.eventId = 0)
    (hcount : e'.count = e.count + count) (hns : e'.totalNs = e.totalNs + ns) :
    e'.vacant = false := by
  refine SummaryEvent.vacant_eq_false fun _ => ?_
  rw [hcount, hns]
  exact h e he h0

theorem tablesOk_accumEventRow (h : TablesOk acc) {ev : UInt32} (dur : UInt64) {tns : UInt64}
    (hstay : ev = 0 → CpuRowStays acc 1 tns) : TablesOk (accumEventRow acc ev dur tns) := by
  rw [accumEventRow]
  split
  · exact { h with }
  · rename_i acc₁ j hslot
    exact h.write_event hslot (fun _ => rfl) fun h0 e he hid =>
      (hstay h0).vacant_eq_false he hid rfl rfl

theorem tablesOk_creditEventRow (h : TablesOk acc) {we : UInt32} {ns : UInt64}
    (hstay : we = 0 → CpuRowStays acc 0 ns) : TablesOk (creditEventRow acc we ns) := by
  rw [creditEventRow]
  split
  · exact { h with }
  · rename_i acc₁ j hslot
    exact h.write_event hslot (fun _ => rfl) fun h0 e he hid =>
      (hstay h0).vacant_eq_false he hid (UInt64.add_zero _).symm rfl

theorem SummarySession.addWait_pid (mask : UInt32) (s : SummarySession) (ev : UInt32)
    (dur : UInt64) : (s.addWait mask ev dur).pid = s.pid := by
  rw [addWait]
  split_ifs <;> rfl

theorem SummarySession.addWait_dbTimeNs (mask : UInt32) (s : SummarySession) (ev : UInt32)
    (dur : UInt64) : (s.addWait mask ev dur).dbTimeNs = s.dbTimeNs := by
  rw [addWait]
  split_ifs <;> rfl

theorem SummarySession.addTime_dbTimeNs {ev : UInt32} {tns : UInt64}
    (h : isIdleEvent mask ev = true ∨ tns = 0) (s : SummarySession) (measured : Option UInt64) :
    (s.addTime mask ev tns measured).dbTimeNs = s.dbTimeNs := by
  rcases h with h | rfl
  · simp [addTime, h]
  · simp [addTime]

theorem tablesOk_accumSessionRow (h : TablesOk acc) {ev : UInt32} (dur : UInt64) {tns : UInt64}
    (hpid : pid = 0 → isIdleEvent mask ev = true ∨ tns = 0) (measured : Option UInt64) :
    TablesOk (accumSessionRow mask acc pid ev dur tns measured) := by
  rw [accumSessionRow]
  split
  · split_ifs
    · exact h
    · exact { h with }
  · rename_i acc₁ j hslot
    refine h.write_session hslot (fun s => SummarySession.addWait_pid ..) fun h0 s => ?_
    rw [SummarySession.addWait_dbTimeNs, SummarySession.addTime_dbTimeNs (hpid h0)]

theorem tablesOk_creditSessionRow (h : TablesOk acc) {we : UInt32} (ns : UInt64)
    (hpid : pid = 0 → isIdleEvent mask we = true) (measured : Option UInt64) :
    TablesOk (creditSessionRow mask acc pid we ns measured) := by
  rw [creditSessionRow]
  split
  · exact { h with }
  · rename_i acc₁ j hslot
    exact h.write_session hslot (fun _ => rfl) fun h0 s =>
      SummarySession.addTime_dbTimeNs (Or.inl (hpid h0)) s measured

theorem tablesOk_accumQueryAdd (h : TablesOk acc) (mask : UInt32) (queryId : UInt64) (ev : UInt32)
    (count total longest : UInt64) :
    TablesOk (accumQueryAdd mask acc queryId ev count total longest) := by
  rw [accumQueryAdd]
  split
  · exact h
  · rename_i acc₁ j hslot
    exact h.write_query hslot fun _ => rfl

/-- **Calls keep the tables**, if they keep the counts. -/
theorem tablesOk_accumStep {c : AccumCall} (h : TablesOk acc) (hc : KeepsCounts mask acc c) :
    TablesOk (accumStep mask acc c) := by
  cases c with
  | event evt queryId ioWorker effEvent cc =>
    rw [accumStep, accumEvent]
    simp only
    split_ifs with h₁ h₂
    · exact h
    · exact h
    · rcases hc with hexit | hmark | hio | ⟨hpid, hstay⟩
      · exact absurd (Or.inl hexit) h₁
      · exact absurd (Or.inr hmark) h₁
      · exact absurd hio h₂
      · refine tablesOk_accumQueryAdd (tablesOk_accumSessionRow ?_ _ hpid _) ..
        exact tablesOk_accumEventRow (h.set_times _ _) _ hstay
  | openCredit pid we ns measuredNs measured =>
    rw [accumStep, accumOpenCredit]
    by_cases h₁ : ns = 0
    · rw [if_pos h₁]
      exact h
    · rw [if_neg h₁]
      obtain ⟨hpid, hstay⟩ := hc.resolve_left h₁
      have hrow := tablesOk_creditEventRow
        (h.set_times acc.totalEvents (creditTimes mask acc.times we ns)) hstay
      simp only
      split
      · exact hrow
      · exact tablesOk_creditSessionRow hrow ns hpid _
  | openCpu measuredNs unknownNs records => exact h.set_times acc.totalEvents _
  | queryAdd queryId ev count total longest => exact tablesOk_accumQueryAdd h ..

end PgWaitTracer
