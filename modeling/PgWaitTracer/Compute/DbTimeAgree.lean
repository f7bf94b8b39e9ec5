import Mathlib.Algebra.BigOperators.Ring.Finset
import Mathlib.Tactic.Linarith
import PgWaitTracer.Compute.RankedViews

/-!
# One DB time

The time model, top events, top sessions and top queries fold the same records each in its own way.
They report one DB time: over the rows of the sessions, over the rows of the queries and the time
without a query, and over the rows of the events and the off-CPU time beside them.

## Main results

* `rankedViews_agree`.
-/

namespace PgWaitTracer

variable {mask : UInt32} {f : Filter} {fromNs toNs : ℕ}

/-- The time that the ranked views share out. -/
def sharedNs (mask : UInt32) (f : Filter) (fromNs toNs : ℕ) (evs : List TraceEvent) : ℕ :=
  ((sessionTaken mask f evs).map fun ev => eventWindowNs ev fromNs toNs).sum

/-- The time of records without a query. -/
def queryLessNs (mask : UInt32) (f : Filter) (fromNs toNs : ℕ) (evs : List TraceEvent) : ℕ :=
  (((sessionTaken mask f evs).filter (·.queryId = 0)).map fun ev =>
    eventWindowNs ev fromNs toNs).sum

/-! ### The time model and top events -/

theorem timeModel_dbTime (evs : List TraceEvent) :
    (computeTimeModel mask f fromNs toNs evs).dbTimeNs = sharedNs mask f fromNs toNs evs := by
  rw [computeTimeModel_dbTimeNs, sharedNs, sessionTaken, Tally.sum_filter_map, Nat.cast_list_sum,
    List.map_map]
  refine congrArg List.sum (List.map_congr_left fun ev _ => ?_)
  simp only [Function.comp_apply]
  split_ifs
  · rfl
  · exact Nat.cast_zero.symm

theorem isIdleEvent_of_hidden {id : UInt32} (h : isHiddenEvent id = true) :
    isIdleEvent mask id = true := by
  rw [isHiddenEvent, decide_eq_true_eq] at h
  rw [isIdleEvent, if_pos h]

theorem topEvents_dbTime (evs : List TraceEvent) :
    ((topEventsTaken f evs).map (dbNs mask fromNs toNs)).sum = sharedNs mask f fromNs toNs evs := by
  rw [sharedNs, sessionTaken, topEventsTaken, Tally.sum_filter_map, Tally.sum_filter_map]
  refine congrArg List.sum (List.map_congr_left fun ev _ => ?_)
  rw [topEventsTakes, sessionTakes, dbNs]
  by_cases hidle : isIdleEvent mask ev.oldEvent
  · simp [hidle]
  · have hshown : isHiddenEvent ev.oldEvent = false := by
      by_contra hno
      exact hidle (isIdleEvent_of_hidden (by simpa using hno))
    simp [hidle, hshown]

/-! ### The split on CPU -/

theorem rowNs_cpuRow_le (ev : TraceEvent) (clip : ℕ) : (cpuRow ev clip).rowNs ≤ clip := by
  rw [cpuRow]
  split_ifs with hmeasured
  · dsimp only
    have hle : (if (clip : ℚ) < ev.cpuNs.toNat * eventWindowFrac clip ev.dur then (clip : ℚ)
        else ev.cpuNs.toNat * eventWindowFrac clip ev.dur) ≤ clip := by
      split_ifs with hlt
      · exact le_rfl
      · exact not_lt.1 hlt
    refine Nat.le_of_lt_succ (Nat.floor_lt' (by simp) |>.2 ?_)
    push_cast
    linarith
  · exact le_rfl

theorem rowNs_eventCpu_le (ev : TraceEvent) (clip : ℕ) : (eventCpu ev clip).rowNs ≤ clip := by
  rw [eventCpu]
  split_ifs
  · exact rowNs_cpuRow_le ev clip
  · exact le_rfl

/-! ### Rows -/

theorem topSessions_dbTime (evs : List TraceEvent) :
    ((topSessions mask f fromNs toNs evs).rows.map SessionAccum.totalNs).sum =
      sharedNs mask f fromNs toNs evs := by
  refine (topSessions_rows mask f fromNs toNs evs).sum_rows (keyed_topSessions _ _) _ _
    (fun _ => rfl) fun s ev _ => ?_
  simp only [SessionAccum.addRecord]
  split_ifs <;> rfl

theorem topQueries_dbTime (evs : List TraceEvent) :
    ((topQueries mask f fromNs toNs evs).rows.map QueryAccum.totalNs).sum +
      queryLessNs mask f fromNs toNs evs = sharedNs mask f fromNs toNs evs := by
  have hrows := (topQueries_rows mask f fromNs toNs evs).sum_rows (keyed_topQueries _ _)
    QueryAccum.totalNs (fun ev => eventWindowNs ev fromNs toNs) (fun _ => rfl)
    fun _ _ _ => rfl
  rw [hrows, queryTaken, queryLessNs, Tally.sum_filter_map, Tally.sum_filter_map,
    ← List.sum_map_add, sharedNs]
  refine congrArg List.sum (List.map_congr_left fun ev _ => ?_)
  by_cases hquery : ev.queryId = 0
  · simp [hquery]
  · simp [hquery]

theorem row_add_offcpu (ev : TraceEvent) :
    (if isIdleEvent mask ev.oldEvent then 0 else
      (eventCpu ev (eventWindowNs ev fromNs toNs)).rowNs) + offcpuNs fromNs toNs ev =
      dbNs mask fromNs toNs ev := by
  rw [offcpuNs, dbNs]
  split_ifs with hidle
  · have hwait : waitClassIndex ev.oldEvent ≠ .cpu := by
      intro hcpu
      rw [waitClassIndex_eq_cpu.1 hcpu, isIdleEvent_zero] at hidle
      exact absurd hidle (by simp)
    rw [eventCpu, if_neg hwait, Nat.sub_self]
  · exact Nat.add_sub_cancel' (rowNs_eventCpu_le ev _)

theorem topEvents_rows {te : TopEventsResult} {evs : List TraceEvent}
    (hrows : Tally.Tallied TopEventAccum.eventId .new TraceEvent.oldEvent
      (TopEventAccum.addRecord fromNs toNs) te.rows (topEventsTaken f evs)) :
    ((te.rows.filter fun r => !isIdleEvent mask r.eventId).map TopEventAccum.totalNs).sum +
        ((topEventsTaken f evs).map (offcpuNs fromNs toNs)).sum =
      ((topEventsTaken f evs).map (dbNs mask fromNs toNs)).sum := by
  have hsum := hrows.sum_rows (keyed_topEvents _ _)
    (fun r => if !isIdleEvent mask r.eventId then r.totalNs else 0)
    (fun ev => if isIdleEvent mask ev.oldEvent then 0 else
      (eventCpu ev (eventWindowNs ev fromNs toNs)).rowNs)
    (fun id => by rw [TopEventAccum.new]; exact ite_self 0) fun r ev hid => by
      rw [(keyed_topEvents fromNs toNs).key_add, hid, addRecord_totalNs]
      cases isIdleEvent mask ev.oldEvent <;> rfl
  rw [Tally.sum_filter_map, hsum, ← List.sum_map_add]
  simp only [row_add_offcpu]

/-! ### Agreement -/

/-- The ranked views of one window report one DB time, and the rows of the sessions are complete. -/
structure RankedViewsAgree (mask : UInt32) (f : Filter) (fromNs toNs : ℕ) (evs : List TraceEvent)
    (te : TopEventsResult) : Prop where
  timeModel : (computeTimeModel mask f fromNs toNs evs).dbTimeNs = te.dbTimeNs
  sessions : ((topSessions mask f fromNs toNs evs).rows.map SessionAccum.totalNs).sum = te.dbTimeNs
  queries : ((topQueries mask f fromNs toNs evs).rows.map QueryAccum.totalNs).sum +
    queryLessNs mask f fromNs toNs evs = te.dbTimeNs
  events : ((te.rows.filter fun r => !isIdleEvent mask r.eventId).map TopEventAccum.totalNs).sum +
    te.offcpuNs = te.dbTimeNs
  session : ∀ s ∈ (topSessions mask f fromNs toNs evs).rows,
    s.cpuNs + s.offcpuNs + s.waitNs = s.totalNs

/-- **The ranked views agree.** With not more events than the table of top events has slots, there
are top events, and all views report their DB time. -/
theorem rankedViews_agree (mask : UInt32) (f : Filter) (fromNs toNs : ℕ) (evs : List TraceEvent)
    (h : (evs.map TraceEvent.oldEvent).toFinset.card ≤ eventHtSize) :
    ∃ te, topEvents mask f fromNs toNs evs = some te ∧
      RankedViewsAgree mask f fromNs toNs evs te := by
  have hlisted : (listedIds f evs).card ≤ eventHtSize := by
    refine le_trans (Finset.card_le_card fun id hid => ?_) h
    obtain ⟨ev, hev, rfl⟩ := List.mem_map.1 (List.mem_toFinset.1 hid)
    exact List.mem_toFinset.2 (List.mem_map_of_mem (List.mem_filter.1 hev).1)
  rcases topEvents_cases mask f fromNs toNs evs with ⟨hlt, -⟩ | ⟨-, te, hte, hrows, hdb, hoff⟩
  · exact absurd hlt (Nat.not_lt.2 hlisted)
  have hshared : te.dbTimeNs = sharedNs mask f fromNs toNs evs := hdb.trans (topEvents_dbTime evs)
  refine ⟨te, hte, ?_, ?_, ?_, ?_, ?_⟩
  · rw [hshared, timeModel_dbTime]
  · rw [hshared, topSessions_dbTime]
  · rw [hshared, topQueries_dbTime]
  · rw [hoff, hdb]
    exact topEvents_rows hrows
  · refine (topSessions_rows mask f fromNs toNs evs).forall_rows (fun _ => rfl) fun s ev hs => ?_
    have hle := rowNs_cpuRow_le ev (eventWindowNs ev fromNs toNs)
    simp only [SessionAccum.addRecord]
    split_ifs
    · dsimp only
      omega
    · dsimp only
      omega

/-- Two records on CPU, one of them measured, a wait and an idle wait. -/
theorem rankedViews_agree_four :
    ∃ te, topEvents 0 {} 5 95 [
        ⟨40, 1, 0, 0x0A000001, 0, 40, 7, 30⟩, ⟨60, 1, 0x0A000001, 0, 0, 20, 7, cpuNsUnknown⟩,
        ⟨80, 2, 0, 0x06000000, 0, 30, 0, cpuNsUnknown⟩,
        ⟨100, 2, weiClientRead, 0, 0, 20, 0, cpuNsUnknown⟩] = some te ∧
      RankedViewsAgree 0 {} 5 95 [
        ⟨40, 1, 0, 0x0A000001, 0, 40, 7, 30⟩, ⟨60, 1, 0x0A000001, 0, 0, 20, 7, cpuNsUnknown⟩,
        ⟨80, 2, 0, 0x06000000, 0, 30, 0, cpuNsUnknown⟩,
        ⟨100, 2, weiClientRead, 0, 0, 20, 0, cpuNsUnknown⟩] te :=
  rankedViews_agree 0 {} 5 95 _ (by decide)

end PgWaitTracer
