import PgWaitTracer.Compute.ExecIndex

/-!
# The executions index answers like the reference

For every stream of records fed to the index block by block and every window it answers, the rows
of the index have the boundaries that `pgwt_compute_executions` computes from the markers up to the
end of the window, in the same order.

The two marker machines are compared through the boundary an entry has *in a window*
(`ExecIndex.entryRow`): up to the end of the window the machines simulate each other, and past it
the index only adds rows that start later and closes that the window does not see.

## Main results

* `execSim_foldl`: the machines simulate each other over records within the window.
* `ExecCore.foldl_past_window`: records past the window are not seen in it.
* `query_eq_computeExecutions`: the contract of `src/exec_index.h`.
-/

namespace PgWaitTracer

open ExecIndex

/-! ### Open rows -/

/-- Rows on a stack exist, belong to its process and are open, and none is on a stack twice. -/
structure ExecCore.OpenOk (c : ExecCore) : Prop where
  nodup : ∀ p, (c.pids p).openRows.Nodup
  open_row : ∀ p, ∀ i ∈ (c.pids p).openRows, ∃ e, c.rows[i]? = some e ∧ e.pid = p ∧
    e.closed = false

variable {c : ExecCore} {e : ExecIndexEntry} {s : ExecState} {entries : List ExecIndexEntry}
  {ev : TraceEvent}

namespace ExecCore

theorem OpenOk.ne_of_ne (h : c.OpenOk) {p q : UInt32} {i j : ℕ} (hi : i ∈ (c.pids p).openRows)
    (hj : j ∈ (c.pids q).openRows) (hpq : p ≠ q) : i ≠ j := by
  rintro rfl
  obtain ⟨e, he, hpid, -⟩ := h.open_row p i hi
  obtain ⟨e', he', hpid', -⟩ := h.open_row q i hj
  obtain rfl : e = e' := Option.some.inj (he.symm.trans he')
  exact hpq (hpid.symm.trans hpid')

theorem OpenOk.setPlan (h : c.OpenOk) (p : UInt32) (plan : PlanCarry) :
    OpenOk { c with pids := Function.update c.pids p { (c.pids p) with plan := plan } } := by
  have hsame : ∀ q, (Function.update c.pids p { (c.pids p) with plan := plan } q).openRows =
      (c.pids q).openRows := by
    intro q
    by_cases hq : q = p
    · rw [hq, Function.update_self]
    · rw [Function.update_of_ne hq]
  refine ⟨fun q => ?_, fun q i hi => ?_⟩
  · change (Function.update c.pids p _ q).openRows.Nodup
    rw [hsame]
    exact h.nodup q
  · exact h.open_row q i (by rw [← hsame]; exact hi)

theorem OpenOk.lt_length (h : c.OpenOk) {p : UInt32} {i : ℕ} (hi : i ∈ (c.pids p).openRows) :
    i < c.rows.length := by
  obtain ⟨e, he, -⟩ := h.open_row p i hi
  exact (List.getElem?_eq_some_iff.1 he).1

theorem OpenOk.execStart (h : c.OpenOk) (ev : TraceEvent) : (c.execStart ev).OpenOk := by
  refine ⟨fun p => ?_, fun p i hi => ?_⟩
  · by_cases hp : p = ev.pid
    · subst hp
      simp only [ExecCore.execStart, Function.update_self]
      refine List.nodup_cons.2 ⟨fun hmem => ?_, h.nodup ev.pid⟩
      exact absurd (h.lt_length hmem) (lt_irrefl _)
    · simp only [ExecCore.execStart, Function.update_of_ne hp]
      exact h.nodup p
  · have hold : i ∈ (c.pids p).openRows → ∃ e, (c.execStart ev).rows[i]? = some e ∧
        e.pid = p ∧ e.closed = false := by
      intro hi
      obtain ⟨e, he, hpid, hclosed⟩ := h.open_row p i hi
      refine ⟨e, ?_, hpid, hclosed⟩
      simp only [ExecCore.execStart]
      rw [List.getElem?_append_left (h.lt_length hi), he]
    by_cases hp : p = ev.pid
    · subst hp
      simp only [ExecCore.execStart, Function.update_self, List.mem_cons] at hi
      rcases hi with rfl | hi
      · refine ⟨_, List.getElem?_concat_length, rfl, rfl⟩
      · exact hold hi
    · simp only [ExecCore.execStart, Function.update_of_ne hp] at hi
      exact hold hi

theorem getElem?_foldl_modify_of_notMem {α : Type*} {g : α → α} {j : ℕ} :
    (is : List ℕ) → (rows : List α) → j ∉ is →
      (is.foldl (fun rows i => rows.modify i g) rows)[j]? = rows[j]?
  | [], _, _ => rfl
  | i :: is, rows, hj => by
    have hij : i ≠ j := fun h => hj (h ▸ List.mem_cons_self)
    rw [List.foldl_cons, getElem?_foldl_modify_of_notMem is _ fun h => hj (List.mem_cons_of_mem i h),
      List.getElem?_modify_ne _ _ hij]

theorem OpenOk.execEnd (h : c.OpenOk) (ev : TraceEvent) : (c.execEnd ev).OpenOk := by
  rcases hstack : (c.pids ev.pid).openRows with _ | ⟨i, stack⟩
  · have hsame : c.execEnd ev = c := by simp only [ExecCore.execEnd, hstack]
    rw [hsame]
    exact h
  have hpop : c.execEnd ev =
      { rows := c.rows.modify i (ExecCore.close ev)
        pids := Function.update c.pids ev.pid
          { openRows := stack, plan := (c.pids ev.pid).plan } } := by
    simp only [ExecCore.execEnd, hstack]
  have hnodup := h.nodup ev.pid
  rw [hstack] at hnodup
  have hi : i ∈ (c.pids ev.pid).openRows := by rw [hstack]; exact List.mem_cons_self
  have hkeep : ∀ p j, j ∈ (c.pids p).openRows → i ≠ j →
      ∃ e, (c.rows.modify i (ExecCore.close ev))[j]? = some e ∧ e.pid = p ∧ e.closed = false := by
    intro p j hj hij
    rw [List.getElem?_modify_ne _ _ hij]
    exact h.open_row p j hj
  rw [hpop]
  refine ⟨fun p => ?_, fun p j hj => ?_⟩
  · by_cases hp : p = ev.pid
    · subst hp
      simp only [Function.update_self]
      exact (List.nodup_cons.1 hnodup).2
    · simp only [Function.update_of_ne hp]
      exact h.nodup p
  · by_cases hp : p = ev.pid
    · subst hp
      simp only [Function.update_self] at hj
      refine hkeep _ j (by rw [hstack]; exact List.mem_cons_of_mem i hj) ?_
      rintro rfl
      exact (List.nodup_cons.1 hnodup).1 hj
    · simp only [Function.update_of_ne hp] at hj
      exact hkeep p j hj (h.ne_of_ne hi hj (Ne.symm hp))

theorem OpenOk.cmdEnd (h : c.OpenOk) (ev : TraceEvent) : (c.cmdEnd ev).OpenOk := by
  refine ⟨fun p => ?_, fun p j hj => ?_⟩
  · by_cases hp : p = ev.pid
    · subst hp
      simp only [ExecCore.cmdEnd, Function.update_self]
      exact List.nodup_nil
    · simp only [ExecCore.cmdEnd, Function.update_of_ne hp]
      exact h.nodup p
  · by_cases hp : p = ev.pid
    · subst hp
      simp only [ExecCore.cmdEnd, Function.update_self] at hj
      exact absurd hj List.not_mem_nil
    · simp only [ExecCore.cmdEnd, Function.update_of_ne hp] at hj
      have hnot : j ∉ (c.pids ev.pid).openRows := fun hmem => h.ne_of_ne hmem hj (Ne.symm hp) rfl
      simp only [ExecCore.cmdEnd, getElem?_foldl_modify_of_notMem _ _ hnot]
      exact h.open_row p j hj

theorem OpenOk.step (h : c.OpenOk) (ev : TraceEvent) : (c.step ev).OpenOk := by
  unfold ExecCore.step
  split_ifs
  · exact h.setPlan _ _
  · exact h.setPlan _ _
  · exact h.execStart ev
  · exact h.execEnd ev
  · exact h.cmdEnd ev
  · exact h

theorem openOk_init : OpenOk {} :=
  ⟨fun _ => List.nodup_nil, fun _ _ hi => absurd hi List.not_mem_nil⟩

theorem OpenOk.foldl : (evs : List TraceEvent) → (c : ExecCore) → c.OpenOk →
    (evs.foldl ExecCore.step c).OpenOk
  | [], _, h => h
  | ev :: evs, c, h => OpenOk.foldl evs (c.step ev) (h.step ev)

end ExecCore

/-! ### Rows in a window -/

/-- The boundary of an entry in a window. -/
def windowBoundary (fromNs toNs : ℕ) (e : ExecIndexEntry) : Boundary :=
  (entryRow fromNs toNs e).boundary

/-- The rows of the two machines have the same boundaries, and no close of the index lies past the
window. -/
structure RowsSim (fromNs toNs : ℕ) (rows : List Execution) (entries : List ExecIndexEntry) :
    Prop where
  boundary : rows.map Execution.boundary = entries.map (windowBoundary fromNs toNs)
  ended : ∀ e ∈ entries, e.closed = true → e.closeNs ≤ toNs

variable {fromNs toNs : ℕ}

theorem boundary_close {r : Execution} (h : r.boundary = windowBoundary fromNs toNs e)
    (hopen : e.closed = false) (hts : ev.ts ≤ toNs) :
    (r.close ev).boundary = windowBoundary fromNs toNs (ExecCore.close ev e) := by
  simp only [Execution.boundary, windowBoundary, entryRow, hopen, Bool.not_false, Bool.true_or,
    if_true, Boundary.mk.injEq, Bool.true_eq_false, false_and, and_false, if_false] at h
  obtain ⟨h1, h2, h3, h4, h5, h6, h7, h8, h9, h10⟩ := h
  have hin : ¬toNs < ev.ts := not_lt.2 hts
  by_cases hstart : e.startNs ≤ ev.ts
  · simp [Execution.close, ExecCore.close, Execution.boundary, windowBoundary, entryRow, hstart,
      h1, h2, h3, h5, h6, h7, h9, h10, hin]
  · simp [Execution.close, ExecCore.close, Execution.boundary, windowBoundary, entryRow, hstart,
      h1, h2, h3, h4, h5, h6, h7, h8, h9, h10, hopen]

theorem boundary_closeInferred {r : Execution} (h : r.boundary = windowBoundary fromNs toNs e)
    (hended : e.closed = true → e.closeNs ≤ toNs) (hts : ev.ts ≤ toNs) :
    (r.closeInferred ev).boundary =
      windowBoundary fromNs toNs (ExecCore.closeInferred ev e) := by
  have hin : ¬toNs < ev.ts := not_lt.2 hts
  cases hclosed : e.closed with
  | true =>
    have hprog : r.inProgress = false := by
      have hb := congrArg Boundary.inProgress h
      simpa [Execution.boundary, windowBoundary, entryRow, hclosed,
        not_lt.2 (hended hclosed)] using hb
    simp [Execution.closeInferred, ExecCore.closeInferred, hprog, hclosed, h]
  | false =>
    simp only [Execution.boundary, windowBoundary, entryRow, hclosed, Bool.not_false,
      Bool.true_or, if_true, Boundary.mk.injEq, Bool.true_eq_false, false_and, and_false,
      if_false] at h
    obtain ⟨h1, h2, h3, h4, h5, h6, h7, h8, h9, h10⟩ := h
    by_cases hstart : e.startNs ≤ ev.ts
    · simp [Execution.closeInferred, ExecCore.closeInferred, Execution.boundary, windowBoundary,
        entryRow, hstart, h1, h2, h3, h5, h6, h7, h8, h10, hin, hclosed]
    · simp [Execution.closeInferred, ExecCore.closeInferred, Execution.boundary, windowBoundary,
        entryRow, hstart, h1, h2, h3, h4, h5, h6, h7, h8, h9, h10, hclosed]

theorem closeNs_close (hended : e.closed = true → e.closeNs ≤ toNs) (hts : ev.ts ≤ toNs) :
    (ExecCore.close ev e).closed = true → (ExecCore.close ev e).closeNs ≤ toNs := by
  unfold ExecCore.close
  split_ifs
  · exact fun _ => hts
  · exact hended

theorem closeNs_closeInferred (hended : e.closed = true → e.closeNs ≤ toNs) (hts : ev.ts ≤ toNs) :
    (ExecCore.closeInferred ev e).closed = true →
      (ExecCore.closeInferred ev e).closeNs ≤ toNs := by
  unfold ExecCore.closeInferred
  split_ifs
  · exact fun _ => hts
  · exact hended

/-- Changing the same row on both sides keeps the rows related. -/
theorem RowsSim.modify {rows : List Execution} (h : RowsSim fromNs toNs rows entries) {i : ℕ}
    {g : Execution → Execution} {g' : ExecIndexEntry → ExecIndexEntry}
    (hg : ∀ r e, entries[i]? = some e → r.boundary = windowBoundary fromNs toNs e →
      (g r).boundary = windowBoundary fromNs toNs (g' e))
    (hended : ∀ e ∈ entries, (g' e).closed = true → (g' e).closeNs ≤ toNs) :
    RowsSim fromNs toNs (rows.modify i g) (entries.modify i g') where
  boundary := by
    refine List.ext_getElem? fun j => ?_
    have hj : (rows[j]?).map Execution.boundary =
        (entries[j]?).map (windowBoundary fromNs toNs) := by
      rw [← List.getElem?_map, ← List.getElem?_map, h.boundary]
    rw [List.getElem?_map, List.getElem?_map]
    by_cases hij : i = j
    · subst hij
      rw [List.getElem?_modify_eq, List.getElem?_modify_eq]
      rcases hr : rows[i]? with _ | r
      · rcases he : entries[i]? with _ | e
        · rfl
        · rw [hr, he] at hj
          simp at hj
      · rcases he : entries[i]? with _ | e
        · rw [hr, he] at hj
          simp at hj
        · rw [hr, he] at hj
          simp only [Option.map_some, Option.some.injEq] at hj
          simp only [Option.map_eq_map, Option.map_some, hg r e he hj]
    · rw [List.getElem?_modify_ne _ _ hij, List.getElem?_modify_ne _ _ hij]
      exact hj
  ended := by
    intro e he
    obtain ⟨j, hj⟩ := List.mem_iff_getElem?.1 he
    by_cases hij : i = j
    · subst hij
      rw [List.getElem?_modify_eq] at hj
      obtain ⟨e', he', rfl⟩ := Option.map_eq_some_iff.1 hj
      exact hended e' (List.mem_of_getElem? he')
    · rw [List.getElem?_modify_ne _ _ hij] at hj
      exact h.ended e (List.mem_of_getElem? hj)

theorem RowsSim.closeAll (hts : ev.ts ≤ toNs) : (is : List ℕ) →
    (rows : List Execution) → (entries : List ExecIndexEntry) → RowsSim fromNs toNs rows entries →
      RowsSim fromNs toNs
        (is.foldl (fun rows i => rows.modify i (Execution.closeInferred ev)) rows)
        (is.foldl (fun rows i => rows.modify i (ExecCore.closeInferred ev)) entries)
  | [], _, _, h => h
  | i :: is, rows, entries, h => by
    refine RowsSim.closeAll hts is _ _ (h.modify (fun r e he hb => ?_) fun e he => ?_)
    · exact boundary_closeInferred hb (h.ended e (List.mem_of_getElem? he)) hts
    · exact closeNs_closeInferred (h.ended e he) hts

/-! ### The simulation -/

/-- The two machines agree on rows, stacks and plans. -/
structure ExecSim (fromNs toNs : ℕ) (s : ExecState) (c : ExecCore) : Prop where
  rows : RowsSim fromNs toNs s.rows c.rows
  stack_eq : ∀ p, (s.states p).openRows = (c.pids p).openRows
  plan_eq : ∀ p, (s.states p).plan = (c.pids p).plan

theorem ExecSim.length (h : ExecSim fromNs toNs s c) : s.rows.length = c.rows.length := by
  have hlen := congrArg List.length h.rows.boundary
  rwa [List.length_map, List.length_map] at hlen

theorem ExecSim.update (h : ExecSim fromNs toNs s c) {rows : List Execution} {p : UInt32}
    {st : ExecPidState} {cs : ExecPidCarry} (hrows : RowsSim fromNs toNs rows entries)
    (hstack : st.openRows = cs.openRows) (hplan : st.plan = cs.plan) :
    ExecSim fromNs toNs { s with rows := rows, states := Function.update s.states p st }
      { rows := entries, pids := Function.update c.pids p cs } := by
  refine ⟨hrows, fun q => ?_, fun q => ?_⟩
  · by_cases hq : q = p
    · subst hq
      simpa using hstack
    · simpa [Function.update_of_ne hq] using h.stack_eq q
  · by_cases hq : q = p
    · subst hq
      simpa using hplan
    · simpa [Function.update_of_ne hq] using h.plan_eq q

theorem ExecSim.execStart (h : ExecSim fromNs toNs s c) (hts : ev.ts ≤ toNs) :
    ExecSim fromNs toNs (PgWaitTracer.execStart fromNs toNs s ev) (c.execStart ev) := by
  simp only [PgWaitTracer.execStart, if_pos hts, ExecCore.execStart]
  refine h.update ⟨?_, ?_⟩ ?_ ?_
  · rw [List.map_append, List.map_append, h.rows.boundary, List.map_singleton, List.map_singleton,
      execRow, h.plan_eq ev.pid]
    simp [Execution.boundary, windowBoundary, entryRow]
  · refine List.forall_mem_append.2 ⟨h.rows.ended, fun e he => ?_⟩
    rw [List.mem_singleton.1 he]
    exact fun hc => absurd hc Bool.false_ne_true
  · simp only [h.length, h.stack_eq ev.pid]
  · simp only [h.plan_eq ev.pid]

theorem ExecSim.execEnd (h : ExecSim fromNs toNs s c) (hok : c.OpenOk) (hts : ev.ts ≤ toNs) :
    ExecSim fromNs toNs (PgWaitTracer.execEnd s ev) (c.execEnd ev) := by
  have hstack := h.stack_eq ev.pid
  rcases hc : (c.pids ev.pid).openRows with _ | ⟨i, stack⟩
  · rw [hc] at hstack
    have hsame : c.execEnd ev =
        { rows := c.rows, pids := Function.update c.pids ev.pid (c.pids ev.pid) } := by
      simp only [ExecCore.execEnd, hc, Function.update_eq_self]
    rw [hsame]
    simp only [PgWaitTracer.execEnd, hstack]
    exact h.update h.rows hc.symm (h.plan_eq ev.pid)
  · rw [hc] at hstack
    simp only [PgWaitTracer.execEnd, hstack, ExecCore.execEnd, hc]
    refine h.update (h.rows.modify (fun r e he hb => ?_) fun e he => ?_) rfl (h.plan_eq ev.pid)
    · obtain ⟨e', he', -, hopen⟩ := hok.open_row ev.pid i (by rw [hc]; exact List.mem_cons_self)
      obtain rfl : e = e' := Option.some.inj (he.symm.trans he')
      exact boundary_close hb hopen hts
    · exact closeNs_close (h.rows.ended e he) hts

theorem ExecSim.cmdEnd (h : ExecSim fromNs toNs s c) (hts : ev.ts ≤ toNs) :
    ExecSim fromNs toNs (PgWaitTracer.cmdEnd s ev) (c.cmdEnd ev) := by
  simp only [PgWaitTracer.cmdEnd, ExecCore.cmdEnd, h.stack_eq ev.pid]
  refine h.update (RowsSim.closeAll hts _ _ _ h.rows) rfl ?_
  rw [h.plan_eq ev.pid]

theorem ExecCore.step_of_not_marker (c : ExecCore) (h : isMarker ev.oldEvent = false) :
    c.step ev = c := by
  have hne : ∀ m, isMarker m = true → ev.oldEvent ≠ m := by
    rintro m hm rfl
    exact absurd (h.symm.trans hm) Bool.false_ne_true
  simp only [ExecCore.step, hne markerPlanStart (by decide), hne markerPlanEnd (by decide),
    hne markerExecStart (by decide), hne markerExecEnd (by decide),
    hne markerCmdEnd (by decide), if_false]

/-- **Step.** A record within the window keeps the machines related. -/
theorem ExecSim.step (h : ExecSim fromNs toNs s c) (hok : c.OpenOk) (hts : ev.ts ≤ toNs)
    (f : Filter) (links : List BackendLink)
    (hflag : isMarker ev.oldEvent = true → rightOpenFlagged ev = false) :
    ExecSim fromNs toNs (execStep fromNs toNs f links s ev) (c.step ev) := by
  cases hmark : isMarker ev.oldEvent with
  | false =>
    rw [c.step_of_not_marker hmark]
    obtain ⟨hst, hrows⟩ := execStep_boundary fromNs toNs f links s hmark
    refine ⟨⟨hrows.trans h.rows.boundary, h.rows.ended⟩, fun p => ?_, fun p => ?_⟩
    · rw [hst, h.stack_eq p]
    · rw [hst, h.plan_eq p]
  | true =>
    simp only [execStep, ExecCore.step, hflag hmark, hmark, Bool.false_eq_true, if_false,
      Bool.true_or, if_true]
    split_ifs
    · exact h.update h.rows (h.stack_eq ev.pid) (by rw [h.plan_eq ev.pid])
    · exact h.update h.rows (h.stack_eq ev.pid) (by rw [h.plan_eq ev.pid])
    · exact h.execStart hts
    · exact h.execEnd hok hts
    · exact h.cmdEnd hts
    · exact h

/-- **Run.** The machines simulate each other over records within the window. -/
theorem execSim_foldl (f : Filter) (links : List BackendLink) : (evs : List TraceEvent) →
    (s : ExecState) → (c : ExecCore) → ExecSim fromNs toNs s c → c.OpenOk →
    (∀ ev ∈ evs, ev.ts ≤ toNs) →
    (∀ ev ∈ evs, isMarker ev.oldEvent = true → rightOpenFlagged ev = false) →
      ExecSim fromNs toNs (evs.foldl (execStep fromNs toNs f links) s) (evs.foldl ExecCore.step c)
  | [], _, _, h, _, _, _ => h
  | ev :: evs, s, c, h, hok, hts, hflag => by
    refine execSim_foldl f links evs _ _ (h.step hok (hts ev List.mem_cons_self) f links
      (hflag ev List.mem_cons_self)) (hok.step ev)
      (fun x hx => hts x (List.mem_cons_of_mem ev hx))
      fun x hx => hflag x (List.mem_cons_of_mem ev hx)

/-! ### Past the window -/

theorem map_windowBoundary_modify {i : ℕ} {g : ExecIndexEntry → ExecIndexEntry}
    (hg : ∀ e, entries[i]? = some e →
      windowBoundary fromNs toNs (g e) = windowBoundary fromNs toNs e) :
    (entries.modify i g).map (windowBoundary fromNs toNs) =
      entries.map (windowBoundary fromNs toNs) := by
  refine List.ext_getElem? fun j => ?_
  rw [List.getElem?_map, List.getElem?_map]
  by_cases hij : i = j
  · subst hij
    rw [List.getElem?_modify_eq]
    rcases he : entries[i]? with _ | e
    · rfl
    · simp only [Option.map_eq_map, Option.map_some, hg e he]
  · rw [List.getElem?_modify_ne _ _ hij]

theorem windowBoundary_close (hopen : e.closed = false) (hts : toNs < ev.ts) :
    windowBoundary fromNs toNs (ExecCore.close ev e) = windowBoundary fromNs toNs e := by
  unfold ExecCore.close
  split_ifs
  · simp [windowBoundary, entryRow, Execution.boundary, hopen, hts]
  · rfl

theorem windowBoundary_closeInferred (hts : toNs < ev.ts) :
    windowBoundary fromNs toNs (ExecCore.closeInferred ev e) = windowBoundary fromNs toNs e := by
  unfold ExecCore.closeInferred
  split_ifs with h
  · have hopen : e.closed = false := by simpa using h.1
    simp [windowBoundary, entryRow, Execution.boundary, hopen, hts]
  · rfl

theorem map_windowBoundary_closeAll {ev : TraceEvent} (hts : toNs < ev.ts) : (is : List ℕ) →
    (entries : List ExecIndexEntry) →
      (is.foldl (fun rows i => rows.modify i (ExecCore.closeInferred ev)) entries).map
          (windowBoundary fromNs toNs) =
        entries.map (windowBoundary fromNs toNs)
  | [], _ => rfl
  | i :: is, entries => by
    rw [List.foldl_cons, map_windowBoundary_closeAll hts is,
      map_windowBoundary_modify fun e _ => windowBoundary_closeInferred hts]

/-- The later rows start past the window. -/
def LaterRows (toNs : ℕ) (bs : List Boundary) : Prop := ∀ b ∈ bs, toNs < b.startNs

theorem ExecCore.step_past_window (fromNs : ℕ) (hok : c.OpenOk) (hts : toNs < ev.ts) :
    ∃ later, LaterRows toNs later ∧ (c.step ev).rows.map (windowBoundary fromNs toNs) =
      c.rows.map (windowBoundary fromNs toNs) ++ later := by
  unfold ExecCore.step
  split_ifs
  · exact ⟨[], by simp [LaterRows], by simp⟩
  · exact ⟨[], by simp [LaterRows], by simp⟩
  · refine ⟨_, ?_, List.map_append⟩
    intro b hb
    rw [List.map_singleton, List.mem_singleton] at hb
    rw [hb]
    exact hts
  · refine ⟨[], by simp [LaterRows], ?_⟩
    rw [List.append_nil]
    simp only [ExecCore.execEnd]
    split
    · rfl
    · rename_i i stack hstack
      refine map_windowBoundary_modify fun e he => ?_
      obtain ⟨e', he', -, hopen⟩ :=
        hok.open_row ev.pid i (by rw [hstack]; exact List.mem_cons_self)
      obtain rfl : e = e' := Option.some.inj (he.symm.trans he')
      exact windowBoundary_close hopen hts
  · refine ⟨[], by simp [LaterRows], ?_⟩
    rw [List.append_nil]
    exact map_windowBoundary_closeAll hts _ _
  · exact ⟨[], by simp [LaterRows], by simp⟩

theorem ExecCore.foldl_past_window (fromNs toNs : ℕ) : (evs : List TraceEvent) → (c : ExecCore) → c.OpenOk →
    (∀ ev ∈ evs, toNs < ev.ts) →
      ∃ later, LaterRows toNs later ∧
        (evs.foldl ExecCore.step c).rows.map (windowBoundary fromNs toNs) =
          c.rows.map (windowBoundary fromNs toNs) ++ later
  | [], _, _, _ => ⟨[], by simp [LaterRows], by simp⟩
  | ev :: evs, c, hok, hts => by
    obtain ⟨l₁, hl₁, h₁⟩ := ExecCore.step_past_window fromNs hok
      (hts ev List.mem_cons_self)
    obtain ⟨l₂, hl₂, h₂⟩ := ExecCore.foldl_past_window fromNs toNs evs (c.step ev) (hok.step ev)
      fun x hx => hts x (List.mem_cons_of_mem ev hx)
    refine ⟨l₁ ++ l₂, List.forall_mem_append.2 ⟨hl₁, hl₂⟩, ?_⟩
    rw [List.foldl_cons, h₂, h₁, List.append_assoc]

/-! ### The contract -/

theorem retains_eq_kept (fromNs toNs : ℕ) (b : Boundary) :
    retains b.startNs b.endNs b.inProgress fromNs toNs = b.kept fromNs toNs := by
  unfold retains Boundary.kept
  split_ifs with h1 h2
  · simp [h1]
  · simp only [h2, Bool.not_true, Bool.and_false]
  · rw [Bool.not_eq_true] at h2
    simp only [h1, h2, decide_false, Bool.not_false, Bool.and_true]

theorem map_boundary_filterMap_retainedRow : (entries : List ExecIndexEntry) →
    (entries.filterMap (retainedRow fromNs toNs)).map Execution.boundary =
      (entries.map (windowBoundary fromNs toNs)).filter (Boundary.kept fromNs toNs)
  | [] => rfl
  | e :: entries => by
    have ih := map_boundary_filterMap_retainedRow entries
    have hret := retains_eq_kept fromNs toNs (windowBoundary fromNs toNs e)
    rw [List.map_cons]
    cases hkept : (windowBoundary fromNs toNs e).kept fromNs toNs with
    | true =>
      have hrow : retainedRow fromNs toNs e = some (entryRow fromNs toNs e) :=
        if_pos (hret.trans hkept)
      rw [List.filterMap_cons_some hrow, List.map_cons, List.filter_cons_of_pos hkept, ih]
      rfl
    | false =>
      have hrow : retainedRow fromNs toNs e = none :=
        if_neg fun hc => Bool.false_ne_true (hkept.symm.trans (hret.symm.trans hc))
      rw [List.filterMap_cons_none hrow, List.filter_cons_of_neg (by simp [hkept]), ih]

theorem filter_kept_later {later : List Boundary} (h : LaterRows toNs later) :
    later.filter (Boundary.kept fromNs toNs) = [] := by
  refine List.filter_eq_nil_iff.2 fun b hb => ?_
  simp [Boundary.kept, h b hb]

theorem split_at_window (toNs : ℕ) : (stream : List TraceEvent) →
    (stream.Pairwise fun x y => x.ts ≤ y.ts) →
      stream = stream.filter (fun ev => ev.ts ≤ toNs) ++ stream.filter fun ev => toNs < ev.ts
  | [], _ => rfl
  | ev :: stream, h => by
    have ih := split_at_window toNs stream h.of_cons
    by_cases hts : ev.ts ≤ toNs
    · rw [List.filter_cons_of_pos (by simpa using hts),
        List.filter_cons_of_neg (by simpa using hts), List.cons_append, ← ih]
    · have hlater : ∀ x ∈ stream, toNs < x.ts := fun x hx =>
        lt_of_lt_of_le (not_le.1 hts) (List.rel_of_pairwise_cons h hx)
      rw [List.filter_cons_of_neg (by simpa using hts),
        List.filter_cons_of_pos (by simpa using hts),
        List.filter_eq_nil_iff.2 fun x hx => by simpa using hlater x hx,
        List.filter_eq_self.2 fun x hx => by simpa using hlater x hx, List.nil_append]

/-- A record without its reader-side flags. -/
def TraceEvent.clearFlags (ev : TraceEvent) : TraceEvent := { ev with flags := 0 }

/-- The markers among records, without their flags. -/
def markersOf (evs : List TraceEvent) : List TraceEvent :=
  (evs.filter fun ev => isMarker ev.oldEvent).map TraceEvent.clearFlags

theorem ExecCore.foldl_markersOf : (evs : List TraceEvent) → (c : ExecCore) →
    (markersOf evs).foldl ExecCore.step c = evs.foldl ExecCore.step c
  | [], _ => rfl
  | ev :: evs, c => by
    cases hmark : isMarker ev.oldEvent with
    | true =>
      have hcons : markersOf (ev :: evs) = ev.clearFlags :: markersOf evs := by
        simp [markersOf, hmark]
      rw [hcons, List.foldl_cons, List.foldl_cons, ExecCore.foldl_markersOf evs]
      rfl
    | false =>
      have hcons : markersOf (ev :: evs) = markersOf evs := by simp [markersOf, hmark]
      rw [hcons, List.foldl_cons, c.step_of_not_marker hmark, ExecCore.foldl_markersOf evs]

/-- **The index answers like the reference.** Feed any stream of records to a fresh index in
consecutive blocks that it accepts, seal it, and ask for a window it answers. Then the rows have,
one by one and in order, the boundaries that `pgwt_compute_executions` gives for any array that
holds exactly the markers of the stream up to the end of the window, unflagged, interleaved with any
other records up to it, under any filter and links.

Source: `src/exec_index.h`, the contract (version 1). -/
theorem query_eq_computeExecutions (blocks : List IndexedBlock) (idx : ExecIndex)
    (hfeed : ExecIndex.addBlocks {} blocks = some idx) (fromNs toNs : UInt64) (res : QueryResult)
    (hquery : idx.sealIndex.query fromNs toNs = .ok res) (events : List TraceEvent) (f : Filter)
    (links : List BackendLink)
    (hmarkers : markersOf events =
      markersOf ((blocks.flatMap (·.events)).filter fun ev => ev.ts ≤ toNs.toNat))
    (hwindow : ∀ ev ∈ events, ev.ts ≤ toNs.toNat)
    (hflags : ∀ ev ∈ events, isMarker ev.oldEvent = true → rightOpenFlagged ev = false) :
    res.rows.map Execution.boundary =
      (computeExecutions events fromNs.toNat toNs.toNat f links).map Execution.boundary := by
  have hfed := Fed.addBlocks blocks {} idx [] fed_init hfeed
  rw [List.nil_append] at hfed
  set stream := blocks.flatMap (·.events)
  set before := stream.filter fun ev => ev.ts ≤ toNs.toNat
  set after := stream.filter fun ev => toNs.toNat < ev.ts
  have hsplit : stream = before ++ after := split_at_window toNs.toNat stream hfed.sorted
  -- up to the window, the index is a function of the markers the array holds
  have hbefore : before.foldl ExecCore.step {} = events.foldl ExecCore.step {} := by
    rw [← ExecCore.foldl_markersOf before, ← hmarkers, ExecCore.foldl_markersOf]
  have hok := ExecCore.OpenOk.foldl events {} ExecCore.openOk_init
  have hsim : ExecSim fromNs.toNat toNs.toNat
      (events.foldl (execStep fromNs.toNat toNs.toNat f links) {})
      (events.foldl ExecCore.step {}) := by
    refine execSim_foldl f links events {} {} ⟨⟨rfl, ?_⟩, fun _ => rfl, fun _ => rfl⟩
      ExecCore.openOk_init hwindow hflags
    exact fun e he => absurd he List.not_mem_nil
  obtain ⟨later, hlater, hrows⟩ := ExecCore.foldl_past_window fromNs.toNat
    toNs.toNat after (events.foldl ExecCore.step {}) hok
    fun ev hev => by simpa using (List.mem_filter.1 hev).2
  calc res.rows.map Execution.boundary
      = ((stream.foldl ExecCore.step {}).rows.map (windowBoundary fromNs.toNat toNs.toNat)).filter
          (Boundary.kept fromNs.toNat toNs.toNat) := by
        rw [query_rows hfed hquery, map_boundary_filterMap_retainedRow]
    _ = ((events.foldl ExecCore.step {}).rows.map
          (windowBoundary fromNs.toNat toNs.toNat)).filter
            (Boundary.kept fromNs.toNat toNs.toNat) := by
        rw [hsplit, List.foldl_append, hbefore, hrows, List.filter_append,
          filter_kept_later hlater, List.append_nil]
    _ = ((events.foldl (execStep fromNs.toNat toNs.toNat f links) {}).rows.map
          Execution.boundary).filter (Boundary.kept fromNs.toNat toNs.toNat) := by
        rw [hsim.rows.boundary]
    _ = (computeExecutions events fromNs.toNat toNs.toNat f links).map Execution.boundary := by
        rw [computeExecutions, List.filter_map]
        rfl

/-- A record of process 7 that only says when and what. -/
def bareRecord (ts : UInt64) (oldEvent : UInt32) (queryId : UInt64) : TraceEvent :=
  ⟨ts, 7, oldEvent, 0, 0, 0, queryId, cpuNsUnknown⟩

/-- A nested execution in a window that ends before the command does: the inner row is closed and
has taken its query id from the end marker, the outer one is in progress. -/
theorem query_eq_computeExecutions_nested :
    let blocks : List IndexedBlock :=
      [⟨0, 10, 20, [bareRecord 10 markerExecStart 0, bareRecord 12 markerExecStart 0]⟩,
        ⟨1, 15, 40, [bareRecord 20 markerExecEnd 3, bareRecord 40 markerCmdEnd 0]⟩]
    let events := [bareRecord 10 markerExecStart 0, bareRecord 11 0 0,
      bareRecord 12 markerExecStart 0, bareRecord 20 markerExecEnd 3]
    ∃ idx res, ExecIndex.addBlocks {} blocks = some idx ∧ idx.sealIndex.query 11 30 = .ok res ∧
      res.rows.map (·.inProgress) = [true, false] ∧ res.rows.map (·.queryId) = [0, 3] ∧
      res.rows.map Execution.boundary =
        (computeExecutions events (11 : UInt64).toNat (30 : UInt64).toNat {} []).map
          Execution.boundary := by
  intro blocks events
  refine ⟨_, _, rfl, rfl, by decide, by decide, ?_⟩
  exact query_eq_computeExecutions blocks _ rfl 11 30 _ rfl events {} [] (by decide) (by decide)
    (by decide)

end PgWaitTracer
