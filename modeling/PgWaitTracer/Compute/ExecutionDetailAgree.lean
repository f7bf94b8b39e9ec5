import PgWaitTracer.Compute.ExecIndexRefines
import PgWaitTracer.Compute.ExecutionDetail
import PgWaitTracer.Compute.Tag
import Mathlib.Data.List.TakeWhile

/-!
# A row and its detail

The list of executions keeps a stack of open rows for every process and counts a record for the row
on top of it, while that row is the one that just started. The detail of a row walks the records
again with a single flag. What becomes of one row in the list is a machine of its own: how many rows
are above it, whether it still takes records, and when it was closed.

## Main results

* `RowTracks.step`: the machine follows the list.
* `computeExecutionDetail_eq_iff`: the detail shows what the row says exactly when
  nothing is taken by one walk only.
-/

namespace PgWaitTracer

open ExecIndex

/-! ### One row -/

/-- An open row has a number of rows above it, a closed one none; a fresh row takes the records of its
process. -/
structure ExecTrack where
  depth : Option ℕ := some 0
  fresh : Bool := true
  endNs : ℕ := 0
  nEvents : ℕ := 0
  deriving DecidableEq, Repr

/-- A record that the list counts over the unbounded window. -/
def listRecord (p : UInt32) (ev : TraceEvent) : Bool :=
  recordOf p ev && intervalOverlaps ev.ts ev.dur 0 uint64Max

/-- One record on a row of the process. -/
def trackStep (p : UInt32) (t : ExecTrack) (ev : TraceEvent) : ExecTrack :=
  match t.depth with
  | none => t
  | some d =>
    if isMarkOf p markerExecStart ev then { t with depth := some (d + 1), fresh := false }
    else if isMarkOf p markerExecEnd ev then
      match d with
      | 0 => { t with depth := none, fresh := false, endNs := ev.ts }
      | d' + 1 => { t with depth := some d', fresh := false }
    else if isMarkOf p markerCmdEnd ev then
      { t with depth := none, fresh := false, endNs := ev.ts }
    else if t.fresh && listRecord p ev then { t with nEvents := t.nEvents + 1 }
    else t

variable {t : ExecTrack} {ev : TraceEvent}

theorem trackStep_of_ne {p : UInt32} (h : ev.pid ≠ p) : trackStep p t ev = t := by
  rw [trackStep]
  cases t.depth <;> simp [isMarkOf, listRecord, recordOf, h]

theorem trackStep_of_closed {p : UInt32} (h : t.depth = none) : trackStep p t ev = t := by
  rw [trackStep, h]

/-- Where the row is in the stack of its process. -/
def InStack (k : ℕ) (stack : List ℕ) : Option ℕ → Prop
  | none => k ∉ stack
  | some d => ∃ above below, stack = above ++ k :: below ∧ above.length = d ∧ k ∉ above ∧ k ∉ below

/-- Row `k`, which started as `base`, is in a state of the machine. -/
structure RowTracks (s : ExecState) (p : UInt32) (k : ℕ) (base : Execution) (t : ExecTrack) : Prop where
  row : ∃ q m w i, s.rows[k]? = some { base with
    queryId := q, endNs := t.endNs, inProgress := t.depth.isSome, endInferred := i
    matchesEventFilter := m, nEvents := t.nEvents, nWorkers := w }
  elsewhere : ∀ q ≠ p, k ∉ (s.states q).openRows
  stack : InStack k (s.states p).openRows t.depth
  fresh : (s.states p).attributableRow = some k ↔ t.fresh = true

/-- The stack and the freshness of every process. -/
def SameStacks (s s' : ExecState) : Prop :=
  ∀ q, (s'.states q).openRows = (s.states q).openRows ∧
    (s'.states q).topAttributable = (s.states q).topAttributable

theorem SameStacks.attributableRow {s s' : ExecState} (h : SameStacks s s') (q : UInt32) :
    (s'.states q).attributableRow = (s.states q).attributableRow := by
  rw [ExecPidState.attributableRow, ExecPidState.attributableRow, (h q).1, (h q).2]

theorem sameStacks_setPlan (s : ExecState) (q : UInt32) (plan : PlanCarry) :
    SameStacks s { s with
      states := Function.update s.states q { (s.states q) with plan := plan } } := by
  intro q'
  by_cases hq : q' = q
  · subst hq
    simp
  · simp [hq]

namespace RowTracks

variable {s s' : ExecState} {p : UInt32} {k : ℕ} {base : Execution} {t : ExecTrack}

theorem lt_length (h : RowTracks s p k base t) : k < s.rows.length := by
  obtain ⟨q, m, w, i, hrow⟩ := h.row
  exact (List.getElem?_eq_some_iff.mp hrow).1

theorem of_same (h : RowTracks s p k base t) (hrow : s'.rows[k]? = s.rows[k]?)
    (hst : SameStacks s s') : RowTracks s' p k base t where
  row := by
    rw [hrow]
    exact h.row
  elsewhere q hq := by
    rw [(hst q).1]
    exact h.elsewhere q hq
  stack := by
    rw [(hst p).1]
    exact h.stack
  fresh := by
    rw [hst.attributableRow]
    exact h.fresh

theorem fresh_of_closed (h : RowTracks s p k base t) (hd : t.depth = none) : t.fresh = false := by
  have hstack := h.stack
  rw [hd] at hstack
  by_contra hf
  have hat := h.fresh.mpr (Bool.not_eq_false _ ▸ hf)
  rw [ExecPidState.attributableRow] at hat
  split_ifs at hat
  exact hstack (List.mem_of_head? hat)

theorem updateOther (h : RowTracks s p k base t) {q : UInt32} (hq : q ≠ p) {st : ExecPidState}
    {rows : List Execution} (hrow : rows[k]? = s.rows[k]?) (hk : k ∉ st.openRows) :
    RowTracks { s with rows := rows, states := Function.update s.states q st } p k base t where
  row := by
    rw [hrow]
    exact h.row
  elsewhere q' hq' := by
    by_cases hqq : q' = q
    · subst hqq
      simpa using hk
    · simpa [hqq] using h.elsewhere q' hq'
  stack := by simpa [Ne.symm hq] using h.stack
  fresh := by simpa [Ne.symm hq] using h.fresh

theorem updateOwn (h : RowTracks s p k base t) {t' : ExecTrack} {st : ExecPidState}
    {rows : List Execution}
    (hrow : ∃ q m w i, rows[k]? = some { base with
      queryId := q, endNs := t'.endNs, inProgress := t'.depth.isSome, endInferred := i
      matchesEventFilter := m, nEvents := t'.nEvents, nWorkers := w })
    (hstack : InStack k st.openRows t'.depth)
    (hfresh : st.attributableRow = some k ↔ t'.fresh = true) :
    RowTracks { s with rows := rows, states := Function.update s.states p st } p k base t' where
  row := hrow
  elsewhere q hq := by simpa [hq] using h.elsewhere q hq
  stack := by simpa using hstack
  fresh := by simpa using hfresh

/-- `EXEC_START`. -/
theorem execStart (h : RowTracks s p k base t) (hr : rightOpenFlagged ev = false)
    (hm : ev.oldEvent = markerExecStart) :
    RowTracks (PgWaitTracer.execStart 0 uint64Max s ev) p k base (trackStep p t ev) := by
  have hts : ev.ts ≤ uint64Max := Nat.le_sub_one_of_lt ev.timestampNs.toNat_lt
  have hlt := h.lt_length
  have hkeep : ∀ r, (s.rows ++ [r])[k]? = s.rows[k]? := fun r => List.getElem?_append_left hlt
  rw [PgWaitTracer.execStart, if_pos hts]
  by_cases hp : ev.pid = p
  · subst hp
    have hmark : isMarkOf ev.pid markerExecStart ev = true := by simp [isMarkOf, hr, hm]
    have hstack := h.stack
    cases hd : t.depth with
    | none =>
      rw [hd] at hstack
      rw [trackStep_of_closed hd]
      refine h.updateOwn ?_ ?_ ?_
      · rw [hkeep]
        exact h.row
      · rw [hd]
        exact fun hk => hstack ((List.mem_cons.mp hk).resolve_left (by omega))
      · rw [h.fresh_of_closed hd]
        simp only [ExecPidState.attributableRow, if_true, List.head?_cons, Option.some.injEq,
          Bool.false_eq_true, iff_false]
        omega
    | some d =>
      have ht : trackStep ev.pid t ev = { t with depth := some (d + 1), fresh := false } := by
        rw [trackStep, hd]
        exact if_pos hmark
      rw [hd] at hstack
      obtain ⟨above, below, hopen, hlen, ha, hb⟩ := hstack
      rw [ht]
      refine h.updateOwn ?_ ?_ ?_
      · rw [hkeep]
        simpa [hd] using h.row
      · refine ⟨s.rows.length :: above, below, by rw [hopen]; rfl, by simp [hlen], ?_, hb⟩
        exact fun hk => ha ((List.mem_cons.mp hk).resolve_left (by omega))
      · simp only [ExecPidState.attributableRow, if_true, List.head?_cons, Option.some.injEq,
          Bool.false_eq_true, iff_false]
        omega
  · rw [trackStep_of_ne hp]
    refine h.updateOther hp (hkeep _) fun hk => ?_
    exact h.elsewhere _ hp ((List.mem_cons.mp hk).resolve_left (by omega))

/-- `EXEC_END`. -/
theorem execEnd (h : RowTracks s p k base t) (hr : rightOpenFlagged ev = false)
    (hm : ev.oldEvent = markerExecEnd) (hts : base.startNs ≤ ev.ts) :
    RowTracks (PgWaitTracer.execEnd s ev) p k base (trackStep p t ev) := by
  have hkeep : ∀ i, i ≠ k → (s.rows.modify i (Execution.close ev))[k]? = s.rows[k]? :=
    fun i hi => List.getElem?_modify_ne _ _ hi
  rw [PgWaitTracer.execEnd]
  by_cases hp : ev.pid = p
  · subst hp
    have hmark : isMarkOf ev.pid markerExecEnd ev = true := by simp [isMarkOf, hr, hm]
    have hnot := isMarkOf_of_ne markerExecStart hmark (by decide)
    have hstack := h.stack
    cases hd : t.depth with
    | none =>
      rw [hd] at hstack
      rw [trackStep_of_closed hd]
      have hf := h.fresh_of_closed hd
      cases hopen : (s.states ev.pid).openRows with
      | nil =>
        refine h.updateOwn h.row ?_ ?_
        · rw [hd]
          simp [InStack]
        · simp [ExecPidState.attributableRow, hf]
      | cons i stack =>
        rw [hopen] at hstack
        refine h.updateOwn ?_ ?_ ?_
        · rw [hkeep i fun hi => hstack (hi ▸ List.mem_cons_self)]
          exact h.row
        · rw [hd]
          exact fun hk => hstack (List.mem_cons_of_mem i hk)
        · simp [ExecPidState.attributableRow, hf]
    | some d =>
      rw [hd] at hstack
      obtain ⟨above, below, hopen, hlen, ha, hb⟩ := hstack
      cases above with
      | nil =>
        have ht : trackStep ev.pid t ev =
            { t with depth := none, fresh := false, endNs := ev.ts } := by
          rw [trackStep, hd, ← hlen]
          simp [hmark, hnot]
        rw [hopen, ht]
        refine h.updateOwn ?_ hb (by simp [ExecPidState.attributableRow])
        obtain ⟨q, m, w, i, hrow⟩ := h.row
        rw [List.getElem?_modify_eq, hrow]
        refine ⟨if q = 0 then ev.queryId else q, m, w, i, ?_⟩
        simp [Execution.close, hts]
      | cons j above =>
        have ht : trackStep ev.pid t ev =
            { t with depth := some above.length, fresh := false } := by
          rw [trackStep, hd, ← hlen]
          simp [hmark, hnot]
        rw [hopen, ht]
        refine h.updateOwn ?_ ?_ (by simp [ExecPidState.attributableRow])
        · rw [hkeep j fun hj => ha (hj ▸ List.mem_cons_self)]
          simpa [hd] using h.row
        · exact ⟨above, below, rfl, rfl, fun hk => ha (List.mem_cons_of_mem j hk), hb⟩
  · rw [trackStep_of_ne hp]
    have hnot := h.elsewhere _ hp
    cases hopen : (s.states ev.pid).openRows with
    | nil => exact h.updateOther hp rfl List.not_mem_nil
    | cons i stack =>
      rw [hopen] at hnot
      exact h.updateOther hp (hkeep i fun hi => hnot (hi ▸ List.mem_cons_self))
        fun hk => hnot (List.mem_cons_of_mem i hk)

/-- `CMD_END`. -/
theorem cmdEnd (h : RowTracks s p k base t) (hr : rightOpenFlagged ev = false)
    (hm : ev.oldEvent = markerCmdEnd) (hts : base.startNs ≤ ev.ts) :
    RowTracks (PgWaitTracer.cmdEnd s ev) p k base (trackStep p t ev) := by
  rw [PgWaitTracer.cmdEnd]
  by_cases hp : ev.pid = p
  · subst hp
    have hmark : isMarkOf ev.pid markerCmdEnd ev = true := by simp [isMarkOf, hr, hm]
    have hnot := isMarkOf_of_ne markerExecStart hmark (by decide)
    have hnot' := isMarkOf_of_ne markerExecEnd hmark (by decide)
    have hstack := h.stack
    cases hd : t.depth with
    | none =>
      rw [hd] at hstack
      rw [trackStep_of_closed hd]
      refine h.updateOwn ?_ ?_ ?_
      · rw [ExecCore.getElem?_foldl_modify_of_notMem _ _ hstack]
        exact h.row
      · rw [hd]
        exact List.not_mem_nil
      · simp [ExecPidState.attributableRow, h.fresh_of_closed hd]
    | some d =>
      rw [hd] at hstack
      obtain ⟨above, below, hopen, hlen, ha, hb⟩ := hstack
      have ht : trackStep ev.pid t ev = { t with depth := none, fresh := false, endNs := ev.ts } := by
        rw [trackStep, hd]
        simp [hmark, hnot, hnot']
      rw [hopen, ht]
      refine h.updateOwn ?_ List.not_mem_nil (by simp [ExecPidState.attributableRow])
      obtain ⟨q, m, w, i, hrow⟩ := h.row
      rw [List.foldl_append, List.foldl_cons, ExecCore.getElem?_foldl_modify_of_notMem _ _ hb,
        List.getElem?_modify_eq, ExecCore.getElem?_foldl_modify_of_notMem _ _ ha, hrow]
      refine ⟨q, m, w, true, ?_⟩
      simp [Execution.closeInferred, hts, hd]
  · rw [trackStep_of_ne hp]
    refine h.updateOther hp ?_ List.not_mem_nil
    exact ExecCore.getElem?_foldl_modify_of_notMem _ _ (h.elsewhere _ hp)

theorem countWorker (h : RowTracks s p k base t) (hit : Bool) (links : List BackendLink)
    (ev : TraceEvent) : RowTracks (PgWaitTracer.countWorker hit links s ev) p k base t := by
  unfold PgWaitTracer.countWorker
  split
  · exact h
  · split
    · exact h
    · next wi i _ =>
      split_ifs
      · refine ⟨?_, h.elsewhere, h.stack, h.fresh⟩
        obtain ⟨q, m, w, e, hrow⟩ := h.row
        by_cases hi : i = k
        · subst hi
          refine ⟨q, 1, w + 1, e, ?_⟩
          rw [List.getElem?_modify_eq, hrow]
          rfl
        · refine ⟨q, m, w, e, ?_⟩
          rw [List.getElem?_modify_ne _ _ hi, hrow]
      · exact h

/-- A record counts for the row while it is fresh. -/
theorem countOwn (h : RowTracks s p k base t) (hit : Bool) (ev : TraceEvent) :
    RowTracks (PgWaitTracer.countOwn hit s ev) p k base
      (if ev.pid = p ∧ t.fresh = true ∧ hit = true then { t with nEvents := t.nEvents + 1 }
        else t) := by
  unfold PgWaitTracer.countOwn
  cases hat : (s.states ev.pid).attributableRow with
  | none =>
    have hnot : ¬ (ev.pid = p ∧ t.fresh = true ∧ hit = true) := by
      rintro ⟨hp, hf, -⟩
      rw [hp, h.fresh.mpr hf] at hat
      cases hat
    rw [if_neg hnot]
    exact h
  | some i =>
    cases hit with
    | false => simpa using h
    | true =>
      simp only [if_true, and_true]
      by_cases hi : i = k
      · subst hi
        have hp : ev.pid = p := by
          by_contra hp
          refine h.elsewhere _ hp ?_
          rw [ExecPidState.attributableRow] at hat
          split_ifs at hat
          exact List.mem_of_head? hat
        rw [hp] at hat
        rw [if_pos ⟨hp, h.fresh.mp hat⟩]
        refine ⟨?_, h.elsewhere, h.stack, h.fresh⟩
        obtain ⟨q, m, w, e, hrow⟩ := h.row
        refine ⟨q, 1, w, e, ?_⟩
        rw [List.getElem?_modify_eq, hrow]
        rfl
      · rw [if_neg]
        · refine ⟨?_, h.elsewhere, h.stack, h.fresh⟩
          rw [List.getElem?_modify_ne _ _ hi]
          exact h.row
        · rintro ⟨hp, hf⟩
          rw [hp, h.fresh.mpr hf] at hat
          exact hi (Option.some_inj.mp hat).symm

/-- **Step.** The machine of a row follows the list. -/
theorem step (h : RowTracks s p k base t) (links : List BackendLink) (hts : base.startNs ≤ ev.ts) :
    RowTracks (execStep 0 uint64Max {} links s ev) p k base (trackStep p t ev) := by
  cases hr : rightOpenFlagged ev with
  | true =>
    have ht : trackStep p t ev = t := by
      rw [trackStep]
      cases t.depth <;> simp [isMarkOf, listRecord, recordOf, hr]
    rw [ht]
    simpa [execStep, hr] using h
  | false =>
    have hinert : isMarker ev.oldEvent = true → ev.oldEvent ≠ markerExecStart →
        ev.oldEvent ≠ markerExecEnd → ev.oldEvent ≠ markerCmdEnd → trackStep p t ev = t := by
      intro hm h1 h2 h3
      rw [trackStep]
      cases t.depth <;> simp [isMarkOf, listRecord, recordOf, hm, h1, h2, h3]
    simp only [execStep, hr, Bool.false_eq_true, if_false]
    split_ifs with h1 h2 h3 h4 h5 h6
    · rw [hinert (by rw [h1]; decide) (by rw [h1]; decide) (by rw [h1]; decide)
        (by rw [h1]; decide)]
      exact h.of_same rfl (sameStacks_setPlan s ev.pid _)
    · rw [hinert (by rw [h2]; decide) (by rw [h2]; decide) (by rw [h2]; decide)
        (by rw [h2]; decide)]
      exact h.of_same rfl (sameStacks_setPlan s ev.pid _)
    · exact h.execStart hr h3
    · exact h.execEnd hr h4 hts
    · exact h.cmdEnd hr h5 hts
    · have ht : trackStep p t ev = t := by
        rw [trackStep]
        cases t.depth with
        | none => rfl
        | some d =>
          rw [Bool.or_eq_true] at h6
          rcases h6 with h6 | h6
          · simp [isMarkOf, listRecord, recordOf, h3, h4, h5, h6]
          · have hs : ¬ ev.flags &&& flagSample = 0 := by simpa using h6
            simp [isMarkOf, listRecord, recordOf, h3, h4, h5, hs]
      rw [ht]
      exact h
    · have ht : trackStep p t ev = if ev.pid = p ∧ t.fresh = true ∧
          (intervalOverlaps ev.ts ev.dur 0 uint64Max && filterMatches {} ev) = true
          then { t with nEvents := t.nEvents + 1 } else t := by
        have hm : isMarker ev.oldEvent = false ∧ ev.flags &&& flagSample = 0 := by
          simpa using h6
        cases hd : t.depth with
        | none => rw [trackStep_of_closed hd, h.fresh_of_closed hd, if_neg (by simp)]
        | some d =>
          rw [trackStep, hd]
          simp only [isMarkOf, h3, h4, h5, decide_false, Bool.and_false, Bool.false_eq_true, if_false]
          refine if_congr ?_ rfl rfl
          simp only [listRecord, recordOf, hr, hm.1, hm.2, Bool.and_eq_true, decide_eq_true_eq]
          tauto
      rw [ht]
      exact (h.countOwn _ ev).countWorker _ links ev

/-- **Run.** -/
theorem foldl (links : List BackendLink) : (evs : List TraceEvent) → {s : ExecState} →
    {t : ExecTrack} → RowTracks s p k base t → (∀ ev ∈ evs, base.startNs ≤ ev.ts) →
      RowTracks (evs.foldl (execStep 0 uint64Max {} links) s) p k base (evs.foldl (trackStep p) t)
  | [], _, _, h, _ => h
  | ev :: evs, _, _, h, hts => RowTracks.foldl links evs (h.step links (hts ev List.mem_cons_self))
      fun e he => hts e (List.mem_cons_of_mem ev he)

end RowTracks

/-! ### What the machine counts -/

section Track

variable {p : UInt32}

/-- A record after which the row takes no more. -/
def closes (p : UInt32) (ev : TraceEvent) : Bool := endsInside p ev || isMarkOf p markerCmdEnd ev

theorem trackStep_of_stale (ev : TraceEvent) (h : t.fresh = false) :
    (trackStep p t ev).fresh = false ∧ (trackStep p t ev).nEvents = t.nEvents ∧
      ((trackStep p t ev).depth = none → t.depth = none ∨ (trackStep p t ev).endNs = ev.ts) := by
  cases hd : t.depth with
  | none =>
    rw [trackStep_of_closed hd]
    exact ⟨h, rfl, fun _ => Or.inl rfl⟩
  | some d =>
    rw [trackStep, hd]
    dsimp only
    by_cases h1 : isMarkOf p markerExecStart ev = true
    · simp [h1]
    by_cases h2 : isMarkOf p markerExecEnd ev = true
    · cases d <;> simp [h1, h2]
    by_cases h3 : isMarkOf p markerCmdEnd ev = true
    · simp [h1, h2, h3]
    · simp [h1, h2, h3, h, hd]

theorem foldl_trackStep_of_stale (evs : List TraceEvent) (h : t.fresh = false) :
    let t' := evs.foldl (trackStep p) t
    t'.nEvents = t.nEvents ∧ (t.depth = none → t' = t) ∧
      (t'.depth = none → t.depth = none ∨ ∃ ev ∈ evs, t'.endNs = ev.ts) := by
  induction evs generalizing t with
  | nil => exact ⟨rfl, fun _ => rfl, fun hd => Or.inl hd⟩
  | cons ev evs ih =>
    obtain ⟨hfresh, hn, hclosed⟩ := trackStep_of_stale (p := p) ev h
    obtain ⟨hn', hsame', hclosed'⟩ := ih hfresh
    refine ⟨hn'.trans hn, fun hd => ?_, fun hd => ?_⟩
    · have hsame : trackStep p t ev = t := trackStep_of_closed hd
      rw [hsame] at hsame'
      rw [List.foldl_cons, hsame]
      exact hsame' hd
    · rcases hclosed' hd with hd' | ⟨e, he, hend⟩
      · rcases hclosed hd' with hd'' | hend
        · exact Or.inl hd''
        · refine Or.inr ⟨ev, List.mem_cons_self, ?_⟩
          rw [List.foldl_cons, hsame' hd', hend]
      · exact Or.inr ⟨e, List.mem_cons_of_mem ev he, hend⟩

theorem trackStep_fresh (n : ℕ) (ev : TraceEvent) :
    if closes p ev then
      (trackStep p { nEvents := n } ev).fresh = false ∧
        (trackStep p { nEvents := n } ev).nEvents = n ∧
        ((trackStep p { nEvents := n } ev).depth = none →
          (trackStep p { nEvents := n } ev).endNs = ev.ts)
    else trackStep p { nEvents := n } ev =
      { nEvents := n + if listRecord p ev then 1 else 0 } := by
  simp only [closes, endsInside, trackStep]
  by_cases h1 : isMarkOf p markerExecStart ev = true
  · simp [h1]
  by_cases h2 : isMarkOf p markerExecEnd ev = true
  · simp [h1, h2]
  by_cases h3 : isMarkOf p markerCmdEnd ev = true
  · simp [h1, h2, h3]
  by_cases h4 : listRecord p ev = true
  · simp [h1, h2, h3, h4]
  · simp [h1, h2, h3, h4]

/-- **A row counts the records up to the first start, end or command end of its process**, and its end
is later than all of them. -/
theorem foldl_trackStep_fresh (post : List TraceEvent) (n : ℕ)
    (hts : post.Pairwise fun a b => a.ts < b.ts) :
    let t := post.foldl (trackStep p) { nEvents := n }
    t.nEvents = n + (post.takeWhile fun ev => !closes p ev).countP (listRecord p) ∧
      (t.depth = none → ∀ ev ∈ post.takeWhile (fun ev => !closes p ev), ev.ts < t.endNs) ∧
      (t.depth = none → ∃ ev ∈ post, t.endNs = ev.ts) := by
  induction post generalizing n with
  | nil => exact ⟨rfl, nofun, nofun⟩
  | cons ev post ih =>
    have hfresh := trackStep_fresh (p := p) n ev
    rw [List.takeWhile_cons]
    cases hc : closes p ev with
    | true =>
      rw [if_pos hc] at hfresh
      obtain ⟨hf, hn, hend⟩ := hfresh
      obtain ⟨hn', hsame, hclosed⟩ := foldl_trackStep_of_stale (p := p) post hf
      refine ⟨hn'.trans hn, fun _ => by simp, fun hd => ?_⟩
      rcases hclosed hd with hd' | ⟨e, he, hend'⟩
      · refine ⟨ev, List.mem_cons_self, ?_⟩
        rw [List.foldl_cons, hsame hd', hend hd']
      · exact ⟨e, List.mem_cons_of_mem ev he, hend'⟩
    | false =>
      rw [if_neg (by simp [hc])] at hfresh
      obtain ⟨hn, hlt, hex⟩ := ih (n + if listRecord p ev then 1 else 0) hts.of_cons
      rw [← hfresh] at hn hlt hex
      simp only [Bool.not_false, if_true, List.countP_cons]
      refine ⟨?_, fun hd e he => ?_, fun hd => ?_⟩
      · rw [List.foldl_cons, hn]
        omega
      · rcases List.mem_cons.mp he with rfl | he
        · obtain ⟨x, hx, hend⟩ := hex hd
          rw [List.foldl_cons, hend]
          exact List.rel_of_pairwise_cons hts hx
        · exact hlt hd e he
      · obtain ⟨e, he, hend⟩ := hex hd
        exact ⟨e, List.mem_cons_of_mem ev he, hend⟩

end Track

/-! ### The rows and their starts -/

/-- Every open row exists. -/
def StacksBelow (s : ExecState) : Prop := ∀ q, ∀ i ∈ (s.states q).openRows, i < s.rows.length

section Rows

variable {s : ExecState} {ev : TraceEvent} {links : List BackendLink}

/-- A start that the list opens a row for. -/
def opensRow (ev : TraceEvent) : Bool := isMarkOf ev.pid markerExecStart ev

theorem length_foldl_modify_closeInferred (ev : TraceEvent) (is : List ℕ) (rows : List Execution) :
    (is.foldl (fun rows i => rows.modify i (Execution.closeInferred ev)) rows).length =
      rows.length := by
  induction is generalizing rows with
  | nil => rfl
  | cons i is ih => rw [List.foldl_cons, ih, List.length_modify]

variable (links ev) in
/-- Only a start adds a row, and only its number. -/
theorem execStep_rows (hs : StacksBelow s) :
    let s' := execStep 0 uint64Max {} links s ev
    s'.rows.length = s.rows.length + (if opensRow ev then 1 else 0) ∧ StacksBelow s' := by
  intro s'
  have hkeep : ∀ {rows : List Execution} {st : ExecPidState} {q : UInt32},
      rows.length = s.rows.length → (∀ i ∈ st.openRows, i ∈ (s.states q).openRows) →
      StacksBelow { s with rows := rows, states := Function.update s.states q st } := by
    intro rows st q hlen hsub q' i hi
    change i < rows.length
    rw [hlen]
    by_cases hq : q' = q
    · subst hq
      simp only [Function.update_self] at hi
      exact hs q' i (hsub i hi)
    · simp only [Function.update_of_ne hq] at hi
      exact hs q' i hi
  have hno : rightOpenFlagged ev = true ∨ ev.oldEvent ≠ markerExecStart → opensRow ev = false := by
    rintro (h | h) <;> simp [opensRow, isMarkOf, h]
  simp only [s', execStep]
  by_cases hr : rightOpenFlagged ev = true
  · rw [if_pos hr, hno (Or.inl hr)]
    exact ⟨rfl, hs⟩
  rw [if_neg hr]
  by_cases h1 : ev.oldEvent = markerPlanStart
  · rw [if_pos h1, hno (Or.inr (by rw [h1]; decide))]
    exact ⟨rfl, hkeep rfl fun i hi => hi⟩
  by_cases h2 : ev.oldEvent = markerPlanEnd
  · rw [if_neg h1, if_pos h2, hno (Or.inr (by rw [h2]; decide))]
    exact ⟨rfl, hkeep rfl fun i hi => hi⟩
  by_cases h3 : ev.oldEvent = markerExecStart
  · have hopen : opensRow ev = true := by simp [opensRow, isMarkOf, h3, hr]
    have hts : ev.ts ≤ uint64Max := Nat.le_sub_one_of_lt ev.timestampNs.toNat_lt
    rw [if_neg h1, if_neg h2, if_pos h3, hopen, execStart, if_pos hts]
    refine ⟨by simp, fun q i hi => ?_⟩
    rw [List.length_append, List.length_singleton]
    by_cases hq : q = ev.pid
    · subst hq
      simp only [Function.update_self, List.mem_cons] at hi
      rcases hi with rfl | hi
      · omega
      · exact Nat.lt_succ_of_lt (hs _ i hi)
    · simp only [Function.update_of_ne hq] at hi
      exact Nat.lt_succ_of_lt (hs q i hi)
  rw [if_neg h1, if_neg h2, if_neg h3, hno (Or.inr h3), if_neg Bool.false_ne_true, Nat.add_zero]
  split_ifs with h4 h5 h6
  · simp only [execEnd]
    cases hopen : (s.states ev.pid).openRows with
    | nil => exact ⟨rfl, hkeep rfl fun i hi => absurd hi List.not_mem_nil⟩
    | cons j stack =>
      exact ⟨List.length_modify .., hkeep (List.length_modify ..) fun i hi => by
        rw [hopen]
        exact List.mem_cons_of_mem j hi⟩
  · exact ⟨length_foldl_modify_closeInferred ev _ _,
      hkeep (length_foldl_modify_closeInferred ev _ _) fun i hi => absurd hi List.not_mem_nil⟩
  · exact ⟨rfl, hs⟩
  · obtain ⟨hst, hrows⟩ := countEvent_boundary 0 uint64Max {} links s ev
    have hlen : (countEvent 0 uint64Max {} links s ev).rows.length = s.rows.length := by
      simpa using congrArg List.length hrows
    refine ⟨hlen, fun q i hi => ?_⟩
    rw [hlen]
    rw [hst] at hi
    exact hs q i hi

variable (links) in
theorem exists_opensRow : (evs : List TraceEvent) → (s : ExecState) → StacksBelow s → (k : ℕ) →
    s.rows.length ≤ k → k < (evs.foldl (execStep 0 uint64Max {} links) s).rows.length →
      ∃ pre st post, evs = pre ++ st :: post ∧ opensRow st = true ∧
        StacksBelow (pre.foldl (execStep 0 uint64Max {} links) s) ∧
        (pre.foldl (execStep 0 uint64Max {} links) s).rows.length = k
  | [], s, _, k, hle, hlt => by
    rw [List.foldl_nil] at hlt
    omega
  | ev :: evs, s, hs, k, hle, hlt => by
    obtain ⟨hlen, hs'⟩ := execStep_rows ev links hs
    by_cases hk : opensRow ev = true ∧ s.rows.length = k
    · exact ⟨[], ev, evs, rfl, hk.1, hs, hk.2⟩
    · have hle' : (execStep 0 uint64Max {} links s ev).rows.length ≤ k := by
        rw [hlen]
        split_ifs with ho
        · have : s.rows.length ≠ k := fun h => hk ⟨ho, h⟩
          omega
        · omega
      obtain ⟨pre, st, post, rfl, ho, hsb, hk'⟩ := exists_opensRow evs _ hs' k hle' hlt
      exact ⟨ev :: pre, st, post, rfl, ho, hsb, hk'⟩

variable (links) in
theorem rowTracks_start (hs : StacksBelow s) (ho : opensRow ev = true) :
    RowTracks (execStep 0 uint64Max {} links s ev) ev.pid s.rows.length
      (execRow 0 (s.states ev.pid).plan ev) {} := by
  simp only [opensRow, isMarkOf, Bool.and_eq_true, decide_eq_true_eq, Bool.not_eq_true'] at ho
  have hts : ev.ts ≤ uint64Max := Nat.le_sub_one_of_lt ev.timestampNs.toNat_lt
  have hnot : ∀ q, s.rows.length ∉ (s.states q).openRows := fun q h => (hs q _ h).false
  have hstep : execStep 0 uint64Max {} links s ev = execStart 0 uint64Max s ev := by
    simp [execStep, ho.1, ho.2.2, markerPlanStart, markerPlanEnd, markerExecStart]
  rw [hstep, execStart, if_pos hts]
  refine ⟨⟨ev.queryId, 0, 0, false, ?_⟩, fun q hq => ?_, ⟨[], _, ?_, rfl, List.not_mem_nil, hnot ev.pid⟩, ?_⟩
  · rw [List.getElem?_concat_length]
    rfl
  · simpa [hq] using hnot q
  · simp
  · simp [ExecPidState.attributableRow]

end Rows

/-! ### The plans of both walks -/

/-- The plan of the list, which `CMD_END` clears, inside the plan of the detail, which it does not. -/
structure PlanCarry.Within (c d : PlanCarry) : Prop where
  opened : c.planOpen = true →
    d.planOpen = true ∧ d.planStartNs = c.planStartNs ∧ d.planQueryId = c.planQueryId
  ready : c.planReady = true → d.planReady = true ∧ d.readyPlanStartNs = c.readyPlanStartNs ∧
    d.readyPlanEndNs = c.readyPlanEndNs ∧ d.readyPlanQueryId = c.readyPlanQueryId ∧
    (d.planOpen = true → c.planOpen = true)

namespace PlanCarry.Within

variable {c d : PlanCarry}

theorem start (h : c.Within d) (ev : TraceEvent) : (c.start ev).Within (d.start ev) where
  opened _ := ⟨rfl, rfl, rfl⟩
  ready hr := by
    obtain ⟨h1, h2, h3, h4, -⟩ := h.ready hr
    exact ⟨h1, h2, h3, h4, fun _ => rfl⟩

theorem finish (h : c.Within d) (ev : TraceEvent) : (c.finish ev).Within (d.finish ev) where
  opened ho := by simp [PlanCarry.finish] at ho
  ready hr := by
    by_cases ho : c.planOpen = true
    · obtain ⟨hd, hstart, hqid⟩ := h.opened ho
      by_cases hts : c.planStartNs ≤ ev.ts
      · simp [PlanCarry.finish, ho, hd, hstart, hqid, hts]
      · have hc : c.planReady = true := by simpa [PlanCarry.finish, hts] using hr
        obtain ⟨h1, h2, h3, h4, -⟩ := h.ready hc
        simp [PlanCarry.finish, hts, hstart, h1, h2, h3, h4]
    · have hc : c.planReady = true := by simpa [PlanCarry.finish, ho] using hr
      obtain ⟨h1, h2, h3, h4, h5⟩ := h.ready hc
      have hd : ¬ d.planOpen = true := fun hd => ho (h5 hd)
      simp [PlanCarry.finish, ho, hd, h1, h2, h3, h4]

theorem consume (h : c.Within d) : c.consume.Within d.consume where
  opened := h.opened
  ready hr := by simp [PlanCarry.consume] at hr

theorem clear (d : PlanCarry) : c.clear.Within d where
  opened ho := by simp [PlanCarry.clear] at ho
  ready hr := by simp [PlanCarry.clear] at hr

theorem attaches (h : c.Within d) {queryId : UInt64} (ha : c.attaches queryId = true) :
    d.attaches queryId = true ∧ d.readyPlanStartNs = c.readyPlanStartNs ∧
      d.readyPlanEndNs = c.readyPlanEndNs := by
  rw [PlanCarry.attaches, Bool.and_eq_true] at ha
  obtain ⟨h1, h2, h3, h4, -⟩ := h.ready ha.1
  refine ⟨?_, h2, h3⟩
  rw [PlanCarry.attaches, h1, h4, Bool.true_and]
  exact ha.2

end PlanCarry.Within

theorem states_countEvent (links : List BackendLink) (s : ExecState) (ev : TraceEvent) :
    (countEvent 0 uint64Max {} links s ev).states = s.states :=
  (countEvent_boundary 0 uint64Max {} links s ev).1

/-- The plan of a process after one record of the list. -/
theorem plan_execStep (links : List BackendLink) (s : ExecState) (p : UInt32) (ev : TraceEvent) :
    ((execStep 0 uint64Max {} links s ev).states p).plan =
      if isMarkOf p markerCmdEnd ev then (s.states p).plan.clear
      else planStep p (s.states p).plan ev := by
  by_cases hr : rightOpenFlagged ev = true
  · simp [planStep, execStep, isMarkOf, hr]
  have hts : ev.ts ≤ uint64Max := Nat.le_sub_one_of_lt ev.timestampNs.toNat_lt
  have hmark : ∀ m, isMarkOf p m ev = true ↔ ev.pid = p ∧ ev.oldEvent = m := by
    intro m
    simp [isMarkOf, hr]
  by_cases hp : ev.pid = p
  · subst hp
    simp only [execStep, planStep, hmark, hr, Bool.false_eq_true, if_false, true_and]
    by_cases h1 : ev.oldEvent = markerPlanStart
    · simp [h1, markerPlanStart, markerCmdEnd]
    by_cases h2 : ev.oldEvent = markerPlanEnd
    · simp [h2, markerPlanEnd, markerPlanStart, markerCmdEnd]
    by_cases h3 : ev.oldEvent = markerExecStart
    · simp [h3, markerExecStart, markerPlanEnd, markerPlanStart, markerCmdEnd, execStart, hts]
    by_cases h4 : ev.oldEvent = markerExecEnd
    · simp only [h4, markerExecEnd, markerExecStart, markerPlanEnd, markerPlanStart, markerCmdEnd,
        execEnd]
      cases (s.states ev.pid).openRows <;> simp
    by_cases h5 : ev.oldEvent = markerCmdEnd
    · simp [h5, markerExecEnd, markerExecStart, markerPlanEnd, markerPlanStart, markerCmdEnd, cmdEnd]
    · simp only [h1, h2, h3, h4, h5, if_false]
      split_ifs
      · rfl
      · rw [states_countEvent]
  · have hp' : ¬ p = ev.pid := fun h => hp h.symm
    simp only [planStep, hmark, hp, false_and, if_false]
    simp only [execStep, hr, Bool.false_eq_true, if_false]
    split_ifs
    · simp [hp']
    · simp [hp']
    · simp [execStart, hts, hp']
    · rw [execEnd]
      cases (s.states ev.pid).openRows <;> simp [hp']
    · simp [cmdEnd, hp']
    · rfl
    · rw [states_countEvent]

/-- The plan that the markers of a process leave for its next execution in the list. -/
def rowPlan (p : UInt32) (evs : List TraceEvent) : PlanCarry :=
  evs.foldl (fun c ev => if isMarkOf p markerCmdEnd ev then c.clear else planStep p c ev) {}

theorem plan_foldl_execStep (links : List BackendLink) (p : UInt32) (evs : List TraceEvent) :
    ((evs.foldl (execStep 0 uint64Max {} links) {}).states p).plan = rowPlan p evs := by
  induction evs using List.reverseRecOn with
  | nil => rfl
  | append_singleton evs ev ih =>
    rw [List.foldl_append, List.foldl_cons, List.foldl_nil, plan_execStep, ih, rowPlan, rowPlan,
      List.foldl_append, List.foldl_cons, List.foldl_nil]

/-- **The plan of the list is inside the plan of the detail.** -/
theorem within_carryPlan (p : UInt32) (evs : List TraceEvent) :
    (rowPlan p evs).Within (carryPlan p evs) := by
  induction evs using List.reverseRecOn with
  | nil => exact ⟨fun h => by simp [rowPlan] at h, fun h => by simp [rowPlan] at h⟩
  | append_singleton evs ev ih =>
    rw [rowPlan, carryPlan, List.foldl_append, List.foldl_cons, List.foldl_nil, List.foldl_append,
      List.foldl_cons, List.foldl_nil]
    change PlanCarry.Within (if _ then (rowPlan p evs).clear else planStep p (rowPlan p evs) ev)
      (planStep p (carryPlan p evs) ev)
    by_cases h1 : isMarkOf p markerCmdEnd ev = true
    · rw [if_pos h1]
      exact PlanCarry.Within.clear _
    rw [if_neg h1, planStep, planStep]
    split_ifs
    · exact ih.start ev
    · exact ih.finish ev
    · exact ih.consume
    · exact ih

/-! ### The row and its detail -/

/-- What the detail still takes as inside an execution that a `CMD_END` has ended. -/
def afterCmdEnd (p : UInt32) (post : List TraceEvent) : List TraceEvent :=
  (post.takeWhile fun ev => !endsInside p ev).dropWhile fun ev => !isMarkOf p markerCmdEnd ev

/-- Nothing that only the detail takes belongs to the execution that `st` starts after `pre`: no plan
that a `CMD_END` ended, no plan that ends inside the execution, and no record that a `CMD_END` has
cut off. -/
structure StartAgrees (p : UInt32) (endNs : ℕ) (pre : List TraceEvent) (st : TraceEvent)
    (post : List TraceEvent) : Prop where
  plan : (carryPlan p pre).attaches st.queryId = true → (rowPlan p pre).attaches st.queryId = true
  late : (carryPlan p pre).attaches st.queryId = false →
    ¬ LatePlan p endNs st.queryId (carryPlan p pre).consume post
  cut : ∀ ev ∈ afterCmdEnd p post, recordOf p ev = true → endNs ≤ ev.ts - ev.dur

/-- The execution of a process between two instants of a stream. -/
def DetailAgrees (p : UInt32) (startNs endNs : ℕ) (evs : List TraceEvent) : Prop :=
  ∃ st post, evs.dropWhile (fun ev => ev.ts < startNs) = st :: post ∧
    StartAgrees p endNs (evs.takeWhile fun ev => ev.ts < startNs) st post

/-- The detail says what the row says. -/
def ExecutionDetail.Matches (out : ExecutionDetail) (r : Execution) : Prop :=
  out.foundExecution = true ∧ out.hasPlan = r.hasPlan ∧ out.planStartNs = r.planStartNs ∧
    out.planEndNs = r.planEndNs ∧ (out.leader.totalEvents : ℤ) = r.nEvents

instance (out : ExecutionDetail) (r : Execution) : Decidable (out.Matches r) :=
  inferInstanceAs (Decidable (_ ∧ _))

theorem split_at_ts {pre post : List TraceEvent} {st : TraceEvent}
    (hts : (pre ++ st :: post).Pairwise fun a b => a.ts < b.ts) :
    (pre ++ st :: post).takeWhile (fun ev => ev.ts < st.ts) = pre ∧
      (pre ++ st :: post).dropWhile (fun ev => ev.ts < st.ts) = st :: post := by
  have hpre : ∀ ev ∈ pre, decide (ev.ts < st.ts) = true := fun ev hev =>
    decide_eq_true ((List.pairwise_append.mp hts).2.2 ev hev st List.mem_cons_self)
  constructor
  · rw [List.takeWhile_append_of_pos hpre, List.takeWhile_cons, if_neg (by simp), List.append_nil]
  · rw [List.dropWhile_append_of_pos hpre, List.dropWhile_cons, if_neg (by simp)]

/-- A completed row is the one that its start opens, after the records behind it. -/
theorem exists_start_of_mem {evs : List TraceEvent} {links : List BackendLink} {r : Execution}
    (hts : evs.Pairwise fun a b => a.ts < b.ts)
    (hr : r ∈ computeExecutions evs 0 uint64Max {} links) (hdone : r.inProgress = false) :
    ∃ pre st post, evs = pre ++ st :: post ∧ isMarkOf r.pid markerExecStart st = true ∧
      r.startNs = st.ts ∧ r.hasPlan = (rowPlan r.pid pre).attaches st.queryId ∧
      (r.planStartNs = if r.hasPlan then (rowPlan r.pid pre).readyPlanStartNs else 0) ∧
      (r.planEndNs = if r.hasPlan then (rowPlan r.pid pre).readyPlanEndNs else 0) ∧
      r.nEvents =
        ((post.takeWhile fun ev => !closes r.pid ev).countP (listRecord r.pid) : ℕ) ∧
      (∀ ev ∈ post.takeWhile (fun ev => !closes r.pid ev), ev.ts < r.endNs) ∧
      r.endNs ≤ uint64Max := by
  obtain ⟨k, hk⟩ := List.mem_iff_getElem?.mp (List.mem_of_mem_filter hr)
  obtain ⟨pre, st, post, rfl, ho, hsb, hlen⟩ := exists_opensRow links evs {}
    (fun q i hi => absurd hi List.not_mem_nil) k (Nat.zero_le k)
    (List.getElem?_eq_some_iff.mp hk).1
  have hpost : ∀ ev ∈ post, st.ts ≤ ev.ts := fun ev hev =>
    (List.rel_of_pairwise_cons (List.pairwise_append.mp hts).2.1 hev).le
  have htrack := (rowTracks_start links hsb ho).foldl links post hpost
  rw [hlen] at htrack
  obtain ⟨q, m, w, i, hrow⟩ := htrack.row
  rw [List.foldl_append, List.foldl_cons, hrow] at hk
  obtain rfl := Option.some.inj hk
  obtain ⟨hn, hend, hex⟩ := foldl_trackStep_fresh (p := st.pid) post 0
    (List.pairwise_append.mp hts).2.1.of_cons
  have hplan := plan_foldl_execStep links st.pid pre
  have hclosed : (post.foldl (trackStep st.pid) {}).depth = none := by simpa using hdone
  refine ⟨pre, st, post, rfl, ho, rfl, ?_, ?_, ?_, ?_, hend hclosed, ?_⟩
  · simp only [execRow, hplan]
  · simp only [execRow, hplan]
  · simp only [execRow, hplan]
  · simpa [execRow] using hn
  · obtain ⟨ev, -, hev⟩ := hex hclosed
    exact hev.le.trans (Nat.le_sub_one_of_lt ev.timestampNs.toNat_lt)

/-- What the detail says of the execution that `st` starts. -/
theorem computeExecutionDetail_start {p : UInt32} (endNs : ℕ) {maxEvents : ℕ}
    (links : List BackendLink) {pre post : List TraceEvent} {st : TraceEvent} (hmax : 0 < maxEvents)
    (hts : (pre ++ st :: post).Pairwise fun a b => a.ts < b.ts)
    (hst : isMarkOf p markerExecStart st = true) :
    let out := computeExecutionDetail (pre ++ st :: post) p st.ts endNs {} links maxEvents
    out.foundExecution = true ∧
      ((carryPlan p pre).attaches st.queryId = true → out.hasPlan = true ∧
        out.planStartNs = (carryPlan p pre).readyPlanStartNs ∧
        out.planEndNs = (carryPlan p pre).readyPlanEndNs) ∧
      ((carryPlan p pre).attaches st.queryId = false →
        (LatePlan p endNs st.queryId (carryPlan p pre).consume post → out.hasPlan = true) ∧
        (¬ LatePlan p endNs st.queryId (carryPlan p pre).consume post →
          out.hasPlan = false ∧ out.planStartNs = 0 ∧ out.planEndNs = 0)) ∧
      out.leader.totalEvents = insideRecords p st.ts endNs post := by
  obtain ⟨-, hst', hcross⟩ := List.pairwise_append.mp hts
  intro out
  have hout : out = ((pre ++ st :: post).foldl (detailStep p st.ts endNs {} links maxEvents)
      { plan := {}, out := .empty p }).out.total := if_neg hmax.ne'
  rw [List.foldl_append, detail_before {} {} pre fun ev hev _ =>
      (hcross ev hev st List.mem_cons_self).ne, List.foldl_cons, detailStep_start {} hst rfl] at hout
  have hpost : ∀ ev ∈ post, isMarkOf p markerExecStart ev = true → ev.ts ≠ st.ts :=
    fun ev hev _ => (List.rel_of_pairwise_cons hst' hev).ne'
  obtain ⟨hfound, hqid, hplan, hzero, hstart, hend⟩ :=
    DetailState.started_out p (carryPlan p pre) st
  obtain ⟨hfound', hhas, hnone, htotal⟩ := detail_after st.ts endNs links maxEvents
    (.started p (carryPlan p pre) st) post rfl hpost
  rw [hplan, hstart, hend] at hhas
  rw [hplan, hqid, hstart, hend] at hnone
  rw [hout]
  refine ⟨hfound'.trans hfound, fun ha => ?_, fun ha => ?_, ?_⟩
  · rw [if_pos ha, if_pos ha] at hhas
    exact hhas ha
  · rw [if_neg (by simp [ha]), if_neg (by simp [ha])] at hnone
    exact hnone ha
  · rw [hzero, Nat.zero_add] at htotal
    exact htotal

theorem insideRecords_eq (p : UInt32) (startNs endNs : ℕ) (post : List TraceEvent) :
    let inside := fun ev : TraceEvent => recordOf p ev && intervalOverlaps ev.ts ev.dur startNs endNs
    insideRecords p startNs endNs post =
      (post.takeWhile fun ev => !closes p ev).countP inside +
        (afterCmdEnd p post).countP inside := by
  intro inside
  have hlist : post.takeWhile (fun ev => !closes p ev) =
      (post.takeWhile fun ev => !endsInside p ev).takeWhile
        fun ev => !isMarkOf p markerCmdEnd ev := by
    rw [List.takeWhile_takeWhile]
    congr 1
    ext ev
    simp [closes, and_comm]
  rw [insideRecords, hlist, afterCmdEnd, ← List.countP_append, List.takeWhile_append_dropWhile]

theorem countP_listRecord {p : UInt32} {startNs endNs : ℕ} {evs : List TraceEvent}
    (hstart : ∀ ev ∈ evs, startNs < ev.ts) (hend : ∀ ev ∈ evs, ev.ts < endNs)
    (hmax : endNs ≤ uint64Max) :
    evs.countP (listRecord p) =
      evs.countP fun ev => recordOf p ev && intervalOverlaps ev.ts ev.dur startNs endNs := by
  refine List.countP_congr fun ev hev => ?_
  have h1 := hstart ev hev
  have h2 := hend ev hev
  have h3 : ev.ts - ev.dur < endNs := (Nat.sub_le _ _).trans_lt h2
  have h4 : ev.ts - ev.dur < uint64Max := h3.trans_le hmax
  have h5 : 0 < ev.ts := (Nat.zero_le _).trans_lt h1
  simp [listRecord, intervalOverlaps, h1, h3, h4, h5]

/-- **A row and its detail.** The detail of a completed row shows the row exactly when nothing that
only the detail takes belongs to its execution. -/
theorem computeExecutionDetail_matches_iff {evs : List TraceEvent} {links : List BackendLink}
    {r : Execution} {maxEvents : ℕ} (hmax : 0 < maxEvents)
    (hts : evs.Pairwise fun a b => a.ts < b.ts)
    (hr : r ∈ computeExecutions evs 0 uint64Max {} links) (hdone : r.inProgress = false) :
    (computeExecutionDetail evs r.pid r.startNs r.endNs {} links maxEvents).Matches r ↔
      DetailAgrees r.pid r.startNs r.endNs evs := by
  obtain ⟨pre, st, post, rfl, hst, hstart, hhas, hplanStart, hplanEnd, hn, hlt, hmaxEnd⟩ :=
    exists_start_of_mem hts hr hdone
  obtain ⟨hfound, hyes, hno, htotal⟩ := computeExecutionDetail_start r.endNs
    links hmax hts hst
  obtain ⟨htake, hdrop⟩ := split_at_ts hts
  have hpost : ∀ ev ∈ post, r.startNs < ev.ts := fun ev hev =>
    hstart.trans_lt (List.rel_of_pairwise_cons (List.pairwise_append.mp hts).2.1 hev)
  have hwithin := within_carryPlan r.pid pre
  rw [← hstart] at hfound hyes hno htotal htake hdrop
  have hagrees : DetailAgrees r.pid r.startNs r.endNs (pre ++ st :: post) ↔
      StartAgrees r.pid r.endNs pre st post := by
    rw [DetailAgrees, htake, hdrop]
    constructor
    · rintro ⟨st', post', heq, h⟩
      obtain ⟨rfl, rfl⟩ := List.cons.inj heq
      exact h
    · exact fun h => ⟨st, post, rfl, h⟩
  have hcut : (((computeExecutionDetail (pre ++ st :: post) r.pid r.startNs r.endNs {} links
      maxEvents).leader.totalEvents : ℤ) = r.nEvents) ↔
        ∀ ev ∈ afterCmdEnd r.pid post, recordOf r.pid ev = true → r.endNs ≤ ev.ts - ev.dur := by
    have hlisted := countP_listRecord (p := r.pid)
      (fun ev hev => hpost ev ((List.takeWhile_sublist _).subset hev)) hlt hmaxEnd
    have hafter : ∀ ev ∈ afterCmdEnd r.pid post, r.startNs < ev.ts := fun ev hev =>
      hpost ev ((List.takeWhile_sublist _).subset ((List.dropWhile_sublist _).subset hev))
    rw [htotal, hn, hlisted, insideRecords_eq, Nat.cast_inj, Nat.add_eq_left,
      List.countP_eq_zero]
    refine forall₂_congr fun ev hev => ?_
    simp [intervalOverlaps, hafter ev hev]
  rw [hagrees]
  cases ha : (carryPlan r.pid pre).attaches st.queryId with
  | true =>
    obtain ⟨hout, houtStart, houtEnd⟩ := hyes ha
    constructor
    · rintro ⟨-, hp, -, -, htot⟩
      refine ⟨fun _ => ?_, fun hnot => ?_, hcut.mp htot⟩
      · rw [← hhas, ← hp, hout]
      · rw [ha] at hnot
        cases hnot
    · intro h
      have hrow := h.plan ha
      obtain ⟨-, heqStart, heqEnd⟩ := hwithin.attaches hrow
      rw [hrow] at hhas
      rw [if_pos hhas] at hplanStart hplanEnd
      refine ⟨hfound, hout.trans hhas.symm, ?_, ?_, hcut.mpr h.cut⟩
      · rw [houtStart, hplanStart, heqStart]
      · rw [houtEnd, hplanEnd, heqEnd]
  | false =>
    obtain ⟨hlate, hnone⟩ := hno ha
    have hrow : (rowPlan r.pid pre).attaches st.queryId = false := by
      by_contra hrow
      have := (hwithin.attaches (Bool.not_eq_false _ ▸ hrow)).1
      rw [ha] at this
      cases this
    rw [hrow] at hhas
    rw [if_neg (by simp [hhas])] at hplanStart hplanEnd
    constructor
    · rintro ⟨-, hp, -, -, htot⟩
      refine ⟨fun hyes => ?_, fun _ hl => ?_, hcut.mp htot⟩
      · rw [ha] at hyes
        cases hyes
      · rw [hlate hl, hhas] at hp
        cases hp
    · intro h
      obtain ⟨h1, h2, h3⟩ := hnone (h.late ha)
      refine ⟨hfound, h1.trans hhas.symm, ?_, ?_, hcut.mpr h.cut⟩
      · rw [h2, hplanStart]
      · rw [h3, hplanEnd]

/-- A plan, a wait inside the execution, and its end. -/
def plannedExecution : List TraceEvent :=
  [markerAt markerPlanStart 1 5, markerAt markerPlanEnd 2 5, markerAt markerExecStart 10 5,
    recordAt 0x0A000015 15 3 5, markerAt markerExecEnd 20 5]

/-- The row of the execution. -/
def plannedRow : Execution :=
  { pid := 7, queryId := 5, startNs := 10, endNs := 20, planStartNs := 1, planEndNs := 2
    hasPlan := true, inProgress := false, endInferred := false, startedBeforeWindow := false
    matchesEventFilter := 1, nEvents := 1, nWorkers := 0 }

/-- The detail of a planned execution. -/
theorem computeExecutionDetail_plannedRow :
    (computeExecutionDetail plannedExecution 7 10 20 {} [] 1).Matches plannedRow ↔
      DetailAgrees 7 10 20 plannedExecution :=
  computeExecutionDetail_matches_iff (r := plannedRow) (by decide) (by decide +kernel)
    (by decide +kernel) rfl

/-- A statement is planned and ends without an execution; the next one has no plan, and a wait goes on
past the end of its command. -/
def abandonedPlan : List TraceEvent :=
  [markerAt markerPlanStart 1 5, markerAt markerPlanEnd 2 5, markerAt markerCmdEnd 3 0,
    markerAt markerExecStart 10 5, markerAt markerCmdEnd 20 0, recordAt 0x0A000015 25 10 0]

/-- The detail shows the plan of the earlier statement and the wait that the row does not count. -/
theorem not_matches_abandonedPlan :
    abandonedPlan.Pairwise (fun a b => a.ts < b.ts) ∧
      ∃ r ∈ computeExecutions abandonedPlan 0 uint64Max {} [], r.inProgress = false ∧
        r.hasPlan = false ∧ r.nEvents = 0 ∧
        let out := computeExecutionDetail abandonedPlan r.pid r.startNs r.endNs {} [] 1
        out.hasPlan = true ∧ out.leader.totalEvents = 1 ∧ ¬ out.Matches r := by
  decide +kernel

end PgWaitTracer
