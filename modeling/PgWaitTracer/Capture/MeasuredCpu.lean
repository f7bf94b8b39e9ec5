import PgWaitTracer.Capture.Tiling

/-!
# The measured CPU of a closing record

The entry of a backend has the time that it was on CPU up to its last switch, since when it is on
CPU, and how much of that was read at the start of the open interval, the base. A record carries the
difference (`on_watchpoint`, `on_exit`), as does the open stretch (`pgwt_open_stretch_cpu_ns`). The
record takes a base of 0 for none, but a seed sets the base to 0.

## Main results

* `cpuDelta_eq_iff`: when the record and the open stretch agree.
* `WatchRun.Accounts.step`: a step keeps the sums, or loses what was measured before.
* `closing_cpu`: the CPU of the closing records of a run.
-/

namespace PgWaitTracer

/-! ### Two readings -/

/-- `cpu_ns_total` and the running stretch. -/
def PidState.cpuAt (st : PidState) (t : ℕ) : ℕ :=
  st.cpuNsTotal.toNat + if st.onCpuTs = 0 then 0 else t - st.onCpuTs.toNat

/-- The base of the open interval is not 0, or nothing was measured yet. -/
def PidState.BaseKnown (cfg : CaptureConfig) (st : PidState) (now : UInt64) : Prop :=
  st.lastCpuNs ≠ 0 ∨ readTaskCpuNsFor cfg st now = 0

instance (cfg : CaptureConfig) (st : PidState) (now : UInt64) : Decidable (st.BaseKnown cfg now) :=
  inferInstanceAs (Decidable (_ ∨ _))

section Readings

variable {cfg : CaptureConfig} {st : PidState} {now : UInt64}

theorem openStretchCpuNs_eq (hcpu : cfg.cpuAccounting = true) :
    openStretchCpuNs st.cpuNsTotal st.onCpuTs st.lastCpuNs now cfg.cpuAccounting =
      if readTaskCpuNsFor cfg st now ≥ st.lastCpuNs then
        readTaskCpuNsFor cfg st now - st.lastCpuNs
      else 0 := by
  rw [openStretchCpuNs, readTaskCpuNsFor, if_pos hcpu, if_pos hcpu]

/-- **The record and the open stretch agree** where the base is known, and only there. -/
theorem cpuDelta_eq_iff (hcpu : cfg.cpuAccounting = true) :
    cpuDelta cfg st now =
        openStretchCpuNs st.cpuNsTotal st.onCpuTs st.lastCpuNs now cfg.cpuAccounting ↔
      st.BaseKnown cfg now := by
  rw [openStretchCpuNs_eq hcpu, cpuDelta, PidState.BaseKnown]
  generalize readTaskCpuNsFor cfg st now = cpu
  by_cases hbase : st.lastCpuNs = 0
  · have hzero : (0 : UInt64) ≤ cpu := UInt64.zero_le
    simp only [hbase, ne_eq, not_true_eq_false, false_and, and_false, if_false, false_or, ge_iff_le,
      hzero, if_true, UInt64.sub_zero]
    exact eq_comm
  · refine iff_of_true ?_ (Or.inl hbase)
    by_cases hcpuNow : cpu = 0
    · have hlt : ¬st.lastCpuNs ≤ 0 := fun hle => hbase (UInt64.le_zero_iff.1 hle)
      simp [hcpuNow, hlt]
    · simp only [hcpuNow, hbase, ne_eq, not_false_eq_true, true_and]

theorem toNat_readTaskCpuNsFor (hcpu : cfg.cpuAccounting = true)
    (hfits : st.cpuAt now.toNat < 2 ^ 64) :
    (readTaskCpuNsFor cfg st now).toNat = st.cpuAt now.toNat := by
  rw [readTaskCpuNsFor, if_pos hcpu]
  rw [PidState.cpuAt] at hfits ⊢
  by_cases hon : st.onCpuTs = 0
  · simp [hon]
  rw [if_neg hon] at hfits ⊢
  by_cases hle : now ≥ st.onCpuTs
  · rw [if_pos ⟨hon, hle⟩, UInt64.toNat_add, UInt64.toNat_sub_of_le now st.onCpuTs hle,
      Nat.mod_eq_of_lt hfits]
  · have hlt : now.toNat < st.onCpuTs.toNat := by
      rw [← UInt64.lt_iff_toNat_lt]
      exact UInt64.not_le.1 hle
    rw [if_neg fun h => hle h.2]
    omega

end Readings

/-! ### The conditions -/

/-- What the kernel does: a process writes nothing after its exit and exits once, and it is not
switched in while it runs, so that a switch replaces no stretch of which a part is in the base. A
first fire on an entry without an interval finds nothing measured. -/
def WatchStep.Scheduled (cfg : CaptureConfig) (s : WatchRun) (op : WatchStep) : Prop :=
  ∀ st ∈ s.entry, match op with
    | .watchpoint now newEvent _ =>
      if st.wpLive = 0 then readTaskCpuNsFor cfg st now = 0
      else newEvent ≠ st.lastEvent → (observe s.marks).exited = false
    | .exit _ _ => st.wpLive ≠ 0 → (observe s.marks).exited = false
    | .schedSwitch _ .next =>
      st.wpLive ≠ 0 → (observe s.marks).exited = false → st.lastCpuNs ≤ st.cpuNsTotal
    | _ => True

/-- Every interval closed since the last seed had a known base, after a mark more. -/
def baseKnownStep (cfg : CaptureConfig) (entry : Option PidState) (now : UInt64) (known : Bool) :
    WatchMark → Bool
  | .seeded _ _ => true
  | .accum _ _ => known
  | _ => known && entry.all fun st => st.BaseKnown cfg now

/-- Every interval closed since the last seed had a known base, after a step more. -/
def WatchStep.knownAfter (cfg : CaptureConfig) (pid : UInt32) (s : WatchRun) (known : Bool)
    (op : WatchStep) : Bool :=
  (op.apply cfg pid s.entry).2.foldl (baseKnownStep cfg s.entry op.ends) known

/-- Every interval closed since the last seed had a known base. -/
def basesKnown (cfg : CaptureConfig) (pid : UInt32) (entry : Option PidState) (clock : UInt64)
    (ops : List WatchStep) : Bool :=
  (ops.foldl (fun r op => (watchStep cfg pid r.1 op, op.knownAfter cfg pid r.1 r.2))
    (({ entry, clock } : WatchRun), true)).2

/-! ### The invariant -/

/-- The measured CPU of records. -/
def measuredSum (records : List TraceEvent) : ℕ := (records.map fun r => r.cpuNs.toNat).sum

/-- The records since the seed carry the base if every base was known and less if not, and what was
measured since the base is no more than the wall time. Nothing is said after an exit. -/
structure PidState.Accounts (st : PidState) (o : Observed) (known : Bool) (t : ℕ) : Prop where
  on_le : st.onCpuTs.toNat ≤ t
  cpu_le : st.cpuAt t ≤ t
  since_le : st.wpLive ≠ 0 → o.exited = false → st.lastTs.toNat ≤ t
  wall : st.wpLive ≠ 0 → o.exited = false →
    st.cpuAt t ≤ st.lastCpuNs.toNat + (t - st.lastTs.toNat)
  base_le : st.wpLive ≠ 0 → o.exited = false → st.lastCpuNs.toNat ≤ st.cpuAt t
  sum_le : st.wpLive ≠ 0 → o.exited = false → measuredSum o.since ≤ st.lastCpuNs.toNat
  sum_eq : st.wpLive ≠ 0 → o.exited = false →
    (measuredSum o.since = st.lastCpuNs.toNat ↔ known = true)

/-- **The invariant.** -/
def WatchRun.Accounts (s : WatchRun) (known : Bool) : Prop :=
  ∀ st ∈ s.entry, st.Accounts (observe s.marks) known s.clock.toNat

namespace PidState

variable {st : PidState} {o : Observed} {known : Bool}

theorem cpuAt_grow {t t' : ℕ} (hon : st.onCpuTs.toNat ≤ t) (hle : t ≤ t') :
    st.cpuAt t ≤ st.cpuAt t' ∧ st.cpuAt t' ≤ st.cpuAt t + (t' - t) := by
  rw [cpuAt, cpuAt]
  split_ifs
  · omega
  · omega

theorem Accounts.pass {t t' : ℕ} (h : st.Accounts o known t) (hle : t ≤ t') :
    st.Accounts o known t' := by
  obtain ⟨hgrow, hslow⟩ := cpuAt_grow h.on_le hle
  have hcpu := h.cpu_le
  refine ⟨h.on_le.trans hle, by omega, fun hlive hrun => (h.since_le hlive hrun).trans hle,
    fun hlive hrun => ?_, fun hlive hrun => (h.base_le hlive hrun).trans hgrow, h.sum_le, h.sum_eq⟩
  have hwall := h.wall hlive hrun
  have hsince := h.since_le hlive hrun
  omega

theorem accounts_seed {now : UInt64} (hon : st.onCpuTs = 0 ∨ st.onCpuTs = now)
    (htotal : st.cpuNsTotal = 0) (hbase : st.lastCpuNs = 0) (hsince : st.lastTs = now)
    (ho : o.since = []) : st.Accounts o true now.toNat := by
  have hcpu : st.cpuAt now.toNat = 0 := by
    rw [cpuAt, htotal]
    rcases hon with hon | hon
    · rw [if_pos hon]
      rfl
    · rw [hon, Nat.sub_self, ite_self]
      rfl
  have hle : st.onCpuTs.toNat ≤ now.toNat := by
    rcases hon with hon | hon
    · rw [hon]
      exact Nat.zero_le _
    · rw [hon]
  have hsum : measuredSum o.since = st.lastCpuNs.toNat := by
    rw [ho, hbase]
    rfl
  refine ⟨hle, by omega, fun _ _ => by rw [hsince], fun _ _ => by omega, fun _ _ => ?_,
    fun _ _ => hsum.le, fun _ _ => iff_of_true hsum rfl⟩
  rw [hbase]
  exact Nat.zero_le _

/-- The interval that a fire opens. -/
def opened (cfg : CaptureConfig) (st : PidState) (now : UInt64) (newEvent : UInt32)
    (wpLive : UInt16) : PidState :=
  { st with
    lastEvent := newEvent
    wpLive
    lastTs := now
    lastCpuNs := readTaskCpuNsFor cfg st now
    onCpuTs := if st.onCpuTs = 0 then now else st.onCpuTs }

theorem cpuAt_opened (cfg : CaptureConfig) (st : PidState) (now : UInt64) (newEvent : UInt32)
    (wpLive : UInt16) : (st.opened cfg now newEvent wpLive).cpuAt now.toNat = st.cpuAt now.toNat := by
  rw [cpuAt, cpuAt, opened]
  dsimp only
  by_cases hon : st.onCpuTs = 0
  · rw [if_pos hon, if_pos hon, Nat.sub_self, ite_self]
  · rw [if_neg hon, if_neg hon]

theorem Accounts.opened {cfg : CaptureConfig} (hcpu : cfg.cpuAccounting = true) {now : UInt64}
    (h : st.Accounts o known now.toNat) (newEvent : UInt32) (wpLive : UInt16) {o' : Observed}
    {known' : Bool} (hle : measuredSum o'.since ≤ st.cpuAt now.toNat)
    (hsum : measuredSum o'.since = st.cpuAt now.toNat ↔ known' = true) :
    (st.opened cfg now newEvent wpLive).Accounts o' known' now.toNat := by
  have hread : (st.opened cfg now newEvent wpLive).lastCpuNs.toNat = st.cpuAt now.toNat :=
    toNat_readTaskCpuNsFor hcpu (h.cpu_le.trans_lt now.toNat_lt)
  have hcpuAt := st.cpuAt_opened cfg now newEvent wpLive
  refine ⟨?_, hcpuAt ▸ h.cpu_le, fun _ _ => le_refl _, fun _ _ => ?_, fun _ _ => ?_, fun _ _ => ?_,
    fun _ _ => ?_⟩
  · rw [PidState.opened]
    dsimp only
    split_ifs
    · exact le_refl _
    · exact h.on_le
  · rw [hcpuAt, hread]
    exact Nat.le_add_right _ _
  · rw [hcpuAt, hread]
  · rw [hread]
    exact hle
  · rw [hread]
    exact hsum

/-- A switch. -/
theorem Accounts.switch (cfg : CaptureConfig) {now : UInt64} (h : st.Accounts o known now.toNat)
    (side : SwitchSide) (hbase : side = .next → st.wpLive ≠ 0 → o.exited = false →
      st.lastCpuNs ≤ st.cpuNsTotal) :
    (onSchedSwitch cfg st now side).Accounts o known now.toNat := by
  cases side with
  | prev =>
    rw [onSchedSwitch]
    split_ifs with hon
    · obtain ⟨-, -, hne, hle⟩ := hon
      have hcpuAt : st.cpuAt now.toNat = st.cpuNsTotal.toNat + (now.toNat - st.onCpuTs.toNat) := by
        rw [cpuAt, if_neg hne]
      have hfits : st.cpuNsTotal.toNat + (now.toNat - st.onCpuTs.toNat) < 2 ^ 64 :=
        hcpuAt ▸ h.cpu_le.trans_lt now.toNat_lt
      have hsame : ({ st with
          cpuNsTotal := st.cpuNsTotal + (now - st.onCpuTs)
          onCpuTs := 0 } : PidState).cpuAt now.toNat = st.cpuAt now.toNat := by
        rw [hcpuAt, cpuAt]
        dsimp only
        rw [if_pos rfl, Nat.add_zero, UInt64.toNat_add, UInt64.toNat_sub_of_le now st.onCpuTs hle,
          Nat.mod_eq_of_lt hfits]
      exact ⟨Nat.zero_le _, hsame ▸ h.cpu_le, h.since_le, hsame ▸ h.wall, hsame ▸ h.base_le,
        h.sum_le, h.sum_eq⟩
    · exact h
  | next =>
    rw [onSchedSwitch]
    split_ifs
    · have hcpuAt : ({ st with onCpuTs := now } : PidState).cpuAt now.toNat =
          st.cpuNsTotal.toNat := by
        rw [cpuAt]
        dsimp only
        rw [Nat.sub_self, ite_self, Nat.add_zero]
      have hle : st.cpuNsTotal.toNat ≤ st.cpuAt now.toNat := Nat.le_add_right _ _
      refine ⟨le_refl _, hcpuAt ▸ hle.trans h.cpu_le, h.since_le, fun hlive hrun => ?_,
        fun hlive hrun => ?_, h.sum_le, h.sum_eq⟩
      · rw [hcpuAt]
        exact hle.trans (h.wall hlive hrun)
      · rw [hcpuAt]
        exact UInt64.le_iff_toNat_le.1 (hbase rfl hlive hrun)
    · exact h

section Close

variable {cfg : CaptureConfig} {now : UInt64} (hcpu : cfg.cpuAccounting = true)
  (h : st.Accounts o known now.toNat) (hlive : st.wpLive ≠ 0) (hrun : o.exited = false)

include hcpu h hlive hrun

theorem Accounts.toNat_openStretchCpuNs :
    st.lastCpuNs.toNat + (openStretchCpuNs st.cpuNsTotal st.onCpuTs st.lastCpuNs now
      cfg.cpuAccounting).toNat = st.cpuAt now.toNat := by
  have hread : (readTaskCpuNsFor cfg st now).toNat = st.cpuAt now.toNat :=
    toNat_readTaskCpuNsFor hcpu (h.cpu_le.trans_lt now.toNat_lt)
  have hle := h.base_le hlive hrun
  have hge : readTaskCpuNsFor cfg st now ≥ st.lastCpuNs :=
    UInt64.le_iff_toNat_le.2 (hread ▸ hle)
  rw [openStretchCpuNs_eq hcpu, if_pos hge, UInt64.toNat_sub_of_le _ _ hge, hread]
  omega

theorem Accounts.delta (hbase : st.BaseKnown cfg now) :
    st.lastCpuNs.toNat + (cpuDelta cfg st now).toNat = st.cpuAt now.toNat := by
  rw [(cpuDelta_eq_iff hcpu).2 hbase]
  exact h.toNat_openStretchCpuNs hcpu hlive hrun

omit hlive hrun in
theorem Accounts.delta_lost (hbase : ¬st.BaseKnown cfg now) :
    st.lastCpuNs.toNat = 0 ∧ (cpuDelta cfg st now).toNat = 0 ∧ 0 < st.cpuAt now.toNat := by
  have hread : (readTaskCpuNsFor cfg st now).toNat = st.cpuAt now.toNat :=
    toNat_readTaskCpuNsFor hcpu (h.cpu_le.trans_lt now.toNat_lt)
  obtain ⟨hzero, hmeasured⟩ := not_or.1 hbase
  have hlast : st.lastCpuNs = 0 := not_not.1 hzero
  refine ⟨congrArg UInt64.toNat hlast, ?_, ?_⟩
  · rw [cpuDelta, hlast]
    simp
  · rw [← hread]
    exact Nat.pos_of_ne_zero fun hnat => hmeasured (UInt64.toNat_inj.1 hnat)

theorem Accounts.delta_le : cpuDelta cfg st now ≤ now - st.lastTs := by
  have hwall := h.wall hlive hrun
  rw [UInt64.le_iff_toNat_le, UInt64.toNat_sub_of_le now st.lastTs
    (UInt64.le_iff_toNat_le.2 (h.since_le hlive hrun))]
  by_cases hbase : st.BaseKnown cfg now
  · have hdelta := h.delta hcpu hlive hrun hbase
    omega
  · have hlost := h.delta_lost hcpu hbase
    omega

theorem Accounts.sum_close :
    measuredSum o.since + (cpuDelta cfg st now).toNat ≤ st.cpuAt now.toNat ∧
      (measuredSum o.since + (cpuDelta cfg st now).toNat = st.cpuAt now.toNat ↔
        (known && decide (st.BaseKnown cfg now)) = true) := by
  have hle := h.sum_le hlive hrun
  have hsum := h.sum_eq hlive hrun
  by_cases hbase : st.BaseKnown cfg now
  · have hdelta := h.delta hcpu hlive hrun hbase
    rw [decide_eq_true hbase, Bool.and_true, ← hsum]
    omega
  · obtain ⟨hlast, hzero, hpos⟩ := h.delta_lost hcpu hbase
    rw [decide_eq_false hbase, Bool.and_false]
    refine ⟨by omega, iff_of_false (by omega) (by simp)⟩

end Close

end PidState

/-! ### Runs -/

section Runs

variable {cfg : CaptureConfig} {pid : UInt32} {s : WatchRun} {known : Bool} {now : UInt64}

theorem WatchRun.Accounts.keep (h : s.Accounts known) (hclock : s.clock ≤ now) :
    WatchRun.Accounts { entry := s.entry, clock := now, marks := s.marks ++ [] } known := by
  intro st hst
  dsimp only
  rw [List.append_nil]
  exact (h st hst).pass (UInt64.le_iff_toNat_le.1 hclock)

variable {attr : OpenStretchAttr} {entry : Option PidState} {m : WatchMark}

theorem WatchRun.Accounts.watchpoint (hfull : cfg.lightweightMode = false)
    (hopen : cfg.admissionOpen = true) (hcpu : cfg.cpuAccounting = true) (h : s.Accounts known)
    (hclock : s.clock ≤ now) {newEvent : UInt32}
    (hsched : (WatchStep.watchpoint now newEvent attr).Scheduled cfg s) :
    (watchStep cfg pid s (.watchpoint now newEvent attr)).Accounts
      ((WatchStep.watchpoint now newEvent attr).knownAfter cfg pid s known) := by
  rw [watchStep, WatchStep.knownAfter]
  dsimp only [WatchStep.apply, WatchStep.ends, WatchStep.begins]
  unfold onWatchpoint
  rw [if_neg (by simp [hopen])]
  rcases hentry : s.entry with _ | st
  · rintro st ⟨⟩
    dsimp only
    rw [observe_append_singleton]
    exact PidState.accounts_seed (Or.inr rfl) rfl rfl rfl rfl
  · have hst := (h st hentry).pass (UInt64.le_iff_toNat_le.1 hclock)
    have hcond := hsched st hentry
    dsimp only at hcond ⊢
    by_cases hlive : st.wpLive = 0
    · have hread : (readTaskCpuNsFor cfg st now).toNat = st.cpuAt now.toNat :=
        toNat_readTaskCpuNsFor hcpu (hst.cpu_le.trans_lt now.toNat_lt)
      rw [if_pos hlive] at hcond ⊢
      rw [hcond] at hread
      rintro st' ⟨⟩
      dsimp only
      rw [observe_append_singleton]
      exact hst.opened hcpu newEvent 1 (Nat.zero_le _) (iff_of_true hread rfl)
    by_cases hsame : newEvent = st.lastEvent
    · rw [if_neg hlive, if_pos hsame, ← hentry]
      exact h.keep hclock
    · rw [if_neg hlive] at hcond
      obtain ⟨hle, hsum⟩ := hst.sum_close hcpu hlive (hcond hsame)
      rw [if_neg hlive, if_neg hsame, hfull]
      rintro st' ⟨⟩
      dsimp only
      rw [observe_append_singleton]
      have hmark : measuredSum ((observe s.marks).mark
          (.transition (closingRecord cfg pid st now newEvent attr))).since =
          measuredSum (observe s.marks).since + (cpuDelta cfg st now).toNat := by
        simp [measuredSum, Observed.mark, closingRecord]
      exact hst.opened hcpu newEvent st.wpLive (hmark ▸ hle) (hmark ▸ hsum)

theorem WatchRun.Accounts.exit (hfull : cfg.lightweightMode = false) (h : s.Accounts known)
    (hclock : s.clock ≤ now) :
    (watchStep cfg pid s (.exit now attr)).Accounts
      ((WatchStep.exit now attr).knownAfter cfg pid s known) := by
  rw [watchStep, WatchStep.knownAfter]
  dsimp only [WatchStep.apply, WatchStep.ends, WatchStep.begins]
  unfold onExit
  rcases hentry : s.entry with _ | st
  · rintro _ ⟨⟩
  · have hst := (h st hentry).pass (UInt64.le_iff_toNat_le.1 hclock)
    dsimp only
    split_ifs with hlive hlight
    · rw [hfull] at hlight
      cases hlight
    · rintro st' ⟨⟩
      dsimp only
      rw [observe_append_singleton]
      exact ⟨hst.on_le, hst.cpu_le, by rintro _ ⟨⟩, by rintro _ ⟨⟩, by rintro _ ⟨⟩, by rintro _ ⟨⟩,
        by rintro _ ⟨⟩⟩
    · rw [← hentry]
      exact h.keep hclock

theorem WatchRun.Accounts.preseed (h : s.Accounts known) (hclock : s.clock ≤ now) (r : SeedReads) :
    WatchRun.Accounts
      { entry := (preseedStateMap cfg s.entry now r).1
        clock := now
        marks := s.marks ++ (preseedStateMap cfg s.entry now r).2 }
      ((preseedStateMap cfg s.entry now r).2.foldl (baseKnownStep cfg s.entry now) known) := by
  rw [preseedStateMap]
  cases r.wei with
  | none => exact h.keep hclock
  | some wei =>
    rintro st' ⟨⟩
    dsimp only
    rw [observe_append_singleton]
    refine PidState.accounts_seed ?_ rfl rfl rfl rfl
    dsimp only
    split_ifs
    · exact Or.inr rfl
    · exact Or.inl rfl

/-- **A step keeps the sums**, or loses what was measured before. -/
theorem WatchRun.Accounts.step (hfull : cfg.lightweightMode = false)
    (hopen : cfg.admissionOpen = true) (hcpu : cfg.cpuAccounting = true) (h : s.Accounts known)
    {op : WatchStep} (hback : op.NotBack s) (hsched : op.Scheduled cfg s) :
    (watchStep cfg pid s op).Accounts (op.knownAfter cfg pid s known) := by
  have hclock : s.clock ≤ op.ends := UInt64.le_trans hback.1 hback.2
  cases op with
  | watchpoint now newEvent attr => exact h.watchpoint hfull hopen hcpu hclock hsched
  | exit now attr => exact h.exit hfull hclock
  | schedSwitch now side =>
    rintro st' hst'
    obtain ⟨st, hst, rfl⟩ := Option.map_eq_some_iff.1 hst'
    have hmarks : (watchStep cfg pid s (.schedSwitch now side)).marks = s.marks :=
      List.append_nil _
    rw [hmarks]
    refine ((h st hst).pass (UInt64.le_iff_toNat_le.1 hclock)).switch cfg side ?_
    rintro rfl
    exact hsched st hst
  | preseed attachTs reads => exact h.preseed hclock reads
  | sweep reads =>
    rw [watchStep, WatchStep.knownAfter]
    dsimp only [WatchStep.apply, WatchStep.ends]
    unfold sweepStaleState
    split
    · split_ifs
      · exact h.preseed hclock reads.seed
      · exact h.keep hclock
    · exact h.keep hclock
  | openStretch now attr => exact h.keep hclock

theorem WatchRun.Accounts.start (clock : UInt64)
    (hidle : ∀ st ∈ entry, st.wpLive = 0 ∧ st.cpuNsTotal = 0 ∧ st.onCpuTs = 0) :
    WatchRun.Accounts { entry, clock } true := by
  intro st hst
  obtain ⟨hdead, htotal, hon⟩ := hidle st hst
  have hcpu : ∀ t, st.cpuAt t = 0 := by
    intro t
    rw [PidState.cpuAt, htotal, if_pos hon]
    rfl
  refine ⟨?_, ?_, fun hlive => absurd hdead hlive, fun hlive => absurd hdead hlive,
    fun hlive => absurd hdead hlive, fun hlive => absurd hdead hlive,
    fun hlive => absurd hdead hlive⟩
  · rw [hon]
    exact Nat.zero_le _
  · rw [hcpu]
    exact Nat.zero_le _

theorem record_onWatchpoint {st : PidState} {newEvent : UInt32}
    (hm : m ∈ (onWatchpoint cfg pid (some st) now newEvent attr).2) {evt : TraceEvent}
    (hevt : evt ∈ m.record) :
    st.wpLive ≠ 0 ∧ newEvent ≠ st.lastEvent ∧ evt = closingRecord cfg pid st now newEvent attr := by
  unfold onWatchpoint at hm
  cases hopen : cfg.admissionOpen
  · rw [if_pos (by simp [hopen])] at hm
    cases hm
  rw [if_neg (by simp [hopen])] at hm
  dsimp only at hm
  by_cases hlive : st.wpLive = 0
  · rw [if_pos hlive] at hm
    rw [List.mem_singleton.1 hm] at hevt
    cases hevt
  by_cases hsame : newEvent = st.lastEvent
  · rw [if_neg hlive, if_pos hsame] at hm
    cases hm
  rw [if_neg hlive, if_neg hsame] at hm
  refine ⟨hlive, hsame, ?_⟩
  rw [List.mem_singleton.1 hm] at hevt
  split_ifs at hevt
  · cases hevt
  · exact (Option.some.inj hevt).symm

theorem record_onExit {st : PidState} (hm : m ∈ (onExit cfg pid (some st) now attr).2)
    {evt : TraceEvent} (hevt : evt ∈ m.record) :
    st.wpLive ≠ 0 ∧ evt = closingRecord cfg pid st now eventExit attr := by
  unfold onExit at hm
  dsimp only at hm
  split_ifs at hm with hlive hlight
  · rw [List.mem_singleton.1 hm] at hevt
    cases hevt
  · rw [List.mem_singleton.1 hm] at hevt
    exact ⟨hlive.1, (Option.some.inj hevt).symm⟩
  · cases hm

theorem record_preseedStateMap {r : SeedReads} (hm : m ∈ (preseedStateMap cfg entry now r).2) :
    m.record = none := by
  unfold preseedStateMap at hm
  split at hm
  · cases hm
  · rw [List.mem_singleton.1 hm]
    rfl

theorem record_sweepStaleState {r : SweepReads} (hm : m ∈ (sweepStaleState cfg entry r).2) :
    m.record = none := by
  unfold sweepStaleState at hm
  split at hm
  · split_ifs at hm
    · exact record_preseedStateMap hm
    · cases hm
  · cases hm

theorem record_apply {st : PidState} {op : WatchStep} (hm : m ∈ (op.apply cfg pid (some st)).2)
    {evt : TraceEvent} (hevt : evt ∈ m.record) :
    st.wpLive ≠ 0 ∧ evt.cpuNs = cpuDelta cfg st op.ends ∧ evt.durationNs = op.ends - st.lastTs ∧
      ∀ s : WatchRun, s.entry = some st → op.Scheduled cfg s →
        (observe s.marks).exited = false := by
  cases op with
  | watchpoint now newEvent attr =>
    obtain ⟨hlive, hsame, rfl⟩ := record_onWatchpoint hm hevt
    refine ⟨hlive, rfl, rfl, fun s hst hsched => ?_⟩
    have hcond := hsched st hst
    dsimp only at hcond
    rw [if_neg hlive] at hcond
    exact hcond hsame
  | exit now attr =>
    obtain ⟨hlive, rfl⟩ := record_onExit hm hevt
    exact ⟨hlive, rfl, rfl, fun s hst hsched => hsched st hst hlive⟩
  | schedSwitch now side => cases hm
  | preseed attachTs reads =>
    rw [record_preseedStateMap hm] at hevt
    cases hevt
  | sweep reads =>
    rw [record_sweepStaleState hm] at hevt
    cases hevt
  | openStretch now attr => cases hm

theorem accounts_watchRun (hfull : cfg.lightweightMode = false) (hopen : cfg.admissionOpen = true)
    (hcpu : cfg.cpuAccounting = true) : (ops : List WatchStep) → {s : WatchRun} → {known : Bool} →
    s.Accounts known → Run.Allowed (watchStep cfg pid) WatchStep.NotBack s ops →
    Run.Allowed (watchStep cfg pid) (fun s op => op.Scheduled cfg s) s ops →
    WatchRun.Accounts (ops.foldl (watchStep cfg pid) s) (ops.foldl
      (fun r op => (watchStep cfg pid r.1 op, op.knownAfter cfg pid r.1 r.2)) (s, known)).2
  | [], _, _, h, _, _ => h
  | _ :: ops, _, _, h, hclock, hsched => accounts_watchRun hfull hopen hcpu ops
      (h.step hfull hopen hcpu hclock.1 hsched.1) hclock.2 hsched.2

/-- **The CPU of closing records.** A record carries what the open stretch showed just before if and
only if the base is known. As processes are scheduled, it never carries more than its duration, and
until the process exits the records since a seed and the open stretch add up to the time on CPU if
and only if every interval closed since the seed had a known base. -/
theorem closing_cpu (hfull : cfg.lightweightMode = false) (hopen : cfg.admissionOpen = true)
    (hcpu : cfg.cpuAccounting = true) {entry : Option PidState} {clock : UInt64}
    (hidle : ∀ st ∈ entry, st.wpLive = 0 ∧ st.cpuNsTotal = 0 ∧ st.onCpuTs = 0)
    {ops : List WatchStep}
    (hclock : Run.Allowed (watchStep cfg pid) WatchStep.NotBack { entry, clock } ops) :
    (∀ pre op post, ops = pre ++ op :: post →
      ∀ st, (watchRun cfg pid entry clock pre).entry = some st →
        ∀ m ∈ (op.apply cfg pid (some st)).2, ∀ evt ∈ m.record,
          (evt.cpuNs =
              openStretchCpuNs st.cpuNsTotal st.onCpuTs st.lastCpuNs op.ends cfg.cpuAccounting ↔
            st.BaseKnown cfg op.ends)) ∧
      (Run.Allowed (watchStep cfg pid) (fun s op => op.Scheduled cfg s) { entry, clock } ops →
        (∀ pre op post, ops = pre ++ op :: post →
          ∀ st, (watchRun cfg pid entry clock pre).entry = some st →
            ∀ m ∈ (op.apply cfg pid (some st)).2, ∀ evt ∈ m.record,
              evt.cpuNs ≤ evt.durationNs) ∧
          let s := watchRun cfg pid entry clock ops
          ∀ st, s.entry = some st → st.wpLive ≠ 0 → (observe s.marks).exited = false →
            ∀ now, s.clock ≤ now →
              (measuredSum (observe s.marks).since +
                    (openStretchCpuNs st.cpuNsTotal st.onCpuTs st.lastCpuNs now
                      cfg.cpuAccounting).toNat =
                  st.cpuAt now.toNat ↔
                basesKnown cfg pid entry clock ops = true)) := by
  have hstart := WatchRun.Accounts.start clock hidle
  refine ⟨fun pre op post hops st hst m hm evt hevt => ?_, fun hsched =>
    ⟨fun pre op post hops st hst m hm evt hevt => ?_, ?_⟩⟩
  · rw [(record_apply hm hevt).2.1]
    exact cpuDelta_eq_iff hcpu
  · obtain ⟨hlive, hcpuNs, hdur, hrun⟩ := record_apply hm hevt
    rw [hops] at hsched hclock
    have hback := hclock.of_split
    have haccounts := accounts_watchRun hfull hopen hcpu pre hstart (hclock.of_append_left)
      (hsched.of_append_left)
    have hst' := (haccounts st hst).pass
      (UInt64.le_iff_toNat_le.1 (UInt64.le_trans hback.1 hback.2))
    rw [hcpuNs, hdur]
    exact hst'.delta_le hcpu hlive (hrun _ hst hsched.of_split)
  · intro s st hst hlive hrun now hnow
    have hst' := (accounts_watchRun hfull hopen hcpu ops hstart hclock hsched st hst).pass
      (UInt64.le_iff_toNat_le.1 hnow)
    rw [← hst'.toNat_openStretchCpuNs hcpu hlive hrun, Nat.add_right_cancel_iff]
    exact hst'.sum_eq hlive hrun

/-- A backend that is seeded in a wait, leaves it and runs until now. -/
theorem closing_cpu_leavesWait :
    let ops : List WatchStep :=
      [.preseed 10 ⟨some 0x06000000, true⟩, .watchpoint 15 0 ⟨1, 1, 0⟩]
    let s := watchRun fullTrace 7 none 0 ops
    (∀ m ∈ (ops[1].apply fullTrace 7 (watchRun fullTrace 7 none 0 (ops.take 1)).entry).2,
        ∀ evt ∈ m.record, evt.cpuNs = 0 ∧ evt.cpuNs ≤ evt.durationNs) ∧
      ∃ st, s.entry = some st ∧
        measuredSum (observe s.marks).since +
          (openStretchCpuNs st.cpuNsTotal st.onCpuTs st.lastCpuNs 20 true).toNat = 5 := by
  intro ops s
  have hclock : Run.Allowed (watchStep fullTrace 7) WatchStep.NotBack
      { entry := none, clock := 0 } ops := by
    simp [ops, Run.Allowed, WatchStep.NotBack, watchStep, WatchStep.begins, WatchStep.ends]
  have hsched : Run.Allowed (watchStep fullTrace 7) (fun s op => op.Scheduled fullTrace s)
      { entry := none, clock := 0 } ops := by
    refine ⟨by rintro _ ⟨⟩, fun st hst => ?_, trivial⟩
    cases hst
    decide
  obtain ⟨hiff, hrest⟩ := closing_cpu rfl rfl rfl (by simp) hclock
  obtain ⟨hle, hsum⟩ := hrest hsched
  refine ⟨fun m hm evt hevt => ⟨?_, ?_⟩, _, rfl, ?_⟩
  · exact ((hiff (ops.take 1) ops[1] [] rfl _ rfl m hm evt hevt).2 (Or.inr rfl)).trans
      (by with_unfolding_all rfl)
  · exact hle (ops.take 1) ops[1] [] rfl _ rfl m hm evt hevt
  · exact (hsum _ rfl (by decide) rfl 20 (by decide)).2 rfl

/-- The time on CPU since a seed is not in the first record. -/
theorem closing_cpu_afterSeed :
    let s := watchRun fullTrace 7 none 0 [.preseed 10 ⟨some 0, true⟩]
    let op : WatchStep := .watchpoint 15 0x06000000 ⟨1, 1, 0⟩
    ∃ st evt, s.entry = some st ∧ (op.apply fullTrace 7 s.entry).2 = [.transition evt] ∧
      evt.durationNs = 5 ∧ evt.cpuNs = 0 ∧
        openStretchCpuNs st.cpuNsTotal st.onCpuTs st.lastCpuNs op.ends
          fullTrace.cpuAccounting = 5 :=
  ⟨_, _, rfl, rfl, rfl, rfl, rfl⟩

end Runs

end PgWaitTracer
