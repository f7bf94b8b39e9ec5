import Mathlib.Data.Bool.Basic
import PgWaitTracer.Lib.Run

/-!
# Retries after a failed setup

The anomaly rules fire, and the setup of the escalation may fail (`src/anomaly.c`). A failed setup
is retried after a backoff, three times in an episode. The episode is over when an escalation
succeeds, or on a tick on which its rules have recovered. The rules of the episode are the mask of
the last failure that scheduled a retry: what the failures before it fired is forgotten, and so is
what fires after the last retry.

The comparisons of floating-point metrics with their thresholds are inputs of a tick.

## Main results

* `setupRetry_episode_iff`: what ends an episode, how many retries it has, and that no
  tick ends it too early exactly if no failed setup forgets a rule.
* `setupRetry_forgetsLock`: a lock rule that is still over when its episode ends.
-/

namespace PgWaitTracer

/-! ### The rule engine -/

/-- `enum pgwt_anomaly_rule`. -/
inductive AnomalyRule
  | aas
  | lock
  | cpuSaturation
  deriving DecidableEq, Repr

/-- The bit of a rule. -/
def AnomalyRule.bit : AnomalyRule → UInt32
  | .aas => 1
  | .lock => 2
  | .cpuSaturation => 4

/-- The mask has the rule. -/
def hasRule (mask : UInt32) (r : AnomalyRule) : Bool := mask &&& r.bit ≠ 0

/-- `PGWT_ANOMALY_SETUP_MAX_RETRIES`. -/
def setupMaxRetries : ℕ := 3

/-- The backoff of `PGWT_ANOMALY_SETUP_RETRY_S` seconds. -/
def setupRetryNs : UInt64 := 3000000000

/-- The part of `struct pgwt_anomaly` that is not a metric: the configuration of ticks and cooldown,
and the state. -/
structure Anomaly where
  enabled : Bool
  aasTicks : ℕ
  lockTicks : ℕ
  cooldownNs : UInt64
  coverageGapResetTicks : ℕ
  cpuArmed : Bool := true
  setupRetries : ℕ := 0
  setupRetryAfterNs : UInt64 := 0
  setupRetryRules : UInt32 := 0
  cpuCoverageGapTicks : ℕ := 0
  aasOverStreak : ℕ := 0
  lockOverStreak : ℕ := 0
  lastFireNs : UInt64 := 0
  firesTotal : ℕ := 0
  cpuSaturationFiresTotal : ℕ := 0
  nearTotal : ℕ := 0
  droppedCooldown : ℕ := 0
  deriving DecidableEq, Repr

/-- An observation: what it says itself, and how its metrics compare with the thresholds.
`cusumClimbed` to `cusumOverHalf` are about the evidence after this tick. -/
structure AnomalyTick where
  coverageOk : Bool := false
  capacityChanged : Bool := false
  guardBlocked : Bool := false
  capacityKnown : Bool := false
  utilizationOver : Bool := false
  utilizationBelow : Bool := false
  cpuRuleEnabled : Bool := false
  cpuAasOver : Bool := false
  cusumClimbed : Bool := false
  cusumOver : Bool := false
  cusumOverHalf : Bool := false
  baselineWarm : Bool := false
  aasAtLeastTwo : Bool := false
  aasOver : Bool := false
  lockOver : Bool := false
  deriving DecidableEq, Repr

/-- `enum pgwt_anomaly_action`. -/
inductive AnomalyAction
  | none
  | near
  | fire
  deriving DecidableEq, Repr

/-- The action, and the mask of what fired. -/
structure AnomalyDecision where
  action : AnomalyAction := .none
  nearMask : UInt32 := 0
  firedMask : UInt32 := 0
  deriving DecidableEq, Repr

/-- An incomplete tick at the reference is a lower bound. -/
def AnomalyTick.saturationLowerBound (t : AnomalyTick) : Bool :=
  t.capacityKnown && t.utilizationOver

/-- A complete tick below the slack proves recovery. -/
def AnomalyTick.trustedBelow (t : AnomalyTick) : Bool :=
  t.capacityKnown && t.coverageOk && t.utilizationBelow

/-- The rule has recovered on this tick. -/
def AnomalyTick.recovered (t : AnomalyTick) : AnomalyRule → Bool
  | .aas => !t.aasOver
  | .lock => !t.lockOver
  | .cpuSaturation => t.trustedBelow

namespace Anomaly

/-- The cooldown after a fire. -/
def inCooldown (a : Anomaly) (nowNs : UInt64) : Bool :=
  a.lastFireNs ≠ 0 && nowNs - a.lastFireNs < a.cooldownNs

/-- The backoff after a failed setup. -/
def inBackoff (a : Anomaly) (nowNs : UInt64) : Bool :=
  a.setupRetryAfterNs ≠ 0 && nowNs < a.setupRetryAfterNs

/-- A backoff that is over is cleared. -/
def clearBackoff (a : Anomaly) (nowNs : UInt64) : Anomaly :=
  if a.setupRetryAfterNs ≠ 0 ∧ !a.inBackoff nowNs then { a with setupRetryAfterNs := 0 } else a

/-- The state of the CPU rule: recovery arms it, and blind ticks are counted. -/
def observeCpu (a : Anomaly) (t : AnomalyTick) : Anomaly :=
  { a with
    cpuArmed := a.cpuArmed || t.trustedBelow
    cpuCoverageGapTicks :=
      if !t.capacityKnown || (!t.coverageOk && !t.saturationLowerBound) then
        if a.cpuCoverageGapTicks < a.coverageGapResetTicks then a.cpuCoverageGapTicks + 1
        else a.cpuCoverageGapTicks
      else 0 }

/-- Evidence is accumulated on this tick. -/
def cpuCounts (blocked : Bool) (t : AnomalyTick) : Bool :=
  !t.capacityChanged && !t.guardBlocked && !blocked && t.cpuRuleEnabled && t.capacityKnown &&
    (t.coverageOk || t.saturationLowerBound)

/-- The CPU rule fires. -/
def cpuFire (a : Anomaly) (blocked : Bool) (t : AnomalyTick) : Bool :=
  cpuCounts blocked t && a.cpuArmed && t.cpuAasOver && t.saturationLowerBound && t.cusumOver

/-- A streak of ticks over a threshold, which a backoff ends. -/
def streak (backoff above : Bool) (n : ℕ) : ℕ :=
  if backoff then 0 else if above then n + 1 else 0

/-- The recovery of the rules of the episode. -/
def recover (a : Anomaly) (t : AnomalyTick) : Anomaly :=
  if a.setupRetryRules = 0 then a
  else if (hasRule a.setupRetryRules .aas && t.aasOver) ||
      (hasRule a.setupRetryRules .lock && t.lockOver) ||
      (hasRule a.setupRetryRules .cpuSaturation && !t.trustedBelow) then a
  else { a with setupRetries := 0, setupRetryAfterNs := 0, setupRetryRules := 0 }

/-- What crossed a threshold and did not fire. -/
def nearMask (a : Anomaly) (blocked : Bool) (t : AnomalyTick) : UInt32 :=
  (if t.aasOver then 1 else 0) ||| (if t.lockOver then 2 else 0) |||
    (if cpuCounts blocked t && a.cpuArmed && t.cusumClimbed && t.cpuAasOver && t.cusumOverHalf
      then 16 else 0) |||
    (if !t.baselineWarm && t.aasAtLeastTwo then 8 else 0)

/-- The decision about what wants to fire. -/
def decide (a : Anomaly) (cooldown : Bool) (fired near : UInt32) (nowNs : UInt64) :
    Anomaly × AnomalyDecision :=
  if fired = 0 then
    if near ≠ 0 then
      ({ a with nearTotal := a.nearTotal + 1 }, { action := .near, nearMask := near })
    else (a, {})
  else if cooldown then
    ({ a with
        nearTotal := a.nearTotal + 1
        droppedCooldown := a.droppedCooldown + 1 },
      { action := .near, nearMask := 4, firedMask := fired })
  else
    ({ a with
        lastFireNs := nowNs
        firesTotal := a.firesTotal + 1
        cpuArmed := if hasRule fired .cpuSaturation then false else a.cpuArmed
        cpuSaturationFiresTotal :=
          if hasRule fired .cpuSaturation then a.cpuSaturationFiresTotal + 1
          else a.cpuSaturationFiresTotal },
      { action := .fire, firedMask := fired })

end Anomaly

/-- `pgwt_anomaly_eval_observation`. -/
def anomalyEval (a : Anomaly) (t : AnomalyTick) (nowNs : UInt64) : Anomaly × AnomalyDecision :=
  if !a.enabled then (a, {})
  else
    let cooldown := a.inCooldown nowNs
    let backoff := a.inBackoff nowNs
    let a := (a.clearBackoff nowNs).observeCpu t
    let aasStreak := Anomaly.streak backoff t.aasOver a.aasOverStreak
    let lockStreak := Anomaly.streak backoff t.lockOver a.lockOverStreak
    let a := { a.recover t with aasOverStreak := aasStreak, lockOverStreak := lockStreak }
    let fired := (if t.aasOver && a.aasTicks ≤ aasStreak then AnomalyRule.aas.bit else 0) |||
      (if t.lockOver && a.lockTicks ≤ lockStreak then AnomalyRule.lock.bit else 0) |||
      (if a.cpuFire (cooldown || backoff) t then AnomalyRule.cpuSaturation.bit else 0)
    a.decide cooldown fired (a.nearMask (cooldown || backoff) t) nowNs

/-- `enum pgwt_anomaly_setup_retry_result`. -/
inductive SetupRetryResult
  | notApplicable
  | scheduled
  | limitReached
  deriving DecidableEq, Repr

/-- `pgwt_anomaly_retry_after_setup_failure`. -/
def retryAfterSetupFailure (a : Anomaly) (firedMask : UInt32) (nowNs : UInt64) :
    Anomaly × SetupRetryResult :=
  let retryable := firedMask &&& 7
  if retryable = 0 then (a, .notApplicable)
  else if setupMaxRetries ≤ a.setupRetries then (a, .limitReached)
  else
    ({ a with
        setupRetries := a.setupRetries + 1
        setupRetryAfterNs := nowNs + setupRetryNs
        setupRetryRules := retryable
        lastFireNs := 0
        aasOverStreak := if hasRule firedMask .aas then 0 else a.aasOverStreak
        lockOverStreak := if hasRule firedMask .lock then 0 else a.lockOverStreak
        cpuArmed := if hasRule firedMask .cpuSaturation then true else a.cpuArmed }, .scheduled)

/-- `pgwt_anomaly_escalation_succeeded`. -/
def escalationSucceeded (a : Anomaly) : Anomaly :=
  { a with setupRetries := 0, setupRetryAfterNs := 0, setupRetryRules := 0 }

/-! ### Episodes -/

/-- A call of the daemon. -/
inductive AnomalyOp
  | tick (t : AnomalyTick) (nowNs : UInt64)
  | setupFailed (firedMask : UInt32) (nowNs : UInt64)
  | succeeded

/-- The rule engine, with the rules that fired in a failed setup of the episode and the number of
retries that were scheduled in it. -/
structure EpisodeState where
  a : Anomaly
  episode : AnomalyRule → Bool := fun _ => false
  scheduled : ℕ := 0

/-- The engine after a call. -/
def anomalyStep (a : Anomaly) : AnomalyOp → Anomaly
  | .tick t nowNs => (anomalyEval a t nowNs).1
  | .setupFailed firedMask nowNs => (retryAfterSetupFailure a firedMask nowNs).1
  | .succeeded => escalationSucceeded a

/-- A call: an episode ends when there are no retries any more. -/
def episodeStep (s : EpisodeState) (op : AnomalyOp) : EpisodeState :=
  match op with
  | .setupFailed firedMask nowNs =>
    { a := anomalyStep s.a op
      episode := fun r => s.episode r || hasRule firedMask r
      scheduled :=
        if (retryAfterSetupFailure s.a firedMask nowNs).2 = .scheduled then s.scheduled + 1
        else s.scheduled }
  | _ =>
    if (anomalyStep s.a op).setupRetries = 0 then { a := anomalyStep s.a op }
    else { s with a := anomalyStep s.a op }

/-- No tick from here ends the episode while one of its rules is still over. -/
def EpisodeState.ResetsRightly (s : EpisodeState) : Prop :=
  ∀ t nowNs, s.a.setupRetries ≠ 0 → (anomalyEval s.a t nowNs).1.setupRetries = 0 →
    ∀ r, s.episode r → t.recovered r

/-- A failed setup forgets no rule: a retry that it schedules is for all rules of the episode, and
it adds no rule when there are no retries left. An engine that is disabled never recovers. -/
def AnomalyOp.KeepsRules (s : EpisodeState) : AnomalyOp → Prop
  | .setupFailed firedMask _ => s.a.enabled = true → firedMask &&& 7 ≠ 0 →
    if s.a.setupRetries < setupMaxRetries then
      ∀ r, hasRule s.a.setupRetryRules r → hasRule firedMask r
    else ∀ r, hasRule firedMask r → hasRule s.a.setupRetryRules r
  | _ => True

/-! ### Masks -/

theorem hasRule_and_seven (mask : UInt32) (r : AnomalyRule) :
    hasRule (mask &&& 7) r = hasRule mask r := by
  have hbit : (7 : UInt32) &&& r.bit = r.bit := by
    cases r <;> rfl
  rw [hasRule, hasRule, UInt32.and_assoc, hbit]

theorem and_seven_eq_zero_iff (mask : UInt32) :
    mask &&& 7 = 0 ↔ ∀ r, hasRule mask r = false := by
  constructor
  · intro h r
    rw [← hasRule_and_seven, h]
    cases r <;> rfl
  · intro h
    have hbit : ∀ r : AnomalyRule, mask &&& r.bit = 0 := fun r => by
      simpa [hasRule] using h r
    have hseven : (7 : UInt32) =
        AnomalyRule.aas.bit ||| AnomalyRule.lock.bit ||| AnomalyRule.cpuSaturation.bit := rfl
    have hdistrib : ∀ m x y : UInt32, m &&& (x ||| y) = (m &&& x) ||| (m &&& y) := by
      intro m x y
      refine UInt32.toBitVec_inj.mp ?_
      simp only [UInt32.toBitVec_and, UInt32.toBitVec_or, BitVec.and_or_distrib_left]
    rw [hseven, hdistrib, hdistrib, hbit, hbit, hbit]
    rfl

/-! ### What a call does to the retries -/

/-- All rules of the episode that the engine knows have recovered. -/
def Anomaly.Recovers (a : Anomaly) (t : AnomalyTick) : Prop :=
  a.enabled = true ∧ a.setupRetryRules ≠ 0 ∧ ∀ r, hasRule a.setupRetryRules r → t.recovered r

theorem Anomaly.decide_retries (a : Anomaly) (cooldown : Bool) (fired near : UInt32)
    (nowNs : UInt64) :
    (a.decide cooldown fired near nowNs).1.enabled = a.enabled ∧
      (a.decide cooldown fired near nowNs).1.setupRetries = a.setupRetries ∧
      (a.decide cooldown fired near nowNs).1.setupRetryRules = a.setupRetryRules := by
  rw [Anomaly.decide]
  split_ifs <;> exact ⟨rfl, rfl, rfl⟩

theorem Anomaly.recover_eq {a : Anomaly} {t : AnomalyTick} (h : a.setupRetryRules ≠ 0) :
    ((∀ r, hasRule a.setupRetryRules r → t.recovered r) ∧
        a.recover t = { a with setupRetries := 0, setupRetryAfterNs := 0, setupRetryRules := 0 }) ∨
      (¬∀ r, hasRule a.setupRetryRules r → t.recovered r) ∧ a.recover t = a := by
  rw [Anomaly.recover, if_neg h]
  split_ifs with hover
  · refine Or.inr ⟨fun hall => ?_, rfl⟩
    simp only [Bool.or_eq_true, Bool.and_eq_true] at hover
    rcases hover with (⟨hrule, hover⟩ | ⟨hrule, hover⟩) | ⟨hrule, hover⟩
    · simpa [AnomalyTick.recovered, hover] using hall _ hrule
    · simpa [AnomalyTick.recovered, hover] using hall _ hrule
    · have hrec : t.trustedBelow = true := hall _ hrule
      simp [hrec] at hover
  · refine Or.inl ⟨fun r hrule => ?_, rfl⟩
    simp only [Bool.or_eq_true, Bool.and_eq_true, not_or, not_and] at hover
    obtain ⟨⟨haas, hlock⟩, hcpu⟩ := hover
    cases r with
    | aas => simpa [AnomalyTick.recovered] using haas hrule
    | lock => simpa [AnomalyTick.recovered] using hlock hrule
    | cpuSaturation => simpa [AnomalyTick.recovered] using hcpu hrule

/-- **A tick.** It ends the episode if all rules that the engine knows have recovered. -/
theorem anomalyEval_cases (a : Anomaly) (t : AnomalyTick) (nowNs : UInt64) :
    (anomalyEval a t nowNs).1.enabled = a.enabled ∧
      (a.Recovers t ∧ (anomalyEval a t nowNs).1.setupRetries = 0 ∧
          (anomalyEval a t nowNs).1.setupRetryRules = 0 ∨
        ¬a.Recovers t ∧ (anomalyEval a t nowNs).1.setupRetries = a.setupRetries ∧
          (anomalyEval a t nowNs).1.setupRetryRules = a.setupRetryRules) := by
  rw [anomalyEval]
  by_cases hen : a.enabled = true
  · rw [if_neg (by simp [hen])]
    have hclear : ((a.clearBackoff nowNs).observeCpu t).enabled = a.enabled ∧
        ((a.clearBackoff nowNs).observeCpu t).setupRetries = a.setupRetries ∧
        ((a.clearBackoff nowNs).observeCpu t).setupRetryRules = a.setupRetryRules := by
      simp only [Anomaly.observeCpu, Anomaly.clearBackoff]
      split_ifs <;> exact ⟨rfl, rfl, rfl⟩
    dsimp only
    generalize (a.clearBackoff nowNs).observeCpu t = b at hclear
    obtain ⟨hb, hretries, hrules⟩ := hclear
    have hdecide := Anomaly.decide_retries
    simp only [hdecide]
    by_cases hzero : a.setupRetryRules = 0
    · have hrec : b.recover t = b := if_pos (hrules.trans hzero)
      rw [hrec]
      exact ⟨hb, Or.inr ⟨fun h => h.2.1 hzero, hretries, hrules⟩⟩
    · have hzero' : b.setupRetryRules ≠ 0 := hrules ▸ hzero
      rcases Anomaly.recover_eq (t := t) hzero' with ⟨hall, hrec⟩ | ⟨hnot, hrec⟩
      · rw [hrec]
        exact ⟨hb, Or.inl ⟨⟨hen, hzero, hrules ▸ hall⟩, rfl, rfl⟩⟩
      · rw [hrec]
        exact ⟨hb, Or.inr ⟨fun h => hnot (hrules.symm ▸ h.2.2), hretries, hrules⟩⟩
  · rw [if_pos (by simpa using hen)]
    exact ⟨rfl, Or.inr ⟨fun h => hen h.1, rfl, rfl⟩⟩

/-- **A failed setup.** It schedules a retry for its rules, or changes nothing. -/
theorem retryAfterSetupFailure_cases (a : Anomaly) (mask : UInt32) (nowNs : UInt64) :
    (retryAfterSetupFailure a mask nowNs).1.enabled = a.enabled ∧
      (mask &&& 7 ≠ 0 ∧ a.setupRetries < setupMaxRetries ∧
          (retryAfterSetupFailure a mask nowNs).2 = .scheduled ∧
          (retryAfterSetupFailure a mask nowNs).1.setupRetries = a.setupRetries + 1 ∧
          (retryAfterSetupFailure a mask nowNs).1.setupRetryRules = mask &&& 7 ∨
        (mask &&& 7 = 0 ∨ setupMaxRetries ≤ a.setupRetries) ∧
          (retryAfterSetupFailure a mask nowNs).2 ≠ .scheduled ∧
          (retryAfterSetupFailure a mask nowNs).1 = a) := by
  unfold retryAfterSetupFailure
  dsimp only
  by_cases hnone : mask &&& 7 = 0
  · rw [if_pos hnone]
    exact ⟨rfl, Or.inr ⟨Or.inl hnone, nofun, rfl⟩⟩
  · rw [if_neg hnone]
    by_cases hlimit : setupMaxRetries ≤ a.setupRetries
    · rw [if_pos hlimit]
      exact ⟨rfl, Or.inr ⟨Or.inr hlimit, nofun, rfl⟩⟩
    · rw [if_neg hlimit]
      exact ⟨rfl, Or.inl ⟨hnone, Nat.not_le.mp hlimit, rfl, rfl, rfl⟩⟩

/-! ### Runs -/

namespace EpisodeState

/-- What holds after any calls. -/
structure Counts (s : EpisodeState) : Prop where
  count : s.a.setupRetries = s.scheduled
  le : s.scheduled ≤ setupMaxRetries
  rules_iff : s.a.setupRetryRules = 0 ↔ s.a.setupRetries = 0
  low : s.a.setupRetryRules &&& 7 = s.a.setupRetryRules
  known : ∀ r, hasRule s.a.setupRetryRules r → s.episode r
  cleared : s.a.setupRetries = 0 → ∀ r, s.episode r = false

/-- Moreover the engine knows all rules of the episode, unless it is disabled. -/
structure Tracks (s : EpisodeState) : Prop extends Counts s where
  all : s.a.enabled = true → ∀ r, s.episode r → hasRule s.a.setupRetryRules r

variable {s : EpisodeState}

theorem tracks_of_over (hretries : s.a.setupRetries = 0) (hrules : s.a.setupRetryRules = 0)
    (hepisode : ∀ r, s.episode r = false) (hscheduled : s.scheduled = 0) : s.Tracks := by
  refine ⟨⟨by rw [hretries, hscheduled], by rw [hscheduled]; exact Nat.zero_le _,
    iff_of_true hrules hretries, by rw [hrules]; rfl, fun r hr => ?_, fun _ => hepisode⟩,
    fun _ r hr => ?_⟩
  · rw [hrules] at hr
    cases r <;> exact absurd hr (by decide)
  · rw [hepisode r] at hr
    exact nomatch hr

/-- The parts of the state that the invariants are about stay as they are. -/
structure Same (s s' : EpisodeState) : Prop where
  enabled : s'.a.enabled = s.a.enabled
  retries : s'.a.setupRetries = s.a.setupRetries
  rules : s'.a.setupRetryRules = s.a.setupRetryRules
  episode : s'.episode = s.episode
  scheduled : s'.scheduled = s.scheduled

theorem Counts.same {s' : EpisodeState} (h : s.Counts) (hs : s.Same s') : s'.Counts := by
  obtain ⟨-, hretries, hrules, hepisode, hscheduled⟩ := hs
  exact ⟨by rw [hretries, hscheduled, h.count], hscheduled ▸ h.le,
    by rw [hrules, hretries, h.rules_iff], by rw [hrules, h.low],
    by rw [hrules, hepisode]; exact h.known, by rw [hretries, hepisode]; exact h.cleared⟩

theorem Tracks.same {s' : EpisodeState} (h : s.Tracks) (hs : s.Same s') : s'.Tracks :=
  ⟨h.toCounts.same hs, by rw [hs.enabled, hs.episode, hs.rules]; exact h.all⟩

theorem episodeStep_tick (s : EpisodeState) (t : AnomalyTick) (nowNs : UInt64) :
    episodeStep s (.tick t nowNs) =
      if (anomalyEval s.a t nowNs).1.setupRetries = 0 then { a := (anomalyEval s.a t nowNs).1 }
      else { s with a := (anomalyEval s.a t nowNs).1 } :=
  rfl

theorem Counts.tick (h : s.Counts) (t : AnomalyTick) (nowNs : UInt64) :
    (episodeStep s (.tick t nowNs)).Tracks ∨ s.Same (episodeStep s (.tick t nowNs)) := by
  obtain ⟨henabled, ⟨-, hretries, hrules⟩ | ⟨-, hretries, hrules⟩⟩ := anomalyEval_cases s.a t nowNs
  · rw [episodeStep_tick, if_pos hretries]
    exact Or.inl (tracks_of_over hretries hrules (fun _ => rfl) rfl)
  · by_cases hzero : s.a.setupRetries = 0
    · rw [episodeStep_tick, if_pos (hretries.trans hzero)]
      exact Or.inl (tracks_of_over (hretries.trans hzero) (hrules.trans (h.rules_iff.mpr hzero))
        (fun _ => rfl) rfl)
    · rw [episodeStep_tick, if_neg fun hz => hzero (hretries.symm.trans hz)]
      exact Or.inr ⟨henabled, hretries, hrules, rfl, rfl⟩

theorem tracks_succeeded (s : EpisodeState) : (episodeStep s .succeeded).Tracks := by
  have hstep : episodeStep s .succeeded = { a := escalationSucceeded s.a } := rfl
  rw [hstep]
  exact tracks_of_over rfl rfl (fun _ => rfl) rfl

theorem Counts.scheduled (h : s.Counts) {mask : UInt32} {nowNs : UInt64} (hmask : mask &&& 7 ≠ 0)
    (hless : s.a.setupRetries < setupMaxRetries)
    (hrc : (retryAfterSetupFailure s.a mask nowNs).2 = .scheduled)
    (hretries : (retryAfterSetupFailure s.a mask nowNs).1.setupRetries = s.a.setupRetries + 1)
    (hrules : (retryAfterSetupFailure s.a mask nowNs).1.setupRetryRules = mask &&& 7) :
    (episodeStep s (.setupFailed mask nowNs)).Counts := by
  have hcount := h.count
  rw [episodeStep, if_pos hrc]
  refine ⟨?_, ?_, ?_, ?_, fun r hr => ?_, fun hzero => ?_⟩
  · exact hretries.trans (congrArg (· + 1) hcount)
  · dsimp only
    omega
  · rw [anomalyStep, hrules, hretries]
    exact iff_of_false hmask (Nat.succ_ne_zero _)
  · rw [anomalyStep, hrules, UInt32.and_assoc]
    rfl
  · rw [anomalyStep, hrules, hasRule_and_seven] at hr
    simp [hr]
  · rw [anomalyStep, hretries] at hzero
    exact absurd hzero (Nat.succ_ne_zero _)

theorem Counts.refused (h : s.Counts) {mask : UInt32} {nowNs : UInt64}
    (hwhy : mask &&& 7 = 0 ∨ setupMaxRetries ≤ s.a.setupRetries)
    (hrc : (retryAfterSetupFailure s.a mask nowNs).2 ≠ .scheduled)
    (hsame : (retryAfterSetupFailure s.a mask nowNs).1 = s.a) :
    (episodeStep s (.setupFailed mask nowNs)).Counts := by
  rw [episodeStep, if_neg hrc, anomalyStep, hsame]
  refine ⟨h.count, h.le, h.rules_iff, h.low, fun r hr => ?_, fun hzero r => ?_⟩
  · simp [h.known r hr]
  · have hnone : mask &&& 7 = 0 := hwhy.resolve_right fun hmax => by
      rw [hzero] at hmax
      exact absurd hmax (by decide)
    simp [h.cleared hzero r, (and_seven_eq_zero_iff mask).mp hnone r]

theorem Counts.step (h : s.Counts) (op : AnomalyOp) : (episodeStep s op).Counts := by
  cases op with
  | tick t nowNs => exact (h.tick t nowNs).elim Tracks.toCounts h.same
  | setupFailed mask nowNs =>
    obtain ⟨-, ⟨hmask, hless, hrc, hretries, hrules⟩ | ⟨hwhy, hrc, hsame⟩⟩ :=
      retryAfterSetupFailure_cases s.a mask nowNs
    · exact h.scheduled hmask hless hrc hretries hrules
    · exact h.refused hwhy hrc hsame
  | succeeded => exact (tracks_succeeded s).toCounts

/-- **The engine knows the rules of the episode**, as long as no failed setup forgets one. -/
theorem Tracks.step (h : s.Tracks) {op : AnomalyOp} (hop : op.KeepsRules s) :
    (episodeStep s op).Tracks := by
  cases op with
  | tick t nowNs => exact (h.toCounts.tick t nowNs).elim id h.same
  | setupFailed mask nowNs =>
    refine ⟨h.toCounts.step _, fun henabled r hr => ?_⟩
    have hr' : s.episode r ∨ hasRule mask r := Bool.or_eq_true_iff.mp hr
    obtain ⟨hen, ⟨hmask, hless, -, -, hrules⟩ | ⟨hwhy, -, hsame⟩⟩ :=
      retryAfterSetupFailure_cases s.a mask nowNs
    · have henabled' : s.a.enabled = true := hen.symm.trans henabled
      have hkeeps := hop henabled' hmask
      rw [if_pos hless] at hkeeps
      have hmem : hasRule mask r := hr'.elim (fun hold => hkeeps r (h.all henabled' r hold)) id
      show hasRule (retryAfterSetupFailure s.a mask nowNs).1.setupRetryRules r
      rwa [hrules, hasRule_and_seven]
    · have henabled' : s.a.enabled = true := hen.symm.trans henabled
      show hasRule (retryAfterSetupFailure s.a mask nowNs).1.setupRetryRules r
      rw [hsame]
      by_cases hnone : mask &&& 7 = 0
      · rw [(and_seven_eq_zero_iff mask).mp hnone r] at hr'
        exact hr'.elim (h.all henabled' r) nofun
      · have hkeeps := hop henabled' hnone
        rw [if_neg (Nat.not_lt.mpr (hwhy.resolve_left hnone))] at hkeeps
        exact hr'.elim (h.all henabled' r) (hkeeps r)
  | succeeded => exact tracks_succeeded s

theorem Tracks.resetsRightly (h : s.Tracks) : s.ResetsRightly := by
  intro t nowNs hretries hreset r hr
  obtain ⟨-, ⟨hrec, -, -⟩ | ⟨-, hsame, -⟩⟩ := anomalyEval_cases s.a t nowNs
  · exact hrec.2.2 r (h.all hrec.1 r hr)
  · exact absurd (hsame.symm.trans hreset) hretries

/-- A tick on which one rule is over and the others have recovered. -/
def tickOver (r : AnomalyRule) : AnomalyTick where
  coverageOk := true
  capacityKnown := true
  utilizationOver := r = .cpuSaturation
  utilizationBelow := r ≠ .cpuSaturation
  baselineWarm := true
  aasAtLeastTwo := true
  aasOver := r = .aas
  lockOver := r = .lock

theorem recovered_tickOver (r r' : AnomalyRule) : (tickOver r).recovered r' = true ↔ r' ≠ r := by
  cases r <;> cases r' <;> decide

theorem Counts.hasRule_of_resetsRightly (h : s.Counts) (henabled : s.a.enabled = true)
    (hright : s.ResetsRightly) {r : AnomalyRule} (hr : s.episode r) :
    hasRule s.a.setupRetryRules r := by
  by_contra hlost
  have hretries : s.a.setupRetries ≠ 0 := fun hzero => by
    rw [h.cleared hzero r] at hr
    exact nomatch hr
  have hrules : s.a.setupRetryRules ≠ 0 := fun hzero => hretries (h.rules_iff.mp hzero)
  have hrec : s.a.Recovers (tickOver r) := by
    refine ⟨henabled, hrules, fun r' hr' => (recovered_tickOver r r').mpr ?_⟩
    rintro rfl
    exact hlost hr'
  obtain ⟨-, ⟨-, hreset, -⟩ | ⟨hnot, -⟩⟩ := anomalyEval_cases s.a (tickOver r) 0
  · exact (recovered_tickOver r r).mp (hright (tickOver r) 0 hretries hreset r hr) rfl
  · exact hnot hrec

theorem Tracks.keepsRules (h : s.Tracks) (op : AnomalyOp)
    (hright : (episodeStep s op).ResetsRightly) : op.KeepsRules s := by
  cases op with
  | setupFailed mask nowNs =>
    intro henabled hmask
    obtain ⟨hen, hcases⟩ := retryAfterSetupFailure_cases s.a mask nowNs
    have hknown : ∀ r, s.episode r ∨ hasRule mask r →
        hasRule (retryAfterSetupFailure s.a mask nowNs).1.setupRetryRules r := fun r hr =>
      (h.toCounts.step (.setupFailed mask nowNs)).hasRule_of_resetsRightly (hen.trans henabled)
        hright (Bool.or_eq_true_iff.mpr hr)
    rcases hcases with ⟨-, hless, -, -, hrules⟩ | ⟨hwhy, -, hsame⟩
    · rw [if_pos hless]
      intro r hr
      rw [← hasRule_and_seven, ← hrules]
      exact hknown r (Or.inl (h.known r hr))
    · rw [if_neg (Nat.not_lt.mpr (hwhy.resolve_left hmask))]
      intro r hr
      rw [← hsame]
      exact hknown r (Or.inr hr)
  | _ => trivial

end EpisodeState

/-- **The episodes of setup retries.** In every run of the engine, the retries return to none only
at a tick or when an escalation succeeds, an episode schedules at most three, and no tick ends an
episode while a rule that fired in it is over exactly as long as no failed setup forgets a rule.
-/
theorem setupRetry_episode_iff (enabled : Bool) (aasTicks lockTicks gapTicks : ℕ)
    (cooldownNs : UInt64) (ops : List AnomalyOp) :
    let s₀ : EpisodeState :=
      { a := { enabled, aasTicks, lockTicks, cooldownNs, coverageGapResetTicks := gapTicks } }
    let run := List.foldl episodeStep s₀
    (∀ pre op post, ops = pre ++ op :: post → (run pre).a.setupRetries ≠ 0 →
        (episodeStep (run pre) op).a.setupRetries = 0 →
          op = .succeeded ∨ ∃ t nowNs, op = .tick t nowNs) ∧
      (run ops).scheduled ≤ setupMaxRetries ∧
      ((∀ pre post, ops = pre ++ post → (run pre).ResetsRightly) ↔
        Run.Allowed episodeStep (fun s op => op.KeepsRules s) s₀ ops) := by
  intro s₀ run
  have hinit : s₀.Tracks := EpisodeState.tracks_of_over rfl rfl (fun _ => rfl) rfl
  have hcounts : (run ops).Counts :=
    List.foldlRecOn ops _ hinit.toCounts fun s h op _ => EpisodeState.Counts.step h op
  refine ⟨fun pre op post _ hretries hzero => ?_, hcounts.le, ?_⟩
  · cases op with
    | tick t nowNs => exact Or.inr ⟨t, nowNs, rfl⟩
    | setupFailed mask nowNs =>
      have hafter : (retryAfterSetupFailure (run pre).a mask nowNs).1.setupRetries = 0 := hzero
      obtain ⟨-, ⟨-, -, -, hmore, -⟩ | ⟨-, -, hsame⟩⟩ :=
        retryAfterSetupFailure_cases (run pre).a mask nowNs
      · rw [hmore] at hafter
        exact absurd hafter (Nat.succ_ne_zero _)
      · rw [hsame] at hafter
        exact absurd hafter hretries
    | succeeded => exact Or.inl rfl
  · have hall : Run.Allowed episodeStep (fun _ _ => True) s₀ ops :=
      Run.Allowed.of_forall ops s₀ fun _ _ _ => trivial
    exact Run.Allowed.forall_state_iff (P := EpisodeState.ResetsRightly)
      (Q := fun s op => op.KeepsRules s) (fun s op (h : s.Tracks) _ hop => h.step hop)
      (fun s h => h.resetsRightly) (fun s op h _ hright => h.keepsRules op hright) ops s₀ hall hinit

/-- The lock rule fires on its third tick and its setup fails. After the backoff the load fires
alone, and its setup fails too: the retry is for the load. On the next tick the lock rule is still
over, and the episode is over. -/
theorem setupRetry_forgetsLock :
    let lock : AnomalyTick := { coverageOk := true, baselineWarm := true, lockOver := true }
    let both : AnomalyTick := { lock with aasOver := true }
    let s₀ : EpisodeState :=
      { a :=
          { enabled := true, aasTicks := 1, lockTicks := 3, cooldownNs := 0
            coverageGapResetTicks := 5 } }
    let s := List.foldl episodeStep s₀
      [.tick lock 1000000000, .tick lock 2000000000, .tick lock 3000000000,
        .setupFailed 2 3000000000, .tick both 7000000000, .setupFailed 1 7000000000]
    s.episode .lock = true ∧ s.a.setupRetries = 2 ∧
      (anomalyEval s.a lock 11000000000).1.setupRetries = 0 ∧ lock.recovered .lock = false ∧
      ¬s.ResetsRightly := by
  intro lock both s₀ s
  refine ⟨by decide, by decide, by decide, by decide, fun hright => ?_⟩
  have hrec := hright lock 11000000000 (by decide) (by decide) .lock (by decide)
  exact absurd hrec (by decide)

end PgWaitTracer
