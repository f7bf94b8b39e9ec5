import PgWaitTracer.Lib.Tally
import PgWaitTracer.Trace.Event

/-!
# The weight of a sample

A tick of the sampler weighs its samples by the time since the tick before
(`pgwt_sampler_effective_period`, `src/sampler.c`), but never by less than the nominal period. The
timer is armed with a random delay around the nominal period (`arm_sample_timer_jittered`,
`src/daemon.c`), so that it does fire early.

Times are numbers of ns. The tables of the live accumulator have room.

## Main results

* `weightTracksTime_iff`: they do if, and only if, no tick came early.
-/

namespace PgWaitTracer

/-! ### The period of a tick -/

/-- The longest weight. -/
def maxStallNs : ℕ := 60 * 1000000000

/-- `pgwt_sampler_effective_period`. -/
def effectivePeriod (nominalNs lastTickNs nowNs : ℕ) : ℕ :=
  if lastTickNs = 0 ∨ nowNs ≤ lastTickNs then nominalNs
  else if nowNs - lastTickNs < nominalNs then nominalNs
  else if maxStallNs < nowNs - lastTickNs then maxStallNs
  else nowNs - lastTickNs

/-- The fields of `struct pgwt_sampler` that weigh a tick. -/
structure Sampler where
  samplePeriodNs : ℕ
  lastTickNs : ℕ

/-- The weight of a tick, and the sampler after it. -/
def Sampler.tick (s : Sampler) (tickTs : ℕ) : ℕ × Sampler :=
  (effectivePeriod s.samplePeriodNs s.lastTickNs tickTs, { s with lastTickNs := tickTs })

/-- The weights of ticks one after the other. -/
def Sampler.weights : Sampler → List ℕ → List ℕ
  | _, [] => []
  | s, t :: ticks => (s.tick t).1 :: (s.tick t).2.weights ticks

/-! ### The timer -/

/-- `arm_sample_timer_jittered`, for a value of `rand`. -/
def armedDelay (periodNs r : ℕ) : ℕ := periodNs - periodNs / 10 + r % (2 * (periodNs / 10) + 1)

/-- What decides when the timer fires: a value of `rand`, and how late it is. -/
structure Shot where
  rand : ℕ
  late : ℕ
  deriving DecidableEq, Repr

/-- The time between two ticks. -/
def Shot.gap (periodNs : ℕ) (shot : Shot) : ℕ := armedDelay periodNs shot.rand + shot.late

/-- The ticks after one at `t`. -/
def timerTicks (periodNs : ℕ) : ℕ → List Shot → List ℕ
  | _, [] => []
  | t, shot :: shots => (t + shot.gap periodNs) :: timerTicks periodNs (t + shot.gap periodNs) shots

/-- The last of the ticks, the one at `t` among them. -/
def lastTick (periodNs t : ℕ) (shots : List Shot) : ℕ :=
  t + (shots.map (Shot.gap periodNs)).sum

/-! ### A poll -/

/-- What a process has in the live accumulator. -/
structure SampledPid where
  eventNs : UInt32 → ℕ := fun _ => 0
  cpuTimeNs : ℕ := 0
  waitTimeNs : ℕ := 0
  dbTimeNs : ℕ := 0

/-- The time of a sample (`pgwt_sampler_accumulate`). -/
def SampledPid.add (mask : UInt32) (p : SampledPid) (we : UInt32) (ioWorker : Bool) (dur : ℕ) :
    SampledPid :=
  let p := { p with eventNs := Function.update p.eventNs we (p.eventNs we + dur) }
  if ioWorker then p
  else if we = 0 then { p with cpuTimeNs := p.cpuTimeNs + dur, dbTimeNs := p.dbTimeNs + dur }
  else if isIdleEvent mask we then p
  else { p with waitTimeNs := p.waitTimeNs + dur, dbTimeNs := p.dbTimeNs + dur }

/-- The live accumulator: what each process has, and what each event has. -/
structure SampledTotals where
  pids : UInt32 → SampledPid := fun _ => {}
  systemNs : UInt32 → ℕ := fun _ => 0

/-- `pgwt_sampler_accumulate`, for one sample. `covered` are the processes of which the exact tier
has an open window. -/
def accumulateSample (mask : UInt32) (covered : UInt32 → Bool) (periodNs : ℕ) (tot : SampledTotals)
    (ev : TraceEvent) : SampledTotals :=
  if isMarker ev.newEvent || covered ev.pid then tot
  else
    { pids := Function.update tot.pids ev.pid
        ((tot.pids ev.pid).add mask ev.newEvent (ev.flags &&& flagIoWorker ≠ 0) periodNs)
      systemNs := Function.update tot.systemNs ev.newEvent (tot.systemNs ev.newEvent + periodNs) }

/-- The sampler, the live accumulator, and the pushes of samples to the writer. -/
structure PollState where
  sampler : Sampler
  totals : SampledTotals := {}
  pushed : List (List TraceEvent × ℕ) := []

/-- `pgwt_sampler_poll`, for a batch of samples. -/
def pollTick (mask : UInt32) (covered : UInt32 → Bool) (s : PollState)
    (tick : ℕ × List TraceEvent) : PollState :=
  let r := s.sampler.tick tick.1
  { sampler := r.2
    totals := tick.2.foldl (accumulateSample mask covered r.1) s.totals
    pushed := if tick.2 = [] then s.pushed else s.pushed ++ [(tick.2, r.1)] }

/-- The sample is of a process in a state. -/
def TraceEvent.sampleOf (pid we : UInt32) (ev : TraceEvent) : Bool :=
  ev.pid = pid && ev.newEvent = we

/-- **The weights track time.** They add up to the time from the first tick to the last, and so do
the weights of the pushes to the writer when every tick has a sample, and the time of a process that
is found once in the same state at every tick. -/
structure WeightTracksTime (periodNs t₀ : ℕ) (shots : List Shot) : Prop where
  sum : ((Sampler.mk periodNs t₀).weights (timerTicks periodNs t₀ shots)).sum =
    lastTick periodNs t₀ shots - t₀
  pushed : ∀ mask covered batches, batches.length = shots.length → (∀ batch ∈ batches, batch ≠ []) →
    ((((timerTicks periodNs t₀ shots).zip batches).foldl (pollTick mask covered)
      { sampler := ⟨periodNs, t₀⟩ }).pushed.map Prod.snd).sum = lastTick periodNs t₀ shots - t₀
  credited : ∀ mask covered batches pid we, isMarker we = false → covered pid = false →
    batches.length = shots.length →
    (∀ batch ∈ batches, (batch.filter (TraceEvent.sampleOf pid we)).length = 1) →
    (((((timerTicks periodNs t₀ shots).zip batches).foldl (pollTick mask covered)
      { sampler := ⟨periodNs, t₀⟩ }).totals.pids pid).eventNs we) =
      lastTick periodNs t₀ shots - t₀

/-! ### Credit -/

variable {mask : UInt32} {covered : UInt32 → Bool}

theorem SampledPid.eventNs_add (p : SampledPid) (we : UInt32) (ioWorker : Bool) (dur : ℕ) :
    (p.add mask we ioWorker dur).eventNs =
      Function.update p.eventNs we (p.eventNs we + dur) := by
  rw [SampledPid.add]
  split_ifs <;> rfl

theorem eventNs_accumulate (periodNs : ℕ) {pid we : UInt32} (hwe : isMarker we = false)
    (hpid : covered pid = false) (batch : List TraceEvent) (tot : SampledTotals) :
    ((batch.foldl (accumulateSample mask covered periodNs) tot).pids pid).eventNs we =
      (tot.pids pid).eventNs we +
        periodNs * (batch.filter (TraceEvent.sampleOf pid we)).length := by
  induction batch generalizing tot with
  | nil => simp
  | cons ev batch ih =>
    rw [List.foldl_cons, ih]
    by_cases hev : ev.sampleOf pid we = true
    · simp only [TraceEvent.sampleOf, Bool.and_eq_true, decide_eq_true_eq] at hev
      have hself : ev.sampleOf pid we = true := by simp [TraceEvent.sampleOf, hev]
      rw [List.filter_cons_of_pos hself, List.length_cons, accumulateSample, hev.1, hev.2,
        if_neg (by simp [hwe, hpid])]
      simp only [Function.update_self, SampledPid.eventNs_add]
      rw [Nat.mul_succ]
      omega
    · rw [List.filter_cons_of_neg hev, accumulateSample]
      split_ifs
      · rfl
      · by_cases hp : pid = ev.pid
        · have hne : we ≠ ev.newEvent := by
            rintro rfl
            simp [TraceEvent.sampleOf, hp] at hev
          simp only
          rw [hp, Function.update_self, SampledPid.eventNs_add, Function.update_of_ne hne]
        · simp only
          rw [Function.update_of_ne hp]

theorem eventNs_poll {pid we : UInt32} (hwe : isMarker we = false) (hpid : covered pid = false)
    (ticks : List ℕ) (batches : List (List TraceEvent)) (s : PollState)
    (hlen : batches.length = ticks.length)
    (honce : ∀ batch ∈ batches, (batch.filter (TraceEvent.sampleOf pid we)).length = 1) :
    (((ticks.zip batches).foldl (pollTick mask covered) s).totals.pids pid).eventNs we =
      (s.totals.pids pid).eventNs we + (s.sampler.weights ticks).sum := by
  induction ticks generalizing batches s with
  | nil => simp [Sampler.weights]
  | cons t ticks ih =>
    cases batches with
    | nil => exact absurd hlen (by simp)
    | cons batch batches =>
      rw [List.zip_cons_cons, List.foldl_cons, ih batches _ (Nat.succ.inj hlen)
        fun b hb => honce b (List.mem_cons_of_mem _ hb), Sampler.weights, List.sum_cons, pollTick]
      simp only
      rw [eventNs_accumulate _ hwe hpid, honce batch List.mem_cons_self, Nat.mul_one,
        Nat.add_assoc]

theorem Sampler.length_weights (s : Sampler) (ticks : List ℕ) :
    (s.weights ticks).length = ticks.length := by
  induction ticks generalizing s with
  | nil => rfl
  | cons t ticks ih => rw [Sampler.weights, List.length_cons, ih, List.length_cons]

theorem pushed_poll (ticks : List ℕ) (batches : List (List TraceEvent)) (s : PollState)
    (hlen : batches.length = ticks.length) :
    ((ticks.zip batches).foldl (pollTick mask covered) s).pushed =
      s.pushed ++ (batches.zip (s.sampler.weights ticks)).filter fun p => p.1 ≠ [] := by
  induction ticks generalizing batches s with
  | nil => simp [Sampler.weights]
  | cons t ticks ih =>
    cases batches with
    | nil => exact absurd hlen (by simp)
    | cons batch batches =>
      rw [List.zip_cons_cons, List.foldl_cons, ih batches _ (Nat.succ.inj hlen), Sampler.weights,
        List.zip_cons_cons, List.filter_cons, pollTick]
      by_cases hbatch : batch = []
      · simp [hbatch]
      · simp [hbatch]

/-! ### Time -/

variable {periodNs : ℕ}

theorem effectivePeriod_eq {t gap : ℕ} (ht : t ≠ 0) (hgap : 0 < gap) (hstall : gap ≤ maxStallNs) :
    effectivePeriod periodNs t (t + gap) = max periodNs gap := by
  rw [effectivePeriod, if_neg (by omega), Nat.add_sub_cancel_left]
  split_ifs <;> omega

theorem length_timerTicks (periodNs t : ℕ) (shots : List Shot) :
    (timerTicks periodNs t shots).length = shots.length := by
  induction shots generalizing t with
  | nil => rfl
  | cons shot shots ih => rw [timerTicks, List.length_cons, ih, List.length_cons]

theorem weights_timerTicks {t : ℕ} (ht : t ≠ 0) (shots : List Shot)
    (hgap : ∀ shot ∈ shots, 0 < shot.gap periodNs ∧ shot.gap periodNs ≤ maxStallNs) :
    (Sampler.mk periodNs t).weights (timerTicks periodNs t shots) =
      shots.map fun shot => max periodNs (shot.gap periodNs) := by
  induction shots generalizing t with
  | nil => rfl
  | cons shot shots ih =>
    obtain ⟨hpos, hstall⟩ := hgap shot List.mem_cons_self
    rw [timerTicks, Sampler.weights, List.map_cons, Sampler.tick]
    simp only
    rw [effectivePeriod_eq ht hpos hstall,
      ih (by omega) fun s hs => hgap s (List.mem_cons_of_mem _ hs)]

theorem eq_zero_of_gap {shot : Shot} (h : shot.gap periodNs = 0) : periodNs = 0 := by
  rw [Shot.gap, armedDelay] at h
  omega

/-- The weights add up to the time that passed if, and only if, no tick came early. -/
theorem sum_weights_iff {start : ℕ} {first : Shot} {shots : List Shot}
    (hgap : ∀ shot ∈ shots, 0 < shot.gap periodNs ∧ shot.gap periodNs ≤ maxStallNs) :
    ((Sampler.mk periodNs (start + first.gap periodNs)).weights
        (timerTicks periodNs (start + first.gap periodNs) shots)).sum =
        lastTick periodNs (start + first.gap periodNs) shots - (start + first.gap periodNs) ↔
      (∀ shot ∈ shots, periodNs ≤ shot.gap periodNs) ∧
        (start + first.gap periodNs = 0 → shots = []) := by
  rw [lastTick, Nat.add_sub_cancel_left]
  by_cases ht : start + first.gap periodNs = 0
  · -- the first tick is taken for none
    obtain rfl : periodNs = 0 := eq_zero_of_gap (by omega : first.gap periodNs = 0)
    cases shots with
    | nil => simp [timerTicks, Sampler.weights]
    | cons shot shots =>
      obtain ⟨hpos, -⟩ := hgap shot List.mem_cons_self
      have hrest := weights_timerTicks (show 0 + shot.gap 0 ≠ 0 by omega) shots
        fun s hs => hgap s (List.mem_cons_of_mem _ hs)
      have hmax : (shots.map fun shot => max 0 (shot.gap 0)) = shots.map (Shot.gap 0) :=
        List.map_congr_left fun s _ => Nat.zero_max _
      rw [ht, timerTicks, Sampler.weights, Sampler.tick]
      simp only
      rw [hrest, hmax, List.sum_cons, List.map_cons, List.sum_cons, effectivePeriod,
        if_pos (Or.inl rfl)]
      exact ⟨fun h => absurd h (by omega), fun h => absurd (h.2 trivial) (by simp)⟩
  · rw [weights_timerTicks ht shots hgap,
      Tally.sum_map_eq_iff_of_le fun shot _ => le_max_right periodNs (shot.gap periodNs)]
    constructor
    · intro h
      exact ⟨fun shot hshot => max_eq_right_iff.1 (h shot hshot), fun h₀ => absurd h₀ ht⟩
    · intro h shot hshot
      exact max_eq_right (h.1 shot hshot)

/-- **The weights track time if, and only if, no tick came early.** A tick at 0 stands for none;
with a nominal period there is no such tick, since the timer takes its time. -/
theorem weightTracksTime_iff {periodNs start : ℕ} {first : Shot} {shots : List Shot}
    (hgap : ∀ shot ∈ shots, 0 < shot.gap periodNs ∧ shot.gap periodNs ≤ maxStallNs) :
    WeightTracksTime periodNs (start + first.gap periodNs) shots ↔
      (∀ shot ∈ shots, periodNs ≤ shot.gap periodNs) ∧
        (start + first.gap periodNs = 0 → shots = []) := by
  refine ⟨fun h => (sum_weights_iff hgap).1 h.sum, fun h => ?_⟩
  have hsum := (sum_weights_iff hgap).2 h
  refine ⟨hsum, fun mask covered batches hlen hne => ?_,
    fun mask covered batches pid we hwe hpid hlen honce => ?_⟩
  · have hticks : batches.length =
        (timerTicks periodNs (start + first.gap periodNs) shots).length := by
      rw [length_timerTicks, hlen]
    rw [pushed_poll _ _ _ hticks, List.nil_append,
      List.filter_eq_self.2 fun p hp => decide_eq_true (hne p.1 (List.of_mem_zip hp).1),
      List.map_snd_zip (by rw [hticks, Sampler.length_weights])]
    exact hsum
  · rw [eventNs_poll hwe hpid _ _ _ (by rw [length_timerTicks, hlen]) honce]
    exact (Nat.zero_add _).trans hsum

theorem weightTracksTime_late :
    WeightTracksTime 100 (1000 + Shot.gap 100 ⟨0, 0⟩) [⟨10, 0⟩, ⟨20, 5⟩] :=
  (weightTracksTime_iff (by decide)).2 (by decide)

/-- Two ticks that come a tenth of the period early are weighed as if they had not: 180 ns pass, and
200 ns are credited. -/
theorem weightTracksTime_early :
    ((∀ shot ∈ [Shot.mk 0 0, ⟨0, 0⟩], 0 < shot.gap 100 ∧ shot.gap 100 ≤ maxStallNs) ∧
      ((Sampler.mk 100 1090).weights (timerTicks 100 1090 [⟨0, 0⟩, ⟨0, 0⟩])).sum = 200 ∧
      lastTick 100 1090 [⟨0, 0⟩, ⟨0, 0⟩] - 1090 = 180) ∧
    ¬ WeightTracksTime 100 1090 [⟨0, 0⟩, ⟨0, 0⟩] :=
  ⟨by decide, fun h => absurd h.sum (by decide)⟩

end PgWaitTracer
