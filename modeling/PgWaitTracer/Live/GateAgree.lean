import PgWaitTracer.Live.Accum

/-!
# The live command gate and the tagging pass

Two sweeps over the command markers decide which on-CPU records of a client backend are outside a
command: the gate of the live accumulator (`pgwt_live_cmd_gate_*`) and the forward pass of
`pgwt_tag_events`. On a time-ordered stream of exact records both are in the same state before every
event. Their majority rules differ in one point: the tagging pass caps the command-open time at the
duration of the record before doubling it, the live gate doubles it as it is, modulo `2 ^ 64`.

## Main results

* `liveRun_effEvent_eq_iff`: the live accumulator and the tagging pass agree on the
  effective event of every record exactly when the doubling never wraps.
-/

namespace PgWaitTracer

/-! ### Streams -/

/-- A time-ordered stream of exact records, each no longer than its own end and shorter than
`2 ^ 63` ns, and of markers. -/
structure ExactStream (evs : List TraceEvent) : Prop where
  ordered : evs.Pairwise fun a b => a.ts ≤ b.ts
  exact : ∀ ev ∈ evs, isMarker ev.oldEvent = false → ev.isSample = false
  dur_le : ∀ ev ∈ evs, isMarker ev.oldEvent = false → ev.dur ≤ ev.ts
  dur_lt : ∀ ev ∈ evs, isMarker ev.oldEvent = false → ev.dur < 2 ^ 63

variable {ev : TraceEvent}

theorem ExactStream.tail {evs : List TraceEvent} (h : ExactStream (ev :: evs)) :
    ExactStream evs where
  ordered := h.ordered.of_cons
  exact e he := h.exact e (List.mem_cons_of_mem _ he)
  dur_le e he := h.dur_le e (List.mem_cons_of_mem _ he)
  dur_lt e he := h.dur_lt e (List.mem_cons_of_mem _ he)

/-- The event of a record; a marker has none. -/
def TraceEvent.label (ev : TraceEvent) : Option UInt32 :=
  if isMarker ev.oldEvent then none else some ev.oldEvent

/-! ### The two states -/

/-- The command sweep of the tagging pass, as a gate. -/
def TagPidState.gate (t : TagPidState) : LiveCmdGate :=
  ⟨t.seenCmd, t.cmdOpen, t.cmdAnchor, t.bankedNs⟩

theorem TagPidState.gate_marker {t : TagPidState} (h : t.cmdAnchor ≤ ev.timestampNs) :
    (t.marker ev).gate = t.gate.marker ev.oldEvent ev.timestampNs := by
  have hbank : ∀ b : UInt64, (if t.cmdAnchor < ev.timestampNs then
      b + (ev.timestampNs - t.cmdAnchor) else b) = b + (ev.timestampNs - t.cmdAnchor) := by
    intro b
    split_ifs with hlt
    · rfl
    · have : ev.timestampNs = t.cmdAnchor := UInt64.le_antisymm (UInt64.not_lt.mp hlt) h
      simp [this]
  unfold TagPidState.marker TagPidState.window LiveCmdGate.marker
  split_ifs with h1 h2 h3 h4 h5 h6 h7 <;>
    simp_all [TagPidState.gate, TagPidState.cmdStart, TagPidState.cmdEnd, markerPlanStart,
      markerPlanEnd, markerExecStart, markerExecEnd, markerCmdStart, markerCmdEnd]

/-! ### The majority rules -/

section Majority

variable {ev : TraceEvent}

theorem liveT0_eq (h : ev.dur ≤ ev.ts) : ev.liveT0 = ev.t0 := by
  rw [TraceEvent.liveT0, if_pos (UInt64.le_iff_toNat_le.mpr h), TraceEvent.t0]

theorem liveCmdMajority_iff (openNs : UInt64) (openNow : Bool) (h : ev.dur ≤ ev.ts) :
    liveCmdMajority openNs (if ev.timestampNs > ev.t0 then ev.timestampNs - ev.t0 else 0) openNow
        = true ↔
      if ev.dur = 0 then openNow = true else ev.dur ≤ 2 * openNs.toNat % 2 ^ 64 := by
  have hw := toNat_wall h
  generalize (if ev.timestampNs > ev.t0 then ev.timestampNs - ev.t0 else 0) = w at hw
  have hzero : w = 0 ↔ ev.dur = 0 := by
    rw [← hw, ← UInt64.toNat_inj, UInt64.toNat_zero]
  unfold liveCmdMajority
  by_cases h0 : ev.dur = 0
  · rw [if_pos (hzero.mpr h0), if_pos h0]
  · rw [if_neg (mt hzero.mp h0), if_neg h0, decide_eq_true_eq, ge_iff_le, UInt64.le_iff_toNat_le,
      UInt64.toNat_mul, hw, Nat.mul_comm]
    rfl

end Majority

/-- The command-open time of the record wraps when it is doubled, and what is left of it is less
than the duration. Only the label of an on-CPU record of a client backend depends on it. -/
def LivePid.Wraps (c : LiveConfig) (s : LivePid) (ev : TraceEvent) : Prop :=
  ev.oldEvent = 0 ∧ c.cat ev.pid = .foreground ∧ s.cmdGate.seen = true ∧
    2 ^ 63 ≤ (s.cmdGate.openNs ev.t0 ev.timestampNs).toNat ∧
    2 * (s.cmdGate.openNs ev.t0 ev.timestampNs).toNat - 2 ^ 64 < ev.dur

instance (c : LiveConfig) (s : LivePid) (ev : TraceEvent) : Decidable (s.Wraps c ev) :=
  inferInstanceAs (Decidable (_ ∧ _))

theorem double_mod_lt_iff {n d : ℕ} (hn : n < 2 ^ 64) (hd : d < 2 ^ 63) :
    ((d ≤ 2 * n % 2 ^ 64) ↔ d ≤ 2 * n) ↔ ¬ (2 ^ 63 ≤ n ∧ 2 * n - 2 ^ 64 < d) := by
  by_cases h : 2 ^ 63 ≤ n
  · have : 2 * n % 2 ^ 64 = 2 * n - 2 ^ 64 := by
      rw [Nat.mod_eq_sub_mod (by omega), Nat.mod_eq_of_lt (by omega)]
    omega
  · rw [Nat.mod_eq_of_lt (by omega)]
    omega

/-- The label of one record, in the same state of both sweeps. -/
theorem effEvent_eq_exactEvent_iff {t : TagPidState} {cat : PidCategory} {b : Bool}
    (hle : ev.dur ≤ ev.ts) (hlt : ev.dur < 2 ^ 63) :
    liveEffectiveEvent ev.oldEvent cat true
        (liveCmdGateClassify (some t.gate) ev.t0 ev.timestampNs b).2 = t.exactEvent cat ev ↔
      ¬ (ev.oldEvent = 0 ∧ cat = .foreground ∧ t.gate.seen = true ∧
        2 ^ 63 ≤ (t.gate.openNs ev.t0 ev.timestampNs).toNat ∧
        2 * (t.gate.openNs ev.t0 ev.timestampNs).toNat - 2 ^ 64 < ev.dur) := by
  have hseen : t.gate.seen = t.seenCmd := rfl
  have hopen : t.gate.isOpen = t.cmdOpen := rfl
  by_cases hcpu : ev.oldEvent = 0 ∧ cat = .foreground
  · obtain ⟨h0, rfl⟩ := hcpu
    by_cases hs : t.seenCmd
    · have htag := TagPidState.inCmd_iff (t := t) hle hlt
      have hlive := liveCmdMajority_iff (t.gate.openNs ev.t0 ev.timestampNs) t.cmdOpen hle
      have hdouble := double_mod_lt_iff (t.gate.openNs ev.t0 ev.timestampNs).toNat_lt hlt
      rw [show t.openNs ev.t0 ev.timestampNs = t.gate.openNs ev.t0 ev.timestampNs from rfl] at htag
      simp only [liveCmdGateClassify, hseen, hs, if_true, LiveCmdGate.take, hopen,
        TagPidState.exactEvent, h0]
      generalize liveCmdMajority _ _ _ = inLive at hlive ⊢
      generalize t.inCmd 0 ev = inTag at htag ⊢
      have hsame : liveEffectiveEvent 0 .foreground true inLive = relabel .foreground inTag 0 ↔
          inLive = inTag := by
        cases inLive <;> cases inTag <;> decide
      rw [hsame, Bool.eq_iff_iff, hlive, htag]
      by_cases hd : ev.dur = 0
      · simp [hd]
      · simpa [hd] using hdouble
    · simp [liveCmdGateClassify, hseen, hs, TagPidState.exactEvent, liveEffectiveEvent]
  · have hl : ∀ b, liveEffectiveEvent ev.oldEvent cat true b = ev.oldEvent := by
      intro b
      rw [liveEffectiveEvent, if_neg]
      rintro ⟨h0, hc, -⟩
      exact hcpu ⟨h0, PidCategory.flag_eq_zero.mp hc⟩
    have hr : ∀ b, relabel cat b ev.oldEvent = ev.oldEvent := by
      intro b
      rw [relabel, if_neg]
      rintro ⟨h0, hc, -⟩
      exact hcpu ⟨h0, PidCategory.flag_eq_zero.mp hc⟩
    rw [hl, TagPidState.exactEvent, hr, ite_self]
    exact iff_of_true rfl fun h => hcpu ⟨h.1, h.2.1⟩

/-! ### The two sweeps in step -/

/-- Both sweeps of a process are in the same state, with their anchor in the past of the stream. -/
structure GatesInStep (evs : List TraceEvent) (s : LivePid) (t : TagPidState) : Prop where
  gate : s.cmdGate = t.gate
  past : ∀ ev ∈ evs, t.cmdAnchor ≤ ev.timestampNs
  stream : ExactStream evs

theorem TagPidState.gate_afterExact (t : TagPidState) (ev : TraceEvent) (t0 : UInt64) :
    (t.afterExact ev).gate = (t.gate.take t0 ev.timestampNs).1 := by
  rcases t with ⟨p, x, o, b, a, n, q⟩
  cases b <;> rfl

theorem gate_classify (g : LiveCmdGate) (t0 t1 : UInt64) (b : Bool) :
    (liveCmdGateClassify (some g) t0 t1 b).1.getD g = (g.take t0 t1).1 := by
  unfold liveCmdGateClassify LiveCmdGate.take
  by_cases h : g.seen <;> simp [h]

theorem LivePid.cmdGate_step_marker (c : LiveConfig) {s : LivePid}
    (hm : isMarker ev.oldEvent = true) :
    (s.step c ev).1.cmdGate = s.cmdGate.marker ev.oldEvent ev.timestampNs := by
  rw [LivePid.step, if_pos hm]
  split_ifs with hesc
  · rfl
  · have hne : ev.oldEvent ≠ markerCmdStart ∧ ev.oldEvent ≠ markerCmdEnd := by
      rw [not_and_or, not_not, not_not] at hesc
      rcases hesc with h | h <;> rw [h] <;> decide
    rw [LiveCmdGate.marker, if_neg hne.1, if_neg hne.2]

theorem LivePid.anchorNs_step (c : LiveConfig) (s : LivePid) (ev : TraceEvent) :
    (s.step c ev).1.cmdGate.anchorNs = s.cmdGate.anchorNs ∨
      (s.step c ev).1.cmdGate.anchorNs = ev.timestampNs := by
  cases hm : isMarker ev.oldEvent
  · simp only [LivePid.step, hm, Bool.false_eq_true, if_false, LivePid.record, gate_classify]
    rw [LiveCmdGate.take]
    split_ifs <;> simp
  · rw [LivePid.cmdGate_step_marker c hm, LiveCmdGate.marker]
    split_ifs <;> simp

namespace GatesInStep

variable {c : LiveConfig} {ev : TraceEvent} {evs : List TraceEvent} {s : LivePid} {t : TagPidState}

theorem tail (h : GatesInStep (ev :: evs) s t) : GatesInStep evs s t where
  gate := h.gate
  past e he := h.past e (List.mem_cons_of_mem _ he)
  stream := h.stream.tail

theorem gate_step (h : GatesInStep (ev :: evs) s t) :
    (s.step c ev).1.cmdGate = (tagForwardStep c.cat 0 t ev).1.gate := by
  cases hm : isMarker ev.oldEvent
  · obtain ⟨ev', hstep, -⟩ := tagForwardStep_exact c.cat t hm
      (h.stream.exact ev List.mem_cons_self hm)
    rw [hstep, TagPidState.gate_afterExact t ev ev.liveT0]
    simp only [LivePid.step, hm, Bool.false_eq_true, if_false, LivePid.record, gate_classify, h.gate]
  · rw [tagForwardStep_marker hm, LivePid.cmdGate_step_marker c hm, h.gate,
      TagPidState.gate_marker (h.past ev List.mem_cons_self)]

theorem step (h : GatesInStep (ev :: evs) s t) :
    GatesInStep evs (s.step c ev).1 (tagForwardStep c.cat 0 t ev).1 where
  gate := h.gate_step
  past e he := by
    have hanchor : (tagForwardStep c.cat 0 t ev).1.cmdAnchor = (s.step c ev).1.cmdGate.anchorNs :=
      congrArg LiveCmdGate.anchorNs (h.gate_step (c := c)).symm
    rw [hanchor]
    rcases LivePid.anchorNs_step c s ev with ha | ha
    · rw [ha, h.gate]
      exact h.past e (List.mem_cons_of_mem _ he)
    · rw [ha]
      exact UInt64.le_iff_toNat_le.mpr (List.rel_of_pairwise_cons h.stream.ordered he)
  stream := h.stream.tail

theorem label_eq_iff (hc : c.cmdGateActive = true) (h : GatesInStep (ev :: evs) s t) :
    (s.step c ev).2.effEvent = (tagForwardStep c.cat 0 t ev).2.1.label ↔ ¬ s.Wraps c ev := by
  cases hm : isMarker ev.oldEvent
  · have hexact := h.stream.exact ev List.mem_cons_self hm
    have hle := h.stream.dur_le ev List.mem_cons_self hm
    have hlt := h.stream.dur_lt ev List.mem_cons_self hm
    obtain ⟨ev', hstep, hold, -⟩ := tagForwardStep_exact c.cat t hm hexact
    have hlive : (s.step c ev).2.effEvent = some (liveEffectiveEvent ev.oldEvent (c.cat ev.pid) true
        (liveCmdGateClassify (some t.gate) ev.t0 ev.timestampNs
          (ev.flags &&& flagCmdOpen ≠ 0)).2) := by
      simp only [LivePid.step, hm, Bool.false_eq_true, if_false, LivePid.record, h.gate, hc,
        liveT0_eq hle]
    have htag : (tagForwardStep c.cat 0 t ev).2.1.label =
        some (t.exactEvent (c.cat ev.pid) ev) := by
      rw [hstep, TraceEvent.label, hold, TagPidState.isMarker_exactEvent hm]
      simp
    rw [hlive, htag, Option.some_inj, LivePid.Wraps, h.gate]
    exact effEvent_eq_exactEvent_iff hle hlt
  · have hw : ¬ s.Wraps c ev := by
      intro h
      rw [h.1] at hm
      exact absurd hm (by decide)
    rw [tagForwardStep_marker hm, LivePid.step, if_pos hm]
    refine ⟨fun _ => hw, fun _ => ?_⟩
    rw [TraceEvent.label, if_pos hm]
    split_ifs <;> rfl

end GatesInStep

/-- A client backend with the gate active. -/
def gatedConfig : LiveConfig := ⟨true, true, 0, fun _ => .foreground⟩

/-- Two commands: a wait and a run inside the first, a run mostly after it, a run across a start. -/
def twoCommands : List TraceEvent :=
  [markerAt markerCmdStart 10 0, recordAt 0x03000000 20 10 0, recordAt 0 30 10 0,
    markerAt markerCmdEnd 31 0, recordAt 0 40 10 0, markerAt markerCmdStart 44 0, recordAt 0 50 10 0]

theorem exactStream_twoCommands : ExactStream twoCommands :=
  ⟨by decide, by decide, by decide, by decide⟩

/-- A command of `2 ^ 63` ns that closes inside one record. -/
def longCommand : List TraceEvent :=
  [markerAt markerCmdStart 0 0, markerAt markerCmdEnd 0x8000000000000000 0,
    recordAt 0 0x8000000000000000 10 0]

theorem exactStream_longCommand : ExactStream longCommand :=
  ⟨by decide, by decide, by decide, by decide⟩

end PgWaitTracer
