import PgWaitTracer.Escalation.ExactAttr
import PgWaitTracer.Live.GateAgree

/-!
# Command gating across escalation windows

The trace of a tiered daemon holds, for every escalation window, the events of the ring buffer and
the events that the daemon writes itself at the two edges of the window: the starts of the commands
that were already open, the open intervals and the ends of the commands that are still open. The
callback that feeds the live accumulator sees the ring buffer only, so the gate of a process keeps
its state from one window to the next while the trace closes and reopens it.

The two sides are compared through two gates of every process: the one of the live accumulator, and
the same gate fed with every event of the trace.

## Main results

* `liveHistory_eq_iff`: the two sides agree exactly when the gates do.
-/

namespace PgWaitTracer

/-! ### Windows -/

/-- An event of the trace: one that the callback of the ring buffer handles, or one that the daemon
writes past it. -/
inductive WindowEvent
  | ring (ev : TraceEvent)
  | written (ev : TraceEvent)
  deriving DecidableEq, Repr

/-- The event in the trace. -/
def WindowEvent.event : WindowEvent → TraceEvent
  | .ring ev => ev
  | .written ev => ev

/-- An escalation window: its configuration, the events of the ring buffer from the publication of
the window to the last drain, and the registry as each loop of the daemon finds it. -/
structure EscalationWindow where
  config : ExactConfig
  cpuAccounting : Bool := true
  grantNs : UInt64 := 0
  reason : UInt64 := 0
  opened : List ExactBackend := []
  ring : List TraceEvent := []
  nowNs : UInt64
  flushed : List ExactBackend := []
  closing : List ExactBackend := []
  closeReason : UInt64 := 0
  deriving DecidableEq, Repr

/-- The events of a window in the order in which they reach the trace (`pgwt_escalate`,
`pgwt_deescalate`). -/
def EscalationWindow.events (w : EscalationWindow) : List WindowEvent :=
  let boundary := w.config.attachBoundaryNs
  (synthesizeCommandStarts w.config boundary w.opened ++
      [writeMarkerAt markerEscalateStart boundary w.grantNs w.reason]).map .written ++
    w.ring.map .ring ++
    (flushOpenIntervals w.config w.cpuAccounting w.nowNs w.flushed ++
      synthesizeTerminalMarkers w.config w.nowNs w.closing ++
      [writeMarkerAt markerEscalateEnd w.nowNs (w.nowNs - boundary) w.closeReason]).map .written

/-- The events of a history of windows. -/
def history (ws : List EscalationWindow) : List WindowEvent := ws.flatMap EscalationWindow.events

/-- The trace of a history. -/
def traceOf (es : List WindowEvent) : List TraceEvent := es.map WindowEvent.event

/-! ### The two sides -/

/-- The effective event of every ring record, live; what is written past the callback has none. -/
def liveHistory (c : LiveConfig) (acc : Accumulator) : List WindowEvent → List (Option UInt32)
  | [] => []
  | .ring ev :: es =>
    let r := handleTraceEvent c acc ev
    r.2 :: liveHistory c r.1 es
  | .written _ :: es => none :: liveHistory c acc es

/-- Keep the label of a ring record. -/
def WindowEvent.keep : WindowEvent → Option UInt32 → Option UInt32
  | .ring _, label => label
  | .written _, _ => none

/-- The event that tagging the whole trace leaves every ring record with. -/
def taggedHistory (c : LiveConfig) (es : List WindowEvent) : List (Option UInt32) :=
  List.zipWith WindowEvent.keep es
    ((tagEvents c.mask c.cat (traceOf es)).map TraceEvent.label)

/-! ### The condition -/

/-- The gate has seen a command marker and holds less than half of the interval of the record as
command-open time. A record without a length is judged by the state of the gate. -/
def LiveCmdGate.Outside (g : LiveCmdGate) (ev : TraceEvent) : Prop :=
  g.seen = true ∧
    if ev.dur = 0 then g.isOpen = false
    else 2 * (g.openNs ev.t0 ev.timestampNs).toNat < ev.dur

instance (g : LiveCmdGate) (ev : TraceEvent) : Decidable (g.Outside ev) :=
  inferInstanceAs (Decidable (_ ∧ _))

/-- The same for the live accumulator: when the table of processes is full, the flag of the record
decides. -/
def Accumulator.Outside (acc : Accumulator) (ev : TraceEvent) : Prop :=
  match (acc.getOrCreatePid ev.pid).2 with
  | some s => s.cmdGate.Outside ev
  | none => ev.flags &&& flagCmdOpen = 0

instance (acc : Accumulator) (ev : TraceEvent) : Decidable (acc.Outside ev) :=
  match h : (acc.getOrCreatePid ev.pid).2 with
  | some s => decidable_of_iff (s.cmdGate.Outside ev) (by rw [Accumulator.Outside, h])
  | none => decidable_of_iff (ev.flags &&& flagCmdOpen = 0) (by rw [Accumulator.Outside, h])

/-- Both gates judge alike: at every on-CPU ring record of a client backend, the live gate of its
process and the gate that has been fed every event of the trace, `full`, hold the interval of the
record on the same side of the majority. -/
def GatesMeet (c : LiveConfig) :
    Accumulator → (UInt32 → LivePid) → List WindowEvent → Prop
  | _, _, [] => True
  | acc, full, .ring ev :: es =>
    (ev.oldEvent = 0 ∧ c.cat ev.pid = .foreground →
        (acc.Outside ev ↔ (full ev.pid).cmdGate.Outside ev)) ∧
      GatesMeet c (handleTraceEvent c acc ev).1
        (Keyed.move TraceEvent.pid (LivePid.step c) full ev) es
  | acc, full, .written ev :: es =>
    GatesMeet c acc (Keyed.move TraceEvent.pid (LivePid.step c) full ev) es

instance GatesMeet.decidable (c : LiveConfig) :
    ∀ acc full es, Decidable (GatesMeet c acc full es)
  | _, _, [] => inferInstanceAs (Decidable True)
  | acc, full, .ring ev :: es =>
    have := GatesMeet.decidable c (handleTraceEvent c acc ev).1
      (Keyed.move TraceEvent.pid (LivePid.step c) full ev) es
    inferInstanceAs (Decidable (_ ∧ _))
  | acc, full, .written ev :: es =>
    GatesMeet.decidable c acc (Keyed.move TraceEvent.pid (LivePid.step c) full ev) es

/-- The trace of exact windows: the events of every process are in the order of the clock and exact,
and the clock is a signed one. -/
structure ExactTrace (evs : List TraceEvent) : Prop where
  stream : ∀ pid, ExactStream (evs.filter fun ev => ev.pid = pid)
  clock : ∀ ev ∈ evs, ev.ts < 2 ^ 63

theorem ExactTrace.of_exactStream {evs : List TraceEvent} (h : ExactStream evs)
    (hclock : ∀ ev ∈ evs, ev.ts < 2 ^ 63) : ExactTrace evs where
  clock := hclock
  stream _ :=
    { ordered := h.ordered.filter _
      exact := fun ev hev => h.exact ev (List.mem_of_mem_filter hev)
      dur_le := fun ev hev => h.dur_le ev (List.mem_of_mem_filter hev)
      dur_lt := fun ev hev => h.dur_lt ev (List.mem_of_mem_filter hev) }

/-! ### A gate never holds more than the clock -/

/-- The gate at a time of the clock: what it has banked lies before its open run. -/
structure LiveCmdGate.Past (g : LiveCmdGate) (ts : ℕ) : Prop where
  banked : g.bankedNs.toNat ≤ ts
  anchor : g.isOpen = true → g.bankedNs.toNat ≤ g.anchorNs.toNat ∧ g.anchorNs.toNat ≤ ts

variable {ev : TraceEvent}

namespace LiveCmdGate.Past

variable {g : LiveCmdGate} {ts ts' : ℕ}

theorem mono (h : g.Past ts) (hle : ts ≤ ts') : g.Past ts' where
  banked := h.banked.trans hle
  anchor ho := ⟨(h.anchor ho).1, (h.anchor ho).2.trans hle⟩

theorem init : ({} : LiveCmdGate).Past ts where
  banked := Nat.zero_le _
  anchor ho := by simp at ho

theorem marker {t : UInt64} (h : g.Past t.toNat) (m : UInt32) : (g.marker m t).Past t.toNat := by
  unfold LiveCmdGate.marker
  split_ifs with h1 h2 h3 h4 h5
  · exact ⟨h.banked, h.anchor⟩
  · exact ⟨h.banked, fun _ => ⟨h.banked, le_rfl⟩⟩
  · have hlt := UInt64.lt_iff_toNat_lt.mp h5
    have hb := (h.anchor h4).1
    have hsub := UInt64.toNat_sub_of_le _ _ (UInt64.le_of_lt h5)
    refine ⟨?_, by simp⟩
    have ht := t.toNat_lt
    rw [UInt64.toNat_add, hsub, Nat.mod_eq_of_lt (by omega)]
    omega
  · exact ⟨h.banked, by simp⟩
  · exact ⟨h.banked, h.anchor⟩
  · exact h

theorem take {t : UInt64} (h : g.Past t.toNat) (t0 : UInt64) : (g.take t0 t).1.Past t.toNat := by
  rw [LiveCmdGate.take]
  by_cases hs : g.seen = true
  · rw [if_pos hs]
    refine ⟨Nat.zero_le _, fun ho => ?_⟩
    have ho' : g.isOpen = true := ho
    simp only [ho', if_true]
    exact ⟨Nat.zero_le _, le_rfl⟩
  · rw [if_neg hs]
    exact h

theorem toNat_openNs_le {t : UInt64} (h : g.Past t.toNat) (t0 : UInt64) :
    (g.openNs t0 t).toNat ≤ t.toNat := by
  unfold LiveCmdGate.openNs
  extract_lets a
  split_ifs with ho
  · have hlt := UInt64.lt_iff_toNat_lt.mp ho.2
    have ha : g.anchorNs.toNat ≤ a.toNat := by
      simp only [a]
      split_ifs with hgt
      · exact le_rfl
      · exact UInt64.le_iff_toNat_le.mp (UInt64.not_lt.mp hgt)
    have hb := (h.anchor ho.1).1
    have ht := t.toNat_lt
    rw [UInt64.toNat_add, UInt64.toNat_sub_of_le _ _ (UInt64.le_of_lt ho.2),
      Nat.mod_eq_of_lt (by omega)]
    omega
  · exact h.banked

theorem step (c : LiveConfig) {s : LivePid} (h : s.cmdGate.Past ev.ts) :
    (s.step c ev).1.cmdGate.Past ev.ts := by
  cases hm : isMarker ev.oldEvent
  · simp only [LivePid.step, hm, Bool.false_eq_true, if_false, LivePid.record, gate_classify]
    exact take h _
  · rw [LivePid.cmdGate_step_marker c hm]
    exact marker h _

end LiveCmdGate.Past

/-! ### The label of one record -/

theorem relabel_eq_iff {cat : PidCategory} {e : UInt32} {p q : Prop} [Decidable p] [Decidable q] :
    relabel cat (!decide p) e = relabel cat (!decide q) e ↔
      (e = 0 ∧ cat = .foreground → (p ↔ q)) := by
  by_cases h : e = 0 ∧ cat = .foreground
  · obtain ⟨rfl, rfl⟩ := h
    by_cases hp : p <;> by_cases hq : q <;> simp [hp, hq, relabel, weiNoncmdCpu]
  · have hid : ∀ b, relabel cat b e = e := by
      intro b
      rw [relabel, if_neg]
      rintro ⟨h0, hc, -⟩
      exact h ⟨h0, PidCategory.flag_eq_zero.mp hc⟩
    rw [hid, hid]
    exact iff_of_true rfl fun h' => absurd h' h

section Label

variable {c : LiveConfig} {ev : TraceEvent}

theorem TagPidState.exactEvent_eq (t : TagPidState) (cat : PidCategory) (hle : ev.dur ≤ ev.ts)
    (hlt : ev.dur < 2 ^ 63) :
    t.exactEvent cat ev = relabel cat (!decide (t.gate.Outside ev)) ev.oldEvent := by
  have hin := TagPidState.inCmd_iff (t := t) hle hlt
  have hopen : t.gate.openNs ev.t0 ev.timestampNs = t.openNs ev.t0 ev.timestampNs := rfl
  cases hs : t.seenCmd
  · have hout : ¬ t.gate.Outside ev := by
      rintro ⟨hseen, -⟩
      rw [TagPidState.gate, hs] at hseen
      cases hseen
    simp [TagPidState.exactEvent, hs, hout, relabel]
  · have hout : t.gate.Outside ev ↔ ¬ t.inCmd 0 ev = true := by
      rw [hin, LiveCmdGate.Outside, hopen]
      by_cases hd : ev.dur = 0
      · simp [hd, TagPidState.gate, hs]
      · simp [hd, TagPidState.gate, hs]
    rw [TagPidState.exactEvent, hs, if_pos rfl]
    congr 1
    cases hi : t.inCmd 0 ev <;> simp [hout, hi]

theorem classify_eq {g : LiveCmdGate} {b : Bool} (hle : ev.dur ≤ ev.ts) (hclock : ev.ts < 2 ^ 63)
    (hg : g.Past ev.ts) :
    (liveCmdGateClassify (some g) ev.t0 ev.timestampNs b).2 = !decide (g.Outside ev) := by
  have hmaj := liveCmdMajority_iff (g.openNs ev.t0 ev.timestampNs) g.isOpen hle
  have hopen := hg.toNat_openNs_le ev.t0
  rw [Nat.mod_eq_of_lt (by rw [TraceEvent.ts] at hclock; omega)] at hmaj
  cases hs : g.seen
  · simp [liveCmdGateClassify, hs, LiveCmdGate.Outside]
  · simp only [liveCmdGateClassify, hs, if_true, LiveCmdGate.take]
    generalize liveCmdMajority _ _ _ = m at hmaj ⊢
    have hout : g.Outside ev ↔ ¬ m = true := by
      rw [hmaj, LiveCmdGate.Outside]
      by_cases hd : ev.dur = 0
      · simp [hd, hs]
      · simp [hd, hs]
    cases m <;> simp [hout]

theorem handleTraceEvent_of_full {acc : Accumulator} (h : ¬ acc.Room ev.pid) :
    (acc.getOrCreatePid ev.pid).2 = none ∧
      (handleTraceEvent c acc ev).1.stateOf = acc.stateOf ∧
      (isMarker ev.oldEvent = false →
        (handleTraceEvent c acc ev).2 = (liveRecordUnresolved c ev).effEvent) ∧
      (isMarker ev.oldEvent = true → (handleTraceEvent c acc ev).2 = none) := by
  rw [Accumulator.Room, not_or, not_lt] at h
  have hnone := Accumulator.find_eq_none_iff.mpr h.1
  have hget : acc.getOrCreatePid ev.pid = (acc, none) := by
    simp [Accumulator.getOrCreatePid, hnone, h.2]
  refine ⟨by rw [hget], ?_, fun hm => ?_, fun hm => ?_⟩
  · rw [handleTraceEvent, hget]
    split_ifs
    · rfl
    · rfl
    · exact Accumulator.stateOf_file _ _
  · rw [handleTraceEvent, hget]
    simp [hm]
  · rw [handleTraceEvent, hget]
    simp [hm]

/-- **The live label.** A ring record of a client backend is relabelled exactly when the live
accumulator holds it outside a command. -/
theorem handleTraceEvent_label {acc : Accumulator} (hc : c.cmdGateActive = true)
    (hm : isMarker ev.oldEvent = false) (hle : ev.dur ≤ ev.ts) (hclock : ev.ts < 2 ^ 63)
    (hg : (acc.stateOf ev.pid).cmdGate.Past ev.ts) :
    (handleTraceEvent c acc ev).2 =
      some (relabel (c.cat ev.pid) (!decide (acc.Outside ev)) ev.oldEvent) := by
  have heff : ∀ cat b, liveEffectiveEvent ev.oldEvent cat true b = relabel cat b ev.oldEvent := by
    intro cat b
    simp [liveEffectiveEvent, relabel]
  by_cases hroom : acc.Room ev.pid
  · obtain ⟨acc', hget, -⟩ := Accumulator.getOrCreatePid_of_room hroom
    have hout : acc.Outside ev ↔ (acc.stateOf ev.pid).cmdGate.Outside ev := by
      rw [Accumulator.Outside, hget]
    rw [(handleTraceEvent_of_room hroom).1]
    simp only [LivePid.step, hm, Bool.false_eq_true, if_false, LivePid.record, hc, heff,
      liveT0_eq hle, classify_eq hle hclock hg, hout]
  · obtain ⟨hget, -, hlabel, -⟩ := handleTraceEvent_of_full (c := c) hroom
    have hout : acc.Outside ev ↔ ev.flags &&& flagCmdOpen = 0 := by
      rw [Accumulator.Outside, hget]
    rw [hlabel hm]
    simp only [liveRecordUnresolved, liveCmdGateClassify, hc, heff, hout]
    congr 2
    by_cases hf : ev.flags &&& flagCmdOpen = 0 <;> simp [hf]

end Label

/-! ### A history, event by event -/

/-- Before an event: the gate fed with everything is that of the tagging pass, and no live gate is
ahead of the events still to come. -/
structure HistoryInStep (es : List WindowEvent) (acc : Accumulator) (full : UInt32 → LivePid)
    (tag : UInt32 → TagPidState) : Prop where
  gates : ∀ pid, GatesInStep ((traceOf es).filter fun ev => ev.pid = pid) (full pid) (tag pid)
  live : ∀ ev ∈ traceOf es, (acc.stateOf ev.pid).cmdGate.Past ev.ts
  clock : ∀ ev ∈ traceOf es, ev.ts < 2 ^ 63

namespace HistoryInStep

variable {c : LiveConfig} {e : WindowEvent} {es : List WindowEvent} {acc : Accumulator}
  {full : UInt32 → LivePid} {tag : UInt32 → TagPidState}

theorem head (h : HistoryInStep (e :: es) acc full tag) :
    GatesInStep (e.event :: (traceOf es).filter fun ev => ev.pid = e.event.pid)
      (full e.event.pid) (tag e.event.pid) := by
  have := h.gates e.event.pid
  rwa [traceOf, List.map_cons, List.filter_cons_of_pos (by simp)] at this

theorem gates_step (h : HistoryInStep (e :: es) acc full tag) (pid : UInt32) :
    GatesInStep ((traceOf es).filter fun ev => ev.pid = pid)
      (Keyed.move TraceEvent.pid (LivePid.step c) full e.event pid)
      (Keyed.move TraceEvent.pid (tagForwardStep c.cat 0) tag e.event pid) := by
  by_cases hp : pid = e.event.pid
  · subst hp
    rw [Keyed.move_self, Keyed.move_self]
    exact h.head.step
  · rw [Keyed.move_of_ne hp, Keyed.move_of_ne hp]
    have := h.gates pid
    rwa [traceOf, List.map_cons, List.filter_cons_of_neg (by simp [Ne.symm hp])] at this

theorem ts_le (h : HistoryInStep (e :: es) acc full tag) (hev : ev ∈ traceOf es)
    (hp : ev.pid = e.event.pid) : e.event.ts ≤ ev.ts :=
  List.rel_of_pairwise_cons h.head.stream.ordered (List.mem_filter.mpr ⟨hev, by simp [hp]⟩)

theorem written (h : HistoryInStep (.written ev :: es) acc full tag) :
    HistoryInStep es acc (Keyed.move TraceEvent.pid (LivePid.step c) full ev)
      (Keyed.move TraceEvent.pid (tagForwardStep c.cat 0) tag ev) where
  gates pid := h.gates_step pid
  live ev' hev' := h.live ev' (List.mem_cons_of_mem _ hev')
  clock ev' hev' := h.clock ev' (List.mem_cons_of_mem _ hev')

theorem ring (h : HistoryInStep (.ring ev :: es) acc full tag) :
    HistoryInStep es (handleTraceEvent c acc ev).1
      (Keyed.move TraceEvent.pid (LivePid.step c) full ev)
      (Keyed.move TraceEvent.pid (tagForwardStep c.cat 0) tag ev) where
  gates pid := h.gates_step pid
  clock ev' hev' := h.clock ev' (List.mem_cons_of_mem _ hev')
  live ev' hev' := by
    have hold := h.live ev' (List.mem_cons_of_mem _ hev')
    by_cases hroom : acc.Room ev.pid
    · rw [(handleTraceEvent_of_room (c := c) hroom).2.1]
      by_cases hp : ev'.pid = ev.pid
      · rw [hp, Keyed.move_self]
        exact ((h.live ev List.mem_cons_self).step c).mono (h.ts_le hev' hp)
      · rwa [Keyed.move_of_ne hp]
    · rwa [(handleTraceEvent_of_full (c := c) hroom).2.1]

/-- The label of one ring record: the two sides agree exactly when the two gates do. -/
theorem label_eq_iff (hc : c.cmdGateActive = true)
    (h : HistoryInStep (.ring ev :: es) acc full tag) :
    (handleTraceEvent c acc ev).2 = (tagForwardStep c.cat 0 (tag ev.pid) ev).2.1.label ↔
      (ev.oldEvent = 0 ∧ c.cat ev.pid = .foreground →
        (acc.Outside ev ↔ (full ev.pid).cmdGate.Outside ev)) := by
  have hstream := h.head.stream
  cases hm : isMarker ev.oldEvent
  · have hle := hstream.dur_le ev List.mem_cons_self hm
    have hlt := hstream.dur_lt ev List.mem_cons_self hm
    obtain ⟨ev', hstep, hold, -⟩ := tagForwardStep_exact c.cat (tag ev.pid) hm
      (hstream.exact ev List.mem_cons_self hm)
    have htag : (tagForwardStep c.cat 0 (tag ev.pid) ev).2.1.label =
        some (relabel (c.cat ev.pid) (!decide ((full ev.pid).cmdGate.Outside ev))
          ev.oldEvent) := by
      have hgate : (full ev.pid).cmdGate = (tag ev.pid).gate := h.head.gate
      rw [hstep, TraceEvent.label, hold, TagPidState.isMarker_exactEvent hm, if_neg (by simp),
        TagPidState.exactEvent_eq _ _ hle hlt, hgate]
    rw [htag, handleTraceEvent_label hc hm hle (h.clock ev List.mem_cons_self)
      (h.live ev List.mem_cons_self), Option.some_inj, relabel_eq_iff]
  · have hne : ¬ ev.oldEvent = 0 := by
      rintro h0
      rw [h0] at hm
      exact absurd hm (by decide)
    have hlive : (handleTraceEvent c acc ev).2 = none := by
      by_cases hroom : acc.Room ev.pid
      · rw [(handleTraceEvent_of_room hroom).1, LivePid.step, if_pos hm]
        split_ifs <;> rfl
      · exact (handleTraceEvent_of_full hroom).2.2.2 hm
    rw [hlive, tagForwardStep_marker hm, TraceEvent.label, if_pos hm]
    exact iff_of_true rfl fun h' => absurd h'.1 hne

theorem agree_iff (hc : c.cmdGateActive = true) (h : HistoryInStep es acc full tag) :
    liveHistory c acc es = List.zipWith WindowEvent.keep es
        ((tagForward c.cat 0 tag (traceOf es)).map fun r => r.1.label) ↔
      GatesMeet c acc full es := by
  induction es generalizing acc full tag with
  | nil => exact iff_of_true rfl trivial
  | cons e es ih =>
    rw [traceOf, List.map_cons, tagForward, Keyed.pass, List.map_cons, List.zipWith_cons_cons]
    cases e with
    | ring ev =>
      rw [liveHistory, GatesMeet, List.cons.injEq]
      exact and_congr (h.label_eq_iff hc) (ih h.ring)
    | written ev =>
      rw [liveHistory, GatesMeet, List.cons.injEq]
      exact (and_iff_right rfl).trans (ih h.written)

end HistoryInStep

/-- A backend with a command that was open before the window. -/
def straddlingBackend : ExactBackend where
  pid := 7
  seed := some ⟨1, 42, 1, 1⟩

/-- One window over the rest of a straddling command: a run inside it, and one after its end. -/
def straddlerWindow : EscalationWindow where
  config := ⟨1, 10, true⟩
  opened := [straddlingBackend]
  ring := [{ recordAt 0 30 10 0 with pid := 7 }, { markerAt markerCmdEnd 31 42 with pid := 7 },
    { recordAt 0 50 19 0 with pid := 7 }]
  nowNs := 60
  closing := [{ straddlingBackend with edge := some { cmdGeneration := 1, cmdEdgeTs := 31 } }]

theorem exactTrace_straddlerWindow : ExactTrace (traceOf (history [straddlerWindow])) :=
  .of_exactStream ⟨by decide, by decide, by decide, by decide⟩ (by decide)

/-- A command that starts in one window, where its run is flushed, and ends before the next: its end
is in the trace only. -/
def commandAcrossGap : List EscalationWindow :=
  [{ config := ⟨1, 10, true⟩
     ring := [{ markerAt markerCmdStart 20 42 with pid := 7 }]
     nowNs := 40
     flushed := [{ pid := 7, state := some ⟨0, 1, 1, 10, 0, 0, 0⟩ }]
     closing := [⟨7, true, 0, none, some { cmdGeneration := 1, cmdEdgeTs := 20, cmdOpen := 1 },
      some ⟨1, 0, 0, 1⟩⟩] },
    { config := ⟨2, 100, true⟩
      opened := [⟨7, true, 0, none, none, some ⟨2, 0, 0, 1⟩⟩]
      ring := [{ recordAt 0 110 10 0 with pid := 7 }]
      nowNs := 120
      closing := [⟨7, true, 0, none, none, some ⟨2, 0, 0, 1⟩⟩] }]

end PgWaitTracer
