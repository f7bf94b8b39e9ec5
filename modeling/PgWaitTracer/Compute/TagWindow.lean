import PgWaitTracer.Compute.Tag
import Mathlib.Data.List.Chain

/-!
# Tagging a window

The loader hands the tagging pass the records of a stream from a left edge on
(`server_load_events_fi_mode`, `src/server.c`). The command sweep of every process then starts from
nothing: only a process that has command markers inside the window is gated, and its sweep knows
nothing of a command that runs, or of command time banked, at the left edge. This file compares the
labels with those of tagging the whole stream.

The sweep forgets quickly. After a command marker and a record of the process both sweeps are in the
same state, whatever they were at the edge.

## Main results

* `window_oldEvent_eq`: a settled record of the window leaves with the same event as
  when the whole stream is tagged.
-/

namespace PgWaitTracer

/-! ### Two sweeps of one process -/

/-- Two sweeps that decide alike from here on; a closed sweep never reads its anchor again. -/
structure SameSweep (s t : TagPidState) : Prop where
  seen : s.seenCmd = t.seenCmd
  isOpen : s.cmdOpen = t.cmdOpen
  banked : s.bankedNs = t.bankedNs
  anchor : t.cmdOpen = true → s.cmdAnchor = t.cmdAnchor

/-- Two sweeps that have seen the same last command marker. -/
structure BothSeen (s t : TagPidState) : Prop where
  left : s.seenCmd = true
  right : t.seenCmd = true
  isOpen : s.cmdOpen = t.cmdOpen

/-- Two sweeps without a command and without banked time; one of them may have seen no marker. -/
structure BothIdle (s t : TagPidState) : Prop where
  left : s.cmdOpen = false
  right : t.cmdOpen = false
  leftBanked : s.bankedNs = 0
  rightBanked : t.bankedNs = 0

variable {cat : UInt32 → PidCategory} {s t : TagPidState} {ev : TraceEvent}

theorem isCmdMarker_cases (h : isCmdMarker ev.oldEvent = true) :
    ev.oldEvent = markerCmdStart ∨ ev.oldEvent = markerCmdEnd := by
  rwa [isCmdMarker, Bool.or_eq_true, decide_eq_true_eq, decide_eq_true_eq] at h

namespace SameSweep

theorem marker (h : SameSweep s t) : SameSweep (s.marker ev) (t.marker ev) := by
  cases hc : isCmdMarker ev.oldEvent
  · obtain ⟨hs, ho, ha, hb⟩ := TagPidState.marker_of_not_cmd (t := s) hc
    obtain ⟨hs', ho', ha', hb'⟩ := TagPidState.marker_of_not_cmd (t := t) hc
    exact ⟨by rw [hs, hs', h.seen], by rw [ho, ho', h.isOpen], by rw [hb, hb', h.banked],
      fun hopen => by rw [ha, ha', h.anchor (ho' ▸ hopen)]⟩
  · rcases isCmdMarker_cases hc with hm | hm
    · obtain ⟨hs, ho, ha, hb⟩ := TagPidState.marker_cmdStart (t := s) hm
      obtain ⟨hs', ho', ha', hb'⟩ := TagPidState.marker_cmdStart (t := t) hm
      refine ⟨by rw [hs, hs'], by rw [ho, ho'], by rw [hb, hb', h.banked], fun _ => ?_⟩
      rw [ha, ha', h.isOpen]
      split_ifs with hopen
      · exact h.anchor hopen
      · rfl
    · obtain ⟨hs, ho, hb⟩ := TagPidState.marker_cmdEnd (t := s) hm
      obtain ⟨hs', ho', hb'⟩ := TagPidState.marker_cmdEnd (t := t) hm
      refine ⟨by rw [hs, hs'], by rw [ho, ho'], ?_, fun hopen => absurd hopen (by simp [ho'])⟩
      rw [hb, hb', h.isOpen]
      split_ifs with hopen
      · rw [h.anchor hopen, h.banked]
      · exact h.banked

theorem record (h : SameSweep s t) : SameSweep (s.afterExact ev) (t.afterExact ev) := by
  obtain ⟨hs, ho, ha, hb⟩ := TagPidState.afterExact_sweep s ev
  obtain ⟨hs', ho', ha', hb'⟩ := TagPidState.afterExact_sweep t ev
  refine ⟨by rw [hs, hs', h.seen], by rw [ho, ho', h.isOpen],
    by rw [hb, hb', h.seen, h.banked], fun hopen => ?_⟩
  rw [ha, ha', h.seen, h.isOpen]
  split_ifs
  · rfl
  · exact h.anchor (ho' ▸ hopen)

theorem exactEvent_eq (h : SameSweep s t) (c : PidCategory) :
    s.exactEvent c ev = t.exactEvent c ev := by
  have hopenNs : s.openNs ev.t0 ev.timestampNs = t.openNs ev.t0 ev.timestampNs := by
    unfold TagPidState.openNs
    rw [h.isOpen, h.banked]
    cases ho : t.cmdOpen
    · simp
    · rw [h.anchor ho]
  have hin : s.inCmd 0 ev = t.inCmd 0 ev := by
    have heff : effT1 0 ev = ev.timestampNs := by simp [effT1]
    simp only [TagPidState.inCmd, heff, hopenNs, h.isOpen]
  rw [TagPidState.exactEvent, TagPidState.exactEvent, h.seen, hin]

end SameSweep

namespace BothSeen

theorem of_cmdMarker (hc : isCmdMarker ev.oldEvent = true) :
    BothSeen (s.marker ev) (t.marker ev) := by
  rcases isCmdMarker_cases hc with hm | hm
  · obtain ⟨hs, ho, -⟩ := TagPidState.marker_cmdStart (t := s) hm
    obtain ⟨hs', ho', -⟩ := TagPidState.marker_cmdStart (t := t) hm
    exact ⟨hs, hs', ho.trans ho'.symm⟩
  · obtain ⟨hs, ho, -⟩ := TagPidState.marker_cmdEnd (t := s) hm
    obtain ⟨hs', ho', -⟩ := TagPidState.marker_cmdEnd (t := t) hm
    exact ⟨hs, hs', ho.trans ho'.symm⟩

theorem marker (h : BothSeen s t) : BothSeen (s.marker ev) (t.marker ev) := by
  cases hc : isCmdMarker ev.oldEvent
  · obtain ⟨hs, ho, -⟩ := TagPidState.marker_of_not_cmd (t := s) hc
    obtain ⟨hs', ho', -⟩ := TagPidState.marker_of_not_cmd (t := t) hc
    exact ⟨hs.trans h.left, hs'.trans h.right, by rw [ho, ho', h.isOpen]⟩
  · exact of_cmdMarker hc

theorem record (h : BothSeen s t) : SameSweep (s.afterExact ev) (t.afterExact ev) := by
  obtain ⟨hs, ho, ha, hb⟩ := TagPidState.afterExact_sweep s ev
  obtain ⟨hs', ho', ha', hb'⟩ := TagPidState.afterExact_sweep t ev
  refine ⟨by rw [hs, hs', h.left, h.right], by rw [ho, ho', h.isOpen],
    by simp [hb, hb', h.left, h.right], fun hopen => ?_⟩
  rw [ho'] at hopen
  simp [ha, ha', h.left, h.right, h.isOpen, hopen]

end BothSeen

theorem SameSweep.bothSeen (h : SameSweep s t) (hs : t.seenCmd = true) : BothSeen s t :=
  ⟨h.seen.trans hs, hs, h.isOpen⟩

namespace BothIdle

theorem marker_of_not_cmd (h : BothIdle s t) (hc : isCmdMarker ev.oldEvent = false) :
    BothIdle (s.marker ev) (t.marker ev) := by
  obtain ⟨-, ho, -, hb⟩ := TagPidState.marker_of_not_cmd (t := s) hc
  obtain ⟨-, ho', -, hb'⟩ := TagPidState.marker_of_not_cmd (t := t) hc
  exact ⟨ho.trans h.left, ho'.trans h.right, hb.trans h.leftBanked, hb'.trans h.rightBanked⟩

theorem record (h : BothIdle s t) : BothIdle (s.afterExact ev) (t.afterExact ev) := by
  obtain ⟨-, ho, -, hb⟩ := TagPidState.afterExact_sweep s ev
  obtain ⟨-, ho', -, hb'⟩ := TagPidState.afterExact_sweep t ev
  refine ⟨ho.trans h.left, ho'.trans h.right, ?_, ?_⟩
  · rw [hb, h.leftBanked, ite_self]
  · rw [hb', h.rightBanked, ite_self]

theorem cmdMarker (h : BothIdle s t) (hc : isCmdMarker ev.oldEvent = true) :
    SameSweep (s.marker ev) (t.marker ev) := by
  rcases isCmdMarker_cases hc with hm | hm
  · obtain ⟨hs, ho, ha, hb⟩ := TagPidState.marker_cmdStart (t := s) hm
    obtain ⟨hs', ho', ha', hb'⟩ := TagPidState.marker_cmdStart (t := t) hm
    refine ⟨hs.trans hs'.symm, ho.trans ho'.symm,
      by rw [hb, hb', h.leftBanked, h.rightBanked], fun _ => ?_⟩
    simp [ha, ha', h.left, h.right]
  · obtain ⟨hs, ho, hb⟩ := TagPidState.marker_cmdEnd (t := s) hm
    obtain ⟨hs', ho', hb'⟩ := TagPidState.marker_cmdEnd (t := t) hm
    refine ⟨hs.trans hs'.symm, ho.trans ho'.symm, ?_, fun hopen => absurd hopen (by simp [ho'])⟩
    simp [hb, hb', h.left, h.right, h.leftBanked, h.rightBanked]

end BothIdle

/-! ### The sweeps over a list of events -/

/-- Exact records and markers. -/
def ExactOnly (evs : List TraceEvent) : Prop :=
  ∀ ev ∈ evs, isMarker ev.oldEvent = false → ev.isSample = false

instance (evs : List TraceEvent) : Decidable (ExactOnly evs) :=
  inferInstanceAs (Decidable (∀ ev ∈ evs, _))

theorem ExactOnly.mono {A B : List TraceEvent} (h : ExactOnly B) (hsub : A ⊆ B) : ExactOnly A :=
  fun ev hev => h ev (hsub hev)

/-- The table of the forward pass after a list of events. -/
def sweepAfter (cat : UInt32 → PidCategory) (tbl : UInt32 → TagPidState) (evs : List TraceEvent) :
    UInt32 → TagPidState :=
  Keyed.after TraceEvent.pid (tagForwardStep cat 0) tbl evs

theorem sweepAfter_rel (cat : UInt32 → PidCategory) (R : TagPidState → TagPidState → Prop)
    (tbl tbl' : UInt32 → TagPidState) {evs : List TraceEvent} {p : UInt32} (hexact : ExactOnly evs)
    (hmarker : ∀ ev ∈ evs, ev.pid = p → isMarker ev.oldEvent = true → ∀ {s t}, R s t →
      R (s.marker ev) (t.marker ev))
    (hrecord : ∀ ev ∈ evs, ev.pid = p → isMarker ev.oldEvent = false → ∀ {s t}, R s t →
      R (s.afterExact ev) (t.afterExact ev))
    (h : R (tbl p) (tbl' p)) : R (sweepAfter cat tbl evs p) (sweepAfter cat tbl' evs p) := by
  refine Keyed.after_rel R TraceEvent.pid _ _ tbl tbl' evs (fun ev hev hp => ?_) h
  intro s t hst
  cases hm : isMarker ev.oldEvent
  · obtain ⟨ev₁, h₁, -⟩ := tagForwardStep_exact cat s hm (hexact ev hev hm)
    obtain ⟨ev₂, h₂, -⟩ := tagForwardStep_exact cat t hm (hexact ev hev hm)
    rw [h₁, h₂]
    exact hrecord ev hev hp hm hst
  · rw [tagForwardStep_marker hm, tagForwardStep_marker hm]
    exact hmarker ev hev hp hm hst

theorem sweepAfter_cons (tbl : UInt32 → TagPidState) (ev : TraceEvent) (evs : List TraceEvent) :
    sweepAfter cat tbl (ev :: evs) =
      sweepAfter cat (Keyed.move TraceEvent.pid (tagForwardStep cat 0) tbl ev) evs := rfl

theorem sweepAfter_append (tbl : UInt32 → TagPidState) (A B : List TraceEvent) :
    sweepAfter cat tbl (A ++ B) = sweepAfter cat (sweepAfter cat tbl A) B :=
  Keyed.after_append A B

section Lists

variable {tbl tbl' : UInt32 → TagPidState} {p : UInt32} {evs : List TraceEvent}

theorem sameSweep_after (hexact : ExactOnly evs) (h : SameSweep (tbl p) (tbl' p)) :
    SameSweep (sweepAfter cat tbl evs p) (sweepAfter cat tbl' evs p) :=
  sweepAfter_rel cat SameSweep tbl tbl' hexact (fun _ _ _ _ _ _ h => h.marker)
    (fun _ _ _ _ _ _ h => h.record) h

/-- A command marker and a later record of the process make any two sweeps the same. -/
theorem sameSweep_of_marker_record {A B C : List TraceEvent} {m x : TraceEvent}
    (hexact : ExactOnly (A ++ m :: (B ++ x :: C))) (hm : m.pid = p)
    (hcm : isCmdMarker m.oldEvent = true) (hx : x.pid = p)
    (hxr : isMarker x.oldEvent = false) :
    SameSweep (sweepAfter cat tbl (A ++ m :: (B ++ x :: C)) p)
      (sweepAfter cat tbl' (A ++ m :: (B ++ x :: C)) p) := by
  subst hm
  have hmm : isMarker m.oldEvent = true := isMarker_of_isCmdMarker hcm
  have hB : ExactOnly B := hexact.mono (by simp [List.subset_def]; tauto)
  have hC : ExactOnly C := hexact.mono (by simp [List.subset_def]; tauto)
  have hxs : x.isSample = false := hexact x (by simp) hxr
  rw [sweepAfter_append, sweepAfter_append, sweepAfter_cons, sweepAfter_cons, sweepAfter_append,
    sweepAfter_append, sweepAfter_cons, sweepAfter_cons]
  refine sameSweep_after hC ?_
  -- after the marker both have seen one; the record then settles the rest
  have hseen := sweepAfter_rel cat BothSeen
    (Keyed.move TraceEvent.pid (tagForwardStep cat 0) (sweepAfter cat tbl A) m)
    (Keyed.move TraceEvent.pid (tagForwardStep cat 0) (sweepAfter cat tbl' A) m) (p := m.pid) hB
    (fun _ _ _ _ _ _ h => h.marker)
    (fun _ _ _ _ _ _ h => h.record.bothSeen ((TagPidState.afterExact_sweep _ _).1.trans h.right))
    (by
      rw [Keyed.move_self, Keyed.move_self, tagForwardStep_marker hmm, tagForwardStep_marker hmm]
      exact BothSeen.of_cmdMarker hcm)
  rw [← hx, Keyed.move_self, Keyed.move_self]
  obtain ⟨ev₁, h₁, -⟩ := tagForwardStep_exact cat (sweepAfter cat
    (Keyed.move TraceEvent.pid (tagForwardStep cat 0) (sweepAfter cat tbl A) m) B x.pid) hxr hxs
  obtain ⟨ev₂, h₂, -⟩ := tagForwardStep_exact cat (sweepAfter cat
    (Keyed.move TraceEvent.pid (tagForwardStep cat 0) (sweepAfter cat tbl' A) m) B x.pid) hxr hxs
  rw [h₁, h₂]
  rw [← hx] at hseen
  exact hseen.record

theorem sameSweep_of_idle (hexact : ExactOnly evs) (h : BothIdle (tbl p) (tbl' p))
    (hm : ∃ m ∈ evs, m.pid = p ∧ isCmdMarker m.oldEvent = true) :
    SameSweep (sweepAfter cat tbl evs p) (sweepAfter cat tbl' evs p) := by
  obtain ⟨m, hmem, rfl, hcm⟩ := hm
  have hmm : isMarker m.oldEvent = true := isMarker_of_isCmdMarker hcm
  obtain ⟨A, C, rfl⟩ := List.append_of_mem hmem
  have hA : ExactOnly A := hexact.mono (by simp [List.subset_def]; tauto)
  have hC : ExactOnly C := hexact.mono (by simp [List.subset_def]; tauto)
  have hbefore := sweepAfter_rel cat (fun s t => BothIdle s t ∨ SameSweep s t) tbl tbl' (p := m.pid) hA
    (fun ev _ _ _ s t hst => by
      rcases hst with hst | hst
      · cases hc : isCmdMarker ev.oldEvent
        · exact Or.inl (hst.marker_of_not_cmd hc)
        · exact Or.inr (hst.cmdMarker hc)
      · exact Or.inr hst.marker)
    (fun ev _ _ _ s t hst => hst.imp BothIdle.record SameSweep.record) (Or.inl h)
  rw [sweepAfter_append, sweepAfter_append, sweepAfter_cons, sweepAfter_cons]
  refine sameSweep_after hC ?_
  rw [Keyed.move_self, Keyed.move_self, tagForwardStep_marker hmm, tagForwardStep_marker hmm]
  rcases hbefore with hst | hst
  · exact hst.cmdMarker hcm
  · exact hst.marker

theorem unseen_after (cat : UInt32 → PidCategory) (tbl : UInt32 → TagPidState)
    (hexact : ExactOnly evs)
    (hno : ∀ ev ∈ evs, ev.pid = p → isCmdMarker ev.oldEvent = false)
    (h : (tbl p).seenCmd = false ∧ (tbl p).cmdOpen = false ∧ (tbl p).bankedNs = 0) :
    (sweepAfter cat tbl evs p).seenCmd = false ∧ (sweepAfter cat tbl evs p).cmdOpen = false ∧
      (sweepAfter cat tbl evs p).bankedNs = 0 := by
  refine sweepAfter_rel cat (fun s _ => s.seenCmd = false ∧ s.cmdOpen = false ∧ s.bankedNs = 0)
    tbl tbl hexact (fun ev hev hp _ s t hst => ?_)
    (fun ev _ _ _ s t hst => ?_) h
  · obtain ⟨hs, ho, -, hb⟩ := TagPidState.marker_of_not_cmd (t := s) (hno ev hev hp)
    exact ⟨hs.trans hst.1, ho.trans hst.2.1, hb.trans hst.2.2⟩
  · obtain ⟨hs, ho, -, hb⟩ := TagPidState.afterExact_sweep s ev
    exact ⟨hs.trans hst.1, ho.trans hst.2.1, by rw [hb, hst.1, hst.2.2, ite_self]⟩

/-- The records of a process. -/
def pidRecords (p : UInt32) (evs : List TraceEvent) : List TraceEvent :=
  evs.filter fun ev => ev.pid = p && !isMarker ev.oldEvent

/-- Without command markers an open sweep stays open, anchored at the last record. -/
theorem open_after (cat : UInt32 → PidCategory) (tbl : UInt32 → TagPidState)
    (hexact : ExactOnly evs)
    (hno : ∀ ev ∈ evs, ev.pid = p → isCmdMarker ev.oldEvent = false)
    (hseen : (tbl p).seenCmd = true) (hopen : (tbl p).cmdOpen = true) :
    (sweepAfter cat tbl evs p).seenCmd = true ∧ (sweepAfter cat tbl evs p).cmdOpen = true ∧
      ∀ x, (pidRecords p evs).getLast? = some x → (sweepAfter cat tbl evs p).bankedNs = 0 ∧
        (sweepAfter cat tbl evs p).cmdAnchor = x.timestampNs := by
  induction evs using List.reverseRecOn with
  | nil => exact ⟨hseen, hopen, fun x hx => by simp [pidRecords] at hx⟩
  | append_singleton l e ih =>
    obtain ⟨hs, ho, hlast⟩ := ih (hexact.mono (List.subset_append_left _ _))
      fun ev hev => hno ev (List.mem_append_left _ hev)
    have happ : pidRecords p (l ++ [e]) = pidRecords p l ++ pidRecords p [e] :=
      List.filter_append ..
    have hone : sweepAfter cat tbl (l ++ [e]) =
        Keyed.move TraceEvent.pid (tagForwardStep cat 0) (sweepAfter cat tbl l) e := by
      rw [sweepAfter_append]
      rfl
    rw [hone, happ]
    by_cases hp : p = e.pid
    · subst hp
      rw [Keyed.move_self]
      cases hm : isMarker e.oldEvent
      · obtain ⟨ev', hstep, -⟩ := tagForwardStep_exact cat
          (sweepAfter cat tbl l e.pid) hm (hexact e (by simp) hm)
        obtain ⟨hs', ho', ha', hb'⟩ := TagPidState.afterExact_sweep (sweepAfter cat tbl l e.pid) e
        have hrec : pidRecords e.pid [e] = [e] := by simp [pidRecords, hm]
        rw [hstep, hrec]
        refine ⟨hs'.trans hs, ho'.trans ho, fun x hx => ?_⟩
        rw [List.getLast?_concat, Option.some_inj] at hx
        subst hx
        simp [ha', hb', hs, ho]
      · obtain ⟨hs', ho', ha', hb'⟩ := TagPidState.marker_of_not_cmd
          (t := sweepAfter cat tbl l e.pid) (hno e (by simp) rfl)
        have hrec : pidRecords e.pid [e] = [] := by simp [pidRecords, hm]
        rw [tagForwardStep_marker hm, hrec, List.append_nil]
        exact ⟨hs'.trans hs, ho'.trans ho, fun x hx =>
          ⟨hb'.trans (hlast x hx).1, ha'.trans (hlast x hx).2⟩⟩
    · have hrec : pidRecords p [e] = [] := by simp [pidRecords, Ne.symm hp]
      rw [Keyed.move_of_ne hp, hrec, List.append_nil]
      exact ⟨hs, ho, hlast⟩

end Lists

theorem inCmd_of_anchor (hopen : s.cmdOpen = true) (hbank : s.bankedNs = 0)
    (hanchor : s.cmdAnchor = ev.t0) (hle : ev.dur ≤ ev.ts) (hlt : ev.dur < 2 ^ 63) :
    s.inCmd 0 ev = true := by
  have hwall := toNat_wall hle
  rw [TagPidState.inCmd_iff hle hlt]
  split_ifs with h0
  · exact hopen
  · have hgt : ev.timestampNs > ev.t0 := by
      by_contra hn
      rw [if_neg hn] at hwall
      exact h0 hwall.symm
    rw [if_pos hgt] at hwall
    have hopenNs : s.openNs ev.t0 ev.timestampNs = ev.timestampNs - ev.t0 := by
      simp [TagPidState.openNs, hopen, hbank, hanchor, hgt]
    rw [hopenNs, hwall]
    omega

/-! ### The labels of a window -/

/-- The records of every process tile its timeline. -/
def Tiles (evs : List TraceEvent) : Prop :=
  ∀ p, (pidRecords p evs).IsChain fun a b => b.ts = a.ts + b.dur

/-- The records of a window whose label does not depend on the left edge. `edge` is the sweep of the
process at the edge when the whole stream is tagged, `P` the stream before the edge, `X` the window
before the record `r`. -/
inductive EdgeSettled (cat : UInt32 → PidCategory) (edge : TagPidState) (P X : List TraceEvent)
    (r : TraceEvent) : Prop
  /-- Only on-CPU records of client backends are relabelled. -/
  | otherLabel (h : ¬ (r.oldEvent = 0 ∧ cat r.pid = .foreground))
  /-- The process has no command marker before the edge. -/
  | unmarked (h : ∀ ev ∈ P, ev.pid = r.pid → isCmdMarker ev.oldEvent = false)
  /-- The window has a command marker of the process, and a record of it after that. -/
  | inside (A B C : List TraceEvent) (m x : TraceEvent) (hX : X = A ++ m :: (B ++ x :: C))
      (hm : m.pid = r.pid) (hcm : isCmdMarker m.oldEvent = true) (hx : x.pid = r.pid)
      (hxr : isMarker x.oldEvent = false)
  /-- No command is open and none is banked at the edge, and the window has a command marker. -/
  | idleEdge (hopen : edge.cmdOpen = false) (hbank : edge.bankedNs = 0)
      (hm : ∃ m ∈ X, m.pid = r.pid ∧ isCmdMarker m.oldEvent = true)
  /-- A command is open at the edge, and no marker but a record of the process follows. -/
  | openEdge (hopen : edge.cmdOpen = true)
      (hno : ∀ m ∈ X, m.pid = r.pid → isCmdMarker m.oldEvent = false)
      (hx : pidRecords r.pid X ≠ []) (hlt : r.dur < 2 ^ 63)

theorem seen_of_open {evs : List TraceEvent} (hexact : ExactOnly evs) {p : UInt32}
    (h : (sweepAfter cat (fun _ => {}) evs p).cmdOpen = true) :
    (sweepAfter cat (fun _ => {}) evs p).seenCmd = true := by
  refine sweepAfter_rel cat (fun s _ => s.cmdOpen = true → s.seenCmd = true) (fun _ => {})
    (fun _ => {}) hexact (fun ev _ _ _ s t hst hopen => ?_)
    (fun ev _ _ _ s t hst hopen => ?_) (fun h => absurd h (by decide)) h
  · cases hc : isCmdMarker ev.oldEvent
    · obtain ⟨hs, ho, -⟩ := TagPidState.marker_of_not_cmd (t := s) hc
      exact hs.trans (hst (ho ▸ hopen))
    · exact (BothSeen.of_cmdMarker (s := s) (t := s) hc).left
  · obtain ⟨hs, ho, -⟩ := TagPidState.afterExact_sweep s ev
    exact hs.trans (hst (ho ▸ hopen))

theorem seedTable_eq (seeds : List QidSeed) (p : UInt32) :
    ∃ q, seedTable seeds p = { cmdQid := q } := by
  suffices ∀ tbl : UInt32 → TagPidState, (∃ q, tbl p = { cmdQid := q }) →
      ∃ q, seeds.foldl installSeed tbl p = { cmdQid := q } from this _ ⟨0, rfl⟩
  induction seeds with
  | nil => exact fun tbl h => h
  | cons sd seeds ih =>
    rintro tbl ⟨q, hq⟩
    refine ih _ ?_
    rw [installSeed]
    split_ifs
    · exact ⟨q, hq⟩
    · by_cases hp : p = sd.pid
      · subst hp
        exact ⟨sd.queryId, by rw [Function.update_self, hq]⟩
      · exact ⟨q, by rw [Function.update_of_ne hp, hq]⟩

theorem getElem?_tagForward {W : List TraceEvent} (hexact : ExactOnly W)
    (tbl : UInt32 → TagPidState) {i : ℕ} {r : TraceEvent} (hr : W[i]? = some r)
    (hm : isMarker r.oldEvent = false) :
    ((tagForward cat 0 tbl W).map fun x => x.1.oldEvent)[i]? =
      some ((sweepAfter cat tbl (W.take i) r.pid).exactEvent (cat r.pid) r) := by
  obtain ⟨ev', hstep, hold, -⟩ := tagForwardStep_exact cat
    (sweepAfter cat tbl (W.take i) r.pid) hm (hexact r (List.mem_of_getElem? hr) hm)
  rw [List.getElem?_map, tagForward, Keyed.getElem?_pass, hr]
  change some (tagForwardStep cat 0 (sweepAfter cat tbl (W.take i) r.pid) r).2.1.oldEvent = _
  rw [hstep, hold]

theorem filter_append_filter {S : List TraceEvent} (h : S.Pairwise fun a b => a.ts ≤ b.ts)
    (fromNs : ℕ) : S = (S.filter fun ev => ev.ts < fromNs) ++ S.filter fun ev => fromNs ≤ ev.ts := by
  induction S with
  | nil => rfl
  | cons e S ih =>
    by_cases hlt : e.ts < fromNs
    · rw [List.filter_cons_of_pos (by simpa using hlt), List.filter_cons_of_neg (by simpa using hlt),
        List.cons_append, ← ih h.of_cons]
    · have hall : ∀ ev ∈ e :: S, fromNs ≤ ev.ts := by
        intro ev hev
        rcases List.mem_cons.mp hev with rfl | hev
        · omega
        · have := List.rel_of_pairwise_cons h hev
          omega
      rw [List.filter_eq_nil_iff.mpr fun ev hev => by simpa using hall ev hev, List.nil_append,
        List.filter_eq_self.mpr fun ev hev => by simpa using hall ev hev]

section Window

variable {P W : List TraceEvent} {i : ℕ} {r : TraceEvent}

/-- The sweep of the window and that of the whole stream give a settled record the same label. -/
theorem exactEvent_of_settled (hP : ExactOnly P) (hW : ExactOnly W) (htile : Tiles (P ++ W))
    (hdur : r.dur ≤ r.ts) (hr : W[i]? = some r) (hm : isMarker r.oldEvent = false)
    (seeds : List QidSeed)
    (h : EdgeSettled cat (sweepAfter cat (fun _ => {}) P r.pid) P (W.take i) r) :
    (sweepAfter cat (seedTable seeds) (W.take i) r.pid).exactEvent (cat r.pid) r =
      (sweepAfter cat (sweepAfter cat (fun _ => {}) P) (W.take i) r.pid).exactEvent (cat r.pid) r := by
  have hX : ExactOnly (W.take i) := hW.mono (List.take_subset _ _)
  obtain ⟨q, hseed⟩ := seedTable_eq seeds r.pid
  rcases h with h | h | ⟨A, B, C, m, x, hsplit, hm', hcm, hx, hxr⟩ | ⟨hopen, hbank, hmark⟩ |
    ⟨hopen, hno, hx, hlt⟩
  · have hlabel : ∀ t : TagPidState, t.exactEvent (cat r.pid) r = r.oldEvent := by
      intro t
      rw [TagPidState.exactEvent, relabel, if_neg (c := _ ∧ _), ite_self]
      rintro ⟨h0, hc, -⟩
      exact h ⟨h0, PidCategory.flag_eq_zero.mp hc⟩
    rw [hlabel, hlabel]
  · obtain ⟨hs, ho, hb⟩ := unseen_after cat (fun _ => {}) hP h ⟨rfl, rfl, rfl⟩
    refine (sameSweep_after hX ⟨?_, ?_, ?_, fun hopen => ?_⟩).exactEvent_eq _
    · rw [hseed, hs]
    · rw [hseed, ho]
    · rw [hseed, hb]
    · rw [ho] at hopen
      cases hopen
  · rw [hsplit]
    exact (sameSweep_of_marker_record (hsplit ▸ hX) hm' hcm hx hxr).exactEvent_eq _
  · refine (sameSweep_of_idle hX ⟨?_, hopen, ?_, hbank⟩ hmark).exactEvent_eq _ <;> rw [hseed]
  · -- both leave the record on-CPU: the window for want of a marker, the stream inside the command
    obtain ⟨hs, -⟩ := unseen_after cat (seedTable seeds) (p := r.pid) hX hno
      (by rw [hseed]; exact ⟨rfl, rfl, rfl⟩)
    obtain ⟨hs', ho', hlast⟩ := open_after cat (sweepAfter cat (fun _ => {}) P)
      hX hno (seen_of_open hP hopen) hopen
    obtain ⟨hb', ha'⟩ := hlast _ (List.getLast?_eq_some_getLast hx)
    have hsplit : W = W.take i ++ r :: W.drop (i + 1) := by
      obtain ⟨hi, hget⟩ := List.getElem?_eq_some_iff.mp hr
      rw [← hget, List.cons_getElem_drop_succ, List.take_append_drop]
    have hstart : ((pidRecords r.pid (W.take i)).getLast hx).ts + r.dur = r.ts := by
      have hchain := htile r.pid
      rw [hsplit] at hchain
      have hrecs : pidRecords r.pid (P ++ (W.take i ++ r :: W.drop (i + 1))) =
          (pidRecords r.pid P ++ (pidRecords r.pid (W.take i)).dropLast) ++
            (pidRecords r.pid (W.take i)).getLast hx :: r :: pidRecords r.pid (W.drop (i + 1)) := by
        have hcons : pidRecords r.pid (r :: W.drop (i + 1)) =
            r :: pidRecords r.pid (W.drop (i + 1)) :=
          List.filter_cons_of_pos (by simp [hm])
        have happ : ∀ l l', pidRecords r.pid (l ++ l') = pidRecords r.pid l ++ pidRecords r.pid l' :=
          fun l l' => List.filter_append ..
        rw [happ, happ, hcons]
        nth_rewrite 1 [← List.dropLast_append_getLast hx]
        simp
      rw [hrecs] at hchain
      exact (List.isChain_append_cons_cons.mp hchain).2.1.symm
    have ht0 : ((pidRecords r.pid (W.take i)).getLast hx).timestampNs = r.t0 := by
      have hsub : r.t0.toNat = r.ts - r.dur :=
        UInt64.toNat_sub_of_le _ _ (UInt64.le_iff_toNat_le.mpr hdur)
      rw [← UInt64.toNat_inj, hsub, ← hstart]
      exact (Nat.add_sub_cancel ..).symm
    rw [TagPidState.exactEvent, if_neg (by simp [hs]), TagPidState.exactEvent, if_pos hs',
      inCmd_of_anchor ho' hb' (ha'.trans ht0) hdur hlt]
    simp [relabel]

end Window

/-- **The labels of a window.** Of a time-ordered stream of exact records and markers in which the
records of every process tile its timeline, tag the records from a left edge on, with any seeds. A
settled record leaves with the event it leaves with when the whole stream is tagged; and a record
before which the window has no command marker of its process keeps its event. -/
theorem window_oldEvent_eq (mask : UInt32) (cat : UInt32 → PidCategory) (S : List TraceEvent)
    (hord : S.Pairwise fun a b => a.ts ≤ b.ts) (hexact : ExactOnly S)
    (hdur : ∀ ev ∈ S, isMarker ev.oldEvent = false → ev.dur ≤ ev.ts) (htile : Tiles S) (fromNs : ℕ)
    (seeds : List QidSeed) (i : ℕ) (r : TraceEvent)
    (hr : (S.filter fun ev => fromNs ≤ ev.ts)[i]? = some r) (hm : isMarker r.oldEvent = false) :
    let P := S.filter fun ev => ev.ts < fromNs
    let W := S.filter fun ev => fromNs ≤ ev.ts
    let window := (tagEventsWindowSeeded mask cat 0 seeds W).map TraceEvent.oldEvent
    let whole := (tagEvents mask cat S).map TraceEvent.oldEvent
    (EdgeSettled cat (sweepAfter cat (fun _ => {}) P r.pid) P (W.take i) r →
      window[i]? = whole[P.length + i]?) ∧
    ((∀ m ∈ W.take i, m.pid = r.pid → isCmdMarker m.oldEvent = false) →
      window[i]? = some r.oldEvent) := by
  intro P W window whole
  have hsplit : S = P ++ W := filter_append_filter hord fromNs
  have hP : ExactOnly P := hexact.mono fun ev => List.mem_of_mem_filter
  have hW : ExactOnly W := hexact.mono fun ev => List.mem_of_mem_filter
  have hmem : r ∈ S := List.mem_of_mem_filter (List.mem_of_getElem? hr)
  have hwindow : window[i]? =
      some ((sweepAfter cat (seedTable seeds) (W.take i) r.pid).exactEvent (cat r.pid) r) := by
    rw [← getElem?_tagForward hW _ hr hm]
    exact congrArg (·[i]?) (map_tagEventsWindowSeeded id mask cat 0 seeds W)
  have hwhole : whole[P.length + i]? = some ((sweepAfter cat (sweepAfter cat (fun _ => {}) P)
      (W.take i) r.pid).exactEvent (cat r.pid) r) := by
    have hlabels : whole = (tagForward cat 0 (fun _ => {}) (P ++ W)).map fun x => x.1.oldEvent := by
      rw [← hsplit]
      exact map_tagEventsWindowSeeded id mask cat 0 [] S
    rw [hlabels, tagForward, Keyed.pass_append, List.map_append,
      List.getElem?_append_right (by simp), ← getElem?_tagForward hW _ hr hm]
    simp [tagForward, sweepAfter]
  refine ⟨fun h => ?_, fun hno => ?_⟩
  · rw [hwindow, hwhole, exactEvent_of_settled hP hW (hsplit ▸ htile) (hdur r hmem hm) hr hm seeds h]
  · obtain ⟨q, hseed⟩ := seedTable_eq seeds r.pid
    obtain ⟨hs, -⟩ := unseen_after cat (seedTable seeds) (p := r.pid)
      (hW.mono (List.take_subset _ _)) hno (by rw [hseed]; exact ⟨rfl, rfl, rfl⟩)
    rw [hwindow, TagPidState.exactEvent, if_neg (by simp [hs])]

/-- A command that ends at 20, with a run of 10 ns after it, and a second command. -/
def runAfterCommand : List TraceEvent :=
  [markerAt markerCmdStart 5 0, recordAt 0 20 20 0, markerAt markerCmdEnd 20 0, recordAt 0 30 10 0,
    markerAt markerCmdStart 31 0, recordAt 0 40 10 0, markerAt markerCmdEnd 41 0, recordAt 0 60 20 0]

theorem tiles_runAfterCommand : Tiles runAfterCommand := by
  intro p
  by_cases hp : p = 7
  · subst hp
    decide
  · have : pidRecords p runAfterCommand = [] := by
      simp [pidRecords, runAfterCommand, markerAt, recordAt, Ne.symm hp]
    rw [this]
    exact .nil

/-- The window from 25 on: its last run lies after the second command in both passes. -/
theorem window_oldEvent_eq_runAfterCommand :
    ((tagEventsWindowSeeded 0 (fun _ => .foreground) 0 []
        (runAfterCommand.filter fun ev => 25 ≤ ev.ts)).map TraceEvent.oldEvent)[4]? =
      ((tagEvents 0 (fun _ => .foreground) runAfterCommand).map TraceEvent.oldEvent)[7]? ∧
    ((tagEvents 0 (fun _ => .foreground) runAfterCommand).map TraceEvent.oldEvent)[7]? =
      some weiNoncmdCpu :=
  ⟨(window_oldEvent_eq 0 (fun _ => .foreground) runAfterCommand (by decide) (by decide) (by decide)
    tiles_runAfterCommand 25 [] 4 (recordAt 0 60 20 0) rfl rfl).1
      (.inside [recordAt 0 30 10 0] [] [markerAt markerCmdEnd 41 0] (markerAt markerCmdStart 31 0)
        (recordAt 0 40 10 0) rfl rfl rfl rfl rfl), by decide +kernel⟩

/-- The run after the first command is outside a command; a window that starts inside the run has no
marker to tell, and leaves it on-CPU. -/
theorem window_differs_runAfterCommand :
    runAfterCommand.Pairwise (fun a b => a.ts ≤ b.ts) ∧ ExactOnly runAfterCommand ∧
      (∀ ev ∈ runAfterCommand, ev.dur ≤ ev.ts) ∧ Tiles runAfterCommand ∧
      (runAfterCommand.filter fun ev => 25 ≤ ev.ts)[0]? = some (recordAt 0 30 10 0) ∧
      ((tagEvents 0 (fun _ => .foreground) runAfterCommand).map TraceEvent.oldEvent)[3]? =
        some weiNoncmdCpu ∧
      ((tagEventsWindowSeeded 0 (fun _ => .foreground) 0 []
        (runAfterCommand.filter fun ev => 25 ≤ ev.ts)).map TraceEvent.oldEvent)[0]? = some 0 :=
  ⟨by decide, by decide, by decide, tiles_runAfterCommand, rfl, by decide +kernel,
    by decide +kernel⟩

end PgWaitTracer
