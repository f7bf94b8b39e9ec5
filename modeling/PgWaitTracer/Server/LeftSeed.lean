import PgWaitTracer.Compute.TagWindow

/-!
# Seeds for the left edge

A record that straddles the left edge of a window arrives, but the marker that reported the query id
of its command does not. Before it tags a window the loader therefore looks for the processes whose
first query-less record comes before anything in the window decides their id
(`left_seed_find_needy`, `src/server.c`), replays the markers before the edge for them
(`left_seed_resolve`) and seeds the tagging pass with the ids it finds.

The replay sees markers only. The tagging pass also learns an id from a record that carries one, and
forgets it at a record that closes an exiting process. Where the last report before the edge was of
that kind, the seed is stale.

The look-back horizon is taken to reach the start of the capture; allocation and loading are taken to
succeed.

## Main results

* `leftSeed_attribution_iff`: where the left edge moves no label, seeding gives every
  client record the id of the whole stream or none exactly when no record is given a stale seed.
-/

namespace PgWaitTracer

/-! ### The scan and the replay -/

/-- `struct left_needy`. -/
structure LeftNeedy where
  qid : UInt64 := 0
  closed : Bool := false
  needy : Bool := false
  deriving DecidableEq, Repr

/-- Does a marker decide the id of the command. The source asks the marker rule with two sentinels. -/
def decidesQid (marker : UInt32) (queryId : UInt64) : Bool :=
  qidMarkerStep marker queryId 1 ≠ 1 || qidMarkerStep marker queryId 2 ≠ 2

/-- `left_seed_find_needy`, one event of the process. -/
def LeftNeedy.scan (e : LeftNeedy) (ev : TraceEvent) : LeftNeedy :=
  if e.closed then e
  else if isMarker ev.oldEvent then
    if decidesQid ev.oldEvent ev.queryId then { e with closed := true } else e
  else if ev.queryId ≠ 0 then { e with closed := true }
  else if ev.isSample ∧
      isSessionIdleEvent (if ev.newEvent ≠ 0 then ev.newEvent else ev.oldEvent) then
    { e with closed := true }
  else { e with needy := true, closed := true }

/-- `left_seed_find_needy`. -/
def leftSeedFindNeedy (events : List TraceEvent) : UInt32 → LeftNeedy :=
  Keyed.after TraceEvent.pid (fun e ev => (e.scan ev, ())) (fun _ => {}) events

/-- `left_seed_resolve`, one marker of the process. -/
def LeftNeedy.replay (e : LeftNeedy) (ev : TraceEvent) : LeftNeedy :=
  if isMarker ev.oldEvent ∧ e.needy then
    { e with qid := qidMarkerStep ev.oldEvent ev.queryId e.qid }
  else e

/-- `left_seed_resolve` over the markers before the left edge. -/
def leftSeedResolve (t : UInt32 → LeftNeedy) (markers : List TraceEvent) : UInt32 → LeftNeedy :=
  Keyed.after TraceEvent.pid (fun e ev => (e.replay ev, ())) t markers

/-- The seeds of a window: one for every needy process with an id. -/
def leftSeeds (before window : List TraceEvent) : List QidSeed :=
  let t := leftSeedResolve (leftSeedFindNeedy window)
    (before.filter fun ev => isMarker ev.oldEvent)
  (window.map TraceEvent.pid).dedup.filterMap fun p =>
    if (t p).needy ∧ (t p).qid ≠ 0 then some ⟨p, (t p).qid⟩ else none

/-! ### What an event does to the id of its command -/

/-- The id of a command after an event, in the whole stream. -/
def reportStep (q : UInt64) (ev : TraceEvent) : UInt64 :=
  if isMarker ev.oldEvent then qidMarkerStep ev.oldEvent ev.queryId q
  else if ev.newEvent = eventExit then 0
  else if ev.queryId ≠ 0 then ev.queryId
  else q

/-- The last id that a process reported, in markers and in records, since it last forgot it. -/
def reportedQid (evs : List TraceEvent) (p : UInt32) : UInt64 :=
  (evs.filter fun ev => ev.pid = p).foldl reportStep 0

/-- The same from the markers alone. -/
def markerQid (evs : List TraceEvent) (p : UInt32) : UInt64 :=
  (evs.filter fun ev => ev.pid = p && isMarker ev.oldEvent).foldl reportStep 0

/-- Does an event decide the id of its command, whatever it was. -/
def decides (ev : TraceEvent) : Bool :=
  if isMarker ev.oldEvent then decidesQid ev.oldEvent ev.queryId
  else ev.newEvent = eventExit || ev.queryId ≠ 0

theorem qidMarkerStep_cases (m : UInt32) (q : UInt64) :
    if decidesQid m q then ∀ a b, qidMarkerStep m q a = qidMarkerStep m q b
    else ∀ a, qidMarkerStep m q a = a := by
  unfold decidesQid qidMarkerStep
  by_cases h1 : m = markerCmdStart
  · simp [h1]
  · by_cases h2 : m ≠ markerEscalateStart ∧ m ≠ markerEscalateEnd ∧ q ≠ 0
    · have : q ≠ 1 ∨ q ≠ 2 := by
        by_contra h
        push Not at h
        exact absurd (h.1.symm.trans h.2) (by decide)
      simp only [h1, h2, if_false, and_self, ne_eq]
      rcases this with h | h <;> simp [h]
    · simp [h1, h2]

variable {ev : TraceEvent}

theorem reportStep_of_decides (h : decides ev = true) (a b : UInt64) :
    reportStep a ev = reportStep b ev := by
  unfold decides at h
  unfold reportStep
  split_ifs at h ⊢ with hm hx hq
  · have := qidMarkerStep_cases ev.oldEvent ev.queryId
    rw [if_pos h] at this
    exact this a b
  · rfl
  · rfl
  · simp [hx, hq] at h

theorem reportStep_of_not_decides (h : decides ev = false) (a : UInt64) : reportStep a ev = a := by
  unfold decides at h
  unfold reportStep
  split_ifs at h ⊢ with hm hx hq
  · have := qidMarkerStep_cases ev.oldEvent ev.queryId
    rw [if_neg (by simp [h])] at this
    exact this a
  · simp [hx] at h
  · simp [hq] at h
  · rfl

theorem foldl_reportStep_of_decides {l : List TraceEvent} (h : ∃ ev ∈ l, decides ev = true)
    (a b : UInt64) : l.foldl reportStep a = l.foldl reportStep b := by
  obtain ⟨ev, hev, hd⟩ := h
  obtain ⟨A, C, rfl⟩ := List.append_of_mem hev
  rw [List.foldl_append, List.foldl_append, List.foldl_cons, List.foldl_cons,
    reportStep_of_decides hd]

theorem foldl_reportStep_of_not_decides {l : List TraceEvent} (h : ∀ ev ∈ l, decides ev = false)
    (a : UInt64) : l.foldl reportStep a = a := by
  induction l with
  | nil => rfl
  | cons ev l ih =>
    rw [List.foldl_cons, reportStep_of_not_decides (h ev List.mem_cons_self)]
    exact ih fun e he => h e (List.mem_cons_of_mem _ he)

variable {cat : UInt32 → PidCategory} {evs : List TraceEvent} {p : UInt32}

theorem cmdQid_tagForwardStep (hs : isMarker ev.oldEvent = false → ev.isSample = false)
    (t : TagPidState) : (tagForwardStep cat 0 t ev).1.cmdQid = reportStep t.cmdQid ev := by
  cases hm : isMarker ev.oldEvent
  · obtain ⟨ev', hstep, -⟩ := tagForwardStep_exact cat t hm (hs hm)
    rw [hstep, TagPidState.cmdQid_afterExact, TagPidState.recordQid, reportStep, hs hm]
    simp [hm]
  · rw [tagForwardStep_marker hm, TagPidState.cmdQid_marker, reportStep, if_pos hm]

theorem cmdQid_sweepAfter (hexact : ExactOnly evs) (tbl : UInt32 → TagPidState) :
    (sweepAfter cat tbl evs p).cmdQid =
      (evs.filter fun ev => ev.pid = p).foldl reportStep (tbl p).cmdQid := by
  have h := Keyed.after_rel (fun (t : TagPidState) (q : UInt64) => t.cmdQid = q)
    TraceEvent.pid (tagForwardStep cat 0) (fun q ev => (reportStep q ev, ())) tbl
    (fun p => (tbl p).cmdQid) (k := p) evs
    (fun ev hev _ s t hst => by rw [cmdQid_tagForwardStep (hexact ev hev), hst]) rfl
  rw [sweepAfter, h, Keyed.after_eq_foldl]

/-! ### What the seeds are -/

theorem needy_replay (e : LeftNeedy) (ev : TraceEvent) : (e.replay ev).needy = e.needy := by
  rw [LeftNeedy.replay]
  split_ifs <;> rfl

theorem qid_scan (e : LeftNeedy) (ev : TraceEvent) : (e.scan ev).qid = e.qid := by
  rw [LeftNeedy.scan]
  split_ifs <;> rfl

/-- The replay gives a needy process the id of its markers. -/
theorem leftSeedResolve_eq (before window : List TraceEvent) (p : UInt32) :
    let t := leftSeedResolve (leftSeedFindNeedy window)
      (before.filter fun ev => isMarker ev.oldEvent)
    (t p).needy = (leftSeedFindNeedy window p).needy ∧
      (t p).qid = if (leftSeedFindNeedy window p).needy then markerQid before p else 0 := by
  intro t
  have hqid : (leftSeedFindNeedy window p).qid = 0 :=
    Keyed.after_rel (fun (e : LeftNeedy) _ => e.qid = 0) _ _ (fun (_ : Unit) (_ : TraceEvent) => ((), ())) _
      (fun _ => ()) window (fun ev _ _ s _ h => (qid_scan s ev).trans h) rfl
  have hfold : ∀ (l : List TraceEvent) (e : LeftNeedy), (∀ ev ∈ l, isMarker ev.oldEvent = true) →
      (l.foldl LeftNeedy.replay e).needy = e.needy ∧ (l.foldl LeftNeedy.replay e).qid =
        if e.needy then l.foldl reportStep e.qid else e.qid := by
    intro l
    induction l with
    | nil => exact fun e _ => ⟨rfl, by simp⟩
    | cons ev l ih =>
      intro e hl
      obtain ⟨hn, hq⟩ := ih (e.replay ev) fun x hx => hl x (List.mem_cons_of_mem _ hx)
      refine ⟨hn.trans (needy_replay e ev), ?_⟩
      rw [List.foldl_cons, hq, needy_replay, List.foldl_cons, LeftNeedy.replay, reportStep,
        if_pos (hl ev List.mem_cons_self)]
      cases hneedy : e.needy <;> simp [hl ev List.mem_cons_self]
  have ht : t p = ((before.filter fun ev => isMarker ev.oldEvent).filter fun ev => ev.pid = p).foldl
      LeftNeedy.replay (leftSeedFindNeedy window p) := Keyed.after_eq_foldl ..
  have hmarkers : (before.filter fun ev => isMarker ev.oldEvent).filter (fun ev => ev.pid = p) =
      before.filter fun ev => ev.pid = p && isMarker ev.oldEvent := List.filter_filter ..
  obtain ⟨hn, hq⟩ := hfold _ (leftSeedFindNeedy window p) fun ev hev =>
    (List.mem_filter.mp (List.mem_filter.mp hev).1).2
  rw [hmarkers] at ht hn hq
  rw [ht]
  exact ⟨hn, hq.trans (by rw [hqid]; rfl)⟩

theorem mem_of_needy {window : List TraceEvent} (h : (leftSeedFindNeedy window p).needy = true) :
    p ∈ (window.map TraceEvent.pid).dedup := by
  by_contra hn
  rw [List.mem_dedup, List.mem_map] at hn
  push Not at hn
  have hnil : window.filter (fun ev => ev.pid = p) = [] := by
    rw [List.filter_eq_nil_iff]
    exact fun ev hev => by simpa using hn ev hev
  rw [leftSeedFindNeedy, Keyed.after_eq_foldl, hnil] at h
  cases h

/-- **The seed of a process**: the id of its markers before the edge if it is needy, else none. -/
theorem cmdQid_seedTable (before window : List TraceEvent) (p : UInt32) :
    (seedTable (leftSeeds before window) p).cmdQid =
      if (leftSeedFindNeedy window p).needy then markerQid before p else 0 := by
  obtain ⟨hn, hq⟩ := leftSeedResolve_eq before window p
  have hinstall : ∀ (l : List UInt32) (f : UInt32 → LeftNeedy) (tbl : UInt32 → TagPidState),
      ((l.filterMap fun p => if (f p).needy ∧ (f p).qid ≠ 0 then some (QidSeed.mk p (f p).qid)
        else none).foldl installSeed tbl p).cmdQid =
      if p ∈ l ∧ (f p).needy ∧ (f p).qid ≠ 0 then (f p).qid else (tbl p).cmdQid := by
    intro l f
    induction l with
    | nil => simp
    | cons p' l ih =>
      intro tbl
      by_cases hs : (f p').needy ∧ (f p').qid ≠ 0
      · rw [List.filterMap_cons, if_pos hs, List.foldl_cons, ih, installSeed, if_neg hs.2]
        by_cases hp : p = p'
        · subst hp
          simp [hs]
        · simp [hp]
      · rw [List.filterMap_cons, if_neg hs, ih]
        by_cases hp : p = p'
        · subst hp
          simp [hs]
        · simp [hp]
  rw [seedTable, leftSeeds, hinstall, hn, hq]
  cases hneedy : (leftSeedFindNeedy window p).needy
  · simp
  · simp only [mem_of_needy hneedy, true_and, if_true]
    split_ifs with h0
    · rfl
    · exact (not_not.mp h0).symm

/-! ### Which processes are needy -/

theorem foldl_scan_of_closed {e : LeftNeedy} (h : e.closed = true) (l : List TraceEvent) :
    l.foldl LeftNeedy.scan e = e := by
  induction l with
  | nil => rfl
  | cons ev l ih => rw [List.foldl_cons, LeftNeedy.scan, if_pos h, ih]

/-- A query-less exact record that comes before anything decides the id of its process makes the
process needy. -/
theorem needy_of_undecided {X Y : List TraceEvent} {r : TraceEvent}
    (hexact : ExactOnly (X ++ r :: Y)) (hm : isMarker r.oldEvent = false) (hq : r.queryId = 0)
    (hno : ∀ ev ∈ X, ev.pid = r.pid → decides ev = false) :
    (leftSeedFindNeedy (X ++ r :: Y) r.pid).needy = true := by
  have hfold : leftSeedFindNeedy (X ++ r :: Y) r.pid =
      ((X ++ r :: Y).filter fun ev => ev.pid = r.pid).foldl LeftNeedy.scan {} :=
    Keyed.after_eq_foldl ..
  have hsample : r.isSample = false := hexact r (by simp) hm
  have hX : ∀ l : List TraceEvent, (∀ ev ∈ l, ev ∈ X ∧ ev.pid = r.pid) →
      let e := l.foldl LeftNeedy.scan {}
      e = {} ∨ e.needy = true ∧ e.closed = true := by
    intro l
    induction l using List.reverseRecOn with
    | nil => exact fun _ => Or.inl rfl
    | append_singleton l ev ih =>
      intro hl
      obtain ⟨hmem, hpid⟩ := hl ev (by simp)
      have hd := hno ev hmem hpid
      rw [List.foldl_append, List.foldl_cons, List.foldl_nil]
      rcases ih fun x hx => hl x (List.mem_append_left _ hx) with h | ⟨hn, hc⟩
      · rw [h, LeftNeedy.scan, if_neg (by decide)]
        unfold decides at hd
        cases hmk : isMarker ev.oldEvent
        · have hs : ev.isSample = false := hexact ev (List.mem_append_left _ hmem) hmk
          simp only [hmk, Bool.false_eq_true, if_false, Bool.or_eq_false_iff,
            decide_eq_false_iff_not, not_not] at hd
          simp [hd.2, hs]
        · rw [if_pos hmk] at hd
          simp [hd]
      · rw [LeftNeedy.scan, if_pos hc]
        exact Or.inr ⟨hn, hc⟩
  rw [hfold, List.filter_append, List.filter_cons_of_pos (by simp), List.foldl_append,
    List.foldl_cons]
  rcases hX (X.filter fun ev => ev.pid = r.pid) fun ev hev =>
    ⟨List.mem_of_mem_filter hev, by simpa using (List.mem_filter.mp hev).2⟩ with h | ⟨hn, hc⟩
  · have hr : LeftNeedy.scan {} r = ⟨0, true, true⟩ := by
      simp [LeftNeedy.scan, hm, hq, hsample]
    rw [h, hr, foldl_scan_of_closed rfl]
  · rw [LeftNeedy.scan, if_pos hc, foldl_scan_of_closed hc, hn]

/-! ### The attribution of a client record -/

/-- The id that a client record leaves with, and whether it is flagged as unattributed. -/
theorem backfillRecord_client (mask : UInt32) (n fwd : UInt64) (hs : ev.isSample = false)
    (hu : ev.flags &&& flagQueryUnattrib = 0) :
    let q := resolveQid (if ev.newEvent = eventExit then 0 else n) fwd
    let w := (backfillRecord mask .foreground n ev fwd).2
    (ev.queryId ≠ 0 ∨ isSessionIdleEvent ev.oldEvent = true →
      w.queryId = ev.queryId ∧ w.flags &&& flagQueryUnattrib = 0) ∧
    (ev.queryId = 0 → isSessionIdleEvent ev.oldEvent = false →
      w.queryId = q ∧ (w.flags &&& flagQueryUnattrib ≠ 0 ↔ q = 0)) := by
  intro q w
  have hwe : ev.we = ev.oldEvent := by simp [TraceEvent.we, hs]
  refine ⟨fun h => ?_, fun hq hidle => ?_⟩
  · have hw : w = ev := by
      simp only [w, backfillRecord, hwe]
      by_cases hq : ev.queryId ≠ 0
      · rw [if_pos hq]
      · rw [if_neg hq, if_pos (h.resolve_left hq)]
    rw [hw]
    exact ⟨rfl, hu⟩
  · have hw : w = attributeRecord (if ev.newEvent = eventExit then 0 else n) fwd ev := by
      simp only [w, backfillRecord, hwe, hq, hidle]
      rfl
    rw [hw, attributeRecord]
    by_cases h0 : q = 0
    · rw [if_neg (not_not.mpr h0)]
      exact ⟨hq.trans h0.symm, iff_of_true (flags_or_unattrib_ne_zero _) h0⟩
    · rw [if_pos h0]
      refine ⟨rfl, iff_of_false (not_not.mpr ?_) h0⟩
      change (ev.flags ||| flagQueryBackfill) &&& flagQueryUnattrib = 0
      rw [UInt32.or_and_distrib, hu]
      rfl

/-- The left edge moves no label: the sweep of the window and the sweep of the whole stream decide
alike on every record. -/
def LabelsAgree (cat : UInt32 → PidCategory) (P W : List TraceEvent) (seeds : List QidSeed) : Prop :=
  ∀ i r, W[i]? = some r → isMarker r.oldEvent = false →
    (sweepAfter cat (seedTable seeds) (W.take i) r.pid).exactEvent (cat r.pid) r =
      (sweepAfter cat (sweepAfter cat (fun _ => {}) P) (W.take i) r.pid).exactEvent (cat r.pid) r

/-- The id that the events after position `i` of the window report back to a process. -/
def laterQid (mask : UInt32) (cat : UInt32 → PidCategory) (tbl : UInt32 → TagPidState)
    (W : List TraceEvent) (i : ℕ) (p : UInt32) : UInt64 :=
  (tagBackward mask cat ((tagForward cat 0 tbl W).drop (i + 1))).1 p

/-- A stale seed is given to record `r` at position `i` of the window: a client record without an
id, no id reported later in its command, nothing in the window before it that decides the id of its
process, and the markers before the edge tell another id than the last report did. -/
structure StaleSeedAt (mask : UInt32) (cat : UInt32 → PidCategory) (P W : List TraceEvent) (i : ℕ)
    (r : TraceEvent) : Prop where
  record : isMarker r.oldEvent = false
  client : cat r.pid = .foreground
  noId : r.queryId = 0
  active : isSessionIdleEvent ((sweepAfter cat (sweepAfter cat (fun _ => {}) P) (W.take i)
    r.pid).exactEvent (cat r.pid) r) = false
  unresolved : r.newEvent = eventExit ∨
    laterQid mask cat (sweepAfter cat (fun _ => {}) P) W i r.pid = 0
  undecided : ∀ ev ∈ W.take i, ev.pid = r.pid → decides ev = false
  seeded : markerQid P r.pid ≠ 0
  stale : markerQid P r.pid ≠ reportedQid P r.pid

theorem getElem?_tagBackward (mask : UInt32) {W : List TraceEvent} (hW : ExactOnly W)
    (hraw : ∀ ev ∈ W, ev.flags &&& flagQueryUnattrib = 0) (tbl : UInt32 → TagPidState) {i : ℕ}
    {r : TraceEvent} (hr : W[i]? = some r) (hm : isMarker r.oldEvent = false)
    (hc : cat r.pid = .foreground) :
    ∃ ev', (tagBackward mask cat (tagForward cat 0 tbl W)).2[i]? =
        some (backfillRecord mask .foreground (laterQid mask cat tbl W i r.pid) ev'
          (sweepAfter cat tbl (W.take i) r.pid).cmdQid).2 ∧
      ev'.oldEvent = (sweepAfter cat tbl (W.take i) r.pid).exactEvent (cat r.pid) r ∧
      ev'.newEvent = r.newEvent ∧ ev'.queryId = r.queryId ∧ ev'.isSample = false ∧
      ev'.flags &&& flagQueryUnattrib = 0 := by
  have hmem := List.mem_of_getElem? hr
  obtain ⟨ev', hstep, hold, hpid, hnew, hq, hs, hu⟩ := tagForwardStep_exact cat
    (sweepAfter cat tbl (W.take i) r.pid) hm (hW r hmem hm)
  have hm' : isMarker ev'.oldEvent = false := hold ▸ TagPidState.isMarker_exactEvent hm
  have hget : (tagForward cat 0 tbl W)[i]? =
      some (ev', (sweepAfter cat tbl (W.take i) r.pid).cmdQid) := by
    rw [tagForward, Keyed.getElem?_pass, hr]
    exact congrArg some (congrArg Prod.snd hstep)
  refine ⟨ev', ?_, hold, hnew, hq, hs, hu.trans (hraw r hmem)⟩
  rw [tagBackward, Keyed.getElem?_passBack, hget]
  simp only [Option.map_some, tagBackwardStep, hm', Bool.false_eq_true, if_false, hpid, hc]
  rfl

theorem tagBackwardStep_carry_congr {mask : UInt32} {x y : TraceEvent × UInt64}
    (hold : x.1.oldEvent = y.1.oldEvent) (hpid : x.1.pid = y.1.pid)
    (hnew : x.1.newEvent = y.1.newEvent) (hq : x.1.queryId = y.1.queryId)
    (hs : isMarker x.1.oldEvent = false → x.1.isSample = y.1.isSample) (n : UInt64) :
    (tagBackwardStep mask cat n x).1 = (tagBackwardStep mask cat n y).1 := by
  rw [tagBackwardStep, tagBackwardStep]
  cases hm : isMarker x.1.oldEvent
  · have hwe : x.1.we = y.1.we := by rw [TraceEvent.we, TraceEvent.we, hs hm, hnew, hold]
    simp only [hm, ← hold, Bool.false_eq_true, if_false, backfillRecord, hpid, hnew, hq, hwe]
    split_ifs <;> rfl
  · simp only [hm, ← hold, if_true, hq]

/-- Where the labels agree, both passes carry the same ids back. -/
theorem laterQid_eq {mask : UInt32} {P W : List TraceEvent} (hW : ExactOnly W)
    {seeds : List QidSeed} (hlabels : LabelsAgree cat P W seeds) (i : ℕ) (p : UInt32) :
    laterQid mask cat (seedTable seeds) W i p =
      laterQid mask cat (sweepAfter cat (fun _ => {}) P) W i p := by
  have hall : List.Forall₂ (fun x y : TraceEvent × UInt64 => x.1.pid = y.1.pid ∧
      ∀ n, (tagBackwardStep mask cat n x).1 = (tagBackwardStep mask cat n y).1)
      (tagForward cat 0 (seedTable seeds) W)
      (tagForward cat 0 (sweepAfter cat (fun _ => {}) P) W) := by
    refine List.forall₂_of_length_eq_of_get (by simp [tagForward]) fun j h₁ h₂ => ?_
    have hj : j < W.length := by simpa [tagForward] using h₁
    have hr : W[j]? = some W[j] := List.getElem?_eq_getElem hj
    have hget : ∀ (tbl : UInt32 → TagPidState) (h : j < (tagForward cat 0 tbl W).length),
        (tagForward cat 0 tbl W).get ⟨j, h⟩ =
          (tagForwardStep cat 0 (sweepAfter cat tbl (W.take j) W[j].pid) W[j]).2 := by
      intro tbl h
      refine Option.some_inj.mp ((List.getElem?_eq_getElem h).symm.trans ?_)
      rw [tagForward, Keyed.getElem?_pass, hr]
      rfl
    rw [hget _ h₁, hget _ h₂]
    cases hm : isMarker W[j].oldEvent
    · have hs := hW _ (List.getElem_mem hj) hm
      obtain ⟨x, hx, hxo, hxp, hxn, hxq, hxs, -⟩ := tagForwardStep_exact cat
        (sweepAfter cat (seedTable seeds) (W.take j) W[j].pid) hm hs
      obtain ⟨y, hy, hyo, hyp, hyn, hyq, hys, -⟩ := tagForwardStep_exact cat
        (sweepAfter cat (sweepAfter cat (fun _ => {}) P) (W.take j) W[j].pid) hm hs
      rw [hx, hy]
      exact ⟨hxp.trans hyp.symm, tagBackwardStep_carry_congr
        (hxo.trans ((hlabels j _ hr hm).trans hyo.symm)) (hxp.trans hyp.symm) (hxn.trans hyn.symm)
        (hxq.trans hyq.symm) fun _ => hxs.trans hys.symm⟩
    · rw [tagForwardStep_marker hm, tagForwardStep_marker hm]
      exact ⟨rfl, fun _ => rfl⟩
  rw [laterQid, laterQid, tagBackward, tagBackward,
    Keyed.passBack_congr (List.forall₂_drop (i + 1) hall)]

/-- The two passes give a client record the same id, or none in the window, unless the record is
given a stale seed. -/
theorem attribution_iff {mask : UInt32} {P W : List TraceEvent} (hP : ExactOnly P)
    (hW : ExactOnly W) (hraw : ∀ ev ∈ W, ev.flags &&& flagQueryUnattrib = 0)
    (hlabels : LabelsAgree cat P W (leftSeeds P W)) {i : ℕ} {r w f : TraceEvent}
    (hr : W[i]? = some r) (hm : isMarker r.oldEvent = false) (hc : cat r.pid = .foreground)
    (hw : (tagBackward mask cat (tagForward cat 0 (seedTable (leftSeeds P W)) W)).2[i]? = some w)
    (hf : (tagBackward mask cat (tagForward cat 0 (sweepAfter cat (fun _ => {}) P) W)).2[i]? =
      some f) :
    (w.queryId = f.queryId ∨ w.flags &&& flagQueryUnattrib ≠ 0) ↔
      ¬ StaleSeedAt mask cat P W i r := by
  obtain ⟨x, hx, hxo, hxn, hxq, hxs, hxu⟩ := getElem?_tagBackward mask hW hraw
    (seedTable (leftSeeds P W)) hr hm hc
  obtain ⟨y, hy, hyo, hyn, hyq, hys, hyu⟩ := getElem?_tagBackward mask hW hraw
    (sweepAfter cat (fun _ => {}) P) hr hm hc
  obtain rfl := Option.some_inj.mp (hw.symm.trans hx)
  obtain rfl := Option.some_inj.mp (hf.symm.trans hy)
  have hxy : x.oldEvent = y.oldEvent := hxo.trans ((hlabels i r hr hm).trans hyo.symm)
  obtain ⟨hxkeep, hxfill⟩ := backfillRecord_client mask
    (laterQid mask cat (seedTable (leftSeeds P W)) W i r.pid)
    ((sweepAfter cat (seedTable (leftSeeds P W)) (W.take i) r.pid).cmdQid) hxs hxu
  obtain ⟨hykeep, hyfill⟩ := backfillRecord_client mask
    (laterQid mask cat (sweepAfter cat (fun _ => {}) P) W i r.pid)
    ((sweepAfter cat (sweepAfter cat (fun _ => {}) P) (W.take i) r.pid).cmdQid) hys hyu
  by_cases hkeep : r.queryId ≠ 0 ∨ isSessionIdleEvent y.oldEvent = true
  · -- the record keeps what it carries in both passes
    have hnot : ¬ StaleSeedAt mask cat P W i r := by
      rintro ⟨-, -, hno, hactive, -⟩
      rw [← hyo] at hactive
      rcases hkeep with h | h
      · exact h hno
      · exact absurd h (by simp [hactive])
    refine iff_of_true (Or.inl ?_) hnot
    rw [(hxkeep (by rwa [hxq, hxy])).1, (hykeep (by rwa [hyq])).1, hxq, hyq]
  · rw [not_or, not_not, Bool.not_eq_true] at hkeep
    obtain ⟨hno, hactive⟩ := hkeep
    obtain ⟨hxid, hxflag⟩ := hxfill (hxq.trans hno) (hxy ▸ hactive)
    obtain ⟨hyid, -⟩ := hyfill (hyq.trans hno) hactive
    rw [hxid, hyid, hxflag, hxn, hyn, laterQid_eq hW hlabels]
    have hX : ExactOnly (W.take i) := hW.mono (List.take_subset _ _)
    have hedge : (sweepAfter cat (fun _ => {}) P r.pid).cmdQid = reportedQid P r.pid :=
      cmdQid_sweepAfter hP _
    rw [cmdQid_sweepAfter hX, cmdQid_sweepAfter hX, hedge, cmdQid_seedTable]
    by_cases hlater : r.newEvent = eventExit ∨
        laterQid mask cat (sweepAfter cat (fun _ => {}) P) W i r.pid = 0
    · have hn : (if r.newEvent = eventExit then 0
          else laterQid mask cat (sweepAfter cat (fun _ => {}) P) W i r.pid) = 0 := by
        rcases hlater with h | h <;> simp [h]
      rw [hn, resolveQid_zero, resolveQid_zero]
      by_cases hd : ∃ ev ∈ (W.take i).filter (fun ev => ev.pid = r.pid), decides ev = true
      · -- the window has decided the id by itself
        refine iff_of_true (Or.inl (foldl_reportStep_of_decides hd _ _)) ?_
        rintro ⟨-, -, -, -, -, hundecided, -, -⟩
        obtain ⟨ev, hev, hdec⟩ := hd
        rw [hundecided ev (List.mem_of_mem_filter hev)
          (by simpa using (List.mem_filter.mp hev).2)] at hdec
        cases hdec
      · have hundecided : ∀ ev ∈ W.take i, ev.pid = r.pid → decides ev = false := by
          intro ev hev hp
          by_contra hdec
          exact hd ⟨ev, List.mem_filter.mpr ⟨hev, by simpa using hp⟩, by simpa using hdec⟩
        have hnone : ∀ ev ∈ (W.take i).filter (fun ev => ev.pid = r.pid), decides ev = false :=
          fun ev hev => hundecided ev (List.mem_of_mem_filter hev)
            (by simpa using (List.mem_filter.mp hev).2)
        have hsplit : W = W.take i ++ r :: W.drop (i + 1) := by
          obtain ⟨hi, hget⟩ := List.getElem?_eq_some_iff.mp hr
          rw [← hget, List.cons_getElem_drop_succ, List.take_append_drop]
        have hneedy : (leftSeedFindNeedy W r.pid).needy = true := by
          have := needy_of_undecided (hsplit ▸ hW) hm hno hundecided
          rwa [← hsplit] at this
        rw [foldl_reportStep_of_not_decides hnone, foldl_reportStep_of_not_decides hnone,
          if_pos hneedy]
        refine ⟨fun h hstale => ?_, fun h => ?_⟩
        · rcases h with h | h
          · exact hstale.stale h
          · exact hstale.seeded h
        · by_contra hbad
          rw [not_or] at hbad
          exact h ⟨hm, hc, hno, hyo ▸ hactive, hlater, hundecided, hbad.2, hbad.1⟩
    · -- a later report outranks both
      rw [not_or] at hlater
      refine iff_of_true (Or.inl ?_) fun h => ?_
      · rw [if_neg hlater.1, resolveQid_of_ne hlater.2, resolveQid_of_ne hlater.2]
      · rcases h.unresolved with h | h
        · exact hlater.1 h
        · exact hlater.2 h

/-- A lock wait of a command that reported query 1, with the left edge at 30 inside the wait. -/
def straddlingWait : List TraceEvent :=
  [markerAt markerCmdStart 5 0, markerAt markerExecStart 10 1, recordAt 0 20 10 1,
    recordAt 0x03000000 50 30 0]

/-- A backend that reported query 1 exits, its process id is reused, and the new backend waits for a
lock across the left edge at 30. -/
def reusedPid : List TraceEvent :=
  [markerAt markerExecStart 10 1, { recordAt 0 20 10 0 with newEvent := eventExit },
    recordAt 0x03000000 50 10 0]

/-- A command whose marker reported query 1 and whose last record before the left edge carries
query 2. -/
def nestedQuery : List TraceEvent :=
  [markerAt markerExecStart 10 1, recordAt 0x0A000015 20 10 2, recordAt 0x03000000 50 30 0]

end PgWaitTracer
