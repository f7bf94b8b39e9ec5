import PgWaitTracer.Compute.Variants

/-!
# Loop compression

`compress_exec` (`src/compute.c`) folds the repetitions of a body at the front of what is left of a
phase to one mark with its body, or takes one wait as a step of its own, until the phase is consumed
or the pattern is full. The index that it keeps for every wait consumed says how often the loop at a
mark was repeated, and so the pattern and the indices hold the whole prefix.

## Main results

* `compresses_compressSteps`: the loop of `compress_exec`.
* `compressExec_spec`: nothing of the prefix is lost.
-/

namespace PgWaitTracer

/-! ### Expansion -/

/-- The waits that steps stand for, from step `i` on, when the loop at a step is repeated `reps`
times; at most `n` parts. -/
def expandSteps (reps : ℕ → ℕ) : ℕ → ℕ → List PatternStep → List UInt32
  | 0, _, _ => []
  | _ + 1, _, [] => []
  | n + 1, i, s :: ss =>
    if s.isLoop then
      (List.replicate (reps i) (((s :: ss).take s.loopLen).map PatternStep.eventId)).flatten ++
        expandSteps reps n (i + s.loopLen) ((s :: ss).drop s.loopLen)
    else s.eventId :: expandSteps reps n (i + 1) ss

/-- The waits that a pattern stands for. -/
def expandPattern (reps : ℕ → ℕ) (pattern : List PatternStep) : List UInt32 :=
  expandSteps reps pattern.length 0 pattern

/-- The steps of a loop: the first one has the mark. -/
def loopSteps (body : List UInt32) : List PatternStep :=
  body.zipIdx.map fun x => ⟨x.1, x.2 = 0, if x.2 = 0 then body.length else 0⟩

@[simp] theorem length_loopSteps (body : List UInt32) : (loopSteps body).length = body.length := by
  simp [loopSteps]

@[simp] theorem map_eventId_loopSteps (body : List UInt32) :
    (loopSteps body).map PatternStep.eventId = body := by
  rw [loopSteps, List.map_map]
  exact List.zipIdx_map_fst 0 body

theorem loopSteps_cons (e : UInt32) (body : List UInt32) :
    ∃ ss, loopSteps (e :: body) = ⟨e, true, body.length + 1⟩ :: ss := ⟨_, rfl⟩

theorem expandSteps_loop (reps : ℕ → ℕ) (n k : ℕ) (e : UInt32) (body : List UInt32)
    (ss : List PatternStep) : expandSteps reps (n + 1) k (loopSteps (e :: body) ++ ss) =
      (List.replicate (reps k) (e :: body)).flatten ++
        expandSteps reps n (k + (body.length + 1)) ss := by
  obtain ⟨tail, htail⟩ := loopSteps_cons e body
  have hsplit : ⟨e, true, body.length + 1⟩ :: (tail ++ ss) = loopSteps (e :: body) ++ ss := by
    rw [htail, List.cons_append]
  have htake : (loopSteps (e :: body) ++ ss).take (body.length + 1) = loopSteps (e :: body) :=
    List.take_left' (by simp)
  have hdrop : (loopSteps (e :: body) ++ ss).drop (body.length + 1) = ss :=
    List.drop_left' (by simp)
  rw [← hsplit, expandSteps, if_pos rfl, hsplit, htake, hdrop, map_eventId_loopSteps]

/-! ### Repetitions -/

theorem flatten_countReps (body : List UInt32) (n : ℕ) (l : List UInt32) :
    (List.replicate (countReps body n l) body).flatten = l.take (countReps body n l * body.length) ∧
      countReps body n l * body.length ≤ l.length := by
  induction n generalizing l with
  | zero => simp [countReps]
  | succ n ih =>
    rw [countReps]
    split_ifs with h
    · obtain ⟨rest, rfl⟩ := List.isPrefixOf_iff_prefix.mp h
      obtain ⟨htake, hle⟩ := ih rest
      rw [List.drop_left, List.replicate_succ, List.flatten_cons, htake, Nat.succ_mul,
        Nat.add_comm _ body.length, List.take_length_add_append, List.length_append]
      exact ⟨rfl, by omega⟩
    · simp

theorem detectLoop_spec {events : List UInt32} (h : 0 < detectLoop events) :
    detectLoop events ≤ events.length ∧
      2 ≤ countReps (events.take (detectLoop events)) events.length events := by
  rw [detectLoop] at h ⊢
  cases hfind : ((List.range (events.length / 2)).map (· + 1)).find? fun body =>
      2 ≤ countReps (events.take body) events.length events with
  | none => simp [hfind] at h
  | some body =>
    obtain ⟨i, hi, rfl⟩ := List.mem_map.mp (List.mem_of_find?_eq_some hfind)
    have hlt := List.mem_range.mp hi
    simp only [Option.getD_some]
    exact ⟨by omega, by simpa using List.find?_some hfind⟩

/-! ### Steps and indices -/

/-- The steps `ss` from number `k` on and the indices `is` are a compression of a prefix of `es`: it
is the whole list or the pattern is full, every index is the step of its wait, and the loops that
are repeated as often as their marks are indexed give the prefix back. -/
structure Compresses (k : ℕ) (es : List UInt32) (ss : List PatternStep) (is : List ℕ) : Prop where
  le : is.length ≤ es.length
  fits : k + ss.length ≤ maxVariantSteps
  whole : is.length = es.length ∨ k + ss.length = maxVariantSteps
  above : ∀ i ∈ is, k ≤ i
  index : (is.map fun i => (ss[i - k]?).map PatternStep.eventId) = (es.take is.length).map some
  expand : ∀ n reps, ss.length ≤ n → (∀ i, k ≤ i → reps i = is.count i) →
    expandSteps reps n k ss = es.take is.length

namespace Compresses

variable {k : ℕ} {es : List UInt32} {ss : List PatternStep} {is : List ℕ}

theorem nil (hk : k ≤ maxVariantSteps) (h : es = [] ∨ k = maxVariantSteps) :
    Compresses k es [] [] where
  le := Nat.zero_le _
  fits := hk
  whole := h.imp (fun h => (congrArg List.length h).symm) id
  above := nofun
  index := by simp
  expand n reps _ _ := by cases n <;> simp [expandSteps]

theorem count_eq_zero (h : Compresses k es ss is) {i : ℕ} (hi : i < k) : is.count i = 0 :=
  List.count_eq_zero.mpr fun hmem => absurd (h.above i hmem) (by omega)

theorem single (e : UInt32) (h : Compresses (k + 1) es ss is) :
    Compresses k (e :: es) (⟨e, false, 0⟩ :: ss) (k :: is) where
  le := Nat.succ_le_succ h.le
  fits := by
    have := h.fits
    rw [List.length_cons]
    omega
  whole := by
    have := h.whole
    rw [List.length_cons, List.length_cons, List.length_cons]
    omega
  above i hi := by
    rcases List.mem_cons.mp hi with rfl | hi
    · exact le_rfl
    · exact (Nat.le_succ k).trans (h.above i hi)
  index := by
    have hrest : (is.map fun i => ((⟨e, false, 0⟩ :: ss)[i - k]?).map PatternStep.eventId) =
        is.map fun i => (ss[i - (k + 1)]?).map PatternStep.eventId := by
      refine List.map_congr_left fun i hi => ?_
      have hlt := h.above i hi
      rw [show i - k = (i - (k + 1)) + 1 by omega, List.getElem?_cons_succ]
    rw [List.map_cons, hrest, h.index]
    simp
  expand n reps hn hreps := by
    obtain ⟨n, rfl⟩ : ∃ m, n = m + 1 := ⟨n - 1, by simp at hn; omega⟩
    rw [expandSteps, if_neg (by simp), List.length_cons, List.take_succ_cons,
      h.expand n reps (by simpa using hn) fun i hi => ?_]
    rw [hreps i (by omega), List.count_cons_of_ne (by omega)]

/-- A loop. -/
theorem loop {body : List UInt32} (hbody : body ≠ []) {r : ℕ}
    (h : Compresses (k + body.length) es ss is) :
    Compresses k ((List.replicate r body).flatten ++ es) (loopSteps body ++ ss)
      ((List.replicate r ((List.range body.length).map (k + ·))).flatten ++ is) := by
  have hlen : (List.replicate r ((List.range body.length).map (k + ·))).flatten.length =
      (List.replicate r body).flatten.length := by simp
  have htake : ((List.replicate r body).flatten ++ es).take
      ((List.replicate r ((List.range body.length).map (k + ·))).flatten ++ is).length =
        (List.replicate r body).flatten ++ es.take is.length := by
    rw [List.length_append, hlen, List.take_length_add_append]
  refine ⟨?_, ?_, ?_, fun i hi => ?_, ?_, fun n reps hn hreps => ?_⟩
  · have := h.le
    rw [List.length_append, List.length_append, hlen]
    omega
  · have := h.fits
    rw [List.length_append, length_loopSteps]
    omega
  · have := h.whole
    rw [List.length_append, List.length_append, List.length_append, hlen, length_loopSteps]
    omega
  · rcases List.mem_append.mp hi with hi | hi
    · obtain ⟨l, hl, hil⟩ := List.mem_flatten.mp hi
      rw [List.eq_of_mem_replicate hl] at hil
      obtain ⟨j, -, rfl⟩ := List.mem_map.mp hil
      exact Nat.le_add_right k j
    · exact (Nat.le_add_right k _).trans (h.above i hi)
  · have hloop : (((List.replicate r ((List.range body.length).map (k + ·))).flatten).map fun i =>
        ((loopSteps body ++ ss)[i - k]?).map PatternStep.eventId) =
          (List.replicate r body).flatten.map some := by
      rw [List.map_flatten, List.map_flatten, List.map_replicate, List.map_replicate, List.map_map]
      congr 2
      refine List.ext_getElem? fun i => ?_
      rw [List.getElem?_map, List.getElem?_map]
      by_cases hi : i < body.length
      · rw [List.getElem?_range hi, Option.map_some, Function.comp_apply, Nat.add_sub_cancel_left,
          List.getElem?_append_left (by simpa using hi), ← List.getElem?_map, map_eventId_loopSteps,
          List.getElem?_eq_getElem hi, Option.map_some]
      · rw [List.getElem?_eq_none (by simpa using hi), List.getElem?_eq_none (by simpa using hi)]
        rfl
    have hrest : (is.map fun i => ((loopSteps body ++ ss)[i - k]?).map PatternStep.eventId) =
        is.map fun i => (ss[i - (k + body.length)]?).map PatternStep.eventId := by
      refine List.map_congr_left fun i hi => ?_
      have hlt := h.above i hi
      rw [List.getElem?_append_right (by rw [length_loopSteps]; omega), length_loopSteps,
        Nat.sub_sub]
    rw [htake, List.map_append, List.map_append, hloop, hrest, h.index]
  · obtain ⟨e, body, rfl⟩ := List.exists_cons_of_ne_nil hbody
    obtain ⟨n, rfl⟩ : ∃ m, n = m + 1 := ⟨n - 1, by simp at hn; omega⟩
    have hcount : reps k = r := by
      have hnodup := (List.nodup_range (n := (e :: body).length)).map (add_right_injective k)
      have hone : ((List.range (e :: body).length).map (k + ·)).count k = 1 :=
        List.count_eq_one_of_mem hnodup (List.mem_map.mpr ⟨0, by simp, rfl⟩)
      rw [hreps k le_rfl, List.count_append, h.count_eq_zero (by simp), List.count_flatten,
        List.map_replicate, List.sum_replicate, hone, Nat.add_zero]
      exact Nat.mul_one r
    have hafter : ∀ i, k + (e :: body).length ≤ i → reps i = is.count i := by
      intro i hi
      rw [hreps i (by omega), List.count_append, List.count_eq_zero.mpr, Nat.zero_add]
      intro hmem
      obtain ⟨l, hl, hil⟩ := List.mem_flatten.mp hmem
      rw [List.eq_of_mem_replicate hl] at hil
      obtain ⟨j, hj, rfl⟩ := List.mem_map.mp hil
      have := List.mem_range.mp hj
      omega
    rw [htake, expandSteps_loop, hcount, ← List.length_cons,
      h.expand n reps (by simp at hn; omega) hafter]

end Compresses

/-! ### The loop of `compress_exec` -/

/-- **The loop of `compress_exec`** appends a compression of what is left. -/
theorem compresses_compressSteps (n : ℕ) (es : List UInt32) (steps : List PatternStep)
    (rawSteps : List ℕ) (hn : es.length ≤ n) (hk : steps.length ≤ maxVariantSteps) :
    ∃ ss is, compressSteps n es steps rawSteps = (steps ++ ss, rawSteps ++ is) ∧
      Compresses steps.length es ss is := by
  induction n generalizing es steps rawSteps with
  | zero =>
    obtain rfl : es = [] := List.length_eq_zero_iff.mp (by omega)
    exact ⟨[], [], by simp [compressSteps], .nil hk (Or.inl rfl)⟩
  | succ n ih =>
    cases es with
    | nil => exact ⟨[], [], by simp [compressSteps], .nil hk (Or.inl rfl)⟩
    | cons e es =>
      rw [compressSteps]
      by_cases hfull : maxVariantSteps ≤ steps.length
      · rw [if_pos hfull]
        exact ⟨[], [], by simp, .nil hk (Or.inr (le_antisymm hk hfull))⟩
      rw [if_neg hfull]
      by_cases hloop : 0 < detectLoop (e :: es) ∧
          steps.length + detectLoop (e :: es) < maxVariantSteps
      · rw [if_pos hloop]
        obtain ⟨hbody, htwice⟩ := detectLoop_spec hloop.1
        have hlen : ((e :: es).take (detectLoop (e :: es))).length = detectLoop (e :: es) := by
          rw [List.length_take, Nat.min_eq_left hbody]
        generalize (e :: es).take (detectLoop (e :: es)) = body at hlen htwice ⊢
        obtain ⟨hflat, hle⟩ := flatten_countReps body (e :: es).length (e :: es)
        rw [← hlen] at hloop ⊢
        generalize countReps body (e :: es).length (e :: es) = r at htwice hflat hle ⊢
        have hpos : 0 < r * body.length := Nat.mul_pos (by omega) hloop.1
        obtain ⟨ss, is, heq, h⟩ := ih ((e :: es).drop (r * body.length)) (steps ++ loopSteps body)
          (rawSteps ++ (List.replicate r ((List.range body.length).map (steps.length + ·))).flatten)
          (by rw [List.length_drop]; omega)
          (by rw [List.length_append, length_loopSteps]; omega)
        rw [List.length_append, length_loopSteps] at h
        rw [List.append_assoc, List.append_assoc] at heq
        refine ⟨loopSteps body ++ ss, _, heq, ?_⟩
        have hwhole := h.loop (List.ne_nil_of_length_pos hloop.1) (r := r)
        rw [hflat, List.take_append_drop] at hwhole
        exact hwhole
      · rw [if_neg hloop]
        obtain ⟨ss, is, heq, h⟩ := ih es (steps ++ [⟨e, false, 0⟩]) (rawSteps ++ [steps.length])
          (by simpa using hn) (by rw [List.length_append, List.length_singleton]; omega)
        rw [List.length_append, List.length_singleton] at h
        exact ⟨_, _, by simpa using heq, h.single e⟩

theorem compresses_compressExec (events : List UInt32) :
    Compresses 0 events (compressExec events).1 (compressExec events).2 := by
  obtain ⟨ss, is, heq, h⟩ :=
    compresses_compressSteps events.length events [] [] le_rfl (Nat.zero_le _)
  rw [compressExec, heq]
  exact h

theorem Compresses.getElem?_index {events : List UInt32} {ss : List PatternStep} {is : List ℕ}
    (h : Compresses 0 events ss is) {j i : ℕ} (hi : is[j]? = some i) :
    i < ss.length ∧ (ss[i]?).map PatternStep.eventId = events[j]? := by
  have hj := (List.getElem?_eq_some_iff.mp hi).1
  have hindex := congrArg (·[j]?) h.index
  simp only [List.getElem?_map, hi, Option.map_some, Nat.sub_zero, List.getElem?_take_of_lt hj,
    List.getElem?_eq_getElem (hj.trans_le h.le), Option.some.injEq] at hindex
  rw [hindex, List.getElem?_eq_getElem (hj.trans_le h.le)]
  obtain ⟨s, hs, -⟩ := Option.map_eq_some_iff.mp hindex
  exact ⟨(List.getElem?_eq_some_iff.mp hs).1, rfl⟩

/-! ### The phases of a stream -/

/-- The waits of a phase that ends; one without waits was on CPU. -/
def RawExec.ended (re : RawExec) : RawExec :=
  if re.steps = [] then { re with steps := [(0, re.totalNs)] } else re

/-- The phase that a record ends. -/
def VariantsState.phaseEnd (phase : VariantPhase) (s : VariantsState) (ev : TraceEvent) :
    Option RawExec :=
  if rightOpenFlagged ev ∨ ev.oldEvent = phase.markerStart ∨ ev.oldEvent ≠ phase.markerEnd then none
  else ((s.pids ev.pid).filter (·.active)).map (·.exec.ended)

/-- The phases that a stream ends, in the order of their ends. -/
def phasesOf (mask : UInt32) (f : Option Filter) (phase : VariantPhase) :
    VariantsState → List TraceEvent → List RawExec
  | _, [] => []
  | s, ev :: events =>
    (s.phaseEnd phase ev).toList ++ phasesOf mask f phase (variantsStep mask f phase s ev) events

/-- The pattern of a phase. -/
def RawExec.pattern (re : RawExec) : List PatternStep := (compressExec (re.steps.map Prod.fst)).1

/-- The steps of the waits of a phase that its pattern holds. -/
def RawExec.rawSteps (re : RawExec) : List ℕ := (compressExec (re.steps.map Prod.fst)).2

/-- One more phase. -/
def addPhase (vas : List VariantAccum) (re : RawExec) : List VariantAccum :=
  addVariant re.pattern re re.rawSteps vas

theorem variants_variantsStep (mask : UInt32) (f : Option Filter) (phase : VariantPhase)
    (s : VariantsState) (ev : TraceEvent) :
    (variantsStep mask f phase s ev).variants =
      (s.phaseEnd phase ev).toList.foldl addPhase s.variants := by
  rw [variantsStep, VariantsState.phaseEnd]
  by_cases hflag : rightOpenFlagged ev = true
  · rw [if_pos hflag, if_pos (Or.inl hflag)]
    rfl
  by_cases hstart : ev.oldEvent = phase.markerStart
  · rw [if_neg hflag, if_pos hstart, if_pos (Or.inr (Or.inl hstart))]
    rfl
  rw [if_neg hflag, if_neg hstart]
  cases hpid : s.pids ev.pid with
  | none => split_ifs <;> rfl
  | some ps =>
    by_cases hend : ev.oldEvent = phase.markerEnd
    · rw [if_neg (not_or.mpr ⟨hflag, not_or.mpr ⟨hstart, not_not.mpr hend⟩⟩)]
      cases hact : ps.active with
      | true =>
        simp only [hend, hact, and_self, if_true, Option.filter_some, Option.map_some,
          Option.toList_some, List.foldl_cons, List.foldl_nil]
        rfl
      | false =>
        simp only [hact, Bool.false_eq_true, and_false, false_and, if_false, Option.filter_some,
          Option.map_none, Option.toList_none, List.foldl_nil]
        split_ifs <;> rfl
    · rw [if_pos (Or.inr (Or.inr hend))]
      simp only [hend, false_and, if_false]
      split_ifs <;> rfl

/-- **The variants are made from the phases.** -/
theorem variants_foldl (mask : UInt32) (f : Option Filter) (phase : VariantPhase)
    (events : List TraceEvent) (s : VariantsState) :
    (events.foldl (variantsStep mask f phase) s).variants =
      (phasesOf mask f phase s events).foldl addPhase s.variants := by
  induction events generalizing s with
  | nil => rfl
  | cons ev events ih =>
    rw [List.foldl_cons, ih, variants_variantsStep, phasesOf, List.foldl_append]

/-! ### The times of the steps -/

/-- The time that the steps of a variant have in all. -/
def VariantAccum.stepTotal (va : VariantAccum) : ℕ := (va.stepTimes.map Prod.fst).sum

/-- The time of the waits of a phase that its pattern holds. -/
def RawExec.prefixNs (re : RawExec) : ℕ :=
  ((re.steps.take re.rawSteps.length).map Prod.snd).sum

theorem sum_modify_add {times : List (ℕ × ℕ)} {i : ℕ} (hi : i < times.length) (d : ℕ) :
    ((times.modify i fun t => (t.1 + d, t.2 + 1)).map Prod.fst).sum =
      (times.map Prod.fst).sum + d := by
  induction times generalizing i with
  | nil => simp at hi
  | cons t times ih =>
    cases i with
    | zero =>
      simp only [List.modify_zero_cons, List.map_cons, List.sum_cons]
      omega
    | succ i =>
      simp only [List.modify_succ_cons, List.map_cons, List.sum_cons,
        ih (Nat.lt_of_succ_lt_succ hi)]
      omega

theorem sum_foldl_modify (charges : List (ℕ × UInt32 × ℕ)) (times : List (ℕ × ℕ))
    (h : ∀ x ∈ charges, x.1 < times.length) :
    let times' := charges.foldl
      (fun times x => times.modify x.1 fun t => (t.1 + x.2.2, t.2 + 1)) times
    times'.length = times.length ∧
      (times'.map Prod.fst).sum = (times.map Prod.fst).sum + (charges.map (·.2.2)).sum := by
  induction charges generalizing times with
  | nil => exact ⟨rfl, rfl⟩
  | cons x charges ih =>
    have hx := h x List.mem_cons_self
    obtain ⟨hlen, hsum⟩ := ih (times.modify x.1 fun t => (t.1 + x.2.2, t.2 + 1)) fun y hy => by
      rw [List.length_modify]
      exact h y (List.mem_cons_of_mem x hy)
    rw [List.length_modify] at hlen
    rw [sum_modify_add hx] at hsum
    refine ⟨hlen, hsum.trans ?_⟩
    rw [List.map_cons, List.sum_cons, Nat.add_assoc]

theorem VariantAccum.add_stepTotal {va : VariantAccum} (re : RawExec)
    (hva : va.stepTimes.length = maxVariantSteps) :
    let va' := va.add re re.rawSteps
    va'.stepTimes.length = maxVariantSteps ∧ va'.stepTotal = va.stepTotal + re.prefixNs := by
  have h : Compresses 0 _ re.pattern re.rawSteps := compresses_compressExec (re.steps.map Prod.fst)
  obtain ⟨hlen, hsum⟩ := sum_foldl_modify (re.rawSteps.zip re.steps) va.stepTimes fun x hx => by
      obtain ⟨j, hj⟩ := List.mem_iff_getElem?.mp (List.of_mem_zip hx).1
      have hfits := h.fits
      have hlt := (h.getElem?_index hj).1
      omega
  have hle : re.rawSteps.length ≤ re.steps.length := by simpa using h.le
  have hzip : (re.rawSteps.zip re.steps).map (fun x => x.2.2) =
      (re.steps.take re.rawSteps.length).map Prod.snd := by
    have hfun : (fun x : ℕ × UInt32 × ℕ => x.2.2) = Prod.snd ∘ Prod.snd := rfl
    rw [List.zip_eq_zip_take_min, Nat.min_eq_left hle, hfun, ← List.map_map, List.map_snd_zip]
    rw [List.length_take, List.length_take]
    omega
  rw [hzip] at hsum
  exact ⟨hlen.trans hva, hsum⟩

theorem addPhase_stepTotal (re : RawExec) (vas : List VariantAccum)
    (h : ∀ va ∈ vas, va.stepTimes.length = maxVariantSteps) :
    (∀ va ∈ addPhase vas re, va.stepTimes.length = maxVariantSteps) ∧
      ((addPhase vas re).map VariantAccum.stepTotal).sum =
        (vas.map VariantAccum.stepTotal).sum + re.prefixNs := by
  induction vas with
  | nil =>
    rw [addPhase, addVariant]
    obtain ⟨hlen, hsum⟩ := @VariantAccum.add_stepTotal
      { hash := hashPattern re.pattern
        pattern := re.pattern
        stepTimes := List.replicate maxVariantSteps (0, 0) } re List.length_replicate
    refine ⟨fun va hva => ?_, ?_⟩
    · rw [List.mem_singleton.mp hva]
      exact hlen
    · simpa [VariantAccum.stepTotal] using hsum
  | cons va vas ih =>
    obtain ⟨hlen', hsum'⟩ := ih fun va' hva' => h va' (List.mem_cons_of_mem va hva')
    obtain ⟨hlen, hsum⟩ := VariantAccum.add_stepTotal re (h va List.mem_cons_self)
    rw [addPhase] at hlen' hsum' ⊢
    rw [addVariant]
    split_ifs
    · refine ⟨List.forall_mem_cons.mpr
        ⟨hlen, fun va' hva' => h va' (List.mem_cons_of_mem va hva')⟩, ?_⟩
      rw [List.map_cons, List.sum_cons, List.map_cons, List.sum_cons, hsum]
      omega
    · refine ⟨List.forall_mem_cons.mpr ⟨h va List.mem_cons_self, hlen'⟩, ?_⟩
      rw [List.map_cons, List.sum_cons, List.map_cons, List.sum_cons, hsum']
      omega

/-- **The steps have the time of the prefixes**, over any number of phases. -/
theorem foldl_addPhase_stepTotal (res : List RawExec) (vas : List VariantAccum)
    (h : ∀ va ∈ vas, va.stepTimes.length = maxVariantSteps) :
    ((res.foldl addPhase vas).map VariantAccum.stepTotal).sum =
      (vas.map VariantAccum.stepTotal).sum + (res.map RawExec.prefixNs).sum := by
  induction res generalizing vas with
  | nil => rfl
  | cons re res ih =>
    obtain ⟨hlen, hsum⟩ := addPhase_stepTotal re vas h
    rw [List.foldl_cons, ih _ hlen, hsum, List.map_cons, List.sum_cons, Nat.add_assoc]

/-- **Loop compression loses nothing of the prefix.** `compress_exec` stops at the end of a phase or
with a full pattern; the index of every wait is the step with its event; the loops, repeated as
often as their marks are indexed, give the prefix back; and the times that `pgwt_compute_variants`
adds to the steps are the times of the prefixes. -/
theorem compressExec_spec (events : List UInt32) :
    let steps := (compressExec events).1
    let rawSteps := (compressExec events).2
    rawSteps.length ≤ events.length ∧ steps.length ≤ maxVariantSteps ∧
      (rawSteps.length = events.length ∨ steps.length = maxVariantSteps) ∧
      (∀ j i : ℕ, rawSteps[j]? = some i →
        i < steps.length ∧ (steps[i]?).map PatternStep.eventId = events[j]?) ∧
      expandPattern (rawSteps.count ·) steps = events.take rawSteps.length ∧
      ∀ mask f phase stream,
        ((stream.foldl (variantsStep mask f phase) {}).variants.map VariantAccum.stepTotal).sum =
          ((phasesOf mask f phase {} stream).map RawExec.prefixNs).sum := by
  have h := compresses_compressExec events
  have hfits := h.fits
  have hwhole := h.whole
  rw [Nat.zero_add] at hfits hwhole
  refine ⟨h.le, hfits, hwhole, fun j i hi => h.getElem?_index hi,
    h.expand _ _ le_rfl fun _ _ => rfl, fun mask f phase stream => ?_⟩
  rw [variants_foldl, foldl_addPhase_stepTotal _ _ fun _ h => absurd h List.not_mem_nil]
  exact Nat.zero_add _

/-- A loop of two waits that is left in the middle. -/
example : compressExec [1, 2, 1, 2, 1] =
    ([⟨1, true, 2⟩, ⟨2, false, 0⟩, ⟨1, false, 0⟩], [0, 1, 0, 1, 2]) := by decide

end PgWaitTracer
