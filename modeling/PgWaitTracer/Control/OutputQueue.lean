import PgWaitTracer.Lib.StableSort

/-!
# The output queue of a control client

A reply that the socket does not take at once is queued (`src/ctrl_outq.h`). The queue is a buffer with
two offsets: what was written out, and what is in use. It is compacted before each append, grows by
doubling up to a cap, and drains in whatever pieces the write callback accepts. A queue that refused an
append never accepts another one.

## Main results

* `CtrlOutq.Valid.append`, `CtrlOutq.Valid.flush`: what an operation does to
  the bytes that are pending.
* `outq_delivers`: what was written out and what is pending are the accepted appends.
-/

namespace PgWaitTracer

open StableSort

/-- `PGWT_CTRL_OUTQ_MAX`. -/
def ctrlOutqMax : ℕ := 2 * 1024 * 1024

/-- `struct pgwt_ctrl_outq`, with the bytes of its allocation. -/
structure CtrlOutq where
  buf : List UInt8 := []
  cap : ℕ := 0
  len : ℕ := 0
  off : ℕ := 0
  overflow : Bool := false

/-- What a write callback returns: how much it took, nothing, or an error. -/
inductive WriteReply
  | wrote (n : ℕ)
  | zero
  | again
  | interrupted
  | fatal
  deriving DecidableEq, Repr

/-- A write callback takes at most what it is offered. -/
structure WriteFn where
  reply : ℕ → WriteReply
  wrote_le : ∀ n k, reply n = .wrote k → 0 < k ∧ k ≤ n

/-- What `pgwt_outq_flush` returns (1, 0, -1), unless it is still in its loop after the last
callback. -/
inductive FlushRc
  | drained
  | remain
  | failed
  | looping
  deriving DecidableEq, Repr

namespace CtrlOutq

/-- `pgwt_outq_pending`. -/
def pending (q : CtrlOutq) : ℕ := q.len - q.off

/-- The bytes that are not written out yet. -/
def pendingBytes (q : CtrlOutq) : List UInt8 := slice q.buf q.off q.len

/-- What was written out is dropped from the front. -/
def compact (q : CtrlOutq) : CtrlOutq :=
  if 0 < q.off ∧ q.off = q.len then { q with len := 0, off := 0 }
  else if 0 < q.off then
    { q with
      buf := paste q.buf 0 (slice q.buf q.off q.len)
      len := q.len - q.off
      off := 0 }
  else q

/-- The capacity is doubled until it is enough. -/
def growCap (want need : ℕ) : ℕ :=
  if want < need ∧ 0 < want then growCap (2 * want) need else want
termination_by need - want

/-- The capacity that is asked for. -/
def wantCap (q : CtrlOutq) (n : ℕ) : ℕ :=
  growCap (if q.cap ≠ 0 then q.cap else 4096) (q.len + n)

/-- Room for the bytes in use and `n` more. An allocation that succeeds has arbitrary bytes behind the
old ones. -/
def reserve (q : CtrlOutq) (n : ℕ) (alloc : Option (ℕ → UInt8)) : Option CtrlOutq :=
  if q.len + n ≤ q.cap then some q
  else alloc.map fun fresh =>
    { q with
      buf := q.buf ++ (List.range (q.wantCap n - q.cap)).map fresh
      cap := q.wantCap n }

/-- `pgwt_outq_append`, and whether it returns 0. -/
def append (q : CtrlOutq) (p : List UInt8) (alloc : Option (ℕ → UInt8)) : CtrlOutq × Bool :=
  if q.overflow then (q, false)
  else
    let q := q.compact
    if ctrlOutqMax < q.len + p.length then ({ q with overflow := true }, false)
    else
      match q.reserve p.length alloc with
      | none => ({ q with overflow := true }, false)
      | some q => ({ q with
          buf := paste q.buf q.len p
          len := q.len + p.length }, true)

/-- The queue after it was drained. A large allocation is not kept. -/
def drained (q : CtrlOutq) : CtrlOutq :=
  if 64 * 1024 < q.cap then { q with buf := [], cap := 0, len := 0, off := 0 }
  else { q with len := 0, off := 0 }

/-- `pgwt_outq_flush`, with the callbacks that it makes: the queue, the bytes that were taken, and what
it returns. -/
def flush (q : CtrlOutq) : List WriteFn → CtrlOutq × List UInt8 × FlushRc
  | [] => if q.off < q.len then (q, [], .looping) else (q.drained, [], .drained)
  | fn :: calls =>
    if q.off < q.len then
      match fn.reply (q.len - q.off) with
      | .wrote w =>
        let rest := flush { q with off := q.off + w } calls
        (rest.1, slice q.buf q.off (q.off + w) ++ rest.2.1, rest.2.2)
      | .zero => (q, [], .remain)
      | .interrupted => flush q calls
      | .again => (q, [], .remain)
      | .fatal => (q, [], .failed)
    else (q.drained, [], .drained)

/-- The offsets are in the allocation, and no more is in use than the cap allows. -/
structure Valid (q : CtrlOutq) : Prop where
  off_le : q.off ≤ q.len
  len_le : q.len ≤ q.buf.length
  cap_eq : q.cap = q.buf.length
  len_le_max : q.len ≤ ctrlOutqMax

variable {q : CtrlOutq}

theorem valid_init : Valid {} := ⟨le_rfl, le_rfl, rfl, Nat.zero_le _⟩

theorem Valid.length_pendingBytes (h : q.Valid) : q.pendingBytes.length = q.pending :=
  length_slice h.len_le

/-! ### Appending -/

theorem Valid.compact (h : q.Valid) : q.compact.Valid ∧ q.compact.off = 0 ∧
    q.compact.pendingBytes = q.pendingBytes ∧ q.compact.overflow = q.overflow := by
  rw [CtrlOutq.compact]
  split_ifs with hall hsome
  · refine ⟨⟨le_rfl, Nat.zero_le _, h.cap_eq, Nat.zero_le _⟩, rfl, ?_, rfl⟩
    rw [pendingBytes, pendingBytes, slice_of_le le_rfl, slice_of_le hall.2.ge]
  · have hslice : (slice q.buf q.off q.len).length = q.len - q.off := length_slice h.len_le
    have hlen : (paste q.buf 0 (slice q.buf q.off q.len)).length = q.buf.length := by
      refine length_paste ?_
      have hle := h.len_le
      omega
    refine ⟨⟨Nat.zero_le _, ?_, h.cap_eq.trans hlen.symm, (Nat.sub_le _ _).trans h.len_le_max⟩, rfl,
      ?_, rfl⟩
    · rw [hlen]
      exact (Nat.sub_le _ _).trans h.len_le
    · rw [pendingBytes, pendingBytes, ← hslice, paste, List.take_zero, List.nil_append, slice,
        List.drop_zero, List.take_left]
  · exact ⟨h, by omega, rfl, rfl⟩

theorem le_growCap (want need : ℕ) (hwant : 0 < want) :
    want ≤ growCap want need ∧ need ≤ growCap want need := by
  induction want using growCap.induct need with
  | case1 want hless ih =>
    obtain ⟨hle, hneed⟩ := ih (by omega)
    rw [growCap, if_pos hless]
    exact ⟨by omega, hneed⟩
  | case2 want henough =>
    rw [growCap, if_neg henough]
    omega

theorem le_wantCap (q : CtrlOutq) (n : ℕ) : q.cap ≤ q.wantCap n ∧ q.len + n ≤ q.wantCap n := by
  obtain ⟨hcap, hneed⟩ := le_growCap (if q.cap ≠ 0 then q.cap else 4096) (q.len + n)
    (by split_ifs <;> omega)
  refine ⟨le_trans ?_ hcap, hneed⟩
  split_ifs <;> omega

theorem Valid.reserve (h : q.Valid) {n : ℕ} {alloc : Option (ℕ → UInt8)} {q' : CtrlOutq}
    (hq' : q.reserve n alloc = some q') : q'.Valid ∧ q'.len + n ≤ q'.buf.length ∧
      q'.off = q.off ∧ q'.len = q.len ∧ q'.pendingBytes = q.pendingBytes ∧
      q'.overflow = q.overflow := by
  rw [CtrlOutq.reserve] at hq'
  split_ifs at hq' with hroom
  · obtain rfl := Option.some.inj hq'
    exact ⟨h, h.cap_eq ▸ hroom, rfl, rfl, rfl, rfl⟩
  · obtain ⟨fresh, -, rfl⟩ := Option.map_eq_some_iff.mp hq'
    obtain ⟨hcap, hneed⟩ := q.le_wantCap n
    have hlen : (q.buf ++ (List.range (q.wantCap n - q.cap)).map fresh).length = q.wantCap n := by
      have heq := h.cap_eq
      simp only [List.length_append, List.length_map, List.length_range]
      omega
    refine ⟨⟨h.off_le, ?_, hlen.symm, h.len_le_max⟩, ?_, rfl, rfl, ?_, rfl⟩
    · rw [hlen]
      exact (Nat.le_add_right _ _).trans hneed
    · rw [hlen]
      exact hneed
    · rw [pendingBytes, pendingBytes, slice, slice, List.take_append_of_le_length h.len_le]

/-- **Append.** The bytes come behind those that are pending, or the queue is dead and nothing
changes. -/
theorem Valid.append (h : q.Valid) (p : List UInt8) (alloc : Option (ℕ → UInt8)) :
    (q.append p alloc).1.Valid ∧
      ((q.append p alloc).2 = true ∧ q.overflow = false ∧ (q.append p alloc).1.overflow = false ∧
          (q.append p alloc).1.pendingBytes = q.pendingBytes ++ p ∨
        (q.append p alloc).2 = false ∧ (q.append p alloc).1.overflow = true ∧
          (q.append p alloc).1.pendingBytes = q.pendingBytes) := by
  unfold CtrlOutq.append
  by_cases hdead : q.overflow = true
  · rw [if_pos hdead]
    exact ⟨h, Or.inr ⟨rfl, hdead, rfl⟩⟩
  obtain ⟨hvalid, hoff, hpending, hover⟩ := h.compact
  have hdies : ({ q.compact with overflow := true } : CtrlOutq).Valid :=
    ⟨hvalid.off_le, hvalid.len_le, hvalid.cap_eq, hvalid.len_le_max⟩
  rw [if_neg hdead]
  dsimp only
  split_ifs with hfull
  · exact ⟨hdies, Or.inr ⟨rfl, rfl, hpending⟩⟩
  rcases hres : q.compact.reserve p.length alloc with _ | q'
  · exact ⟨hdies, Or.inr ⟨rfl, rfl, hpending⟩⟩
  obtain ⟨hvalid', hroom, hoff', hlen', hpending', hover'⟩ := hvalid.reserve hres
  have hlive : q.overflow = false := by simpa using hdead
  have hlen : (paste q'.buf q'.len p).length = q'.buf.length := length_paste hroom
  refine ⟨⟨?_, hlen.symm ▸ hroom, hvalid'.cap_eq.trans hlen.symm, ?_⟩,
    Or.inl ⟨rfl, hlive, hover'.trans (hover.trans hlive), ?_⟩⟩
  · rw [hoff', hoff]
    exact Nat.zero_le _
  · show q'.len + p.length ≤ ctrlOutqMax
    rw [hlen']
    exact Nat.not_lt.mp hfull
  · have htake : (q'.buf.take q'.len ++ p).length = q'.len + p.length := by
      rw [List.length_append, List.length_take, Nat.min_eq_left hvalid'.len_le]
    rw [← hpending, ← hpending', pendingBytes, pendingBytes]
    simp only [hoff', hoff, slice, List.drop_zero]
    rw [paste, ← htake, List.take_left]

/-! ### Flushing -/

theorem Valid.drained (h : q.Valid) (hall : q.len ≤ q.off) : q.drained.Valid ∧
    q.pendingBytes = [] ∧ q.drained.pendingBytes = [] ∧ q.drained.overflow = q.overflow := by
  have hnil : q.pendingBytes = [] := slice_of_le hall
  rw [CtrlOutq.drained]
  split_ifs
  · exact ⟨⟨le_rfl, le_rfl, rfl, Nat.zero_le _⟩, hnil, rfl, rfl⟩
  · exact ⟨⟨le_rfl, Nat.zero_le _, h.cap_eq, Nat.zero_le _⟩, hnil, slice_of_le le_rfl, rfl⟩

/-- **Flush.** The bytes that are taken are the first of those that were pending. -/
theorem Valid.flush (calls : List WriteFn) (h : q.Valid) :
    (q.flush calls).1.Valid ∧
      (q.flush calls).2.1 ++ (q.flush calls).1.pendingBytes = q.pendingBytes ∧
      (q.flush calls).1.overflow = q.overflow ∧
      ((q.flush calls).2.2 = .drained → (q.flush calls).1.pendingBytes = []) := by
  induction calls generalizing q with
  | nil =>
    rw [CtrlOutq.flush]
    split_ifs with hmore
    · exact ⟨h, rfl, rfl, nofun⟩
    · obtain ⟨hvalid, hnil, hnil', hover⟩ := h.drained (Nat.not_lt.mp hmore)
      exact ⟨hvalid, by rw [hnil, hnil', List.nil_append], hover, fun _ => hnil'⟩
  | cons fn calls ih =>
    rw [CtrlOutq.flush]
    split_ifs with hmore
    · rcases hreply : fn.reply (q.len - q.off) with w | _ | _ | _ | _
      · obtain ⟨-, hle⟩ := fn.wrote_le _ _ hreply
        have hoff : q.off + w ≤ q.len := by omega
        obtain ⟨hvalid, hbytes, hover, hdone⟩ :=
          @ih { q with off := q.off + w } ⟨hoff, h.len_le, h.cap_eq, h.len_le_max⟩
        refine ⟨hvalid, ?_, hover, hdone⟩
        calc slice q.buf q.off (q.off + w) ++ (CtrlOutq.flush { q with off := q.off + w } calls).2.1 ++
              (CtrlOutq.flush { q with off := q.off + w } calls).1.pendingBytes
            = slice q.buf q.off (q.off + w) ++ slice q.buf (q.off + w) q.len := by
              rw [List.append_assoc, hbytes, pendingBytes]
          _ = q.pendingBytes := slice_append (Nat.le_add_right _ _) hoff h.len_le
      · exact ⟨h, rfl, rfl, nofun⟩
      · exact ⟨h, rfl, rfl, nofun⟩
      · exact ih h
      · exact ⟨h, rfl, rfl, nofun⟩
    · obtain ⟨hvalid, hnil, hnil', hover⟩ := h.drained (Nat.not_lt.mp hmore)
      exact ⟨hvalid, by rw [hnil, hnil', List.nil_append], hover, fun _ => hnil'⟩

end CtrlOutq

/-! ### Runs -/

/-- A call of the owner of the queue. -/
inductive OutqOp
  | append (p : List UInt8) (alloc : Option (ℕ → UInt8))
  | flush (calls : List WriteFn)

/-- The queue, the bytes that were written out, and the appends that were accepted. -/
structure OutqRun where
  q : CtrlOutq := {}
  written : List UInt8 := []
  accepted : List (List UInt8) := []

/-- The run after a call. -/
def outqStep (s : OutqRun) : OutqOp → OutqRun
  | .append p alloc =>
    { s with
      q := (s.q.append p alloc).1
      accepted := if (s.q.append p alloc).2 then s.accepted ++ [p] else s.accepted }
  | .flush calls =>
    { s with
      q := (s.q.flush calls).1
      written := s.written ++ (s.q.flush calls).2.1 }

/-- What was written out and what is pending are the accepted appends. -/
structure OutqRun.Delivers (s : OutqRun) : Prop where
  valid : s.q.Valid
  bytes : s.written ++ s.q.pendingBytes = s.accepted.flatten

theorem OutqRun.Delivers.step {s : OutqRun} (h : s.Delivers) (op : OutqOp) :
    (outqStep s op).Delivers := by
  cases op with
  | append p alloc =>
    obtain ⟨hvalid, ⟨hok, -, -, hbytes⟩ | ⟨hno, -, hbytes⟩⟩ := h.valid.append p alloc
    · refine ⟨hvalid, ?_⟩
      simp only [outqStep, hok, if_true, hbytes, List.flatten_append, List.flatten_singleton]
      rw [← List.append_assoc, h.bytes]
    · refine ⟨hvalid, ?_⟩
      simp only [outqStep, hno, Bool.false_eq_true, if_false, hbytes]
      exact h.bytes
  | flush calls =>
    obtain ⟨hvalid, hbytes, -, -⟩ := h.valid.flush calls
    refine ⟨hvalid, ?_⟩
    simp only [outqStep]
    rw [List.append_assoc, hbytes, h.bytes]

theorem OutqRun.Delivers.overflow_step {s : OutqRun} (h : s.Delivers) (hdead : s.q.overflow = true)
    (op : OutqOp) : (outqStep s op).q.overflow = true := by
  cases op with
  | append p alloc =>
    obtain ⟨-, ⟨-, hlive, -⟩ | ⟨-, hover, -⟩⟩ := h.valid.append p alloc
    · rw [hdead] at hlive
      exact nomatch hlive
    · exact hover
  | flush calls => exact (h.valid.flush calls).2.2.1.trans hdead

theorem OutqRun.Delivers.run {s : OutqRun} (h : s.Delivers) (ops : List OutqOp) :
    (ops.foldl outqStep s).Delivers ∧
      (s.q.overflow = true → (ops.foldl outqStep s).q.overflow = true) := by
  induction ops generalizing s with
  | nil => exact ⟨h, id⟩
  | cons op ops ih =>
    obtain ⟨hrun, hdead⟩ := ih (h.step op)
    exact ⟨hrun, fun hover => hdead (h.overflow_step hover op)⟩

/-- **The queue delivers what was queued.** After any appends and flushes, what was written out and
what is pending are the accepted appends, in order; no more is pending than the cap allows; a rejected
append adds no byte, and no append after it is accepted; and a flush that drains the queue leaves
nothing pending. -/
theorem outq_delivers (ops : List OutqOp) :
    let s := ops.foldl outqStep {}
    s.written ++ s.q.pendingBytes = s.accepted.flatten ∧
      s.q.pendingBytes.length = s.q.pending ∧ s.q.pending ≤ ctrlOutqMax ∧
      (∀ p alloc, (s.q.append p alloc).2 = false →
        (outqStep s (.append p alloc)).written = s.written ∧
          (outqStep s (.append p alloc)).q.pendingBytes = s.q.pendingBytes ∧
          ∀ (later : List OutqOp) p' alloc', ((later.foldl outqStep (outqStep s (.append p alloc))).q.append p'
            alloc').2 = false) ∧
      ∀ calls, (s.q.flush calls).2.2 = .drained →
        (outqStep s (.flush calls)).q.pending = 0 := by
  intro s
  have h : s.Delivers := (OutqRun.Delivers.run ⟨CtrlOutq.valid_init, rfl⟩ ops).1
  refine ⟨h.bytes, h.valid.length_pendingBytes, ?_, fun p alloc hno => ?_, fun calls hdone => ?_⟩
  · exact (Nat.sub_le _ _).trans h.valid.len_le_max
  · obtain ⟨-, ⟨hok, -⟩ | ⟨-, hover, hbytes⟩⟩ := h.valid.append p alloc
    · rw [hno] at hok
      exact nomatch hok
    refine ⟨rfl, hbytes, fun later p' alloc' => ?_⟩
    obtain ⟨hlater, hdead⟩ := (h.step (.append p alloc)).run later
    obtain ⟨-, ⟨-, hlive, -⟩ | ⟨hfail, -⟩⟩ := hlater.valid.append p' alloc'
    · rw [hdead hover] at hlive
      exact nomatch hlive
    · exact hfail
  · obtain ⟨hvalid, -, -, hnil⟩ := h.valid.flush calls
    calc (s.q.flush calls).1.pending = (s.q.flush calls).1.pendingBytes.length :=
          hvalid.length_pendingBytes.symm
      _ = 0 := by rw [hnil hdone, List.length_nil]

end PgWaitTracer
