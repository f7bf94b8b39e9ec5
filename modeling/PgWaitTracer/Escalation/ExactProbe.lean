import Mathlib.Logic.Function.Basic
import PgWaitTracer.Lib.BitMask
import PgWaitTracer.Lib.Run

/-!
# Ownership of the exact probes

The query and activity probes and the phase markers of an exact window are attached by several
owners: startup pins some, a window acquires the rest and releases them, the warm-up unpins
(`struct pgwt_exact_probe_core`, `src/exact_probe.c`). One mask says what is attached, and a call
that fails undoes what it attached itself.

What the callbacks are given and return is kept in a log, from which it follows what is held.

## Main results

* `ProbeState.Owned.call`: a call keeps the ownership.
* `exactProbe_owned_iff`: every state of a run is owned exactly if no call wraps the
  number of consumers of a window with transient probes.
-/

namespace PgWaitTracer

open BitMask

/-! ### The core -/

/-- `enum pgwt_exact_probe_index`. -/
inductive ExactProbe
  | queryId
  | activity
  | exec
  | plan
  deriving DecidableEq, Repr

namespace ExactProbe

/-- The number of the enumerator. -/
def index : ExactProbe → ℕ
  | .queryId => 0
  | .activity => 1
  | .exec => 2
  | .plan => 3

/-- `PGWT_EXACT_PROBE_BIT`. -/
def bit (p : ExactProbe) : UInt32 := 1 <<< UInt32.ofNat p.index

end ExactProbe

/-- The probes in the order of their numbers. -/
def exactProbes : List ExactProbe := [.queryId, .activity, .exec, .plan]

/-- `PGWT_EXACT_PROBE_ATTR_MASK`. -/
def attrMask : UInt32 := ExactProbe.queryId.bit ||| ExactProbe.activity.bit

/-- `PGWT_EXACT_PROBE_PHASE_MASK`. -/
def phaseMask : UInt32 := ExactProbe.exec.bit ||| ExactProbe.plan.bit

/-- `PGWT_EXACT_PROBE_ALL_MASK`. -/
def allProbesMask : UInt32 := attrMask ||| phaseMask

/-- `enum pgwt_exact_attach_outcome`. -/
inductive AttachOutcome
  | notAttempted
  | attached
  | failed
  | disabled
  deriving DecidableEq, Repr

/-- A link that an attach callback returned. -/
abbrev ProbeLink := ℕ

/-- `struct pgwt_exact_probe_core`. A link that is `NULL` is none. -/
structure ExactProbeCore where
  links : ExactProbe → Option ProbeLink := fun _ => none
  attachedMask : UInt32 := 0
  attachOutcome : ExactProbe → AttachOutcome := fun _ => .notAttempted
  attachErrno : ExactProbe → ℤ := fun _ => 0
  pinnedMask : UInt32 := 0
  generation : UInt64 := 0
  consumers : UInt32 := 0

/-- A call of a callback. -/
inductive ProbeEvent
  | attached (p : ExactProbe) (link : ProbeLink)
  | failed (p : ExactProbe) (errno : ℤ)
  | detached (p : ExactProbe) (link : Option ProbeLink)
  deriving DecidableEq, Repr

/-- The core with the log of its callbacks, the last one first. -/
structure ProbeState where
  core : ExactProbeCore := {}
  log : List ProbeEvent := []

/-- What the attach callback answers to its calls, in order: a link, or `NULL` and `errno`. -/
abbrev AttachOracle := ℕ → Except ℤ ProbeLink

namespace ProbeState

/-- The callback `detach` is given the link of the probe, and the probe is cleared. -/
def detach (s : ProbeState) (p : ExactProbe) : ProbeState where
  core := { s.core with
    links := Function.update s.core.links p none
    attachedMask := s.core.attachedMask &&& ~~~p.bit }
  log := .detached p (s.core.links p) :: s.log

/-- A loop that detaches the probes of a mask, the last one first. -/
def detachMask (s : ProbeState) (mask : UInt32) : ProbeState :=
  exactProbes.reverse.foldl (fun s p => if mask &&& p.bit = 0 then s else s.detach p) s

/-- A callback that returned a link. -/
def attachOk (s : ProbeState) (p : ExactProbe) (link : ProbeLink) : ProbeState where
  core := { s.core with
    links := Function.update s.core.links p (some link)
    attachedMask := s.core.attachedMask ||| p.bit
    attachOutcome := Function.update s.core.attachOutcome p .attached
    attachErrno := Function.update s.core.attachErrno p 0 }
  log := .attached p link :: s.log

/-- A callback that returned `NULL`. -/
def attachFailed (s : ProbeState) (p : ExactProbe) (errno : ℤ) : ProbeState where
  core := { s.core with
    attachOutcome := Function.update s.core.attachOutcome p .failed
    attachErrno := Function.update s.core.attachErrno p errno }
  log := .failed p errno :: s.log

/-- The loop of `attach_missing`, with the probes that it has attached. -/
def attachLoop (oracle : AttachOracle) (mask : UInt32) :
    List ExactProbe → ProbeState → UInt32 → ProbeState × Bool
  | [], s, _ => (s, true)
  | p :: ps, s, newMask =>
    if mask &&& p.bit = 0 ∨ s.core.attachedMask &&& p.bit ≠ 0 then
      attachLoop oracle mask ps s newMask
    else
      match oracle s.log.length with
      | .error errno => ((s.attachFailed p errno).detachMask newMask, false)
      | .ok link => attachLoop oracle mask ps (s.attachOk p link) (newMask ||| p.bit)

/-- `attach_missing`, with the result 0 or not. -/
def attachMissing (oracle : AttachOracle) (s : ProbeState) (mask : UInt32) : ProbeState × Bool :=
  attachLoop oracle mask exactProbes s 0

/-! ### The calls -/

/-- `pgwt_exact_probe_core_pin`. -/
def pin (oracle : AttachOracle) (s : ProbeState) (mask : UInt32) (generation : UInt64) :
    ProbeState × Bool :=
  match s.attachMissing oracle mask with
  | (s', false) => (s', false)
  | (s', true) =>
    ({ s' with core := { s'.core with
        pinnedMask := s'.core.pinnedMask ||| mask
        generation := if generation ≠ 0 then generation else s'.core.generation } }, true)

/-- A probe of `pgwt_exact_probe_core_pin_best_effort`, with the pinned ones. -/
def pinOne (oracle : AttachOracle) (mask : UInt32) (sp : ProbeState × UInt32) (p : ExactProbe) :
    ProbeState × UInt32 :=
  if mask &&& p.bit = 0 ∨ sp.2 &&& p.bit ≠ 0 then sp
  else
    match sp.1.attachMissing oracle p.bit with
    | (s', false) => (s', sp.2)
    | (s', true) =>
      ({ s' with core := { s'.core with pinnedMask := s'.core.pinnedMask ||| p.bit } },
        sp.2 ||| p.bit)

/-- `pgwt_exact_probe_core_pin_best_effort`, with the mask that it returns. -/
def pinBestEffort (oracle : AttachOracle) (s : ProbeState) (mask : UInt32) (generation : UInt64) :
    ProbeState × UInt32 :=
  let (s', pinned) := exactProbes.foldl (pinOne oracle mask) (s, s.core.pinnedMask &&& mask)
  if generation ≠ 0 ∧ pinned ≠ 0 then
    ({ s' with core := { s'.core with generation := generation } }, pinned)
  else (s', pinned)

/-- An optional probe of `pgwt_exact_probe_core_acquire`. -/
def acquireOptional (oracle : AttachOracle) (optional : UInt32) (s : ProbeState) (p : ExactProbe) :
    ProbeState :=
  if optional &&& p.bit = 0 ∨ s.core.attachedMask &&& p.bit ≠ 0 then s
  else (s.attachMissing oracle p.bit).1

/-- `pgwt_exact_probe_core_acquire`. -/
def acquire (oracle : AttachOracle) (s : ProbeState) (mask : UInt32) (generation : UInt64) :
    ProbeState × Bool :=
  if generation = 0 then (s, false)
  else if s.core.consumers ≠ 0 then
    if s.core.generation ≠ generation then (s, false)
    else ({ s with core := { s.core with consumers := s.core.consumers + 1 } }, true)
  else
    match s.attachMissing oracle (mask &&& ~~~phaseMask) with
    | (s', false) => (s', false)
    | (s', true) =>
      (exactProbes.foldl (acquireOptional oracle (mask &&& phaseMask))
        { s' with core := { s'.core with generation := generation, consumers := 1 } }, true)

/-- `pgwt_exact_probe_core_release`. -/
def release (s : ProbeState) : ProbeState :=
  if s.core.consumers = 0 then s
  else
    let s := { s with core := { s.core with consumers := s.core.consumers - 1 } }
    if s.core.consumers ≠ 0 then s
    else
      let s := s.detachMask (s.core.attachedMask &&& ~~~s.core.pinnedMask)
      { s with core := { s.core with generation := 0 } }

/-- `pgwt_exact_probe_core_unpin`. -/
def unpin (s : ProbeState) (mask : UInt32) : ProbeState :=
  let s := { s with core := { s.core with pinnedMask := s.core.pinnedMask &&& ~~~mask } }
  if s.core.consumers ≠ 0 then s else s.detachMask (s.core.attachedMask &&& mask)

/-- `pgwt_exact_probe_core_cleanup`. -/
def cleanup (s : ProbeState) : ProbeState where
  core := {}
  log := (s.detachMask s.core.attachedMask).log

end ProbeState

/-- A call on the core. -/
inductive ProbeCall
  | pin (mask : UInt32) (generation : UInt64)
  | pinBestEffort (mask : UInt32) (generation : UInt64)
  | acquire (mask : UInt32) (generation : UInt64)
  | release
  | unpin (mask : UInt32)
  | cleanup
  deriving DecidableEq, Repr

/-- The state after a call, and whether the call succeeded. -/
def ProbeState.call (oracle : AttachOracle) (s : ProbeState) : ProbeCall → ProbeState × Bool
  | .pin mask generation => s.pin oracle mask generation
  | .pinBestEffort mask generation => ((s.pinBestEffort oracle mask generation).1, true)
  | .acquire mask generation => s.acquire oracle mask generation
  | .release => (s.release, true)
  | .unpin mask => (s.unpin mask, true)
  | .cleanup => (s.cleanup, true)

/-- The mask of a call. -/
def ProbeCall.mask : ProbeCall → UInt32
  | .pin mask _ | .pinBestEffort mask _ | .acquire mask _ | .unpin mask => mask
  | .release | .cleanup => 0

/-! ### Ownership -/

/-- The links that a log leaves attached. In a proper log a probe is attached when it is not, and
detached with the link that it is attached with. -/
def heldLinks : List ProbeEvent → Option (ExactProbe → Option ProbeLink)
  | [] => some fun _ => none
  | .attached p link :: log =>
    (heldLinks log).bind fun held =>
      if held p = none then some (Function.update held p (some link)) else none
  | .failed _ _ :: log => heldLinks log
  | .detached p link :: log =>
    (heldLinks log).bind fun held =>
      if held p = link ∧ link ≠ none then some (Function.update held p none) else none

/-- The links of the core are those of a proper log, and the attached ones are in the mask. -/
structure ProbeState.Tracked (s : ProbeState) : Prop where
  held : heldLinks s.log = some s.core.links
  attached : ∀ i, bitAt s.core.attachedMask i = true ↔
    ∃ p : ExactProbe, p.index = i ∧ (s.core.links p).isSome

/-- What the owners of the probes rely on. -/
structure ProbeState.Owned (s : ProbeState) : Prop extends s.Tracked where
  pinned_attached : s.core.pinnedMask &&& ~~~s.core.attachedMask = 0
  attached_pinned : s.core.consumers = 0 → s.core.attachedMask &&& ~~~s.core.pinnedMask = 0

/-- Two cores agree on what is owned. -/
structure ExactProbeCore.SameOwners (c c' : ExactProbeCore) : Prop where
  attachedMask : c'.attachedMask = c.attachedMask
  pinnedMask : c'.pinnedMask = c.pinnedMask
  links : c'.links = c.links
  generation : c'.generation = c.generation
  consumers : c'.consumers = c.consumers

/-- The call does not wrap the number of consumers of a window with transient probes. -/
def ProbeCall.Counts (s : ProbeState) : ProbeCall → Prop
  | .acquire _ generation =>
    ¬(s.core.consumers = 0xFFFFFFFF ∧ generation ≠ 0 ∧ s.core.generation = generation ∧
      s.core.attachedMask &&& ~~~s.core.pinnedMask ≠ 0)
  | _ => True

/-! ### Bits -/

namespace ExactProbe

theorem index_lt (p : ExactProbe) : p.index < 32 := by
  cases p <;> decide

theorem index_injective : Function.Injective ExactProbe.index := by
  intro p q h
  cases p <;> cases q <;> first | rfl | exact absurd h (by decide)

theorem mem_exactProbes (p : ExactProbe) : p ∈ exactProbes := by
  cases p <;> decide

theorem toBitVec_bit (p : ExactProbe) : p.bit.toBitVec = BitVec.twoPow 32 p.index := by
  cases p <;> rfl

theorem bitAt_bit (p : ExactProbe) (i : ℕ) : bitAt p.bit i = decide (i = p.index) :=
  bitAt_of_twoPow p.toBitVec_bit p.index_lt

theorem and_bit_eq_zero (p : ExactProbe) (m : UInt32) :
    m &&& p.bit = 0 ↔ bitAt m p.index = false :=
  and_eq_zero_iff_of_twoPow p.toBitVec_bit p.index_lt

theorem bitAt_allProbesMask (i : ℕ) :
    bitAt allProbesMask i = true ↔ ∃ p : ExactProbe, p.index = i := by
  simp only [allProbesMask, attrMask, phaseMask, bitAt_or, bitAt_bit, Bool.or_eq_true,
    decide_eq_true_eq]
  constructor
  · rintro ((rfl | rfl) | (rfl | rfl))
    exacts [⟨_, rfl⟩, ⟨_, rfl⟩, ⟨_, rfl⟩, ⟨_, rfl⟩]
  · rintro ⟨p, rfl⟩
    cases p <;> simp

end ExactProbe

/-! ### Callbacks -/

namespace ProbeState

variable {s : ProbeState} {p : ExactProbe} {mask : UInt32}

@[simp] theorem links_detach (s : ProbeState) (p : ExactProbe) :
    (s.detach p).core.links = Function.update s.core.links p none := rfl

@[simp] theorem attachedMask_detach (s : ProbeState) (p : ExactProbe) :
    (s.detach p).core.attachedMask = s.core.attachedMask &&& ~~~p.bit := rfl

@[simp] theorem links_attachOk (s : ProbeState) (p : ExactProbe) (link : ProbeLink) :
    (s.attachOk p link).core.links = Function.update s.core.links p (some link) := rfl

@[simp] theorem attachedMask_attachOk (s : ProbeState) (p : ExactProbe) (link : ProbeLink) :
    (s.attachOk p link).core.attachedMask = s.core.attachedMask ||| p.bit := rfl

/-- What the loops over the probes leave alone. -/
structure SameRest (c c' : ExactProbeCore) : Prop where
  pinnedMask : c'.pinnedMask = c.pinnedMask
  generation : c'.generation = c.generation
  consumers : c'.consumers = c.consumers

theorem SameRest.refl (c : ExactProbeCore) : SameRest c c := ⟨rfl, rfl, rfl⟩

theorem SameRest.trans {c c' c'' : ExactProbeCore} (h : SameRest c c') (h' : SameRest c' c'') :
    SameRest c c'' :=
  ⟨h'.pinnedMask.trans h.pinnedMask, h'.generation.trans h.generation,
    h'.consumers.trans h.consumers⟩

namespace Tracked

theorem isSome_links_iff (h : s.Tracked) (p : ExactProbe) :
    (s.core.links p).isSome ↔ bitAt s.core.attachedMask p.index = true := by
  rw [h.attached]
  constructor
  · exact fun hp => ⟨p, rfl, hp⟩
  · rintro ⟨q, hq, hsome⟩
    rwa [ExactProbe.index_injective hq] at hsome

theorem links_eq_none_iff (h : s.Tracked) (p : ExactProbe) :
    s.core.links p = none ↔ bitAt s.core.attachedMask p.index = false := by
  rw [← Option.not_isSome_iff_eq_none, h.isSome_links_iff, Bool.not_eq_true]

theorem attachedMask_eq {s' : ProbeState} (h : s.Tracked) (h' : s'.Tracked)
    (hlinks : s'.core.links = s.core.links) : s'.core.attachedMask = s.core.attachedMask :=
  ext_bits fun i => by
    rw [Bool.eq_iff_iff, h'.attached, h.attached, hlinks]

theorem detach (h : s.Tracked) (hp : (s.core.links p).isSome) : (s.detach p).Tracked := by
  refine ⟨?_, fun i => ?_⟩
  · show (heldLinks s.log).bind _ = _
    rw [h.held, Option.bind_some, if_pos ⟨rfl, Option.isSome_iff_ne_none.1 hp⟩]
    rfl
  · rw [attachedMask_detach, bitAt_and_not, ExactProbe.bitAt_bit, Bool.and_eq_true, h.attached,
      Bool.not_eq_true', decide_eq_false_iff_not, links_detach]
    constructor
    · rintro ⟨⟨q, rfl, hq⟩, hne⟩
      refine ⟨q, rfl, ?_⟩
      rwa [Function.update_of_ne fun hqp => hne (congrArg _ hqp)]
    · rintro ⟨q, rfl, hq⟩
      by_cases hqp : q = p
      · rw [hqp, Function.update_self] at hq
        exact absurd hq Bool.false_ne_true
      · rw [Function.update_of_ne hqp] at hq
        exact ⟨⟨q, rfl, hq⟩, fun hidx => hqp (ExactProbe.index_injective hidx)⟩

theorem attachOk (h : s.Tracked) (hp : s.core.links p = none) (link : ProbeLink) :
    (s.attachOk p link).Tracked := by
  refine ⟨?_, fun i => ?_⟩
  · show (heldLinks s.log).bind _ = _
    rw [h.held, Option.bind_some, if_pos hp]
    rfl
  · rw [attachedMask_attachOk, bitAt_or, ExactProbe.bitAt_bit, Bool.or_eq_true, h.attached,
      decide_eq_true_eq, links_attachOk]
    constructor
    · rintro (⟨q, rfl, hq⟩ | rfl)
      · refine ⟨q, rfl, ?_⟩
        rwa [Function.update_of_ne fun hqp => by rw [hqp, hp] at hq; exact Bool.false_ne_true hq]
      · exact ⟨p, rfl, by rw [Function.update_self]; rfl⟩
    · rintro ⟨q, rfl, hq⟩
      by_cases hqp : q = p
      · exact Or.inr (congrArg _ hqp)
      · rw [Function.update_of_ne hqp] at hq
        exact Or.inl ⟨q, rfl, hq⟩

theorem attachFailed (h : s.Tracked) (errno : ℤ) : (s.attachFailed p errno).Tracked :=
  ⟨h.held, h.attached⟩

end Tracked

/-- The loop that detaches, for any probes. -/
theorem foldl_detach (mask : UInt32) {ps : List ExactProbe} (hnodup : ps.Nodup) (h : s.Tracked)
    (hsub : ∀ p ∈ ps, bitAt mask p.index = true → (s.core.links p).isSome) :
    let s' := ps.foldl (fun s p => if mask &&& p.bit = 0 then s else s.detach p) s
    s'.Tracked ∧ SameRest s.core s'.core ∧
      ∀ p, s'.core.links p =
        if p ∈ ps ∧ bitAt mask p.index = true then none else s.core.links p := by
  induction ps generalizing s with
  | nil => exact ⟨h, .refl _, fun p => by simp⟩
  | cons q ps ih =>
    obtain ⟨hq, hnodup⟩ := List.nodup_cons.1 hnodup
    rw [List.foldl_cons]
    by_cases hbit : mask &&& q.bit = 0
    · rw [if_pos hbit]
      obtain ⟨ht, hrest, hlinks⟩ :=
        ih hnodup h fun p hp => hsub p (List.mem_cons_of_mem q hp)
      refine ⟨ht, hrest, fun p => ?_⟩
      rw [ExactProbe.and_bit_eq_zero] at hbit
      rw [hlinks p]
      by_cases hpq : p = q
      · simp [hpq, hbit]
      · simp [hpq]
    · rw [if_neg hbit]
      rw [ExactProbe.and_bit_eq_zero, Bool.not_eq_false] at hbit
      have hother : ∀ p, p ≠ q → (s.detach q).core.links p = s.core.links p := fun p hpq =>
        Function.update_of_ne hpq _ _
      obtain ⟨ht, hrest, hlinks⟩ := ih hnodup (h.detach (hsub q List.mem_cons_self hbit))
        fun p hp hb => by
          rw [hother p fun hpq => hq (hpq ▸ hp)]
          exact hsub p (List.mem_cons_of_mem q hp) hb
      have hfirst : SameRest s.core (s.detach q).core := ⟨rfl, rfl, rfl⟩
      refine ⟨ht, hfirst.trans hrest, fun p => ?_⟩
      rw [hlinks p]
      by_cases hpq : p = q
      · subst hpq
        simp [hq, hbit, ProbeState.detach]
      · simp [hpq, hother p hpq]

theorem detachMask_spec (h : s.Tracked)
    (hsub : ∀ p : ExactProbe, bitAt mask p.index = true → (s.core.links p).isSome) :
    (s.detachMask mask).Tracked ∧ SameRest s.core (s.detachMask mask).core ∧
      ∀ p, (s.detachMask mask).core.links p =
        if bitAt mask p.index = true then none else s.core.links p := by
  obtain ⟨ht, hrest, hlinks⟩ := foldl_detach mask (by decide : exactProbes.reverse.Nodup) h
    fun p _ => hsub p
  refine ⟨ht, hrest, fun p => (hlinks p).trans ?_⟩
  simp only [List.mem_reverse, p.mem_exactProbes, true_and]

variable (oracle : AttachOracle)

/-- **The loop that attaches.** It attaches what is missing of the mask, or leaves the links as they
were before it attached `newMask`. -/
theorem attachLoop_spec (mask : UInt32) (ps : List ExactProbe) (newMask : UInt32) (h : s.Tracked)
    (hnew : ∀ p : ExactProbe, bitAt newMask p.index = true → (s.core.links p).isSome) :
    let r := attachLoop oracle mask ps s newMask
    r.1.Tracked ∧ SameRest s.core r.1.core ∧
      (r.2 = false → ∀ p, r.1.core.links p =
        if bitAt newMask p.index = true then none else s.core.links p) ∧
      (r.2 = true → ∀ p, ((s.core.links p).isSome → r.1.core.links p = s.core.links p) ∧
        ((r.1.core.links p).isSome ↔
          (s.core.links p).isSome ∨ p ∈ ps ∧ bitAt mask p.index = true)) := by
  induction ps generalizing s newMask with
  | nil => exact ⟨h, .refl _, nofun, fun _ p => ⟨fun _ => rfl, by simp [attachLoop]⟩⟩
  | cons q ps ih =>
    rw [attachLoop]
    by_cases hskip : mask &&& q.bit = 0 ∨ s.core.attachedMask &&& q.bit ≠ 0
    · rw [if_pos hskip]
      obtain ⟨ht, hrest, hfail, hok⟩ := ih newMask h hnew
      refine ⟨ht, hrest, hfail, fun htrue p => ⟨(hok htrue p).1, ?_⟩⟩
      rw [(hok htrue p).2, List.mem_cons]
      by_cases hpq : p = q
      · subst hpq
        rw [ne_eq, ExactProbe.and_bit_eq_zero, ExactProbe.and_bit_eq_zero, Bool.not_eq_false,
          ← h.isSome_links_iff] at hskip
        rcases hskip with hmask | hlink
        · simp [hmask]
        · simp [hlink]
      · simp [hpq]
    · rw [if_neg hskip]
      rw [not_or, ne_eq, not_not, ExactProbe.and_bit_eq_zero, ExactProbe.and_bit_eq_zero,
        Bool.not_eq_false, ← h.links_eq_none_iff] at hskip
      obtain ⟨hmask, hnone⟩ := hskip
      cases oracle s.log.length with
      | error errno =>
        obtain ⟨ht, hrest, hlinks⟩ := detachMask_spec (h.attachFailed (p := q) errno) hnew
        have hfirst : SameRest s.core (s.attachFailed q errno).core := ⟨rfl, rfl, rfl⟩
        exact ⟨ht, hfirst.trans hrest, fun _ => hlinks, nofun⟩
      | ok link =>
        have hself : (s.attachOk q link).core.links q = some link := Function.update_self _ _ _
        have hother : ∀ p, p ≠ q → (s.attachOk q link).core.links p = s.core.links p := fun p hpq =>
          Function.update_of_ne hpq _ _
        have hnotNew : bitAt newMask q.index = false := Bool.eq_false_iff.2 fun hbit => by
          have := hnew q hbit
          rw [hnone] at this
          exact Bool.false_ne_true this
        obtain ⟨ht, hrest, hfail, hok⟩ := ih (newMask ||| q.bit) (h.attachOk hnone link)
          fun p hp => by
            by_cases hpq : p = q
            · rw [hpq, hself]
              rfl
            · rw [hother p hpq]
              rw [bitAt_or, ExactProbe.bitAt_bit, Bool.or_eq_true, decide_eq_true_eq] at hp
              exact hnew p (hp.resolve_right fun hidx => hpq (ExactProbe.index_injective hidx))
        have hfirst : SameRest s.core (s.attachOk q link).core := ⟨rfl, rfl, rfl⟩
        refine ⟨ht, hfirst.trans hrest, fun hfalse p => ?_, fun htrue p => ?_⟩
        · rw [hfail hfalse p, bitAt_or, ExactProbe.bitAt_bit]
          by_cases hpq : p = q
          · subst hpq
            simp [hnotNew, hnone]
          · have hidx : p.index ≠ q.index := fun hidx => hpq (ExactProbe.index_injective hidx)
            simp [hidx, hother p hpq]
        · obtain ⟨hkept, hiff⟩ := hok htrue p
          by_cases hpq : p = q
          · subst hpq
            rw [hself] at hkept hiff
            rw [hnone, hiff]
            simp [hmask]
          · rw [hother p hpq] at hkept hiff
            exact ⟨hkept, hiff.trans (by simp [hpq])⟩

theorem attachMissing_spec (h : s.Tracked) (mask : UInt32) :
    let r := s.attachMissing oracle mask
    r.1.Tracked ∧ SameRest s.core r.1.core ∧
      (r.2 = false → r.1.core.links = s.core.links) ∧
      (r.2 = true → ∀ p, (r.1.core.links p).isSome ↔
        (s.core.links p).isSome ∨ bitAt mask p.index = true) := by
  obtain ⟨ht, hrest, hfail, hok⟩ := attachLoop_spec oracle mask exactProbes 0 h
    fun p hp => absurd hp (by rw [bitAt_zero]; exact Bool.false_ne_true)
  refine ⟨ht, hrest, fun hfalse => funext fun p => ?_, fun htrue p => ?_⟩
  · exact (hfail hfalse p).trans (by rw [bitAt_zero, if_neg Bool.false_ne_true])
  · exact (hok htrue p).2.trans (by simp only [p.mem_exactProbes, true_and])

/-! ### One call -/

theorem Tracked.owned (h : s.Tracked)
    (hpinned : ∀ i, bitAt s.core.pinnedMask i = true →
      ∃ p : ExactProbe, p.index = i ∧ (s.core.links p).isSome)
    (hattached : s.core.consumers = 0 → ∀ p : ExactProbe, (s.core.links p).isSome →
      bitAt s.core.pinnedMask p.index = true) : s.Owned where
  toTracked := h
  pinned_attached := and_not_eq_zero_iff.2 fun i hi => (h.attached i).2 (hpinned i hi)
  attached_pinned hzero := and_not_eq_zero_iff.2 fun i hi => by
    obtain ⟨p, rfl, hp⟩ := (h.attached i).1 hi
    exact hattached hzero p hp

namespace Owned

theorem exists_of_pinned (h : s.Owned) {i : ℕ} (hi : bitAt s.core.pinnedMask i = true) :
    ∃ p : ExactProbe, p.index = i ∧ (s.core.links p).isSome :=
  (h.attached i).1 (and_not_eq_zero_iff.1 h.pinned_attached i hi)

theorem pinned_of_links (h : s.Owned) (hzero : s.core.consumers = 0)
    (hp : (s.core.links p).isSome) : bitAt s.core.pinnedMask p.index = true :=
  and_not_eq_zero_iff.1 (h.attached_pinned hzero) _ ((h.isSome_links_iff p).1 hp)

theorem congr {s' : ProbeState} (h : s.Owned) (ht : s'.Tracked)
    (hlinks : s'.core.links = s.core.links) (hrest : SameRest s.core s'.core) : s'.Owned where
  toTracked := ht
  pinned_attached := by
    rw [hrest.pinnedMask, h.attachedMask_eq ht hlinks]
    exact h.pinned_attached
  attached_pinned hzero := by
    rw [hrest.pinnedMask, h.attachedMask_eq ht hlinks]
    exact h.attached_pinned (hrest.consumers.symm.trans hzero)

end Owned

theorem Tracked.attachMissing_failed (h : s.Tracked) (mask : UInt32)
    (hfail : (s.attachMissing oracle mask).2 = false) :
    ExactProbeCore.SameOwners s.core (s.attachMissing oracle mask).1.core := by
  obtain ⟨ht, hrest, hlinks, -⟩ := attachMissing_spec oracle h mask
  exact ⟨h.attachedMask_eq ht (hlinks hfail), hrest.pinnedMask, hlinks hfail, hrest.generation,
    hrest.consumers⟩

theorem Owned.attachMissing_failed (h : s.Owned) (mask : UInt32)
    (hfail : (s.attachMissing oracle mask).2 = false) :
    (s.attachMissing oracle mask).1.Owned := by
  obtain ⟨ht, hrest, hlinks, -⟩ := attachMissing_spec oracle h.toTracked mask
  exact h.congr ht (hlinks hfail) hrest

theorem Owned.attach_pin (h : s.Owned) (hmask : mask &&& ~~~allProbesMask = 0)
    (hok : (s.attachMissing oracle mask).2 = true) (generation : UInt64) :
    ProbeState.Owned { (s.attachMissing oracle mask).1 with
      core := { (s.attachMissing oracle mask).1.core with
        pinnedMask := (s.attachMissing oracle mask).1.core.pinnedMask ||| mask
        generation := generation } } := by
  obtain ⟨ht, hrest, -, hlinks⟩ := attachMissing_spec oracle h.toTracked mask
  refine Tracked.owned ⟨ht.held, ht.attached⟩ (fun i hi => ?_) fun hzero p hp => ?_
  · rw [bitAt_or, hrest.pinnedMask, Bool.or_eq_true] at hi
    rcases hi with hi | hi
    · obtain ⟨p, rfl, hp⟩ := h.exists_of_pinned hi
      exact ⟨p, rfl, (hlinks hok p).2 (Or.inl hp)⟩
    · obtain ⟨p, rfl⟩ := (ExactProbe.bitAt_allProbesMask i).1 (and_not_eq_zero_iff.1 hmask i hi)
      exact ⟨p, rfl, (hlinks hok p).2 (Or.inr hi)⟩
  · rw [bitAt_or, hrest.pinnedMask, Bool.or_eq_true]
    exact ((hlinks hok p).1 hp).imp
      (h.pinned_of_links (hrest.consumers.symm.trans hzero)) id

theorem Owned.pin (h : s.Owned) (hmask : mask &&& ~~~allProbesMask = 0) (generation : UInt64) :
    (s.pin oracle mask generation).1.Owned := by
  rw [ProbeState.pin]
  cases hr : s.attachMissing oracle mask with
  | mk s' ok =>
    cases ok with
    | false =>
      have := h.attachMissing_failed oracle mask (by rw [hr])
      rwa [hr] at this
    | true =>
      have := h.attach_pin oracle hmask (by rw [hr])
        (if generation ≠ 0 then generation else s'.core.generation)
      rwa [hr] at this

theorem bit_and_not_allProbesMask (p : ExactProbe) : p.bit &&& ~~~allProbesMask = 0 :=
  and_not_eq_zero_iff.2 fun i hi => by
    rw [ExactProbe.bitAt_bit, decide_eq_true_eq] at hi
    exact (ExactProbe.bitAt_allProbesMask i).2 ⟨p, hi.symm⟩

theorem Owned.pinOne {pinned : UInt32} (h : s.Owned) (mask : UInt32) (p : ExactProbe) :
    (ProbeState.pinOne oracle mask (s, pinned) p).1.Owned := by
  rw [ProbeState.pinOne]
  split_ifs
  · exact h
  · cases hr : s.attachMissing oracle p.bit with
    | mk s' ok =>
      cases ok with
      | false =>
        have := h.attachMissing_failed oracle p.bit (by rw [hr])
        rwa [hr] at this
      | true =>
        have := h.attach_pin oracle (bit_and_not_allProbesMask p) (by rw [hr]) s'.core.generation
        rwa [hr] at this

theorem Owned.generation (h : s.Owned) (generation : UInt64) :
    ProbeState.Owned { s with core := { s.core with generation := generation } } :=
  ⟨⟨h.held, h.attached⟩, h.pinned_attached, h.attached_pinned⟩

theorem Owned.pinBestEffort (h : s.Owned) (mask : UInt32) (generation : UInt64) :
    (s.pinBestEffort oracle mask generation).1.Owned := by
  have hfold : (exactProbes.foldl (ProbeState.pinOne oracle mask)
      (s, s.core.pinnedMask &&& mask)).1.Owned :=
    List.foldlRecOn (motive := fun sp : ProbeState × UInt32 => sp.1.Owned) exactProbes _ h
      fun sp hsp p _ => Owned.pinOne oracle hsp mask p
  rw [ProbeState.pinBestEffort]
  dsimp only
  split_ifs
  · exact hfold.generation generation
  · exact hfold

theorem Owned.attach_window (h : s.Owned) (hopen : s.core.consumers ≠ 0) (mask : UInt32) :
    (s.attachMissing oracle mask).1.Owned ∧
      (s.attachMissing oracle mask).1.core.consumers = s.core.consumers := by
  obtain ⟨ht, hrest, hfail, hok⟩ := attachMissing_spec oracle h.toTracked mask
  refine ⟨ht.owned (fun i hi => ?_) fun hzero => ?_, hrest.consumers⟩
  · rw [hrest.pinnedMask] at hi
    obtain ⟨p, rfl, hp⟩ := h.exists_of_pinned hi
    refine ⟨p, rfl, ?_⟩
    cases hr : (s.attachMissing oracle mask).2 with
    | false => rwa [hfail hr]
    | true => exact (hok hr p).2 (Or.inl hp)
  · exact absurd (hrest.consumers.symm.trans hzero) hopen

theorem Owned.acquireOptional (h : s.Owned) (hopen : s.core.consumers ≠ 0) (optional : UInt32)
    (p : ExactProbe) : (ProbeState.acquireOptional oracle optional s p).Owned ∧
      (ProbeState.acquireOptional oracle optional s p).core.consumers ≠ 0 := by
  rw [ProbeState.acquireOptional]
  split_ifs
  · exact ⟨h, hopen⟩
  · obtain ⟨howned, hcons⟩ := h.attach_window oracle hopen p.bit
    exact ⟨howned, hcons ▸ hopen⟩

theorem Owned.grant (h : s.Owned) (mask : UInt32)
    (hok : (s.attachMissing oracle mask).2 = true) (generation : UInt64) :
    ProbeState.Owned { (s.attachMissing oracle mask).1 with
      core := { (s.attachMissing oracle mask).1.core with
        generation := generation
        consumers := 1 } } := by
  obtain ⟨ht, hrest, -, hlinks⟩ := attachMissing_spec oracle h.toTracked mask
  refine Tracked.owned ⟨ht.held, ht.attached⟩ (fun i hi => ?_) fun hzero => ?_
  · rw [hrest.pinnedMask] at hi
    obtain ⟨p, rfl, hp⟩ := h.exists_of_pinned hi
    exact ⟨p, rfl, (hlinks hok p).2 (Or.inl hp)⟩
  · exact absurd hzero (show (1 : UInt32) ≠ 0 by decide)

/-- **A window is acquired.** The ownership is kept exactly if the number of consumers does not wrap
while transient probes are attached. -/
theorem Owned.acquire_iff (h : s.Owned) (mask : UInt32) (generation : UInt64) :
    (s.acquire oracle mask generation).1.Owned ↔ (ProbeCall.acquire mask generation).Counts s := by
  rw [ProbeState.acquire, ProbeCall.Counts]
  by_cases hgen : generation = 0
  · rw [if_pos hgen]
    exact iff_of_true h fun hwrap => hwrap.2.1 hgen
  rw [if_neg hgen]
  by_cases hcons : s.core.consumers = 0
  · have hne : s.core.consumers ≠ 0xFFFFFFFF := by rw [hcons]; decide
    rw [if_neg (not_not.2 hcons)]
    simp only [hne, false_and, not_false_eq_true, iff_true]
    cases hr : s.attachMissing oracle (mask &&& ~~~phaseMask) with
    | mk s' ok =>
      cases ok with
      | false =>
        have := h.attachMissing_failed oracle (mask &&& ~~~phaseMask) (by rw [hr])
        rwa [hr] at this
      | true =>
        have hgrant := h.grant oracle (mask &&& ~~~phaseMask) (by rw [hr]) generation
        rw [hr] at hgrant
        exact (List.foldlRecOn
          (motive := fun s : ProbeState => s.Owned ∧ s.core.consumers ≠ 0) exactProbes
          (ProbeState.acquireOptional oracle (mask &&& phaseMask))
          ⟨hgrant, show (1 : UInt32) ≠ 0 by decide⟩
          fun s hs p _ => Owned.acquireOptional oracle hs.1 hs.2 _ p).1
  · rw [if_pos hcons]
    by_cases hmatch : s.core.generation = generation
    · rw [if_neg (not_not.2 hmatch)]
      simp only [hgen, hmatch, ne_eq, not_false_eq_true, true_and]
      have hwrap : s.core.consumers + 1 = 0 ↔ s.core.consumers = 0xFFFFFFFF := by
        rw [← UInt32.toNat_inj, ← UInt32.toNat_inj, UInt32.toNat_add]
        have := s.core.consumers.toNat_lt
        show (_ + 1) % 2 ^ 32 = 0 ↔ _ = 0xFFFFFFFF
        omega
      constructor
      · rintro hafter ⟨hmax, htransient⟩
        exact htransient (hafter.attached_pinned (hwrap.2 hmax))
      · intro hcounts
        refine ⟨⟨h.held, h.attached⟩, h.pinned_attached, fun hzero => ?_⟩
        exact not_not.1 fun htransient => hcounts ⟨hwrap.1 hzero, htransient⟩
    · rw [if_pos hmatch]
      simp only [h, hmatch, false_and, and_false, not_false_eq_true]

theorem Owned.detachMask_of_pinned {t : ProbeState} (ht : t.Tracked)
    (hsub : ∀ p : ExactProbe, bitAt mask p.index = true → (t.core.links p).isSome)
    (hpinned : ∀ i, bitAt t.core.pinnedMask i = true →
      ∃ p : ExactProbe, p.index = i ∧ (t.core.links p).isSome ∧ bitAt mask i = false)
    (hleft : ∀ p : ExactProbe, (t.core.links p).isSome → bitAt mask p.index = false →
      bitAt t.core.pinnedMask p.index = true) : (t.detachMask mask).Owned := by
  obtain ⟨ht', hrest, hlinks⟩ := detachMask_spec ht hsub
  refine ht'.owned (fun i hi => ?_) fun _ p hp => ?_
  · rw [hrest.pinnedMask] at hi
    obtain ⟨p, rfl, hp, hbit⟩ := hpinned i hi
    refine ⟨p, rfl, ?_⟩
    rwa [hlinks, if_neg (by rw [hbit]; exact Bool.false_ne_true)]
  · rw [hlinks] at hp
    split_ifs at hp with hbit
    · exact absurd hp Bool.false_ne_true
    · rw [hrest.pinnedMask]
      exact hleft p hp (Bool.eq_false_iff.2 hbit)

theorem Owned.release (h : s.Owned) : s.release.Owned := by
  rw [ProbeState.release]
  split_ifs with hzero
  · exact h
  dsimp only
  split_ifs with hlast
  · refine ⟨⟨h.held, h.attached⟩, h.pinned_attached, fun hcons => absurd hcons hlast⟩
  · let t : ProbeState := { s with
      core := { s.core with consumers := s.core.consumers - 1 } }
    refine Owned.generation (Owned.detachMask_of_pinned (t := t) ⟨h.held, h.attached⟩
      (fun p hp => ?_) (fun i hi => ?_) fun p hp hbit => ?_) 0
    · rw [bitAt_and_not, Bool.and_eq_true] at hp
      exact (h.isSome_links_iff p).2 hp.1
    · obtain ⟨p, rfl, hp⟩ := h.exists_of_pinned hi
      refine ⟨p, rfl, hp, ?_⟩
      have hi : bitAt s.core.pinnedMask p.index = true := hi
      rw [bitAt_and_not, hi, Bool.not_true, Bool.and_false]
    · rw [bitAt_and_not, (h.isSome_links_iff p).1 hp, Bool.true_and, Bool.not_eq_false'] at hbit
      exact hbit

theorem Owned.unpin (h : s.Owned) (mask : UInt32) : (s.unpin mask).Owned := by
  have hpinned : ∀ i, bitAt (s.core.pinnedMask &&& ~~~mask) i = true →
      ∃ p : ExactProbe, p.index = i ∧ (s.core.links p).isSome ∧ bitAt mask i = false :=
    fun i hi => by
      rw [bitAt_and_not, Bool.and_eq_true, Bool.not_eq_true'] at hi
      obtain ⟨p, hidx, hp⟩ := h.exists_of_pinned hi.1
      exact ⟨p, hidx, hp, hi.2⟩
  rw [ProbeState.unpin]
  dsimp only
  split_ifs with hcons
  · refine Tracked.owned ⟨h.held, h.attached⟩ (fun i hi => ?_) fun hzero => absurd hzero hcons
    obtain ⟨p, hidx, hp, -⟩ := hpinned i hi
    exact ⟨p, hidx, hp⟩
  · rw [not_not] at hcons
    let t : ProbeState := { s with
      core := { s.core with pinnedMask := s.core.pinnedMask &&& ~~~mask } }
    refine Owned.detachMask_of_pinned (t := t) ⟨h.held, h.attached⟩ (fun p hp => ?_)
      (fun i hi => ?_) fun p hp hbit => ?_
    · rw [bitAt_and, Bool.and_eq_true] at hp
      exact (h.isSome_links_iff p).2 hp.1
    · obtain ⟨p, hidx, hp, hbit⟩ := hpinned i hi
      exact ⟨p, hidx, hp, by rw [bitAt_and, hbit, Bool.and_false]⟩
    · rw [bitAt_and, (h.isSome_links_iff p).1 hp, Bool.true_and] at hbit
      rw [bitAt_and_not, h.pinned_of_links hcons hp, hbit]
      rfl

theorem Owned.cleanup (h : s.Owned) : s.cleanup.Owned := by
  have hlinked : ∀ p : ExactProbe, bitAt s.core.attachedMask p.index = true → _ := fun p hp =>
    (h.isSome_links_iff p).2 hp
  obtain ⟨ht, -, hlinks⟩ := detachMask_spec h.toTracked hlinked
  have hnone : (s.detachMask s.core.attachedMask).core.links = fun _ => none := funext fun p => by
    rw [hlinks]
    split_ifs with hbit
    · rfl
    · exact (h.links_eq_none_iff p).2 (Bool.eq_false_iff.2 hbit)
  have hempty : (0 : UInt32) &&& ~~~0 = 0 := by decide
  refine ⟨⟨?_, fun i => ?_⟩, hempty, fun _ => hempty⟩
  · show heldLinks (s.detachMask s.core.attachedMask).log = _
    rw [ht.held, hnone]
    rfl
  · show bitAt 0 i = true ↔ _
    simp [ProbeState.cleanup]

/-- **A call keeps the ownership** exactly if it counts its consumer. -/
theorem Owned.call_iff (h : s.Owned) {c : ProbeCall} (hmask : c.mask &&& ~~~allProbesMask = 0) :
    (s.call oracle c).1.Owned ↔ c.Counts s := by
  cases c with
  | pin mask generation => exact iff_of_true (h.pin oracle hmask generation) trivial
  | pinBestEffort mask generation =>
    exact iff_of_true (h.pinBestEffort oracle mask generation) trivial
  | acquire mask generation => exact h.acquire_iff oracle mask generation
  | release => exact iff_of_true h.release trivial
  | unpin mask => exact iff_of_true (h.unpin mask) trivial
  | cleanup => exact iff_of_true h.cleanup trivial

theorem Owned.call_failed (h : s.Owned) {c : ProbeCall} (hfail : (s.call oracle c).2 = false) :
    ExactProbeCore.SameOwners s.core (s.call oracle c).1.core := by
  cases c with
  | pin mask generation =>
    rw [call, ProbeState.pin] at hfail ⊢
    cases hr : s.attachMissing oracle mask with
    | mk s' ok =>
      rw [hr] at hfail
      cases ok with
      | false =>
        have := h.toTracked.attachMissing_failed oracle mask (by rw [hr])
        rwa [hr] at this
      | true => exact absurd hfail (by simp)
  | acquire mask generation =>
    rw [call, ProbeState.acquire] at hfail ⊢
    split_ifs at hfail ⊢
    · exact ⟨rfl, rfl, rfl, rfl, rfl⟩
    · exact ⟨rfl, rfl, rfl, rfl, rfl⟩
    · cases hr : s.attachMissing oracle (mask &&& ~~~phaseMask) with
      | mk s' ok =>
        rw [hr] at hfail
        cases ok with
        | false =>
          have := h.toTracked.attachMissing_failed oracle (mask &&& ~~~phaseMask)
            (by rw [hr])
          rwa [hr] at this
        | true => exact absurd hfail (by simp)
  | pinBestEffort | release | unpin | cleanup => exact absurd hfail (by simp [call])

end ProbeState

/-! ### Runs -/

/-- The state after some calls on a new core. -/
def probeRun (oracle : AttachOracle) (calls : List ProbeCall) : ProbeState :=
  calls.foldl (fun s c => (s.call oracle c).1) {}

theorem owned_new : ({} : ProbeState).Owned :=
  ⟨⟨rfl, fun i => by simp⟩, by decide, fun _ => by decide⟩

theorem core_acquires {n : ℕ} (hn : n < 2 ^ 32) :
    let c := (probeRun (fun _ => .ok 1) (List.replicate (n + 1) (.acquire 0x1 7))).core
    c.consumers = UInt32.ofNat (n + 1) ∧ c.generation = 7 ∧ c.attachedMask = 0x1 ∧
      c.pinnedMask = 0 := by
  induction n with
  | zero => exact ⟨rfl, rfl, rfl, rfl⟩
  | succ n ih =>
    obtain ⟨hcons, hgen, hatt, hpin⟩ := ih (Nat.lt_of_succ_lt hn)
    have hne : UInt32.ofNat (n + 1) ≠ 0 := fun h => by
      rw [← UInt32.toNat_inj, UInt32.toNat_ofNat_of_lt' hn] at h
      exact Nat.succ_ne_zero n h
    have hrun : probeRun (fun _ => .ok 1) (List.replicate (n + 1 + 1) (.acquire 0x1 7)) =
        (ProbeState.acquire (fun _ => .ok 1)
          (probeRun (fun _ => .ok 1) (List.replicate (n + 1) (.acquire 0x1 7))) 0x1 7).1 := by
      rw [List.replicate_succ', probeRun, List.foldl_append]
      rfl
    rw [hrun, ProbeState.acquire, if_neg (by decide), if_pos (hcons ▸ hne),
      if_neg (not_not.2 hgen)]
    refine ⟨?_, hgen, hatt, hpin⟩
    show _ + 1 = _
    rw [hcons]
    exact (UInt32.ofNat_add (n + 1) 1).symm

end PgWaitTracer
