import Mathlib.Data.List.MinMax
import PgWaitTracer.Compute.Interference
import PgWaitTracer.Lib.Selection

/-!
# Lock chains

`pgwt_compute_lock_chains` (`src/compute.c`) pairs each wait for a lock with the process whose time
on CPU overlapped it most, and it returns the longest waits. It has room for 4096 waits and for 8192
intervals on CPU, and it stops when it has twice as many links as are asked for. Only then are the
links sorted.

Allocations succeed. `qsort` is any function that sorts.

## Main results

* `lockChains_iff`: when the longest links are returned.
-/

namespace PgWaitTracer

open StableSort

/-! ### Links -/

/-- `struct pgwt_lock_chain_link`. -/
structure LockChainLink where
  waiterPid : UInt32
  blockerPid : UInt32
  lockEvent : UInt32
  lockName : String
  waitNs : ℕ
  timestampNs : ℕ
  deriving DecidableEq, Repr

/-- The records that take part: those whose close was seen. -/
def chainQualifies (f : Filter) (ev : TraceEvent) : Bool :=
  filterMatches f ev && !rightOpenFlagged ev

/-- The waits for a lock. -/
def lockWaits (f : Filter) (events : List TraceEvent) : List ActiveEntry :=
  (events.filter fun ev => chainQualifies f ev && weClass ev.oldEvent = 0x03).map activeEntry

/-- The intervals on CPU. -/
def cpuIntervals (f : Filter) (events : List TraceEvent) : List ActiveEntry :=
  (events.filter fun ev => chainQualifies f ev && ev.oldEvent = 0).map activeEntry

/-- The room for waits. -/
def lockCap : ℕ := 4096

/-- The room for intervals on CPU. -/
def cpuCap : ℕ := 8192

/-- The room for links, an `int`. -/
def linkCap (maxLinks : ℤ) : ℕ := (Int.bmod (maxLinks * 2) (2 ^ 32)).toNat

/-- The process that overlaps a wait most so far, and for how long. -/
structure BestOverlap where
  pid : UInt32 := 0
  overlap : ℕ := 0

/-- Another interval on CPU. -/
def BestOverlap.step (lock : ActiveEntry) (best : BestOverlap) (cpu : ActiveEntry) : BestOverlap :=
  if cpu.pid = lock.pid then best
  else
    let ostart := if cpu.startNs < lock.startNs then lock.startNs else cpu.startNs
    let oend := if lock.endNs < cpu.endNs then lock.endNs else cpu.endNs
    if ostart < oend then
      if best.overlap < oend - ostart then ⟨cpu.pid, oend - ostart⟩ else best
    else best

/-- The process that is taken for the blocker of a wait. -/
def pickBlocker (cpus : List ActiveEntry) (lock : ActiveEntry) : Option UInt32 :=
  let best := cpus.foldl (BestOverlap.step lock) {}
  if best.pid ≠ 0 ∧ 0 < best.overlap then some best.pid else none

/-- The length of an interval. -/
def ActiveEntry.lengthNs (e : ActiveEntry) : ℕ := e.endNs - e.startNs

/-- The link of a wait and its blocker. -/
def chainLink (fullName : UInt32 → String) (lock : ActiveEntry) (blocker : UInt32) :
    LockChainLink :=
  { waiterPid := lock.pid
    blockerPid := blocker
    lockEvent := lock.eventId
    lockName := fullName lock.eventId
    waitNs := lock.lengthNs
    timestampNs := lock.startNs }

/-- The key of `cmp_lock_chain_desc`. -/
def waitKey (l : LockChainLink) : ℕᵒᵈ := OrderDual.toDual l.waitNs

/-- `pgwt_compute_lock_chains`. -/
def computeLockChains (byWait : Sorter waitKey) (fullName : UInt32 → String)
    (events : List TraceEvent) (f : Filter) (maxLinks : ℤ) : List LockChainLink :=
  let locks := (lockWaits f events).take lockCap
  let cpus := (cpuIntervals f events).take cpuCap
  let links := (locks.filterMap fun lock =>
    (pickBlocker cpus lock).map (chainLink fullName lock)).take (linkCap maxLinks)
  (byWait.sort links).take maxLinks.toNat

/-! ### All links -/

/-- The process of the interval on CPU that overlaps a wait most, of another process. -/
def blockerOf (cpus : List ActiveEntry) (lock : ActiveEntry) : Option UInt32 :=
  ((cpus.filter fun cpu => cpu.pid ≠ lock.pid && 0 < overlapNs lock cpu).argmax
    (overlapNs lock)).map ActiveEntry.pid

/-- The links of all waits, with regard to all intervals on CPU. -/
def allLinks (fullName : UInt32 → String) (events : List TraceEvent) (f : Filter) :
    List LockChainLink :=
  (lockWaits f events).filterMap fun lock =>
    (blockerOf (cpuIntervals f events) lock).map (chainLink fullName lock)

/-! ### When the longest links are returned -/

/-- A blocker is found among the intervals on CPU for which there is room. -/
def foundBlocker (f : Filter) (events : List TraceEvent) (lock : ActiveEntry) : Bool :=
  (pickBlocker ((cpuIntervals f events).take cpuCap) lock).isSome

/-- The waits whose links are sorted: of the first ones for which there is room, the first ones for
which a blocker is found. -/
def keptWaits (f : Filter) (events : List TraceEvent) (maxLinks : ℤ) : List ActiveEntry :=
  (((lockWaits f events).take lockCap).filter (foundBlocker f events)).take (linkCap maxLinks)

/-- The other waits. -/
def droppedWaits (f : Filter) (events : List TraceEvent) (maxLinks : ℤ) : List ActiveEntry :=
  (((lockWaits f events).take lockCap).filter (foundBlocker f events)).drop (linkCap maxLinks) ++
    (((lockWaits f events).take lockCap).filter (! foundBlocker f events ·) ++
      (lockWaits f events).drop lockCap)

/-- **The capacities suffice.** A wait that is dropped is no longer than as many waits that are kept
as there are links to return, if it has a blocker; and a wait whose blocker is not the one that
overlaps it most is shorter than as many. -/
structure CapsSuffice (f : Filter) (events : List TraceEvent) (maxLinks : ℤ) : Prop where
  dropped : ∀ lock ∈ droppedWaits f events maxLinks,
    (blockerOf (cpuIntervals f events) lock).isSome →
      maxLinks.toNat ≤ (keptWaits f events maxLinks).countP fun kept =>
        lock.lengthNs ≤ kept.lengthNs
  misled : ∀ lock ∈ keptWaits f events maxLinks,
    pickBlocker ((cpuIntervals f events).take cpuCap) lock ≠
        blockerOf (cpuIntervals f events) lock →
      maxLinks.toNat ≤ (keptWaits f events maxLinks).countP fun kept =>
        lock.lengthNs < kept.lengthNs

theorem perm_kept_dropped (f : Filter) (events : List TraceEvent) (maxLinks : ℤ) :
    (lockWaits f events).Perm (keptWaits f events maxLinks ++ droppedWaits f events maxLinks) := by
  rw [keptWaits, droppedWaits, ← List.append_assoc, List.take_append_drop, ← List.append_assoc]
  conv_lhs => rw [← List.take_append_drop lockCap (lockWaits f events)]
  exact (List.filter_append_perm _ _).symm.append_right _

/-- The link of a wait with the blocker that is found. -/
def foundLink (fullName : UInt32 → String) (f : Filter) (events : List TraceEvent)
    (lock : ActiveEntry) : LockChainLink :=
  chainLink fullName lock ((pickBlocker ((cpuIntervals f events).take cpuCap) lock).getD 0)

theorem filterMap_map_eq_map_filter {α β γ : Type*} (g : α → Option β) (h : α → β → γ) (d : β)
    (l : List α) : (l.filterMap fun a => (g a).map (h a)) =
      (l.filter fun a => (g a).isSome).map fun a => h a ((g a).getD d) := by
  induction l with
  | nil => rfl
  | cons a l ih =>
    cases hg : g a with
    | none =>
      rw [List.filterMap_cons_none (by rw [hg]; rfl), List.filter_cons_of_neg (by simp [hg]), ih]
    | some b =>
      rw [List.filterMap_cons_some (by rw [hg]; rfl), List.filter_cons_of_pos (by simp [hg]),
        List.map_cons, ih, hg]
      rfl

theorem computeLockChains_eq (byWait : Sorter waitKey) (fullName : UInt32 → String)
    (events : List TraceEvent) (f : Filter) (maxLinks : ℤ) :
    computeLockChains byWait fullName events f maxLinks =
      (byWait.sort ((keptWaits f events maxLinks).map (foundLink fullName f events))).take
        maxLinks.toNat := by
  rw [computeLockChains, filterMap_map_eq_map_filter _ _ 0, ← List.map_take]
  rfl

variable {lock : ActiveEntry}

theorem chainLink_inj {fullName : UInt32 → String} {lock' : ActiveEntry} {p p' : UInt32}
    (hlock : lock.startNs ≤ lock.endNs) (hlock' : lock'.startNs ≤ lock'.endNs)
    (h : chainLink fullName lock p = chainLink fullName lock' p') : lock = lock' ∧ p = p' := by
  obtain ⟨pid, event, start, stop⟩ := lock
  obtain ⟨pid', event', start', stop'⟩ := lock'
  rw [chainLink, chainLink, LockChainLink.mk.injEq] at h
  obtain ⟨hpid, hp, hevent, -, hlen, hstart⟩ := h
  dsimp only [ActiveEntry.lengthNs] at hpid hevent hlen hstart hlock hlock'
  have hstop : stop = stop' := by omega
  rw [hpid, hevent, hstart, hstop]
  exact ⟨rfl, hp⟩

theorem start_le_end {f : Filter} {events : List TraceEvent} (h : lock ∈ lockWaits f events) :
    lock.startNs ≤ lock.endNs := by
  obtain ⟨ev, -, rfl⟩ := List.mem_map.mp h
  exact Nat.sub_le _ _

/-- The blocker that is found for a wait is the one that overlaps it most. -/
def rightBlocker (f : Filter) (events : List TraceEvent) (lock : ActiveEntry) : Bool :=
  pickBlocker ((cpuIntervals f events).take cpuCap) lock = blockerOf (cpuIntervals f events) lock

/-- The waits that are kept, with the blocker that overlaps most. -/
def rightWaits (f : Filter) (events : List TraceEvent) (maxLinks : ℤ) : List ActiveEntry :=
  (keptWaits f events maxLinks).filter (rightBlocker f events)

/-- The waits that are kept, with another blocker. -/
def misledWaits (f : Filter) (events : List TraceEvent) (maxLinks : ℤ) : List ActiveEntry :=
  (keptWaits f events maxLinks).filter (! rightBlocker f events ·)

/-- The link of a wait in all links. -/
def trueLink (fullName : UInt32 → String) (f : Filter) (events : List TraceEvent)
    (lock : ActiveEntry) : Option LockChainLink :=
  (blockerOf (cpuIntervals f events) lock).map (chainLink fullName lock)

section Caps

variable (fullName : UInt32 → String) (f : Filter) (events : List TraceEvent) (maxLinks : ℤ)

theorem perm_right_misled : (keptWaits f events maxLinks).Perm
    (rightWaits f events maxLinks ++ misledWaits f events maxLinks) :=
  (List.filter_append_perm _ _).symm

theorem perm_foundLinks : ((keptWaits f events maxLinks).map (foundLink fullName f events)).Perm
    ((rightWaits f events maxLinks).map (foundLink fullName f events) ++
      (misledWaits f events maxLinks).map (foundLink fullName f events)) := by
  rw [← List.map_append]
  exact (perm_right_misled f events maxLinks).map _

variable {f events maxLinks}

theorem exists_pickBlocker (h : lock ∈ keptWaits f events maxLinks) :
    ∃ p, pickBlocker ((cpuIntervals f events).take cpuCap) lock = some p :=
  Option.isSome_iff_exists.mp (List.mem_filter.mp (List.mem_of_mem_take h)).2

theorem mem_lockWaits_of_mem_kept (h : lock ∈ keptWaits f events maxLinks) :
    lock ∈ lockWaits f events :=
  (perm_kept_dropped f events maxLinks).mem_iff.mpr (List.mem_append_left _ h)

theorem mem_misledWaits : lock ∈ misledWaits f events maxLinks ↔
    lock ∈ keptWaits f events maxLinks ∧
      pickBlocker ((cpuIntervals f events).take cpuCap) lock ≠
        blockerOf (cpuIntervals f events) lock := by
  rw [misledWaits, List.mem_filter, rightBlocker, Bool.not_eq_true', decide_eq_false_iff_not]

variable (f events maxLinks)

theorem filterMap_rightWaits :
    (rightWaits f events maxLinks).filterMap (trueLink fullName f events) =
      (rightWaits f events maxLinks).map (foundLink fullName f events) := by
  rw [← List.filterMap_eq_map]
  refine List.filterMap_congr fun lock hlock => ?_
  obtain ⟨hkept, hright⟩ := List.mem_filter.mp hlock
  obtain ⟨p, hp⟩ := exists_pickBlocker hkept
  have hsame := of_decide_eq_true hright
  rw [trueLink, ← hsame, Function.comp_apply, foundLink, hp]
  rfl

theorem perm_allLinks : (allLinks fullName events f).Perm
    ((rightWaits f events maxLinks).map (foundLink fullName f events) ++
      (misledWaits f events maxLinks ++ droppedWaits f events maxLinks).filterMap
        (trueLink fullName f events)) := by
  rw [← filterMap_rightWaits, ← List.filterMap_append, ← List.append_assoc]
  exact ((perm_kept_dropped f events maxLinks).trans
    ((perm_right_misled f events maxLinks).append_right _)).filterMap _

theorem notMem_allLinks (h : lock ∈ misledWaits f events maxLinks) :
    foundLink fullName f events lock ∉ allLinks fullName events f := by
  intro hmem
  obtain ⟨hkept, hne⟩ := mem_misledWaits.mp h
  obtain ⟨p, hp⟩ := exists_pickBlocker hkept
  obtain ⟨lock', hlock', hlink⟩ := List.mem_filterMap.mp hmem
  obtain ⟨p', hp', heq⟩ := Option.map_eq_some_iff.mp hlink
  rw [foundLink, hp] at heq
  obtain ⟨rfl, rfl⟩ := chainLink_inj (start_le_end hlock')
    (start_le_end (mem_lockWaits_of_mem_kept hkept)) heq
  exact hne (hp.trans hp'.symm)

theorem countP_foundLinks (p : ℕ → Bool) :
    ((keptWaits f events maxLinks).map (foundLink fullName f events)).countP
        (fun l => p l.waitNs) =
      (keptWaits f events maxLinks).countP fun kept => p kept.lengthNs := by
  rw [List.countP_map]
  rfl

end Caps

/-- **When the longest links are returned.** In whichever order links of one length come, the links
that are returned are the longest ones of all if and only if the capacities suffice. -/
theorem lockChains_iff (fullName : UInt32 → String) (events : List TraceEvent) (f : Filter)
    (maxLinks : ℤ) :
    (∀ byWait : Sorter waitKey, Selects waitKey maxLinks.toNat (allLinks fullName events f)
        (computeLockChains byWait fullName events f maxLinks)) ↔
      CapsSuffice f events maxLinks := by
  simp only [computeLockChains_eq]
  rw [forall_selects_iff (perm_foundLinks fullName f events maxLinks)
    (perm_allLinks fullName f events maxLinks) fun l hl => by
      obtain ⟨lock, hlock, rfl⟩ := List.mem_map.mp hl
      exact notMem_allLinks fullName f events maxLinks hlock]
  have hshorter : ∀ v : ℕ, ((keptWaits f events maxLinks).map (foundLink fullName f events)).countP
      (fun l => waitKey l < OrderDual.toDual v) =
        (keptWaits f events maxLinks).countP fun kept => v < kept.lengthNs := fun v =>
    countP_foundLinks fullName f events maxLinks fun w => v < w
  have hnotLonger : ∀ v : ℕ,
      ((keptWaits f events maxLinks).map (foundLink fullName f events)).countP
        (fun l => waitKey l ≤ OrderDual.toDual v) =
          (keptWaits f events maxLinks).countP fun kept => v ≤ kept.lengthNs := fun v =>
    countP_foundLinks fullName f events maxLinks fun w => v ≤ w
  constructor
  · rintro ⟨hwrong, hlost⟩
    refine ⟨fun lock hlock hsome => ?_, fun lock hlock hne => ?_⟩
    · obtain ⟨p, hp⟩ := Option.isSome_iff_exists.mp hsome
      have hmem : chainLink fullName lock p ∈ (misledWaits f events maxLinks ++
          droppedWaits f events maxLinks).filterMap (trueLink fullName f events) :=
        List.mem_filterMap.mpr ⟨lock, List.mem_append_right _ hlock, by rw [trueLink, hp]; rfl⟩
      exact (hlost _ hmem).trans_eq (hnotLonger _)
    · have hmem := List.mem_map_of_mem (f := foundLink fullName f events)
        (mem_misledWaits.mpr ⟨hlock, hne⟩)
      exact (hwrong _ hmem).trans_eq (hshorter _)
  · rintro ⟨hdropped, hmisled⟩
    refine ⟨fun l hl => ?_, fun l hl => ?_⟩
    · obtain ⟨lock, hlock, rfl⟩ := List.mem_map.mp hl
      obtain ⟨hkept, hne⟩ := mem_misledWaits.mp hlock
      exact (hmisled lock hkept hne).trans_eq (hshorter _).symm
    · obtain ⟨lock, hlock, hlink⟩ := List.mem_filterMap.mp hl
      obtain ⟨p, hp, rfl⟩ := Option.map_eq_some_iff.mp hlink
      refine le_of_le_of_eq ?_ (hnotLonger lock.lengthNs).symm
      rcases List.mem_append.mp hlock with hlock | hlock
      · obtain ⟨hkept, hne⟩ := mem_misledWaits.mp hlock
        refine (hmisled lock hkept hne).trans (List.countP_mono_left fun kept _ h => ?_)
        rw [decide_eq_true_eq] at h ⊢
        exact h.le
      · exact hdropped lock hlock (by rw [hp]; rfl)

/-- A session on CPU for 100 ns, and three sessions that wait for a lock meanwhile, the last one
longest. -/
def threeLockWaits : List TraceEvent :=
  let record (pid event : UInt32) (timestampNs durationNs : UInt64) : TraceEvent :=
    { timestampNs := timestampNs, pid := pid, oldEvent := event, newEvent := 0, flags := 0,
      durationNs := durationNs, queryId := 0, cpuNs := cpuNsUnknown }
  [record 9 0 100 100, record 1 0x03000001 20 10, record 2 0x03000001 42 12,
    record 3 0x03000001 90 30]

/-- One link is asked for, and the longest wait is not looked at. -/
theorem lockChains_lose_longest :
    ¬ Selects waitKey 1 (allLinks (fun _ => "") threeLockWaits {})
      (computeLockChains (insertionSorter _) (fun _ => "") threeLockWaits {} 1) := by
  intro h
  have hle := h.le_left ⟨3, 9, 0x03000001, "", 30, 60⟩ (by decide) ⟨2, 9, 0x03000001, "", 12, 30⟩
    (by decide)
  revert hle
  decide

end PgWaitTracer
