import PgWaitTracer.Lib.BackwardShift
import PgWaitTracer.Summary.QueryTime
import PgWaitTracer.Summary.Tables

/-!
# The table of what waits, by process

`qattr_slot` finds the slot of a process or takes a vacant one, and `qattr_slot_free` gives it back
when the process exits (`src/summary_writer.c`). A slot that is given back must not cut the probe
sequences of other processes: the slots behind it are moved up.

What each process left in its slot is kept here besides, by its pid. The pid 0 marks a vacant slot,
and a record of pid 0 gets none.

## Main results

* `closeGap_eq`: the loop of `qattr_slot_free` is the deletion with backward shift.
* `QattrInv.summaryQattrStep_slots`: what the writer does on the table are such calls.
* `isQattrMap_qattrRun`: after all sequences of calls the table is the finite map.
* `isQattrMap_summaryRun`: so it is in every run of the writer.
-/

namespace PgWaitTracer

open LinearProbe

/-! ### Calls on the table -/

/-- The slot belongs to no process. -/
def QattrSlot.vacant (s : QattrSlot) : Bool := s.pid = 0

/-- What a slot keeps for its process. -/
structure QattrState where
  q : QattrPid := {}
  parked : List PushCall := []

/-- The slot of a process with what it keeps. -/
def QattrState.slot (st : QattrState) (pid : UInt32) : QattrSlot := ⟨pid, st.q, st.parked⟩

/-- What the slot keeps. -/
def QattrSlot.state (s : QattrSlot) : QattrState := ⟨s.q, s.parked⟩

/-- What the writer does with the table: it looks a process up and writes what its slot keeps, or it
looks the process up and gives the slot back. -/
inductive QattrOp
  | use (pid : UInt32) (f : QattrState → QattrState)
  | free (pid : UInt32)

/-- The table after a call. -/
def SummaryQattr.apply (t : SummaryQattr) : QattrOp → SummaryQattr
  | .use pid f =>
    match t.slot pid with
    | (t, none) => t
    | (t, some j) =>
      { t with slots := t.slots.modify j fun s => (f s.state).slot s.pid }
  | .free pid =>
    match t.slot pid with
    | (t, none) => t
    | (t, some j) => t.free j

/-- The table, and what was kept last for each process that got a slot and did not give it back. -/
structure QattrRun where
  table : SummaryQattr := {}
  held : UInt32 → Option QattrState := fun _ => none

namespace QattrRun

/-- The table and the processes after a call. -/
def step (r : QattrRun) (op : QattrOp) : QattrRun :=
  { table := r.table.apply op
    held := match op with
      | .use pid f =>
        if (r.table.slot pid).2.isSome then
          Function.update r.held pid (some (f ((r.held pid).getD {})))
        else r.held
      | .free pid =>
        if (r.table.slot pid).2.isSome then Function.update r.held pid none else r.held }

end QattrRun

/-- The table after calls. -/
def qattrRun (ops : List QattrOp) : QattrRun := ops.foldl QattrRun.step {}

/-- The table is the finite map from the processes to what is kept for them. No process has two
slots, one that is held is found with what is kept for it, and one that is not held is in no slot.
It gets a new one as long as there is a vacant slot. -/
structure IsQattrMap (t : SummaryQattr) (held : UInt32 → Option QattrState) : Prop where
  length_eq : t.slots.length = summaryQattrSlots
  one_slot : ∀ (i j : ℕ) (s s' : QattrSlot), t.slots[i]? = some s → t.slots[j]? = some s' →
    s.pid ≠ 0 → s.pid = s'.pid → i = j
  found : ∀ pid st, held pid = some st →
    ∃ j, t.slot pid = (t, some j) ∧ t.slots[j]? = some (st.slot pid)
  not_found : ∀ pid ≠ 0, held pid = none → ∀ s ∈ t.slots, s.pid ≠ pid
  new_slot : ∀ pid ≠ 0, held pid = none → (∃ s ∈ t.slots, s.pid = 0) →
    ∃ j s, t.slots[j]? = some s ∧ s.pid = 0 ∧
      t.slot pid = ({ t with slots := t.slots.set j { pid := pid } }, some j)
  full : ∀ pid ≠ 0, (t.slot pid).2 = none → ∀ s ∈ t.slots, s.pid ≠ 0 ∧ s.pid ≠ pid

/-! ### The deletion -/

/-- **`qattr_slot_free` is the deletion with backward shift.** -/
theorem closeGap_eq (n : ℕ) (slots : List QattrSlot) (hole i : ℕ) (hlen : 0 < slots.length) :
    SummaryQattr.closeGap n slots hole i =
      let r := shiftBack QattrSlot.vacant (fun s => slotOf32 s.pid % slots.length) n slots hole i
      r.1.set r.2 {} := by
  induction n generalizing slots hole i with
  | zero => rfl
  | succ n ih =>
    have hlt := Nat.mod_lt (i + 1) hlen
    rw [SummaryQattr.closeGap, shiftBack, List.getD_eq_getElem?_getD,
      List.getElem?_eq_getElem hlt, Option.getD_some]
    generalize slots[(i + 1) % slots.length] = c
    have hvac : (c.vacant = true) = (c.pid = 0) := by rw [QattrSlot.vacant, decide_eq_true_eq]
    have hbetween (home : ℕ) : SummaryQattr.homeBetween hole home ((i + 1) % slots.length) =
        between hole home ((i + 1) % slots.length) := rfl
    have hhome (pid : UInt32) : (hash32 pid).toNat = slotOf32 pid := rfl
    have hmoved := ih (slots.set hole c) ((i + 1) % slots.length) ((i + 1) % slots.length)
      (by rw [List.length_set]; exact hlen)
    rw [List.length_set] at hmoved
    simp only [hvac, hbetween, hhome, ih slots hole _ hlen, hmoved]
    split_ifs <;> rfl

theorem SummaryQattr.free_slots (t : SummaryQattr) (j : ℕ) (hlen : t.slots.length = n)
    (hn : 0 < n) : (t.free j).slots =
      eraseSlot QattrSlot.vacant (fun s => slotOf32 s.pid % n) {} t.slots j := by
  subst hlen
  exact closeGap_eq _ _ _ _ hn

/-! ### The lookup -/

/-- The slots with different processes, each where it is probed to. -/
def QattrMended (slots : List QattrSlot) : Prop :=
  Mended QattrSlot.pid QattrSlot.vacant slotOf32 summaryQattrSlots slots

/-- The slot that a process is probed to. -/
def qattrProbe (slots : List QattrSlot) (pid : UInt32) : Option ℕ :=
  probe (stops QattrSlot.pid QattrSlot.vacant pid) slots (slotOf32 pid)

variable {pid : UInt32}

theorem SummaryQattr.slot_eq (t : SummaryQattr) (hpid : pid ≠ 0) :
    t.slot pid = match qattrProbe t.slots pid with
      | none => ({ t with tableFull := t.tableFull + 1 }, none)
      | some j =>
        if (t.slots[j]?).any fun s => s.pid = pid then (t, some j)
        else ({ t with slots := t.slots.set j { pid := pid } }, some j) := by
  have hstop : (fun s : QattrSlot => decide (s.pid = pid) || decide (s.pid = 0)) =
      stops QattrSlot.pid QattrSlot.vacant pid := funext fun s => Bool.or_comm ..
  rw [SummaryQattr.slot, if_neg hpid, hstop]
  rfl

theorem QattrMended.lookup_of_probe {slots : List QattrSlot} (h : QattrMended slots) {j : ℕ}
    {s : QattrSlot} (hprobe : qattrProbe slots pid = some j) (hj : slots[j]? = some s) :
    lookup QattrSlot.pid QattrSlot.vacant slots pid = if s.vacant then none else some s :=
  h.probed.lookup_of_probe hprobe hj

theorem QattrMended.pid_ne_of_lookup {slots : List QattrSlot} (h : QattrMended slots)
    (hpid : pid ≠ 0) (hnone : lookup QattrSlot.pid QattrSlot.vacant slots pid = none) :
    ∀ s ∈ slots, s.pid ≠ pid := by
  rintro s hs rfl
  obtain ⟨j, hj⟩ := List.mem_iff_getElem?.1 hs
  have hsome := h.probed.lookup_eq_some.2 ⟨j, hj, decide_eq_false hpid, rfl⟩
  rw [hnone] at hsome
  exact nomatch hsome

/-- What a lookup does: the process has its slot, it gets a vacant one, or there is none. -/
inductive QattrFound (t : SummaryQattr) (pid : UInt32) : Prop
  | own (j : ℕ) (s : QattrSlot) (hprobe : qattrProbe t.slots pid = some j)
      (hj : t.slots[j]? = some s) (hs : s.pid = pid) (heq : t.slot pid = (t, some j))
      (hlookup : lookup QattrSlot.pid QattrSlot.vacant t.slots pid = some s)
  | fresh (j : ℕ) (s : QattrSlot) (hprobe : qattrProbe t.slots pid = some j)
      (hj : t.slots[j]? = some s) (hs : s.pid = 0)
      (heq : t.slot pid = ({ t with slots := t.slots.set j { pid := pid } }, some j))
      (hlookup : lookup QattrSlot.pid QattrSlot.vacant t.slots pid = none)
  | full (heq : t.slot pid = ({ t with tableFull := t.tableFull + 1 }, none))
      (hall : ∀ s ∈ t.slots, s.pid ≠ 0 ∧ s.pid ≠ pid)

theorem QattrMended.slot_cases {t : SummaryQattr} (h : QattrMended t.slots) (hpid : pid ≠ 0) :
    QattrFound t pid := by
  have heq := t.slot_eq hpid
  rcases hprobe : qattrProbe t.slots pid with _ | j
  · rw [hprobe] at heq
    refine .full heq fun s hs => ?_
    obtain ⟨i, hi⟩ := List.mem_iff_getElem?.1 hs
    have hstop : stops QattrSlot.pid QattrSlot.vacant pid s = false := by
      by_contra hstop
      obtain ⟨j, hj⟩ := exists_probe (stops QattrSlot.pid QattrSlot.vacant pid) (slotOf32 pid) hi
        (Bool.not_eq_false _ ▸ hstop)
      rw [qattrProbe, hj] at hprobe
      exact nomatch hprobe
    obtain ⟨hvac, hne⟩ := stops_eq_false_iff.1 hstop
    exact ⟨of_decide_eq_false hvac, hne⟩
  · obtain ⟨s, hj, hstop⟩ := exists_of_probe hprobe
    have hlookup := h.lookup_of_probe hprobe hj
    rw [hprobe] at heq
    dsimp only at heq
    rw [hj, Option.any_some] at heq
    by_cases hs : s.pid = pid
    · have hocc : s.vacant = false := decide_eq_false (hs ▸ hpid)
      rw [hocc] at hlookup
      exact .own j s hprobe hj hs (by simpa [hs] using heq) hlookup
    · have hvac : s.vacant = true := by
        rwa [stops, decide_eq_false hs, Bool.or_false] at hstop
      rw [hvac] at hlookup
      exact .fresh j s hprobe hj (of_decide_eq_true hvac) (by simpa [hs] using heq) hlookup

/-! ### A call -/

/-- The slots are the finite map of what is held. -/
structure QattrInv (t : SummaryQattr) (held : UInt32 → Option QattrState) : Prop where
  mended : QattrMended t.slots
  held_eq : ∀ pid, held pid =
    (lookup QattrSlot.pid QattrSlot.vacant t.slots pid).map QattrSlot.state

theorem qattrInv_start : QattrInv {} fun _ => none where
  mended := Mended.replicate rfl (by decide)
  held_eq pid := by rw [lookup, occupied_replicate rfl]; rfl

variable {t : SummaryQattr} {held : UInt32 → Option QattrState} {pid : UInt32}

theorem QattrInv.held_zero (h : QattrInv t held) : held 0 = none := by
  rw [h.held_eq, Option.map_eq_none_iff, Option.eq_none_iff_forall_ne_some]
  intro s hs
  obtain ⟨j, -, hocc, hkey⟩ := h.mended.probed.lookup_eq_some.1 hs
  exact of_decide_eq_false hocc hkey

theorem QattrInv.write (h : QattrInv t held) {j : ℕ} (hpid : pid ≠ 0)
    (hprobe : qattrProbe t.slots pid = some j) (st : QattrState) :
    QattrInv { t with slots := t.slots.set j (st.slot pid) }
      (Function.update held pid (some st)) where
  mended := h.mended.set (r := st.slot pid) hprobe (decide_eq_false hpid)
  held_eq k := by
    have hset := h.mended.probed.lookup_set (r := st.slot pid) hprobe rfl (decide_eq_false hpid)
    rw [hset]
    by_cases hk : k = pid
    · rw [hk, Function.update_self, Function.update_self]
      rfl
    · rw [Function.update_of_ne hk, Function.update_of_ne hk, h.held_eq]

theorem QattrInv.free (h : QattrInv t held) {j : ℕ} {s : QattrSlot} (hpid : pid ≠ 0)
    (hj : t.slots[j]? = some s) (hs : s.pid = pid) :
    QattrInv (t.free j) (Function.update held pid none) := by
  have hocc : s.vacant = false := decide_eq_false (hs ▸ hpid)
  have hslots := t.free_slots j h.mended.length_eq (by decide)
  constructor
  · rw [hslots]
    exact h.mended.eraseSlot rfl hj hocc
  · intro k
    rw [hslots, h.mended.lookup_eraseSlot rfl hj hocc, hs]
    by_cases hk : k = pid
    · rw [hk, Function.update_self, Function.update_self]
      rfl
    · rw [Function.update_of_ne hk, Function.update_of_ne hk, h.held_eq]

/-- **A call keeps the finite map.** -/
theorem QattrInv.step {r : QattrRun} (h : QattrInv r.table r.held) (op : QattrOp) :
    QattrInv (r.step op).table (r.step op).held := by
  cases op with
  | use pid f =>
    dsimp only [QattrRun.step, SummaryQattr.apply]
    by_cases hpid : pid = 0
    · simpa [hpid, SummaryQattr.slot] using h
    rcases h.mended.slot_cases hpid with ⟨j, s, hprobe, hj, hs, heq, hlookup⟩ |
      ⟨j, s, hprobe, hj, hs, heq, hlookup⟩ | ⟨heq, hall⟩
    · have hheld : r.held pid = some s.state := by rw [h.held_eq, hlookup]; rfl
      rw [heq, hheld]
      dsimp only
      rw [modify_of_getElem? hj, hs]
      exact h.write hpid hprobe (f s.state)
    · have hheld : r.held pid = none := by rw [h.held_eq, hlookup]; rfl
      rw [heq, hheld]
      dsimp only
      rw [modify_set_self hj]
      exact h.write hpid hprobe (f {})
    · rw [heq]
      exact ⟨h.mended, h.held_eq⟩
  | free pid =>
    dsimp only [QattrRun.step, SummaryQattr.apply]
    by_cases hpid : pid = 0
    · simpa [hpid, SummaryQattr.slot] using h
    rcases h.mended.slot_cases hpid with ⟨j, s, hprobe, hj, hs, heq, hlookup⟩ |
      ⟨j, s, hprobe, hj, hs, heq, hlookup⟩ | ⟨heq, hall⟩
    · rw [heq]
      exact h.free hpid hj hs
    · rw [heq]
      have hwrite := h.write hpid hprobe {}
      have hself := List.getElem?_set_self (a := ({} : QattrState).slot pid)
        (List.getElem?_eq_some_iff.1 hj).1
      have hfree := hwrite.free hpid hself rfl
      rwa [Function.update_idem] at hfree
    · rw [heq]
      exact ⟨h.mended, h.held_eq⟩

theorem qattrInv_qattrRun (ops : List QattrOp) :
    QattrInv (qattrRun ops).table (qattrRun ops).held :=
  List.foldlRecOn (motive := fun r : QattrRun => QattrInv r.table r.held) ops _ qattrInv_start
    fun _ h op _ => h.step op

/-! ### The finite map -/

/-- The slots that are the finite map of what is held make the table one. -/
theorem QattrInv.isQattrMap (h : QattrInv t held) : IsQattrMap t held where
  length_eq := h.mended.length_eq
  one_slot i j s s' hi hj hs hkey :=
    h.mended.probed.eq_of_key hi hj (decide_eq_false hs) (decide_eq_false (hkey ▸ hs)) hkey
  found pid st hst := by
    have hpid : pid ≠ 0 := by
      rintro rfl
      rw [h.held_zero] at hst
      exact nomatch hst
    rw [h.held_eq, Option.map_eq_some_iff] at hst
    obtain ⟨s', hs', rfl⟩ := hst
    rcases h.mended.slot_cases hpid with ⟨j, s, -, hj, hs, heq, hlookup⟩ |
      ⟨j, s, -, hj, hs, heq, hlookup⟩ | ⟨heq, hall⟩
    · rw [hlookup] at hs'
      obtain rfl := Option.some.inj hs'
      exact ⟨j, heq, by rw [hj, ← hs]; rfl⟩
    · rw [hlookup] at hs'
      exact nomatch hs'
    · obtain ⟨j, hj, -, hkey⟩ := h.mended.probed.lookup_eq_some.1 hs'
      exact absurd hkey (hall s' (List.mem_of_getElem? hj)).2
  not_found pid hpid hnone := by
    rw [h.held_eq, Option.map_eq_none_iff] at hnone
    exact h.mended.pid_ne_of_lookup hpid hnone
  new_slot pid hpid hnone hvac := by
    rw [h.held_eq, Option.map_eq_none_iff] at hnone
    rcases h.mended.slot_cases hpid with ⟨j, s, -, hj, hs, heq, hlookup⟩ |
      ⟨j, s, -, hj, hs, heq, hlookup⟩ | ⟨heq, hall⟩
    · rw [hnone] at hlookup
      exact nomatch hlookup
    · exact ⟨j, s, hj, hs, heq⟩
    · obtain ⟨s, hs, hzero⟩ := hvac
      exact absurd hzero (hall s hs).1
  full pid hpid hnone := by
    rcases h.mended.slot_cases hpid with ⟨j, s, -, hj, hs, heq, hlookup⟩ |
      ⟨j, s, -, hj, hs, heq, hlookup⟩ | ⟨heq, hall⟩
    · rw [heq] at hnone
      exact nomatch hnone
    · rw [heq] at hnone
      exact nomatch hnone
    · exact hall

/-- **The table is a finite map.** After all sequences of lookups and deletions no process has two
slots, one that got a slot and did not give it back is found with what was kept for it last, one
that gave it back is in no slot, and a lookup of a process fails only if all slots belong to other
processes. -/
theorem isQattrMap_qattrRun (ops : List QattrOp) :
    IsQattrMap (qattrRun ops).table (qattrRun ops).held :=
  (qattrInv_qattrRun ops).isQattrMap

/-- The lookup of pid 0 fails in a table that is not full. -/
theorem qattrRun_pid_zero : ¬ ∀ (ops : List QattrOp) (pid : UInt32),
    ((qattrRun ops).table.slot pid).2 = none →
      ∀ s ∈ (qattrRun ops).table.slots, s.pid ≠ 0 ∧ s.pid ≠ pid := by
  intro h
  refine (h [] 0 rfl {} ?_).1 rfl
  exact List.mem_replicate.2 ⟨by decide, rfl⟩

/-! ### The writer -/

theorem QattrSlot.step_pid (s : QattrSlot) (c : PushCall) : (s.step c).1.pid = s.pid := by
  have hresolve : (s.resolve c).1.pid = s.pid := by
    unfold QattrSlot.resolve
    dsimp only
    split_ifs <;> rfl
  have hexit : ((s.resolve c).1.exit c).1.pid = (s.resolve c).1.pid := by
    unfold QattrSlot.exit
    split_ifs <;> rfl
  exact hexit.trans hresolve

theorem QattrMended.slot_some {t₁ : SummaryQattr} (h : QattrMended t.slots) {j : ℕ}
    (hslot : t.slot pid = (t₁, some j)) :
    pid ≠ 0 ∧ qattrProbe t.slots pid = some j ∧
      (∃ st : QattrState, t₁.slots[j]? = some (st.slot pid)) ∧
      ∀ s, t₁.slots.set j s = t.slots.set j s := by
  have hpid : pid ≠ 0 := by
    rintro rfl
    rw [SummaryQattr.slot, if_pos rfl] at hslot
    cases congrArg Prod.snd hslot
  refine ⟨hpid, ?_⟩
  rcases h.slot_cases hpid with ⟨i, s, hprobe, hj, hs, heq, -⟩ | ⟨i, s, hprobe, hj, hs, heq, -⟩ |
    ⟨heq, -⟩
  · rw [heq, Prod.mk.injEq, Option.some.injEq] at hslot
    obtain ⟨rfl, rfl⟩ := hslot
    exact ⟨hprobe, ⟨s.state, by rw [hj, ← hs]; rfl⟩, fun _ => rfl⟩
  · rw [heq, Prod.mk.injEq, Option.some.injEq] at hslot
    obtain ⟨rfl, rfl⟩ := hslot
    refine ⟨hprobe, ⟨{}, ?_⟩, fun _ => List.set_set ..⟩
    rw [List.getElem?_set_self (List.getElem?_eq_some_iff.1 hj).1]
    rfl
  · rw [heq] at hslot
    cases congrArg Prod.snd hslot

/-- What the writer does with a record is on the table a use of the slot of its process, and then a
deletion if the process exits. -/
theorem QattrInv.summaryQattrStep_slots (h : QattrInv t held) (mask : UInt32) (c : PushCall) :
    ∃ ops : List QattrOp, (summaryQattrStep mask t c).1.slots =
      (ops.foldl SummaryQattr.apply t).slots := by
  rw [summaryQattrStep]
  by_cases hesc : c.evt.oldEvent = markerEscalateStart ∨ c.evt.oldEvent = markerEscalateEnd
  · rw [if_pos hesc]
    exact ⟨[], rfl⟩
  rw [if_neg hesc]
  let f : QattrState → QattrState := fun st => ((st.slot c.evt.pid).step c).1.state
  rcases hslot : t.slot c.evt.pid with ⟨t₁, _ | j⟩
  · refine ⟨[.use c.evt.pid f], ?_⟩
    dsimp only [List.foldl, SummaryQattr.apply]
    rw [hslot]
  obtain ⟨hpid, hprobe, ⟨st, hj⟩, hset⟩ := h.mended.slot_some hslot
  have hwritten : ((st.slot c.evt.pid).step c).1 = (f st).slot c.evt.pid := by
    calc ((st.slot c.evt.pid).step c).1
        = (f st).slot ((st.slot c.evt.pid).step c).1.pid := rfl
      _ = (f st).slot c.evt.pid := by rw [QattrSlot.step_pid]; rfl
  have huse : t.apply (.use c.evt.pid f) =
      { t₁ with slots := t.slots.set j ((f st).slot c.evt.pid) } := by
    dsimp only [SummaryQattr.apply]
    rw [hslot]
    dsimp only
    rw [modify_of_getElem? hj, hset]
    rfl
  dsimp only
  rw [List.getD_eq_getElem?_getD, hj, Option.getD_some, hwritten, hset]
  split_ifs with hexit
  · -- the deletion finds the slot that was just written
    have hinv := h.write hpid hprobe (f st)
    have hmap : IsQattrMap { t₁ with slots := t.slots.set j ((f st).slot c.evt.pid) } _ :=
      QattrInv.isQattrMap ⟨hinv.mended, hinv.held_eq⟩
    obtain ⟨i, hi, hslot'⟩ := hmap.found c.evt.pid (f st) (Function.update_self ..)
    have hlt : j < t.slots.length := by
      obtain ⟨s, hs, -⟩ := exists_of_probe hprobe
      exact (List.getElem?_eq_some_iff.1 hs).1
    obtain rfl := hmap.one_slot i j _ _ hslot' (List.getElem?_set_self hlt) hpid rfl
    refine ⟨[.use c.evt.pid f, .free c.evt.pid], ?_⟩
    rw [List.foldl_cons, huse]
    dsimp only [List.foldl, SummaryQattr.apply]
    rw [hi]
    rfl
  · refine ⟨[.use c.evt.pid f], ?_⟩
    rw [List.foldl_cons, huse]
    rfl

theorem releaseIoWorker_eq (t : SummaryQattr) (c : PushCall) : releaseIoWorker t c =
    if c.evt.newEvent = eventExit then t.apply (.free c.evt.pid) else t := rfl

theorem QattrInv.foldl (h : QattrInv t held) (ops : List QattrOp) :
    ∃ held', QattrInv (ops.foldl SummaryQattr.apply t) held' := by
  induction ops generalizing t held with
  | nil => exact ⟨held, h⟩
  | cons op ops ih => exact ih (QattrInv.step (r := ⟨t, held⟩) h op)

theorem QattrInv.attributeQuery (h : QattrInv t held) (mask : UInt32) (c : PushCall) :
    ∃ t' held', (attributeQuery mask (some t) c).1 = some t' ∧ QattrInv t' held' := by
  dsimp only [PgWaitTracer.attributeQuery]
  split_ifs with hio
  · rw [releaseIoWorker_eq]
    split_ifs with hexit
    · obtain ⟨held', h'⟩ := h.foldl [.free c.evt.pid]
      exact ⟨_, held', rfl, h'⟩
    · exact ⟨t, held, rfl, h⟩
  · obtain ⟨ops, hops⟩ := h.summaryQattrStep_slots mask c
    obtain ⟨held', h'⟩ := h.foldl ops
    refine ⟨_, held', rfl, ?_, ?_⟩
    · rw [hops]
      exact h'.mended
    · rw [hops]
      exact h'.held_eq

/-- **In every run of the writer** the table is a finite map. -/
theorem isQattrMap_summaryRun (mask : UInt32) (env : Faults) (hasMemory : Bool)
    (ops : List SummaryCall) (ht : (summaryRun mask env hasMemory ops).qattr = some t) :
    ∃ held, IsQattrMap t held := by
  suffices h : ∀ t, (summaryRun mask env hasMemory ops).qattr = some t → ∃ held, QattrInv t held by
    obtain ⟨held, hinv⟩ := h t ht
    exact ⟨held, hinv.isQattrMap⟩
  refine List.foldlRecOn (motive := fun s : SummaryRun =>
    ∀ t, s.qattr = some t → ∃ held, QattrInv t held) ops _ ?_ fun s h op _ => ?_
  · intro t ht
    rw [SummaryRun.start] at ht
    cases hasMemory with
    | false => cases ht
    | true =>
      obtain rfl := Option.some.inj ht
      exact ⟨_, qattrInv_start⟩
  · cases op with
    | pushEvent c =>
      intro t ht
      rw [summaryStep, SummaryRun.pushEvent] at ht
      split_ifs at ht with hoff
      · exact h t ht
      · rcases hq : s.qattr with _ | t₀
        · rw [hq] at ht
          cases ht
        · obtain ⟨held, hinv⟩ := h t₀ hq
          obtain ⟨t', held', heq, hinv'⟩ := hinv.attributeQuery mask c
          dsimp only at ht
          rw [hq, heq] at ht
          obtain rfl := Option.some.inj ht
          exact ⟨held', hinv'⟩
    | noteOpenEx | flushCompleted | flush | checkRotation | close => exact h

/-- A record without a query, of a process that has no slot yet. -/
theorem isQattrMap_summaryRun_pushed :
    let s := summaryRun 0 ⟨fun _ => .written, fun _ => true⟩ true
      [.pushEvent ⟨⟨9, 7, 0x0A000001, 0, 0, 2, 0, 0⟩, 0, 0x0A000001⟩]
    ∃ t held, s.qattr = some t ∧ IsQattrMap t held := by
  intro s
  rcases hrun : s.qattr with _ | t
  · simp only [s, summaryRun, List.foldl_cons, List.foldl_nil, summaryStep, SummaryRun.pushEvent,
      SummaryRun.start, attributeQuery, if_true] at hrun
    split_ifs at hrun
  · obtain ⟨held, hmap⟩ := isQattrMap_summaryRun 0 _ true _ hrun
    exact ⟨t, held, rfl, hmap⟩

end PgWaitTracer
