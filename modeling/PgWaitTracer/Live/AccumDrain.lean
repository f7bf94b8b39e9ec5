import Mathlib.Data.List.TakeWhile
import PgWaitTracer.Live.ReplayWindows

/-!
# Draining the map of the light mode

In the light mode the BPF programs add durations up in a per-CPU hash map (`accum_add`,
`src/bpf/pg_wait_tracer.bpf.c`), and the daemon moves the map into its accumulator at every tick
(`pgwt_read_accum_map`, `src/map_reader.c`). The loop asks for the key after the last one that it
read, and it begins with the key 0, which is the event of the time on CPU.

The map is the list of its entries in the order of the iteration.

## Main results

* `readAccumLoop_eq`: what the loop reads, and what it leaves.
* `readAccumMap_drained_iff`: a call drains the map exactly when 0 is not the last key
  of a map, the buffer is for all CPUs and the accumulator has room.
-/

namespace PgWaitTracer

/-! ### The map -/

/-- `struct pgwt_accum_val`. -/
structure AccumVal where
  totalNs : UInt64
  count : UInt64
  deriving DecidableEq, Repr

/-- A key with its value on every CPU. -/
structure AccumEntry where
  key : UInt32
  vals : List AccumVal
  deriving DecidableEq, Repr

namespace AccumEntry

/-- The time on all CPUs. -/
def totalNs (e : AccumEntry) : UInt64 := (e.vals.map AccumVal.totalNs).sum

/-- The number of transitions on all CPUs. -/
def count (e : AccumEntry) : UInt64 := (e.vals.map AccumVal.count).sum

end AccumEntry

/-- `accum_map`, in the order of the iteration. -/
structure AccumMap where
  cpus : ℕ
  entries : List AccumEntry
  nodup : (entries.map AccumEntry.key).Nodup
  length_vals : ∀ e ∈ entries, e.vals.length = cpus

/-- `bpf_map_get_next_key`: the successor of a key that is there, and the first key else. -/
def getNextKey (m : List AccumEntry) (key : UInt32) : Option UInt32 :=
  match m.dropWhile fun e => e.key ≠ key with
  | [] => m.head?.map AccumEntry.key
  | _ :: rest => rest.head?.map AccumEntry.key

/-- `bpf_map_lookup_elem`. -/
def lookupElem (m : List AccumEntry) (key : UInt32) : Option (List AccumVal) :=
  (m.find? fun e => e.key = key).map AccumEntry.vals

/-- `bpf_map_delete_elem`. -/
def deleteElem (m : List AccumEntry) (key : UInt32) : List AccumEntry :=
  m.eraseP fun e => e.key = key

/-! ### The accumulator -/

/-- `struct pgwt_accumulator`, as far as the map is moved into it. -/
structure EventAccum where
  tm : LiveTimeModel
  systemEvents : List EventStats

/-- The sums of an entry in the row of its event. -/
def EventStats.addSums (s : EventStats) (e : AccumEntry) : EventStats :=
  { s with
    count := s.count + e.count.toNat
    totalNs := s.totalNs + e.totalNs.toNat }

/-- An entry in the time model and in the row of its event. There is no row if
`pgwt_get_or_create_system_event` finds none and the array is full. -/
def EventAccum.addEntry (mask : UInt32) (acc : EventAccum) (e : AccumEntry) : EventAccum where
  tm := acc.tm.update mask e.key e.totalNs
  systemEvents := Tally.boundedRow EventStats.waitEvent (fun we => { waitEvent := we })
    AccumEntry.key EventStats.addSums maxSystemEvents acc.systemEvents e

/-! ### The loop -/

/-- `MAX_CPUS`. -/
def maxCpus : ℕ := 128

/-- The length of `pcpu_vals`, from the answer of `libbpf_num_possible_cpus`. -/
def accumBufferLen (numPossibleCpus : ℤ) : ℕ :=
  min (if numPossibleCpus ≤ 0 then 1 else numPossibleCpus.toNat) maxCpus

/-- The loop of `pgwt_read_accum_map`, for at most `fuel` keys. A lookup writes the values of all
CPUs: there is no result if the buffer is for another number of them. -/
def readAccumLoop (mask : UInt32) (nc : ℕ) :
    ℕ → UInt32 → List AccumEntry → EventAccum → Option (List AccumEntry × EventAccum)
  | 0, _, _, _ => none
  | fuel + 1, key, m, acc =>
    match getNextKey m key with
    | none => some (m, acc)
    | some nextKey =>
      match lookupElem m nextKey with
      | none => readAccumLoop mask nc fuel nextKey m acc
      | some vals =>
        if vals.length = nc then
          readAccumLoop mask nc fuel nextKey (deleteElem m nextKey)
            (acc.addEntry mask ⟨nextKey, vals⟩)
        else none

/-- `pgwt_read_accum_map`. -/
def readAccumMap (mask : UInt32) (numPossibleCpus : ℤ) (m : AccumMap) (acc : EventAccum) :
    Option (List AccumEntry × EventAccum) :=
  readAccumLoop mask (accumBufferLen numPossibleCpus) (m.entries.length + 1) 0 m.entries acc

/-! ### What a call is for -/

/-- The number of transitions and the time of the row of an event. -/
def EventAccum.totals (acc : EventAccum) (we : UInt32) : ℕ × ℕ :=
  Tally.amount EventStats.waitEvent (fun s => (s.count, s.totalNs)) acc.systemEvents we

/-- The sums of an entry. -/
def AccumEntry.sums (e : AccumEntry) : ℕ × ℕ := (e.count.toNat, e.totalNs.toNat)

namespace AccumMap

/-- The map is empty after the call, and every entry is in the accumulator once. -/
def Drained (mask : UInt32) (m : AccumMap) (before : EventAccum) :
    Option (List AccumEntry × EventAccum) → Prop
  | none => False
  | some (left, after) =>
    left = [] ∧
      (∀ we, after.totals we = before.totals we +
        ((m.entries.filter fun e => e.key = we).map AccumEntry.sums).sum) ∧
      after.tm = m.entries.foldl (fun tm e => tm.update mask e.key e.totalNs) before.tm

/-- The entries in the order in which the loop reads them: the one after the key 0 comes first, and
none is read if 0 is the last key. -/
def reads (m : AccumMap) : List AccumEntry :=
  match m.entries.dropWhile fun e => e.key ≠ 0 with
  | [] => m.entries
  | [_] => []
  | zero :: e :: rest => e :: (m.entries.takeWhile (fun e => e.key ≠ 0) ++ zero :: rest)

/-- The last key of the iteration is 0. -/
def EndsWithZero (m : AccumMap) : Prop := (m.entries.getLast?.map AccumEntry.key) = some 0

instance (m : AccumMap) : Decidable m.EndsWithZero :=
  inferInstanceAs (Decidable (_ = some (0 : UInt32)))

/-- Every entry has a row, finds one free after the entries that are read before it, or has nothing
to add. -/
def FindsRows (m : AccumMap) (rows : List EventStats) : Prop :=
  ∀ pre e post, m.reads = pre ++ e :: post → e.key ∈ rows.map EventStats.waitEvent ∨
    rows.length + pre.countP (fun d => d.key ∉ rows.map EventStats.waitEvent) < maxSystemEvents ∨
      e.sums = 0

end AccumMap

/-! ### The time model -/

namespace LiveTimeModel

/-- Two time models added up. -/
def plus (s t : LiveTimeModel) : LiveTimeModel where
  dbTimeNs := s.dbTimeNs + t.dbTimeNs
  cpuTimeNs := s.cpuTimeNs + t.cpuTimeNs
  offcpuTimeNs := s.offcpuTimeNs + t.offcpuTimeNs
  ioTimeNs := s.ioTimeNs + t.ioTimeNs
  lwlockTimeNs := s.lwlockTimeNs + t.lwlockTimeNs
  lockTimeNs := s.lockTimeNs + t.lockTimeNs
  bufferpinTimeNs := s.bufferpinTimeNs + t.bufferpinTimeNs
  clientTimeNs := s.clientTimeNs + t.clientTimeNs
  ipcTimeNs := s.ipcTimeNs + t.ipcTimeNs
  timeoutTimeNs := s.timeoutTimeNs + t.timeoutTimeNs
  extensionTimeNs := s.extensionTimeNs + t.extensionTimeNs
  activityTimeNs := s.activityTimeNs + t.activityTimeNs

theorem plus_right_comm (s t u : LiveTimeModel) : (s.plus t).plus u = (s.plus u).plus t := by
  simp only [plus, mk.injEq]
  refine ⟨?_, ?_, ?_, ?_, ?_, ?_, ?_, ?_, ?_, ?_, ?_, ?_⟩ <;> exact add_right_comm _ _ _

theorem addClass_eq_plus (tm : LiveTimeModel) (we : UInt32) (ns : UInt64) :
    tm.addClass we ns = tm.plus (({} : LiveTimeModel).addClass we ns) := by
  simp only [addClass, apply_ite tm.plus]
  simp only [plus, add_zero, zero_add]

theorem update_eq_plus (mask : UInt32) (tm : LiveTimeModel) (we : UInt32) (ns : UInt64) :
    tm.update mask we ns = tm.plus (({} : LiveTimeModel).update mask we ns) := by
  rw [update, update]
  split_ifs
  · simp only [plus, add_zero, zero_add]
  · simp only [plus, add_zero, zero_add]
  · rw [addClass_eq_plus]
    simp only [plus, zero_add]

theorem update_right_comm (mask : UInt32) (tm : LiveTimeModel) (d e : UInt32) (x y : UInt64) :
    (tm.update mask d x).update mask e y = (tm.update mask e y).update mask d x := by
  rw [update_eq_plus mask (tm.update mask d x), update_eq_plus mask tm d,
    update_eq_plus mask (tm.update mask e y), update_eq_plus mask tm e, plus_right_comm]

end LiveTimeModel

/-! ### The loop reads the map -/

theorem getNextKey_of_notMem {m : List AccumEntry} {key : UInt32}
    (h : key ∉ m.map AccumEntry.key) : getNextKey m key = m.head?.map AccumEntry.key := by
  have hdrop : (m.dropWhile fun e => e.key ≠ key) = [] :=
    List.dropWhile_eq_nil_iff.mpr fun e he => by
      simpa using fun heq : e.key = key => h (heq ▸ List.mem_map_of_mem he)
  rw [getNextKey, hdrop]

variable {e : AccumEntry} {pre rest : List AccumEntry}

theorem dropWhile_key (rest : List AccumEntry) {z : AccumEntry}
    (h : z.key ∉ pre.map AccumEntry.key) :
    ((pre ++ z :: rest).dropWhile fun e => e.key ≠ z.key) = z :: rest := by
  rw [List.dropWhile_append_of_pos, List.dropWhile_cons_of_neg (by simp)]
  exact fun e he => by simpa using fun heq : e.key = z.key => h (heq ▸ List.mem_map_of_mem he)

theorem getNextKey_split {z : AccumEntry} (h : z.key ∉ pre.map AccumEntry.key) :
    getNextKey (pre ++ z :: rest) z.key = rest.head?.map AccumEntry.key := by
  rw [getNextKey, dropWhile_key _ h]

theorem lookupElem_split (h : e.key ∉ pre.map AccumEntry.key) :
    lookupElem (pre ++ e :: rest) e.key = some e.vals := by
  have hfind : (pre.find? fun d => d.key = e.key) = none :=
    List.find?_eq_none.2 fun d hd => by
      simpa using fun heq : d.key = e.key => h (heq ▸ List.mem_map_of_mem hd)
  rw [lookupElem, List.find?_append, hfind, Option.none_or,
    List.find?_cons_of_pos (by simp), Option.map_some]

theorem deleteElem_split (h : e.key ∉ pre.map AccumEntry.key) :
    deleteElem (pre ++ e :: rest) e.key = pre ++ rest := by
  rw [deleteElem, List.eraseP_append_right, List.eraseP_cons_of_pos (by simp)]
  exact fun d hd => by simpa using fun heq : d.key = e.key => h (heq ▸ List.mem_map_of_mem hd)

variable {mask : UInt32} {nc fuel : ℕ} {key : UInt32} {acc : EventAccum}

theorem readAccumLoop_step (hnext : getNextKey (pre ++ e :: rest) key = some e.key)
    (h : e.key ∉ pre.map AccumEntry.key) :
    readAccumLoop mask nc (fuel + 1) key (pre ++ e :: rest) acc =
      if e.vals.length = nc then
        readAccumLoop mask nc fuel e.key (pre ++ rest) (acc.addEntry mask e)
      else none := by
  rw [readAccumLoop, hnext]
  dsimp only
  rw [lookupElem_split h]
  dsimp only
  rw [deleteElem_split h]

theorem readAccumLoop_of_notMem {m : List AccumEntry} (hnodup : (m.map AccumEntry.key).Nodup)
    (hkey : key ∉ m.map AccumEntry.key) (hlen : ∀ e ∈ m, e.vals.length = nc)
    (hfuel : m.length < fuel) :
    readAccumLoop mask nc fuel key m acc = some ([], m.foldl (EventAccum.addEntry mask) acc) := by
  induction m generalizing fuel key acc with
  | nil =>
    obtain ⟨fuel, rfl⟩ := Nat.exists_eq_succ_of_ne_zero (Nat.ne_of_gt hfuel)
    rfl
  | cons e rest ih =>
    obtain ⟨fuel, rfl⟩ := Nat.exists_eq_succ_of_ne_zero (Nat.ne_of_gt (Nat.zero_lt_of_lt hfuel))
    rw [List.map_cons, List.nodup_cons] at hnodup
    have hstep : readAccumLoop mask nc (fuel + 1) key ([] ++ e :: rest) acc = _ :=
      readAccumLoop_step (getNextKey_of_notMem hkey) List.not_mem_nil
    rw [List.nil_append, if_pos (hlen e List.mem_cons_self)] at hstep
    rw [Nat.succ_eq_add_one, hstep, List.nil_append, List.foldl_cons]
    exact ih hnodup.2 hnodup.1 (fun d hd => hlen d (List.mem_cons_of_mem e hd))
      (Nat.lt_of_succ_lt_succ hfuel)

/-! ### What is read -/

namespace AccumMap

variable {m : AccumMap}

/-- Where the key 0 stands. -/
theorem zero_cases (m : AccumMap) :
    (0 : UInt32) ∉ m.entries.map AccumEntry.key ∧ m.reads = m.entries ∧ ¬m.EndsWithZero ∨
      (∃ pre zero, zero.key = 0 ∧ 0 ∉ pre.map AccumEntry.key ∧ m.entries = pre ++ [zero] ∧
        m.reads = [] ∧ m.EndsWithZero) ∨
      ∃ pre zero e rest, zero.key = 0 ∧ 0 ∉ pre.map AccumEntry.key ∧
        m.entries = pre ++ zero :: e :: rest ∧ m.reads = e :: (pre ++ zero :: rest) ∧
          ¬m.EndsWithZero := by
  by_cases hzero : (0 : UInt32) ∈ m.entries.map AccumEntry.key
  · right
    obtain ⟨zero, hmem, hkey⟩ := List.mem_map.1 hzero
    obtain ⟨pre, rest, hentries⟩ := List.append_of_mem hmem
    have hnodup := m.nodup
    rw [hentries, List.map_append, List.map_cons] at hnodup
    have hpre : zero.key ∉ pre.map AccumEntry.key := fun h =>
      List.disjoint_of_nodup_append hnodup h List.mem_cons_self
    have hrest : zero.key ∉ rest.map AccumEntry.key :=
      (List.nodup_cons.1 (List.nodup_append.1 hnodup).2.1).1
    have hdrop := dropWhile_key rest hpre
    have htake : (m.entries.takeWhile fun e => e.key ≠ zero.key) = pre := by
      have h := List.takeWhile_append_dropWhile (p := fun e : AccumEntry => e.key ≠ zero.key)
        (l := m.entries)
      rw [hentries, hdrop] at h
      rw [hentries]
      exact List.append_cancel_right h
    rw [← hentries] at hdrop
    rw [hkey] at hpre hrest hdrop htake
    cases rest with
    | nil =>
      refine Or.inl ⟨pre, zero, hkey, hpre, hentries, ?_, ?_⟩
      · rw [reads, hdrop]
      · rw [EndsWithZero, hentries, List.getLast?_concat, Option.map_some, hkey]
    | cons e rest =>
      refine Or.inr ⟨pre, zero, e, rest, hkey, hpre, hentries, ?_, ?_⟩
      · rw [reads, hdrop]
        dsimp only
        rw [htake]
      · intro hlast
        obtain ⟨last, hlast, hkey'⟩ := Option.map_eq_some_iff.1 hlast
        rw [hentries, List.getLast?_append_of_ne_nil _ (List.cons_ne_nil _ _),
          List.getLast?_cons_cons] at hlast
        exact hrest (hkey' ▸ List.mem_map_of_mem (List.mem_of_getLast? hlast))
  · refine Or.inl ⟨hzero, ?_, fun hlast => ?_⟩
    · have hdrop : (m.entries.dropWhile fun e => e.key ≠ 0) = [] :=
        List.dropWhile_eq_nil_iff.mpr fun e he => by
          simpa using fun heq : e.key = 0 => hzero (heq ▸ List.mem_map_of_mem he)
      rw [reads, hdrop]
    · obtain ⟨last, hlast, hkey⟩ := Option.map_eq_some_iff.1 hlast
      exact hzero (hkey ▸ List.mem_map_of_mem (List.mem_of_getLast? hlast))

theorem reads_perm (h : ¬m.EndsWithZero) : m.reads.Perm m.entries := by
  rcases m.zero_cases with ⟨-, hreads, -⟩ | ⟨-, -, -, -, -, -, hlast⟩ |
    ⟨pre, zero, e, rest, -, -, hentries, hreads, -⟩
  · rw [hreads]
  · exact absurd hlast h
  · rw [hreads, hentries]
    exact (List.perm_middle.symm.trans
      (List.Perm.append_left pre (List.Perm.swap zero e rest))).trans (List.Perm.refl _)

theorem getNextKey_of_endsWithZero (h : m.EndsWithZero) :
    getNextKey m.entries 0 = none := by
  rcases m.zero_cases with ⟨-, -, hlast⟩ | ⟨pre, zero, hkey, hpre, hentries, -, -⟩ |
    ⟨-, -, -, -, -, -, -, -, hlast⟩
  · exact absurd h hlast
  · rw [hentries, ← hkey, getNextKey_split (hkey ▸ hpre)]
    rfl
  · exact absurd h hlast

theorem exists_first (h : ¬m.EndsWithZero) (hne : m.entries ≠ []) :
    ∃ pre e rest, m.entries = pre ++ e :: rest ∧ m.reads = e :: (pre ++ rest) ∧
      getNextKey m.entries 0 = some e.key := by
  rcases m.zero_cases with ⟨hzero, hreads, -⟩ | ⟨-, -, -, -, -, -, hlast⟩ |
    ⟨pre, zero, e, rest, hkey, hpre, hentries, hreads, -⟩
  · obtain ⟨e, rest, hentries⟩ := List.exists_cons_of_ne_nil hne
    refine ⟨[], e, rest, hentries, hreads.trans hentries, ?_⟩
    rw [getNextKey_of_notMem hzero, hentries]
    rfl
  · exact absurd hlast h
  · refine ⟨pre ++ [zero], e, rest, by simp [hentries], by simp [hreads], ?_⟩
    rw [hentries, ← hkey, getNextKey_split (hkey ▸ hpre)]
    rfl

end AccumMap

theorem readAccumMap_first {m : AccumMap} (hentries : m.entries = pre ++ e :: rest)
    (hnext : getNextKey m.entries 0 = some e.key) (mask : UInt32) (n : ℤ) (acc : EventAccum) :
    readAccumMap mask n m acc =
      if e.vals.length = accumBufferLen n then
        some ([], (pre ++ rest).foldl (EventAccum.addEntry mask) (acc.addEntry mask e))
      else none := by
  have hperm : (m.entries.map AccumEntry.key).Perm
      (e.key :: (pre ++ rest).map AccumEntry.key) := by
    rw [hentries]
    exact List.perm_middle.map AccumEntry.key
  obtain ⟨hnotMem, hnodup⟩ := List.nodup_cons.1 (hperm.nodup_iff.1 m.nodup)
  have hpre : e.key ∉ pre.map AccumEntry.key := fun h =>
    hnotMem (List.map_append ▸ List.mem_append_left _ h)
  rw [hentries] at hnext
  rw [readAccumMap, hentries, readAccumLoop_step hnext hpre]
  by_cases hlen : e.vals.length = accumBufferLen n
  · have hcpus : accumBufferLen n = m.cpus :=
      hlen.symm.trans (m.length_vals e (hentries ▸ List.mem_append_right _ List.mem_cons_self))
    rw [if_pos hlen, if_pos hlen]
    refine readAccumLoop_of_notMem hnodup hnotMem (fun d hd => ?_) (by simp)
    rw [hcpus]
    refine m.length_vals d ?_
    rw [hentries, List.mem_append, List.mem_cons]
    exact (List.mem_append.1 hd).imp id Or.inr
  · rw [if_neg hlen, if_neg hlen]

/-- **What the loop reads.** With 0 as the last key it reads nothing and leaves the map. -/
theorem readAccumMap_eq (mask : UInt32) (n : ℤ) (m : AccumMap) (acc : EventAccum) :
    readAccumMap mask n m acc =
      if m.EndsWithZero then some (m.entries, acc)
      else if m.entries = [] ∨ accumBufferLen n = m.cpus then
        some ([], m.reads.foldl (EventAccum.addEntry mask) acc)
      else none := by
  by_cases hlast : m.EndsWithZero
  · rw [if_pos hlast, readAccumMap, readAccumLoop, m.getNextKey_of_endsWithZero hlast]
  · rw [if_neg hlast]
    by_cases hempty : m.entries = []
    · have hreads : m.reads = [] := List.Perm.eq_nil (hempty ▸ m.reads_perm hlast)
      rw [if_pos (Or.inl hempty), hreads, readAccumMap, hempty]
      rfl
    · obtain ⟨pre, e, rest, hentries, hreads, hnext⟩ := m.exists_first hlast hempty
      have hlen : e.vals.length = m.cpus :=
        m.length_vals e (hentries ▸ List.mem_append_right _ List.mem_cons_self)
      rw [readAccumMap_first hentries hnext, hlen, hreads, List.foldl_cons]
      simp only [hempty, false_or, eq_comm]

/-! ### When the map is drained -/

theorem keyed_addSums :
    Tally.Keyed EventStats.waitEvent (fun we => { waitEvent := we }) EventStats.addSums :=
  ⟨fun _ => rfl, fun _ _ => rfl⟩

theorem systemEvents_foldl_addEntry (mask : UInt32) (l : List AccumEntry) (acc : EventAccum) :
    (l.foldl (EventAccum.addEntry mask) acc).systemEvents =
      l.foldl (Tally.boundedRow EventStats.waitEvent (fun we => { waitEvent := we })
        AccumEntry.key EventStats.addSums maxSystemEvents) acc.systemEvents := by
  induction l generalizing acc with
  | nil => rfl
  | cons e l ih => exact ih (acc.addEntry mask e)

theorem tm_foldl_addEntry (mask : UInt32) (l : List AccumEntry) (acc : EventAccum) :
    (l.foldl (EventAccum.addEntry mask) acc).tm =
      l.foldl (fun tm e => tm.update mask e.key e.totalNs) acc.tm := by
  induction l generalizing acc with
  | nil => rfl
  | cons e l ih => exact ih (acc.addEntry mask e)

/-- **A call drains the map** exactly when 0 is not the last key of the iteration, the buffer is for
the CPUs of the map, and every entry with something to add finds a row. -/
theorem readAccumMap_drained_iff (mask : UInt32) (n : ℤ) (m : AccumMap) (acc : EventAccum) :
    m.Drained mask acc (readAccumMap mask n m acc) ↔
      m.entries = [] ∨
        accumBufferLen n = m.cpus ∧ ¬m.EndsWithZero ∧ m.FindsRows acc.systemEvents := by
  by_cases hempty : m.entries = []
  · have hlast : ¬m.EndsWithZero := by simp [AccumMap.EndsWithZero, hempty]
    have hreads : m.reads = [] := List.Perm.eq_nil (hempty ▸ m.reads_perm hlast)
    rw [readAccumMap_eq, if_neg hlast, if_pos (Or.inl hempty), AccumMap.Drained, hreads, hempty]
    simp
  · simp only [hempty, false_or]
    rw [readAccumMap_eq]
    by_cases hlast : m.EndsWithZero
    · rw [if_pos hlast, AccumMap.Drained]
      simp [hempty, hlast]
    · rw [if_neg hlast]
      by_cases hcpus : accumBufferLen n = m.cpus
      · rw [if_pos (Or.inr hcpus), AccumMap.Drained]
        simp only [hcpus, hlast, true_and, not_false_eq_true]
        have hperm := m.reads_perm hlast
        have hrows := Tally.amount_foldl_boundedRow_iff (M := ℕ × ℕ)
          (q := fun s : EventStats => (s.count, s.totalNs)) (w := AccumEntry.sums)
          keyed_addSums (fun _ => rfl) (fun _ _ => rfl) maxSystemEvents
          ((hperm.map AccumEntry.key).nodup_iff.2 m.nodup) acc.systemEvents
        rw [tm_foldl_addEntry, hperm.foldl_eq' (f := fun tm e => tm.update mask e.key e.totalNs)
          (fun d _ e _ tm => LiveTimeModel.update_right_comm mask tm d.key e.key _ _) acc.tm]
        simp only [and_true]
        refine Iff.trans (forall_congr' fun we => ?_) hrows
        rw [EventAccum.totals, systemEvents_foldl_addEntry, EventAccum.totals,
          ((hperm.filter fun e => e.key = we).map AccumEntry.sums).sum_eq]
      · rw [if_neg (not_or.2 ⟨hempty, hcpus⟩), AccumMap.Drained]
        simp [hcpus]

/-- A map with time on CPU only, on two CPUs. -/
def cpuOnlyMap : AccumMap where
  cpus := 2
  entries := [⟨0, [⟨700, 2⟩, ⟨300, 1⟩]⟩]
  nodup := by decide
  length_vals := by decide

/-- Nothing is read of a map with time on CPU only. -/
theorem cpuOnlyMap_not_drained :
    readAccumMap 0 2 cpuOnlyMap ⟨{}, []⟩ = some (cpuOnlyMap.entries, ⟨{}, []⟩) ∧
      ¬cpuOnlyMap.Drained 0 ⟨{}, []⟩ (readAccumMap 0 2 cpuOnlyMap ⟨{}, []⟩) :=
  ⟨rfl, fun h => List.cons_ne_nil _ _ h.1⟩

end PgWaitTracer
