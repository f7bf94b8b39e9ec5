import Mathlib.Data.Int.Init
import Mathlib.Data.List.Nodup

/-!
# Reading the wait events of a tick

The sampler reads the wait event of every backend (`pgwt_sampler_read_targets`, `src/sampler.c`).
Targets in shared memory are read in one call through the process of the first one; where the call
stops, one target is read through its own process and the call is resumed behind it. The other
targets are read through their own processes only, since the same address holds something else in
another process.

## Main results

* `SweepState.Reads.sweep`: the sweep reads what it is given.
* `samplerReadTargets_spec`: a tick reads what reading every target would read.
-/

namespace PgWaitTracer

/-! ### A tick -/

/-- `struct pgwt_sample_target`, as far as it is read from. -/
structure ReadTarget where
  pid : ℤ
  waitEventAddr : UInt64
  isShared : ℤ
  deriving DecidableEq, Repr

/-- The memory of the processes, and how the calls of a tick end: the result of the batch call at a
position, what a read that stops inside an entry leaves there, and whether the entry of a target can
be opened and read. -/
structure ProcessMemory where
  live : ℤ → Bool
  mem : ℤ → UInt64 → UInt32
  batchBytes : ℕ → ℤ
  torn : ℕ → UInt32
  ownOk : ℕ → Bool

/-- A read: a batch through a process, or a target through a process. -/
inductive ReadCall
  | batch (reader : ℤ) (targets : List ℕ)
  | own (pid : ℤ) (target : ℕ)
  deriving DecidableEq, Repr

/-- A target with its index. -/
abbrev BatchEntry := ReadTarget × ℕ

/-- The arrays of a tick, `got`, the number of faults and the reads so far. -/
structure SweepState where
  outVals : List UInt32
  outValid : List Bool
  got : ℕ := 0
  readFaults : ℕ := 0
  calls : List ReadCall := []
  deriving DecidableEq, Repr

namespace ProcessMemory

variable (env : ProcessMemory)

/-- `process_vm_readv` with a reader, from a position with some entries left: it fails, or copies at
most what it is asked for. -/
def processVmReadv (reader : ℤ) (base rem : ℕ) : ℤ :=
  if env.live reader then min (env.batchBytes base) (4 * rem) else -1

/-- `read_target_own_pid`. -/
def readTargetOwnPid (e : BatchEntry) : Option UInt32 :=
  if e.1.pid ≤ 0 ∨ e.1.waitEventAddr = 0 then none
  else if env.live e.1.pid && env.ownOk e.2 then some (env.mem e.1.pid e.1.waitEventAddr)
  else none

end ProcessMemory

namespace SweepState

/-- A target is valid with a value. -/
def mark (s : SweepState) (i : ℕ) (val : UInt32) : SweepState :=
  { s with
    outVals := s.outVals.set i val
    outValid := s.outValid.set i true
    got := s.got + 1 }

/-- A target is read through its own process. -/
def readOwn (env : ProcessMemory) (s : SweepState) (e : BatchEntry) : SweepState :=
  let s := { s with calls := .own e.1.pid e.2 :: s.calls }
  match env.readTargetOwnPid e with
  | some val => s.mark e.2 val
  | none => s

/-- The call copies to the first `done` entries, and perhaps to a part of the next one. -/
def readBatch (env : ProcessMemory) (reader : ℤ) (bytes : ℤ) (s : SweepState)
    (entries : List BatchEntry) : SweepState :=
  let s := { s with calls := .batch reader (entries.map Prod.snd) :: s.calls }
  let done := (bytes / 4).toNat
  let s := (entries.take done).foldl
    (fun s e => s.mark e.2 (env.mem reader e.1.waitEventAddr)) s
  match entries[done]? with
  | some e => if 0 < bytes % 4 then { s with outVals := s.outVals.set e.2 (env.torn e.2) } else s
  | none => s

/-- The sweep over the batch from a position on, for at most `fuel` calls. -/
def sweep (env : ProcessMemory) :
    ℕ → ℕ → List BatchEntry → SweepState → Option SweepState
  | _, _, [], s => some s
  | 0, _, _ :: _, _ => none
  | fuel + 1, base, e :: rest, s =>
    let r := env.processVmReadv e.1.pid base (rest.length + 1)
    let bytes := if 0 < r then r else 0
    let done := (bytes / 4).toNat
    let s := s.readBatch env e.1.pid bytes (e :: rest)
    match (e :: rest).drop done with
    | [] => some s
    | e :: rest =>
      sweep env fuel (base + done + 1) rest
        { s.readOwn env e with readFaults := s.readFaults + 1 }

end SweepState

/-- `pgwt_sampler_read_targets`, with its arrays and its result `got`. -/
def samplerReadTargets (env : ProcessMemory) (targets : List ReadTarget) : Option SweepState :=
  let entries := targets.zipIdx
  let batch := entries.filter fun e => e.1.isShared = 1
  let start : SweepState :=
    { outVals := List.replicate targets.length 0
      outValid := List.replicate targets.length false }
  (start.sweep env batch.length 0 batch).map fun s =>
    (entries.filter fun e => e.1.isShared ≠ 1).foldl (SweepState.readOwn env) s

/-! ### What a tick is for -/

/-- The target can be read through its own process. -/
def ProcessMemory.Readable (env : ProcessMemory) (e : BatchEntry) : Prop :=
  (env.readTargetOwnPid e).isSome

/-- A shared address holds the value of its target in every live process, and every target holds
its value in its own. -/
structure ProcessMemory.Truthful (env : ProcessMemory) (targets : List ReadTarget)
    (value : ReadTarget → UInt32) : Prop where
  shared : ∀ t ∈ targets, t.isShared = 1 → ∀ p, env.live p = true →
    env.mem p t.waitEventAddr = value t
  own : ∀ t ∈ targets, env.live t.pid = true → env.mem t.pid t.waitEventAddr = value t

/-- A read passes only shared targets to another process. -/
def ReadCall.Proper (targets : List ReadTarget) : ReadCall → Prop
  | .batch reader is =>
    ∀ i ∈ is, ∃ t, targets[i]? = some t ∧ (t.isShared = 1 ∨ t.pid = reader)
  | .own pid i => ∃ t, targets[i]? = some t ∧ t.pid = pid

/-- A tick under way, with the targets still to be read. -/
structure SweepState.Reads (env : ProcessMemory) (targets : List ReadTarget)
    (value : ReadTarget → UInt32) (s : SweepState) (todo : List BatchEntry) : Prop where
  length_vals : s.outVals.length = targets.length
  length_valid : s.outValid.length = targets.length
  right : ∀ e ∈ targets.zipIdx, s.outValid[e.2]? = some true → s.outVals[e.2]? = some (value e.1)
  unread : ∀ e ∈ todo, s.outValid[e.2]? = some false
  read : ∀ e ∈ targets.zipIdx, e ∉ todo → env.Readable e → s.outValid[e.2]? = some true
  got : s.got = s.outValid.count true
  proper : ∀ c ∈ s.calls, c.Proper targets

/-! ### Steps -/

namespace SweepState.Reads

variable {env : ProcessMemory} {targets : List ReadTarget} {value : ReadTarget → UInt32}
  {s : SweepState} {todo : List BatchEntry} {e : BatchEntry}

theorem mem_zipIdx_inj {d : BatchEntry} (hd : d ∈ targets.zipIdx) (he : e ∈ targets.zipIdx)
    (h : d.2 = e.2) : d = e := by
  have hd := List.mk_mem_zipIdx_iff_getElem?.1 hd
  have he := List.mk_mem_zipIdx_iff_getElem?.1 he
  rw [h, he] at hd
  exact Prod.ext (Option.some.inj hd).symm h

theorem start (env : ProcessMemory) (targets : List ReadTarget) (value : ReadTarget → UInt32)
    (hsub : todo ⊆ targets.zipIdx) (hall : targets.zipIdx ⊆ todo) :
    SweepState.Reads env targets value
      { outVals := List.replicate targets.length 0
        outValid := List.replicate targets.length false } todo where
  length_vals := List.length_replicate
  length_valid := List.length_replicate
  right e _ hvalid := by
    rw [List.getElem?_replicate] at hvalid
    split_ifs at hvalid
    exact absurd (Option.some.inj hvalid) Bool.false_ne_true
  unread e he := by
    have hlt := (List.getElem?_eq_some_iff.1 (List.mk_mem_zipIdx_iff_getElem?.1 (hsub he))).1
    rw [List.getElem?_replicate, if_pos hlt]
  read e he hread := absurd (hall he) hread
  got := by
    rw [List.count_replicate]
    rfl
  proper _ hc := absurd hc List.not_mem_nil

theorem call (h : s.Reads env targets value todo) {c : ReadCall} (hc : c.Proper targets) :
    SweepState.Reads env targets value { s with calls := c :: s.calls } todo :=
  { h with proper := List.forall_mem_cons.2 ⟨hc, h.proper⟩ }

/-- The first target is marked with its value. -/
theorem mark (h : s.Reads env targets value (e :: todo)) (hsub : e :: todo ⊆ targets.zipIdx)
    (hnodup : (e :: todo).Nodup) : (s.mark e.2 (value e.1)).Reads env targets value todo := by
  obtain ⟨henum, hsub⟩ := List.cons_subset.1 hsub
  have hlt : e.2 < targets.length := by
    have := List.mk_mem_zipIdx_iff_getElem?.1 henum
    exact (List.getElem?_eq_some_iff.1 this).1
  have hunread := h.unread e List.mem_cons_self
  refine ⟨?_, ?_, fun d hd hvalid => ?_, fun d hd => ?_, fun d hd hread hown => ?_, ?_, h.proper⟩
  · exact (List.length_set ..).trans h.length_vals
  · exact (List.length_set ..).trans h.length_valid
  · show (s.outVals.set e.2 (value e.1))[d.2]? = _
    by_cases hde : d.2 = e.2
    · rw [mem_zipIdx_inj hd henum hde, List.getElem?_set_self (h.length_vals ▸ hlt)]
    · rw [List.getElem?_set_ne (Ne.symm hde)]
      refine h.right d hd ?_
      rwa [SweepState.mark, List.getElem?_set_ne (Ne.symm hde)] at hvalid
  · show (s.outValid.set e.2 true)[d.2]? = _
    have hde : e.2 ≠ d.2 := fun heq =>
      (List.nodup_cons.1 hnodup).1 (mem_zipIdx_inj henum (hsub hd) heq ▸ hd)
    rw [List.getElem?_set_ne hde]
    exact h.unread d (List.mem_cons_of_mem e hd)
  · show (s.outValid.set e.2 true)[d.2]? = _
    by_cases hde : d.2 = e.2
    · rw [hde, List.getElem?_set_self (h.length_valid ▸ hlt)]
    · rw [List.getElem?_set_ne (Ne.symm hde)]
      refine h.read d hd (fun hmem => ?_) hown
      rcases List.mem_cons.1 hmem with rfl | hmem
      · exact hde rfl
      · exact hread hmem
  · have hlt : e.2 < s.outValid.length := h.length_valid ▸ hlt
    have hfalse : s.outValid[e.2] = false :=
      Option.some.inj ((List.getElem?_eq_getElem hlt).symm.trans hunread)
    show s.got + 1 = (s.outValid.set e.2 true).count true
    rw [List.count_set hlt, hfalse, h.got]
    rfl

theorem skip (h : s.Reads env targets value (e :: todo)) (hown : ¬env.Readable e) :
    s.Reads env targets value todo :=
  { h with
    unread := fun d hd => h.unread d (List.mem_cons_of_mem e hd)
    read := fun d hd hread hreadable => h.read d hd (fun hmem => (List.mem_cons.1 hmem).elim
      (fun heq => hown (heq ▸ hreadable)) hread) hreadable }

theorem faults (h : s.Reads env targets value todo) (n : ℕ) :
    SweepState.Reads env targets value { s with readFaults := n } todo :=
  { h with }

/-- **A target is read through its own process.** -/
theorem readOwn (htrue : env.Truthful targets value) (h : s.Reads env targets value (e :: todo))
    (hsub : e :: todo ⊆ targets.zipIdx) (hnodup : (e :: todo).Nodup) :
    (s.readOwn env e).Reads env targets value todo := by
  have henum := List.mk_mem_zipIdx_iff_getElem?.1 (hsub List.mem_cons_self)
  have hcall := h.call (c := .own e.1.pid e.2) ⟨e.1, henum, rfl⟩
  rw [SweepState.readOwn]
  cases hread : env.readTargetOwnPid e with
  | none => exact hcall.skip (by rw [ProcessMemory.Readable, hread]; exact Bool.false_ne_true)
  | some val =>
    have hval : val = value e.1 := by
      rw [ProcessMemory.readTargetOwnPid] at hread
      split_ifs at hread with hbad hok
      rw [Bool.and_eq_true] at hok
      rw [← Option.some.inj hread]
      exact htrue.own e.1 (List.mem_of_getElem? henum) hok.1
    rw [hval]
    exact hcall.mark hsub hnodup

theorem torn (h : s.Reads env targets value todo) (he : e ∈ todo) (val : UInt32) :
    SweepState.Reads env targets value { s with outVals := s.outVals.set e.2 val } todo :=
  { h with
    length_vals := (List.length_set ..).trans h.length_vals
    right := fun d hd hvalid => by
      have hne : e.2 ≠ d.2 := fun heq => by
        rw [← heq, h.unread e he] at hvalid
        exact Bool.false_ne_true (Option.some.inj hvalid)
      rw [List.getElem?_set_ne hne]
      exact h.right d hd hvalid }

variable {rest : List BatchEntry}

theorem foldl_mark {reader : ℤ} (hlive : env.live reader = true)
    (htrue : env.Truthful targets value) (batch : List BatchEntry)
    (h : s.Reads env targets value (batch ++ rest)) (hsub : batch ++ rest ⊆ targets.zipIdx)
    (hnodup : (batch ++ rest).Nodup) (hshared : ∀ e ∈ batch, e.1.isShared = 1) :
    (batch.foldl (fun s e => s.mark e.2 (env.mem reader e.1.waitEventAddr)) s).Reads env targets
      value rest := by
  induction batch generalizing s with
  | nil => exact h
  | cons e batch ih =>
    rw [List.cons_append] at h hsub hnodup
    have henum := List.mk_mem_zipIdx_iff_getElem?.1 (hsub List.mem_cons_self)
    have hval : env.mem reader e.1.waitEventAddr = value e.1 :=
      htrue.shared e.1 (List.mem_of_getElem? henum) (hshared e List.mem_cons_self) reader hlive
    rw [List.foldl_cons, hval]
    exact ih (h.mark hsub hnodup) (List.cons_subset.1 hsub).2 (List.nodup_cons.1 hnodup).2
      fun d hd => hshared d (List.mem_cons_of_mem e hd)

/-- **A batch call.** It reads the entries before the one where it stops. -/
theorem readBatch {reader : ℤ} {bytes : ℤ} (htrue : env.Truthful targets value)
    (hlive : 0 < bytes → env.live reader = true) {batch : List BatchEntry}
    (h : s.Reads env targets value (batch ++ rest)) (hsub : batch ++ rest ⊆ targets.zipIdx)
    (hnodup : (batch ++ rest).Nodup) (hshared : ∀ e ∈ batch, e.1.isShared = 1) :
    (s.readBatch env reader bytes batch).Reads env targets value
      (batch.drop (bytes / 4).toNat ++ rest) := by
  have hcall := h.call (c := .batch reader (batch.map Prod.snd)) fun i hi => by
    obtain ⟨e, he, rfl⟩ := List.mem_map.1 hi
    exact ⟨e.1, List.mk_mem_zipIdx_iff_getElem?.1 (hsub (List.mem_append_left _ he)),
      Or.inl (hshared e he)⟩
  rw [SweepState.readBatch]
  generalize hdone : (bytes / 4).toNat = done
  have hsplit : batch.take done ++ (batch.drop done ++ rest) = batch ++ rest := by
    rw [← List.append_assoc, List.take_append_drop]
  have hmarked : SweepState.Reads env targets value
      ((batch.take done).foldl (fun s e => s.mark e.2 (env.mem reader e.1.waitEventAddr))
        { s with calls := .batch reader (batch.map Prod.snd) :: s.calls })
      (batch.drop done ++ rest) := by
    by_cases hpos : 0 < bytes
    · exact foldl_mark (hlive hpos) htrue (batch.take done) (hsplit ▸ hcall) (hsplit ▸ hsub)
        (hsplit ▸ hnodup) fun e he => hshared e (List.mem_of_mem_take he)
    · obtain rfl : done = 0 := by omega
      exact hcall
  cases hnext : batch[done]? with
  | none => exact hmarked
  | some e =>
    have he : e ∈ batch.drop done ++ rest := by
      refine List.mem_append_left _ (List.mem_iff_getElem?.2 ⟨0, ?_⟩)
      rw [List.getElem?_drop, Nat.add_zero, hnext]
    dsimp only
    split_ifs
    · exact hmarked.torn he _
    · exact hmarked

/-- **The sweep.** It comes to an end and has read all of the batch. -/
theorem sweep (htrue : env.Truthful targets value) {fuel base : ℕ} {batch : List BatchEntry}
    (h : s.Reads env targets value (batch ++ rest)) (hsub : batch ++ rest ⊆ targets.zipIdx)
    (hnodup : (batch ++ rest).Nodup) (hshared : ∀ e ∈ batch, e.1.isShared = 1)
    (hfuel : batch.length ≤ fuel) :
    ∃ s', s.sweep env fuel base batch = some s' ∧ s'.Reads env targets value rest := by
  induction fuel generalizing base batch s with
  | zero =>
    obtain rfl := List.eq_nil_of_length_eq_zero (Nat.le_zero.1 hfuel)
    exact ⟨s, rfl, h⟩
  | succ fuel ih =>
    cases batch with
    | nil => exact ⟨s, rfl, h⟩
    | cons e batch =>
      rw [SweepState.sweep]
      dsimp only
      generalize hr : env.processVmReadv e.1.pid base (batch.length + 1) = r
      have hlive : 0 < (if 0 < r then r else 0) → env.live e.1.pid = true := fun hpos => by
        by_contra hdead
        rw [ProcessMemory.processVmReadv, if_neg hdead] at hr
        subst hr
        exact absurd hpos (by decide)
      have hread := h.readBatch htrue hlive hsub hnodup hshared
      generalize hdone : ((if 0 < r then r else 0) / 4).toNat = done at hread ⊢
      cases hdrop : (e :: batch).drop done with
      | nil =>
        rw [hdrop] at hread
        exact ⟨_, rfl, hread⟩
      | cons d todo =>
        have hsuffix : (d :: todo) <:+ e :: batch := hdrop ▸ List.drop_suffix done _
        have hsub' : d :: todo ++ rest ⊆ targets.zipIdx := fun c hc => hsub (by
          rw [List.mem_append] at hc ⊢
          exact hc.imp (fun hc => hsuffix.subset hc) id)
        have hnodup' : (d :: todo ++ rest).Nodup :=
          hnodup.sublist (hsuffix.sublist.append_right rest)
        have hlen : todo.length ≤ fuel := by
          have := hsuffix.length_le
          rw [List.length_cons] at this
          exact Nat.le_of_succ_le_succ (Nat.le_trans this hfuel)
        rw [hdrop, List.cons_append] at hread
        exact ih ((readOwn htrue hread hsub' hnodup').faults _) (List.cons_subset.1 hsub').2
          (List.nodup_cons.1 hnodup').2
          (fun c hc => hshared c (hsuffix.subset (List.mem_cons_of_mem d hc))) hlen

theorem foldl_readOwn (htrue : env.Truthful targets value) (todo : List BatchEntry)
    (h : s.Reads env targets value todo) (hsub : todo ⊆ targets.zipIdx) (hnodup : todo.Nodup) :
    (todo.foldl (SweepState.readOwn env) s).Reads env targets value [] := by
  induction todo generalizing s with
  | nil => exact h
  | cons e todo ih =>
    exact ih (readOwn htrue h hsub hnodup) (List.cons_subset.1 hsub).2 (List.nodup_cons.1 hnodup).2

end SweepState.Reads

/-! ### A whole tick -/

/-- **A tick reads what reading every target would read.** It comes to an end, passes only shared
targets to another process, gives every valid target its own value, leaves no target out that its
own process could read, and returns how many are valid. -/
theorem samplerReadTargets_spec (env : ProcessMemory) (targets : List ReadTarget)
    (value : ReadTarget → UInt32) (htrue : env.Truthful targets value) :
    ∃ s, samplerReadTargets env targets = some s ∧
      s.outVals.length = targets.length ∧ s.outValid.length = targets.length ∧
      (∀ i t, targets[i]? = some t →
        (s.outValid[i]? = some true → s.outVals[i]? = some (value t)) ∧
        (env.Readable (t, i) → s.outValid[i]? = some true)) ∧
      s.got = s.outValid.count true ∧ ∀ c ∈ s.calls, c.Proper targets := by
  have hperm : ((targets.zipIdx.filter fun e => e.1.isShared = 1) ++
      targets.zipIdx.filter fun e => e.1.isShared ≠ 1).Perm targets.zipIdx := by
    simpa using List.filter_append_perm (fun e : BatchEntry => decide (e.1.isShared = 1))
      targets.zipIdx
  have hnodup : targets.zipIdx.Nodup := List.Nodup.of_map Prod.snd (by
    rw [List.zipIdx_map_snd]
    exact List.nodup_range')
  have hstart := SweepState.Reads.start env targets value hperm.subset hperm.symm.subset
  obtain ⟨s, hsweep, hs⟩ := hstart.sweep htrue hperm.subset (hperm.nodup_iff.2 hnodup)
    (fun e he => by simpa using (List.mem_filter.1 he).2) (Nat.le_refl _)
  have hend := hs.foldl_readOwn htrue _ (fun e he => (List.mem_filter.1 he).1) (hnodup.filter _)
  refine ⟨_, ?_, hend.length_vals, hend.length_valid, fun i t ht => ?_, hend.got, hend.proper⟩
  · rw [samplerReadTargets]
    exact congrArg (Option.map _) hsweep
  · have henum : (t, i) ∈ targets.zipIdx := List.mk_mem_zipIdx_iff_getElem?.2 ht
    exact ⟨hend.right (t, i) henum, hend.read (t, i) henum List.not_mem_nil⟩

/-- Three backends with shared addresses, of which the last one has exited, and one with a private
address. -/
def tickTargets : List ReadTarget :=
  [⟨11, 0x1000, 1⟩, ⟨12, 0x5000, 0⟩, ⟨13, 0x1008, 1⟩, ⟨14, 0x1010, 1⟩]

/-- The batch call stops inside its second entry. The private address holds the number of the
process that reads it. -/
def tickMemory : ProcessMemory where
  live p := p ≠ 14
  mem p addr := if addr = 0x5000 then UInt32.ofNat p.toNat else addr.toUInt32
  batchBytes base := if base = 0 then 6 else -1
  torn _ := 0xDEAD
  ownOk _ := true

/-- What the targets hold. -/
def tickValue (t : ReadTarget) : UInt32 :=
  if t.waitEventAddr = 0x5000 then UInt32.ofNat t.pid.toNat else t.waitEventAddr.toUInt32

theorem samplerReadTargets_tick :
    ∃ s, samplerReadTargets tickMemory tickTargets = some s ∧ s.got = s.outValid.count true ∧
      s.outVals[1]? = some 12 := by
  obtain ⟨s, hs, -, -, hread, hgot, -⟩ := samplerReadTargets_spec tickMemory tickTargets tickValue
    { shared := fun t ht hshared p _ => by
        have haddr : t.waitEventAddr ≠ 0x5000 := by
          revert t
          decide
        exact (if_neg haddr).trans (if_neg haddr).symm
      own := fun t _ _ => rfl }
  exact ⟨s, hs, hgot, (hread 1 ⟨12, 0x5000, 0⟩ rfl).1
    ((hread 1 ⟨12, 0x5000, 0⟩ rfl).2 rfl)⟩

end PgWaitTracer
