import PgWaitTracer.Compute.Lifecycle
import PgWaitTracer.Compute.QueryContext
import PgWaitTracer.Compute.TripleMap

/-!
# The growing indexes

Three hash tables carry the views of the server: `src/pid_index.h` and `src/qid_index.h` map a pid
or a query id to an `int`, and `src/triple_map.h` hands out the counter of a triple. They are
rehashed into twice as many slots before they are 70 % full, and stay as they are if there is no
memory for that. The use of a slot is marked beside its key, so that any key can be stored.

The outcomes of the allocations of one call are a function of their number.

## Main results

* `growingIndexes_are_maps`: the tables are these maps, and every probe in them ends.
-/

namespace PgWaitTracer

open GrowTable

/-! ### The operations -/

/-- `pgwt_pid_index_put`. -/
def pidIndexPut (alloc : ℕ → Bool) (t : GrowTable (UInt32 × ℤ)) (pid : UInt32) (val : ℤ) :
    Option (GrowTable (UInt32 × ℤ)) :=
  (reserveInt Prod.fst pidIndexHash 128 (alloc 0 && alloc 1 && alloc 2) t).map fun t' =>
    putNogrow Prod.fst pidIndexHash t' (pid, val)

/-- `pgwt_pid_index_find`. -/
def pidIndexFind (t : GrowTable (UInt32 × ℤ)) (pid : UInt32) : ℤ :=
  ((find? Prod.fst pidIndexHash t pid).map Prod.snd).getD (-1)

/-- `pgwt_triple_map_slot`: the map with the key in it, and whether this call created it. Only a key
that is new needs room. -/
def tripleMapSlot (alloc : ℕ → Bool) (m : TripleMap ℤ) (k : Triple) :
    Option (TripleMap ℤ × Bool) :=
  if mustGrow m ∧ (m.val? k).isSome then some (m, false)
  else
    (reserveInt Prod.fst tripleMapHash 256 ((List.range 5).all alloc) m).map fun m' =>
      if (TripleMap.val? m' k).isSome then (m', false)
      else (putNogrow Prod.fst tripleMapHash m' (k, 0), true)

variable {K : Type} [DecidableEq K] {hash : K → ℕ} {m m' : TripleMap ℤ} {k : Triple}
  {alloc : ℕ → Bool} {created : Bool}

/-- **A search.** The key is in the map afterwards, with 0 if it is new, and no other key
changes. -/
theorem capped_tripleMapSlot (h : Capped Prod.fst tripleMapHash m)
    (hslot : tripleMapSlot alloc m k = some (m', created)) :
    Capped Prod.fst tripleMapHash m' ∧ created = (m.val? k).isNone ∧
      ∀ k', m'.val? k' = if k' = k then some ((m.val? k).getD 0) else m.val? k' := by
  have hsame (hsome : (m.val? k).isSome) :
      false = (m.val? k).isNone ∧
        ∀ k', m.val? k' = if k' = k then some ((m.val? k).getD 0) else m.val? k' := by
    obtain ⟨v, hv⟩ := Option.isSome_iff_exists.mp hsome
    refine ⟨by rw [hv]; rfl, fun k' => ?_⟩
    split_ifs with hk
    · rw [hk, hv]
      rfl
    · rfl
  rw [tripleMapSlot] at hslot
  split_ifs at hslot with hfull
  · obtain ⟨rfl, rfl⟩ := Prod.mk.inj (Option.some.inj hslot)
    exact ⟨h, hsame hfull.2⟩
  · obtain ⟨m₀, hres, hm₀⟩ := Option.map_eq_some_iff.mp hslot
    have hval : ∀ k', m₀.val? k' = m.val? k' := fun k' => by
      rw [TripleMap.val?, h.find?_reserveInt (by decide) hres, TripleMap.val?]
    rw [hval] at hm₀
    split_ifs at hm₀ with hsome
    · obtain ⟨rfl, rfl⟩ := Prod.mk.inj hm₀
      -- a key that was there is found without growth
      have hgrow : ¬mustGrow m := fun hgrow => hfull ⟨hgrow, hsome⟩
      rw [reserveInt, if_neg hgrow] at hres
      obtain rfl := Option.some.inj hres
      exact ⟨h, hsame hsome⟩
    · obtain ⟨rfl, rfl⟩ := Prod.mk.inj hm₀
      rw [Option.not_isSome_iff_eq_none] at hsome
      obtain ⟨hcap, hfind⟩ := h.put (m := 8) (by decide) (by decide) hres (k, 0)
      refine ⟨hcap, by rw [hsome]; rfl, fun k' => ?_⟩
      rw [TripleMap.val?, hfind, hsome]
      split_ifs
      · rfl
      · rfl

/-! ### Runs -/

/-- A call of a put. -/
structure IndexPut (K : Type) where
  key : K
  val : ℤ
  alloc : ℕ → Bool

/-- Puts one after another, from the empty table, and the value that was put last under each key. -/
def putRun (put : (ℕ → Bool) → GrowTable (K × ℤ) → K → ℤ → Option (GrowTable (K × ℤ)))
    (puts : List (IndexPut K)) : GrowTable (K × ℤ) × (K → Option ℤ) :=
  puts.foldl (fun s p => (put p.alloc s.1 p.key p.val).elim s fun t =>
    (t, Function.update s.2 p.key (some p.val))) ({}, fun _ => none)

/-- Puts on `pgwt_qid_index`. -/
def qidIndexRun (puts : List (IndexPut UInt64)) : GrowTable (UInt64 × ℤ) × (UInt64 → Option ℤ) :=
  putRun (fun alloc t k v => (qidIndexPut alloc 0 t k v).1) puts

/-- A call on the triples: a search, with what is stored through the pointer that it hands out, or
`pgwt_triple_map_clear`. -/
inductive TripleCall
  | slot (k : Triple) (alloc : ℕ → Bool) (store : Option ℤ)
  | clear

/-- A call, and what it does to the map that the table should be. -/
def tripleStep (s : TripleMap ℤ × (Triple → Option ℤ)) :
    TripleCall → TripleMap ℤ × (Triple → Option ℤ)
  | .slot k alloc store =>
    match tripleMapSlot alloc s.1 k with
    | none => s
    | some (m, _) =>
      (store.elim m fun v => m.store k v,
        Function.update s.2 k (some (store.getD ((s.2 k).getD 0))))
  | .clear => (s.1.clear, fun _ => none)

/-- Calls one after another, from the empty table. -/
def tripleRun (calls : List TripleCall) : TripleMap ℤ × (Triple → Option ℤ) :=
  calls.foldl tripleStep ({}, fun _ => none)

/-- A table is the map it should be. -/
structure IsMap (hash : K → ℕ) (s : GrowTable (K × ℤ) × (K → Option ℤ)) : Prop where
  capped : Capped Prod.fst hash s.1
  find : ∀ k, (find? Prod.fst hash s.1 k).map Prod.snd = s.2 k

theorem isMap_empty : IsMap hash ({}, fun _ => none) := ⟨capped_empty, fun _ => rfl⟩

theorem isMap_putRun
    {put : (ℕ → Bool) → GrowTable (K × ℤ) → K → ℤ → Option (GrowTable (K × ℤ))}
    (hput : ∀ alloc t k v, ∃ granted, put alloc t k v =
      (reserveInt Prod.fst hash 128 granted t).map fun t' => putNogrow Prod.fst hash t' (k, v))
    (puts : List (IndexPut K)) : IsMap hash (putRun put puts) := by
  refine List.foldlRecOn puts _ isMap_empty fun s h p _ => ?_
  obtain ⟨granted, heq⟩ := hput p.alloc s.1 p.key p.val
  rcases hres : reserveInt Prod.fst hash 128 granted s.1 with _ | t₀
  · rw [heq, hres]
    exact h
  · rw [heq, hres]
    obtain ⟨hcap, hfind⟩ := h.capped.put (m := 7) (by decide) (by decide) hres (p.key, p.val)
    refine ⟨hcap, fun k => ?_⟩
    change (find? Prod.fst hash (putNogrow Prod.fst hash t₀ (p.key, p.val)) k).map Prod.snd =
      Function.update s.2 p.key (some p.val) k
    rw [hfind, Function.update_apply]
    split_ifs
    · rfl
    · exact h.find k

theorem IsMap.tripleStep {s : TripleMap ℤ × (Triple → Option ℤ)} (h : IsMap tripleMapHash s)
    (call : TripleCall) : IsMap tripleMapHash (tripleStep s call) := by
  cases call with
  | clear => exact ⟨h.capped.clear, fun k => TripleMap.val?_clear s.1 k⟩
  | slot k alloc store =>
    rw [PgWaitTracer.tripleStep]
    split
    · exact h
    · rename_i m created hslot
      obtain ⟨hcap, -, hval⟩ := capped_tripleMapSlot h.capped hslot
      have hself : m.val? k = some ((s.1.val? k).getD 0) := by rw [hval, if_pos rfl]
      have hspec : ∀ k', s.1.val? k' = s.2 k' := h.find
      cases store with
      | none =>
        refine ⟨hcap, fun k' => (hval k').trans ?_⟩
        rw [hspec, hspec]
        exact (Function.update_apply ..).symm
      | some v =>
        obtain ⟨r, hr, -⟩ := Option.map_eq_some_iff.mp hself
        refine ⟨hcap.overwrite (r := (k, v)) hr, fun k' => ?_⟩
        change (find? Prod.fst tripleMapHash (putNogrow Prod.fst tripleMapHash m (k, v)) k').map
          Prod.snd = Function.update s.2 k (some v) k'
        rw [(hcap.wf.overwrite (r := (k, v)) hr).2, Function.update_apply]
        split_ifs with hk
        · rfl
        · have hother := hval k'
          rw [if_neg hk, hspec] at hother
          exact hother

/-- **The growing indexes are finite maps**, whatever keys and values are put and whichever
allocations fail. -/
theorem growingIndexes_are_maps :
    (∀ puts : List (IndexPut UInt32),
      ProbesEnd Prod.fst pidIndexHash 128 (putRun pidIndexPut puts).1 ∧
        ∀ k, pidIndexFind (putRun pidIndexPut puts).1 k =
          ((putRun pidIndexPut puts).2 k).getD (-1)) ∧
    (∀ puts : List (IndexPut UInt64),
      ProbesEnd Prod.fst qidIndexHash 128 (qidIndexRun puts).1 ∧
        ∀ k, qidIndexFind (qidIndexRun puts).1 k = (qidIndexRun puts).2 k) ∧
    ∀ calls : List TripleCall,
      ProbesEnd Prod.fst tripleMapHash 256 (tripleRun calls).1 ∧
        (∀ k, (tripleRun calls).1.val? k = (tripleRun calls).2 k) ∧
        ∀ alloc k m created, tripleMapSlot alloc (tripleRun calls).1 k = some (m, created) →
          created = ((tripleRun calls).2 k).isNone ∧
            m.val? k = some (((tripleRun calls).2 k).getD 0) := by
  refine ⟨fun puts => ?_, fun puts => ?_, fun calls => ?_⟩
  · have h : IsMap pidIndexHash (putRun pidIndexPut puts) :=
      isMap_putRun (fun _ _ _ _ => ⟨_, rfl⟩) puts
    exact ⟨h.capped.wf.probesEnd (by decide), fun k => congrArg (Option.getD · (-1)) (h.find k)⟩
  · have h : IsMap qidIndexHash (qidIndexRun puts) :=
      isMap_putRun (fun alloc t k v => ⟨_, qidIndexPut_eq alloc 0 t k v⟩) puts
    exact ⟨h.capped.wf.probesEnd (by decide), h.find⟩
  · have h : IsMap tripleMapHash (tripleRun calls) :=
      List.foldlRecOn calls _ isMap_empty fun s h call _ => h.tripleStep call
    refine ⟨h.capped.wf.probesEnd (by decide), h.find, fun alloc k m created hslot => ?_⟩
    obtain ⟨-, hcreated, hval⟩ := capped_tripleMapSlot h.capped hslot
    have hk : (tripleRun calls).1.val? k = (tripleRun calls).2 k := h.find k
    exact ⟨by rw [hcreated, hk], by rw [hval, if_pos rfl, hk]⟩

end PgWaitTracer
