import PgWaitTracer.Lib.LinearProbe

/-!
# Open-addressed tables that grow

A table with linear probing that is rehashed into twice as many slots before it is 70 % full. A slot
holds a row or nothing. No row is removed, and a row is found under its key until another row is put
under that key.

## Main definitions

* `GrowTable.find?`, `GrowTable.put`: lookup, and insertion that grows the table first if needed.
* `GrowTable.WellFormed`: rows are where their keys are probed to, and there is room.
* `GrowTable.reserveInt`, `GrowTable.Capped`: growth where the load is computed in `int`.

## Main results

* `GrowTable.WellFormed.put`, `GrowTable.WellFormed.overwrite`: a table is the finite map that its
  insertions say.
* `GrowTable.Capped.put`: so is one whose load wraps around.
* `GrowTable.WellFormed.probesEnd`: every probe ends, also while the table is rehashed.
-/

open LinearProbe

/-- Slots, and how many of them are in use. -/
structure GrowTable (R : Type*) where
  slots : List (Option R) := []
  num : ℕ := 0

namespace GrowTable

variable {K R : Type*} [DecidableEq K] (key : R → K) (hash : K → ℕ)

/-- The slot where a key is, or where it goes. -/
def slotOf (t : GrowTable R) (k : K) : Option ℕ :=
  probe (stops (Option.map key) Option.isNone (some k)) t.slots (hash k)

/-- The row of a key. -/
def find? (t : GrowTable R) (k : K) : Option R :=
  (slotOf key hash t k).bind fun j => (t.slots[j]?).join

/-- A row is put under its key, in a table that has room. -/
def putNogrow (t : GrowTable R) (r : R) : GrowTable R :=
  match slotOf key hash t (key r) with
  | none => t
  | some j =>
    { slots := t.slots.set j (some r)
      num := if (t.slots[j]?).join.isNone then t.num + 1 else t.num }

/-- The rows are put into a table of twice as many slots, `init` at first. -/
def grow (init : ℕ) (t : GrowTable R) : GrowTable R :=
  (t.slots.filterMap id).foldl (putNogrow key hash)
    { slots := List.replicate (if t.slots.length = 0 then init else 2 * t.slots.length) none }

/-- The table grows if another row would fill 70 % of it. -/
def reserve (init : ℕ) (t : GrowTable R) : GrowTable R :=
  if t.slots.length = 0 ∨ t.slots.length * 7 ≤ (t.num + 1) * 10 then grow key hash init t else t

/-- A row is put under its key. -/
def put (init : ℕ) (t : GrowTable R) (r : R) : GrowTable R :=
  putNogrow key hash (reserve key hash init t) r

/-- Rows are where their keys are probed to. -/
structure Stored (t : GrowTable R) : Prop where
  probed : Probed (Option.map key) Option.isNone (fun k => k.elim 0 hash) t.slots
  num_eq : t.num = (occupied Option.isNone t.slots).length

/-- Rows are where their keys are probed to, and some slots are empty. -/
structure WellFormed (t : GrowTable R) : Prop extends Stored key hash t where
  room : t.slots.length = 0 ∨ 2 ≤ t.slots.length ∧ t.num * 10 < t.slots.length * 7

variable {key hash}

/-! ### Lookup -/

variable {t : GrowTable R}

theorem Stored.find?_eq_some (h : Stored key hash t) {k : K} {r : R} :
    find? key hash t k = some r ↔ some r ∈ t.slots ∧ key r = k := by
  constructor
  · intro hfind
    obtain ⟨j, hj, hr⟩ := Option.bind_eq_some_iff.1 hfind
    obtain ⟨o, ho, hstop⟩ := exists_of_probe hj
    rw [ho, Option.join_some] at hr
    subst hr
    refine ⟨List.mem_of_getElem? ho, ?_⟩
    simpa [stops] using hstop
  · rintro ⟨hmem, rfl⟩
    obtain ⟨j, hj⟩ := List.mem_iff_getElem?.1 hmem
    have hprobe := h.probed j (some r) hj rfl
    exact Option.bind_eq_some_iff.2 ⟨j, hprobe, by rw [hj]; rfl⟩

theorem Stored.find?_congr {t' : GrowTable R} (h : Stored key hash t) (h' : Stored key hash t')
    (hrows : ∀ r, some r ∈ t'.slots ↔ some r ∈ t.slots) (k : K) :
    find? key hash t' k = find? key hash t k := by
  refine Option.ext fun r => ?_
  rw [h'.find?_eq_some, h.find?_eq_some, hrows]

/-! ### Insertion -/

theorem exists_slotOf (h : Stored key hash t) (hroom : t.num < t.slots.length) (k : K) :
    ∃ j o, slotOf key hash t k = some j ∧ t.slots[j]? = some o ∧
      stops (Option.map key) Option.isNone (some k) o = true := by
  obtain ⟨i, o, hi, hvac⟩ := exists_vacant (h.num_eq ▸ hroom)
  obtain ⟨j, hj⟩ := exists_probe (stops (Option.map key) Option.isNone (some k)) (hash k) hi
    (by simp [stops, hvac])
  obtain ⟨o', ho', hstop⟩ := exists_of_probe hj
  exact ⟨j, o', hj, ho', hstop⟩

/-- A row is put in the slot of its key. -/
theorem Stored.putNogrow_of_slot (h : Stored key hash t) {r : R} {j : ℕ}
    (hj : slotOf key hash t (key r) = some j) :
    Stored key hash (putNogrow key hash t r) ∧
      (putNogrow key hash t r).slots.length = t.slots.length ∧
      (putNogrow key hash t r).num ≤ t.num + 1 ∧
      ∀ r', some r' ∈ (putNogrow key hash t r).slots ↔
        r' = r ∨ some r' ∈ t.slots ∧ key r' ≠ key r := by
  obtain ⟨o, ho, hstop⟩ := exists_of_probe hj
  have hprobed := h.probed.set (k := some (key r)) (r := some r) hj rfl rfl
  rw [GrowTable.putNogrow, hj]
  simp only [ho, Option.join_some]
  refine ⟨⟨hprobed, ?_⟩, List.length_set, ?_, fun r' => ?_⟩
  · cases o with
    | none =>
      simp only [Option.isNone_none, if_true]
      rw [(perm_occupied_set ho rfl rfl).length_eq, List.length_cons, h.num_eq]
    | some r₀ =>
      have hsame : (occupied Option.isNone (t.slots.set j (some r))).length =
          (occupied Option.isNone t.slots).length := length_occupied_set ho rfl rfl
      simp only [hsame, Option.isNone_some, Bool.false_eq_true, if_false]
      exact h.num_eq
  · split_ifs <;> omega
  · constructor
    · intro hmem
      by_cases heq : r' = r
      · exact Or.inl heq
      rcases List.mem_or_eq_of_mem_set hmem with hold | hnew
      · refine Or.inr ⟨hold, fun hkey => heq ?_⟩
        -- two rows of one key are in one slot, which is the one that is written
        obtain ⟨i, hi⟩ := List.mem_iff_getElem?.1 hmem
        have hlt := (List.getElem?_eq_some_iff.1 ho).1
        have hij := hprobed.eq_of_key hi (List.getElem?_set_self hlt) rfl rfl
          (by simpa using hkey)
        rw [hij, List.getElem?_set_self hlt] at hi
        simpa using hi.symm
      · exact absurd (Option.some.inj hnew) heq
    · rintro (rfl | ⟨hmem, hne⟩)
      · exact List.mem_of_getElem? (List.getElem?_set_self (List.getElem?_eq_some_iff.1 ho).1)
      · obtain ⟨i, hi⟩ := List.mem_iff_getElem?.1 hmem
        have hij : j ≠ i := by
          rintro rfl
          rw [ho] at hi
          obtain rfl := Option.some.inj hi
          simp [stops, hne] at hstop
        exact List.mem_of_getElem? ((List.getElem?_set_ne hij).trans hi)

/-- **A row is put where its key is probed to.** -/
theorem Stored.putNogrow {t : GrowTable R} (h : Stored key hash t)
    (hroom : t.num < t.slots.length) (r : R) :
    Stored key hash (putNogrow key hash t r) ∧
      (putNogrow key hash t r).slots.length = t.slots.length ∧
      (putNogrow key hash t r).num ≤ t.num + 1 ∧
      ∀ r', some r' ∈ (putNogrow key hash t r).slots ↔
        r' = r ∨ some r' ∈ t.slots ∧ key r' ≠ key r := by
  obtain ⟨j, o, hj, -⟩ := exists_slotOf h hroom (key r)
  exact h.putNogrow_of_slot hj

theorem Stored.foldl_putNogrow (rows : List R) (h : Stored key hash t)
    (hroom : t.num + rows.length ≤ t.slots.length) (hnodup : (rows.map key).Nodup)
    (hnew : ∀ r ∈ rows, ∀ r', some r' ∈ t.slots → key r' ≠ key r) :
    Stored key hash (rows.foldl (GrowTable.putNogrow key hash) t) ∧
      (rows.foldl (GrowTable.putNogrow key hash) t).slots.length = t.slots.length ∧
      (rows.foldl (GrowTable.putNogrow key hash) t).num ≤ t.num + rows.length ∧
      ∀ r', some r' ∈ (rows.foldl (GrowTable.putNogrow key hash) t).slots ↔
        r' ∈ rows ∨ some r' ∈ t.slots := by
  induction rows generalizing t with
  | nil => exact ⟨h, rfl, Nat.le_refl _, fun r' => by simp⟩
  | cons r rows ih =>
    rw [List.length_cons] at hroom
    obtain ⟨hput, hlen, hnum, hmem⟩ := h.putNogrow (by omega) r
    rw [List.map_cons, List.nodup_cons] at hnodup
    have hfresh : ∀ r₁ ∈ rows, ∀ r', some r' ∈ (GrowTable.putNogrow key hash t r).slots →
        key r' ≠ key r₁ := by
      intro r₁ hr₁ r' hr'
      rcases (hmem r').1 hr' with rfl | ⟨hold, -⟩
      · exact fun heq => hnodup.1 (heq ▸ List.mem_map_of_mem hr₁)
      · exact hnew r₁ (List.mem_cons_of_mem _ hr₁) r' hold
    obtain ⟨h', hlen', hnum', hmem'⟩ := ih hput (by omega) hnodup.2 hfresh
    refine ⟨h', hlen'.trans hlen, by rw [List.foldl_cons, List.length_cons]; omega, fun r' => ?_⟩
    rw [List.foldl_cons, hmem', hmem, List.mem_cons]
    have hkeep : some r' ∈ t.slots → key r' ≠ key r := hnew r List.mem_cons_self r'
    tauto

theorem stored_replicate (key : R → K) (hash : K → ℕ) (n : ℕ) :
    Stored key hash { slots := List.replicate n none } :=
  ⟨probed_replicate rfl n, by rw [occupied_replicate rfl]; rfl⟩

theorem wellFormed_empty : WellFormed key hash {} := ⟨stored_replicate key hash 0, Or.inl rfl⟩

theorem length_filterMap_id (l : List (Option R)) :
    (l.filterMap id).length = (occupied Option.isNone l).length := by
  induction l with
  | nil => rfl
  | cons o l ih =>
    cases o with
    | none => simpa [occupied] using ih
    | some r => simpa [occupied] using ih

theorem Stored.nodup_rows (h : Stored key hash t) : ((t.slots.filterMap id).map key).Nodup := by
  have hrows : (occupied Option.isNone t.slots).map (Option.map key) =
      ((t.slots.filterMap id).map key).map some := by
    induction t.slots with
    | nil => rfl
    | cons o l ih => cases o <;> simpa [occupied] using ih
  have hnodup := h.probed.nodup_keys
  rw [hrows] at hnodup
  exact hnodup.of_map _

theorem Stored.grow {n : ℕ} {t : GrowTable R} (h : Stored key hash t)
    (hroom : t.num ≤ if t.slots.length = 0 then n else 2 * t.slots.length) :
    Stored key hash (grow key hash n t) ∧
      (grow key hash n t).slots.length =
        (if t.slots.length = 0 then n else 2 * t.slots.length) ∧
      (grow key hash n t).num ≤ t.num ∧
      ∀ r, some r ∈ (grow key hash n t).slots ↔ some r ∈ t.slots := by
  have hlen : (t.slots.filterMap id).length = t.num := by
    rw [length_filterMap_id, h.num_eq]
  obtain ⟨h', hl, hn, hmem⟩ := Stored.foldl_putNogrow (t.slots.filterMap id)
    (stored_replicate key hash
      (if t.slots.length = 0 then n else 2 * t.slots.length))
    (by rw [hlen, List.length_replicate, Nat.zero_add]; exact hroom) h.nodup_rows
    (by simp [List.mem_replicate])
  refine ⟨h', hl.trans List.length_replicate, ?_, fun r => ?_⟩
  · rw [hlen, Nat.zero_add] at hn
    exact hn
  · rw [GrowTable.grow, hmem]
    simp [List.mem_replicate]

theorem WellFormed.grow {init : ℕ} (hinit : 2 ≤ init) {t : GrowTable R}
    (h : WellFormed key hash t) :
    Stored key hash (grow key hash init t) ∧ 2 ≤ (grow key hash init t).slots.length ∧
      ((grow key hash init t).num + 1) * 10 < (grow key hash init t).slots.length * 7 ∧
      ∀ r, some r ∈ (grow key hash init t).slots ↔ some r ∈ t.slots := by
  have hnum : t.num ≤ t.slots.length := by
    rw [h.num_eq]
    exact List.length_filter_le ..
  obtain ⟨hst, hlen, hle, hmem⟩ := h.toStored.grow (n := init) (by split_ifs <;> omega)
  refine ⟨hst, ?_, ?_, hmem⟩
  · rcases h.room with h₀ | ⟨h₂, -⟩
    · rw [hlen, if_pos h₀]
      exact hinit
    · rw [hlen, if_neg (by omega)]
      omega
  · rcases h.room with h₀ | ⟨h₂, hlt⟩
    · rw [hlen, if_pos h₀]
      omega
    · rw [hlen, if_neg (by omega)]
      omega

/-- **A table with room for another row.** -/
theorem WellFormed.reserve {init : ℕ} (hinit : 2 ≤ init) {t : GrowTable R}
    (h : WellFormed key hash t) :
    Stored key hash (reserve key hash init t) ∧ 2 ≤ (reserve key hash init t).slots.length ∧
      ((reserve key hash init t).num + 1) * 10 < (reserve key hash init t).slots.length * 7 ∧
      ∀ r, some r ∈ (reserve key hash init t).slots ↔ some r ∈ t.slots := by
  rw [GrowTable.reserve]
  split_ifs with hgrow
  · exact h.grow hinit
  · rw [not_or, Nat.not_le] at hgrow
    refine ⟨h.toStored, ?_, by omega, fun r => Iff.rfl⟩
    rcases h.room with h₀ | ⟨h₂, -⟩
    · exact absurd h₀ hgrow.1
    · exact h₂

theorem Stored.putNogrow_of_room (h : Stored key hash t) (h₂ : 2 ≤ t.slots.length)
    (hroom : (t.num + 1) * 10 < t.slots.length * 7) (r : R) :
    WellFormed key hash (GrowTable.putNogrow key hash t r) ∧
      ∀ k, find? key hash (GrowTable.putNogrow key hash t r) k =
        if k = key r then some r else find? key hash t k := by
  obtain ⟨hput, hlen, hnum, hmem⟩ := h.putNogrow (by omega) r
  refine ⟨⟨hput, Or.inr ⟨by rw [hlen]; exact h₂, by rw [hlen]; omega⟩⟩, fun k => ?_⟩
  refine Option.ext fun r' => ?_
  rw [hput.find?_eq_some, hmem]
  split_ifs with hk
  · subst hk
    constructor
    · rintro ⟨rfl | ⟨-, hne⟩, heq⟩
      · rfl
      · exact absurd heq hne
    · rintro ⟨⟩
      exact ⟨Or.inl rfl, rfl⟩
  · rw [h.find?_eq_some]
    constructor
    · rintro ⟨rfl | ⟨hold, -⟩, heq⟩
      · exact absurd heq.symm hk
      · exact ⟨hold, heq⟩
    · rintro ⟨hold, rfl⟩
      exact ⟨Or.inr ⟨hold, hk⟩, rfl⟩

/-- **Insertion.** The table is the finite map it should be. -/
theorem WellFormed.put (init : ℕ) (hinit : 2 ≤ init) {t : GrowTable R} (h : WellFormed key hash t)
    (r : R) :
    WellFormed key hash (put key hash init t r) ∧
      ∀ k, find? key hash (put key hash init t r) k =
        if k = key r then some r else find? key hash t k := by
  obtain ⟨hst, h₂, hroom, hmem⟩ := h.reserve hinit
  obtain ⟨hwf, hfind⟩ := hst.putNogrow_of_room h₂ hroom r
  refine ⟨hwf, fun k => ?_⟩
  rw [GrowTable.put, hfind, h.toStored.find?_congr hst hmem]

theorem WellFormed.put_grow (init : ℕ) (hinit : 2 ≤ init) (h : WellFormed key hash t) (r : R) :
    WellFormed key hash (putNogrow key hash (GrowTable.grow key hash init t) r) ∧
      ∀ k, find? key hash (putNogrow key hash (GrowTable.grow key hash init t) r) k =
        if k = key r then some r else find? key hash t k := by
  obtain ⟨hst, h₂, hroom, hmem⟩ := h.grow hinit
  obtain ⟨hwf, hfind⟩ := hst.putNogrow_of_room h₂ hroom r
  refine ⟨hwf, fun k => ?_⟩
  rw [hfind, h.toStored.find?_congr hst hmem]

theorem Stored.shape_overwrite (h : Stored key hash t) {r r₀ : R}
    (hold : find? key hash t (key r) = some r₀) :
    (GrowTable.putNogrow key hash t r).slots.length = t.slots.length ∧
      (GrowTable.putNogrow key hash t r).num = t.num := by
  obtain ⟨j, hj, hr₀⟩ := Option.bind_eq_some_iff.1 hold
  refine ⟨(h.putNogrow_of_slot hj).2.1, ?_⟩
  rw [GrowTable.putNogrow, hj]
  simp [hr₀]

/-- **Overwriting.** A row that is put under a key the table has needs no room. -/
theorem WellFormed.overwrite (h : WellFormed key hash t) {r r₀ : R}
    (hold : find? key hash t (key r) = some r₀) :
    WellFormed key hash (putNogrow key hash t r) ∧
      ∀ k, find? key hash (putNogrow key hash t r) k =
        if k = key r then some r else find? key hash t k := by
  obtain ⟨hlen, hnum⟩ := h.toStored.shape_overwrite hold
  obtain ⟨j, hj, -⟩ := Option.bind_eq_some_iff.1 hold
  obtain ⟨hput, -, -, hmem⟩ := h.toStored.putNogrow_of_slot hj
  refine ⟨⟨hput, by rw [hlen, hnum]; exact h.room⟩, fun k => Option.ext fun r' => ?_⟩
  rw [hput.find?_eq_some, hmem]
  split_ifs with hk
  · subst hk
    constructor
    · rintro ⟨rfl | ⟨-, hne⟩, heq⟩
      · rfl
      · exact absurd heq hne
    · rintro ⟨⟩
      exact ⟨Or.inl rfl, rfl⟩
  · rw [h.toStored.find?_eq_some]
    constructor
    · rintro ⟨rfl | ⟨hold, -⟩, heq⟩
      · exact absurd heq.symm hk
      · exact ⟨hold, heq⟩
    · rintro ⟨hold, rfl⟩
      exact ⟨Or.inr ⟨hold, hk⟩, rfl⟩

/-- The slots are kept, and the rows are forgotten. -/
def clear (t : GrowTable R) : GrowTable R := { slots := List.replicate t.slots.length none }

theorem WellFormed.clear (h : WellFormed key hash t) : WellFormed key hash t.clear := by
  refine ⟨stored_replicate key hash _, ?_⟩
  rw [GrowTable.clear, List.length_replicate]
  rcases h.room with h₀ | ⟨h₂, -⟩
  · exact Or.inl h₀
  · refine Or.inr ⟨h₂, ?_⟩
    change 0 * 10 < _
    omega

theorem find?_clear (t : GrowTable R) (k : K) : find? key hash t.clear k = none := by
  refine Option.eq_none_iff_forall_ne_some.2 fun r hr => ?_
  obtain ⟨hmem, -⟩ := (stored_replicate key hash t.slots.length).find?_eq_some.1 hr
  exact absurd (List.eq_of_mem_replicate hmem) (by simp)

/-! ### A load that wraps around -/

/-- An `int` with the low 32 bits of a number. -/
def wrapInt (x : ℕ) : ℤ := Int.bmod x 4294967296

/-- The test for growth in `int` arithmetic: at the first insertion and at 70 % load. -/
def mustGrow (t : GrowTable R) : Bool :=
  t.slots.length = 0 || wrapInt (t.slots.length * 7) ≤ wrapInt ((t.num + 1) * 10)

/-- The table grows if it must, for which memory may not be `granted`. A capacity past 2³⁰ slots is
no `int`. -/
def reserveInt (key : R → K) (hash : K → ℕ) (init : ℕ) (granted : Bool) (t : GrowTable R) :
    Option (GrowTable R) :=
  if mustGrow t then
    if 2 ^ 29 < t.slots.length then none
    else if granted then some (grow key hash init t) else none
  else some t

variable (key hash) in
/-- A table with room whose capacity is a power of two. Past 2²⁸ slots it is no fuller than it was
when it got there. -/
structure Capped (t : GrowTable R) : Prop where
  wf : WellFormed key hash t
  pow : t.slots.length = 0 ∨ ∃ k, t.slots.length = 2 ^ k
  size : t.slots.length ≤ 268435456 ∨ t.slots.length = 536870912 ∧ t.num ≤ 187904820 ∨
    t.slots.length = 1073741824 ∧ t.num ≤ 187904821

theorem wrapInt_of_lt {x : ℕ} (h : x < 2147483648) : wrapInt x = x :=
  Int.bmod_eq_of_le (by omega) (by omega)

theorem capped_empty : Capped key hash {} :=
  ⟨wellFormed_empty, Or.inl List.length_nil, Or.inl (Nat.zero_le 268435456)⟩

theorem Capped.clear (h : Capped key hash t) : Capped key hash t.clear := by
  have hlen : t.clear.slots.length = t.slots.length := List.length_replicate
  refine ⟨h.wf.clear, by rw [hlen]; exact h.pow, ?_⟩
  rw [hlen]
  have hnum : t.clear.num = 0 := rfl
  have hsize := h.size
  omega

theorem Capped.overwrite (h : Capped key hash t) {r r₀ : R}
    (hold : find? key hash t (key r) = some r₀) : Capped key hash (putNogrow key hash t r) := by
  obtain ⟨hlen, hnum⟩ := h.wf.toStored.shape_overwrite hold
  refine ⟨(h.wf.overwrite hold).1, ?_, ?_⟩
  · rw [hlen]
    exact h.pow
  · rw [hlen, hnum]
    exact h.size

theorem Capped.find?_reserveInt {init : ℕ} (hinit : 2 ≤ init) {granted : Bool} {t' : GrowTable R}
    (h : Capped key hash t) (hres : reserveInt key hash init granted t = some t') (k : K) :
    find? key hash t' k = find? key hash t k := by
  rw [reserveInt] at hres
  split_ifs at hres with hgrow hcap hgranted
  · obtain rfl := Option.some.inj hres
    obtain ⟨hst, -, -, hrows⟩ := h.wf.grow hinit
    exact h.wf.toStored.find?_congr hst hrows k
  · rw [Option.some.inj hres]

theorem Capped.room (h : Capped key hash t) (hgrow : ¬mustGrow t) :
    2 ≤ t.slots.length ∧ (t.num + 1) * 10 < t.slots.length * 7 ∧ t.slots.length ≤ 268435456 := by
  rw [mustGrow, Bool.or_eq_true, decide_eq_true_eq, decide_eq_true_eq, not_or, Int.not_le] at hgrow
  obtain ⟨h₀, hlt⟩ := hgrow
  obtain ⟨h₂, hroom⟩ := h.wf.room.resolve_left h₀
  rcases h.size with hsmall | ⟨hlen, hnum⟩ | ⟨hlen, hnum⟩
  · rw [wrapInt_of_lt (by omega), wrapInt_of_lt (by omega)] at hlt
    exact ⟨h₂, by omega, hsmall⟩
  · rw [wrapInt_of_lt (by omega), hlen] at hlt
    have hwrap : wrapInt (536870912 * 7) = -536870912 := by decide
    omega
  · rw [wrapInt_of_lt (by omega), hlen] at hlt
    have hwrap : wrapInt (1073741824 * 7) = -1073741824 := by decide
    omega

theorem two_mul_two_pow {k : ℕ} (h : 2 ^ k ≤ 268435456) :
    2 * 2 ^ k ≤ 268435456 ∨ 2 ^ k = 268435456 := by
  have hbound : (268435456 : ℕ) = 2 ^ 28 := by decide
  rw [hbound] at h ⊢
  have hk : k ≤ 28 := Nat.le_of_lt_succ ((Nat.pow_lt_pow_iff_right (by decide : 1 < 2)).mp
    (Nat.lt_of_le_of_lt h (by decide : 2 ^ 28 < 2 ^ 29)))
  rcases Nat.eq_or_lt_of_le hk with rfl | hlt
  · exact Or.inr rfl
  · left
    rw [← Nat.pow_succ']
    exact Nat.pow_le_pow_right (by decide : 0 < 2) hlt

/-- **Insertion.** The table is the finite map it should be, whether it grows too early or not. -/
theorem Capped.put {m : ℕ} (hm : 1 ≤ m) (hm' : 2 ^ m ≤ 268435456) {granted : Bool}
    {t' : GrowTable R} (h : Capped key hash t)
    (hput : reserveInt key hash (2 ^ m) granted t = some t') (r : R) :
    Capped key hash (putNogrow key hash t' r) ∧ ∀ k,
      find? key hash (putNogrow key hash t' r) k =
        if k = key r then some r else find? key hash t k := by
  rw [reserveInt] at hput
  split_ifs at hput with hgrow hcap hgranted
  · obtain rfl := Option.some.inj hput
    have hinit : 2 ≤ 2 ^ m := Nat.pow_le_pow_right (by decide : 0 < 2) hm
    obtain ⟨hwf, hfind⟩ := h.wf.put_grow (2 ^ m) hinit r
    obtain ⟨hst, h₂, hroom, -⟩ := h.wf.grow hinit
    have hnum : t.num ≤ t.slots.length := by
      rw [h.wf.num_eq]
      exact List.length_filter_le ..
    obtain ⟨-, hlen, hle, -⟩ := h.wf.toStored.grow (n := 2 ^ m) (by split_ifs <;> omega)
    obtain ⟨-, hlen', hnum', -⟩ := hst.putNogrow (by omega) r
    refine ⟨⟨hwf, Or.inr ?_, ?_⟩, hfind⟩
    · rw [hlen', hlen]
      rcases h.pow with h₀ | ⟨k, hk⟩
      · exact ⟨m, by rw [if_pos h₀]⟩
      · rw [if_neg (by rw [hk]; exact Nat.ne_of_gt (Nat.two_pow_pos k)), hk]
        exact ⟨k + 1, by rw [Nat.pow_succ']⟩
    · have hcap' := Nat.not_lt.mp hcap
      rw [hlen', hlen]
      rcases h.pow with h₀ | ⟨k, hk⟩
      · exact Or.inl (by rw [if_pos h₀]; exact hm')
      · have hpos := Nat.two_pow_pos k
        rw [if_neg (by omega)]
        rcases h.size with hsmall | ⟨hcap, hnum⟩ | ⟨hcap, -⟩
        · rcases two_mul_two_pow (hk ▸ hsmall) with hle | heq
          · exact Or.inl (by omega)
          · rcases h.wf.room with h₀ | ⟨-, hfull⟩ <;> omega
        · omega
        · omega
  · obtain rfl := Option.some.inj hput
    obtain ⟨h₂, hroom, hsmall⟩ := h.room hgrow
    obtain ⟨hwf, hfind⟩ := h.wf.toStored.putNogrow_of_room h₂ hroom r
    obtain ⟨-, hlen', -, -⟩ := h.wf.toStored.putNogrow (by omega) r
    exact ⟨⟨hwf, by rw [hlen']; exact h.pow, by rw [hlen']; exact Or.inl hsmall⟩, hfind⟩

/-! ### Probes end -/

/-- Every probe finds a slot, in the table and at every point of a rehash into more slots. -/
structure ProbesEnd (key : R → K) (hash : K → ℕ) (init : ℕ) (t : GrowTable R) : Prop where
  probe : t.slots ≠ [] → ∀ k, (slotOf key hash t k).isSome
  rehash : ∀ rows, rows <+: t.slots.filterMap id → ∀ k,
    (slotOf key hash (rows.foldl (putNogrow key hash)
      { slots := List.replicate (if t.slots.length = 0 then init else 2 * t.slots.length) none })
      k).isSome

theorem WellFormed.probesEnd {init : ℕ} (hinit : 0 < init) (h : WellFormed key hash t) :
    ProbesEnd key hash init t := by
  have hsome {t' : GrowTable R} (h' : Stored key hash t') (hroom : t'.num < t'.slots.length)
      (k : K) : (slotOf key hash t' k).isSome := by
    obtain ⟨j, -, hj, -⟩ := exists_slotOf h' hroom k
    rw [hj]
    rfl
  refine ⟨fun hne => hsome h.toStored ?_, fun rows hrows => ?_⟩
  · rcases h.room with h₀ | ⟨-, hlt⟩
    · exact absurd (List.length_eq_zero_iff.1 h₀) hne
    · omega
  · have hle := hrows.length_le
    rw [length_filterMap_id, ← h.num_eq] at hle
    have hroom : rows.length < if t.slots.length = 0 then init else 2 * t.slots.length := by
      have hnum : t.num ≤ t.slots.length := by
        rw [h.num_eq]
        exact List.length_filter_le ..
      split_ifs <;> omega
    obtain ⟨hst, hlen, hnum, -⟩ := Stored.foldl_putNogrow rows (stored_replicate key hash
      (if t.slots.length = 0 then init else 2 * t.slots.length))
      (by rw [List.length_replicate, Nat.zero_add]; exact Nat.le_of_lt hroom)
      (h.nodup_rows.sublist (hrows.sublist.map key)) (by simp [List.mem_replicate])
    refine hsome hst ?_
    rw [hlen, List.length_replicate]
    change _ ≤ 0 + rows.length at hnum
    omega

end GrowTable
