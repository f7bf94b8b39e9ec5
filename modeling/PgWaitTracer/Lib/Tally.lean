import Mathlib.Data.UInt
import Mathlib.Algebra.BigOperators.Group.Finset.Piecewise
import Mathlib.Algebra.Order.BigOperators.Group.List
import Mathlib.Algebra.Order.Ring.Nat
import Mathlib.Data.Finset.Dedup
import PgWaitTracer.Lib.GrowTable

/-!
# Adding up

A loop that adds a share of every element to an accumulator ends with the sum of the shares. A loop
that keeps one accumulator for every key in a table with linear probing ends with the fold over the
elements of each key, if the table has a slot for every key.

## Main definitions

* `Tally.rowOf`, `Tally.Tallied`: the row of a key, and rows that are those of a list.
* `Tally.fileRows`: a table of a fixed size. There is none if the search for a slot does not end.
* `Tally.visitRow`, `Tally.RoomFor`: elements that need a slot and do not take it.
* `Tally.indexRows`: rows in the order of their first elements, with an index of their keys.
* `Tally.boundedRows`: rows up to a number, after which elements of new keys are dropped.
* `Tally.amount`: a quantity of the row of a key, 0 without a row.

## Main results

* `Tally.foldl_proj`: a quantity to which every step adds a share.
* `Tally.fileRows_holds`: there is a table exactly when there are not more keys than slots, and it
  holds the rows of the list.
* `Tally.visitRows_holds`: the same for elements of which some take no slot.
* `Tally.indexRows_tallied`: the indexed rows are those of the list.
* `Tally.boundedRows_tallied`: the rows up to a number are those of the first keys.
* `Tally.amount_foldl_boundedRow_iff`: when elements of different keys are all added to rows.
* `Tally.Tallied.sum_rows`: a sum over rows is a sum over elements.
* `Tally.mem_take_iff`: what a cap on sorted rows keeps.
-/

namespace Tally

/-! ### Sums -/

/-- **A quantity to which every step adds a share.** -/
theorem foldl_proj {σ α M : Type*} [AddMonoid M] (g : σ → M) (w : α → M) {f : σ → α → σ}
    {l : List α} (h : ∀ s, ∀ x ∈ l, g (f s x) = g s + w x) (s : σ) :
    g (l.foldl f s) = g s + (l.map w).sum := by
  induction l generalizing s with
  | nil => exact (add_zero _).symm
  | cons x l ih =>
    rw [List.foldl_cons, ih fun s y hy => h s y (List.mem_cons_of_mem _ hy),
      h s x List.mem_cons_self, List.map_cons, List.sum_cons, add_assoc]

theorem sum_filter_map {α M : Type*} [AddMonoid M] (p : α → Bool) (w : α → M) (l : List α) :
    ((l.filter p).map w).sum = (l.map fun x => if p x then w x else 0).sum := by
  induction l with
  | nil => rfl
  | cons x l ih =>
    rw [List.filter_cons, List.map_cons, List.sum_cons, ← ih]
    by_cases hp : p x
    · simp [hp]
    · simp [hp]

theorem sum_map_prodMk {α M N : Type*} [AddMonoid M] [AddMonoid N] (f : α → M) (g : α → N) :
    (l : List α) → (l.map fun x => (f x, g x)).sum = ((l.map f).sum, (l.map g).sum)
  | [] => rfl
  | x :: l => by
    rw [List.map_cons, List.map_cons, List.map_cons, List.sum_cons, List.sum_cons, List.sum_cons,
      sum_map_prodMk f g l, Prod.mk_add_mk]

theorem sum_filter_flatMap {α β M : Type*} [AddMonoid M] (g : β → List α) (p : α → Bool)
    (w : α → M) : (l : List β) →
    (((l.flatMap g).filter p).map w).sum = (l.map fun b => (((g b).filter p).map w).sum).sum
  | [] => rfl
  | b :: l => by
    rw [List.flatMap_cons, List.filter_append, List.map_append, List.sum_append,
      sum_filter_flatMap g p w l, List.map_cons, List.sum_cons]

theorem length_filter_flatMap {α β : Type*} (g : β → List α) (p : α → Bool) (l : List β) :
    ((l.flatMap g).filter p).length = (l.map fun b => ((g b).filter p).length).sum := by
  rw [List.filter_flatMap, List.length_flatMap]

theorem sum_map_eq_iff_of_le {α : Type*} {v w : α → ℕ} {l : List α} (h : ∀ x ∈ l, v x ≤ w x) :
    (l.map w).sum = (l.map v).sum ↔ ∀ x ∈ l, w x = v x := by
  refine ⟨fun heq => ?_, fun heq => congrArg List.sum (List.map_congr_left heq)⟩
  induction l with
  | nil => simp
  | cons x l ih =>
    have hx := h x List.mem_cons_self
    have hl : (l.map v).sum ≤ (l.map w).sum :=
      List.sum_le_sum fun y hy => h y (List.mem_cons_of_mem _ hy)
    rw [List.map_cons, List.map_cons, List.sum_cons, List.sum_cons] at heq
    rw [List.forall_mem_cons]
    exact ⟨by omega, ih (fun y hy => h y (List.mem_cons_of_mem _ hy)) (by omega)⟩

theorem toNat_sum (l : List UInt64) : l.sum.toNat = (l.map UInt64.toNat).sum % 2 ^ 64 := by
  induction l with
  | nil => rfl
  | cons x l ih =>
    rw [List.sum_cons, UInt64.toNat_add, ih, List.map_cons, List.sum_cons, Nat.add_mod_mod]

theorem toNat_sum_map_eq_iff {α : Type*} (w : α → UInt64) (l : List α) :
    (l.map w).sum.toNat = (l.map fun x => (w x).toNat).sum ↔
      (l.map fun x => (w x).toNat).sum < 2 ^ 64 := by
  rw [toNat_sum, List.map_map]
  exact Nat.mod_eq_iff_lt (by decide)

/-! ### Rows -/

variable {K R α : Type*} [DecidableEq K] (key : R → K) (hash : K → ℕ) (new : K → R) (k : α → K)
  (f : R → α → R)

/-- The row of a key: the fold over its elements. -/
def rowOf (l : List α) (κ : K) : Option R :=
  if κ ∈ l.map k then some ((l.filter fun x => k x = κ).foldl f (new κ)) else none

/-- The rows are those of the keys of the list. -/
structure Tallied (rows : List R) (l : List α) : Prop where
  nodup : (rows.map key).Nodup
  mem_iff : ∀ r, r ∈ rows ↔ rowOf new k f l (key r) = some r

/-- A new row has its key, and an element that is added to a row leaves it. -/
structure Keyed : Prop where
  key_new : ∀ κ, key (new κ) = κ
  key_add : ∀ r x, key (f r x) = key r

variable {key hash new k f}

theorem rowOf_snoc (l : List α) (x : α) (κ : K) :
    rowOf new k f (l ++ [x]) κ =
      if κ = k x then some (f ((rowOf new k f l κ).getD (new κ)) x) else rowOf new k f l κ := by
  by_cases hκ : κ = k x
  · subst hκ
    rw [rowOf, if_pos (by simp), if_pos rfl, List.filter_append, List.foldl_append, rowOf]
    split_ifs with hmem
    · simp
    · have hnone : (l.filter fun y => k y = k x) = [] :=
        List.filter_eq_nil_iff.2 fun y hy => by
          simpa using fun h => hmem (List.mem_map.2 ⟨y, hy, h⟩)
      simp [hnone]
  · simp [rowOf, hκ, Ne.symm hκ]

omit [DecidableEq K] in
theorem Keyed.key_foldl (h : Keyed key new f) (l : List α) (r : R) :
    key (l.foldl f r) = key r := by
  induction l generalizing r with
  | nil => rfl
  | cons x l ih => rw [List.foldl_cons, ih, h.key_add]

theorem Keyed.key_of_rowOf (h : Keyed key new f) {l : List α} {κ : K} {r : R}
    (hr : rowOf new k f l κ = some r) : key r = κ := by
  rw [rowOf] at hr
  split_ifs at hr with hmem
  obtain rfl := Option.some.inj hr
  rw [h.key_foldl, h.key_new]

theorem tallied_nil : Tallied key new k f [] [] :=
  ⟨List.nodup_nil, fun r => by simp [rowOf]⟩

variable {rows : List R}

theorem Tallied.perm {rows' : List R} {l : List α} (h : Tallied key new k f rows l)
    (hp : rows'.Perm rows) : Tallied key new k f rows' l :=
  ⟨(hp.map key).nodup_iff.2 h.nodup, fun r => hp.mem_iff.trans (h.mem_iff r)⟩

/-- **One more element.** The row of its key is written, the others stay. -/
theorem Tallied.snoc (hk : Keyed key new f) {rows' : List R} {l : List α}
    (h : Tallied key new k f rows l) {x : α} (hnodup : (rows'.map key).Nodup)
    (hmem : ∀ r, r ∈ rows' ↔
      r = f ((rowOf new k f l (k x)).getD (new (k x))) x ∨ r ∈ rows ∧ key r ≠ k x) :
    Tallied key new k f rows' (l ++ [x]) := by
  have hkey : key (f ((rowOf new k f l (k x)).getD (new (k x))) x) = k x := by
    rw [hk.key_add]
    cases hr : rowOf new k f l (k x) with
    | none => exact hk.key_new _
    | some r => exact hk.key_of_rowOf hr
  refine ⟨hnodup, fun r => ?_⟩
  rw [hmem, rowOf_snoc, h.mem_iff]
  by_cases hr : key r = k x
  · rw [if_pos hr, hr]
    constructor
    · rintro (heq | ⟨-, hne⟩)
      · rw [heq]
      · exact absurd rfl hne
    · intro heq
      exact Or.inl (Option.some.inj heq).symm
  · rw [if_neg hr]
    constructor
    · rintro (rfl | ⟨heq, -⟩)
      · exact absurd hkey hr
      · exact heq
    · exact fun heq => Or.inr ⟨heq, hr⟩

omit [DecidableEq K] in
theorem mem_set_iff (hn : (rows.map key).Nodup) {j : ℕ} {r r' : R} (hr : rows[j]? = some r)
    (hkey : key r' = key r) (r₁ : R) :
    r₁ ∈ rows.set j r' ↔ r₁ = r' ∨ r₁ ∈ rows ∧ key r₁ ≠ key r := by
  have hlt := (List.getElem?_eq_some_iff.1 hr).1
  constructor
  · intro hmem
    obtain ⟨i, hi⟩ := List.mem_iff_getElem?.1 hmem
    rw [List.getElem?_set] at hi
    split_ifs at hi with hji
    · exact Or.inl (Option.some.inj hi).symm
    · refine Or.inr ⟨List.mem_of_getElem? hi, fun heq => hji ?_⟩
      -- different rows have different keys
      have hi' := (List.getElem?_eq_some_iff.1 hi).1
      refine (List.getElem?_inj (by rwa [List.length_map]) hn).1 ?_
      rw [List.getElem?_map, List.getElem?_map, hr, hi, Option.map_some, Option.map_some, heq]
  · rintro (rfl | ⟨hmem, hne⟩)
    · exact List.mem_set hlt _
    · obtain ⟨i, hi⟩ := List.mem_iff_getElem?.1 hmem
      have hji : j ≠ i := by
        rintro rfl
        rw [hr] at hi
        exact hne (congrArg key (Option.some.inj hi)).symm
      exact List.mem_of_getElem? ((List.getElem?_set_ne hji).trans hi)

theorem Tallied.find? (hk : Keyed key new f) {l : List α} (h : Tallied key new k f rows l) (κ : K) :
    rows.find? (fun r => key r = κ) = rowOf new k f l κ := by
  refine Option.ext fun r => ?_
  rw [LinearProbe.find?_eq_some_iff_of_nodup h.nodup, h.mem_iff]
  constructor
  · rintro ⟨heq, rfl⟩
    exact heq
  · intro heq
    have hkey := hk.key_of_rowOf heq
    exact ⟨hkey ▸ heq, hkey⟩

theorem Tallied.mem_keys (hk : Keyed key new f) {l : List α} (h : Tallied key new k f rows l)
    (κ : K) : κ ∈ rows.map key ↔ κ ∈ l.map k := by
  rw [List.mem_map]
  constructor
  · rintro ⟨r, hr, rfl⟩
    by_contra hno
    rw [h.mem_iff, rowOf, if_neg hno] at hr
    exact absurd hr (by simp)
  · intro hmem
    have heq : rowOf new k f l κ = some _ := if_pos hmem
    have hkey := hk.key_of_rowOf heq
    exact ⟨_, (h.mem_iff _).2 (by rw [hkey]; exact heq), hkey⟩

theorem Tallied.length_eq (hk : Keyed key new f) {l : List α} (h : Tallied key new k f rows l) :
    rows.length = (l.map k).dedup.length := by
  rw [← List.length_map key]
  refine (List.perm_of_nodup_nodup_toFinset_eq h.nodup (List.nodup_dedup _) ?_).length_eq
  ext κ
  simp [List.mem_toFinset, h.mem_keys hk κ]

theorem sum_filter_key {M : Type*} [AddCommMonoid M] (w : α → M) {l : List α} {s : Finset K}
    (h : ∀ x ∈ l, k x ∈ s) :
    ∑ κ ∈ s, ((l.filter fun x => k x = κ).map w).sum = (l.map w).sum := by
  induction l with
  | nil => simp
  | cons x l ih =>
    have hone : ∀ κ, (((x :: l).filter fun y => k y = κ).map w).sum =
        (if k x = κ then w x else 0) + ((l.filter fun y => k y = κ).map w).sum := by
      intro κ
      by_cases hκ : k x = κ
      · simp [hκ]
      · simp [hκ]
    rw [List.map_cons, List.sum_cons, ← ih fun y hy => h y (List.mem_cons_of_mem _ hy)]
    simp only [hone, Finset.sum_add_distrib, Finset.sum_ite_eq, h x List.mem_cons_self, if_true]

omit [DecidableEq K] in
theorem Keyed.foldl_proj {M : Type*} [AddMonoid M] (hk : Keyed key new f) {g : R → M} {w : α → M}
    (hadd : ∀ r x, key r = k x → g (f r x) = g r + w x) {l : List α} {r : R}
    (hl : ∀ x ∈ l, key r = k x) : g (l.foldl f r) = g r + (l.map w).sum := by
  induction l generalizing r with
  | nil => exact (add_zero _).symm
  | cons x l ih =>
    rw [List.foldl_cons, ih fun y hy => (hk.key_add r x).trans (hl y (List.mem_cons_of_mem _ hy)),
      hadd r x (hl x List.mem_cons_self), List.map_cons, List.sum_cons, add_assoc]

/-- **Sums over rows.** A quantity of the rows to which every element adds a share. -/
theorem Tallied.sum_rows {M : Type*} [AddCommMonoid M] (hk : Keyed key new f) {l : List α}
    (h : Tallied key new k f rows l) (g : R → M) (w : α → M) (hnew : ∀ κ, g (new κ) = 0)
    (hadd : ∀ r x, key r = k x → g (f r x) = g r + w x) : (rows.map g).sum = (l.map w).sum := by
  have hrow : ∀ r ∈ rows, g r = ((l.filter fun x => k x = key r).map w).sum := by
    intro r hr
    have heq := (h.mem_iff r).1 hr
    rw [rowOf] at heq
    split_ifs at heq
    conv_lhs => rw [← Option.some.inj heq]
    rw [hk.foldl_proj hadd (fun x hx => ?_), hnew, zero_add]
    rw [hk.key_new]
    simpa [eq_comm] using (List.mem_filter.1 hx).2
  have hmem : ∀ x ∈ l, k x ∈ (rows.map key).toFinset := fun x hx =>
    List.mem_toFinset.2 ((h.mem_keys hk _).2 (List.mem_map_of_mem hx))
  rw [List.map_congr_left hrow, ← sum_filter_key w hmem, List.sum_toFinset _ h.nodup, List.map_map]
  rfl

theorem sum_rowOf {M : Type*} [AddMonoid M] (g : R → M) (w : α → M) {l : List α} {κ : K}
    (hnew : g (new κ) = 0) (hadd : ∀ r, ∀ x ∈ l, g (f r x) = g r + w x) :
    (rowOf new k f l κ).elim 0 g = ((l.filter fun x => k x = κ).map w).sum := by
  rw [rowOf]
  split_ifs with hmem
  · rw [Option.elim_some, foldl_proj g w fun r x hx => hadd r x (List.mem_filter.1 hx).1, hnew,
      zero_add]
  · have hnil : (l.filter fun x => k x = κ) = [] := List.filter_eq_nil_iff.2 fun x hx => by
      simpa using fun h => hmem (List.mem_map.2 ⟨x, hx, h⟩)
    rw [hnil]
    rfl

theorem Tallied.forall_rows {l : List α} (h : Tallied key new k f rows l) {P : R → Prop}
    (hnew : ∀ κ, P (new κ)) (hadd : ∀ r x, P r → P (f r x)) : ∀ r ∈ rows, P r := by
  intro r hr
  have heq := (h.mem_iff r).1 hr
  rw [rowOf] at heq
  split_ifs at heq
  rw [← Option.some.inj heq]
  exact List.foldlRecOn _ f (hnew _) fun r hr x _ => hadd r x hr

/-! ### Tables of a fixed size -/

section Table

variable (key hash new k f) in
/-- An element is added to the row of its key, which is new if the search meets an empty slot. There
is no table if the search does not end. -/
def fileRow (t : GrowTable R) (x : α) : Option (GrowTable R) :=
  (t.slotOf key hash (k x)).map fun _ =>
    t.putNogrow key hash (f ((t.find? key hash (k x)).getD (new (k x))) x)

variable (key hash new k f) in
/-- The table of `n` slots after a list of elements. -/
def fileRows (n : ℕ) (l : List α) : Option (GrowTable R) :=
  l.foldlM (fileRow key hash new k f) { slots := List.replicate n none }

/-- A table of `n` slots that holds the rows of a list. -/
structure Holds (key : R → K) (hash : K → ℕ) (new : K → R) (k : α → K) (f : R → α → R) (n : ℕ)
    (t : GrowTable R) (l : List α) : Prop extends t.Stored key hash where
  length_eq : t.slots.length = n
  tallied : Tallied key new k f (t.slots.filterMap id) l

variable {t : GrowTable R} {n : ℕ}

theorem mem_rows {r : R} : r ∈ t.slots.filterMap id ↔ some r ∈ t.slots := by
  simp [List.mem_filterMap]

theorem Holds.find? (hk : Keyed key new f) {l : List α} (h : Holds key hash new k f n t l) (κ : K) :
    t.find? key hash κ = rowOf new k f l κ := by
  refine Option.ext fun r => ?_
  rw [h.toStored.find?_eq_some, ← mem_rows, h.tallied.mem_iff]
  constructor
  · rintro ⟨heq, rfl⟩
    exact heq
  · intro heq
    have hkey := hk.key_of_rowOf heq
    exact ⟨hkey ▸ heq, hkey⟩

theorem holds_nil (n : ℕ) :
    Holds key hash new k f n { slots := List.replicate n none } ([] : List α) := by
  refine ⟨GrowTable.stored_replicate key hash n, List.length_replicate, ?_⟩
  have hnil : (List.replicate n (none : Option R)).filterMap id = [] :=
    List.filterMap_eq_nil_iff.2 fun o ho => List.eq_of_mem_replicate ho
  rw [hnil]
  exact tallied_nil

/-- **An element with a slot.** -/
theorem Holds.fileRow_eq_some (hk : Keyed key new f) {l : List α} (h : Holds key hash new k f n t l)
    {x : α} {t' : GrowTable R} (ht' : fileRow key hash new k f t x = some t') :
    Holds key hash new k f n t' (l ++ [x]) := by
  obtain ⟨j, hj, rfl⟩ := Option.map_eq_some_iff.1 ht'
  have hkey : key (f ((t.find? key hash (k x)).getD (new (k x))) x) = k x := by
    rw [hk.key_add, h.find? hk]
    cases hr : rowOf new k f l (k x) with
    | none => exact hk.key_new _
    | some r => exact hk.key_of_rowOf hr
  obtain ⟨hst, hlen, -, hmem⟩ := h.toStored.putNogrow_of_slot (hkey.symm ▸ hj)
  refine ⟨hst, hlen.trans h.length_eq, h.tallied.snoc hk hst.nodup_rows fun r => ?_⟩
  rw [mem_rows, hmem, mem_rows, hkey, h.find? hk]

/-- Whether a key has a slot. -/
theorem Holds.slotOf_eq_none_iff (hk : Keyed key new f) {l : List α}
    (h : Holds key hash new k f n t l) (κ : K) :
    t.slotOf key hash κ = none ↔ κ ∉ l.map k ∧ n ≤ (l.map k).toFinset.card := by
  rw [List.card_toFinset, ← h.tallied.length_eq hk, GrowTable.length_filterMap_id, ← h.num_eq,
    ← h.length_eq, ← h.tallied.mem_keys hk]
  constructor
  · intro hslot
    constructor
    · intro hmem
      obtain ⟨r, hr, rfl⟩ := List.mem_map.1 hmem
      obtain ⟨j, hj⟩ := List.mem_iff_getElem?.1 (mem_rows.1 hr)
      have hprobe := h.probed j (some r) hj rfl
      exact absurd (hslot.symm.trans hprobe) (by simp)
    · by_contra hroom
      obtain ⟨j, o, hj, -⟩ := GrowTable.exists_slotOf h.toStored (Nat.not_le.1 hroom) κ
      exact absurd (hslot.symm.trans hj) (by simp)
  · rintro ⟨hnew, hfull⟩
    have hocc : LinearProbe.occupied Option.isNone t.slots = t.slots := by
      refine List.filter_sublist.eq_of_length_le ?_
      rw [← LinearProbe.occupied, ← h.num_eq]
      exact hfull
    refine LinearProbe.probe_eq_none fun o ho => LinearProbe.stops_eq_false_iff.2 ?_
    rw [← hocc] at ho
    obtain ⟨hmem, hsome⟩ := List.mem_filter.1 ho
    cases o with
    | none => exact absurd hsome (by simp)
    | some r =>
      refine ⟨rfl, fun heq => hnew (List.mem_map.2 ⟨r, mem_rows.2 hmem, ?_⟩)⟩
      simpa using heq

theorem Holds.fileRow_eq_none (hk : Keyed key new f) {l : List α} (h : Holds key hash new k f n t l)
    {x : α} (hnone : fileRow key hash new k f t x = none) :
    k x ∉ l.map k ∧ n ≤ (l.map k).toFinset.card :=
  (h.slotOf_eq_none_iff hk (k x)).1 (Option.map_eq_none_iff.1 hnone)

variable (hash k) in
/-- **The table of a list.** There is one exactly when there are not more keys than slots, and it
holds the rows of the keys. -/
theorem fileRows_holds (hk : Keyed key new f) (n : ℕ) (l : List α) :
    (n < (l.map k).toFinset.card ∧ fileRows key hash new k f n l = none) ∨
      (l.map k).toFinset.card ≤ n ∧
        ∃ t, fileRows key hash new k f n l = some t ∧ Holds key hash new k f n t l := by
  induction l using List.reverseRecOn with
  | nil => exact Or.inr ⟨Nat.zero_le _, _, rfl, holds_nil n⟩
  | append_singleton l x ih =>
    have hrun : fileRows key hash new k f n (l ++ [x]) =
        (fileRows key hash new k f n l).bind fun t => fileRow key hash new k f t x := by
      rw [fileRows, List.foldlM_append]
      refine congrArg _ (funext fun t => ?_)
      exact bind_pure _
    have hsub : ((l ++ [x]).map k).toFinset = insert (k x) (l.map k).toFinset := by
      ext κ
      simp
    rcases ih with ⟨hlt, hnone⟩ | ⟨hle, t, ht, hold⟩
    · refine Or.inl ⟨lt_of_lt_of_le hlt ?_, by rw [hrun, hnone]; rfl⟩
      rw [hsub]
      exact Finset.card_le_card (Finset.subset_insert _ _)
    · rw [hrun, ht, Option.bind_some]
      cases hx : fileRow key hash new k f t x with
      | none =>
        obtain ⟨hnew, hfull⟩ := hold.fileRow_eq_none hk hx
        refine Or.inl ⟨?_, rfl⟩
        rw [hsub, Finset.card_insert_of_notMem (by simpa using hnew)]
        omega
      | some t' =>
        have hold' := hold.fileRow_eq_some hk hx
        refine Or.inr ⟨?_, t', rfl, hold'⟩
        rw [List.card_toFinset, ← hold'.tallied.length_eq hk, ← hold'.length_eq]
        exact List.length_filterMap_le ..

/-! ### Elements that take no slot -/

variable (key hash new k f) in
/-- An element that is not kept needs a slot like any other, and leaves it as it is. -/
def visitRow (keeps : α → Bool) (t : GrowTable R) (x : α) : Option (GrowTable R) :=
  if keeps x then fileRow key hash new k f t x else (t.slotOf key hash (k x)).map fun _ => t

/-- Every element has a key that was kept before it, or a slot that is free. -/
def RoomFor (k : α → K) (keeps : α → Bool) (n : ℕ) (l : List α) : Prop :=
  ∀ l₁ x l₂, l = l₁ ++ x :: l₂ → k x ∈ (l₁.filter keeps).map k ∨
    ((l₁.filter keeps).map k).toFinset.card < n

theorem roomFor_snoc {keeps : α → Bool} {l : List α} {x : α} :
    RoomFor k keeps n (l ++ [x]) ↔ RoomFor k keeps n l ∧
      (k x ∈ (l.filter keeps).map k ∨ ((l.filter keeps).map k).toFinset.card < n) := by
  constructor
  · refine fun h => ⟨fun l₁ y l₂ heq => h l₁ y (l₂ ++ [x]) ?_, h l x [] rfl⟩
    rw [heq, List.append_assoc, List.cons_append]
  · rintro ⟨h, hx⟩ l₁ y l₂ heq
    rcases List.eq_nil_or_concat l₂ with rfl | ⟨l₃, z, rfl⟩
    · obtain ⟨rfl, hxy⟩ := List.append_inj' heq rfl
      obtain rfl := List.singleton_inj.1 hxy
      exact hx
    · rw [List.concat_eq_append, ← List.cons_append, ← List.append_assoc] at heq
      exact h l₁ y l₃ (List.append_inj' heq rfl).1

theorem roomFor_of_length_le {keeps : α → Bool} {l : List α} (h : l.length ≤ n) :
    RoomFor k keeps n l := by
  rintro l₁ x l₂ rfl
  refine Or.inr (lt_of_le_of_lt (List.toFinset_card_le _) ?_)
  have hle := List.length_filter_le keeps l₁
  rw [List.length_map]
  simp only [List.length_append, List.length_cons] at h
  omega

/-- **The table of the elements that are kept.** -/
theorem visitRows_holds (hk : Keyed key new f) (keeps : α → Bool) (n : ℕ) (l : List α) :
    (¬ RoomFor k keeps n l ∧ l.foldlM (visitRow key hash new k f keeps)
        { slots := List.replicate n none } = none) ∨
      RoomFor k keeps n l ∧ ∃ t, l.foldlM (visitRow key hash new k f keeps)
        { slots := List.replicate n none } = some t ∧
          Holds key hash new k f n t (l.filter keeps) := by
  induction l using List.reverseRecOn with
  | nil => exact Or.inr ⟨fun l₁ x l₂ heq => by simp at heq, _, rfl, holds_nil n⟩
  | append_singleton l x ih =>
    have hrun : (l ++ [x]).foldlM (visitRow key hash new k f keeps)
        { slots := List.replicate n none } =
        (l.foldlM (visitRow key hash new k f keeps) { slots := List.replicate n none }).bind
          fun t => visitRow key hash new k f keeps t x := by
      rw [List.foldlM_append]
      refine congrArg _ (funext fun t => ?_)
      exact bind_pure _
    rw [hrun, roomFor_snoc]
    rcases ih with ⟨hno, hnone⟩ | ⟨hroom, t, ht, hold⟩
    · exact Or.inl ⟨fun h => hno h.1, by rw [hnone]; rfl⟩
    rw [ht, Option.bind_some]
    cases hslot : t.slotOf key hash (k x) with
    | none =>
      obtain ⟨hnew, hfull⟩ := (hold.slotOf_eq_none_iff hk (k x)).1 hslot
      refine Or.inl ⟨fun h => h.2.elim hnew (Nat.not_lt.2 hfull), ?_⟩
      rw [visitRow, fileRow, hslot]
      split_ifs <;> rfl
    | some j =>
      have hx : k x ∈ (l.filter keeps).map k ∨ ((l.filter keeps).map k).toFinset.card < n := by
        by_contra hno
        rw [not_or, Nat.not_lt, ← hold.slotOf_eq_none_iff hk, hslot] at hno
        exact absurd hno (by simp)
      refine Or.inr ⟨⟨hroom, hx⟩, ?_⟩
      rw [visitRow, List.filter_append]
      by_cases hkeeps : keeps x
      · rw [if_pos hkeeps, List.filter_cons_of_pos hkeeps, List.filter_nil]
        obtain ⟨t', hfile⟩ : ∃ t', fileRow key hash new k f t x = some t' :=
          ⟨_, by rw [fileRow, hslot, Option.map_some]⟩
        exact ⟨t', hfile, hold.fileRow_eq_some hk hfile⟩
      · rw [if_neg hkeeps, List.filter_cons_of_neg hkeeps, List.filter_nil, List.append_nil, hslot]
        exact ⟨t, rfl, hold⟩

end Table

/-! ### Rows with an index -/

section Index

/-- Rows in the order of their first elements, and an index of their keys that grows. -/
structure IndexedRows (K R : Type*) where
  ix : GrowTable (K × ℕ) := {}
  rows : List R := []

variable (hash new k f) in
/-- An element is added to the row of its key, which is appended if the index does not have it. -/
def indexRow (init : ℕ) (s : IndexedRows K R) (x : α) : IndexedRows K R :=
  match s.ix.find? Prod.fst hash (k x) with
  | some e => { s with rows := s.rows.modify e.2 fun r => f r x }
  | none =>
    { ix := s.ix.put Prod.fst hash init (k x, s.rows.length)
      rows := s.rows ++ [f (new (k x)) x] }

variable (hash new k f) in
/-- The rows after a list of elements. -/
def indexRows (init : ℕ) (l : List α) : IndexedRows K R :=
  l.foldl (indexRow hash new k f init) {}

/-- The index knows the rows. -/
structure Indexes (key : R → K) (hash : K → ℕ) (s : IndexedRows K R) : Prop where
  wf : s.ix.WellFormed Prod.fst hash
  find_iff : ∀ κ i, (s.ix.find? Prod.fst hash κ).map Prod.snd = some i ↔
    (s.rows[i]?).map key = some κ

theorem indexes_empty : Indexes key hash ({} : IndexedRows K R) :=
  ⟨GrowTable.wellFormed_empty, fun κ i => by
    simp [GrowTable.find?, GrowTable.slotOf, LinearProbe.probe, LinearProbe.probeOrder]⟩

theorem Indexes.modify {s : IndexedRows K R} (h : Indexes key hash s) (i : ℕ) {g : R → R}
    (hg : ∀ r, key (g r) = key r) : Indexes key hash { s with rows := s.rows.modify i g } := by
  refine ⟨h.wf, fun κ j => ?_⟩
  have hkey : key ∘ (fun r => if i = j then g r else r) = key := by
    funext r
    rw [Function.comp_apply]
    split_ifs
    · exact hg r
    · rfl
  rw [h.find_iff, List.getElem?_modify, Option.map_eq_map, Option.map_map, hkey]

/-- A row is appended under a key that is new to the index. -/
theorem Indexes.push {s : IndexedRows K R} (h : Indexes key hash s)
    {ix : GrowTable (K × ℕ)} {r : R} (hnew : ∀ r' ∈ s.rows, key r' ≠ key r)
    (hwf : ix.WellFormed Prod.fst hash)
    (hput : ∀ κ, ix.find? Prod.fst hash κ =
      if κ = key r then some (key r, s.rows.length) else s.ix.find? Prod.fst hash κ) :
    Indexes key hash { ix := ix, rows := s.rows ++ [r] } := by
  refine ⟨hwf, fun κ i => ?_⟩
  change (ix.find? _ _ _).map _ = _ ↔ ((s.rows ++ [r])[i]?).map key = _
  rw [hput, List.getElem?_append]
  split_ifs with hκ hlt hlt
  · subst hκ
    simp only [Option.map_some, Option.some.injEq]
    constructor
    · rintro rfl
      exact absurd hlt (Nat.lt_irrefl _)
    · intro heq
      obtain ⟨r', hr, hr'⟩ := Option.map_eq_some_iff.1 heq
      exact absurd hr' (hnew r' (List.mem_of_getElem? hr))
  · subst hκ
    simp only [Option.map_some, Option.some.injEq]
    constructor
    · rintro rfl
      rw [Nat.sub_self]
      rfl
    · intro heq
      obtain ⟨r', hr, -⟩ := Option.map_eq_some_iff.1 heq
      have := (List.getElem?_eq_some_iff.1 hr).1
      rw [List.length_singleton] at this
      omega
  · exact h.find_iff κ i
  · have hpast : ((s.rows[i]?).map key = some κ) ↔ False := by
      rw [List.getElem?_eq_none (Nat.not_lt.1 hlt)]
      simp
    rw [h.find_iff, hpast, false_iff]
    intro heq
    obtain ⟨r', hr, hr'⟩ := Option.map_eq_some_iff.1 heq
    obtain rfl := List.mem_singleton.1 (List.mem_of_getElem? hr)
    exact hκ hr'.symm

theorem Indexes.ne_of_find?_eq_none {s : IndexedRows K R} (h : Indexes key hash s) {κ : K}
    (hfind : s.ix.find? Prod.fst hash κ = none) : ∀ r ∈ s.rows, key r ≠ κ := by
  intro r hr heq
  obtain ⟨i, hi⟩ := List.mem_iff_getElem?.1 hr
  have hi' := (h.find_iff κ i).2 (by rw [hi, Option.map_some, heq])
  rw [hfind] at hi'
  exact absurd hi' (by simp)

theorem Tallied.modify (hk : Keyed key new f) {l : List α} (ht : Tallied key new k f rows l) {x : α}
    {i : ℕ} (hi : (rows[i]?).map key = some (k x)) :
    Tallied key new k f (rows.modify i fun r => f r x) (l ++ [x]) := by
  obtain ⟨r, hr, hkey⟩ := Option.map_eq_some_iff.1 hi
  have hkeys : (rows.set i (f r x)).map key = rows.map key := by
    rw [List.map_set, hk.key_add]
    exact LinearProbe.set_of_getElem? (by rw [List.getElem?_map, hr]; rfl)
  rw [LinearProbe.modify_of_getElem? hr]
  refine ht.snoc hk (hkeys ▸ ht.nodup) fun r' => ?_
  have hold : rowOf new k f l (k x) = some r := by
    rw [← hkey]
    exact (ht.mem_iff r).1 (List.mem_of_getElem? hr)
  rw [hold, Option.getD_some, mem_set_iff ht.nodup hr (hk.key_add r x), hkey]

theorem Tallied.push (hk : Keyed key new f) {l : List α} (ht : Tallied key new k f rows l) {x : α}
    (hnew : ∀ r ∈ rows, key r ≠ k x) :
    Tallied key new k f (rows ++ [f (new (k x)) x]) (l ++ [x]) := by
  have hkey : key (f (new (k x)) x) = k x := by rw [hk.key_add, hk.key_new]
  have hold : rowOf new k f l (k x) = none := by
    rw [rowOf, if_neg]
    rw [← ht.mem_keys hk]
    simpa using hnew
  have hnodup : ((rows ++ [f (new (k x)) x]).map key).Nodup := by
    rw [List.map_append, List.nodup_append]
    refine ⟨ht.nodup, List.nodup_singleton _, fun κ hκ κ' hκ' => ?_⟩
    obtain ⟨r, hr, rfl⟩ := List.mem_map.1 hκ
    obtain rfl := List.mem_singleton.1 hκ'
    rw [hkey]
    exact hnew r hr
  refine ht.snoc hk hnodup fun r => ?_
  rw [hold, Option.getD_none, List.mem_append, List.mem_singleton, or_comm]
  exact or_congr Iff.rfl ⟨fun hmem => ⟨hmem, hnew r hmem⟩, And.left⟩

/-- **One more element.** -/
theorem Indexes.indexRow (hk : Keyed key new f) {init : ℕ} (hinit : 2 ≤ init)
    {s : IndexedRows K R} {l : List α} (h : Indexes key hash s)
    (ht : Tallied key new k f s.rows l) (x : α) :
    Indexes key hash (indexRow hash new k f init s x) ∧
      Tallied key new k f (Tally.indexRow hash new k f init s x).rows (l ++ [x]) := by
  rw [Tally.indexRow]
  cases hfind : s.ix.find? Prod.fst hash (k x) with
  | some e =>
    have hrow := (h.find_iff (k x) e.2).1 (by rw [hfind, Option.map_some])
    exact ⟨h.modify e.2 fun r => hk.key_add r x, ht.modify hk hrow⟩
  | none =>
    have hnew := h.ne_of_find?_eq_none hfind
    have hkey : key (f (new (k x)) x) = k x := by rw [hk.key_add, hk.key_new]
    obtain ⟨hwf, hput⟩ := h.wf.put init hinit (k x, s.rows.length)
    refine ⟨h.push (fun r hr => ?_) hwf fun κ => ?_, ht.push hk hnew⟩
    · rw [hkey]
      exact hnew r hr
    · rw [hput, hkey]

/-- **The rows of a list.** -/
theorem indexRows_tallied (hk : Keyed key new f) {init : ℕ} (hinit : 2 ≤ init) (l : List α) :
    Tallied key new k f (indexRows hash new k f init l).rows l := by
  suffices h : Indexes key hash (indexRows hash new k f init l) ∧
      Tallied key new k f (indexRows hash new k f init l).rows l from h.2
  induction l using List.reverseRecOn with
  | nil => exact ⟨indexes_empty, tallied_nil⟩
  | append_singleton l x ih =>
    rw [indexRows, List.foldl_append]
    exact ih.1.indexRow hk hinit ih.2 x

end Index

/-! ### Rows up to a bound -/

section Bounded

variable (key new k f) in
/-- An element is added to the row of its key. A new row is appended if there is room for it, and
else the element is dropped. -/
def boundedRow (cap : ℕ) (rows : List R) (x : α) : List R :=
  match rows.findIdx? fun r => key r = k x with
  | some j => rows.modify j fun r => f r x
  | none => if cap ≤ rows.length then rows else rows ++ [f (new (k x)) x]

variable (key new k f) in
/-- The rows after a list of elements. -/
def boundedRows (cap : ℕ) (l : List α) : List R := l.foldl (boundedRow key new k f cap) []

/-- The first different keys, up to a bound. -/
def firstKeys (cap : ℕ) (κs : List K) : List K :=
  κs.foldl (fun seen κ => if κ ∈ seen ∨ cap ≤ seen.length then seen else seen ++ [κ]) []

theorem firstKeys_snoc (cap : ℕ) (κs : List K) (κ : K) :
    firstKeys cap (κs ++ [κ]) =
      if κ ∈ firstKeys cap κs ∨ cap ≤ (firstKeys cap κs).length then firstKeys cap κs
      else firstKeys cap κs ++ [κ] := by
  rw [firstKeys, List.foldl_append]
  rfl

theorem mem_firstKeys_of_room {cap : ℕ} {κs : List K} (h : (firstKeys cap κs).length < cap) :
    ∀ κ ∈ κs, κ ∈ firstKeys cap κs := by
  induction κs using List.reverseRecOn with
  | nil => simp
  | append_singleton κs κ ih =>
    rw [firstKeys_snoc] at h ⊢
    intro κ' hκ'
    rw [List.mem_append, List.mem_singleton] at hκ'
    split_ifs at h ⊢ with hold
    · rcases hκ' with hκ' | rfl
      · exact ih h κ' hκ'
      · exact hold.resolve_right (Nat.not_le.2 h)
    · rw [List.length_append] at h
      rcases hκ' with hκ' | rfl
      · exact List.mem_append_left _ (ih (by omega) κ' hκ')
      · exact List.mem_append_right _ (List.mem_singleton_self _)

theorem mem_of_mem_firstKeys {cap : ℕ} {κs : List K} {κ : K} (h : κ ∈ firstKeys cap κs) :
    κ ∈ κs := by
  induction κs using List.reverseRecOn with
  | nil => exact h
  | append_singleton κs κ' ih =>
    rw [firstKeys_snoc] at h
    rw [List.mem_append]
    split_ifs at h
    · exact Or.inl (ih h)
    · exact (List.mem_append.mp h).imp ih id

variable (new f) in
theorem boundedRow_of_mem (cap : ℕ) {x : α} (h : k x ∈ rows.map key) :
    ∃ j r, rows[j]? = some r ∧ key r = k x ∧
      boundedRow key new k f cap rows x = rows.set j (f r x) := by
  rw [boundedRow]
  cases hfind : rows.findIdx? fun r => key r = k x with
  | some j =>
    obtain ⟨hlt, hkey, -⟩ := List.findIdx?_eq_some_iff_getElem.1 hfind
    have hget : rows[j]? = some rows[j] := List.getElem?_eq_getElem hlt
    exact ⟨j, rows[j], hget, by simpa using hkey, LinearProbe.modify_of_getElem? hget _⟩
  | none => exact absurd h (by simpa using List.findIdx?_eq_none_iff.1 hfind)

theorem boundedRow_of_notMem {cap : ℕ} {x : α} (h : k x ∉ rows.map key) :
    boundedRow key new k f cap rows x =
      if cap ≤ rows.length then rows else rows ++ [f (new (k x)) x] := by
  have hfind : rows.findIdx? (fun r => key r = k x) = none :=
    List.findIdx?_eq_none_iff.2 fun r hr => by
      simpa using fun heq => h (List.mem_map.2 ⟨r, hr, heq⟩)
  rw [boundedRow, hfind]

/-- **The rows up to a bound.** They are those of the elements of the first keys. -/
theorem boundedRows_tallied (hk : Keyed key new f) (cap : ℕ) (l : List α) :
    (boundedRows key new k f cap l).map key = firstKeys cap (l.map k) ∧
      Tallied key new k f (boundedRows key new k f cap l)
        (l.filter fun x => k x ∈ firstKeys cap (l.map k)) := by
  induction l using List.reverseRecOn with
  | nil => exact ⟨rfl, tallied_nil⟩
  | append_singleton l x ih =>
    obtain ⟨hkeys, ht⟩ := ih
    have hrun : boundedRows key new k f cap (l ++ [x]) =
        boundedRow key new k f cap (boundedRows key new k f cap l) x := by
      rw [boundedRows, List.foldl_append]
      rfl
    have hlen : (boundedRows key new k f cap l).length = (firstKeys cap (l.map k)).length := by
      rw [← hkeys, List.length_map]
    rw [hrun, List.map_append, List.map_singleton, firstKeys_snoc]
    by_cases hmem : k x ∈ firstKeys cap (l.map k)
    · -- the row is there
      rw [← hkeys] at hmem
      obtain ⟨j, r, hr, hkey, hset⟩ := boundedRow_of_mem new f cap hmem
      have hsame : ((boundedRows key new k f cap l).set j (f r x)).map key =
          (boundedRows key new k f cap l).map key := by
        rw [List.map_set, hk.key_add]
        exact LinearProbe.set_of_getElem? (by rw [List.getElem?_map, hr]; rfl)
      have hold := (ht.mem_iff r).1 (List.mem_of_getElem? hr)
      rw [hkeys] at hmem
      rw [hset, if_pos (Or.inl hmem), List.filter_append,
        List.filter_cons_of_pos (by simpa using hmem), List.filter_nil]
      refine ⟨hsame.trans hkeys, ht.snoc hk (hsame.symm ▸ ht.nodup) fun r' => ?_⟩
      rw [mem_set_iff ht.nodup hr (hk.key_add r x), ← hkey, hold, Option.getD_some]
    · have hnew : k x ∉ (boundedRows key new k f cap l).map key := hkeys.symm ▸ hmem
      rw [boundedRow_of_notMem hnew, hlen]
      by_cases hfull : cap ≤ (firstKeys cap (l.map k)).length
      · -- the element is dropped
        rw [if_pos hfull, if_pos (Or.inr hfull), List.filter_append,
          List.filter_cons_of_neg (by simpa using hmem), List.filter_nil, List.append_nil]
        exact ⟨hkeys, ht⟩
      · -- a new row, of a key that no element had
        have hkey : key (f (new (k x)) x) = k x := by rw [hk.key_add, hk.key_new]
        have hroom := mem_firstKeys_of_room (Nat.not_le.1 hfull)
        have hall : l.filter (fun y => k y ∈ firstKeys cap (l.map k) ++ [k x]) =
            l.filter fun y => k y ∈ firstKeys cap (l.map k) := by
          refine List.filter_congr fun y hy => ?_
          have hy' := hroom _ (List.mem_map_of_mem hy)
          simp [hy']
        have hold : rowOf new k f (l.filter fun y => k y ∈ firstKeys cap (l.map k)) (k x) =
            none := by
          rw [rowOf, if_neg]
          rw [← ht.mem_keys hk, hkeys]
          exact hmem
        rw [if_neg hfull, if_neg (by tauto), List.filter_append, hall,
          List.filter_cons_of_pos (by simp), List.filter_nil]
        have hkeys' : (boundedRows key new k f cap l ++ [f (new (k x)) x]).map key =
            firstKeys cap (l.map k) ++ [k x] := by
          rw [List.map_append, List.map_singleton, hkey, hkeys]
        refine ⟨hkeys', ht.snoc hk ?_ fun r => ?_⟩
        · rw [hkeys', ← hkeys]
          exact List.nodup_append.2 ⟨ht.nodup, List.nodup_singleton _, fun a ha b hb => by
            rw [List.mem_singleton.1 hb]
            exact fun heq => hnew (heq ▸ ha)⟩
        · rw [hold, Option.getD_none, List.mem_append, List.mem_singleton, or_comm]
          refine or_congr Iff.rfl ⟨fun hr => ⟨hr, fun heq => ?_⟩, And.left⟩
          exact hnew (List.mem_map.2 ⟨r, hr, heq⟩)

/-- A quantity of the row of a key. -/
def amount {M : Type*} [Zero M] (key : R → K) (q : R → M) (rows : List R) (κ : K) : M :=
  (rows.find? fun r => key r = κ).elim 0 q

section Amount

private theorem find?_set_key {j : ℕ} {r r' : R} (hr : rows[j]? = some r) (hkey : key r' = key r)
    (hfirst : ∀ i < j, ∀ r₀, rows[i]? = some r₀ → key r₀ ≠ key r) (κ : K) :
    ((rows.set j r').find? fun r => key r = κ) =
      if κ = key r then some r' else rows.find? fun r => key r = κ := by
  induction rows generalizing j with
  | nil => simp at hr
  | cons r₀ rows ih =>
    cases j with
    | zero =>
      obtain rfl : r₀ = r := by simpa using hr
      by_cases hκ : κ = key r₀
      · simp [hκ, hkey]
      · simp [hkey, hκ, Ne.symm hκ]
    | succ j =>
      have hne : key r₀ ≠ key r := hfirst 0 (Nat.succ_pos j) r₀ rfl
      have ih := ih (j := j) (by simpa using hr) fun i hi r₁ h₁ =>
        hfirst (i + 1) (Nat.succ_lt_succ hi) r₁ (by simpa using h₁)
      rw [List.set_cons_succ, List.find?_cons, List.find?_cons, ih]
      by_cases h₀ : key r₀ = κ
      · have hκ : κ ≠ key r := fun h => hne (h₀.trans h)
        simp [h₀, hκ]
      · simp [h₀]

variable {M : Type*} [AddCancelCommMonoid M] {q : R → M} {w : α → M}

/-- What an element adds to the rows, if its key has a row or there is room for one. -/
theorem amount_boundedRow (hk : Keyed key new f) (hnew : ∀ κ, q (new κ) = 0)
    (hadd : ∀ r x, q (f r x) = q r + w x) (cap : ℕ) (rows : List R) (x : α) (κ : K) :
    amount key q (boundedRow key new k f cap rows x) κ = amount key q rows κ +
      if κ = k x ∧ (k x ∈ rows.map key ∨ rows.length < cap) then w x else 0 := by
  rw [boundedRow]
  cases hfind : rows.findIdx? fun r => key r = k x with
  | some j =>
    obtain ⟨hlt, hkey, hfirst⟩ := List.findIdx?_eq_some_iff_getElem.1 hfind
    have hkey : key rows[j] = k x := by simpa using hkey
    have hget : rows[j]? = some rows[j] := List.getElem?_eq_getElem hlt
    have hmem : k x ∈ rows.map key := List.mem_map.2 ⟨rows[j], List.getElem_mem hlt, hkey⟩
    have hfirst : ∀ i < j, ∀ r₀, rows[i]? = some r₀ → key r₀ ≠ key rows[j] := by
      intro i hi r₀ hr₀
      obtain ⟨hi', rfl⟩ := List.getElem?_eq_some_iff.1 hr₀
      simpa [hkey] using hfirst i hi
    have hself : (rows.find? fun r => key r = key rows[j]) = some rows[j] := by
      have h := find?_set_key hget rfl hfirst (key rows[j])
      rwa [List.set_getElem_self, if_pos rfl] at h
    dsimp only
    rw [LinearProbe.modify_of_getElem? hget, amount,
      find?_set_key hget (hk.key_add rows[j] x) hfirst, amount, hkey]
    by_cases hκ : κ = k x
    · rw [hκ, if_pos rfl, if_pos ⟨rfl, Or.inl hmem⟩, ← hkey, hself]
      exact hadd rows[j] x
    · rw [if_neg hκ, if_neg fun h => hκ h.1, add_zero]
  | none =>
    have hnone : ∀ r ∈ rows, key r ≠ k x := fun r hr => by
      simpa using List.findIdx?_eq_none_iff.1 hfind r hr
    have hmem : k x ∉ rows.map key := fun h => by
      obtain ⟨r, hr, hkey⟩ := List.mem_map.1 h
      exact hnone r hr hkey
    dsimp only
    split_ifs with hcap hcond hcond
    · exact absurd hcond.2 (by simp [hmem, hcap])
    · rw [add_zero]
    · obtain ⟨rfl, -⟩ := hcond
      have hfind : (rows.find? fun r => key r = k x) = none :=
        List.find?_eq_none.2 fun r hr => by simpa using hnone r hr
      rw [amount, List.find?_append, hfind, amount, hfind, Option.none_or,
        List.find?_cons_of_pos (by simp [hk.key_add, hk.key_new])]
      show q (f (new (k x)) x) = 0 + w x
      rw [hadd, hnew]
    · have hκ : κ ≠ k x := fun h => hcond ⟨h, Or.inr (Nat.lt_of_not_le hcap)⟩
      rw [amount, List.find?_append, List.find?_cons_of_neg (by
        simpa [hk.key_add, hk.key_new] using Ne.symm hκ), List.find?_nil, Option.or_none, add_zero,
        amount]

theorem map_key_boundedRow (hk : Keyed key new f) (cap : ℕ) (rows : List R) (x : α) :
    (boundedRow key new k f cap rows x).map key =
      if k x ∈ rows.map key ∨ cap ≤ rows.length then rows.map key
      else rows.map key ++ [k x] := by
  by_cases hmem : k x ∈ rows.map key
  · obtain ⟨j, r, hr, hkey, hset⟩ := boundedRow_of_mem new f cap hmem
    rw [hset, if_pos (Or.inl hmem)]
    have hlt : j < rows.length := (List.getElem?_eq_some_iff.1 hr).1
    refine List.ext_getElem? fun i => ?_
    rw [List.getElem?_map, List.getElem?_map, List.getElem?_set]
    split_ifs with hij
    · rw [← hij, hr, Option.map_some, Option.map_some, hk.key_add]
    · rfl
  · rw [boundedRow_of_notMem hmem]
    simp only [hmem, false_or]
    split_ifs
    · rfl
    · rw [List.map_append, List.map_singleton, hk.key_add, hk.key_new]

theorem amount_foldl_boundedRow_of_notMem (hk : Keyed key new f) (hnew : ∀ κ, q (new κ) = 0)
    (hadd : ∀ r x, q (f r x) = q r + w x) (cap : ℕ) {l : List α} {κ : K} (hκ : κ ∉ l.map k)
    (rows : List R) :
    amount key q (l.foldl (boundedRow key new k f cap) rows) κ = amount key q rows κ := by
  induction l generalizing rows with
  | nil => rfl
  | cons x l ih =>
    rw [List.map_cons, List.mem_cons, not_or] at hκ
    rw [List.foldl_cons, ih hκ.2, amount_boundedRow hk hnew hadd, if_neg fun h => hκ.1 h.1,
      add_zero]

private theorem forall_room_boundedRow_iff (hk : Keyed key new f) (cap : ℕ) {x : α} {l : List α}
    (hx : k x ∉ l.map k) (rows : List R) {p : α → Prop} :
    (∀ pre y post, l = pre ++ y :: post →
        k y ∈ (boundedRow key new k f cap rows x).map key ∨
          (boundedRow key new k f cap rows x).length +
            pre.countP (fun z => k z ∉ (boundedRow key new k f cap rows x).map key) < cap ∨ p y) ↔
      ∀ pre y post, l = pre ++ y :: post → k y ∈ rows.map key ∨
        rows.length + (x :: pre).countP (fun z => k z ∉ rows.map key) < cap ∨ p y := by
  have hlen (rows : List R) : rows.length = (rows.map key).length := List.length_map key |>.symm
  have hne : ∀ y ∈ l, k y ≠ k x := fun y hy h => hx (h ▸ List.mem_map_of_mem hy)
  refine forall_congr' fun pre => forall_congr' fun y => forall_congr' fun post =>
    forall_congr' fun hl => ?_
  rw [hlen (boundedRow key new k f cap rows x), map_key_boundedRow hk, List.countP_cons]
  by_cases hmem : k x ∈ rows.map key
  · rw [if_pos (Or.inl hmem), ← hlen, if_neg (by simpa using hmem), Nat.add_zero]
  · rw [if_pos (c := decide (k x ∉ rows.map key) = true) (by simpa using hmem)]
    by_cases hcap : cap ≤ rows.length
    · rw [if_pos (Or.inr hcap), ← hlen]
      refine or_congr Iff.rfl (or_congr ⟨?_, ?_⟩ Iff.rfl) <;> omega
    · have hcount : pre.countP (fun z => k z ∉ rows.map key ++ [k x]) =
          pre.countP (fun z => k z ∉ rows.map key) :=
        List.countP_congr fun z hz => by
          have := hne z (hl ▸ List.mem_append_left _ hz)
          simp [this]
      have hy : k y ≠ k x := hne y (hl ▸ List.mem_append_right _ List.mem_cons_self)
      rw [if_neg (not_or.2 ⟨hmem, hcap⟩), hcount, List.length_append, List.length_singleton, ← hlen,
        List.mem_append, List.mem_singleton, or_iff_left hy, Nat.add_assoc, Nat.add_comm 1]

/-- **Elements of different keys are all added** to the rows exactly when every one whose key has no
row comes while there is room, or adds nothing. -/
theorem amount_foldl_boundedRow_iff (hk : Keyed key new f) (hnew : ∀ κ, q (new κ) = 0)
    (hadd : ∀ r x, q (f r x) = q r + w x) (cap : ℕ) {l : List α} (hl : (l.map k).Nodup)
    (rows : List R) :
    (∀ κ, amount key q (l.foldl (boundedRow key new k f cap) rows) κ =
        amount key q rows κ + ((l.filter fun x => k x = κ).map w).sum) ↔
      ∀ pre x post, l = pre ++ x :: post → k x ∈ rows.map key ∨
        rows.length + pre.countP (fun y => k y ∉ rows.map key) < cap ∨ w x = 0 := by
  induction l generalizing rows with
  | nil => simp
  | cons x l ih =>
    rw [List.map_cons, List.nodup_cons] at hl
    have hsum (κ : K) : (((x :: l).filter fun y => k y = κ).map w).sum =
        (if κ = k x then w x else 0) + ((l.filter fun y => k y = κ).map w).sum := by
      by_cases hκ : k x = κ
      · simp [hκ]
      · simp [hκ, Ne.symm hκ]
    have hzero : ((l.filter fun y => k y = k x).map w).sum = 0 := by
      have : (l.filter fun y => k y = k x) = [] := List.filter_eq_nil_iff.2 fun y hy => by
        simpa using fun h : k y = k x => hl.1 (h ▸ List.mem_map_of_mem hy)
      rw [this, List.map_nil, List.sum_nil]
    have hsplit : (∀ κ, amount key q ((x :: l).foldl (boundedRow key new k f cap) rows) κ =
          amount key q rows κ + (((x :: l).filter fun y => k y = κ).map w).sum) ↔
        (k x ∈ rows.map key ∨ rows.length < cap ∨ w x = 0) ∧
          ∀ κ, amount key q (l.foldl (boundedRow key new k f cap)
              (boundedRow key new k f cap rows x)) κ =
            amount key q (boundedRow key new k f cap rows x) κ +
              ((l.filter fun y => k y = κ).map w).sum := by
      have hstep (h : k x ∈ rows.map key ∨ rows.length < cap ∨ w x = 0) (κ : K) :
          amount key q (boundedRow key new k f cap rows x) κ =
            amount key q rows κ + if κ = k x then w x else 0 := by
        rw [amount_boundedRow hk hnew hadd]
        rcases or_assoc.2 h with h | h
        · simp only [h, and_true]
        · simp only [h, ite_self]
      constructor
      · intro hall
        have hroom : k x ∈ rows.map key ∨ rows.length < cap ∨ w x = 0 := by
          by_contra hno
          rw [← or_assoc, not_or] at hno
          -- the element is dropped, and nothing else has its key
          have hx := hall (k x)
          rw [List.foldl_cons, amount_foldl_boundedRow_of_notMem hk hnew hadd cap hl.1,
            amount_boundedRow hk hnew hadd, if_neg fun h => hno.1 h.2, hsum, if_pos rfl, hzero,
            add_zero, add_zero, left_eq_add] at hx
          exact hno.2 hx
        refine ⟨hroom, fun κ => ?_⟩
        rw [hstep hroom, add_assoc, ← hsum]
        exact hall κ
      · rintro ⟨hroom, hall⟩ κ
        rw [List.foldl_cons, hall, hstep hroom, add_assoc, ← hsum]
    rw [hsplit, ih hl.2, forall_room_boundedRow_iff hk cap hl.1]
    constructor
    · rintro ⟨hroom, hall⟩ pre y post heq
      rcases List.cons_eq_append_iff.1 heq with ⟨rfl, hy⟩ | ⟨pre', rfl, hy⟩
      · obtain ⟨rfl, rfl⟩ := List.cons.inj hy
        simpa using hroom
      · exact hall pre' y post hy
    · intro hall
      exact ⟨by simpa using hall [] x l rfl, fun pre y post heq =>
        hall (x :: pre) y post (by rw [heq, List.cons_append])⟩

end Amount

end Bounded

/-! ### Rows by rank -/

section Ranked

/-- **What a cap keeps.** In a sorted list the first ones are those that few come before. -/
theorem mem_take_iff {R : Type*} {lt : R → R → Bool} (hirrefl : ∀ a, lt a a = false)
    (hasymm : ∀ a b, lt a b = true → lt b a = false) {l : List R}
    (h : l.Pairwise fun a b => lt a b = true) (n : ℕ) (a : R) :
    a ∈ l.take n ↔ a ∈ l ∧ l.countP (fun b => lt b a) < n := by
  induction l generalizing n with
  | nil => simp
  | cons b l ih =>
    obtain ⟨hb, hl⟩ := List.pairwise_cons.1 h
    cases n with
    | zero => simp
    | succ n =>
      rw [List.take_succ_cons, List.mem_cons, List.mem_cons, ih hl n]
      by_cases hab : a = b
      · subst hab
        have hnone : l.countP (fun c => lt c a) = 0 :=
          List.countP_eq_zero.2 fun c hc => by simp [hasymm a c (hb c hc)]
        simp [hnone, hirrefl]
      · simp only [hab, false_or]
        refine and_congr_right fun ha => ?_
        rw [List.countP_cons_of_pos (p := fun c => lt c a) (hb a ha)]
        omega

end Ranked

end Tally
