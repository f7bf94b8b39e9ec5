import Mathlib.Algebra.GroupWithZero.Nat
import Mathlib.Algebra.BigOperators.Group.Finset.Piecewise
import Mathlib.Algebra.Order.BigOperators.Group.List
import Mathlib.Algebra.Order.BigOperators.Group.Finset
import PgWaitTracer.Lib.LinearProbe

/-!
# Filing amounts in a probed table

Entries with a key and an amount are filed in the slots of a table that is probed linearly. An entry
adds its amount to the slot its key is probed to; only some entries also claim the slot for their
key. An amount that is filed in a slot without claiming it stays there, and is taken over with the
slot by the key that claims it first.

## Main definitions

* `Filing.Entry`, `Filing.slot`, `Filing.next`: entries, the slot of a key and the owners of the
  slots after an entry.
* `Filing.filings`: where each entry is filed.
* `Filing.Exact`: every entry has a slot, and every key with a positive amount owns a slot that
  holds just that amount.
* `Filing.Kept`: every entry has a slot, and every positive amount is filed in a slot that its key
  owns in the end.

## Main results

* `Filing.exact_iff_kept`: the amounts come out right if and only if none is filed in a slot that
  its key does not own in the end. Wrong amounts do not cancel out.
-/

namespace Filing

open LinearProbe

/-- An amount for a key. It claims its slot, or leaves it as it is. -/
structure Entry (K : Type*) where
  key : K
  claims : Bool
  amount : ℕ
  deriving DecidableEq

variable {K : Type*} [DecidableEq K] (hash : K → ℕ)

/-- The hash of an owner, for the rules of probed tables. -/
def ownerHash (o : Option K) : ℕ := o.elim 0 hash

/-- The slot of a key: the one it owns, or else the first without an owner. -/
def slot (owners : List (Option K)) (k : K) : Option ℕ :=
  probe (stops id Option.isNone (some k)) owners (hash k)

/-- The owners of the slots after an entry. -/
def next (owners : List (Option K)) (e : Entry K) : List (Option K) :=
  match slot hash owners e.key with
  | some j => if e.claims then owners.set j (some e.key) else owners
  | none => owners

/-- The owners of the slots after all entries. -/
def layout (owners : List (Option K)) (es : List (Entry K)) : List (Option K) :=
  es.foldl (next hash) owners

/-- Where each entry is filed. -/
def filings : List (Option K) → List (Entry K) → List (Option ℕ × Entry K)
  | _, [] => []
  | owners, e :: es => (slot hash owners e.key, e) :: filings (next hash owners e) es

/-- What is filed in a slot. -/
def filedAt (fs : List (Option ℕ × Entry K)) (j : ℕ) : ℕ :=
  (fs.map fun f => if f.1 = some j then f.2.amount else 0).sum

/-- What is filed for an owner. -/
def amountOf (es : List (Entry K)) (o : Option K) : ℕ :=
  (es.map fun e => if some e.key = o then e.amount else 0).sum

/-- The rows of the table are probed to. -/
abbrev Laid (owners : List (Option K)) : Prop := Probed id Option.isNone (ownerHash hash) owners

variable {hash} {owners : List (Option K)}

/-! ### Slots and owners -/

variable {e : Entry K} {k : K} {es : List (Entry K)} {j : ℕ}

theorem owner_of_slot (h : slot hash owners k = some j) :
    owners[j]? = some none ∨ owners[j]? = some (some k) := by
  obtain ⟨o, ho, hstop⟩ := exists_of_probe h
  rw [ho]
  cases o with
  | none => exact Or.inl rfl
  | some x =>
    have hx : some x = some k := by simpa [stops] using hstop
    exact Or.inr (congrArg some hx)

theorem Laid.slot_of_owner (h : Laid hash owners) (hj : owners[j]? = some (some k)) :
    slot hash owners k = some j :=
  h j (some k) hj rfl

theorem Laid.next (h : Laid hash owners) (e : Entry K) : Laid hash (next hash owners e) := by
  rw [Filing.next]
  split
  · rename_i j hj
    split_ifs
    · exact Probed.set (k := some e.key) h hj rfl rfl
    · exact h
  · exact h

theorem owner_next {i : ℕ} (h : owners[i]? = some (some k)) :
    (next hash owners e)[i]? = some (some k) := by
  rw [Filing.next]
  split
  · rename_i j hj
    split_ifs
    · by_cases hij : j = i
      · subst hij
        rcases owner_of_slot hj with hnone | hsome
        · exact absurd (hnone.symm.trans h) (by simp)
        · rw [List.getElem?_set_self (List.getElem?_eq_some_iff.1 h).1, ← hsome, h]
      · rw [List.getElem?_set_ne hij, h]
    · exact h
  · exact h

theorem owner_layout {i : ℕ} (es : List (Entry K)) (h : owners[i]? = some (some k)) :
    (layout hash owners es)[i]? = some (some k) := by
  induction es generalizing owners with
  | nil => exact h
  | cons e es ih => exact ih (owner_next h)

theorem owner_of_claims (hj : slot hash owners e.key = some j) (hc : e.claims = true) :
    (next hash owners e)[j]? = some (some e.key) := by
  obtain ⟨o, ho, -⟩ := exists_of_probe hj
  rw [Filing.next, hj]
  simp only [hc, if_true]
  exact List.getElem?_set_self (List.getElem?_eq_some_iff.1 ho).1

theorem Laid.layout (h : Laid hash owners) (es : List (Entry K)) :
    Laid hash (layout hash owners es) := by
  induction es generalizing owners with
  | nil => exact h
  | cons e es ih => exact ih (h.next e)

theorem slot_next {i : ℕ} (h : slot hash owners k = some i)
    (hfree : slot hash owners e.key = some i → e.claims = true → e.key = k) :
    slot hash (next hash owners e) k = some i := by
  rw [Filing.next]
  split
  · rename_i j hj
    split_ifs with hc
    · refine probe_set h (fun hij => ?_) fun hij o ho hstop => ?_
      · subst hij
        rw [hfree hj hc]
        simp [stops]
      · -- slot `j` does not stop the search, so its owner is another key
        rcases owner_of_slot hj with hnone | hsome
        · rw [Option.some.inj (ho.symm.trans hnone)] at hstop
          exact absurd hstop (by simp [stops])
        · rwa [Option.some.inj (ho.symm.trans hsome)] at hstop
    · exact h
  · exact h

/-! ### Keys that own a slot -/

/-- The keys that own a slot. -/
def holders (owners : List (Option K)) : Finset K := (owners.filterMap id).toFinset

@[simp] theorem mem_holders : k ∈ holders owners ↔ some k ∈ owners := by
  simp [holders, List.mem_filterMap]

omit [DecidableEq K] in
theorem map_some_filterMap (owners : List (Option K)) :
    (owners.filterMap id).map some = occupied Option.isNone owners := by
  induction owners with
  | nil => rfl
  | cons o owners ih =>
    rw [occupied] at ih ⊢
    cases o with
    | none => exact ih
    | some k => exact congrArg (some k :: ·) ih

theorem Laid.card_holders (h : Laid hash owners) :
    (holders owners).card = (occupied Option.isNone owners).length := by
  have hnodup := h.nodup_keys
  rw [List.map_id, ← map_some_filterMap] at hnodup
  rw [holders, List.toFinset_card_of_nodup (hnodup.of_map some), ← map_some_filterMap,
    List.length_map]

/-- **A key without a slot**: it owns none, and no slot is free. -/
theorem Laid.slot_eq_none_iff (h : Laid hash owners) :
    slot hash owners k = none ↔ k ∉ holders owners ∧ owners.length ≤ (holders owners).card := by
  rw [h.card_holders, mem_holders]
  constructor
  · intro hnone
    have hno : ∀ o ∈ owners, o ≠ none ∧ o ≠ some k := by
      intro o ho
      obtain ⟨j, hj⟩ := List.mem_iff_getElem?.1 ho
      by_contra hstop
      obtain ⟨i, hi⟩ := exists_probe (stops id Option.isNone (some k)) (hash k) hj (by
        rw [stops, Bool.or_eq_true, Option.isNone_iff_eq_none, decide_eq_true_eq]
        tauto)
      exact absurd (hnone.symm.trans hi) (by simp)
    refine ⟨fun hk => (hno _ hk).2 rfl, ?_⟩
    rw [occupied, List.filter_eq_self.2]
    intro o ho
    cases o with
    | none => exact absurd rfl (hno _ ho).1
    | some k' => rfl
  · rintro ⟨hk, hfull⟩
    have hocc : occupied Option.isNone owners = owners :=
      List.filter_sublist.eq_of_length_le hfull
    refine probe_eq_none fun o ho => ?_
    rw [← hocc] at ho
    obtain ⟨hmem, hsome⟩ := List.mem_filter.1 ho
    refine stops_eq_false_iff.2 ⟨by simpa using hsome, ?_⟩
    rintro rfl
    exact hk hmem

theorem Laid.card_holders_lt (h : Laid hash owners) (hj : owners[j]? = some none) :
    (holders owners).card < owners.length := by
  rw [h.card_holders, occupied]
  exact List.length_filter_lt_length_iff_exists.mpr ⟨none, List.mem_of_getElem? hj, by simp⟩

theorem Laid.notMem_holders (h : Laid hash owners) (hslot : slot hash owners k = some j)
    (hj : owners[j]? = some none) : k ∉ holders owners := by
  intro hk
  obtain ⟨i, hi⟩ := List.mem_iff_getElem?.mp (mem_holders.mp hk)
  obtain rfl : i = j := Option.some.inj ((h.slot_of_owner hi).symm.trans hslot)
  exact absurd (hi.symm.trans hj) (by simp)

theorem holders_next (hj : slot hash owners e.key = some j) :
    holders (next hash owners e) =
      if e.claims then insert e.key (holders owners) else holders owners := by
  rw [next, hj]
  dsimp only
  split_ifs
  · ext k
    rw [Finset.mem_insert, mem_holders, mem_holders]
    constructor
    · intro hk
      rcases List.mem_or_eq_of_mem_set hk with hk | hk
      · exact Or.inr hk
      · exact Or.inl (Option.some.inj hk)
    · intro hk
      obtain ⟨o, ho, -⟩ := exists_of_probe hj
      have hkey := List.mem_set (List.getElem?_eq_some_iff.1 ho).1 (some e.key)
      rcases hk with rfl | hk
      · exact hkey
      obtain ⟨i, hi⟩ := List.mem_iff_getElem?.1 hk
      by_cases hij : j = i
      · subst hij
        rcases owner_of_slot hj with hnone | hsome
        · exact absurd (hnone.symm.trans hi) (by simp)
        · rw [← Option.some.inj (hsome.symm.trans hi)]
          exact hkey
      · exact List.mem_iff_getElem?.2 ⟨i, by rw [List.getElem?_set_ne hij, hi]⟩
  · rfl

/-! ### Exact and kept -/

variable (hash)

/-- Every entry has a slot, and every key with a positive amount owns a slot that holds just that
amount. -/
def Exact (owners : List (Option K)) (es : List (Entry K)) : Prop :=
  (∀ f ∈ filings hash owners es, f.1 ≠ none) ∧
    ∀ k, 0 < amountOf es (some k) → ∃ j, (layout hash owners es)[j]? = some (some k) ∧
      filedAt (filings hash owners es) j = amountOf es (some k)

/-- Every entry has a slot, and every positive amount is filed in a slot that its key owns in the
end. -/
def Kept (owners : List (Option K)) (es : List (Entry K)) : Prop :=
  ∀ f ∈ filings hash owners es, ∃ j, f.1 = some j ∧
    (0 < f.2.amount → (layout hash owners es)[j]? = some (some f.2.key))

variable {hash}

variable (hash owners) in
theorem map_snd_filings (es : List (Entry K)) : (filings hash owners es).map Prod.snd = es := by
  induction es generalizing owners with
  | nil => rfl
  | cons e es ih => rw [filings, List.map_cons, ih]

theorem amountOf_map_snd (fs : List (Option ℕ × Entry K)) (o : Option K) :
    amountOf (fs.map Prod.snd) o =
      (fs.map fun f => if some f.2.key = o then f.2.amount else 0).sum := by
  rw [amountOf, List.map_map]
  rfl

theorem filedAt_eq_amountOf (h : Laid hash owners) (hkept : Kept hash owners es)
    (hj : (layout hash owners es)[j]? = some (some k)) :
    filedAt (filings hash owners es) j = amountOf es (some k) := by
  conv_rhs => rw [← map_snd_filings hash owners es]
  rw [amountOf_map_snd, filedAt]
  refine congrArg List.sum (List.map_congr_left fun f hf => ?_)
  obtain ⟨i, hi, hown⟩ := hkept f hf
  rcases Nat.eq_zero_or_pos f.2.amount with hzero | hpos
  · rw [hzero, ite_self, ite_self]
  · have hiff : f.1 = some j ↔ some f.2.key = some k := by
      rw [hi, Option.some.injEq, Option.some.injEq]
      constructor
      · rintro rfl
        exact Option.some.inj (Option.some.inj ((hown hpos).symm.trans hj))
      · rintro rfl
        exact Option.some.inj (((h.layout es).slot_of_owner (hown hpos)).symm.trans
          ((h.layout es).slot_of_owner hj))
    simp only [hiff]

theorem exists_of_amountOf_pos (h : 0 < amountOf es (some k)) :
    ∃ e ∈ es, e.key = k ∧ 0 < e.amount := by
  by_contra hno
  push Not at hno
  have hzero : amountOf es (some k) = 0 := by
    refine List.sum_eq_zero fun x hx => ?_
    obtain ⟨e, he, rfl⟩ := List.mem_map.1 hx
    split_ifs with hkey
    · exact Nat.le_zero.1 (hno e he (Option.some.inj hkey))
    · rfl
  omega

theorem exact_of_kept (h : Laid hash owners) (hkept : Kept hash owners es) :
    Exact hash owners es := by
  refine ⟨fun f hf hnone => ?_, fun k hk => ?_⟩
  · obtain ⟨j, hj, -⟩ := hkept f hf
    exact absurd (hnone.symm.trans hj) (by simp)
  · obtain ⟨e, he, rfl, hpos⟩ := exists_of_amountOf_pos hk
    rw [← map_snd_filings hash owners es] at he
    obtain ⟨f, hf, rfl⟩ := List.mem_map.1 he
    obtain ⟨j, -, hown⟩ := hkept f hf
    exact ⟨j, hown hpos, filedAt_eq_amountOf h hkept (hown hpos)⟩

/-! ### Wrong amounts do not cancel out -/

theorem filings_of_owner (h : Laid hash owners) (hj : owners[j]? = some (some k)) :
    ∀ f ∈ filings hash owners es, f.2.key = k → f.1 = some j := by
  induction es generalizing owners with
  | nil => simp [filings]
  | cons e es ih =>
    intro f hf hkey
    rcases List.mem_cons.1 hf with rfl | hf
    · rw [← h.slot_of_owner hj, ← hkey]
    · exact ih (h.next e) (owner_next hj) f hf hkey

theorem amountOf_lt_filedAt {fs : List (Option ℕ × Entry K)}
    (hall : ∀ f ∈ fs, 0 < f.2.amount → f.2.key = k → f.1 = some j) {f : Option ℕ × Entry K}
    (hf : f ∈ fs) (hslot : f.1 = some j) (hkey : f.2.key ≠ k) (hpos : 0 < f.2.amount) :
    amountOf (fs.map Prod.snd) (some k) < filedAt fs j := by
  rw [amountOf_map_snd, filedAt]
  refine List.sum_lt_sum _ _ (fun g hg => ?_) ⟨f, hf, ?_⟩
  · rcases Nat.eq_zero_or_pos g.2.amount with hzero | hgpos
    · rw [hzero, ite_self, ite_self]
    · split_ifs with h₁ h₂
      · exact Nat.le_refl _
      · exact absurd (hall g hg hgpos (Option.some.inj h₁)) h₂
      · exact Nat.zero_le _
      · exact Nat.zero_le _
  · rw [if_pos hslot, if_neg fun h => hkey (Option.some.inj h)]
    exact hpos

/-- If every owner's slot holds what is filed for it, every positive amount stays where its key is
probed to. The entries in `past` are filed already. -/
theorem slot_layout_of_exact (past : List (Option ℕ × Entry K)) (es : List (Entry K))
    (h : Laid hash owners)
    (hpast : ∀ f ∈ past, 0 < f.2.amount → ∃ i, f.1 = some i ∧ slot hash owners f.2.key = some i)
    (hsome : ∀ f ∈ filings hash owners es, f.1 ≠ none)
    (hown : ∀ j k, (layout hash owners es)[j]? = some (some k) →
      filedAt (past ++ filings hash owners es) j =
        amountOf ((past ++ filings hash owners es).map Prod.snd) (some k)) :
    ∀ f ∈ past ++ filings hash owners es, 0 < f.2.amount →
      ∃ i, f.1 = some i ∧ slot hash (layout hash owners es) f.2.key = some i := by
  induction es generalizing owners past with
  | nil => simpa [filings, layout] using hpast
  | cons e es ih =>
    obtain ⟨j, hj⟩ : ∃ j, slot hash owners e.key = some j :=
      Option.ne_none_iff_exists'.1 (hsome _ List.mem_cons_self)
    have hsplit : past ++ filings hash owners (e :: es) =
        (past ++ [(slot hash owners e.key, e)]) ++ filings hash (next hash owners e) es := by
      rw [filings, List.append_assoc, List.singleton_append]
    rw [hsplit] at hown ⊢
    refine ih (past ++ [(slot hash owners e.key, e)]) (h.next e) ?_
      (fun f hf => hsome f (List.mem_cons_of_mem _ hf)) hown
    intro f hf hpos
    rcases List.mem_append.1 hf with hf | hf
    · obtain ⟨i, hi, hslot⟩ := hpast f hf hpos
      refine ⟨i, hi, slot_next hslot fun hji hc => ?_⟩
      -- otherwise the key that claims the slot gets the amount on top of its own
      obtain rfl : j = i := Option.some.inj (hj.symm.trans hji)
      by_contra hne
      have hclaimed := owner_of_claims hj hc
      have hall : ∀ g ∈ (past ++ [(slot hash owners e.key, e)]) ++
          filings hash (next hash owners e) es, 0 < g.2.amount → g.2.key = e.key →
            g.1 = some j := by
        intro g hg hgpos hgkey
        rcases List.mem_append.1 hg with hg | hg
        · rcases List.mem_append.1 hg with hg | hg
          · obtain ⟨i', hi', hslot'⟩ := hpast g hg hgpos
            rw [hi', ← hslot', hgkey, hj]
          · rw [List.mem_singleton.1 hg, hj]
        · exact filings_of_owner (h.next e) hclaimed g hg hgkey
      have hlt := amountOf_lt_filedAt hall
        (List.mem_append_left _ (List.mem_append_left _ hf)) hi (fun h => hne h.symm) hpos
      exact absurd (hown j e.key (owner_layout es hclaimed)) (Nat.ne_of_gt hlt)
    · obtain rfl := List.mem_singleton.1 hf
      exact ⟨j, hj, slot_next hj fun _ _ => rfl⟩

theorem sum_list_sum {α : Type*} (P : Finset ℕ) (g : ℕ → α → ℕ) (l : List α) :
    ∑ i ∈ P, (l.map (g i)).sum = (l.map fun x => ∑ i ∈ P, g i x).sum := by
  induction l with
  | nil => simp
  | cons x l ih => simp only [List.map_cons, List.sum_cons, Finset.sum_add_distrib, ih]

omit [DecidableEq K] in
theorem sum_filedAt_le (fs : List (Option ℕ × Entry K)) (P : Finset ℕ) :
    ∑ i ∈ P, filedAt fs i ≤ (fs.map fun f => f.2.amount).sum := by
  simp only [filedAt]
  rw [sum_list_sum]
  refine List.sum_le_sum fun f _ => ?_
  cases f.1 with
  | none => simp
  | some i =>
    simp only [Option.some.injEq]
    rw [Finset.sum_ite_eq]
    split_ifs
    · exact Nat.le_refl _
    · exact Nat.zero_le _

theorem le_sum_amountOf (es : List (Entry K)) (P : Finset ℕ) (own : ℕ → Option K)
    (hall : ∀ e ∈ es, 0 < e.amount → ∃ i ∈ P, own i = some e.key) :
    (es.map Entry.amount).sum ≤ ∑ i ∈ P, amountOf es (own i) := by
  simp only [amountOf]
  rw [sum_list_sum]
  refine List.sum_le_sum fun e he => ?_
  rcases Nat.eq_zero_or_pos e.amount with hzero | hpos
  · rw [hzero]
    exact Nat.zero_le _
  · obtain ⟨i, hi, hown⟩ := hall e he hpos
    have hle := Finset.single_le_sum
      (f := fun i => if some e.key = own i then e.amount else 0) (fun _ _ => Nat.zero_le _) hi
    simpa [hown] using hle

theorem le_amountOf (he : e ∈ es) : e.amount ≤ amountOf es (some e.key) := by
  have hmem : (if some e.key = some e.key then e.amount else 0) ∈
      es.map fun x => if some x.key = some e.key then x.amount else 0 :=
    List.mem_map.2 ⟨e, he, rfl⟩
  rw [if_pos rfl] at hmem
  exact List.le_sum_of_mem hmem

/-- The slot of an owner holds what is filed for it, also if that is nothing. -/
theorem Exact.filedAt_eq (h : Laid hash owners) (hex : Exact hash owners es)
    (hj : (layout hash owners es)[j]? = some (some k)) :
    filedAt (filings hash owners es) j = amountOf es (some k) := by
  have hrow : ∀ {i : ℕ} {x : K}, (layout hash owners es)[i]? = some (some x) →
      0 < amountOf es (some x) → filedAt (filings hash owners es) i = amountOf es (some x) := by
    intro i x hi hpos
    obtain ⟨i', hi', heq⟩ := hex.2 x hpos
    have hsame : i' = i := Option.some.inj (((h.layout es).slot_of_owner hi').symm.trans
      ((h.layout es).slot_of_owner hi))
    rw [← hsame, heq]
  rcases Nat.eq_zero_or_pos (amountOf es (some k)) with hzero | hpos
  · -- the owners of positive amounts have everything that is filed
    let own : ℕ → Option K := fun i => ((layout hash owners es)[i]?).join
    let P := (Finset.range (layout hash owners es).length).filter fun i => 0 < amountOf es (own i)
    have hjP : j ∉ P := by
      intro hmem
      have hlt := (Finset.mem_filter.1 hmem).2
      simp only [own, hj, Option.join_some, hzero] at hlt
      exact absurd hlt (Nat.lt_irrefl 0)
    have hsum : ∑ i ∈ P, filedAt (filings hash owners es) i = ∑ i ∈ P, amountOf es (own i) := by
      refine Finset.sum_congr rfl fun i hi => ?_
      have hposi := (Finset.mem_filter.1 hi).2
      rcases hi' : own i with _ | x
      · rw [hi'] at hposi
        exact absurd hposi (by simp [amountOf])
      · rw [hi'] at hposi
        exact hrow (Option.join_eq_some_iff.1 hi') hposi
    have hle := sum_filedAt_le (filings hash owners es) (insert j P)
    have hge := le_sum_amountOf es P own fun e he hpos => by
      obtain ⟨i, hi, -⟩ := hex.2 e.key (Nat.lt_of_lt_of_le hpos (le_amountOf he))
      refine ⟨i, Finset.mem_filter.2 ⟨?_, ?_⟩, ?_⟩
      · exact Finset.mem_range.2 (List.getElem?_eq_some_iff.1 hi).1
      · simp only [own, hi, Option.join_some]
        exact Nat.lt_of_lt_of_le hpos (le_amountOf he)
      · simp only [own, hi, Option.join_some]
    rw [Finset.sum_insert hjP, hsum] at hle
    have htotal : ((filings hash owners es).map fun f => f.2.amount).sum =
        (es.map Entry.amount).sum := by
      conv_rhs => rw [← map_snd_filings hash owners es, List.map_map]
      rfl
    omega
  · exact hrow hj hpos

theorem kept_of_exact (h : Laid hash owners) (hex : Exact hash owners es) :
    Kept hash owners es := by
  have hhome := slot_layout_of_exact [] es h (fun f hf => absurd hf List.not_mem_nil) hex.1
    fun j k hj => by
      rw [List.nil_append, map_snd_filings]
      exact hex.filedAt_eq h hj
  intro f hf
  obtain ⟨j, hj⟩ := Option.ne_none_iff_exists'.1 (hex.1 f hf)
  refine ⟨j, hj, fun hpos => ?_⟩
  obtain ⟨i, hi, hslot⟩ := hhome f hf hpos
  obtain rfl : j = i := Option.some.inj (hj.symm.trans hi)
  have hmem : f.2 ∈ es := by
    have hsnd := List.mem_map_of_mem (f := Prod.snd) hf
    rwa [map_snd_filings] at hsnd
  obtain ⟨i', hi', -⟩ := hex.2 f.2.key (Nat.lt_of_lt_of_le hpos (le_amountOf hmem))
  rw [(h.layout es).slot_of_owner hi'] at hslot
  rwa [← Option.some.inj hslot]

/-- **Filing is exact if and only if it is kept.** -/
theorem exact_iff_kept (h : Laid hash owners) : Exact hash owners es ↔ Kept hash owners es :=
  ⟨kept_of_exact h, exact_of_kept h⟩

end Filing
