import Mathlib.Algebra.GroupWithZero.Nat
import Mathlib.Algebra.BigOperators.Group.List.Basic
import Mathlib.Data.List.Nodup
import Mathlib.Data.Option.Basic
import Mathlib.Data.List.Perm.Basic
import Mathlib.Logic.Function.Basic

/-!
# Open addressing with linear probing

A table is a list of rows, some of them vacant. A key is looked up by probing the slots from its
hash on, cyclically, until a row with the key or a vacant row is met. Rows are never removed, so a
lookup that meets a vacant row has seen every row the key could be in.

What is vacant is decided by the content of a row. The rules here only ask that a row that is
written is not vacant.

## Main definitions

* `LinearProbe.probe`: the first slot in probing order that holds the key or is vacant.
* `LinearProbe.Probed`: every occupied slot is where its key is probed to.
* `LinearProbe.occupied`, `LinearProbe.lookup`: the table as a list of rows and as a finite map.
* `LinearProbe.Counted`: a probed table of a given size, with the number of its rows.

## Main results

* `LinearProbe.Probed.set`: writing the row of a key where it is probed to keeps the table probed.
* `LinearProbe.Probed.replace`: so does writing it over a row that the search passes.
* `LinearProbe.Probed.nodup_keys`: occupied rows have different keys.
* `LinearProbe.exists_probe`: a table with a vacant row has a slot for every key.
* `LinearProbe.perm_occupied_set`: writing a vacant slot adds a row.
* `LinearProbe.Probed.lookup_set`: writing a row changes the finite map at its key.
* `LinearProbe.lookup_congr`: tables with the same rows are the same finite map.
-/

namespace LinearProbe

variable {K R : Type*} [DecidableEq K] {key : R → K} {vacant : R → Bool} {hash : K → ℕ}

/-- The order in which a table of `n` slots is probed from `start` on. -/
def probeOrder (n start : ℕ) : List ℕ := (List.range n).map fun i => (start + i) % n

/-- The first slot in probing order whose row satisfies `stop`. -/
def probe (stop : R → Bool) (t : List R) (start : ℕ) : Option ℕ :=
  (probeOrder t.length start).find? fun j => (t[j]?).any stop

/-- A row that ends the search for a key. -/
def stops (key : R → K) (vacant : R → Bool) (k : K) (r : R) : Bool := vacant r || key r = k

/-- The rows in use, in the order of their slots. -/
def occupied (vacant : R → Bool) (t : List R) : List R := t.filter fun r => !vacant r

/-- The table as a finite map. -/
def lookup (key : R → K) (vacant : R → Bool) (t : List R) (k : K) : Option R :=
  (occupied vacant t).find? fun r => key r = k

/-- Every occupied slot is where its key is probed to. -/
def Probed (key : R → K) (vacant : R → Bool) (hash : K → ℕ) (t : List R) : Prop :=
  ∀ j r, t[j]? = some r → vacant r = false →
    probe (stops key vacant (key r)) t (hash (key r)) = some j

/-! ### Slots -/

variable {k : K} {t : List R} {r r' : R} {stop : R → Bool} {j start : ℕ}

theorem set_of_getElem? (h : t[j]? = some r) : t.set j r = t := by
  obtain ⟨hlt, rfl⟩ := List.getElem?_eq_some_iff.1 h
  exact List.set_getElem_self hlt

theorem modify_of_getElem? (h : t[j]? = some r) (f : R → R) : t.modify j f = t.set j (f r) := by
  rw [List.modify_eq_set_getElem?, h]
  rfl

theorem modify_set_self (h : t[j]? = some r) (r' : R) (f : R → R) :
    (t.set j r').modify j f = t.set j (f r') := by
  rw [modify_of_getElem? (List.getElem?_set_self (List.getElem?_eq_some_iff.1 h).1), List.set_set]

theorem sum_map_set {N : Type*} [AddCommMonoid N] {w : R → N} {x : N} {r r' : R} :
    {t : List R} → {j : ℕ} → t[j]? = some r → w r' = w r + x →
      ((t.set j r').map w).sum = (t.map w).sum + x
  | [], _, h, _ => absurd h (by simp)
  | a :: t, 0, h, hw => by
    obtain rfl : a = r := Option.some.inj h
    rw [List.set_cons_zero, List.map_cons, List.map_cons, List.sum_cons, List.sum_cons, hw,
      add_right_comm]
  | a :: t, j + 1, h, hw => by
    rw [List.set_cons_succ, List.map_cons, List.map_cons, List.sum_cons, List.sum_cons,
      sum_map_set (by simpa using h) hw, add_assoc]

theorem sum_map_set_le {w : R → ℕ} {x : ℕ} {r r' : R} :
    {t : List R} → {j : ℕ} → t[j]? = some r → w r' ≤ w r + x →
      ((t.set j r').map w).sum ≤ (t.map w).sum + x
  | [], _, h, _ => absurd h (by simp)
  | a :: t, 0, h, hw => by
    obtain rfl : a = r := Option.some.inj h
    rw [List.set_cons_zero, List.map_cons, List.map_cons, List.sum_cons, List.sum_cons]
    omega
  | a :: t, j + 1, h, hw => by
    have ih := sum_map_set_le (t := t) (by simpa using h) hw
    rw [List.set_cons_succ, List.map_cons, List.map_cons, List.sum_cons, List.sum_cons]
    omega

/-! ### Probing -/

theorem mem_probeOrder {n : ℕ} (start : ℕ) (h : j < n) : j ∈ probeOrder n start := by
  have hn : 0 < n := by omega
  have hs := Nat.mod_lt start hn
  refine List.mem_map.2 ⟨(j + (n - start % n)) % n, List.mem_range.2 (Nat.mod_lt _ hn), ?_⟩
  have hsum : (start % n + (j + (n - start % n))) % n = j := by
    rw [show start % n + (j + (n - start % n)) = j + n by omega, Nat.add_mod_right,
      Nat.mod_eq_of_lt h]
  rw [Nat.add_mod, Nat.mod_mod]
  rw [Nat.add_mod, Nat.mod_mod] at hsum
  exact hsum

theorem exists_step {n : ℕ} (start : ℕ) (h : j < n) : ∃ d < n, (start + d) % n = j := by
  obtain ⟨d, hd, heq⟩ := List.mem_map.1 (mem_probeOrder start h)
  exact ⟨d, List.mem_range.1 hd, heq⟩

theorem lt_of_mem_probeOrder {n : ℕ} (h : j ∈ probeOrder n start) : j < n := by
  obtain ⟨i, hi, rfl⟩ := List.mem_map.1 h
  exact Nat.mod_lt _ (Nat.zero_lt_of_lt (List.mem_range.1 hi))

theorem exists_of_probe (h : probe stop t start = some j) :
    ∃ r, t[j]? = some r ∧ stop r = true := by
  have hj := List.find?_some h
  rcases hr : t[j]? with _ | r
  · simp [hr] at hj
  · exact ⟨r, rfl, by simpa [hr] using hj⟩

theorem exists_probe (stop : R → Bool) (start : ℕ) (hr : t[j]? = some r) (hstop : stop r = true) :
    ∃ i, probe stop t start = some i := by
  have hlt : j < t.length := (List.getElem?_eq_some_iff.1 hr).1
  refine Option.isSome_iff_exists.1 (List.find?_isSome.2 ⟨j, mem_probeOrder _ hlt, ?_⟩)
  simp [hr, hstop]

theorem probe_eq_some_iff :
    probe stop t start = some j ↔ ∃ d < t.length, (start + d) % t.length = j ∧
      (t[j]?).any stop = true ∧ ∀ e < d, (t[(start + e) % t.length]?).any stop = false := by
  rw [probe, probeOrder, List.find?_map, Option.map_eq_some_iff]
  simp only [List.find?_range_eq_some, Function.comp_apply, List.mem_range]
  constructor
  · rintro ⟨d, ⟨hd, hlt, hbefore⟩, rfl⟩
    exact ⟨d, hlt, rfl, hd, fun e he => by simpa using hbefore e he⟩
  · rintro ⟨d, hlt, rfl, hd, hbefore⟩
    exact ⟨d, ⟨hd, hlt, fun e he => by simpa using hbefore e he⟩, rfl⟩

theorem probe_eq_none (h : ∀ r ∈ t, stop r = false) : probe stop t start = none := by
  refine List.find?_eq_none.2 fun j _ => ?_
  rcases hr : t[j]? with _ | r
  · simp
  · simp [h r (List.mem_of_getElem? hr)]

/-- The slot that is probed to stays the same when the row there still ends the search and no row in
front of it does. -/
theorem probe_set {i : ℕ} (h : probe stop t start = some i) (hi : i = j → stop r = true)
    (hj : i ≠ j → ∀ r', t[j]? = some r' → stop r' = false → stop r = false) :
    probe stop (t.set j r) start = some i := by
  rw [probe, List.find?_eq_some_iff_append] at h ⊢
  obtain ⟨hp, before, after, horder, hbefore⟩ := h
  have hmem : ∀ a ∈ before ++ i :: after, a < t.length := fun a ha =>
    lt_of_mem_probeOrder (horder ▸ ha)
  rw [List.length_set]
  refine ⟨?_, before, after, horder, fun a ha => ?_⟩
  · rw [List.getElem?_set]
    split_ifs with h₁ h₂
    · simp [hi h₁.symm]
    · exact absurd (hmem i (by simp)) (h₁ ▸ h₂)
    · exact hp
  · have hold := hbefore a ha
    rw [List.getElem?_set]
    split_ifs with h₁ h₂
    · subst h₁
      obtain ⟨r', hr'⟩ : ∃ r', t[j]? = some r' := ⟨t[j], List.getElem?_eq_getElem h₂⟩
      rw [hr'] at hold
      have hne : i ≠ j := by
        rintro rfl
        rw [hr'] at hp
        simp_all
      simp [hj hne r' hr' (by simpa using hold)]
    · simp
    · exact hold

theorem probe_map {R' : Type*} (g : R' → R) (stop : R → Bool) (t : List R') (start : ℕ) :
    probe stop (t.map g) start = probe (fun r => stop (g r)) t start := by
  rw [probe, probe, List.length_map]
  refine congrArg (List.find? · _) (funext fun j => ?_)
  rw [List.getElem?_map, Option.any_map]

/-! ### Tables whose rows are probed to -/

theorem stops_of_key (h : key r = k) : stops key vacant k r = true := by
  simp [stops, h]

theorem stops_eq_false_iff : stops key vacant k r = false ↔ vacant r = false ∧ key r ≠ k := by
  simp [stops]

theorem probed_replicate (hr : vacant r = true) (n : ℕ) :
    Probed key vacant hash (List.replicate n r) := by
  intro j r' hj hocc
  rw [List.eq_of_mem_replicate (List.mem_of_getElem? hj), hr] at hocc
  exact absurd hocc (by simp)

/-- **Writing a row.** The row of a key, written where the key is probed to, keeps the table
probed. -/
theorem Probed.set (h : Probed key vacant hash t)
    (hprobe : probe (stops key vacant k) t (hash k) = some j) (hkey : key r = k)
    (hocc : vacant r = false) : Probed key vacant hash (t.set j r) := by
  subst hkey
  intro i r' hi hocc'
  rw [List.getElem?_set] at hi
  split_ifs at hi with h₁ h₂
  · subst h₁
    obtain rfl : r = r' := Option.some.inj hi
    refine probe_set hprobe (fun _ => stops_of_key rfl) fun hne => absurd rfl hne
  · refine probe_set (h i r' hi hocc') (fun h => absurd h.symm h₁) fun _ r₀ hr₀ hno => ?_
    -- a row in front of slot `i` that did not end its search has the key that is written
    obtain ⟨r₁, hr₁, hstop⟩ := exists_of_probe hprobe
    obtain rfl : r₀ = r₁ := Option.some.inj (hr₀.symm.trans hr₁)
    obtain ⟨hocc₀, hne⟩ := stops_eq_false_iff.1 hno
    rw [stops, hocc₀, Bool.false_or, decide_eq_true_eq] at hstop
    exact stops_eq_false_iff.2 ⟨hocc, hstop ▸ hne⟩

theorem Probed.set_vacant (h : Probed key vacant hash t) (hj : t[j]? = some r)
    (hvac : vacant r = true) (hvac' : vacant r' = true) : Probed key vacant hash (t.set j r') := by
  intro i r₁ hi hocc
  rw [List.getElem?_set] at hi
  split_ifs at hi with h₁ h₂
  · obtain rfl : r' = r₁ := Option.some.inj hi
    exact absurd (hvac'.symm.trans hocc) (by simp)
  · refine probe_set (h i r₁ hi hocc) (fun h => absurd h.symm h₁) fun _ r₀ hr₀ hno => ?_
    obtain rfl : r = r₀ := Option.some.inj (hj.symm.trans hr₀)
    exact absurd (hvac.symm.trans (stops_eq_false_iff.1 hno).1) (by simp)

/-- **Taking over a row.** A row of a new key may be written over another one that its search
passes. -/
theorem Probed.replace (h : Probed key vacant hash t) {d : ℕ} {r₀ : R} (hj : t[j]? = some r₀)
    (hocc : vacant r = false) (hnew : ∀ r' ∈ occupied vacant t, key r' ≠ key r) (hd : d < t.length)
    (hjd : (hash (key r) + d) % t.length = j)
    (hbefore : ∀ e < d, (hash (key r) + e) % t.length ≠ j ∧
      ∃ r', t[(hash (key r) + e) % t.length]? = some r' ∧ vacant r' = false) :
    Probed key vacant hash (t.set j r) := by
  have hself : (t.set j r)[j]? = some r :=
    List.getElem?_set_self (List.getElem?_eq_some_iff.1 hj).1
  have hne {i : ℕ} {r' : R} (hi : t[i]? = some r') (hocc' : vacant r' = false) : key r' ≠ key r :=
    hnew r' (List.mem_filter.2 ⟨List.mem_of_getElem? hi, by simp [hocc']⟩)
  intro i r' hi hocc'
  by_cases hij : j = i
  · subst hij
    rw [hself] at hi
    obtain rfl := Option.some.inj hi
    rw [probe_eq_some_iff, List.length_set]
    refine ⟨d, hd, hjd, by rw [hself]; exact stops_of_key rfl, fun e he => ?_⟩
    obtain ⟨hej, r', hr', hocc'⟩ := hbefore e he
    rw [List.getElem?_set_ne hej.symm, hr', Option.any_some]
    exact stops_eq_false_iff.2 ⟨hocc', hne hr' hocc'⟩
  · rw [List.getElem?_set_ne hij] at hi
    refine probe_set (h i r' hi hocc') (fun heq => absurd heq.symm hij) fun _ _ _ _ => ?_
    exact stops_eq_false_iff.2 ⟨hocc, (hne hi hocc').symm⟩

theorem Probed.map (h : Probed key vacant hash t) {f : R → R} (hkey : ∀ r, key (f r) = key r)
    (hvac : ∀ r, vacant (f r) = vacant r) : Probed key vacant hash (t.map f) := by
  intro j r hj hocc
  rw [List.getElem?_map, Option.map_eq_some_iff] at hj
  obtain ⟨r₀, hj, rfl⟩ := hj
  have hstop : (fun r => stops key vacant (key r₀) (f r)) = stops key vacant (key r₀) := by
    funext r
    rw [stops, stops, hkey, hvac]
  rw [probe_map, hkey, hstop]
  exact h j r₀ hj ((hvac r₀).symm.trans hocc)

theorem Probed.eq_of_key (h : Probed key vacant hash t) {i : ℕ} (hi : t[i]? = some r)
    (hj : t[j]? = some r') (hr : vacant r = false) (hr' : vacant r' = false)
    (hkey : key r = key r') : i = j := by
  have h₁ := h i r hi hr
  rw [hkey] at h₁
  exact Option.some.inj (h₁.symm.trans (h j r' hj hr'))

theorem Probed.nodup_keys (h : Probed key vacant hash t) : ((occupied vacant t).map key).Nodup := by
  rw [List.Nodup, List.pairwise_map, occupied, List.pairwise_filter, List.pairwise_iff_getElem]
  intro i j hi hj hlt hocc hocc' hkey
  have heq := h.eq_of_key (List.getElem?_eq_getElem hi) (List.getElem?_eq_getElem hj)
    (by simpa using hocc) (by simpa using hocc') hkey
  omega

theorem Probed.key_ne_of_vacant (h : Probed key vacant hash t)
    (hprobe : probe (stops key vacant k) t (hash k) = some j) (hj : t[j]? = some r)
    (hvac : vacant r = true) : ∀ r' ∈ occupied vacant t, key r' ≠ k := by
  rintro r' hr' rfl
  obtain ⟨hmem, hocc⟩ := List.mem_filter.1 hr'
  obtain ⟨i, hi⟩ := List.mem_iff_getElem?.1 hmem
  have hocc' : vacant r' = false := by simpa using hocc
  obtain rfl : j = i := Option.some.inj (hprobe.symm.trans (h i r' hi hocc'))
  obtain rfl : r = r' := Option.some.inj (hj.symm.trans hi)
  exact absurd (hvac.symm.trans hocc') (by simp)

/-! ### Rows in use -/

theorem perm_occupied_set (hj : t[j]? = some r') (hvac : vacant r' = true)
    (hocc : vacant r = false) : (occupied vacant (t.set j r)).Perm (r :: occupied vacant t) := by
  obtain ⟨hlt, hget⟩ := List.getElem?_eq_some_iff.1 hj
  have hsplit : t = t.take j ++ r' :: t.drop (j + 1) := by
    rw [← hget, List.getElem_cons_drop, List.take_append_drop]
  have hset : t.set j r = t.take j ++ r :: t.drop (j + 1) := List.set_eq_take_append_cons_drop ..
    |>.trans (if_pos hlt)
  have hold : occupied vacant t =
      occupied vacant (t.take j) ++ occupied vacant (t.drop (j + 1)) := by
    conv_lhs => rw [hsplit]
    simp [occupied, hvac]
  rw [hold, hset]
  simp only [occupied, List.filter_append, List.filter_cons, hocc, Bool.not_false, if_true]
  exact List.perm_middle

theorem length_occupied_set (hj : t[j]? = some r') (hocc' : vacant r' = false)
    (hocc : vacant r = false) :
    (occupied vacant (t.set j r)).length = (occupied vacant t).length := by
  obtain ⟨hlt, hget⟩ := List.getElem?_eq_some_iff.1 hj
  rw [occupied, occupied, ← List.countP_eq_length_filter, ← List.countP_eq_length_filter,
    List.countP_set hlt, hget]
  have hpos : 0 < t.countP fun r => !vacant r :=
    List.countP_pos_iff.2 ⟨r', List.mem_of_getElem? hj, by simp [hocc']⟩
  simp [hocc, hocc']
  omega

theorem occupied_set_vacant (hj : t[j]? = some r') (hvac' : vacant r' = true)
    (hvac : vacant r = true) : occupied vacant (t.set j r) = occupied vacant t := by
  obtain ⟨hlt, hget⟩ := List.getElem?_eq_some_iff.1 hj
  have hsplit : t = t.take j ++ r' :: t.drop (j + 1) := by
    rw [← hget, List.getElem_cons_drop, List.take_append_drop]
  have hset : t.set j r = t.take j ++ r :: t.drop (j + 1) := List.set_eq_take_append_cons_drop ..
    |>.trans (if_pos hlt)
  conv_rhs => rw [hsplit]
  rw [hset]
  simp [occupied, hvac, hvac']

theorem mem_occupied_set (h : r ∈ occupied vacant (t.set j r')) :
    r ∈ occupied vacant t ∨ r = r' := by
  obtain ⟨hmem, hocc⟩ := List.mem_filter.1 h
  rcases List.mem_or_eq_of_mem_set hmem with hmem | rfl
  · exact Or.inl (List.mem_filter.2 ⟨hmem, hocc⟩)
  · exact Or.inr rfl

theorem mem_occupied_set_or (h : r ∈ occupied vacant t) (j : ℕ) (r' : R) :
    r ∈ occupied vacant (t.set j r') ∨ t[j]? = some r := by
  obtain ⟨hmem, hocc⟩ := List.mem_filter.1 h
  obtain ⟨i, hi⟩ := List.mem_iff_getElem?.1 hmem
  by_cases hij : j = i
  · exact Or.inr (hij ▸ hi)
  · refine Or.inl (List.mem_filter.2 ⟨List.mem_iff_getElem?.2 ⟨i, ?_⟩, hocc⟩)
    rw [List.getElem?_set_ne hij, hi]

theorem self_mem_occupied_set (hj : j < t.length) (hocc : vacant r = false) :
    r ∈ occupied vacant (t.set j r) :=
  List.mem_filter.2 ⟨List.mem_set hj r, by simp [hocc]⟩

@[simp] theorem occupied_replicate (hr : vacant r = true) (n : ℕ) :
    occupied vacant (List.replicate n r) = [] := by
  simp [occupied, hr]

theorem exists_vacant (h : (occupied vacant t).length < t.length) :
    ∃ (j : ℕ) (r : R), t[j]? = some r ∧ vacant r = true := by
  by_contra hno
  push Not at hno
  have hall : occupied vacant t = t := by
    refine List.filter_eq_self.2 fun r hr => ?_
    obtain ⟨j, hj⟩ := List.mem_iff_getElem?.1 hr
    simpa using hno j r hj
  rw [hall] at h
  exact Nat.lt_irrefl _ h

/-- **Inserting a row.** A row of a new key has a vacant slot in a table that is not full. -/
theorem Probed.insert (h : Probed key vacant hash t) (hfree : (occupied vacant t).length < t.length)
    (hocc : vacant r = false) (hnew : ∀ r' ∈ occupied vacant t, key r' ≠ key r) :
    ∃ j r₀, probe (stops key vacant (key r)) t (hash (key r)) = some j ∧ t[j]? = some r₀ ∧
      vacant r₀ = true ∧ Probed key vacant hash (t.set j r) ∧
      (occupied vacant (t.set j r)).Perm (r :: occupied vacant t) := by
  obtain ⟨i, r₁, hi, hvac⟩ := exists_vacant hfree
  obtain ⟨j, hprobe⟩ := exists_probe (stops key vacant (key r)) (hash (key r)) hi
    (by simp [stops, hvac])
  obtain ⟨r₀, hj, hstop⟩ := exists_of_probe hprobe
  have hvac₀ : vacant r₀ = true := by
    by_contra hno
    have hocc₀ : vacant r₀ = false := by simpa using hno
    rw [stops, hocc₀, Bool.false_or, decide_eq_true_eq] at hstop
    exact hnew r₀ (List.mem_filter.2 ⟨List.mem_of_getElem? hj, by simp [hocc₀]⟩) hstop
  exact ⟨j, r₀, hprobe, hj, hvac₀, h.set hprobe rfl hocc, perm_occupied_set hj hvac₀ hocc⟩

/-! ### Tables that count their rows -/

/-- A table of `n` slots whose rows are where their keys are probed to, and `num` of them. -/
structure Counted (key : R → K) (vacant : R → Bool) (hash : K → ℕ) (n : ℕ) (t : List R)
    (num : ℕ) : Prop where
  probed : Probed key vacant hash t
  length_eq : t.length = n
  num_eq : num = (occupied vacant t).length

theorem counted_replicate (hr : vacant r = true) (n : ℕ) :
    Counted key vacant hash n (List.replicate n r) 0 :=
  ⟨probed_replicate hr n, List.length_replicate, by rw [occupied_replicate hr]; rfl⟩

/-- **Writing a row, counted.** The row of a key written where the key is probed to counts if the
slot was vacant. -/
theorem Counted.write {n num : ℕ} (h : Counted key vacant hash n t num)
    (hprobe : probe (stops key vacant k) t (hash k) = some j) (hj : t[j]? = some r)
    (hkey : key r' = k) (hocc : vacant r' = false) :
    Counted key vacant hash n (t.set j r') (num + if vacant r then 1 else 0) := by
  refine ⟨h.probed.set hprobe hkey hocc, by rw [List.length_set, h.length_eq], ?_⟩
  rw [h.num_eq]
  split_ifs with hvac
  · rw [(perm_occupied_set hj hvac hocc).length_eq, List.length_cons]
  · rw [length_occupied_set hj (by simpa using hvac) hocc, Nat.add_zero]

theorem Counted.write_vacant {n num : ℕ} (h : Counted key vacant hash n t num) (hj : t[j]? = some r)
    (hvac : vacant r = true) (hvac' : vacant r' = true) :
    Counted key vacant hash n (t.set j r') num :=
  ⟨h.probed.set_vacant hj hvac hvac', by rw [List.length_set, h.length_eq],
    by rw [occupied_set_vacant hj hvac hvac', h.num_eq]⟩

/-! ### Finite maps -/

theorem find?_eq_some_iff_of_nodup {l : List R} (hn : (l.map key).Nodup) :
    l.find? (fun r => key r = k) = some r ↔ r ∈ l ∧ key r = k := by
  refine ⟨fun h => ⟨List.mem_of_find?_eq_some h, by simpa using List.find?_some h⟩, ?_⟩
  rintro ⟨hmem, rfl⟩
  obtain ⟨r', hr'⟩ := Option.isSome_iff_exists.1
    (List.find?_isSome.2 ⟨r, hmem, by simp⟩ : (l.find? fun x => key x = key r).isSome = true)
  have hkey : key r' = key r := by simpa using List.find?_some hr'
  rw [hr', List.inj_on_of_nodup_map hn (List.mem_of_find?_eq_some hr') hmem hkey]

theorem filter_key_eq {l : List R} (hn : (l.map key).Nodup) (hr : r ∈ l) :
    l.filter (fun x => key x = key r) = [r] := by
  induction l with
  | nil => exact absurd hr List.not_mem_nil
  | cons x l ih =>
    rw [List.map_cons, List.nodup_cons] at hn
    rcases List.mem_cons.1 hr with rfl | hr
    · rw [List.filter_cons_of_pos (by simp), List.filter_eq_nil_iff.2]
      intro y hy hkey
      exact hn.1 (List.mem_map.2 ⟨y, hy, of_decide_eq_true hkey⟩)
    · rw [List.filter_cons_of_neg, ih hn.2 hr]
      intro hkey
      exact hn.1 (List.mem_map.2 ⟨r, hr, (of_decide_eq_true hkey).symm⟩)

theorem Probed.lookup_eq_some (h : Probed key vacant hash t) :
    lookup key vacant t k = some r ↔ ∃ j : ℕ, t[j]? = some r ∧ vacant r = false ∧ key r = k := by
  rw [lookup, find?_eq_some_iff_of_nodup h.nodup_keys, occupied, List.mem_filter,
    List.mem_iff_getElem?, Bool.not_eq_true']
  constructor
  · rintro ⟨⟨⟨j, hj⟩, hocc⟩, hkey⟩
    exact ⟨j, hj, hocc, hkey⟩
  · rintro ⟨j, hj, hocc, hkey⟩
    exact ⟨⟨⟨j, hj⟩, hocc⟩, hkey⟩

theorem Probed.lookup_of_probe (h : Probed key vacant hash t)
    (hprobe : probe (stops key vacant k) t (hash k) = some j) (hj : t[j]? = some r) :
    lookup key vacant t k = if vacant r then none else some r := by
  split_ifs with hvac
  · rw [Option.eq_none_iff_forall_ne_some]
    intro r' hr'
    obtain ⟨i, hi, hocc, hkey⟩ := h.lookup_eq_some.mp hr'
    exact h.key_ne_of_vacant hprobe hj hvac r'
      (List.mem_filter.mpr ⟨List.mem_of_getElem? hi, by simp [hocc]⟩) hkey
  · obtain ⟨r', hr', hstop⟩ := exists_of_probe hprobe
    obtain rfl : r = r' := Option.some.inj (hj.symm.trans hr')
    have hocc : vacant r = false := by simpa using hvac
    refine h.lookup_eq_some.mpr ⟨j, hj, hocc, ?_⟩
    simpa [stops, hocc] using hstop

theorem Probed.lookup_of_no_probe (h : Probed key vacant hash t)
    (hprobe : probe (stops key vacant k) t (hash k) = none) : lookup key vacant t k = none := by
  rw [Option.eq_none_iff_forall_ne_some]
  intro r hr
  obtain ⟨j, hj, -, hkey⟩ := h.lookup_eq_some.mp hr
  obtain ⟨i, hi⟩ := exists_probe (stops key vacant k) (hash k) hj (stops_of_key hkey)
  rw [hprobe] at hi
  exact nomatch hi

/-- **Writing the row of a key** where it is probed to changes the finite map there. -/
theorem Probed.lookup_set (h : Probed key vacant hash t)
    (hprobe : probe (stops key vacant k) t (hash k) = some j) (hkey : key r = k)
    (hocc : vacant r = false) :
    lookup key vacant (t.set j r) = Function.update (lookup key vacant t) k (some r) := by
  obtain ⟨r₀, hj, hstop⟩ := exists_of_probe hprobe
  have hset := h.set hprobe hkey hocc
  have hself : (t.set j r)[j]? = some r :=
    List.getElem?_set_self (List.getElem?_eq_some_iff.mp hj).1
  funext k'
  by_cases hk : k' = k
  · rw [hk, Function.update_self]
    exact hset.lookup_eq_some.mpr ⟨j, hself, hocc, hkey⟩
  · rw [Function.update_of_ne hk]
    refine Option.ext fun r' => ?_
    rw [hset.lookup_eq_some, h.lookup_eq_some]
    constructor
    · rintro ⟨i, hi, hocc', hkey'⟩
      have hij : j ≠ i := by
        rintro rfl
        obtain rfl : r = r' := Option.some.inj (hself.symm.trans hi)
        exact hk (hkey'.symm.trans hkey)
      exact ⟨i, by rwa [List.getElem?_set_ne hij] at hi, hocc', hkey'⟩
    · rintro ⟨i, hi, hocc', hkey'⟩
      have hij : j ≠ i := by
        rintro rfl
        obtain rfl : r₀ = r' := Option.some.inj (hj.symm.trans hi)
        rw [stops, hocc', Bool.false_or, decide_eq_true_eq] at hstop
        exact hk (hkey'.symm.trans hstop)
      exact ⟨i, by rwa [List.getElem?_set_ne hij], hocc', hkey'⟩

theorem lookup_congr {t' : List R} (hn : ((occupied vacant t).map key).Nodup)
    (hp : (occupied vacant t').Perm (occupied vacant t)) :
    lookup key vacant t' = lookup key vacant t := by
  funext k
  have hn' : ((occupied vacant t').map key).Nodup := (hp.map key).nodup_iff.2 hn
  refine Option.ext fun r => ?_
  rw [lookup, lookup, find?_eq_some_iff_of_nodup hn', find?_eq_some_iff_of_nodup hn, hp.mem_iff]

end LinearProbe
