import Mathlib.Data.List.Sort
import Mathlib.Data.List.SplitBy

/-!
# Stable sorting by a key

A list is sorted by a key such that elements of one key keep their order. There is one such list, so
stable sorting is a function. Merging two lists keeps the order of one key if the left list is
sorted, and the left one wins ties.

## Main definitions

* `StableSort.SameOrder`: elements of one key come in the same order.
* `StableSort.Sorts`: sorted by key, with the order of one key kept.
* `StableSort.slice`, `StableSort.paste`: the elements between two positions, and elements written
  from a position on.
* `StableSort.RunsSorted`, `StableSort.mergePairs`: runs of one width, and one pass that merges them
  in pairs.
* `StableSort.Sorter`: a sorting function that need not be stable.

## Main results

* `StableSort.Sorts.unique`: a stable sort is a function.
* `StableSort.sameOrder_merge`: merging keeps the order of one key.
* `StableSort.sameOrder_mergePairs`, `StableSort.runsSorted_mergePairs`: a pass of a merge sort.
* `StableSort.exists_keys_splitBy`: the groups of a sorted list.
-/

namespace StableSort

variable {α K : Type*} [LinearOrder K] (key : α → K)

/-! ### Stable sorts -/

/-- Elements of one key come in the same order. -/
def SameOrder (l l' : List α) : Prop :=
  ∀ k, l'.filter (fun a => key a = k) = l.filter fun a => key a = k

/-- The keys do not decrease. -/
abbrev Sorted (l : List α) : Prop := l.Pairwise fun a b => key a ≤ key b

/-- The list is sorted, and elements of one key keep their order. -/
structure Sorts (l l' : List α) : Prop where
  sorted : Sorted key l'
  order : SameOrder key l l'

variable {key}

theorem sorted_append {l l' : List α} : Sorted key (l ++ l') ↔
    Sorted key l ∧ Sorted key l' ∧ ∀ a ∈ l, ∀ b ∈ l', key a ≤ key b := List.pairwise_append

theorem sorted_of_length_le {l : List α} (h : l.length ≤ 1) : Sorted key l := by
  match l, h with
  | [], _ => exact List.Pairwise.nil
  | [a], _ => exact List.pairwise_singleton _ a

theorem SameOrder.refl (l : List α) : SameOrder key l l := fun _ => rfl

theorem SameOrder.trans {l l' l'' : List α} (h : SameOrder key l l') (h' : SameOrder key l' l'') :
    SameOrder key l l'' := fun k => (h' k).trans (h k)

theorem SameOrder.append {l₁ l₂ l₁' l₂' : List α} (h₁ : SameOrder key l₁ l₁')
    (h₂ : SameOrder key l₂ l₂') : SameOrder key (l₁ ++ l₂) (l₁' ++ l₂') := fun k => by
  rw [List.filter_append, List.filter_append, h₁ k, h₂ k]

theorem SameOrder.mem_iff {l l' : List α} (h : SameOrder key l l') {a : α} : a ∈ l' ↔ a ∈ l := by
  have hself : ∀ {m : List α}, a ∈ m ↔ a ∈ m.filter fun b => key b = key a := by
    intro m
    rw [List.mem_filter]
    simp
  rw [hself, h, ← hself]

theorem SameOrder.perm {l l' : List α} (h : SameOrder key l l') : l'.Perm l := by
  classical
  rw [List.perm_iff_count]
  intro a
  have hcount : ∀ m : List α, m.count a = (m.filter fun b => key b = key a).count a :=
    fun m => (List.count_filter (by simp)).symm
  rw [hcount l', hcount l, h]

theorem SameOrder.eq_of_sorted {l l' : List α} (h : SameOrder key l l') (hl : Sorted key l)
    (hl' : Sorted key l') : l' = l := by
  induction l generalizing l' with
  | nil =>
    exact List.eq_nil_iff_forall_not_mem.mpr fun a ha =>
      absurd (h.mem_iff.mp ha) List.not_mem_nil
  | cons a l ih =>
    cases l' with
    | nil => exact absurd (h.mem_iff.mpr List.mem_cons_self) List.not_mem_nil
    | cons b l' =>
      have hle : ∀ {c d : α} {m : List α}, Sorted key (c :: m) → d ∈ c :: m → key c ≤ key d := by
        intro c d m hm hd
        rcases List.mem_cons.mp hd with rfl | hd
        · exact le_rfl
        · exact List.rel_of_pairwise_cons hm hd
      have hkey : key a = key b :=
        le_antisymm (hle hl (h.mem_iff.mp List.mem_cons_self))
          (hle hl' (h.mem_iff.mpr List.mem_cons_self))
      -- the first elements of that key
      have hhead := h (key a)
      rw [List.filter_cons_of_pos (by simp [hkey]), List.filter_cons_of_pos (by simp)] at hhead
      obtain rfl : b = a := (List.cons.inj hhead).1
      refine congrArg (b :: ·) (ih (fun k => ?_) hl.of_cons hl'.of_cons)
      have hk := h k
      by_cases hbk : key b = k
      · rw [List.filter_cons_of_pos (by simp [hbk]), List.filter_cons_of_pos (by simp [hbk])] at hk
        exact (List.cons.inj hk).2
      · rwa [List.filter_cons_of_neg (by simp [hbk]), List.filter_cons_of_neg (by simp [hbk])] at hk

/-- **A stable sort is a function.** -/
theorem Sorts.unique {l l₁ l₂ : List α} (h₁ : Sorts key l l₁) (h₂ : Sorts key l l₂) : l₂ = l₁ :=
  SameOrder.eq_of_sorted (fun k => (h₂.order k).trans (h₁.order k).symm) h₁.sorted h₂.sorted

/-! ### Merging -/

variable (key) in
/-- The left list wins ties. -/
def merge (l r : List α) : List α := l.merge r fun a b => key a ≤ key b

@[simp] theorem nil_merge (r : List α) : merge key [] r = r := List.nil_merge r

@[simp] theorem merge_nil (l : List α) : merge key l [] = l := List.merge_right l

theorem cons_merge_cons (a b : α) (l r : List α) :
    merge key (a :: l) (b :: r) =
      if key a ≤ key b then a :: merge key l (b :: r) else b :: merge key (a :: l) r := by
  rw [merge, List.cons_merge_cons]
  simp only [decide_eq_true_eq]
  rfl

@[simp] theorem length_merge (l r : List α) : (merge key l r).length = l.length + r.length :=
  List.length_merge _ l r

theorem mem_merge {a : α} {l r : List α} : a ∈ merge key l r ↔ a ∈ l ∨ a ∈ r := List.mem_merge

theorem sorted_merge {l r : List α} (hl : Sorted key l) (hr : Sorted key r) :
    Sorted key (merge key l r) := by
  have hpair := @List.pairwise_merge α (fun a b => decide (key a ≤ key b))
    (fun a b c hab hbc => by simpa using (of_decide_eq_true hab).trans (of_decide_eq_true hbc))
    (fun a b => by simpa using le_total (key a) (key b)) l r
    (by simpa using hl) (by simpa using hr)
  simpa [merge] using hpair

/-- **Merging keeps the order of one key.** -/
theorem sameOrder_merge {l : List α} (hl : Sorted key l) (r : List α) :
    SameOrder key (l ++ r) (merge key l r) := by
  intro k
  induction l generalizing r with
  | nil => rw [nil_merge, List.nil_append]
  | cons a l ihl =>
    induction r with
    | nil => rw [merge_nil, List.append_nil]
    | cons b r ihr =>
      rw [cons_merge_cons]
      split_ifs with hle
      · rw [List.filter_cons, ihl hl.of_cons, List.cons_append, List.filter_cons]
      · rw [List.filter_cons, ihr, List.filter_append, List.filter_append,
          List.filter_cons (x := b)]
        split_ifs with hb
        · -- the left list has no element of this key, since its keys are greater
          have hnil : (a :: l).filter (fun a => key a = k) = [] := by
            refine List.filter_eq_nil_iff.mpr fun c hc => ?_
            have hac : key a ≤ key c := by
              rcases List.mem_cons.mp hc with rfl | hc
              · exact le_rfl
              · exact List.rel_of_pairwise_cons hl hc
            have hbk : key b = k := of_decide_eq_true hb
            rw [decide_eq_true_eq]
            exact ((hbk ▸ not_le.mp hle).trans_le hac).ne'
          rw [hnil, List.nil_append, List.nil_append]
        · rfl

/-! ### Slices -/

section Slice

variable {l : List α} {i j k : ℕ}

/-- The elements from one position to another. -/
def slice (l : List α) (i j : ℕ) : List α := (l.take j).drop i

theorem length_slice (hj : j ≤ l.length) : (slice l i j).length = j - i := by
  rw [slice, List.length_drop, List.length_take, Nat.min_eq_left hj]

theorem slice_of_le (h : j ≤ i) : slice l i j = [] :=
  List.drop_eq_nil_of_le ((List.length_take_le j l).trans h)

theorem slice_cons (hij : i < j) {a : α} (ha : l[i]? = some a) :
    slice l i j = a :: slice l (i + 1) j := by
  obtain ⟨hlt, rfl⟩ := List.getElem?_eq_some_iff.mp ha
  have hi : i < (l.take j).length := by
    rw [List.length_take]
    omega
  rw [slice, List.drop_eq_getElem_cons hi, List.getElem_take]
  rfl

theorem slice_append (hij : i ≤ j) (hjk : j ≤ k) (hk : k ≤ l.length) :
    slice l i j ++ slice l j k = slice l i k := by
  have htake : l.take k = l.take j ++ slice l j k := by
    conv_lhs => rw [← List.take_append_drop j (l.take k)]
    rw [List.take_take, Nat.min_eq_left hjk, slice]
  have hi : i ≤ (l.take j).length := by
    rw [List.length_take]
    omega
  calc slice l i j ++ slice l j k = (l.take j ++ slice l j k).drop i :=
        (List.drop_append_of_le_length hi).symm
    _ = slice l i k := (congrArg (List.drop i) htake).symm

theorem take_append_slice (hij : i ≤ j) : l.take i ++ slice l i j = l.take j := by
  conv_rhs => rw [← List.take_append_drop i (l.take j)]
  rw [List.take_take, Nat.min_eq_left hij, slice]

theorem slice_min (w : ℕ) : slice l i (min (i + w) l.length) = (l.drop i).take w := by
  rw [slice, List.take_eq_take_min, Nat.min_assoc, Nat.min_self, ← List.take_eq_take_min,
    List.drop_take, Nat.add_sub_cancel_left]

/-- The list after some elements are written from a position on. -/
def paste (l : List α) (i : ℕ) (xs : List α) : List α := l.take i ++ xs ++ l.drop (i + xs.length)

@[simp] theorem paste_nil : paste l i [] = l := by
  rw [paste, List.append_nil, List.length_nil, Nat.add_zero, List.take_append_drop]

theorem length_paste {xs : List α} (h : i + xs.length ≤ l.length) :
    (paste l i xs).length = l.length := by
  simp only [paste, List.length_append, List.length_take, List.length_drop]
  omega

theorem paste_set {x : α} {xs : List α} (hi : i < l.length) :
    paste (l.set i x) (i + 1) xs = paste l i (x :: xs) := by
  have htake : (l.set i x).take (i + 1) = l.take i ++ [x] := by
    rw [List.take_add_one, List.take_set_of_le le_rfl, List.getElem?_set_self hi]
    rfl
  have hdrop : (l.set i x).drop (i + 1 + xs.length) = l.drop (i + 1 + xs.length) :=
    List.drop_set_of_lt (by omega)
  rw [paste, paste, htake, hdrop, List.append_assoc, List.length_cons, List.append_assoc,
    List.append_assoc, List.singleton_append, Nat.add_right_comm, Nat.add_assoc, List.cons_append]

theorem paste_paste {xs ys : List α} (h : i + xs.length ≤ l.length) :
    paste (paste l i xs) (i + xs.length) ys = paste l i (xs ++ ys) := by
  have hlen : (l.take i ++ xs).length = i + xs.length := by
    rw [List.length_append, List.length_take]
    omega
  have htake : (paste l i xs).take (i + xs.length) = l.take i ++ xs := List.take_left' hlen
  have hdrop : (paste l i xs).drop (i + xs.length + ys.length) =
      l.drop (i + (xs ++ ys).length) := by
    rw [← List.drop_drop, paste, List.drop_left' hlen, List.drop_drop, List.length_append,
      Nat.add_assoc]
  rw [paste, htake, hdrop, paste, List.append_assoc (l.take i)]

theorem slice_set {x : α} (h : k < i) : slice (l.set k x) i j = slice l i j := by
  rw [slice, slice, List.take_set, List.drop_set_of_lt h]

end Slice

/-! ### Runs of one width -/

section Runs

variable {w : ℕ}

/-- Every run of the width is sorted. -/
def RunsSorted (key : α → K) (w : ℕ) (l : List α) : Prop :=
  ∀ m, Sorted key ((l.drop (m * w)).take w)

theorem runsSorted_iff {l : List α} :
    RunsSorted key w l ↔ Sorted key (l.take w) ∧ RunsSorted key w (l.drop w) := by
  constructor
  · intro h
    refine ⟨by simpa using h 0, fun m => ?_⟩
    rw [List.drop_drop, Nat.add_comm, ← Nat.succ_mul]
    exact h (m + 1)
  · rintro ⟨hfirst, hrest⟩ m
    cases m with
    | zero => simpa using hfirst
    | succ m =>
      have hm := hrest m
      rwa [List.drop_drop, Nat.add_comm, ← Nat.succ_mul] at hm

theorem runsSorted_nil : RunsSorted key w [] := fun m => by simp

theorem runsSorted_one (l : List α) : RunsSorted key 1 l := fun _ =>
  sorted_of_length_le (List.length_take_le _ _)

theorem RunsSorted.sorted {l : List α} (h : RunsSorted key w l) (hw : l.length ≤ w) :
    Sorted key l := by
  have h₀ := h 0
  rwa [Nat.zero_mul, List.drop_zero, List.take_of_length_le hw] at h₀

variable (key) in
/-- One pass: the runs of the width are merged in pairs. -/
def mergePairs (w : ℕ) (l : List α) : List α :=
  if l = [] ∨ w = 0 then l
  else merge key (l.take w) ((l.drop w).take w) ++ mergePairs w (l.drop (2 * w))
termination_by l.length
decreasing_by
  rename_i h
  rw [not_or] at h
  rw [List.length_drop]
  have := List.length_pos_of_ne_nil h.1
  omega

theorem length_take_add (w : ℕ) (l : List α) :
    (l.take w).length + ((l.drop w).take w).length = min (2 * w) l.length := by
  simp only [List.length_take, List.length_drop]
  omega

/-- **A pass keeps the order of one key.** -/
theorem sameOrder_mergePairs (l : List α) (h : RunsSorted key w l) :
    SameOrder key l (mergePairs key w l) := by
  induction l using mergePairs.induct w with
  | case1 l hend =>
    rw [mergePairs, if_pos hend]
    exact SameOrder.refl l
  | case2 l hend ih =>
    obtain ⟨hfirst, hrest⟩ := runsSorted_iff.mp h
    obtain ⟨-, hrest⟩ := runsSorted_iff.mp hrest
    rw [List.drop_drop, ← Nat.two_mul] at hrest
    have hsplit : l = (l.take w ++ (l.drop w).take w) ++ l.drop (2 * w) := by
      rw [Nat.two_mul, ← List.drop_drop, List.append_assoc, List.take_append_drop,
        List.take_append_drop]
    rw [mergePairs, if_neg hend]
    conv => arg 2; rw [hsplit]
    exact (sameOrder_merge hfirst _).append (ih hrest)

/-- **A pass doubles the width of the runs.** -/
theorem runsSorted_mergePairs (l : List α) (h : RunsSorted key w l) :
    RunsSorted key (2 * w) (mergePairs key w l) := by
  induction l using mergePairs.induct w with
  | case1 l hend =>
    rw [mergePairs, if_pos hend]
    rcases hend with rfl | rfl
    · exact runsSorted_nil
    · exact h
  | case2 l hend ih =>
    obtain ⟨hfirst, hrest⟩ := runsSorted_iff.mp h
    obtain ⟨hsecond, hrest⟩ := runsSorted_iff.mp hrest
    rw [List.drop_drop, ← Nat.two_mul] at hrest
    have hmerged := sorted_merge hfirst hsecond
    have hlen := length_take_add w l
    rw [← @length_merge _ _ _ key] at hlen
    rw [mergePairs, if_neg hend, runsSorted_iff]
    rcases Nat.le_total (2 * w) l.length with hle | hle
    · rw [Nat.min_eq_left hle] at hlen
      rw [List.take_left' hlen, List.drop_left' hlen]
      exact ⟨hmerged, ih hrest⟩
    · rw [Nat.min_eq_right hle] at hlen
      have hnil : mergePairs key w (l.drop (2 * w)) = [] := by
        rw [List.drop_eq_nil_of_le hle, mergePairs, if_pos (Or.inl rfl)]
      rw [hnil, List.append_nil, List.take_of_length_le (hlen.le.trans hle),
        List.drop_eq_nil_of_le (hlen.le.trans hle)]
      exact ⟨hmerged, runsSorted_nil⟩

theorem length_mergePairs (l : List α) : (mergePairs key w l).length = l.length := by
  induction l using mergePairs.induct w with
  | case1 l hend => rw [mergePairs, if_pos hend]
  | case2 l hend ih =>
    rw [mergePairs, if_neg hend, List.length_append, length_merge, length_take_add, ih,
      List.length_drop]
    omega

end Runs

/-! ### Groups of one key -/

section Groups

/-- Lists that have one key each, and different ones, are what a filter for their key finds. -/
theorem exists_keys_of_groups {gs : List (List α)} (hne : ∀ g ∈ gs, g ≠ [])
    (hkey : ∀ g ∈ gs, ∀ a ∈ g, ∀ b ∈ g, key a = key b)
    (hlt : gs.Pairwise fun g g' => ∀ a ∈ g, ∀ b ∈ g', key a < key b) :
    ∃ ks : List K, ks.Nodup ∧ (∀ k, k ∈ ks ↔ k ∈ gs.flatten.map key) ∧
      gs = ks.map fun k => gs.flatten.filter fun a => key a = k := by
  induction gs with
  | nil => exact ⟨[], List.nodup_nil, fun k => Iff.rfl, rfl⟩
  | cons g gs ih =>
    obtain ⟨hfirst, hrest⟩ := List.pairwise_cons.mp hlt
    obtain ⟨ks, hnodup, hmem, hgs⟩ := ih (fun g' hg' => hne g' (List.mem_cons_of_mem _ hg'))
      (fun g' hg' => hkey g' (List.mem_cons_of_mem _ hg')) hrest
    obtain ⟨a, ha⟩ := List.exists_mem_of_ne_nil g (hne g List.mem_cons_self)
    have hg : ∀ b ∈ g, key b = key a := fun b hb => hkey g List.mem_cons_self b hb a ha
    have hlater : ∀ b ∈ gs.flatten, key a < key b := by
      intro b hb
      obtain ⟨g', hg', hb'⟩ := List.mem_flatten.mp hb
      exact hfirst g' hg' a ha b hb'
    have hks : ∀ k ∈ ks, key a < k := by
      intro k hk
      obtain ⟨b, hb, rfl⟩ := List.mem_map.mp ((hmem k).mp hk)
      exact hlater b hb
    refine ⟨key a :: ks, List.nodup_cons.mpr ⟨fun h => (hks _ h).false, hnodup⟩, fun k => ?_, ?_⟩
    · rw [List.mem_cons, hmem, List.flatten_cons, List.map_append, List.mem_append]
      refine or_congr_left ⟨?_, ?_⟩
      · rintro rfl
        exact List.mem_map.mpr ⟨a, ha, rfl⟩
      · intro hk
        obtain ⟨b, hb, rfl⟩ := List.mem_map.mp hk
        exact hg b hb
    · rw [List.map_cons, List.flatten_cons, List.filter_append,
        List.filter_eq_self.mpr fun b hb => decide_eq_true (hg b hb),
        List.filter_eq_nil_iff.mpr fun b hb => by simpa using (hlater b hb).ne', List.append_nil]
      refine congrArg (g :: ·) ?_
      conv_lhs => rw [hgs]
      refine List.map_congr_left fun k hk => ?_
      rw [List.filter_append, List.filter_eq_nil_iff (l := g) |>.mpr fun b hb => by
        simpa [hg b hb] using (hks k hk).ne, List.nil_append]

/-- Lists that follow each other with different keys have increasing keys, if all elements are
sorted. -/
theorem pairwise_lt_of_chain {gs : List (List α)} (hne : ∀ g ∈ gs, g ≠ [])
    (hkey : ∀ g ∈ gs, ∀ a ∈ g, ∀ b ∈ g, key a = key b)
    (hle : gs.Pairwise fun g g' => ∀ a ∈ g, ∀ b ∈ g', key a ≤ key b)
    (hchain : gs.IsChain fun g g' => ∃ a ∈ g, ∃ b ∈ g', key a ≠ key b) :
    gs.Pairwise fun g g' => ∀ a ∈ g, ∀ b ∈ g', key a < key b := by
  induction gs with
  | nil => exact List.Pairwise.nil
  | cons g gs ih =>
    obtain ⟨hfirst, hrest⟩ := List.pairwise_cons.mp hle
    have hlater := ih (fun g' hg' => hne g' (List.mem_cons_of_mem _ hg'))
      (fun g' hg' => hkey g' (List.mem_cons_of_mem _ hg')) hrest hchain.of_cons
    refine List.pairwise_cons.mpr ⟨?_, hlater⟩
    cases gs with
    | nil => exact fun g' hg' => absurd hg' List.not_mem_nil
    | cons g₁ gs =>
      obtain ⟨c, hc, d, hd, hcd⟩ := (List.isChain_cons_cons.mp hchain).1
      have hnext : ∀ a ∈ g, ∀ b ∈ g₁, key a < key b := by
        intro a ha b hb
        refine (hfirst g₁ List.mem_cons_self a ha b hb).lt_of_ne fun heq => hcd ?_
        rw [hkey g List.mem_cons_self c hc a ha, heq,
          hkey g₁ (List.mem_cons_of_mem _ List.mem_cons_self) b hb d hd]
      intro g' hg' a ha b hb
      rcases List.mem_cons.mp hg' with rfl | hg'
      · exact hnext a ha b hb
      · exact (hnext a ha d hd).trans (List.rel_of_pairwise_cons hlater hg' d hd b hb)

/-- **Groups of a sorted list.** The runs of one key are the elements of that key. -/
theorem exists_keys_splitBy {l : List α} (hl : Sorted key l) :
    ∃ ks : List K, ks.Nodup ∧ (∀ k, k ∈ ks ↔ k ∈ l.map key) ∧
      (l.splitBy fun a b => key a == key b) = ks.map fun k => l.filter fun a => key a = k := by
  have hflat := List.flatten_splitBy (fun a b => key a == key b) l
  have hne : ∀ g ∈ l.splitBy fun a b => key a == key b, g ≠ [] :=
    fun g hg => List.ne_nil_of_mem_splitBy hg
  have hkey : ∀ g ∈ l.splitBy fun a b => key a == key b, ∀ a ∈ g, ∀ b ∈ g, key a = key b := by
    intro g hg
    have hsame : g.IsChain fun a b => key a = key b :=
      (List.isChain_of_mem_splitBy hg).imp fun _ _ h => beq_iff_eq.mp h
    have : IsTrans α fun a b => key a = key b := ⟨fun _ _ _ => Eq.trans⟩
    have : Std.Symm fun a b : α => key a = key b := ⟨fun _ _ => Eq.symm⟩
    intro a ha b hb
    exact List.Pairwise.forall_of_forall (R := fun a b => key a = key b) (fun _ _ => rfl)
      (List.isChain_iff_pairwise.mp hsame) ha hb
  have hle := hl
  rw [← hflat, Sorted, List.pairwise_flatten] at hle
  have hchain : (l.splitBy fun a b => key a == key b).IsChain
      fun g g' => ∃ a ∈ g, ∃ b ∈ g', key a ≠ key b := by
    refine (List.isChain_getLast_head_splitBy _ l).imp fun g g' h => ?_
    obtain ⟨hg, hg', hne⟩ := h
    exact ⟨_, List.getLast_mem hg, _, List.head_mem hg', beq_eq_false_iff_ne.mp hne⟩
  obtain ⟨ks, hnodup, hmem, hgs⟩ :=
    exists_keys_of_groups hne hkey (pairwise_lt_of_chain hne hkey hle.2 hchain)
  rw [hflat] at hmem hgs
  exact ⟨ks, hnodup, hmem, hgs⟩

end Groups

/-! ### Sorting functions -/

section Sorters

variable {K : Type*} [LinearOrder K] (key : α → K)

/-- A sorting function of which only the result is known, and not in which order elements of one key
come. -/
structure Sorter where
  sort : List α → List α
  perm : ∀ l, (sort l).Perm l
  sorted : ∀ l, Sorted key (sort l)

/-- There are sorting functions. -/
def insertionSorter : Sorter key where
  sort := List.insertionSort fun a b => key a ≤ key b
  perm := List.perm_insertionSort _
  sorted := fun l => by
    have : IsTrans α fun a b => key a ≤ key b := ⟨fun _ _ _ => le_trans⟩
    have : Std.Total fun a b : α => key a ≤ key b := ⟨fun a b => le_total _ _⟩
    exact List.pairwise_insertionSort _ l

end Sorters

end StableSort
