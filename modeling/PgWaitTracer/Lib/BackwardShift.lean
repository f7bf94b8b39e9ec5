import PgWaitTracer.Lib.LinearProbe

/-!
# Deletion with backward shift

A row is removed from a table with linear probing without a mark: the rows behind it move into the
hole that it leaves, one after the other, as long as their probe sequence passes the hole. On a
table with no vacant slot the search for rows to move ends after one lap.

The probe sequences of a table can be laid out on a line: there is a slot behind which none of them
goes on. This is a vacant slot, or the last one that became occupied.

## Main definitions

* `LinearProbe.rank`: the place of a slot on the line that begins behind slot `q`.
* `LinearProbe.Chained`: every row is reached from its home over occupied slots, on such a line.
* `LinearProbe.shiftBack`, `LinearProbe.eraseSlot`: the deletion.
* `LinearProbe.Mended`: a table of different keys that is chained.

## Main results

* `LinearProbe.Chained.probed`: the rows of a chained table are found from their homes.
* `LinearProbe.Chained.eraseSlot`: a table stays chained when a slot is erased, and the other rows
  are still there.
* `LinearProbe.Mended.set`, `LinearProbe.Mended.eraseSlot`: a table of different keys stays one when
  a row is written where it is probed to and when a slot is erased.
* `LinearProbe.Mended.lookup_eraseSlot`: an erased slot leaves the finite map without its key.
-/

namespace LinearProbe

variable {R : Type*}

/-! ### Slots on a line -/

/-- The place of slot `x` of a table of `n` slots on the line that begins behind slot `q`. -/
def rank (n q x : ℕ) : ℕ := if q < x then x - (q + 1) else x + n - (q + 1)

variable {n q x y i : ℕ}

theorem rank_lt (hq : q < n) (hx : x < n) : rank n q x < n := by
  rw [rank]
  split_ifs <;> omega

theorem rank_self (hq : q < n) : rank n q q = n - 1 := by
  rw [rank, if_neg (Nat.lt_irrefl q)]
  omega

theorem rank_injOn (hq : q < n) (hx : x < n) (hy : y < n) (h : rank n q x = rank n q y) :
    x = y := by
  rw [rank, rank] at h
  split_ifs at h <;> omega

theorem rank_succ_mod (hq : q < n) (hi : i < n) :
    rank n q ((i + 1) % n) = if rank n q i + 1 = n then 0 else rank n q i + 1 := by
  rcases Nat.lt_or_eq_of_le (Nat.succ_le_of_lt hi) with hlt | heq
  · rw [Nat.mod_eq_of_lt hlt, rank, rank]
    split_ifs <;> omega
  · rw [show i + 1 = n from heq, Nat.mod_self, rank, rank]
    split_ifs <;> omega

theorem rank_add_mod (hq : q < n) (hx : x < n) {d : ℕ} (h : rank n q x + d < n) :
    rank n q ((x + d) % n) = rank n q x + d := by
  induction d with
  | zero => rw [Nat.add_zero, Nat.add_zero, Nat.mod_eq_of_lt hx]
  | succ d ih =>
    have ih := ih (by omega)
    have hlt : (x + d) % n < n := Nat.mod_lt _ (Nat.zero_lt_of_lt hx)
    have hstep := rank_succ_mod hq hlt
    rw [ih, if_neg (by omega), Nat.mod_add_mod] at hstep
    rw [← Nat.add_assoc, hstep, Nat.add_assoc]

/-! ### Chained tables -/

/-- Every row is reached from its home over occupied slots, on the line behind slot `q`. -/
def Chained (vacant : R → Bool) (home : R → ℕ) (n q : ℕ) (t : List R) : Prop :=
  ∀ j r, t[j]? = some r → vacant r = false →
    rank n q (home r) ≤ rank n q j ∧
      ∀ x < n, rank n q (home r) ≤ rank n q x → rank n q x < rank n q j →
        ∃ d, t[x]? = some d ∧ vacant d = false

/-- The same, but the rows behind place `k` may be reached over one hole. -/
def ChainedOver (vacant : R → Bool) (home : R → ℕ) (n q hole k : ℕ) (t : List R) : Prop :=
  ∀ j r, t[j]? = some r → vacant r = false →
    rank n q (home r) ≤ rank n q j ∧
      ∀ x < n, rank n q (home r) ≤ rank n q x → rank n q x < rank n q j →
        (∃ d, t[x]? = some d ∧ vacant d = false) ∨ x = hole ∧ k < rank n q j

/-- The home is cyclically behind the hole and not behind slot `i`. -/
def between (hole home i : ℕ) : Bool :=
  if hole ≤ i then hole < home && home ≤ i else hole < home || home ≤ i

theorem between_iff {hole home : ℕ} (hq : q < n) (hhole : hole < n) (hhome : home < n)
    (hi : i < n) (hle : rank n q home ≤ rank n q i) :
    between hole home i = true ↔
      rank n q i < rank n q hole ∨ rank n q hole < rank n q home := by
  rw [between]
  rw [rank, rank] at hle
  rw [rank, rank, rank]
  by_cases hhi : hole ≤ i
  · rw [if_pos hhi, Bool.and_eq_true, decide_eq_true_eq, decide_eq_true_eq]
    split_ifs at hle ⊢ <;> omega
  · rw [if_neg hhi, Bool.or_eq_true, decide_eq_true_eq, decide_eq_true_eq]
    split_ifs at hle ⊢ <;> omega

/-! ### The deletion -/

/-- The lap behind a hole, for at most `fuel` slots. A row moves into the hole unless its home is
behind it. -/
def shiftBack (vacant : R → Bool) (home : R → ℕ) : ℕ → List R → ℕ → ℕ → List R × ℕ
  | 0, t, hole, _ => (t, hole)
  | fuel + 1, t, hole, i =>
    match t[(i + 1) % t.length]? with
    | none => (t, hole)
    | some c =>
      if vacant c then (t, hole)
      else if between hole (home c) ((i + 1) % t.length) then
        shiftBack vacant home fuel t hole ((i + 1) % t.length)
      else
        shiftBack vacant home fuel (t.set hole c) ((i + 1) % t.length) ((i + 1) % t.length)

/-- A slot is erased: the rows behind it are moved up, and the last hole is blank. -/
def eraseSlot (vacant : R → Bool) (home : R → ℕ) (blank : R) (t : List R) (s : ℕ) : List R :=
  let r := shiftBack vacant home (t.length - 1) t s s
  r.1.set r.2 blank

section Deletion

variable {vacant : R → Bool} {home : R → ℕ} {blank : R} {t : List R} {hole k fuel : ℕ}

theorem ChainedOver.chained_of_last (h : ChainedOver vacant home n q hole k t) (hn : t.length = n)
    (hq : q < n) (hk : n - 1 ≤ k) : Chained vacant home n q t := fun j r hj hocc => by
  obtain ⟨hle, hchain⟩ := h j r hj hocc
  have hrank := rank_lt hq (hn ▸ (List.getElem?_eq_some_iff.1 hj).1)
  exact ⟨hle, fun x hx hxl hxj => (hchain x hx hxl hxj).resolve_right fun hx => by omega⟩

theorem ChainedOver.chained_of_vacant (h : ChainedOver vacant home n q hole k t)
    (hn : t.length = n) (hq : q < n) (hi : i < n) (hrank : rank n q i = k + 1)
    (hhole : rank n q hole ≤ k) {d : R} (hd : t[i]? = some d) (hvac : vacant d = true) :
    Chained vacant home n q t := fun j r hj hocc => by
  obtain ⟨hle, hchain⟩ := h j r hj hocc
  refine ⟨hle, fun x hx hxl hxj => (hchain x hx hxl hxj).resolve_right ?_⟩
  rintro ⟨rfl, hkj⟩
  have hj' : j < n := hn ▸ (List.getElem?_eq_some_iff.1 hj).1
  have hij : i ≠ j := by
    rintro rfl
    rw [hd] at hj
    rw [Option.some.inj hj, hocc] at hvac
    exact Bool.false_ne_true hvac
  have hlt : rank n q i < rank n q j :=
    Nat.lt_of_le_of_ne (by omega) fun heq => hij (rank_injOn hq hi hj' heq)
  rcases hchain i hi (by omega) hlt with ⟨d', hd', hocc'⟩ | ⟨rfl, -⟩
  · rw [hd] at hd'
    rw [Option.some.inj hd', hocc'] at hvac
    exact Bool.false_ne_true hvac
  · omega

theorem ChainedOver.keep (h : ChainedOver vacant home n q hole k t) (hn : t.length = n)
    (hq : q < n) (hi : i < n) (hrank : rank n q i = k + 1) {c : R} (hc : t[i]? = some c)
    (hhome : rank n q hole < rank n q (home c)) :
    ChainedOver vacant home n q hole (k + 1) t := fun j r hj hocc => by
  obtain ⟨hle, hchain⟩ := h j r hj hocc
  refine ⟨hle, fun x hx hxl hxj => (hchain x hx hxl hxj).imp_right ?_⟩
  rintro ⟨rfl, hkj⟩
  have hj' : j < n := hn ▸ (List.getElem?_eq_some_iff.1 hj).1
  refine ⟨rfl, Nat.lt_of_le_of_ne hkj fun heq => ?_⟩
  obtain rfl := rank_injOn hq hi hj' (hrank.trans heq)
  rw [hc] at hj
  rw [Option.some.inj hj] at hhome
  omega

/-- A row that is reached over the hole moves into it. -/
theorem ChainedOver.move (h : ChainedOver vacant home n q hole k t) (hn : t.length = n)
    (hi : i < n) (hhole : hole < n) (hrank : rank n q i = k + 1)
    (hle : rank n q hole ≤ k) {b c : R} (hb : t[hole]? = some b) (hvac : vacant b = true)
    (hc : t[i]? = some c) (hocc : vacant c = false)
    (hhome : rank n q (home c) ≤ rank n q hole) :
    ChainedOver vacant home n q i (k + 1) ((t.set hole c).set i b) := by
  have hne : i ≠ hole := fun heq => by
    rw [heq] at hrank
    omega
  have hother : ∀ x, x ≠ i → x ≠ hole → ((t.set hole c).set i b)[x]? = t[x]? := fun x hxi hxh => by
    rw [List.getElem?_set_ne hxi.symm, List.getElem?_set_ne hxh.symm]
  have hmoved : ((t.set hole c).set i b)[hole]? = some c := by
    rw [List.getElem?_set_ne hne, List.getElem?_set_self (hn.symm ▸ hhole)]
  intro j r hj hoccj
  by_cases hji : j = i
  · rw [hji, List.getElem?_set_self (by rw [List.length_set, hn]; exact hi)] at hj
    rw [← Option.some.inj hj, hvac] at hoccj
    exact absurd hoccj.symm Bool.false_ne_true
  by_cases hjh : j = hole
  · subst hjh
    rw [hmoved] at hj
    rw [← Option.some.inj hj]
    refine ⟨hhome, fun x hx hxl hxj => Or.inl ?_⟩
    have hxi : x ≠ i := fun heq => by rw [heq] at hxj; omega
    have hxh : x ≠ j := fun heq => by rw [heq] at hxj; omega
    rw [hother x hxi hxh]
    exact ((h i c hc hocc).2 x hx hxl (by omega)).resolve_right fun hx => hxh hx.1
  · rw [hother j hji hjh] at hj
    obtain ⟨hhle, hchain⟩ := h j r hj hoccj
    refine ⟨hhle, fun x hx hxl hxj => ?_⟩
    by_cases hxi : x = i
    · exact Or.inr ⟨hxi, by rw [← hrank, ← hxi]; exact hxj⟩
    by_cases hxh : x = hole
    · exact Or.inl ⟨c, hxh ▸ hmoved, hocc⟩
    · rw [hother x hxi hxh]
      exact Or.inl ((hchain x hx hxl hxj).resolve_right fun hx => hxh hx.1)

theorem perm_move {b c : R} (hb : t[hole]? = some b) (hc : t[i]? = some c) :
    ((t.set hole c).set i b).Perm t := by
  obtain ⟨hhole, rfl⟩ := List.getElem?_eq_some_iff.1 hb
  obtain ⟨hi, rfl⟩ := List.getElem?_eq_some_iff.1 hc
  exact List.set_set_perm hhole hi

/-- Behind the end of the line nothing moves: the rows there are not before their homes, and the
hole is behind them. -/
theorem shiftBack_wrapped (hhome : ∀ r, home r < n) (hn : t.length = n) (hq : q < n)
    (hhole : hole < n) (hi : i < n) (hchain : Chained vacant home n q (t.set hole blank))
    (hfuel : rank n q ((i + 1) % n) + fuel ≤ rank n q hole) :
    shiftBack vacant home fuel t hole i = (t, hole) := by
  induction fuel generalizing i with
  | zero => rfl
  | succ fuel ih =>
    have hlt : (i + 1) % n < n := Nat.mod_lt _ (Nat.zero_lt_of_lt hi)
    have hne : hole ≠ (i + 1) % n := fun h => by
      rw [← h] at hfuel
      omega
    rw [shiftBack, hn]
    cases hc : t[(i + 1) % n]? with
    | none => rfl
    | some c =>
      dsimp only
      by_cases hvac : vacant c = true
      · rw [if_pos hvac]
      · have hle := (hchain _ c (by rw [List.getElem?_set_ne hne, hc])
          (Bool.eq_false_iff.2 hvac)).1
        have hbetween := (between_iff hq hhole (hhome c) hlt hle).2 (Or.inl (by omega))
        rw [if_neg hvac, if_pos hbetween]
        refine ih hlt ?_
        have hrank := rank_succ_mod hq hlt
        have := rank_lt hq hhole
        rw [hrank]
        split_ifs <;> omega

/-- **The lap.** It leaves the rows of the table with the hole blank, in another order, and at its
end every row is reached from its home. -/
theorem shiftBack_spec (hhome : ∀ r, home r < n) (hn : t.length = n) (hq : q < n) (hhole : hole < n)
    (hi : i < n) (hblank : vacant blank = true) (hle : rank n q hole ≤ rank n q i)
    (hlap : n - 1 ≤ fuel + rank n q i) (hfuel : fuel + rank n q i ≤ n - 1 + rank n q hole)
    (hchain : ChainedOver vacant home n q hole (rank n q i) (t.set hole blank)) :
    let r := shiftBack vacant home fuel t hole i
    Chained vacant home n q (r.1.set r.2 blank) ∧ (r.1.set r.2 blank).Perm (t.set hole blank) := by
  have hlen (t : List R) (hole : ℕ) (hn : t.length = n) : (t.set hole blank).length = n :=
    (List.length_set ..).trans hn
  induction fuel generalizing t hole i with
  | zero => exact ⟨hchain.chained_of_last (hlen t hole hn) hq (by omega), List.Perm.refl _⟩
  | succ fuel ih =>
    by_cases hlast : rank n q i + 1 = n
    · have hdone := hchain.chained_of_last (hlen t hole hn) hq (by omega)
      have hzero : rank n q ((i + 1) % n) = 0 := by rw [rank_succ_mod hq hi, if_pos hlast]
      rw [shiftBack_wrapped hhome hn hq hhole hi hdone (by omega)]
      exact ⟨hdone, List.Perm.refl _⟩
    have hlt : (i + 1) % n < n := Nat.mod_lt _ (Nat.zero_lt_of_lt hi)
    have hrank : rank n q ((i + 1) % n) = rank n q i + 1 := by
      rw [rank_succ_mod hq hi, if_neg hlast]
    rw [shiftBack, hn]
    generalize (i + 1) % n = next at hlt hrank ⊢
    have hne : hole ≠ next := fun h => by
      rw [h, hrank] at hle
      omega
    have hc : t[next]? = some t[next] := List.getElem?_eq_getElem (hn.symm ▸ hlt)
    generalize t[next] = c at hc
    have hc' : (t.set hole blank)[next]? = some c := by rw [List.getElem?_set_ne hne, hc]
    rw [hc]
    dsimp only
    by_cases hvac : vacant c = true
    · rw [if_pos hvac]
      exact ⟨hchain.chained_of_vacant (hlen t hole hn) hq hlt hrank hle hc' hvac,
        List.Perm.refl _⟩
    rw [if_neg hvac]
    have hocc : vacant c = false := Bool.eq_false_iff.2 hvac
    have hbetween := between_iff hq hhole (hhome c) hlt (hchain next c hc' hocc).1
    split_ifs with hmove
    · have hhomec : rank n q hole < rank n q (home c) :=
        (hbetween.1 hmove).resolve_left (by omega)
      refine ih hn hhole hlt (by omega) (by omega) (by omega) ?_
      rw [hrank]
      exact hchain.keep (hlen t hole hn) hq hlt hrank hc' hhomec
    · have hhomec : rank n q (home c) ≤ rank n q hole :=
        Nat.le_of_not_lt fun hlt => hmove (hbetween.2 (Or.inr hlt))
      have hb : (t.set hole blank)[hole]? = some blank :=
        List.getElem?_set_self (hn.symm ▸ hhole)
      have hset : (t.set hole c).set next blank =
          ((t.set hole blank).set hole c).set next blank := by rw [List.set_set]
      have hmoved := hchain.move (hlen t hole hn) hlt hhole hrank hle hb hblank hc' hocc hhomec
      have hperm := perm_move hb hc'
      rw [← hset] at hmoved hperm
      obtain ⟨hdone, hrest⟩ := ih ((List.length_set ..).trans hn) hlt hlt (Nat.le_refl _) (by omega)
        (by omega) (hrank ▸ hmoved)
      exact ⟨hdone, hrest.trans hperm⟩

/-- **A slot is erased.** The table stays chained, and the other rows are still there. -/
theorem Chained.eraseSlot (h : Chained vacant home n q t) (hhome : ∀ r, home r < n)
    (hn : t.length = n) (hq : q < n) (hhole : hole < n) (hblank : vacant blank = true) :
    Chained vacant home n q (eraseSlot vacant home blank t hole) ∧
      (eraseSlot vacant home blank t hole).Perm (t.set hole blank) := by
  have hrank := rank_lt hq hhole
  rw [LinearProbe.eraseSlot, hn]
  refine shiftBack_spec hhome hn hq hhole hhole hblank (Nat.le_refl _) (by omega) (by omega) ?_
  intro j r hj hocc
  have hjh : hole ≠ j := fun heq => by
    rw [← heq, List.getElem?_set_self (hn.symm ▸ hhole)] at hj
    rw [← Option.some.inj hj, hblank] at hocc
    exact Bool.false_ne_true hocc.symm
  rw [List.getElem?_set_ne hjh] at hj
  obtain ⟨hle, hchain⟩ := h j r hj hocc
  refine ⟨hle, fun x hx hxl hxj => ?_⟩
  by_cases hxh : x = hole
  · subst hxh
    exact Or.inr ⟨rfl, hxj⟩
  · rw [List.getElem?_set_ne (Ne.symm hxh)]
    exact Or.inl (hchain x hx hxl hxj)

end Deletion

section Lookup

variable {K : Type*} [DecidableEq K] {key : R → K} {vacant : R → Bool} {hash : K → ℕ}
  {t : List R} {r : R} {j : ℕ}

omit [DecidableEq K] in
theorem eq_of_nodup_keys (hnodup : ((occupied vacant t).map key).Nodup) {r' : R}
    (hi : t[i]? = some r) (hj : t[j]? = some r') (hr : vacant r = false) (hr' : vacant r' = false)
    (hkey : key r = key r') : i = j := by
  rw [List.Nodup, List.pairwise_map, occupied, List.pairwise_filter,
    List.pairwise_iff_getElem] at hnodup
  obtain ⟨hilt, rfl⟩ := List.getElem?_eq_some_iff.1 hi
  obtain ⟨hjlt, rfl⟩ := List.getElem?_eq_some_iff.1 hj
  rcases Nat.lt_trichotomy i j with hlt | heq | hlt
  · exact absurd hkey (hnodup i j hilt hjlt hlt (by simp [hr]) (by simp [hr']))
  · exact heq
  · exact absurd hkey.symm (hnodup j i hjlt hilt hlt (by simp [hr']) (by simp [hr]))

/-- **The rows of a chained table are found**, if they have different keys. -/
theorem Chained.probed (h : Chained vacant (fun r => hash (key r) % n) n q t) (hn : t.length = n)
    (hq : q < n) (hnodup : ((occupied vacant t).map key).Nodup) : Probed key vacant hash t := by
  intro j r hj hocc
  obtain ⟨hle, hchain⟩ := h j r hj hocc
  dsimp only at hle hchain
  have hjn : j < n := hn ▸ (List.getElem?_eq_some_iff.1 hj).1
  have hhome : hash (key r) % n < n := Nat.mod_lt _ (Nat.zero_lt_of_lt hq)
  have hrank := rank_lt hq hjn
  have hstep {d : ℕ} (hd : rank n q (hash (key r) % n) + d < n) :
      rank n q ((hash (key r) + d) % n) = rank n q (hash (key r) % n) + d := by
    rw [← rank_add_mod hq hhome hd, Nat.mod_add_mod]
  rw [probe_eq_some_iff, hn]
  refine ⟨rank n q j - rank n q (hash (key r) % n), by omega, ?_, ?_, fun e he => ?_⟩
  · refine rank_injOn hq (Nat.mod_lt _ (Nat.zero_lt_of_lt hq)) hjn ?_
    rw [hstep (by omega)]
    omega
  · rw [hj]
    exact stops_of_key rfl
  · have hx : (hash (key r) + e) % n < n := Nat.mod_lt _ (Nat.zero_lt_of_lt hq)
    have hxr := hstep (d := e) (by omega)
    obtain ⟨d, hd, hdocc⟩ := hchain _ hx (by omega) (by omega)
    rw [hd, Option.any_some, stops_eq_false_iff]
    refine ⟨hdocc, fun hkey => ?_⟩
    -- a second row with the key
    have heq := eq_of_nodup_keys hnodup hd hj hdocc hocc hkey
    rw [heq] at hxr
    omega

/-- A vacant slot is an end of the line. -/
theorem Chained.of_vacant {home : R → ℕ} (h : Chained vacant home n q t)
    (hhome : ∀ r, home r < n) (hn : t.length = n) (hq : q < n) (hv : t[j]? = some r)
    (hvac : vacant r = true) : Chained vacant home n j t := by
  intro x r' hx hocc
  obtain ⟨hle, hchain⟩ := h x r' hx hocc
  have hjn : j < n := hn ▸ (List.getElem?_eq_some_iff.1 hv).1
  have hxn : x < n := hn ▸ (List.getElem?_eq_some_iff.1 hx).1
  have hne : x ≠ j := by
    rintro rfl
    rw [hv] at hx
    rw [← Option.some.inj hx, hvac] at hocc
    exact Bool.false_ne_true hocc.symm
  have hout : rank n q j < rank n q (home r') ∨ rank n q x < rank n q j := by
    by_contra hin
    rw [not_or] at hin
    have hlt : rank n q j < rank n q x := Nat.lt_of_le_of_ne (by omega) fun heq =>
      hne (rank_injOn hq hxn hjn heq.symm)
    obtain ⟨d, hd, hdocc⟩ := hchain j hjn (by omega) hlt
    rw [hv] at hd
    rw [← Option.some.inj hd, hvac] at hdocc
    exact Bool.false_ne_true hdocc.symm
  have hh := hhome r'
  have hrot (y : ℕ) (hy : y < n) : rank n j y =
      if rank n q j < rank n q y then rank n q y - (rank n q j + 1)
      else rank n q y + n - (rank n q j + 1) := by
    rw [rank, rank, rank]
    split_ifs <;> omega
  have hjr := rank_lt hq hjn
  have hxr := rank_lt hq hxn
  rw [hrot _ hh, hrot x hxn]
  refine ⟨by split_ifs <;> omega, fun y hy hyl hyx => hchain y hy ?_ ?_⟩
  all_goals
    have hyr := rank_lt hq hy
    rw [hrot y hy] at hyl hyx
    split_ifs at hyl hyx <;> omega

/-- Writing a vacant slot where the key of the row is probed to makes it the end of the line. -/
theorem Chained.set_vacant (h : Chained vacant (fun r => hash (key r) % n) n q t)
    (hn : t.length = n) (hq : q < n) {r₀ : R}
    (hprobe : probe (stops key vacant (key r)) t (hash (key r)) = some j) (hv : t[j]? = some r₀)
    (hvac : vacant r₀ = true) (hocc : vacant r = false) :
    Chained vacant (fun r => hash (key r) % n) n j (t.set j r) := by
  have hmod (m : ℕ) : m % n < n := Nat.mod_lt _ (Nat.zero_lt_of_lt hq)
  have hjn : j < n := hn ▸ (List.getElem?_eq_some_iff.1 hv).1
  have hself : (t.set j r)[j]? = some r := List.getElem?_set_self (hn.symm ▸ hjn)
  have hkept (x : ℕ) (hx : ∃ d, t[x]? = some d ∧ vacant d = false) :
      ∃ d, (t.set j r)[x]? = some d ∧ vacant d = false := by
    by_cases hxj : j = x
    · exact ⟨r, hxj ▸ hself, hocc⟩
    · rwa [List.getElem?_set_ne hxj]
  have hline := h.of_vacant (fun _ => hmod _) hn hq hv hvac
  intro x r' hx hocc'
  by_cases hxj : j = x
  · subst hxj
    rw [hself] at hx
    obtain rfl := Option.some.inj hx
    have hlast := rank_self hjn
    have hhome := rank_lt hjn (hmod (hash (key r)))
    have hstep {d : ℕ} (hd : rank n j (hash (key r) % n) + d < n) :
        rank n j ((hash (key r) + d) % n) = rank n j (hash (key r) % n) + d := by
      rw [← rank_add_mod hjn (hmod _) hd, Nat.mod_add_mod]
    refine ⟨by dsimp only; omega, fun y hy hyl hyj => hkept y ?_⟩
    dsimp only at hyl
    obtain ⟨d, hd, hdj, -, hbefore⟩ := probe_eq_some_iff.1 hprobe
    rw [hn] at hd hdj hbefore
    have hyd : rank n j y - rank n j (hash (key r) % n) < d := by
      by_contra hge
      have hrank := hstep (d := d) (by omega)
      rw [hdj] at hrank
      omega
    have hyx : (hash (key r) + (rank n j y - rank n j (hash (key r) % n))) % n = y := by
      refine rank_injOn hjn (hmod _) hy ?_
      rw [hstep (by omega)]
      omega
    have hno := hbefore _ hyd
    rw [hyx, List.getElem?_eq_getElem (hn.symm ▸ hy), Option.any_some] at hno
    exact ⟨_, List.getElem?_eq_getElem (hn.symm ▸ hy), (stops_eq_false_iff.1 hno).1⟩
  · rw [List.getElem?_set_ne hxj] at hx
    obtain ⟨hle, hchain⟩ := hline x r' hx hocc'
    exact ⟨hle, fun y hy hyl hyx => hkept y (hchain y hy hyl hyx)⟩

omit [DecidableEq K] in
theorem Chained.set_same (h : Chained vacant (fun r => hash (key r) % n) n q t) {r₀ : R}
    (hv : t[j]? = some r₀) (hocc₀ : vacant r₀ = false) (hkey : key r = key r₀)
    (hocc : vacant r = false) :
    Chained vacant (fun r => hash (key r) % n) n q (t.set j r) := by
  have hself : (t.set j r)[j]? = some r :=
    List.getElem?_set_self (List.getElem?_eq_some_iff.1 hv).1
  have hkept (x : ℕ) (hx : ∃ d, t[x]? = some d ∧ vacant d = false) :
      ∃ d, (t.set j r)[x]? = some d ∧ vacant d = false := by
    by_cases hxj : j = x
    · exact ⟨r, hxj ▸ hself, hocc⟩
    · rwa [List.getElem?_set_ne hxj]
  intro x r' hx hocc'
  by_cases hxj : j = x
  · subst hxj
    rw [hself] at hx
    obtain rfl := Option.some.inj hx
    obtain ⟨hle, hchain⟩ := h j r₀ hv hocc₀
    dsimp only at hle hchain ⊢
    rw [hkey]
    exact ⟨hle, fun y hy hyl hyx => hkept y (hchain y hy hyl hyx)⟩
  · rw [List.getElem?_set_ne hxj] at hx
    obtain ⟨hle, hchain⟩ := h x r' hx hocc'
    exact ⟨hle, fun y hy hyl hyx => hkept y (hchain y hy hyl hyx)⟩

end Lookup

/-! ### Tables with deletion -/

section Tables

variable {K : Type*} [DecidableEq K] {key : R → K} {vacant : R → Bool} {hash : K → ℕ}
  {t : List R} {r : R} {j : ℕ}

/-- A table of `n` slots whose rows have different keys and are reached on some line. -/
structure Mended (key : R → K) (vacant : R → Bool) (hash : K → ℕ) (n : ℕ) (t : List R) : Prop where
  length_eq : t.length = n
  nodup : ((occupied vacant t).map key).Nodup
  line : ∃ q < n, Chained vacant (fun r => hash (key r) % n) n q t

namespace Mended

omit [DecidableEq K] in
theorem replicate {blank : R} (hblank : vacant blank = true) (hn : 0 < n) :
    Mended key vacant hash n (List.replicate n blank) := by
  refine ⟨List.length_replicate, by simp [hblank], 0, hn, fun j r hj hocc => ?_⟩
  rw [List.eq_of_mem_replicate (List.mem_of_getElem? hj), hblank] at hocc
  exact absurd hocc.symm Bool.false_ne_true

theorem probed (h : Mended key vacant hash n t) : Probed key vacant hash t := by
  obtain ⟨q, hq, hline⟩ := h.line
  exact hline.probed h.length_eq hq h.nodup

/-- **Writing the row of a key** where it is probed to. -/
theorem set (h : Mended key vacant hash n t)
    (hprobe : probe (stops key vacant (key r)) t (hash (key r)) = some j)
    (hocc : vacant r = false) : Mended key vacant hash n (t.set j r) := by
  refine ⟨(List.length_set ..).trans h.length_eq, (h.probed.set hprobe rfl hocc).nodup_keys, ?_⟩
  obtain ⟨q, hq, hline⟩ := h.line
  obtain ⟨r₀, hj, hstop⟩ := exists_of_probe hprobe
  rcases hvac : vacant r₀ with _ | _
  · rw [stops, hvac, Bool.false_or, decide_eq_true_eq] at hstop
    exact ⟨q, hq, hline.set_same hj hvac hstop.symm hocc⟩
  · have hjn : j < n := h.length_eq ▸ (List.getElem?_eq_some_iff.1 hj).1
    exact ⟨j, hjn, hline.set_vacant h.length_eq hq hprobe hj hvac hocc⟩

omit [DecidableEq K] in
theorem perm_eraseSlot (h : Mended key vacant hash n t) {blank : R} (hblank : vacant blank = true)
    (hj : t[j]? = some r) (hocc : vacant r = false) :
    (r :: occupied vacant (eraseSlot vacant (fun r => hash (key r) % n) blank t j)).Perm
      (occupied vacant t) := by
  obtain ⟨q, hq, hline⟩ := h.line
  have hjn : j < n := h.length_eq ▸ (List.getElem?_eq_some_iff.1 hj).1
  have herase := (hline.eraseSlot (fun _ => Nat.mod_lt _ (Nat.zero_lt_of_lt hq)) h.length_eq hq hjn
    hblank).2
  have hhole : (t.set j blank)[j]? = some blank :=
    List.getElem?_set_self (List.getElem?_eq_some_iff.1 hj).1
  have hback := perm_occupied_set hhole hblank hocc
  rw [List.set_set, set_of_getElem? hj] at hback
  exact ((herase.filter _).cons r).trans hback.symm

omit [DecidableEq K] in
/-- **Erasing a slot.** -/
theorem eraseSlot (h : Mended key vacant hash n t) {blank : R} (hblank : vacant blank = true)
    (hj : t[j]? = some r) (hocc : vacant r = false) :
    Mended key vacant hash n (eraseSlot vacant (fun r => hash (key r) % n) blank t j) := by
  obtain ⟨q, hq, hline⟩ := h.line
  have hjn : j < n := h.length_eq ▸ (List.getElem?_eq_some_iff.1 hj).1
  obtain ⟨hline', hperm⟩ := hline.eraseSlot (fun _ => Nat.mod_lt _ (Nat.zero_lt_of_lt hq))
    h.length_eq hq hjn hblank
  refine ⟨?_, ?_, q, hq, hline'⟩
  · rw [hperm.length_eq, List.length_set, h.length_eq]
  · have hnodup := ((h.perm_eraseSlot hblank hj hocc).map key).nodup_iff.2 h.nodup
    exact (List.nodup_cons.1 hnodup).2

theorem lookup_eraseSlot (h : Mended key vacant hash n t) {blank : R}
    (hblank : vacant blank = true) (hj : t[j]? = some r) (hocc : vacant r = false) :
    lookup key vacant (LinearProbe.eraseSlot vacant (fun r => hash (key r) % n) blank t j) =
      Function.update (lookup key vacant t) (key r) none := by
  have hperm := h.perm_eraseSlot hblank hj hocc
  have hnodup := ((hperm.map key).nodup_iff.2 h.nodup)
  obtain ⟨hnot, hrest⟩ := List.nodup_cons.1 hnodup
  funext k
  refine Option.ext fun r' => ?_
  rw [lookup, find?_eq_some_iff_of_nodup hrest]
  by_cases hk : k = key r
  · rw [hk, Function.update_self]
    refine ⟨fun hr' => absurd (List.mem_map.2 ⟨r', hr'.1, hr'.2⟩) hnot, by rintro ⟨⟩⟩
  · rw [Function.update_of_ne hk, lookup, find?_eq_some_iff_of_nodup h.nodup, ← hperm.mem_iff,
      List.mem_cons]
    refine and_congr_left fun hkey => (or_iff_right ?_).symm
    rintro rfl
    exact hk hkey.symm

end Mended

end Tables

end LinearProbe
