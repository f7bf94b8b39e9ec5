import Mathlib.Data.List.TakeWhile
import Mathlib.Order.Interval.Finset.Nat
import PgWaitTracer.Trace.ArchiveName

/-!
# CPU lists

The CPUs of a container's cpuset come as a list of numbers and ranges such as `0-3,8`, and their
number scales the saturation figures (`src/effective_cores.c`). The scanner asks for a digit where
an item of the list starts, but not behind a `-`, where `strtoull` skips blanks and takes a sign.

## Main results

* `parseCpuList_eq_some_iff`: what the scanner accepts and counts.
* `parseCpuList_exact_iff`: these are the kernel's lists, unless a blank or a sign behind a `-` is
  all that is wrong.
-/

namespace PgWaitTracer

/-! ### The grammar -/

/-- Digits, for a number that fits. -/
structure IsNumeral (s : List Char) (n : ℕ) : Prop where
  ne_nil : s ≠ []
  digits : ∀ c ∈ s, c.isDigit
  value : Nat.ofDigitChars 10 s 0 = n
  lt : n < 2 ^ 64

/-- What `strtoull` takes for a number: blanks and a sign may stand before it, and a minus sign
negates it modulo 2⁶⁴. -/
def IsSignedNumeral (s : List Char) (n : ℕ) : Prop :=
  ∃ blanks sign digits m, s = blanks ++ (Option.toList sign ++ digits) ∧
    (∀ c ∈ blanks, isSpaceChar c) ∧ (∀ c ∈ sign, c = '-' ∨ c = '+') ∧ IsNumeral digits m ∧
    n = if sign = some '-' then (2 ^ 64 - m) % 2 ^ 64 else m

/-- A number or a range, which ends in what `End` allows. -/
inductive IsCpuRange (End : List Char → ℕ → Prop) : List Char → ℕ × ℕ → Prop
  | number {s n} (h : IsNumeral s n) : IsCpuRange End s (n, n)
  | range {s t a b} (h : IsNumeral s a) (hend : End t b) (hle : a ≤ b) :
      IsCpuRange End (s ++ '-' :: t) (a, b)

/-- Numbers and ranges between commas. -/
inductive IsCpuList (End : List Char → ℕ → Prop) : List Char → List (ℕ × ℕ) → Prop
  | single {s r} (h : IsCpuRange End s r) : IsCpuList End s [r]
  | cons {s t r rs} (h : IsCpuRange End s r) (hs : IsCpuList End t rs) :
      IsCpuList End (s ++ ',' :: t) (r :: rs)

/-- The CPUs of a list of ranges. -/
def cpus (rs : List (ℕ × ℕ)) : Finset ℕ := rs.foldr (fun r s => Finset.Icc r.1 r.2 ∪ s) ∅

/-- A list between blanks, in strictly ascending order. -/
structure DenotesCpus (End : List Char → ℕ → Prop) (text : List Char) (rs : List (ℕ × ℕ)) :
    Prop where
  list : ∃ lead body trail, text = lead ++ (body ++ trail) ∧ (∀ c ∈ lead, isSpaceChar c) ∧
    (∀ c ∈ trail, isSpaceChar c) ∧ IsCpuList End body rs
  ascending : rs.Pairwise fun r s => r.2 < s.1
  card_lt : (cpus rs).card < 2 ^ 64

/-! ### The scanner -/

/-- `strtoull`. It fails if there are no digits, and with `errno` set if the number does not
fit. -/
def strtoull (p : List Char) : Option (ℕ × List Char) :=
  let p := p.dropWhile isSpaceChar
  let sign := p.head?.filter fun c => c = '-' ∨ c = '+'
  let p := p.drop sign.toList.length
  let digits := p.takeWhile Char.isDigit
  let n := Nat.ofDigitChars 10 digits 0
  if digits = [] ∨ 2 ^ 64 ≤ n then none
  else some (if sign = some '-' then (2 ^ 64 - n) % 2 ^ 64 else n, p.dropWhile Char.isDigit)

/-- One round of the scanner's loop up to the end of its item: a number, or a range if a `-`
follows. -/
def cpuRange (p : List Char) : Option ((ℕ × ℕ) × List Char) := do
  let (first, p) ← strtoull p
  if p.head? = some '-' then
    let (rangeEnd, p) ← strtoull p.tail
    if rangeEnd < first then none else some ((first, rangeEnd), p)
  else some ((first, first), p)

variable {p s t u : List Char} {n a b total c : ℕ} {rs : List (ℕ × ℕ)} {prev : Option ℕ}

theorem sign_append (f : Char → Bool) (q : List Char) :
    (q.head?.filter f).toList ++ q.drop (q.head?.filter f).toList.length = q := by
  cases q with
  | nil => rfl
  | cons c q =>
    rw [List.head?_cons, Option.filter]
    split_ifs
    · rfl
    · rfl

theorem exists_of_strtoull (h : strtoull p = some (n, t)) :
    ∃ u, p = u ++ t ∧ IsSignedNumeral u n := by
  rw [strtoull] at h
  generalize hq : p.dropWhile isSpaceChar = q at h
  have hsign := sign_append (fun c => c = '-' ∨ c = '+') q
  generalize hs : q.head?.filter (fun c => c = '-' ∨ c = '+') = sign at h hsign
  generalize q.drop sign.toList.length = ds at h hsign
  split_ifs at h with hno hneg
  all_goals
    rw [not_or, Nat.not_le] at hno
    obtain ⟨hn, rfl⟩ := Prod.mk.inj (Option.some.inj h)
    refine ⟨p.takeWhile isSpaceChar ++ (sign.toList ++ ds.takeWhile Char.isDigit), ?_, _, sign, _,
      _, rfl, fun c => List.mem_takeWhile_imp, fun c hc => ?_,
      ⟨hno.1, fun c => List.mem_takeWhile_imp, rfl, hno.2⟩, ?_⟩
    · rw [List.append_assoc, List.append_assoc, List.takeWhile_append_dropWhile, hsign, ← hq,
        List.takeWhile_append_dropWhile]
    · rw [← hs, Option.mem_def, Option.filter_eq_some_iff, decide_eq_true_eq] at hc
      exact hc.2
  · rw [if_pos hneg, hn]
  · rw [if_neg hneg, hn]

theorem isSpaceChar_of_isDigit {c : Char} (h : c.isDigit) : isSpaceChar c = false := by
  rw [Char.isDigit, Bool.and_eq_true, decide_eq_true_eq, decide_eq_true_eq] at h
  have h48 : 48 ≤ c.toNat := h.1
  simp only [isSpaceChar, Bool.or_eq_false_iff, Bool.and_eq_false_iff, decide_eq_false_iff_not]
  omega

theorem strtoull_append (h : IsSignedNumeral u n) (ht : ∀ c ∈ t.head?, ¬c.isDigit) :
    strtoull (u ++ t) = some (n, t) := by
  obtain ⟨blanks, sign, ds, m, rfl, hblanks, hsign, hnum, rfl⟩ := h
  obtain ⟨d, ds', rfl⟩ := List.exists_cons_of_ne_nil hnum.ne_nil
  have hd := hnum.digits d List.mem_cons_self
  have htake : (d :: ds' ++ t).takeWhile Char.isDigit = d :: ds' := by
    rw [List.takeWhile_append_of_pos hnum.digits]
    cases t with
    | nil => simp
    | cons c t => simp [ht c rfl]
  have hdrop : (d :: ds' ++ t).dropWhile Char.isDigit = t := by
    rw [List.dropWhile_append_of_pos hnum.digits]
    cases t with
    | nil => rfl
    | cons c t => simp [ht c rfl]
  have hblank : (blanks ++ (sign.toList ++ d :: ds') ++ t).dropWhile isSpaceChar =
      sign.toList ++ (d :: ds' ++ t) := by
    rw [List.append_assoc, List.append_assoc, List.dropWhile_append_of_pos hblanks]
    cases sign with
    | none => simp [isSpaceChar_of_isDigit hd]
    | some c =>
      rcases hsign c rfl with rfl | rfl
      · rfl
      · rfl
  have hhead : (sign.toList ++ (d :: ds' ++ t)).head?.filter (fun c => c = '-' ∨ c = '+') =
      sign := by
    cases sign with
    | none =>
      have hne : ¬(d = '-' ∨ d = '+') := by
        rintro (rfl | rfl)
        · cases hd
        · cases hd
      simpa using hne
    | some c => simpa using hsign c rfl
  rw [strtoull]
  rw [hblank, hhead, List.drop_left, htake, hdrop, hnum.value,
    if_neg (by simpa using hnum.lt)]

theorem IsNumeral.signed (h : IsNumeral s n) : IsSignedNumeral s n :=
  ⟨[], none, s, n, rfl, by simp, by simp, h, rfl⟩

theorem IsSignedNumeral.lt (h : IsSignedNumeral s n) : n < 2 ^ 64 := by
  obtain ⟨_, _, _, m, -, -, -, hnum, rfl⟩ := h
  split_ifs
  · exact Nat.mod_lt _ (by decide)
  · exact hnum.lt

theorem IsSignedNumeral.numeral (h : IsSignedNumeral s n) (hd : ∀ c ∈ s.head?, c.isDigit) :
    IsNumeral s n := by
  obtain ⟨blanks, sign, ds, m, rfl, hblanks, hsign, hnum, rfl⟩ := h
  cases blanks with
  | cons c blanks =>
    have hspace := isSpaceChar_of_isDigit (hd c rfl)
    rw [hblanks c List.mem_cons_self] at hspace
    cases hspace
  | nil =>
    cases sign with
    | none => exact hnum
    | some c =>
      have hc : c.isDigit := hd c rfl
      rcases hsign c rfl with rfl | rfl
      · cases hc
      · cases hc

theorem exists_of_cpuRange {r : ℕ × ℕ} (h : cpuRange p = some (r, t)) :
    ∃ u, p = u ++ t ∧ ((∀ c ∈ p.head?, c.isDigit) → IsCpuRange IsSignedNumeral u r) := by
  obtain ⟨⟨first, q⟩, hfirst, hrest⟩ := Option.bind_eq_some_iff.1 h
  obtain ⟨u, rfl, hu⟩ := exists_of_strtoull hfirst
  have hnum (hp : ∀ c ∈ (u ++ q).head?, c.isDigit) : IsNumeral u first :=
    hu.numeral fun c hc => hp c (by rw [List.head?_append, Option.mem_def.1 hc]; rfl)
  dsimp only at hrest
  split_ifs at hrest with hdash
  · obtain ⟨q, rfl⟩ := List.head?_eq_some_iff.1 hdash
    obtain ⟨⟨rangeEnd, t'⟩, hend, hrest⟩ := Option.bind_eq_some_iff.1 hrest
    dsimp only at hrest
    split_ifs at hrest with hle
    obtain ⟨rfl, rfl⟩ := Prod.mk.inj (Option.some.inj hrest)
    obtain ⟨v, hv, hend⟩ := exists_of_strtoull hend
    refine ⟨u ++ '-' :: v, ?_, fun hp => .range (hnum hp) hend (Nat.not_lt.1 hle)⟩
    rw [List.append_assoc, List.cons_append, ← hv]
    rfl
  · obtain ⟨rfl, rfl⟩ := Prod.mk.inj (Option.some.inj hrest)
    exact ⟨u, rfl, fun hp => .number (hnum hp)⟩

theorem cpuRange_append {r : ℕ × ℕ} (h : IsCpuRange IsSignedNumeral u r)
    (ht : ∀ c ∈ t.head?, ¬c.isDigit ∧ c ≠ '-') : cpuRange (u ++ t) = some (r, t) := by
  have hdigit : ∀ c ∈ t.head?, ¬c.isDigit := fun c hc => (ht c hc).1
  cases h with
  | number h =>
    have hdash : t.head? ≠ some '-' := fun heq => (ht '-' heq).2 rfl
    simp [cpuRange, strtoull_append h.signed hdigit, hdash]
  | @range s v a b h hend hle =>
    have hdash : ∀ c ∈ ('-' :: (v ++ t)).head?, ¬c.isDigit := by
      rintro c ⟨⟩
      decide
    rw [List.append_assoc, List.cons_append]
    simp [cpuRange, strtoull_append h.signed hdash, strtoull_append hend hdigit, Nat.not_lt.2 hle]

/-- The loop of `parse_cpu_list`, on what is left of the text. -/
def parseCpuListFrom (p : List Char) (total : ℕ) (previousEnd : Option ℕ) : Option ℕ :=
  match _h : cpuRange p with
  | none => none
  | some ((first, last), p') =>
    if previousEnd.any (first ≤ ·) then none
    else if 2 ^ 64 - 1 - total < (last - first + 1) % 2 ^ 64 then none
    else
      let total := total + (last - first + 1) % 2 ^ 64
      if p'.head? = some ',' then
        if p'.tail.head?.any Char.isDigit then parseCpuListFrom p'.tail total (some last) else none
      else if p'.dropWhile isSpaceChar ≠ [] ∨ total = 0 then none
      else some total
termination_by p.length
decreasing_by
  obtain ⟨u, rfl, -⟩ := exists_of_cpuRange _h
  obtain ⟨q, rfl⟩ := List.head?_eq_some_iff.1 ‹_›
  rw [List.length_append, List.tail_cons, List.length_cons]
  omega

/-- `parse_cpu_list`, with a `size_t` of 64 bits. -/
def parseCpuList (text : List Char) : Option ℕ :=
  let p := text.dropWhile isSpaceChar
  if p.head?.any Char.isDigit then parseCpuListFrom p 0 none else none

/-! ### What the scanner accepts -/

theorem parseCpuListFrom_of_cpuRange (h : cpuRange p = some ((a, b), t)) :
    parseCpuListFrom p total prev =
      if prev.any (a ≤ ·) then none
      else if 2 ^ 64 - 1 - total < (b - a + 1) % 2 ^ 64 then none
      else if t.head? = some ',' then
        if t.tail.head?.any Char.isDigit then
          parseCpuListFrom t.tail (total + (b - a + 1) % 2 ^ 64) (some b)
        else none
      else if t.dropWhile isSpaceChar ≠ [] ∨ total + (b - a + 1) % 2 ^ 64 = 0 then none
      else some (total + (b - a + 1) % 2 ^ 64) := by
  rw [parseCpuListFrom]
  split
  · rename_i hnone
    cases h.symm.trans hnone
  · rename_i hsome
    cases h.symm.trans hsome
    rfl

theorem mem_cpus : n ∈ cpus rs ↔ ∃ r ∈ rs, r.1 ≤ n ∧ n ≤ r.2 := by
  induction rs with
  | nil => simp [cpus]
  | cons r rs ih =>
    rw [cpus, List.foldr_cons, ← cpus, Finset.mem_union, Finset.mem_Icc, ih,
      List.exists_mem_cons_iff]

theorem card_cpus_cons {r : ℕ × ℕ} (h : ∀ s ∈ rs, r.2 < s.1) :
    (cpus (r :: rs)).card = r.2 + 1 - r.1 + (cpus rs).card := by
  rw [cpus, List.foldr_cons, ← cpus, Finset.card_union_of_disjoint, Nat.card_Icc]
  refine Finset.disjoint_left.2 fun n hn hn' => ?_
  obtain ⟨s, hs, hle, -⟩ := mem_cpus.1 hn'
  have hlt := h s hs
  have hle' := (Finset.mem_Icc.1 hn).2
  omega

theorem IsCpuRange.bounds {r : ℕ × ℕ} (h : IsCpuRange IsSignedNumeral s r) :
    r.1 ≤ r.2 ∧ r.2 < 2 ^ 64 := by
  cases h with
  | number h => exact ⟨Nat.le_refl _, h.lt⟩
  | range _ hend hle => exact ⟨hle, hend.lt⟩

theorem IsNumeral.exists_digit (h : IsNumeral s n) : ∃ d s', s = d :: s' ∧ d.isDigit := by
  obtain ⟨d, s', rfl⟩ := List.exists_cons_of_ne_nil h.ne_nil
  exact ⟨d, s', rfl, h.digits d List.mem_cons_self⟩

theorem IsCpuRange.exists_digit {End : List Char → ℕ → Prop} {r : ℕ × ℕ}
    (h : IsCpuRange End s r) : ∃ d s', s = d :: s' ∧ d.isDigit := by
  cases h with
  | number h => exact h.exists_digit
  | range h _ _ =>
    obtain ⟨d, s', rfl, hd⟩ := h.exists_digit
    exact ⟨d, _, rfl, hd⟩

theorem IsCpuList.exists_digit {End : List Char → ℕ → Prop} (h : IsCpuList End s rs) :
    ∃ d s', s = d :: s' ∧ d.isDigit := by
  cases h with
  | single h => exact h.exists_digit
  | cons h _ =>
    obtain ⟨d, s', rfl, hd⟩ := h.exists_digit
    exact ⟨d, _, rfl, hd⟩

theorem parseCpuListFrom_of_none (h : cpuRange p = none) :
    parseCpuListFrom p total prev = none := by
  rw [parseCpuListFrom]
  split
  · rfl
  · rename_i hsome
    cases h.symm.trans hsome

theorem parseCpuListFrom_full (hp : ∀ x ∈ p.head?, x.isDigit) :
    parseCpuListFrom p total (some (2 ^ 64 - 1)) = none := by
  rcases hrange : cpuRange p with _ | ⟨⟨a, b⟩, t⟩
  · exact parseCpuListFrom_of_none hrange
  · obtain ⟨u, -, hu⟩ := exists_of_cpuRange hrange
    obtain ⟨hab, hb⟩ := (hu hp).bounds
    dsimp only at hab hb
    rw [parseCpuListFrom_of_cpuRange hrange, if_pos]
    rw [Option.any_some, decide_eq_true_eq]
    omega

theorem exists_of_parseCpuListFrom (h : parseCpuListFrom p total prev = some c)
    (hp : ∀ x ∈ p.head?, x.isDigit) (hprev : prev = none ∧ total = 0 ∨ prev ≠ none ∧ 0 < total) :
    ∃ body trail rs, p = body ++ trail ∧ (∀ x ∈ trail, isSpaceChar x) ∧
      IsCpuList IsSignedNumeral body rs ∧ rs.Pairwise (fun r s => r.2 < s.1) ∧
      (∀ r ∈ rs, ∀ e ∈ prev, e < r.1) ∧ total + (cpus rs).card < 2 ^ 64 := by
  induction hlen : p.length using Nat.strong_induction_on generalizing p total prev with
  | _ len ih =>
  rcases hrange : cpuRange p with _ | ⟨⟨a, b⟩, t⟩
  · rw [parseCpuListFrom_of_none hrange] at h
    cases h
  obtain ⟨u, rfl, hu⟩ := exists_of_cpuRange hrange
  replace hu := hu hp
  obtain ⟨hab, hb⟩ := hu.bounds
  dsimp only at hab hb
  rw [parseCpuListFrom_of_cpuRange hrange] at h
  split_ifs at h with hlast htotal hcomma hdigit hend
  all_goals
    have hprev' : ∀ e ∈ prev, e < a := by
      intro e he
      obtain rfl := Option.mem_def.1 he
      simpa using hlast
    -- only the range of all numbers has no length modulo 2⁶⁴, and nothing stands before it
    have hwrap : (b - a + 1) % 2 ^ 64 = b - a + 1 ∨ b = 2 ^ 64 - 1 ∧ total = 0 ∧
        (b - a + 1) % 2 ^ 64 = 0 := by
      rcases hprev with ⟨-, rfl⟩ | ⟨hne, -⟩
      · omega
      · obtain ⟨e, rfl⟩ := Option.ne_none_iff_exists'.1 hne
        have hlt := hprev' e rfl
        omega
  · obtain ⟨t, rfl⟩ := List.head?_eq_some_iff.1 hcomma
    rw [List.tail_cons] at h hdigit
    have hd : ∀ x ∈ t.head?, x.isDigit := by
      intro x hx
      rw [Option.mem_def.1 hx, Option.any_some] at hdigit
      exact hdigit
    rcases hwrap with hcount | ⟨rfl, -, -⟩
    · rw [hcount] at h htotal
      obtain ⟨body, trail, rs, rfl, htrail, hlist, hasc, hafter, hlt⟩ :=
        ih t.length (by rw [← hlen, List.length_append, List.length_cons]; omega) h hd
          (Or.inr ⟨Option.some_ne_none b, by omega⟩) rfl
      have hb : ∀ r ∈ rs, b < r.1 := fun r hr => hafter r hr b rfl
      refine ⟨u ++ ',' :: body, trail, (a, b) :: rs, by simp, htrail, .cons hu hlist,
        List.pairwise_cons.2 ⟨hb, hasc⟩, fun r hr e he => ?_, ?_⟩
      · have hea := hprev' e he
        rcases List.mem_cons.1 hr with rfl | hr
        · exact hea
        · have hbr := hb r hr
          omega
      · rw [card_cpus_cons hb]
        omega
    · rw [parseCpuListFrom_full hd] at h
      cases h
  · rw [not_or, not_not] at hend
    obtain ⟨htrail, hpos⟩ := hend
    rcases hwrap with hcount | ⟨-, htot, hcount⟩
    · refine ⟨u, t, [(a, b)], rfl, List.dropWhile_eq_nil_iff.1 htrail, .single hu,
        List.pairwise_singleton .., fun r hr e he => ?_, ?_⟩
      · rw [List.mem_singleton.1 hr]
        exact hprev' e he
      · have hnil : ∀ s ∈ ([] : List (ℕ × ℕ)), b < s.1 := by simp
        rw [card_cpus_cons (r := (a, b)) hnil]
        rw [hcount] at htotal
        change total + (b + 1 - a + 0) < _
        omega
    · omega

theorem parseCpuListFrom_append (h : IsCpuList IsSignedNumeral s rs)
    (ht : ∀ x ∈ t, isSpaceChar x) (hasc : rs.Pairwise fun r s => r.2 < s.1)
    (hprev : ∀ r ∈ rs, ∀ e ∈ prev, e < r.1) (hlt : total + (cpus rs).card < 2 ^ 64) :
    parseCpuListFrom (s ++ t) total prev = some (total + (cpus rs).card) := by
  induction h generalizing total prev with
  | @single s r h =>
    obtain ⟨a, b⟩ := r
    obtain ⟨hab, hb⟩ := h.bounds
    dsimp only at hab hb
    have hhead : ∀ c ∈ t.head?, ¬c.isDigit ∧ c ≠ '-' ∧ c ≠ ',' := by
      intro c hc
      have hspace := ht c (List.mem_of_mem_head? hc)
      refine ⟨fun hd => ?_, ?_, ?_⟩
      · rw [isSpaceChar_of_isDigit hd] at hspace
        cases hspace
      · rintro rfl
        cases hspace
      · rintro rfl
        cases hspace
    have hcomma : t.head? ≠ some ',' := fun heq => (hhead ',' heq).2.2 rfl
    have hcard : (cpus [(a, b)]).card = b - a + 1 := by
      rw [card_cpus_cons (by simp)]
      change b + 1 - a + 0 = _
      omega
    rw [hcard] at hlt ⊢
    rw [parseCpuListFrom_of_cpuRange (cpuRange_append h fun c hc =>
      ⟨(hhead c hc).1, (hhead c hc).2.1⟩), Nat.mod_eq_of_lt (by omega), if_neg, if_neg (by omega),
      if_neg hcomma, if_neg]
    · exact not_or.2 ⟨not_not.2 (List.dropWhile_eq_nil_iff.2 ht), by omega⟩
    · cases prev with
      | none => simp
      | some e => simpa using hprev _ List.mem_cons_self e rfl
  | @cons s u r rs h hs ih =>
    obtain ⟨a, b⟩ := r
    obtain ⟨hab, hb⟩ := h.bounds
    dsimp only at hab hb
    obtain ⟨hafter, hasc⟩ := List.pairwise_cons.1 hasc
    obtain ⟨d, u', rfl, hd⟩ := hs.exists_digit
    rw [card_cpus_cons hafter] at hlt ⊢
    have hrange : cpuRange (s ++ ',' :: (d :: u' ++ t)) = some ((a, b), ',' :: (d :: u' ++ t)) := by
      refine cpuRange_append h ?_
      rintro c ⟨⟩
      decide
    rw [List.append_assoc, List.cons_append, parseCpuListFrom_of_cpuRange hrange,
      Nat.mod_eq_of_lt (by omega), if_neg, if_neg (by omega), List.head?_cons, if_pos rfl,
      List.tail_cons, List.cons_append, List.head?_cons, if_pos (by exact hd),
      ← List.cons_append, ih hasc (fun r hr e he => ?_) (by omega)]
    · congr 1
      omega
    · obtain rfl := Option.some.inj he
      exact hafter r hr
    · cases prev with
      | none => simp
      | some e => simpa using hprev _ List.mem_cons_self e rfl

theorem exists_of_parseCpuList {text : List Char} (h : parseCpuList text = some c) :
    ∃ rs, DenotesCpus IsSignedNumeral text rs := by
  rw [parseCpuList] at h
  split_ifs at h with hdigit
  have hd : ∀ x ∈ (text.dropWhile isSpaceChar).head?, x.isDigit := by
    intro x hx
    rw [Option.mem_def.1 hx, Option.any_some] at hdigit
    exact hdigit
  obtain ⟨body, trail, rs, hbody, htrail, hlist, hasc, -, hlt⟩ :=
    exists_of_parseCpuListFrom h hd (Or.inl ⟨rfl, rfl⟩)
  refine ⟨rs, ⟨text.takeWhile isSpaceChar, body, trail, ?_, fun x => List.mem_takeWhile_imp,
    htrail, hlist⟩, hasc, by omega⟩
  rw [← hbody, List.takeWhile_append_dropWhile]

/-- **What the scanner counts.** -/
theorem DenotesCpus.parseCpuList {text : List Char} (h : DenotesCpus IsSignedNumeral text rs) :
    parseCpuList text = some (cpus rs).card := by
  obtain ⟨⟨lead, body, trail, rfl, hlead, htrail, hlist⟩, hasc, hlt⟩ := h
  obtain ⟨d, body', rfl, hd⟩ := hlist.exists_digit
  have hdrop : (lead ++ (d :: body' ++ trail)).dropWhile isSpaceChar = d :: body' ++ trail := by
    rw [List.dropWhile_append_of_pos hlead, List.cons_append,
      List.dropWhile_cons_of_neg (by simp [isSpaceChar_of_isDigit hd])]
  rw [PgWaitTracer.parseCpuList, hdrop, List.cons_append, List.head?_cons, if_pos (by exact hd),
    ← List.cons_append, parseCpuListFrom_append hlist htrail hasc (by simp) (by omega),
    Nat.zero_add]

/-! ### The kernel's lists -/

/-- A digit stands behind every `-`. -/
def dashesOk : List Char → Bool
  | [] => true
  | c :: cs => (c ≠ '-' || cs.head?.any Char.isDigit) && dashesOk cs

theorem dashesOk_of_forall (h : ∀ c ∈ s, c ≠ '-') : dashesOk s = true := by
  induction s with
  | nil => rfl
  | cons c s ih =>
    rw [List.forall_mem_cons] at h
    simp [dashesOk, h.1, ih h.2]

theorem dashesOk_append (hs : dashesOk s = true) (ht : dashesOk t = true) :
    dashesOk (s ++ t) = true := by
  induction s with
  | nil => exact ht
  | cons c s ih =>
    rw [dashesOk, Bool.and_eq_true, Bool.or_eq_true] at hs
    rw [List.cons_append, dashesOk, ih hs.2, Bool.and_true, Bool.or_eq_true]
    refine hs.1.imp_right fun hd => ?_
    cases s with
    | nil => cases hd
    | cons x s => exact hd

theorem dashesOk_of_append (h : dashesOk (s ++ t) = true) : dashesOk t = true := by
  induction s with
  | nil => exact h
  | cons c s ih =>
    rw [List.cons_append, dashesOk, Bool.and_eq_true] at h
    exact ih h.2

theorem IsNumeral.dashes (h : IsNumeral s n) : dashesOk s = true := by
  refine dashesOk_of_forall fun c hc => ?_
  rintro rfl
  cases h.digits _ hc

theorem IsCpuRange.dashes {r : ℕ × ℕ} (h : IsCpuRange IsNumeral s r) : dashesOk s = true := by
  cases h with
  | number h => exact h.dashes
  | range h hend _ =>
    obtain ⟨d, t', rfl, hd⟩ := hend.exists_digit
    refine dashesOk_append h.dashes ?_
    rw [dashesOk, hend.dashes]
    simp [hd]

theorem IsCpuList.dashes (h : IsCpuList IsNumeral s rs) : dashesOk s = true := by
  induction h with
  | single h => exact h.dashes
  | cons h _ ih =>
    refine dashesOk_append h.dashes ?_
    rw [dashesOk, ih]
    rfl

theorem IsCpuRange.signed {r : ℕ × ℕ} (h : IsCpuRange IsNumeral s r) :
    IsCpuRange IsSignedNumeral s r := by
  cases h with
  | number h => exact .number h
  | range h hend hle => exact .range h hend.signed hle

theorem IsCpuList.signed (h : IsCpuList IsNumeral s rs) : IsCpuList IsSignedNumeral s rs := by
  induction h with
  | single h => exact .single h.signed
  | cons h _ ih => exact .cons h.signed ih

theorem IsCpuRange.strict {r : ℕ × ℕ} (h : IsCpuRange IsSignedNumeral s r)
    (hd : dashesOk (s ++ t) = true) : IsCpuRange IsNumeral s r := by
  cases h with
  | number h => exact .number h
  | range h hend hle =>
    rw [List.append_assoc, List.cons_append] at hd
    have hdash := dashesOk_of_append hd
    rw [dashesOk, Bool.and_eq_true] at hdash
    refine .range h (hend.numeral fun c hc => ?_) hle
    simpa [List.head?_append, Option.mem_def.1 hc] using hdash.1

theorem IsCpuList.strict (h : IsCpuList IsSignedNumeral s rs) (hd : dashesOk (s ++ t) = true) :
    IsCpuList IsNumeral s rs := by
  induction h with
  | single h => exact .single (h.strict hd)
  | cons h _ ih =>
    rw [List.append_assoc] at hd
    exact .cons (h.strict hd) (ih (dashesOk_of_append (s := [',']) (dashesOk_of_append hd)))

theorem DenotesCpus.signed {text : List Char} (h : DenotesCpus IsNumeral text rs) :
    DenotesCpus IsSignedNumeral text rs := by
  obtain ⟨⟨lead, body, trail, htext, hlead, htrail, hlist⟩, hasc, hlt⟩ := h
  exact ⟨⟨lead, body, trail, htext, hlead, htrail, hlist.signed⟩, hasc, hlt⟩

theorem DenotesCpus.strict {text : List Char} (h : DenotesCpus IsSignedNumeral text rs)
    (hd : dashesOk text = true) : DenotesCpus IsNumeral text rs := by
  obtain ⟨⟨lead, body, trail, rfl, hlead, htrail, hlist⟩, hasc, hlt⟩ := h
  exact ⟨⟨lead, body, trail, rfl, hlead, htrail, hlist.strict (dashesOk_of_append hd)⟩, hasc, hlt⟩

theorem DenotesCpus.dashes {text : List Char} (h : DenotesCpus IsNumeral text rs) :
    dashesOk text = true := by
  obtain ⟨⟨lead, body, trail, rfl, hlead, htrail, hlist⟩, -, -⟩ := h
  have hblank {l : List Char} (hl : ∀ c ∈ l, isSpaceChar c) : dashesOk l = true := by
    refine dashesOk_of_forall fun c hc => ?_
    rintro rfl
    cases hl _ hc
  exact dashesOk_append (hblank hlead) (dashesOk_append hlist.dashes (hblank htrail))

/-- The scanner accepts the kernel's lists and nothing else, and counts their CPUs. -/
structure ScansExactly (text : List Char) : Prop where
  accepts : (parseCpuList text).isSome = true ↔ ∃ rs, DenotesCpus IsNumeral text rs
  counts : ∀ n rs, parseCpuList text = some n → DenotesCpus IsNumeral text rs → n = (cpus rs).card

/-- **What the scanner takes for a list.** It is exact on a text in which a digit stands behind
every `-`, and on one that is no list even if `strtoull` may read blanks and a sign there. -/
theorem scansExactly_iff (text : List Char) :
    ScansExactly text ↔
      dashesOk text = true ∨ ¬∃ rs, DenotesCpus IsSignedNumeral text rs := by
  have hcounts : ∀ n rs, parseCpuList text = some n → DenotesCpus IsNumeral text rs →
      n = (cpus rs).card := by
    intro n rs hn h
    rw [h.signed.parseCpuList] at hn
    exact (Option.some.inj hn).symm
  constructor
  · intro h
    by_contra hnot
    rw [not_or, not_not] at hnot
    obtain ⟨hdash, rs, hrs⟩ := hnot
    obtain ⟨rs', hrs'⟩ := h.accepts.1 (by rw [hrs.parseCpuList]; rfl)
    exact hdash hrs'.dashes
  · intro h
    refine ⟨⟨fun hsome => ?_, fun ⟨rs, hrs⟩ => by rw [hrs.signed.parseCpuList]; rfl⟩, hcounts⟩
    obtain ⟨n, hn⟩ := Option.isSome_iff_exists.1 hsome
    obtain ⟨rs, hrs⟩ := exists_of_parseCpuList hn
    rcases h with hdash | hno
    · exact ⟨rs, hrs.strict hdash⟩
    · exact absurd ⟨rs, hrs⟩ hno

theorem parseCpuList_blank :
    parseCpuList "0- 3".toList = some 4 ∧ ¬ScansExactly "0- 3".toList := by
  have hzero : IsNumeral ['0'] 0 := ⟨by simp, by simp, rfl, by decide⟩
  have hthree : IsSignedNumeral [' ', '3'] 3 :=
    ⟨[' '], none, ['3'], 3, rfl, by simp [isSpaceChar], by simp, ⟨by simp, by simp, rfl, by decide⟩,
      rfl⟩
  have hcard : (cpus [(0, 3)]).card = 4 := by
    rw [card_cpus_cons (by simp)]
    rfl
  have hden : DenotesCpus IsSignedNumeral "0- 3".toList [(0, 3)] :=
    ⟨⟨[], "0- 3".toList, [], rfl, by simp, by simp, .single (.range hzero hthree (by decide))⟩,
      List.pairwise_singleton .., by rw [hcard]; decide⟩
  have hsome : parseCpuList "0- 3".toList = some 4 := by rw [hden.parseCpuList, hcard]
  refine ⟨hsome, fun hexact => ?_⟩
  obtain ⟨rs, hrs⟩ := hexact.accepts.1 (by rw [hsome]; rfl)
  exact absurd hrs.dashes (by decide)

end PgWaitTracer
