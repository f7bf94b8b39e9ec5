import PgWaitTracer.SyntheticQuery.Layout
import PgWaitTracer.SyntheticQuery.Tokens

/-!
# What literals leave in a normalised text

The normalised text of a query should not depend on the contents of its strings and on the digits
of its numbers. It does not if the scanner finds the ends of all constants. The scanner takes a
backslash for an escape in every string, and underscores and hexadecimal digits for parts of a
number; and it does not look for a number behind a dollar-quoted string. Where it misses an end,
it copies data of the user.

## Main results

* `normalizeQuery_hides`: two texts that differ in literals only have the same
  normalised text, if the scanner finds the ends of all constants in both.
* `normalizeQuery_leaks`: texts for which it does not.
-/

namespace PgWaitTracer

/-- The piece without the contents of a literal, but for a point at its start. -/
def QueryLexeme.hide : QueryLexeme → QueryLexeme
  | literal w => literal [if w.head? = some '.' then '.' else '?']
  | p => p

/-- How the scanner cuts a token behind a byte, without what the literals contain. -/
def PgToken.pieces (prev : Option Char) : PgToken → List QueryLexeme
  | byte c => [if isSpaceChar c then .space c else .punct c]
  | dots => [.punct '.', .punct '.']
  | line w => [.line w]
  | block w => [.block w]
  | name w => [.word w]
  | quoted w => [.quoted w]
  | param w => w.map .punct
  | str start _ _ =>
    if prev.all wordBoundary then [.literal ['?']]
    else
      match start with
      | [] => [.literal ['?']]
      | c :: cs => .word [c] :: cs.map .punct ++ [.literal ['?']]
  | dollar _ _ => [.literal ['?']]
  | num w =>
    if lateNumber prev w then [.punct '.', .literal ['?']]
    else [.literal [if w.head? = some '.' then '.' else '?']]

/-- How the scanner cuts a text that consists of tokens. -/
def pieces : Option Char → List PgToken → List QueryLexeme
  | _, [] => []
  | prev, t :: ts => t.pieces prev ++ pieces t.text.getLast? ts

/-! ### Hidden pieces -/

variable {c : Char} {cs : List Char} {ts : List PgToken} {prev : Option Char} {p : QueryLexeme}
  {n : ℕ}

theorem eq_or_literal_of_hide {p' : QueryLexeme} (h : p.hide = p'.hide) :
    p = p' ∨ ∃ w w', p = .literal w ∧ p' = .literal w' ∧
      (w.head? = some '.' ↔ w'.head? = some '.') := by
  have hliteral : ∀ w w' : List Char,
      (QueryLexeme.literal w).hide = (QueryLexeme.literal w').hide →
        (w.head? = some '.' ↔ w'.head? = some '.') := by
    intro w w' h
    have h := QueryLexeme.literal.inj h
    by_cases hw : w.head? = some '.' <;> by_cases hw' : w'.head? = some '.'
    · exact iff_of_true hw hw'
    · rw [if_pos hw, if_neg hw'] at h
      exact absurd h (by decide)
    · rw [if_neg hw, if_pos hw'] at h
      exact absurd h (by decide)
    · exact iff_of_false hw hw'
  cases p with
  | literal w =>
    cases p' with
    | literal w' => exact Or.inr ⟨w, w', rfl, rfl, hliteral w w' h⟩
    | _ => exact nomatch h
  | _ =>
    cases p' with
    | literal w' => exact nomatch h
    | _ => exact Or.inl h

theorem isSpace_hide {p' : QueryLexeme} (h : p.hide = p'.hide) : p.isSpace = p'.isSpace := by
  rcases eq_or_literal_of_hide h with rfl | ⟨w, w', rfl, rfl, -⟩ <;> rfl

theorem tight_head_hide {p' : QueryLexeme} (h : p.hide = p'.hide) (hp : p.Formed)
    (hp' : p'.Formed) : p.text.head?.map tightPunctuation = p'.text.head?.map tightPunctuation := by
  rcases eq_or_literal_of_hide h with rfl | ⟨w, w', rfl, rfl, hdot⟩
  · rfl
  · obtain ⟨c, hc, htight⟩ := hp
    obtain ⟨c', hc', htight'⟩ := hp'
    rw [hc, hc', Option.some.injEq, Option.some.injEq] at hdot
    rw [QueryLexeme.text, QueryLexeme.text, hc, hc', Option.map_some, Option.map_some,
      Option.some.injEq]
    by_cases hcdot : c = '.'
    · rw [hcdot, hdot.mp hcdot]
    · rw [Bool.eq_false_iff.mpr (mt htight hcdot),
        Bool.eq_false_iff.mpr (mt htight' (mt hdot.mpr hcdot))]

theorem visible_hide {ps ps' : List QueryLexeme}
    (h : ps.map QueryLexeme.hide = ps'.map QueryLexeme.hide) (hps : ∀ p ∈ ps, p.Formed)
    (hps' : ∀ p ∈ ps', p.Formed) :
    (visible ps).map tightPunctuation = (visible ps').map tightPunctuation := by
  induction ps generalizing ps' with
  | nil =>
    rw [List.map_nil, eq_comm, List.map_eq_nil_iff] at h
    rw [h]
  | cons p ps ih =>
    rw [List.map_cons, eq_comm, List.map_eq_cons_iff] at h
    obtain ⟨p', ps', rfl, hhead, htail⟩ := h
    obtain ⟨hp, hps⟩ := List.forall_mem_cons.mp hps
    obtain ⟨hp', hps'⟩ := List.forall_mem_cons.mp hps'
    rw [visible, visible, isSpace_hide hhead]
    split_ifs
    · exact ih htail.symm hps hps'
    · exact tight_head_hide hhead.symm hp hp'

theorem spaceAction_congr {size : ℕ} {out : List Char} {next next' : Option Char}
    (h : next.map tightPunctuation = next'.map tightPunctuation) :
    QueryScanner.spaceAction size out next = QueryScanner.spaceAction size out next' := by
  unfold QueryScanner.spaceAction
  cases out.head? with
  | none => rfl
  | some c =>
    cases next with
    | none =>
      rw [Option.map_none, eq_comm, Option.map_eq_none_iff] at h
      rw [h]
    | some d =>
      cases next' with
      | none => exact nomatch h
      | some d' =>
        dsimp only
        rw [Option.some.inj h]

/-- **What the scanner writes** does not depend on what the literals contain. -/
theorem emitLexemes_hide {size : ℕ} {ps ps' : List QueryLexeme}
    (h : ps.map QueryLexeme.hide = ps'.map QueryLexeme.hide) (hps : ∀ p ∈ ps, p.Formed)
    (hps' : ∀ p ∈ ps', p.Formed) (out : List Char) :
    emitLexemes size ps out = emitLexemes size ps' out := by
  induction ps generalizing ps' out with
  | nil =>
    rw [List.map_nil, eq_comm, List.map_eq_nil_iff] at h
    rw [h]
  | cons p ps ih =>
    rw [List.map_cons, eq_comm, List.map_eq_cons_iff] at h
    obtain ⟨p', ps', rfl, hhead, htail⟩ := h
    obtain ⟨-, htailps⟩ := List.forall_mem_cons.mp hps
    obtain ⟨-, htailps'⟩ := List.forall_mem_cons.mp hps'
    have hemit : p.emit size (visible ps) out = p'.emit size (visible ps') out := by
      rcases eq_or_literal_of_hide hhead.symm with rfl | ⟨w, w', rfl, rfl, -⟩
      · cases p with
        | space c => exact spaceAction_congr (visible_hide htail.symm htailps htailps')
        | _ => rfl
      · rfl
    rw [emitLexemes, emitLexemes, hemit]
    exact congrArg _ (funext fun out => ih htail.symm htailps htailps' out)

/-! ### Cutting a text into pieces -/

/-- The pieces of a text behind a byte. -/
def lexRest (prev : Option Char) (cs : List Char) : Option (List QueryLexeme) :=
  lexFrom cs.length prev cs

theorem lexFrom_eq_lexRest (h : cs.length ≤ n) : lexFrom n prev cs = lexRest prev cs := by
  induction n using Nat.strongRecOn generalizing prev cs with
  | _ n ih =>
    rw [lexRest]
    cases cs with
    | nil => cases n <;> rfl
    | cons c cs =>
      rw [List.length_cons] at h
      obtain ⟨n, rfl⟩ : ∃ m, n = m + 1 := ⟨n - 1, by omega⟩
      rw [List.length_cons, lexFrom, lexFrom]
      refine congrArg _ (funext fun p => congrArg _ ?_)
      have hlen : ((c :: cs).drop (p.2 + 1)).length ≤ cs.length := by
        rw [List.drop_succ_cons, List.length_drop]
        exact Nat.sub_le _ _
      rw [ih n (Nat.lt_succ_self n) (by omega), ih cs.length (by omega) hlen]

theorem lexRest_cons (prev : Option Char) (c : Char) (cs : List Char) :
    lexRest prev (c :: cs) = (lexPiece prev c cs).bind fun p =>
      (lexRest ((c :: cs)[p.2]?) ((c :: cs).drop (p.2 + 1))).map (p.1 :: ·) := by
  rw [lexRest, List.length_cons, lexFrom]
  refine congrArg _ (funext fun p => congrArg _ ?_)
  refine lexFrom_eq_lexRest ?_
  rw [List.drop_succ_cons, List.length_drop]
  exact Nat.sub_le _ _

/-- From one position to another the scanner cuts the text into the pieces, but for what the
literals contain. -/
def LexesTo (prev : Option Char) (cs : List Char) (hidden : List QueryLexeme) (prev' : Option Char)
    (cs' : List Char) : Prop :=
  ∃ ps : List QueryLexeme, ps.map QueryLexeme.hide = hidden ∧
    lexRest prev cs = (lexRest prev' cs').map (ps ++ ·)

namespace LexesTo

variable {prev prev' prev'' : Option Char} {cs cs' cs'' : List Char} {ps qs : List QueryLexeme}

theorem refl (prev : Option Char) (cs : List Char) : LexesTo prev cs [] prev cs := by
  refine ⟨[], rfl, ?_⟩
  simp

theorem trans (h : LexesTo prev cs ps prev' cs') (h' : LexesTo prev' cs' qs prev'' cs'') :
    LexesTo prev cs (ps ++ qs) prev'' cs'' := by
  obtain ⟨xs, hxs, hlex⟩ := h
  obtain ⟨ys, hys, hlex'⟩ := h'
  refine ⟨xs ++ ys, by rw [List.map_append, hxs, hys], ?_⟩
  rw [hlex, hlex', Option.map_map]
  refine congrArg (Option.map · _) (funext fun zs => ?_)
  exact (List.append_assoc xs ys zs).symm

theorem piece (h : lexPiece prev c cs = some (p, n)) :
    LexesTo prev (c :: cs) [p.hide] ((c :: cs)[n]?) ((c :: cs).drop (n + 1)) :=
  ⟨[p], rfl, by rw [lexRest_cons, h]; rfl⟩

end LexesTo

/-! ### Strings -/

theorem skipQuoted_escapes (h : stringEnd true cs = some n) : skipQuoted cs = n := by
  induction cs using (stringEnd.induct true) generalizing n with
  | case1 => cases h
  | case2 =>
    rw [stringEnd, if_pos rfl] at h
    exact Option.some.inj h
  | case3 c hc =>
    rw [stringEnd, if_neg hc] at h
    cases h
  | case4 c d cs hc ih =>
    rw [stringEnd, if_pos hc] at h
    obtain ⟨m, hm, rfl⟩ := Option.map_eq_some_iff.mp h
    rw [skipQuoted, if_pos hc.2, ih hm]
  | case5 cs hc ih =>
    rw [stringEnd, if_neg hc, if_pos rfl, if_pos rfl] at h
    obtain ⟨m, hm, rfl⟩ := Option.map_eq_some_iff.mp h
    rw [skipQuoted, if_neg (by decide), if_pos rfl, if_pos rfl, ih hm]
  | case6 d cs hd hc =>
    rw [stringEnd, if_neg hc, if_pos rfl, if_neg hd] at h
    rw [skipQuoted, if_neg (by decide), if_pos rfl, if_neg hd]
    exact Option.some.inj h
  | case7 c d cs hc hq ih =>
    rw [stringEnd, if_neg hc, if_neg hq] at h
    obtain ⟨m, hm, rfl⟩ := Option.map_eq_some_iff.mp h
    rw [skipQuoted, if_neg fun hb => hc ⟨rfl, hb⟩, if_neg hq, ih hm]

/-- **A string without escapes.** The scanner finds its end if no quote in it stands behind an odd
number of backslashes. -/
theorem skipQuoted_plain (h : stringEnd false cs = some n)
    (hplain : quotesPlain false (cs.take n) = true) : skipQuoted cs = n := by
  induction hlen : cs.length using Nat.strongRecOn generalizing cs n with
  | _ len ih =>
    subst hlen
    rcases cs with _ | ⟨c, _ | ⟨d, cs⟩⟩
    · cases h
    · rw [stringEnd] at h
      split_ifs at h
      rw [skipQuoted]
      exact Option.some.inj h
    · rw [stringEnd, if_neg fun hb => Bool.false_ne_true hb.1] at h
      by_cases hb : c = backslashChar
      · subst hb
        rw [if_neg (by decide)] at h
        obtain ⟨m, hm, rfl⟩ := Option.map_eq_some_iff.mp h
        rw [List.take_succ_cons, quotesPlain, if_pos rfl, Bool.not_false] at hplain
        rw [skipQuoted, if_pos rfl]
        obtain ⟨k, rfl⟩ := Nat.exists_eq_add_of_le' (stringEnd_spec hm).2
        rw [List.take_succ_cons, quotesPlain] at hplain
        -- The byte behind the backslash is not a quote, and it is skipped with it.
        have hd : d ≠ quoteChar := by
          rintro rfl
          rw [if_neg (by decide), if_pos rfl] at hplain
          exact Bool.false_ne_true hplain
        cases cs with
        | nil =>
          rw [stringEnd, if_neg hd] at hm
          cases hm
        | cons e cs =>
          rw [stringEnd, if_neg fun hb => Bool.false_ne_true hb.1, if_neg hd] at hm
          obtain ⟨m, hend, hk⟩ := Option.map_eq_some_iff.mp hm
          obtain rfl : m = k := Nat.succ.inj hk
          rw [if_neg hd, Bool.not_true, ite_self] at hplain
          rw [ih _ (by simp only [List.length_cons]; omega) hend hplain rfl]
      · by_cases hq : c = quoteChar
        · subst hq
          rw [if_pos rfl] at h
          rw [skipQuoted, if_neg hb, if_pos rfl]
          split_ifs at h ⊢ with hd
          · subst hd
            obtain ⟨m, hm, rfl⟩ := Option.map_eq_some_iff.mp h
            have hrest : quotesPlain false (cs.take m) = true := by
              simpa [quotesPlain, hb] using hplain
            rw [ih _ (by simp only [List.length_cons]; omega) hm hrest rfl]
          · exact Option.some.inj h
        · rw [if_neg hq] at h
          obtain ⟨m, hm, rfl⟩ := Option.map_eq_some_iff.mp h
          rw [List.take_succ_cons, quotesPlain, if_neg hb, if_neg hq] at hplain
          rw [skipQuoted, if_neg hb, if_neg hq, ih _ (by simp) hm hplain rfl]

/-! ### Numbers -/

theorem digitRun_eq (h : (cs.drop (digitCount cs)).head? ≠ some '_') :
    digitRun cs = digitCount cs := by
  induction cs with
  | nil => rfl
  | cons c cs ih =>
    by_cases hc : c.isDigit = true
    · rw [digitCount_pos hc, List.drop_succ_cons] at h
      have hrun : digitRun (c :: cs) = digitRun cs + 1 := by
        rw [digitRun, List.takeWhile_cons, hc]
        rfl
      rw [digitCount_pos hc, hrun, ih h]
    · rw [Bool.not_eq_true] at hc
      rw [digitCount_of_not hc] at h ⊢
      have hunder : c ≠ '_' := fun he => h (congrArg some he)
      rw [digitRun, List.takeWhile_cons, hc]
      simp [hunder]

theorem skipExponent_eq (h : (cs.drop (exponentLength cs)).head? ≠ some '_') :
    skipExponent cs = exponentLength cs := by
  rw [exponentLength] at h ⊢
  rw [skipExponent]
  dsimp only at h ⊢
  by_cases hexp : cs.head? = some 'e' ∨ cs.head? = some 'E'
  · rw [if_pos hexp] at h
    rw [if_pos hexp, if_pos hexp]
    generalize (if cs.tail.head? = some '+' ∨ cs.tail.head? = some '-' then 1 else 0) = sign at h ⊢
    split_ifs at h ⊢
    · rw [digitRun_eq]
      rwa [List.drop_drop]
    · rfl
  · rw [if_neg hexp, if_neg hexp]

/-- The digits and the point of a number. -/
def mantissaLength (cs : List Char) : ℕ :=
  if (cs.drop (digitCount cs)).head? = some '.' ∧
      (digitCount cs = 0 ∨ (cs.drop (digitCount cs + 1)).head? ≠ some '.') then
    digitCount cs + 1 + digitCount (cs.drop (digitCount cs + 1))
  else digitCount cs

theorem numberLength_eq (cs : List Char) :
    numberLength cs = mantissaLength cs + exponentLength (cs.drop (mantissaLength cs)) := rfl

theorem exponentLength_of_head (h : cs.head? = some c) (he : c ≠ 'e') (hE : c ≠ 'E') :
    exponentLength cs = 0 := by
  rw [exponentLength, if_neg]
  rw [h, Option.some.injEq, Option.some.injEq]
  exact not_or.mpr ⟨he, hE⟩

theorem mantissa_not_underscore (h : (cs.drop (numberLength cs)).head? ≠ some '_') :
    (cs.drop (mantissaLength cs)).head? ≠ some '_' ∧
      ((cs.drop (mantissaLength cs)).drop
        (exponentLength (cs.drop (mantissaLength cs)))).head? ≠ some '_' := by
  rw [numberLength_eq, ← List.drop_drop] at h
  refine ⟨fun hunder => h ?_, h⟩
  rwa [exponentLength_of_head hunder (by decide) (by decide), List.drop_zero]

/-- **A number that starts with a digit.** -/
theorem skipNumber_digit (hc : c.isDigit = true)
    (hunder : ((c :: cs).drop (numberLength (c :: cs))).head? ≠ some '_')
    (hhex : ¬((c :: cs).take (numberLength (c :: cs)) = ['0'] ∧
      (((c :: cs).drop (numberLength (c :: cs))).head? = some 'x' ∨
        ((c :: cs).drop (numberLength (c :: cs))).head? = some 'X'))) :
    skipNumber (c :: cs) = numberLength (c :: cs) := by
  have hdot : c ≠ '.' := by
    rintro rfl
    exact absurd hc (by decide)
  obtain ⟨hmantissa, hexponent⟩ := mantissa_not_underscore hunder
  have hpos : digitCount (c :: cs) ≠ 0 := by
    rw [digitCount_pos hc]
    exact Nat.succ_ne_zero _
  -- A zero in front of an x is a number of its own.
  have hzero : ¬((c :: cs).head? = some '0' ∧
      ((c :: cs).tail.head? = some 'x' ∨ (c :: cs).tail.head? = some 'X')) := by
    rintro ⟨hzero, hx⟩
    obtain rfl : c = '0' := Option.some.inj hzero
    obtain ⟨d, hd, hdx⟩ : ∃ d, cs.head? = some d ∧ (d = 'x' ∨ d = 'X') := by
      rcases hx with hx | hx
      · exact ⟨_, hx, Or.inl rfl⟩
      · exact ⟨_, hx, Or.inr rfl⟩
    obtain ⟨ds, rfl⟩ := List.head?_eq_some_iff.mp hd
    have hlen : numberLength ('0' :: d :: ds) = 1 := by
      rcases hdx with rfl | rfl <;> rfl
    refine hhex ?_
    rw [hlen]
    exact ⟨rfl, by rcases hdx with rfl | rfl <;> simp⟩
  have hhead : (c :: cs).head? ≠ some '.' := fun h => hdot (Option.some.inj h)
  rw [skipNumber, if_neg hhead, if_neg hzero, numberLength_eq]
  rw [mantissaLength] at hmantissa hexponent ⊢
  have hcount : ((c :: cs).drop (digitCount (c :: cs))).head? ≠ some '_' := by
    split_ifs at hmantissa with hpoint
    · rw [hpoint.1]
      decide
    · exact hmantissa
  rw [digitRun_eq hcount]
  simp only [hpos, false_or] at hmantissa hexponent ⊢
  split_ifs at hmantissa hexponent ⊢ with hpoint
  · have hfrac : digitRun ((c :: cs).drop (digitCount (c :: cs) + 1)) =
        digitCount ((c :: cs).drop (digitCount (c :: cs) + 1)) := by
      refine digitRun_eq ?_
      rwa [List.drop_drop]
    rw [hfrac, skipExponent_eq hexponent]
  · rw [skipExponent_eq hexponent]

theorem mantissaLength_point (cs : List Char) : mantissaLength ('.' :: cs) = digitCount cs + 1 := by
  rw [mantissaLength, digitCount_of_not (by decide), if_pos ⟨rfl, Or.inl rfl⟩, Nat.zero_add,
    Nat.add_comm 1]
  rfl

/-- **A number that starts with its point**, where the scanner sees that it does. -/
theorem skipNumber_point (hunder : (('.' :: cs).drop (numberLength ('.' :: cs))).head? ≠ some '_') :
    skipNumber ('.' :: cs) = numberLength ('.' :: cs) := by
  obtain ⟨hmantissa, hexponent⟩ := mantissa_not_underscore hunder
  have hm := mantissaLength_point cs
  rw [hm, List.drop_succ_cons] at hmantissa
  rw [hm] at hexponent
  have hhead : ('.' :: cs).head? = some '.' := rfl
  rw [skipNumber, if_pos hhead, List.tail_cons, digitRun_eq hmantissa, numberLength_eq, hm,
    Nat.add_comm 1, skipExponent_eq hexponent]

/-- The same where the scanner starts at the digits. -/
theorem skipNumber_late {d : Char} (hd : d.isDigit = true)
    (hunder : (('.' :: d :: cs).drop (numberLength ('.' :: d :: cs))).head? ≠ some '_')
    (hhex : ¬(('.' :: d :: cs).take (numberLength ('.' :: d :: cs)) = ['.', '0'] ∧
      ((('.' :: d :: cs).drop (numberLength ('.' :: d :: cs))).head? = some 'x' ∨
        (('.' :: d :: cs).drop (numberLength ('.' :: d :: cs))).head? = some 'X')))
    (hpoint : ¬((('.' :: d :: cs).take (numberLength ('.' :: d :: cs))).tail.all
        Char.isDigit = true ∧
      (('.' :: d :: cs).drop (numberLength ('.' :: d :: cs))).head? = some '.' ∧
      (('.' :: d :: cs).drop (numberLength ('.' :: d :: cs))).tail.head? ≠ some '.')) :
    skipNumber (d :: cs) + 1 = numberLength ('.' :: d :: cs) := by
  obtain ⟨hmantissa, hexponent⟩ := mantissa_not_underscore hunder
  have hm := mantissaLength_point (d :: cs)
  rw [numberLength_eq, hm, List.drop_succ_cons] at hunder hhex hpoint ⊢
  rw [hm, List.drop_succ_cons] at hmantissa hexponent
  have hdot : d ≠ '.' := by
    rintro rfl
    exact absurd hd (by decide)
  -- A zero in front of an x is a number of its own.
  have hzero : ¬((d :: cs).head? = some '0' ∧
      ((d :: cs).tail.head? = some 'x' ∨ (d :: cs).tail.head? = some 'X')) := by
    rintro ⟨hzero, hx⟩
    obtain rfl : d = '0' := Option.some.inj hzero
    obtain ⟨e, he, hex⟩ : ∃ e, cs.head? = some e ∧ (e = 'x' ∨ e = 'X') := by
      rcases hx with hx | hx
      · exact ⟨_, hx, Or.inl rfl⟩
      · exact ⟨_, hx, Or.inr rfl⟩
    obtain ⟨es, rfl⟩ := List.head?_eq_some_iff.mp he
    have hcount : digitCount ('0' :: e :: es) = 1 := by
      rcases hex with rfl | rfl <;> rfl
    have hlen : exponentLength (('0' :: e :: es).drop 1) = 0 := by
      rcases hex with rfl | rfl <;> rfl
    rw [hcount, hlen] at hhex
    exact hhex ⟨rfl, by rcases hex with rfl | rfl <;> simp⟩
  have hhead : (d :: cs).head? ≠ some '.' := fun h => hdot (Option.some.inj h)
  rw [skipNumber, if_neg hhead, if_neg hzero, digitRun_eq hmantissa]
  split_ifs with hend
  · -- The scanner would go on behind a second point.
    have hlen := exponentLength_of_head hend.1 (by decide) (by decide)
    rw [hlen, Nat.add_zero, List.take_succ_cons, List.tail_cons, List.drop_succ_cons,
      List.tail_drop] at hpoint
    refine absurd ⟨?_, hend⟩ hpoint
    rw [digitCount, ← List.prefix_iff_eq_take.mp (List.takeWhile_prefix _)]
    exact List.all_takeWhile
  · rw [skipExponent_eq hexponent]
    exact Nat.add_right_comm _ _ _

/-! ### Pieces behind a byte -/

theorem dollarTagLen_of_ne (hc : c ≠ '$') (cs : List Char) : dollarTagLen (c :: cs) = 0 := by
  cases cs with
  | nil => rfl
  | cons d cs => rw [dollarTagLen, if_pos hc]

theorem word_byte (h : identifierStart c = true ∨ c.isDigit = true) :
    c ≠ '-' ∧ c ≠ '/' ∧ isSpaceChar c = false ∧ c ≠ dquoteChar ∧ c ≠ quoteChar ∧ c ≠ '$' ∧
      c ≠ '.' := by
  refine ⟨?_, ?_, ?_, ?_, ?_, ?_, ?_⟩
  case refine_3 =>
    by_contra hspace
    rw [Bool.not_eq_false, isSpaceChar] at hspace
    have hlow : c.toNat ≤ 32 := by
      simp only [Bool.or_eq_true, Bool.and_eq_true, decide_eq_true_eq] at hspace
      omega
    have hcases : ∀ n ≤ 32, (identifierStart (Char.ofNat n) || (Char.ofNat n).isDigit) = false := by
      decide
    have hc := hcases _ hlow
    rw [Char.ofNat_toNat, Bool.or_eq_false_iff] at hc
    rcases h with h | h
    · exact absurd h (by rw [hc.1]; decide)
    · exact absurd h (by rw [hc.2]; decide)
  all_goals
    rintro rfl
    exact absurd h (by decide)

theorem not_digit_of_identifierStart (h : identifierStart c = true) : c.isDigit = false := by
  by_contra hdigit
  rw [Bool.not_eq_false, Char.isDigit_iff_toNat] at hdigit
  have hcases : ∀ n ≤ 57, 48 ≤ n → identifierStart (Char.ofNat n) = false := by decide
  have hc := hcases _ hdigit.2 hdigit.1
  rw [Char.ofNat_toNat, h] at hc
  exact Bool.noConfusion hc

theorem identifierStart_of_letter (h : c ∈ ['e', 'E', 'b', 'B', 'x', 'X', 'u', 'U']) :
    identifierStart c = true :=
  List.all_eq_true.mp
    (by decide : List.all ['e', 'E', 'b', 'B', 'x', 'X', 'u', 'U'] identifierStart = true) c h

theorem lexPiece_word (hc : identifierStart c = true)
    (hescape : ¬(c ∈ ['e', 'E', 'b', 'B', 'x', 'X'] ∧ cs.head? = some quoteChar ∧
      prev.all wordBoundary = true))
    (hunicode : ¬(c ∈ ['u', 'U'] ∧ cs.head? = some '&' ∧ cs.tail.head? = some quoteChar ∧
      prev.all wordBoundary = true)) :
    lexPiece prev c cs =
      some (.word (c :: cs.takeWhile identifierCont), (cs.takeWhile identifierCont).length) := by
  obtain ⟨hminus, hslash, hspace, hdquote, hquote, hdollar, hdot⟩ := word_byte (.inl hc)
  rw [lexPiece, if_neg fun h => hminus h.1, if_neg fun h => hslash h.1,
    if_neg (Bool.eq_false_iff.mp hspace), if_neg hdquote, if_neg hescape, if_neg hunicode,
    if_neg hquote, if_neg (not_not.mpr (dollarTagLen_of_ne hdollar cs)),
    if_neg fun h => Bool.eq_false_iff.mp (not_digit_of_identifierStart hc) h.1,
    if_neg fun h => hdot h.1, if_pos hc]
  rfl

theorem lexPiece_digit (hc : c.isDigit = true) :
    lexPiece prev c cs =
      if prev.all wordBoundary then
        some (.literal ((c :: cs).take (skipNumber (c :: cs) - 1 + 1)), skipNumber (c :: cs) - 1)
      else some (.punct c, 0) := by
  obtain ⟨hminus, hslash, hspace, hdquote, hquote, hdollar, hdot⟩ := word_byte (.inr hc)
  have hletters : ∀ d ∈ ['e', 'E', 'b', 'B', 'x', 'X', 'u', 'U'], d.isDigit = false := fun _ hd =>
    not_digit_of_identifierStart (identifierStart_of_letter hd)
  have hescape : c ∉ ['e', 'E', 'b', 'B', 'x', 'X'] := fun hmem =>
    Bool.eq_false_iff.mp (hletters c (List.mem_append_left ['u', 'U'] hmem)) hc
  have hunicode : c ∉ ['u', 'U'] := fun hmem =>
    Bool.eq_false_iff.mp
      (hletters c (List.mem_append_right ['e', 'E', 'b', 'B', 'x', 'X'] hmem)) hc
  have hstart : ¬identifierStart c = true := fun h =>
    Bool.eq_false_iff.mp (not_digit_of_identifierStart h) hc
  rw [lexPiece, if_neg fun h => hminus h.1, if_neg fun h => hslash h.1,
    if_neg (Bool.eq_false_iff.mp hspace), if_neg hdquote, if_neg fun h => hescape h.1,
    if_neg fun h => hunicode h.1, if_neg hquote,
    if_neg (not_not.mpr (dollarTagLen_of_ne hdollar cs))]
  by_cases hprev : prev.all wordBoundary = true
  · rw [if_pos ⟨hc, hprev⟩, if_pos hprev]
  · rw [if_neg fun h => hprev h.2, if_neg fun h => hdot h.1, if_neg hstart, if_neg hprev]

theorem lexPiece_quote (prev : Option Char) (cs : List Char) :
    lexPiece prev quoteChar cs =
      some (.literal ((quoteChar :: cs).take (skipQuoted cs + 1)), skipQuoted cs) := by
  rw [lexPiece, if_neg (by simp [quoteChar]), if_neg (by simp [quoteChar]), if_neg (by decide),
    if_neg (by decide), if_neg fun h => absurd h.1 (by decide),
    if_neg fun h => absurd h.1 (by decide), if_pos rfl]

theorem lexPiece_dot (h : ¬(cs.head?.any Char.isDigit = true ∧
      prev.all (fun p => p ≠ '.' && wordBoundary p) = true)) :
    lexPiece prev '.' cs = some (.punct '.', 0) := by
  rw [lexPiece, if_neg fun h => absurd h.1 (by decide), if_neg fun h => absurd h.1 (by decide),
    if_neg (by decide), if_neg (by decide), if_neg fun h => absurd h.1 (by decide),
    if_neg fun h => absurd h.1 (by decide), if_neg (by decide),
    if_neg (not_not.mpr (dollarTagLen_of_ne (by decide) cs)),
    if_neg fun h => absurd h.1 (by decide), if_neg fun hd => h hd.2, if_neg (by decide)]

theorem lexPiece_point (hdigit : cs.head?.any Char.isDigit = true)
    (hprev : prev.all (fun p => p ≠ '.' && wordBoundary p) = true) :
    lexPiece prev '.' cs =
      some (.literal (('.' :: cs).take (skipNumber ('.' :: cs) - 1 + 1)),
        skipNumber ('.' :: cs) - 1) := by
  rw [lexPiece, if_neg fun h => absurd h.1 (by decide), if_neg fun h => absurd h.1 (by decide),
    if_neg (by decide), if_neg (by decide), if_neg fun h => absurd h.1 (by decide),
    if_neg fun h => absurd h.1 (by decide), if_neg (by decide),
    if_neg (not_not.mpr (dollarTagLen_of_ne (by decide) cs)),
    if_neg fun h => absurd h.1 (by decide), if_pos ⟨rfl, hdigit, hprev⟩]

theorem lexPiece_ampersand (prev : Option Char) (cs : List Char) :
    lexPiece prev '&' cs = some (.punct '&', 0) := by
  rw [lexPiece, if_neg fun h => absurd h.1 (by decide), if_neg fun h => absurd h.1 (by decide),
    if_neg (by decide), if_neg (by decide), if_neg fun h => absurd h.1 (by decide),
    if_neg fun h => absurd h.1 (by decide), if_neg (by decide),
    if_neg (not_not.mpr (dollarTagLen_of_ne (by decide) cs)),
    if_neg fun h => absurd h.1 (by decide), if_neg fun h => absurd h.1 (by decide),
    if_neg (by decide)]

/-! ### Tokens -/

namespace LexesTo

variable {prev : Option Char} {c : Char} {cs : List Char} {n : ℕ}

theorem string (prev : Option Char) (h : skipQuoted cs = n) :
    LexesTo prev (quoteChar :: cs) [.literal ['?']] ((quoteChar :: cs)[n]?)
      ((quoteChar :: cs).drop (n + 1)) := by
  subst h
  exact piece (lexPiece_quote prev cs)

theorem letter (hc : identifierStart c = true) (hprev : ¬prev.all wordBoundary = true)
    (hcs : cs.takeWhile identifierCont = []) :
    LexesTo prev (c :: cs) [.word [c]] (some c) cs := by
  have hpiece : lexPiece prev c cs = some (.word [c], 0) := by
    rw [lexPiece_word hc (fun h => hprev h.2.2) fun h => hprev h.2.2.2, hcs]
    rfl
  exact piece hpiece

theorem digit (hc : c.isDigit = true) (hprev : ¬prev.all wordBoundary = true) :
    LexesTo prev (c :: cs) [.punct c] (some c) cs := by
  have hpiece : lexPiece prev c cs = some (.punct c, 0) := by
    rw [lexPiece_digit hc, if_neg hprev]
  exact piece hpiece

theorem not_boundary_of_digit (hc : c.isDigit = true) : wordBoundary c = false := by
  rw [wordBoundary, Char.isAlphanum, hc, Bool.or_true, Bool.true_or, Bool.true_or, Bool.true_or,
    Bool.not_true]

theorem digits {p : Char} {ds : List Char} (rest : List Char) (hds : ∀ d ∈ ds, d.isDigit = true)
    (hp : wordBoundary p = false) :
    LexesTo (some p) (ds ++ rest) (ds.map .punct) (p :: ds).getLast? rest := by
  induction ds generalizing p with
  | nil => exact refl (some p) rest
  | cons d ds ih =>
    obtain ⟨hd, hds⟩ := List.forall_mem_cons.mp hds
    have hprev : ¬(some p).all wordBoundary = true := by
      rw [Option.all_some, hp]
      exact Bool.false_ne_true
    rw [List.getLast?_cons_cons]
    exact (digit hd hprev).trans (ih hds (not_boundary_of_digit hd))

end LexesTo

theorem cleanNumber_spec {w next : List Char} (h : cleanNumber prev w next = true) :
    (w.head? = some '.' ∨ prev.all wordBoundary = true) ∧ next.head? ≠ some '_' ∧
      ¬((w = ['0'] ∨ lateNumber prev w = true ∧ w = ['.', '0']) ∧
        (next.head? = some 'x' ∨ next.head? = some 'X')) ∧
      ¬(lateNumber prev w = true ∧ w.tail.all Char.isDigit = true ∧ next.head? = some '.' ∧
        next.tail.head? ≠ some '.') := by
  rw [cleanNumber, Bool.and_eq_true, Bool.and_eq_true, Bool.and_eq_true] at h
  obtain ⟨⟨⟨hstart, hunder⟩, hhex⟩, hpoint⟩ := h
  refine ⟨?_, of_decide_eq_true hunder, ?_, ?_⟩
  · simpa using hstart
  · rw [Bool.not_eq_true', Bool.eq_false_iff] at hhex
    exact fun h => hhex (by simpa using h)
  · rw [Bool.not_eq_true', Bool.eq_false_iff] at hpoint
    exact fun h => hpoint (by simpa [and_assoc] using h)

theorem skipQuoted_of_clean {escapes : Bool} (h : stringEnd escapes cs = some n)
    (hclean : (escapes || quotesPlain false (cs.take (n - 1) ++ [quoteChar])) = true) :
    skipQuoted cs = n := by
  cases escapes with
  | true => exact skipQuoted_escapes h
  | false =>
    rw [Bool.false_or, (stringEnd_spec h).1] at hclean
    exact skipQuoted_plain h hclean

/-- Behind a token the scanner is at the next one, and has cut the token into its pieces. -/
def Lexed (prev : Option Char) (c : Char) (cs : List Char) (x : Option (PgToken × ℕ)) : Prop :=
  ∀ t, x = some t → t.1.clean prev ((c :: cs).drop (t.2 + 1)) = true →
    LexesTo prev (c :: cs) (t.1.pieces prev) ((c :: cs)[t.2]?) ((c :: cs).drop (t.2 + 1))

namespace Lexed

variable {prev : Option Char} {c : Char} {cs : List Char}

theorem some {t : PgToken × ℕ}
    (h : t.1.clean prev ((c :: cs).drop (t.2 + 1)) = true →
      LexesTo prev (c :: cs) (t.1.pieces prev) ((c :: cs)[t.2]?) ((c :: cs).drop (t.2 + 1))) :
    Lexed prev c cs (some t) := by
  intro u hu
  rw [← Option.some.inj hu]
  exact h

theorem map {x : Option ℕ} {f : ℕ → PgToken × ℕ}
    (h : ∀ n, x = .some n → (f n).1.clean prev ((c :: cs).drop ((f n).2 + 1)) = true →
      LexesTo prev (c :: cs) ((f n).1.pieces prev) ((c :: cs)[(f n).2]?)
        ((c :: cs).drop ((f n).2 + 1))) :
    Lexed prev c cs (x.map f) := by
  intro u hu
  obtain ⟨n, hn, rfl⟩ := Option.map_eq_some_iff.mp hu
  exact h n hn

theorem letter_string {escapes : Bool} (hc : c ∈ ['e', 'E', 'b', 'B', 'x', 'X'])
    (hq : cs.head? = Option.some quoteChar) :
    Lexed prev c cs ((stringEnd escapes cs.tail).map fun n =>
      (.str [c] (cs.tail.take (n - 1)) escapes, 1 + n)) := by
  obtain ⟨ds, rfl⟩ := List.head?_eq_some_iff.mp hq
  refine .map fun n hn hclean => ?_
  have hskip : skipQuoted ds = n := skipQuoted_of_clean hn hclean
  have hstart : identifierStart c = true :=
    identifierStart_of_letter (List.mem_append_left ['u', 'U'] hc)
  dsimp only
  rw [PgToken.pieces, Nat.add_comm 1 n]
  by_cases hprev : prev.all wordBoundary = true
  · rw [if_pos hprev]
    obtain ⟨hminus, hslash, hspace, hdquote, hquote, -, -⟩ := word_byte (.inl hstart)
    have hpiece : lexPiece prev c (quoteChar :: ds) =
        Option.some (.literal ((c :: quoteChar :: ds).take (1 + n + 1)), 1 + n) := by
      rw [lexPiece, if_neg fun h => hminus h.1, if_neg fun h => hslash h.1,
        if_neg (Bool.eq_false_iff.mp hspace), if_neg hdquote, if_pos ⟨hc, rfl, hprev⟩,
        List.tail_cons, hskip]
    have hlex := LexesTo.piece hpiece
    rw [Nat.add_comm 1 n] at hlex
    have hdot : ¬c = '.' := by
      rintro rfl
      exact absurd hstart (by decide)
    rwa [QueryLexeme.hide, List.take_succ_cons, List.head?_cons, if_neg
      (fun h => hdot (Option.some.inj h))] at hlex
  · rw [if_neg hprev]
    exact (LexesTo.letter hstart hprev rfl).trans (LexesTo.string (Option.some c) hskip)

/-- A string with Unicode escapes. -/
theorem unicode_string (hc : c ∈ ['u', 'U']) (hamp : cs.head? = Option.some '&')
    (hq : cs.tail.head? = Option.some quoteChar) :
    Lexed prev c cs ((stringEnd false cs.tail.tail).map fun n =>
      (.str [c, '&'] (cs.tail.tail.take (n - 1)) false, 2 + n)) := by
  obtain ⟨ds, rfl⟩ := List.head?_eq_some_iff.mp hamp
  obtain ⟨es, hes⟩ := List.head?_eq_some_iff.mp hq
  rw [List.tail_cons] at hes
  subst hes
  refine .map fun n hn hclean => ?_
  have hskip : skipQuoted es = n := skipQuoted_of_clean hn hclean
  have hstart : identifierStart c = true :=
    identifierStart_of_letter (List.mem_append_right ['e', 'E', 'b', 'B', 'x', 'X'] hc)
  dsimp only
  rw [PgToken.pieces, Nat.add_comm 2 n]
  by_cases hprev : prev.all wordBoundary = true
  · rw [if_pos hprev]
    obtain ⟨hminus, hslash, hspace, hdquote, hquote, -, -⟩ := word_byte (.inl hstart)
    have hpiece : lexPiece prev c ('&' :: quoteChar :: es) =
        Option.some (.literal ((c :: '&' :: quoteChar :: es).take (2 + n + 1)), 2 + n) := by
      rw [lexPiece, if_neg fun h => hminus h.1, if_neg fun h => hslash h.1,
        if_neg (Bool.eq_false_iff.mp hspace), if_neg hdquote,
        if_neg fun h => absurd (Option.some.inj h.2.1) (by decide), if_pos ⟨hc, rfl, rfl, hprev⟩,
        List.tail_cons, List.tail_cons, hskip]
    have hlex := LexesTo.piece hpiece
    rw [Nat.add_comm 2 n] at hlex
    have hdot : ¬c = '.' := by
      rintro rfl
      exact absurd hstart (by decide)
    rwa [QueryLexeme.hide, List.take_succ_cons, List.head?_cons, if_neg
      (fun h => hdot (Option.some.inj h))] at hlex
  · rw [if_neg hprev]
    exact (LexesTo.letter hstart hprev rfl).trans
      ((LexesTo.piece (lexPiece_ampersand (Option.some c) (quoteChar :: es))).trans
        (LexesTo.string (Option.some '&') hskip))

/-- A number. -/
theorem number (hc : c.isDigit = true ∨ c = '.' ∧ cs.head?.any Char.isDigit = true) :
    Lexed prev c cs (Option.some (.num ((c :: cs).take (numberLength (c :: cs) - 1 + 1)),
      numberLength (c :: cs) - 1)) := by
  refine .some fun hclean => ?_
  have hpos := Nat.sub_add_cancel (numberLength_pos hc)
  have hfirst : ((c :: cs).take (numberLength (c :: cs))).head? = Option.some c := by
    rw [← hpos]
    rfl
  dsimp only at hclean ⊢
  rw [hpos] at hclean ⊢
  obtain ⟨hstart, hunder, hhex, hpoint⟩ := cleanNumber_spec hclean
  rw [hfirst, Option.some.injEq] at hstart
  rw [PgToken.pieces, hfirst]
  rcases hc with hc | ⟨rfl, hdigit⟩
  · have hdot : ¬c = '.' := by
      rintro rfl
      exact absurd hc (by decide)
    have hlate : ¬lateNumber prev ((c :: cs).take (numberLength (c :: cs))) = true := by
      rw [lateNumber, hfirst, Bool.and_eq_true]
      exact fun h => hdot (Option.some.inj (of_decide_eq_true h.1))
    have hskip := skipNumber_digit hc hunder fun h => hhex ⟨Or.inl h.1, h.2⟩
    have hpiece : lexPiece prev c cs = Option.some
        (.literal ((c :: cs).take (numberLength (c :: cs))), numberLength (c :: cs) - 1) := by
      rw [lexPiece_digit hc, if_pos (hstart.resolve_left hdot), hskip, hpos]
    have hlex := LexesTo.piece hpiece
    rw [hpos, QueryLexeme.hide, hfirst] at hlex
    rwa [if_neg hlate]
  · obtain ⟨d, ds, rfl, hd⟩ := exists_cons_of_any hdigit
    by_cases hlate : lateNumber prev (('.' :: d :: ds).take (numberLength ('.' :: d :: ds))) = true
    · have hprev : ¬prev.all (fun p => p ≠ '.' && wordBoundary p) = true := by
        rw [lateNumber, Bool.and_eq_true] at hlate
        exact Bool.eq_false_iff.mp ((Bool.not_eq_true' _).mp hlate.2)
      have hskip := skipNumber_late hd hunder (fun h => hhex ⟨Or.inr ⟨hlate, h.1⟩, h.2⟩)
        fun h => hpoint ⟨hlate, h⟩
      have hlen : skipNumber (d :: ds) - 1 + 1 = numberLength ('.' :: d :: ds) - 1 := by
        have hm := mantissaLength_point (d :: ds)
        rw [digitCount_pos hd] at hm
        rw [numberLength_eq] at hskip ⊢
        omega
      have hpiece : lexPiece (Option.some '.') d ds = Option.some
          (.literal ((d :: ds).take (skipNumber (d :: ds) - 1 + 1)), skipNumber (d :: ds) - 1) := by
        rw [lexPiece_digit hd, if_pos (by decide)]
      have hpoint := LexesTo.piece (@lexPiece_dot (d :: ds) prev fun h => hprev h.2)
      have hlex := hpoint.trans (LexesTo.piece hpiece)
      have hdot : ¬d = '.' := by
        rintro rfl
        exact absurd hd (by decide)
      rw [QueryLexeme.hide, List.take_succ_cons, List.head?_cons,
        if_neg fun h => hdot (Option.some.inj h)] at hlex
      rw [if_pos hlate, ← hpos, ← hlen]
      exact hlex
    · have hprev : prev.all (fun p => p ≠ '.' && wordBoundary p) = true := by
        by_contra hprev
        rw [Bool.not_eq_true] at hprev
        rw [lateNumber, hfirst, hprev] at hlate
        exact hlate (by decide)
      have hskip := skipNumber_point hunder
      have hpiece : lexPiece prev '.' (d :: ds) = Option.some
          (.literal (('.' :: d :: ds).take (numberLength ('.' :: d :: ds))),
            numberLength ('.' :: d :: ds) - 1) := by
        rw [lexPiece_point hdigit hprev, hskip, hpos]
      have hlex := LexesTo.piece hpiece
      rw [hpos, QueryLexeme.hide, hfirst] at hlex
      rwa [if_neg hlate]

theorem of_piece {t : PgToken × ℕ} (h : lexPiece prev c cs = Option.some (p, t.2))
    (hp : t.1.pieces prev = [p.hide]) :
    LexesTo prev (c :: cs) (t.1.pieces prev) ((c :: cs)[t.2]?) ((c :: cs).drop (t.2 + 1)) := by
  rw [hp]
  exact LexesTo.piece h

/-- A parameter. -/
theorem param (hc : c = '$') (hdigit : cs.head?.any Char.isDigit = true) :
    Lexed prev c cs (Option.some
      (.param ((c :: cs).take (digitCount cs + 1)), digitCount cs)) := by
  subst hc
  refine .some fun _ => ?_
  obtain ⟨d, ds, rfl, hd⟩ := exists_cons_of_any hdigit
  have htag : dollarTagLen ('$' :: d :: ds) = 0 := by
    have hstart : tagStart d = false :=
      Bool.eq_false_iff.mpr fun h => Bool.eq_false_iff.mp (not_digit_of_identifierStart h) hd
    have hne : d ≠ '$' := (word_byte (.inr hd)).2.2.2.2.2.1
    rw [dollarTagLen, if_neg (by decide), if_neg hne, hstart]
    rfl
  have hpiece : lexPiece prev '$' (d :: ds) = Option.some (.punct '$', 0) := by
    rw [lexPiece, if_neg fun h => absurd h.1 (by decide), if_neg fun h => absurd h.1 (by decide),
      if_neg (by decide), if_neg (by decide), if_neg fun h => absurd h.1 (by decide),
      if_neg fun h => absurd h.1 (by decide), if_neg (by decide), if_neg (not_not.mpr htag),
      if_neg fun h => absurd h.1 (by decide), if_neg fun h => absurd h.1 (by decide),
      if_neg (by decide)]
  generalize d :: ds = cs at hpiece ⊢
  have htake : cs.take (digitCount cs) = cs.takeWhile Char.isDigit :=
    (List.prefix_iff_eq_take.mp (List.takeWhile_prefix _)).symm
  have hall : ∀ e ∈ cs.take (digitCount cs), e.isDigit = true := by
    rw [htake]
    exact List.all_eq_true.mp List.all_takeWhile
  have hlast : ('$' :: cs)[digitCount cs]? = ('$' :: cs.take (digitCount cs)).getLast? := by
    rw [← List.take_succ_cons, List.getLast?_take, if_neg (Nat.succ_ne_zero _),
      Nat.add_sub_cancel, List.getElem?_eq_getElem (Nat.lt_succ_of_le (digitCount_le cs)),
      Option.some_or]
  have hdigits := @LexesTo.digits '$' _ (cs.drop (digitCount cs)) hall (by decide)
  rw [List.take_append_drop, ← hlast] at hdigits
  exact (LexesTo.piece hpiece).trans hdigits

theorem dollar (htag : dollarTagLen (c :: cs) ≠ 0) :
    Lexed prev c cs
      ((findTag ((c :: cs).take (dollarTagLen (c :: cs)))
        ((c :: cs).drop (dollarTagLen (c :: cs)))).map fun k =>
          (.dollar ((c :: cs).take (dollarTagLen (c :: cs)))
            (((c :: cs).drop (dollarTagLen (c :: cs))).take k),
            dollarTagLen (c :: cs) + k + dollarTagLen (c :: cs) - 1)) := by
  have hc : c = '$' := by
    by_contra hc
    exact htag (dollarTagLen_of_ne hc cs)
  subst hc
  refine .map fun k hk _ => ?_
  have hpiece : lexPiece prev '$' cs = Option.some
      (.literal (('$' :: cs).take
          (dollarTagLen ('$' :: cs) + k + dollarTagLen ('$' :: cs) - 1 + 1)),
        dollarTagLen ('$' :: cs) + k + dollarTagLen ('$' :: cs) - 1) := by
    rw [lexPiece, if_neg fun h => absurd h.1 (by decide), if_neg fun h => absurd h.1 (by decide),
      if_neg (by decide), if_neg (by decide), if_neg fun h => absurd h.1 (by decide),
      if_neg fun h => absurd h.1 (by decide), if_neg (by decide), if_pos htag]
    dsimp only
    rw [hk]
    rfl
  exact of_piece hpiece rfl

theorem byte (hline : ¬(c = '-' ∧ cs.head? = Option.some '-'))
    (hblock : ¬(c = '/' ∧ cs.head? = Option.some '*')) (hdquote : ¬c = dquoteChar)
    (hquote : ¬c = quoteChar) (hident : ¬identifierStart c = true)
    (hnum : ¬(c.isDigit = true ∨ c = '.' ∧ cs.head?.any Char.isDigit = true))
    (hdollar : ¬dollarTagLen (c :: cs) ≠ 0) :
    Lexed prev c cs (Option.some (.byte c, 0)) := by
  refine .some fun _ => ?_
  by_cases hspace : isSpaceChar c = true
  · refine of_piece (p := .space c) ?_ ?_
    · rw [lexPiece, if_neg hline, if_neg hblock, if_pos hspace]
    · rw [PgToken.pieces, if_pos hspace]
      rfl
  · refine of_piece (p := .punct c) ?_ ?_
    · rw [lexPiece, if_neg hline, if_neg hblock, if_neg hspace, if_neg hdquote,
        if_neg fun h => hident (identifierStart_of_letter (List.mem_append_left ['u', 'U'] h.1)),
        if_neg fun h => hident (identifierStart_of_letter
          (List.mem_append_right ['e', 'E', 'b', 'B', 'x', 'X'] h.1)),
        if_neg hquote, if_neg hdollar, if_neg fun h => hnum (Or.inl h.1),
        if_neg fun h => hnum (Or.inr ⟨h.1, h.2.1⟩), if_neg hident]
    · rw [PgToken.pieces, if_neg hspace]
      rfl

end Lexed

/-- **The scanner cuts every token into its pieces**, if it finds the end of a constant. -/
theorem lexed_pgToken (escapes : Bool) (prev : Option Char) (c : Char) (cs : List Char) :
    Lexed prev c cs (pgToken escapes c cs) := by
  unfold pgToken
  refine iteInduction (fun h => .some fun _ => ?_) fun hline => ?_
  · refine Lexed.of_piece (p := .line _) ?_ rfl
    rw [lexPiece, if_pos h]
  refine iteInduction (fun h => .map fun k hk _ => ?_) fun hblock => ?_
  · refine Lexed.of_piece (p := .block _) ?_ rfl
    rw [lexPiece, if_neg hline, if_pos h, hk]
    rfl
  refine iteInduction (fun h => .map fun n hn _ => ?_) fun hdquote => ?_
  · subst h
    refine Lexed.of_piece (p := .quoted _) ?_ rfl
    rw [lexPiece, if_neg hline, if_neg hblock, if_neg (by decide), if_pos rfl, hn]
    rfl
  refine iteInduction (fun h => .map fun n hn hclean => ?_) fun hquote => ?_
  · subst h
    have hstring := LexesTo.string prev (skipQuoted_of_clean hn hclean)
    dsimp only
    rw [PgToken.pieces]
    split_ifs <;> exact hstring
  refine iteInduction (fun h => Lexed.letter_string ?_ h.2) fun he => ?_
  · exact List.mem_append_left ['b', 'B', 'x', 'X'] h.1
  refine iteInduction (fun h => Lexed.letter_string ?_ h.2) fun hb => ?_
  · exact List.mem_append_right ['e', 'E'] h.1
  refine iteInduction (fun h => Lexed.unicode_string h.1 h.2.1 h.2.2) fun hu => ?_
  refine iteInduction (fun h => .some fun _ => ?_) fun hident => ?_
  · refine Lexed.of_piece (lexPiece_word h ?_ fun hu' => hu ⟨hu'.1, hu'.2.1, hu'.2.2.1⟩) rfl
    rintro ⟨hmem, hq, -⟩
    rcases (List.mem_append (s := ['e', 'E'])).mp hmem with hmem | hmem
    · exact he ⟨hmem, hq⟩
    · exact hb ⟨hmem, hq⟩
  refine iteInduction (fun h => Lexed.number h) fun hnum => ?_
  refine iteInduction (fun h => .some fun _ => ?_) fun _ => ?_
  · obtain ⟨rfl, hdot⟩ := h
    obtain ⟨ds, rfl⟩ := List.head?_eq_some_iff.mp hdot
    exact (LexesTo.piece (lexPiece_dot fun h => Bool.noConfusion h.1)).trans
      (LexesTo.piece (@lexPiece_dot _ (some '.') fun h => absurd h.2 (by decide)))
  refine iteInduction (fun h => Lexed.param h.1 h.2) fun _ => ?_
  refine iteInduction (fun h => Lexed.dollar h) fun hdollar => ?_
  exact Lexed.byte hline hblock hdquote hquote hident hnum hdollar

theorem getElem?_eq_getLast?_take (h : n < cs.length) : cs[n]? = (cs.take (n + 1)).getLast? := by
  rw [List.getLast?_take, if_neg (Nat.succ_ne_zero n), Nat.add_sub_cancel,
    List.getElem?_eq_getElem h, Option.some_or]

theorem lexes_pgTokensFrom {cont : Option Bool} (h : pgTokensFrom n cont cs = some ts)
    (hclean : cleanTokens prev ts = true) : ∃ last, LexesTo prev cs (pieces prev ts) last [] := by
  induction n generalizing cont prev cs ts with
  | zero =>
    cases cs with
    | nil =>
      obtain rfl := Option.some.inj h
      exact ⟨prev, .refl prev []⟩
    | cons c cs => exact nomatch h
  | succ n ih =>
    cases cs with
    | nil =>
      obtain rfl := Option.some.inj h
      exact ⟨prev, .refl prev []⟩
    | cons c cs =>
      rw [pgTokensFrom] at h
      obtain ⟨t, ht, h⟩ := Option.bind_eq_some_iff.mp h
      obtain ⟨us, hus, rfl⟩ := Option.map_eq_some_iff.mp h
      rw [cleanTokens, flatMap_text_pgTokensFrom hus, Bool.and_eq_true] at hclean
      obtain ⟨htext, hlt⟩ := spans_pgToken _ c cs t ht
      have hfirst := lexed_pgToken _ prev c cs t ht hclean.1
      rw [getElem?_eq_getLast?_take hlt, ← htext] at hfirst
      obtain ⟨last, hrest⟩ := ih hus hclean.2
      exact ⟨last, hfirst.trans hrest⟩

/-- **The pieces of a text** are those of its tokens. -/
theorem lexQuery_pgTokens {input : List Char} (h : pgTokens input = some ts)
    (hclean : cleanTokens none ts = true) :
    ∃ ps, lexQuery input = some ps ∧ ps.map QueryLexeme.hide = pieces none ts := by
  obtain ⟨last, ps, hps, hlex⟩ := lexes_pgTokensFrom h hclean
  refine ⟨ps, ?_, hps⟩
  have hlex : lexQuery input = some (ps ++ []) := hlex
  rw [hlex, List.append_nil]

/-! ### Masked tokens -/

/-- A byte without the value of a digit. -/
def digitShape (c : Char) : Char := if c.isDigit then '0' else c

theorem eq_or_digits_of_shape {c' : Char} (h : digitShape c = digitShape c') :
    c = c' ∨ c.isDigit = true ∧ c'.isDigit = true := by
  rw [digitShape, digitShape] at h
  split_ifs at h with hc hc'
  · exact Or.inr ⟨hc, hc'⟩
  · exact absurd (h ▸ rfl) hc'
  · exact absurd (h ▸ rfl) hc
  · exact Or.inl h

theorem numberShape_cons (c : Char) (w : List Char) :
    numberShape (c :: w) =
      if c.isDigit ∧ (numberShape w).head? = some '0' then numberShape w
      else digitShape c :: numberShape w := by
  rw [digitShape, numberShape, List.foldr_cons, ← numberShape]
  by_cases hc : c.isDigit = true
  · by_cases hhead : (numberShape w).head? = some '0'
    · rw [if_pos hc, if_pos hhead, if_pos ⟨hc, hhead⟩]
    · rw [if_pos hc, if_neg hhead, if_neg fun h => hhead h.2, if_pos hc]
  · rw [if_neg hc, if_neg fun h => hc h.1, if_neg hc]

theorem head?_numberShape (w : List Char) : (numberShape w).head? = w.head?.map digitShape := by
  cases w with
  | nil => rfl
  | cons c w =>
    rw [numberShape_cons]
    split_ifs with h
    · rw [h.2, List.head?_cons, Option.map_some, digitShape, if_pos h.1]
    · rfl

theorem getLast?_numberShape (w : List Char) :
    (numberShape w).getLast? = w.getLast?.map digitShape := by
  induction w with
  | nil => rfl
  | cons c w ih =>
    cases w with
    | nil =>
      rw [numberShape_cons, if_neg fun h => nomatch h.2]
      rfl
    | cons d w =>
      rw [numberShape_cons, List.getLast?_cons_cons, ← ih]
      split_ifs with h
      · rfl
      · obtain ⟨e, es, hes⟩ : ∃ e es, numberShape (d :: w) = e :: es := by
          refine List.exists_cons_of_ne_nil fun hnil => ?_
          have hhead := head?_numberShape (d :: w)
          rw [hnil] at hhead
          exact nomatch hhead
        rw [hes, List.getLast?_cons_cons]

/-- Two bytes that the scanner does not tell apart when it looks back at them. -/
def SameBehind (prev prev' : Option Char) : Prop := prev.map digitShape = prev'.map digitShape

namespace SameBehind

variable {prev prev' : Option Char}

theorem eq_or_digits (h : SameBehind prev prev') :
    prev = prev' ∨ ∃ c c', prev = some c ∧ prev' = some c' ∧ c.isDigit = true ∧
      c'.isDigit = true := by
  cases prev with
  | none => exact Or.inl (Option.map_eq_none_iff.mp h.symm).symm
  | some c =>
    obtain ⟨c', hc', hshape⟩ := Option.map_eq_some_iff.mp h.symm
    subst hc'
    rcases eq_or_digits_of_shape hshape with rfl | ⟨hc', hc⟩
    · exact Or.inl rfl
    · exact Or.inr ⟨c, c', rfl, rfl, hc, hc'⟩

theorem all_wordBoundary (h : SameBehind prev prev') :
    prev.all wordBoundary = prev'.all wordBoundary := by
  rcases h.eq_or_digits with rfl | ⟨c, c', rfl, rfl, hc, hc'⟩
  · rfl
  · rw [Option.all_some, Option.all_some, LexesTo.not_boundary_of_digit hc,
      LexesTo.not_boundary_of_digit hc']

theorem all_pointStart (h : SameBehind prev prev') :
    prev.all (fun p => p ≠ '.' && wordBoundary p) =
      prev'.all (fun p => p ≠ '.' && wordBoundary p) := by
  rcases h.eq_or_digits with rfl | ⟨c, c', rfl, rfl, hc, hc'⟩
  · rfl
  · rw [Option.all_some, Option.all_some, LexesTo.not_boundary_of_digit hc,
      LexesTo.not_boundary_of_digit hc', Bool.and_false, Bool.and_false]

end SameBehind

namespace PgToken

/-- The tag of a dollar-quoted string is not empty. -/
def Tagged : PgToken → Prop
  | dollar tag _ => tag ≠ []
  | _ => True

theorem head?_point_of_shape {w w' : List Char} (h : numberShape w = numberShape w') :
    w.head? = some '.' ↔ w'.head? = some '.' := by
  have hhead : SameBehind w.head? w'.head? := by
    rw [SameBehind, ← head?_numberShape, h, head?_numberShape]
  rcases hhead.eq_or_digits with heq | ⟨c, c', hc, hc', hdigit, hdigit'⟩
  · rw [heq]
  · rw [hc, hc']
    refine iff_of_false ?_ ?_ <;> rintro ⟨⟩
    · exact absurd hdigit (by decide)
    · exact absurd hdigit' (by decide)

theorem eq_or_constant_of_mask {t t' : PgToken} (h : t.mask = t'.mask) :
    t = t' ∨
      (∃ start body body' escapes, t = str start body escapes ∧ t' = str start body' escapes) ∨
      (∃ tag body body', t = dollar tag body ∧ t' = dollar tag body') ∨
      ∃ w w', t = num w ∧ t' = num w' ∧ numberShape w = numberShape w' := by
  cases t with
  | str start body escapes =>
    cases t' with
    | str start' body' escapes' =>
      obtain ⟨rfl, -, rfl⟩ := PgToken.str.inj h
      exact Or.inr (Or.inl ⟨start, body, body', escapes, rfl, rfl⟩)
    | _ => exact nomatch h
  | dollar tag body =>
    cases t' with
    | dollar tag' body' =>
      obtain ⟨rfl, -⟩ := PgToken.dollar.inj h
      exact Or.inr (Or.inr (Or.inl ⟨tag, body, body', rfl, rfl⟩))
    | _ => exact nomatch h
  | num w =>
    cases t' with
    | num w' => exact Or.inr (Or.inr (Or.inr ⟨w, w', rfl, rfl, PgToken.num.inj h⟩))
    | _ => exact nomatch h
  | _ =>
    cases t' with
    | str _ _ _ => exact nomatch h
    | dollar _ _ => exact nomatch h
    | num _ => exact nomatch h
    | _ => exact Or.inl h

theorem pieces_mask {t t' : PgToken} {prev' : Option Char} (h : t.mask = t'.mask)
    (hprev : SameBehind prev prev') : t.pieces prev = t'.pieces prev' := by
  have hsame : ∀ t : PgToken, t.pieces prev = t.pieces prev' := by
    intro t
    cases t with
    | str start body escapes => simp only [pieces, hprev.all_wordBoundary]
    | num w => rw [pieces, pieces, lateNumber, lateNumber, hprev.all_pointStart]
    | _ => rfl
  rcases eq_or_constant_of_mask h with rfl | ⟨start, body, body', escapes, rfl, rfl⟩ |
    ⟨tag, body, body', rfl, rfl⟩ | ⟨w, w', rfl, rfl, hshape⟩
  · exact hsame t
  · exact hsame (str start body escapes)
  · rfl
  · have hpoint := head?_point_of_shape hshape
    rw [hsame]
    by_cases hw : w.head? = some '.'
    · simp only [pieces, lateNumber, hw, hpoint.mp hw]
    · simp [pieces, lateNumber, hw, mt hpoint.mpr hw]

theorem getLast?_mask {t t' : PgToken} (h : t.mask = t'.mask) (ht : t.Tagged) :
    SameBehind t.text.getLast? t'.text.getLast? := by
  rcases eq_or_constant_of_mask h with rfl | ⟨start, body, body', escapes, rfl, rfl⟩ |
    ⟨tag, body, body', rfl, rfl⟩ | ⟨w, w', rfl, rfl, hshape⟩
  · rfl
  · rw [text, text, List.getLast?_concat, List.getLast?_concat]
    rfl
  · obtain ⟨c, hc⟩ := Option.isSome_iff_exists.mp (List.getLast?_isSome.mpr ht)
    simp only [text, List.getLast?_append, hc, Option.some_or]
    rfl
  · rw [SameBehind, text, text, ← getLast?_numberShape, hshape, getLast?_numberShape]

end PgToken

theorem pieces_mask {ts' : List PgToken} {prev' : Option Char}
    (h : ts.map PgToken.mask = ts'.map PgToken.mask) (htagged : ∀ t ∈ ts, t.Tagged)
    (hprev : SameBehind prev prev') : pieces prev ts = pieces prev' ts' := by
  induction ts generalizing ts' prev prev' with
  | nil =>
    rw [List.map_nil, eq_comm, List.map_eq_nil_iff] at h
    rw [h]
    rfl
  | cons t ts ih =>
    rw [List.map_cons, eq_comm, List.map_eq_cons_iff] at h
    obtain ⟨t', ts', rfl, hhead, htail⟩ := h
    obtain ⟨ht, hts⟩ := List.forall_mem_cons.mp htagged
    rw [pieces, pieces, PgToken.pieces_mask hhead.symm hprev,
      ih htail.symm hts (PgToken.getLast?_mask hhead.symm ht)]

/-! ### Two texts -/

theorem tagged_pgToken (escapes : Bool) (c : Char) (cs : List Char) :
    ∀ t, pgToken escapes c cs = some t → t.1.Tagged := by
  have hsome : ∀ {u : PgToken × ℕ}, u.1.Tagged →
      ∀ t : PgToken × ℕ, some u = some t → t.1.Tagged := by
    intro u hu t ht
    rwa [← Option.some.inj ht]
  have hmap : ∀ {x : Option ℕ} {f : ℕ → PgToken × ℕ}, (∀ n, (f n).1.Tagged) →
      ∀ t : PgToken × ℕ, x.map f = some t → t.1.Tagged := by
    intro x f hf t ht
    obtain ⟨n, -, rfl⟩ := Option.map_eq_some_iff.mp ht
    exact hf n
  have hite : ∀ {p : Prop} [Decidable p] {x y : Option (PgToken × ℕ)},
      (p → ∀ t : PgToken × ℕ, x = some t → t.1.Tagged) →
      (¬p → ∀ t : PgToken × ℕ, y = some t → t.1.Tagged) →
        ∀ t : PgToken × ℕ, (if p then x else y) = some t → t.1.Tagged :=
    fun hx hy => iteInduction (motive := fun x => ∀ t : PgToken × ℕ, x = some t → t.1.Tagged) hx hy
  unfold pgToken
  refine hite (fun _ => hsome trivial) fun _ => ?_
  refine hite (fun _ => hmap fun _ => trivial) fun _ => ?_
  refine hite (fun _ => hmap fun _ => trivial) fun _ => ?_
  refine hite (fun _ => hmap fun _ => trivial) fun _ => ?_
  refine hite (fun _ => hmap fun _ => trivial) fun _ => ?_
  refine hite (fun _ => hmap fun _ => trivial) fun _ => ?_
  refine hite (fun _ => hmap fun _ => trivial) fun _ => ?_
  refine hite (fun _ => hsome trivial) fun _ => ?_
  refine hite (fun _ => hsome trivial) fun _ => ?_
  refine hite (fun _ => hsome trivial) fun _ => ?_
  refine hite (fun _ => hsome trivial) fun _ => ?_
  refine hite (fun htag => hmap fun _ hnil => ?_) fun _ => hsome trivial
  rcases List.take_eq_nil_iff.mp hnil with hzero | hnil
  · exact htag hzero
  · exact nomatch hnil

theorem tagged_pgTokensFrom {cont : Option Bool} (h : pgTokensFrom n cont cs = some ts) :
    ∀ t ∈ ts, t.Tagged := by
  induction n generalizing cont cs ts with
  | zero =>
    cases cs with
    | nil =>
      obtain rfl := Option.some.inj h
      exact List.forall_mem_nil _
    | cons c cs => exact nomatch h
  | succ n ih =>
    cases cs with
    | nil =>
      obtain rfl := Option.some.inj h
      exact List.forall_mem_nil _
    | cons c cs =>
      rw [pgTokensFrom] at h
      obtain ⟨t, ht, h⟩ := Option.bind_eq_some_iff.mp h
      obtain ⟨us, hus, rfl⟩ := Option.map_eq_some_iff.mp h
      exact List.forall_mem_cons.mpr ⟨tagged_pgToken _ c cs t ht, ih hus⟩

/-- **A normalised text does not contain literal data**, if the scanner finds the ends of the
constants: two texts whose tokens are the same but for the contents of strings and the digits of
numbers have the same normalised text and the same key, or both are refused. -/
theorem normalizeQuery_hides {input input' : List Char} {ts ts' : List PgToken} {size : ℕ}
    (htokens : pgTokens input = some ts) (htokens' : pgTokens input' = some ts')
    (hmask : ts.map PgToken.mask = ts'.map PgToken.mask)
    (hclean : cleanTokens none ts = true) (hclean' : cleanTokens none ts' = true) :
    normalizeQuery input size = normalizeQuery input' size ∧
      ∀ databaseid userid, syntheticQuery databaseid userid input size =
        syntheticQuery databaseid userid input' size := by
  rw [and_iff_left_of_imp fun h => syntheticQuery_congr h]
  obtain ⟨ps, hps, hhide⟩ := lexQuery_pgTokens htokens hclean
  obtain ⟨ps', hps', hhide'⟩ := lexQuery_pgTokens htokens' hclean'
  have hsame : ps.map QueryLexeme.hide = ps'.map QueryLexeme.hide := by
    rw [hhide, hhide', pieces_mask hmask (tagged_pgTokensFrom htokens) rfl]
  rw [normalizeQuery_eq, normalizeQuery_eq, hps, hps', Option.bind_some, Option.bind_some,
    emitLexemes_hide hsame (formed_lexFrom hps) (formed_lexFrom hps')]

/-- The theorem at two texts with a string, a number and a dollar-quoted string. -/
theorem normalizeQuery_hides_insert :
    normalizeQuery "insert t values('a',.5,$x$b$x$)".toList 100 =
        normalizeQuery "insert t values('it''s',.25,$x$'$x$)".toList 100 ∧
      ∀ databaseid userid,
        syntheticQuery databaseid userid "insert t values('a',.5,$x$b$x$)".toList 100 =
          syntheticQuery databaseid userid "insert t values('it''s',.25,$x$'$x$)".toList 100 :=
  @normalizeQuery_hides _ _
    [.name "insert".toList, .byte ' ', .name ['t'], .byte ' ', .name "values".toList, .byte '(',
      .str [] ['a'] false, .byte ',', .num ".5".toList, .byte ',', .dollar "$x$".toList ['b'],
      .byte ')']
    [.name "insert".toList, .byte ' ', .name ['t'], .byte ' ', .name "values".toList, .byte '(',
      .str [] "it''s".toList false, .byte ',', .num ".25".toList, .byte ',',
      .dollar "$x$".toList [quoteChar], .byte ')'] 100
    (by decide +kernel) (by decide +kernel) (by decide +kernel) (by decide +kernel)
    (by decide +kernel)

/-- The tokens of two texts are the same but for literals, and their normalised texts are not. -/
def Leaks (input input' : List Char) (size : ℕ) : Prop :=
  (pgTokens input).isSome ∧
    (pgTokens input).map (List.map PgToken.mask) = (pgTokens input').map (List.map PgToken.mask) ∧
    normalizeQuery input size ≠ normalizeQuery input' size

instance (input input' : List Char) (size : ℕ) : Decidable (Leaks input input' size) :=
  inferInstanceAs (Decidable (_ ∧ _ ∧ _))

/-- The scanner misses the end of a string behind a backslash, the start of a number behind a
dollar-quoted string, and the end of a number behind an x, an underscore or a second point. -/
theorem normalizeQuery_leaks :
    Leaks "select 'a\\', 'secret'".toList "select 'a\\', 'public'".toList 100 ∧
      Leaks "select $$a$$5".toList "select $$a$$6".toList 100 ∧
      Leaks "select 0x1".toList "select 7x1".toList 100 ∧
      Leaks "select 1_0e+5e3".toList "select 1_0e+5e4".toList 100 ∧
      Leaks "select a.5.e+5e3".toList "select a.5.e+5e4".toList 100 := by
  decide +kernel

end PgWaitTracer
