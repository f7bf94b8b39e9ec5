import Mathlib.Data.List.TakeWhile
import PgWaitTracer.SyntheticQuery.Normalize

/-!
# The tokens of a query text

What PostgreSQL 13 takes for a token, with standard-conforming strings: a backslash escapes in an
`E` string only, doubled quotes escape a quote, a dollar-quoted string ends at its own tag, comments
nest, and a string goes on behind a line break. This is not translated from the source; the scanner
is compared with it.

## Main results
-/

namespace PgWaitTracer

/-- A token, or a blank or a comment: a single byte, the two dots of a range, comments, a word, a
quoted identifier, a parameter, a string with its prefix, a dollar-quoted string, a number. -/
inductive PgToken
  | byte (c : Char)
  | dots
  | line (text : List Char)
  | block (text : List Char)
  | name (text : List Char)
  | quoted (text : List Char)
  | param (text : List Char)
  | str (start body : List Char) (escapes : Bool)
  | dollar (tag body : List Char)
  | num (text : List Char)
  deriving DecidableEq, Repr

/-- The bytes of a number without its digits: every run of digits is one zero. -/
def numberShape (w : List Char) : List Char :=
  w.foldr (fun c acc =>
    if c.isDigit then if acc.head? = some '0' then acc else '0' :: acc else c :: acc) []

namespace PgToken

/-- The bytes of a token. -/
def text : PgToken → List Char
  | byte c => [c]
  | dots => ['.', '.']
  | line w => w
  | block w => w
  | name w => w
  | quoted w => w
  | param w => w
  | str start body _ => start ++ quoteChar :: body ++ [quoteChar]
  | dollar tag body => tag ++ body ++ tag
  | num w => w

/-- The token without the contents of a constant. -/
def mask : PgToken → PgToken
  | str start _ escapes => str start [] escapes
  | dollar tag _ => dollar tag []
  | num w => num (numberShape w)
  | t => t

end PgToken

/-! ### The rules -/

/-- The length of a string behind its opening quote, with its closing quote. -/
def stringEnd (escapes : Bool) : List Char → Option ℕ
  | [] => none
  | [c] => if c = quoteChar then some 1 else none
  | c :: d :: cs =>
    if escapes = true ∧ c = backslashChar then (stringEnd escapes cs).map (· + 2)
    else if c = quoteChar then
      if d = quoteChar then (stringEnd escapes cs).map (· + 2) else some 1
    else (stringEnd escapes (d :: cs)).map (· + 1)

/-- The number of digits in front of a text. -/
def digitCount (cs : List Char) : ℕ := (cs.takeWhile Char.isDigit).length

/-- The length of an exponent. -/
def exponentLength (cs : List Char) : ℕ :=
  if cs.head? = some 'e' ∨ cs.head? = some 'E' then
    let sign := if cs.tail.head? = some '+' ∨ cs.tail.head? = some '-' then 1 else 0
    if (cs.drop (1 + sign)).head?.any Char.isDigit then 1 + sign + digitCount (cs.drop (1 + sign))
    else 0
  else 0

/-- The length of a number: digits, a point with digits unless it is the first of two points, and an
exponent. -/
def numberLength (cs : List Char) : ℕ :=
  let n := digitCount cs
  let m :=
    if (cs.drop n).head? = some '.' ∧ (n = 0 ∨ (cs.drop (n + 1)).head? ≠ some '.') then
      n + 1 + digitCount (cs.drop (n + 1))
    else n
  m + exponentLength (cs.drop m)

/-- The first token of a text, and its length less one; `escapes` says that a string goes on in
which a backslash escapes. -/
def pgToken (escapes : Bool) (c : Char) (cs : List Char) : Option (PgToken × ℕ) :=
  let text := fun n => (c :: cs).take (n + 1)
  if c = '-' ∧ cs.head? = some '-' then
    let n := 1 + (cs.tail.takeWhile fun d => d ≠ newlineChar ∧ d ≠ returnChar).length
    some (.line (text n), n)
  else if c = '/' ∧ cs.head? = some '*' then
    (blockEnd 1 cs.tail).map fun k => (.block (text (1 + k)), 1 + k)
  else if c = dquoteChar then (quotedEnd cs).map fun n => (.quoted (text n), n)
  else if c = quoteChar then
    (stringEnd escapes cs).map fun n => (.str [] (cs.take (n - 1)) escapes, n)
  else if c ∈ ['e', 'E'] ∧ cs.head? = some quoteChar then
    (stringEnd true cs.tail).map fun n => (.str [c] (cs.tail.take (n - 1)) true, 1 + n)
  else if c ∈ ['b', 'B', 'x', 'X'] ∧ cs.head? = some quoteChar then
    (stringEnd false cs.tail).map fun n => (.str [c] (cs.tail.take (n - 1)) false, 1 + n)
  else if c ∈ ['u', 'U'] ∧ cs.head? = some '&' ∧ cs.tail.head? = some quoteChar then
    (stringEnd false cs.tail.tail).map fun n =>
      (.str [c, '&'] (cs.tail.tail.take (n - 1)) false, 2 + n)
  else if identifierStart c then
    let w := c :: cs.takeWhile identifierCont
    some (.name w, w.length - 1)
  else if c.isDigit ∨ c = '.' ∧ cs.head?.any Char.isDigit then
    some (.num (text (numberLength (c :: cs) - 1)), numberLength (c :: cs) - 1)
  else if c = '.' ∧ cs.head? = some '.' then some (.dots, 1)
  else if c = '$' ∧ cs.head?.any Char.isDigit then
    some (.param (text (digitCount cs)), digitCount cs)
  else if dollarTagLen (c :: cs) ≠ 0 then
    let n := dollarTagLen (c :: cs)
    (findTag ((c :: cs).take n) ((c :: cs).drop n)).map fun k =>
      (.dollar ((c :: cs).take n) (((c :: cs).drop n).take k), n + k + n - 1)
  else some (.byte c, 0)

/-- Whether a quote behind the token opens a new string or goes on with an `E` string: that needs a
line break, and nothing but blanks and line comments. -/
def continuation (cont : Option Bool) : PgToken → Option Bool
  | .str _ _ escapes => if escapes then some false else none
  | .line _ => cont
  | .byte c =>
    if c = newlineChar ∨ c = returnChar then cont.map fun _ => true
    else if c = ' ' ∨ c.toNat = 9 ∨ c.toNat = 12 then cont
    else none
  | _ => none

/-- The tokens of a text, at most `n` of them. A text that is not complete has none. -/
def pgTokensFrom : ℕ → Option Bool → List Char → Option (List PgToken)
  | _, _, [] => some []
  | 0, _, _ :: _ => none
  | n + 1, cont, c :: cs =>
    (pgToken (cont = some true) c cs).bind fun t =>
      (pgTokensFrom n (continuation cont t.1) ((c :: cs).drop (t.2 + 1))).map (t.1 :: ·)

/-- The tokens of a text. -/
def pgTokens (input : List Char) : Option (List PgToken) := pgTokensFrom input.length none input

/-! ### Where the scanner finds the ends of constants -/

/-- No quote stands behind an odd number of backslashes. -/
def quotesPlain : Bool → List Char → Bool
  | _, [] => true
  | odd, c :: cs =>
    if c = backslashChar then quotesPlain (!odd) cs
    else if c = quoteChar then !odd && quotesPlain false cs
    else quotesPlain false cs

/-- The scanner does not take the point of a number that starts with it for its start: the point
stands behind a byte of an identifier or another point. -/
def lateNumber (prev : Option Char) (w : List Char) : Bool :=
  w.head? = some '.' && !prev.all (fun p => p ≠ '.' && wordBoundary p)

/-- The scanner starts and ends a number where it starts and ends. A number that starts with a digit
does not stand behind a byte of an identifier, which it does behind a dollar-quoted string; a number
is not followed by an underscore; a zero is not followed by an x; and a number whose point is not
taken for its start is not followed by another point. -/
def cleanNumber (prev : Option Char) (w next : List Char) : Bool :=
  (w.head? = some '.' || prev.all wordBoundary) && next.head? ≠ some '_' &&
    !((w = ['0'] || (lateNumber prev w && w = ['.', '0'])) &&
      (next.head? = some 'x' || next.head? = some 'X')) &&
    !(lateNumber prev w && w.tail.all Char.isDigit && next.head? = some '.' &&
      next.tail.head? ≠ some '.')

/-- The scanner finds the end of the constant. -/
def PgToken.clean (prev : Option Char) (next : List Char) : PgToken → Bool
  | .str _ body escapes => escapes || quotesPlain false (body ++ [quoteChar])
  | .num w => cleanNumber prev w next
  | _ => true

/-- The scanner finds the ends of all constants. -/
def cleanTokens : Option Char → List PgToken → Bool
  | _, [] => true
  | prev, t :: ts =>
    t.clean prev (ts.flatMap PgToken.text) && cleanTokens t.text.getLast? ts

/-! ### Texts of tokens -/

variable {cs : List Char}

theorem stringEnd_spec {escapes : Bool} {n : ℕ} (h : stringEnd escapes cs = some n) :
    cs.take (n - 1) ++ [quoteChar] = cs.take n ∧ 1 ≤ n := by
  induction cs using (stringEnd.induct escapes) generalizing n with
  | case1 => exact nomatch h
  | case2 =>
    rw [stringEnd, if_pos rfl] at h
    rw [← Option.some.inj h]
    exact ⟨rfl, le_rfl⟩
  | case3 c hc =>
    rw [stringEnd, if_neg hc] at h
    exact nomatch h
  | case4 c d cs hc ih =>
    rw [stringEnd, if_pos hc] at h
    obtain ⟨m, hm, rfl⟩ := Option.map_eq_some_iff.mp h
    obtain ⟨htake, hpos⟩ := ih hm
    obtain ⟨k, rfl⟩ := Nat.exists_eq_add_of_le' hpos
    refine ⟨?_, by omega⟩
    simpa using htake
  | case5 cs hc ih =>
    rw [stringEnd, if_neg hc, if_pos rfl, if_pos rfl] at h
    obtain ⟨m, hm, rfl⟩ := Option.map_eq_some_iff.mp h
    obtain ⟨htake, hpos⟩ := ih hm
    obtain ⟨k, rfl⟩ := Nat.exists_eq_add_of_le' hpos
    refine ⟨?_, by omega⟩
    simpa using htake
  | case6 d cs hc hd =>
    rw [stringEnd, if_neg hc, if_pos rfl, if_neg hd] at h
    rw [← Option.some.inj h]
    exact ⟨rfl, le_rfl⟩
  | case7 c d cs hc hq ih =>
    rw [stringEnd, if_neg hc, if_neg hq] at h
    obtain ⟨m, hm, rfl⟩ := Option.map_eq_some_iff.mp h
    obtain ⟨htake, hpos⟩ := ih hm
    obtain ⟨k, rfl⟩ := Nat.exists_eq_add_of_le' hpos
    refine ⟨?_, by omega⟩
    simpa using htake

theorem length_stringEnd {escapes : Bool} {n : ℕ} (h : stringEnd escapes cs = some n) :
    n ≤ cs.length := by
  induction cs using (stringEnd.induct escapes) generalizing n with
  | case1 => exact nomatch h
  | case2 =>
    rw [stringEnd, if_pos rfl] at h
    rw [← Option.some.inj h]
    exact le_rfl
  | case3 c hc =>
    rw [stringEnd, if_neg hc] at h
    exact nomatch h
  | case4 c d cs hc ih =>
    rw [stringEnd, if_pos hc] at h
    obtain ⟨m, hm, rfl⟩ := Option.map_eq_some_iff.mp h
    exact Nat.add_le_add_right (ih hm) 2
  | case5 cs hc ih =>
    rw [stringEnd, if_neg hc, if_pos rfl, if_pos rfl] at h
    obtain ⟨m, hm, rfl⟩ := Option.map_eq_some_iff.mp h
    exact Nat.add_le_add_right (ih hm) 2
  | case6 d cs hc hd =>
    rw [stringEnd, if_neg hc, if_pos rfl, if_neg hd] at h
    rw [← Option.some.inj h]
    exact Nat.succ_le_succ (Nat.zero_le _)
  | case7 c d cs hc hq ih =>
    rw [stringEnd, if_neg hc, if_neg hq] at h
    obtain ⟨m, hm, rfl⟩ := Option.map_eq_some_iff.mp h
    exact Nat.add_le_add_right (ih hm) 1

theorem length_quotedEnd {n : ℕ} (h : quotedEnd cs = some n) : n ≤ cs.length := by
  induction cs using quotedEnd.induct generalizing n with
  | case1 => cases h
  | case2 =>
    rw [quotedEnd, if_pos rfl] at h
    rw [← Option.some.inj h]
    exact le_rfl
  | case3 c hc =>
    rw [quotedEnd, if_neg hc] at h
    cases h
  | case4 cs ih =>
    rw [quotedEnd, if_pos rfl, if_pos rfl] at h
    obtain ⟨m, hm, rfl⟩ := Option.map_eq_some_iff.mp h
    exact Nat.add_le_add_right (ih hm) 2
  | case5 d cs hd =>
    rw [quotedEnd, if_pos rfl, if_neg hd] at h
    rw [← Option.some.inj h]
    exact Nat.succ_le_succ (Nat.zero_le _)
  | case6 c d cs hc ih =>
    rw [quotedEnd, if_neg hc] at h
    obtain ⟨m, hm, rfl⟩ := Option.map_eq_some_iff.mp h
    exact Nat.add_le_add_right (ih hm) 1

theorem length_blockEnd {depth k : ℕ} (h : blockEnd depth cs = some k) : k ≤ cs.length := by
  induction depth, cs using blockEnd.induct generalizing k with
  | case1 depth => cases h
  | case2 depth c => cases h
  | case3 depth c d cs hc ih =>
    rw [blockEnd, if_pos hc] at h
    obtain ⟨m, hm, rfl⟩ := Option.map_eq_some_iff.mp h
    exact Nat.add_le_add_right (ih hm) 2
  | case4 c d cs hc hc' =>
    rw [blockEnd, if_neg hc, if_pos hc', if_pos rfl] at h
    rw [← Option.some.inj h]
    exact Nat.le_add_left 2 _
  | case5 depth c d cs hc hc' hd ih =>
    rw [blockEnd, if_neg hc, if_pos hc', if_neg hd] at h
    obtain ⟨m, hm, rfl⟩ := Option.map_eq_some_iff.mp h
    exact Nat.add_le_add_right (ih hm) 2
  | case6 depth c d cs hc hc' ih =>
    rw [blockEnd, if_neg hc, if_neg hc'] at h
    obtain ⟨m, hm, rfl⟩ := Option.map_eq_some_iff.mp h
    exact Nat.add_le_add_right (ih hm) 1

theorem lt_of_head?_drop {n : ℕ} {c : Char} (h : (cs.drop n).head? = some c) : n < cs.length := by
  by_contra hle
  rw [List.drop_eq_nil_of_le (not_lt.mp hle)] at h
  exact nomatch h

theorem exists_cons_of_any {p : Char → Bool} (h : cs.head?.any p = true) :
    ∃ d ds, cs = d :: ds ∧ p d = true := by
  cases cs with
  | nil => exact nomatch h
  | cons d ds => exact ⟨d, ds, rfl, h⟩

theorem digitCount_le (cs : List Char) : digitCount cs ≤ cs.length := by
  rw [digitCount]
  exact (List.takeWhile_prefix _).length_le

theorem exponentLength_le (cs : List Char) : exponentLength cs ≤ cs.length := by
  rw [exponentLength]
  dsimp only
  split_ifs with hexp hsign hdigit hdigit
  · obtain ⟨d, ds, hd, -⟩ := exists_cons_of_any hdigit
    have hlt := lt_of_head?_drop (congrArg List.head? hd)
    have hle := digitCount_le (cs.drop (1 + 1))
    rw [List.length_drop] at hle
    omega
  · exact Nat.zero_le _
  · obtain ⟨d, ds, hd, -⟩ := exists_cons_of_any hdigit
    have hlt := lt_of_head?_drop (congrArg List.head? hd)
    have hle := digitCount_le (cs.drop (1 + 0))
    rw [List.length_drop] at hle
    omega
  · exact Nat.zero_le _
  · exact Nat.zero_le _

theorem numberLength_le (cs : List Char) : numberLength cs ≤ cs.length := by
  rw [numberLength]
  split_ifs with hpoint
  · have hlt := lt_of_head?_drop hpoint.1
    have hfrac := digitCount_le (cs.drop (digitCount cs + 1))
    have hexp := exponentLength_le
      (cs.drop (digitCount cs + 1 + digitCount (cs.drop (digitCount cs + 1))))
    rw [List.length_drop] at hfrac hexp
    omega
  · have hle := digitCount_le cs
    have hexp := exponentLength_le (cs.drop (digitCount cs))
    rw [List.length_drop] at hexp
    omega

theorem digitCount_pos {c : Char} (hc : c.isDigit = true) (cs : List Char) :
    digitCount (c :: cs) = digitCount cs + 1 := by
  rw [digitCount, List.takeWhile_cons, if_pos hc, List.length_cons, digitCount]

theorem digitCount_of_not {c : Char} (hc : c.isDigit = false) (cs : List Char) :
    digitCount (c :: cs) = 0 := by
  rw [digitCount, List.takeWhile_cons, hc]
  rfl

theorem numberLength_pos {c : Char}
    (h : c.isDigit = true ∨ c = '.' ∧ cs.head?.any Char.isDigit = true) :
    1 ≤ numberLength (c :: cs) := by
  rw [numberLength]
  rcases h with hc | ⟨rfl, -⟩
  · rw [digitCount_pos hc]
    split_ifs <;> omega
  · rw [digitCount_of_not (by decide), if_pos ⟨rfl, Or.inl rfl⟩]
    omega

theorem findTag_spec {tag : List Char} {k : ℕ} (h : findTag tag cs = some k) :
    tag <+: cs.drop k := by
  induction cs generalizing k with
  | nil => exact nomatch h
  | cons c cs ih =>
    rw [findTag] at h
    split_ifs at h with hprefix
    · rwa [← Option.some.inj h]
    · obtain ⟨m, hm, rfl⟩ := Option.map_eq_some_iff.mp h
      exact ih hm

theorem dollarTagLen_le (cs : List Char) : dollarTagLen cs ≤ cs.length := by
  match cs with
  | [] => exact Nat.zero_le _
  | [_] => exact Nat.zero_le _
  | c :: d :: cs =>
    rw [dollarTagLen]
    split_ifs with hc hd hstart hend
    · exact Nat.zero_le _
    · exact Nat.le_add_left 2 _
    · exact Nat.zero_le _
    · have hsplit := congrArg List.length (List.takeWhile_append_dropWhile (p := tagCont) (l := cs))
      have hpos : 0 < (cs.dropWhile tagCont).length :=
        List.length_pos_of_ne_nil fun hnil => by
          rw [hnil] at hend
          exact nomatch hend
      rw [List.length_append] at hsplit
      simp only [List.length_cons]
      omega
    · exact Nat.zero_le _

/-- The text of a token is the text up to its end. -/
def SpansToken (c : Char) (cs : List Char) (x : Option (PgToken × ℕ)) : Prop :=
  ∀ t, x = some t → t.1.text = (c :: cs).take (t.2 + 1) ∧ t.2 < (c :: cs).length

theorem SpansToken.some {c : Char} {cs : List Char} {t : PgToken × ℕ}
    (htext : t.1.text = (c :: cs).take (t.2 + 1)) (hlt : t.2 < (c :: cs).length) :
    SpansToken c cs (some t) := by
  intro u hu
  rw [← Option.some.inj hu]
  exact ⟨htext, hlt⟩

theorem SpansToken.map {c : Char} {x : Option ℕ} {f : ℕ → PgToken × ℕ}
    (h : ∀ n, x = .some n → (f n).1.text = (c :: cs).take ((f n).2 + 1) ∧
      (f n).2 < (c :: cs).length) : SpansToken c cs (x.map f) := by
  intro u hu
  obtain ⟨n, hn, rfl⟩ := Option.map_eq_some_iff.mp hu
  exact h n hn

theorem spans_pgToken (escapes : Bool) (c : Char) (cs : List Char) :
    SpansToken c cs (pgToken escapes c cs) := by
  have hstring : ∀ {e : Bool} {rest : List Char} {n : ℕ}, stringEnd e rest = .some n →
      quoteChar :: rest.take (n - 1) ++ [quoteChar] = quoteChar :: rest.take n := by
    intro e rest n hn
    rw [List.cons_append, (stringEnd_spec hn).1]
  unfold pgToken
  refine iteInduction (fun h => .some rfl ?_) fun _ => ?_
  · obtain ⟨d, ds, rfl⟩ : ∃ d ds, cs = d :: ds := List.exists_cons_of_ne_nil fun hnil => by
      rw [hnil] at h
      exact nomatch h.2
    have hle := (List.takeWhile_prefix (l := ds)
      fun e => decide (e ≠ newlineChar ∧ e ≠ returnChar)).length_le
    dsimp only [List.tail_cons, List.length_cons]
    omega
  refine iteInduction (fun h => .map fun k hk => ⟨rfl, ?_⟩) fun _ => ?_
  · have hle := length_blockEnd hk
    obtain ⟨ds, rfl⟩ := List.head?_eq_some_iff.mp h.2
    dsimp only [List.tail_cons, List.length_cons] at hle ⊢
    omega
  refine iteInduction (fun h => .map fun n hn => ⟨rfl, ?_⟩) fun _ => ?_
  · exact Nat.lt_succ_of_le (length_quotedEnd hn)
  refine iteInduction (fun h => .map fun n hn => ⟨?_, ?_⟩) fun _ => ?_
  · rw [h]
    exact hstring hn
  · exact Nat.lt_succ_of_le (length_stringEnd hn)
  -- A string behind a prefix of one letter.
  have hletter : ∀ {e : Bool}, cs.head? = Option.some quoteChar →
      SpansToken c cs ((stringEnd e cs.tail).map fun n =>
        (.str [c] (cs.tail.take (n - 1)) e, 1 + n)) := by
    intro e hq
    obtain ⟨ds, rfl⟩ := List.head?_eq_some_iff.mp hq
    refine .map fun n hn => ⟨?_, ?_⟩
    · rw [Nat.add_comm 1 n]
      exact congrArg (c :: ·) (hstring hn)
    · have hle := length_stringEnd hn
      simp only [List.tail_cons] at hle
      simp only [List.length_cons]
      omega
  refine iteInduction (fun h => hletter h.2) fun _ => ?_
  refine iteInduction (fun h => hletter h.2) fun _ => ?_
  refine iteInduction (fun h => ?_) fun _ => ?_
  · obtain ⟨ds, rfl⟩ := List.head?_eq_some_iff.mp h.2.1
    obtain ⟨es, hes⟩ := List.head?_eq_some_iff.mp h.2.2
    rw [List.tail_cons] at hes
    subst hes
    refine .map fun n hn => ⟨?_, ?_⟩
    · rw [Nat.add_comm 2 n]
      exact congrArg (c :: '&' :: ·) (hstring hn)
    · have hle := length_stringEnd hn
      simp only [List.tail_cons] at hle
      simp only [List.length_cons]
      omega
  refine iteInduction (fun _ => .some ?_ ?_) fun _ => ?_
  · rw [List.length_cons, Nat.add_sub_cancel, List.take_succ_cons]
    exact congrArg (c :: ·) (List.prefix_iff_eq_take.mp (List.takeWhile_prefix _))
  · have hle := (List.takeWhile_prefix (l := cs) identifierCont).length_le
    simp only [List.length_cons]
    omega
  refine iteInduction (fun h => .some rfl ?_) fun _ => ?_
  · have hpos := numberLength_pos h
    have hle := numberLength_le (c :: cs)
    dsimp only
    omega
  refine iteInduction (fun h => .some ?_ ?_) fun _ => ?_
  · obtain ⟨ds, rfl⟩ := List.head?_eq_some_iff.mp h.2
    rw [h.1]
    rfl
  · obtain ⟨ds, rfl⟩ := List.head?_eq_some_iff.mp h.2
    simp
  refine iteInduction (fun h => .some rfl ?_) fun _ => ?_
  · exact Nat.lt_succ_of_le (digitCount_le cs)
  refine iteInduction (fun h => .map fun k hk => ?_) fun _ => .some rfl (Nat.succ_pos _)
  have hn := dollarTagLen_le (c :: cs)
  generalize dollarTagLen (c :: cs) = n at h hn hk ⊢
  have htag := List.prefix_iff_eq_take.mp (findTag_spec hk)
  have hlen : ((c :: cs).take n).length = n := by
    rw [List.length_take]
    omega
  rw [hlen, List.drop_drop] at htag
  have hroom : n + k + n ≤ (c :: cs).length := by
    have := congrArg List.length htag
    rw [hlen, List.length_take, List.length_drop] at this
    omega
  constructor
  · have hsum : n + k + n - 1 + 1 = n + k + n := by omega
    dsimp only
    rw [hsum, List.take_add, List.take_add, ← htag]
    rfl
  · dsimp only
    omega

theorem flatMap_text_pgTokensFrom {n : ℕ} {cont : Option Bool} {ts : List PgToken}
    (h : pgTokensFrom n cont cs = some ts) : ts.flatMap PgToken.text = cs := by
  induction n generalizing cont cs ts with
  | zero =>
    cases cs with
    | nil =>
      obtain rfl := Option.some.inj h
      rfl
    | cons c cs => exact nomatch h
  | succ n ih =>
    cases cs with
    | nil =>
      obtain rfl := Option.some.inj h
      rfl
    | cons c cs =>
      rw [pgTokensFrom] at h
      obtain ⟨t, ht, h⟩ := Option.bind_eq_some_iff.mp h
      obtain ⟨us, hus, rfl⟩ := Option.map_eq_some_iff.mp h
      rw [List.flatMap_cons, ih hus, (spans_pgToken _ c cs t ht).1, List.take_append_drop]

end PgWaitTracer
