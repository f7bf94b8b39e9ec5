import Mathlib.Data.List.Basic
import Mathlib.Data.Option.Basic
import Mathlib.Data.Nat.Notation
import PgWaitTracer.Trace.ArchiveName

/-!
# Normalised query texts

The text of a query is normalised by one scan (`src/synthetic_query.c`): comments are removed,
blanks are collapsed and literals are replaced by a placeholder. The scanner looks at the byte
before its position and at the last byte of its output. What it writes is the sum of what it
writes for the lexemes that it cuts the text into.

A text is the list of its bytes up to the terminating NUL; of a byte that is not ASCII it is only
asked whether it is at least 128.

## Main results

* `normalizeQuery_eq`: the normaliser cuts the text and writes what the pieces give.
-/

namespace PgWaitTracer

/-! ### Bytes -/

/-- The single quote. -/
def quoteChar : Char := Char.ofNat 39

/-- The double quote. -/
def dquoteChar : Char := Char.ofNat 34

/-- The backslash. -/
def backslashChar : Char := Char.ofNat 92

/-- The end of a line. -/
def newlineChar : Char := Char.ofNat 10

/-- The carriage return. -/
def returnChar : Char := Char.ofNat 13

/-- `isxdigit`. -/
def isHexChar (c : Char) : Bool :=
  c.isDigit || ('a' ≤ c && c ≤ 'f') || ('A' ≤ c && c ≤ 'F')

/-- `word_boundary`. -/
def wordBoundary (c : Char) : Bool := !(c.isAlphanum || 128 ≤ c.toNat || c = '_' || c = '$')

/-- `identifier_start`. -/
def identifierStart (c : Char) : Bool := c.isAlpha || 128 ≤ c.toNat || c = '_'

/-- `identifier_cont`. -/
def identifierCont (c : Char) : Bool := c.isAlphanum || 128 ≤ c.toNat || c = '_' || c = '$'

/-- `tight_punctuation`. -/
def tightPunctuation (c : Char) : Bool := c ∈ ",()[]=<>+-*/%^;:.".toList

/-- `keyword_literal`. -/
def keywordLiteral (w : List Char) : Bool :=
  w.map Char.toLower ∈ ["null".toList, "true".toList, "false".toList]

/-! ### The output -/

/-- `append_char`, on an output whose last byte comes first. -/
def appendChar (size : ℕ) (c : Char) (out : List Char) : Option (List Char) :=
  if size ≤ out.length + 1 then none else some (c :: out)

/-- `append_space`. -/
def appendSpace (size : ℕ) (out : List Char) : Option (List Char) :=
  if out = [] ∨ out.head? = some ' ' then some out else appendChar size ' ' out

/-- `append_placeholder`. -/
def appendPlaceholder (size : ℕ) (out : List Char) : Option (List Char) :=
  if out.head? = some '?' then some out else appendChar size '?' out

/-- Bytes that are appended one after the other. -/
def appendAll (size : ℕ) : List Char → List Char → Option (List Char)
  | [], out => some out
  | c :: cs, out => (appendChar size c out).bind (appendAll size cs)

/-- The output without a blank at its end. -/
def dropSpace (out : List Char) : List Char := if out.head? = some ' ' then out.tail else out

/-! ### Skipping -/

/-- `skip_single_quote`, from behind the opening quote: how many bytes it skips. -/
def skipQuoted : List Char → ℕ
  | [] => 0
  | [_] => 1
  | c :: d :: cs =>
    if c = backslashChar then skipQuoted cs + 2
    else if c = quoteChar then
      if d = quoteChar then skipQuoted cs + 2 else 1
    else skipQuoted (d :: cs) + 1

/-- `copy_quoted_identifier`, from behind the opening quote: how many bytes it copies, and the
output. -/
def copyQuoted (size : ℕ) : List Char → List Char → Option (ℕ × List Char)
  | [], _ => none
  | [c], out =>
    (appendChar size c out).bind fun out => if c = dquoteChar then some (1, out) else none
  | c :: d :: cs, out =>
    (appendChar size c out).bind fun out =>
      if c = dquoteChar then
        if d = dquoteChar then
          (appendChar size d out).bind fun out =>
            (copyQuoted size cs out).map fun r => (r.1 + 2, r.2)
        else some (1, out)
      else (copyQuoted size (d :: cs) out).map fun r => (r.1 + 1, r.2)

/-- The bytes that start the tag of a dollar-quoted string. -/
def tagStart (c : Char) : Bool := c.isAlpha || 128 ≤ c.toNat || c = '_'

/-- The bytes that continue a tag. -/
def tagCont (c : Char) : Bool := c.isAlphanum || 128 ≤ c.toNat || c = '_'

/-- `dollar_tag_len`. -/
def dollarTagLen : List Char → ℕ
  | c :: d :: cs =>
    if c ≠ '$' then 0
    else if d = '$' then 2
    else if !tagStart d then 0
    else if (cs.dropWhile tagCont).head? = some '$' then (cs.takeWhile tagCont).length + 3
    else 0
  | _ => 0

/-- The first place where the tag stands. -/
def findTag (tag : List Char) : List Char → Option ℕ
  | [] => none
  | c :: cs => if tag <+: c :: cs then some 0 else (findTag tag cs).map (· + 1)

/-- A run of digits and underscores. -/
def digitRun (cs : List Char) : ℕ := (cs.takeWhile fun c => c.isDigit || c = '_').length

/-- The exponent of a number, if there is one. -/
def skipExponent (cs : List Char) : ℕ :=
  if cs.head? = some 'e' ∨ cs.head? = some 'E' then
    let sign := if cs.tail.head? = some '+' ∨ cs.tail.head? = some '-' then 1 else 0
    if (cs.drop (1 + sign)).head?.any Char.isDigit then 1 + sign + digitRun (cs.drop (1 + sign))
    else 0
  else 0

/-- `skip_number`: how many bytes it skips. -/
def skipNumber (cs : List Char) : ℕ :=
  if cs.head? = some '.' then
    1 + digitRun cs.tail + skipExponent (cs.drop (1 + digitRun cs.tail))
  else if cs.head? = some '0' ∧ (cs.tail.head? = some 'x' ∨ cs.tail.head? = some 'X') then
    2 + ((cs.drop 2).takeWhile fun c => isHexChar c || c = '_').length
  else if (cs.drop (digitRun cs)).head? = some '.' ∧
      (cs.drop (digitRun cs + 1)).head? ≠ some '.' then
    let n := digitRun cs + 1 + digitRun (cs.drop (digitRun cs + 1))
    n + skipExponent (cs.drop n)
  else digitRun cs + skipExponent (cs.drop (digitRun cs))

/-! ### The scanner -/

/-- The position of the scanner, as the byte before it and the text behind it, its output with the
last byte first, and the depth of block comments. -/
structure QueryScanner where
  prev : Option Char := none
  rest : List Char
  out : List Char := []
  depth : ℕ := 0
  deriving DecidableEq, Repr

namespace QueryScanner

/-- The scanner `n + 1` bytes later. -/
def advance (s : QueryScanner) (n : ℕ) (out : List Char) : QueryScanner :=
  { s with prev := s.rest[n]?, rest := s.rest.drop (n + 1), out }

/-- A literal may start here. -/
def atBoundary (s : QueryScanner) : Bool := s.prev.all wordBoundary

/-- A blank is kept between two bytes that are not punctuation. -/
def spaceAction (size : ℕ) (out : List Char) (next : Option Char) : Option (List Char) :=
  match out.head?, next with
  | some last, some c =>
    if !tightPunctuation last && !tightPunctuation c then appendSpace size out else some out
  | _, _ => some out

/-- One round of the loop inside a block comment. -/
def stepComment (size : ℕ) (s : QueryScanner) (c : Char) (cs : List Char) : Option QueryScanner :=
  if c = '/' ∧ cs.head? = some '*' then some { s.advance 1 s.out with depth := s.depth + 1 }
  else if c = '*' ∧ cs.head? = some '/' then
    if s.depth = 1 then
      (appendSpace size s.out).map fun out => { s.advance 1 out with depth := 0 }
    else some { s.advance 1 s.out with depth := s.depth - 1 }
  else some (s.advance 0 s.out)

/-- One round of the loop outside of comments. -/
def stepText (size : ℕ) (s : QueryScanner) (c : Char) (cs : List Char) : Option QueryScanner :=
  if c = '-' ∧ cs.head? = some '-' then
    (appendSpace size s.out).map (s.advance
      (1 + (cs.tail.takeWhile fun d => d ≠ newlineChar ∧ d ≠ returnChar).length))
  else if c = '/' ∧ cs.head? = some '*' then some { s.advance 1 s.out with depth := 1 }
  else if isSpaceChar c then
    (spaceAction size s.out (cs.dropWhile isSpaceChar).head?).map (s.advance 0)
  else if c = dquoteChar then
    (appendChar size c s.out).bind fun out =>
      (copyQuoted size cs out).map fun r => s.advance r.1 r.2
  else if c ∈ ['e', 'E', 'b', 'B', 'x', 'X'] ∧ cs.head? = some quoteChar ∧ s.atBoundary then
    (appendPlaceholder size s.out).map (s.advance (1 + skipQuoted cs.tail))
  else if c ∈ ['u', 'U'] ∧ cs.head? = some '&' ∧ cs.tail.head? = some quoteChar ∧ s.atBoundary then
    (appendPlaceholder size s.out).map (s.advance (2 + skipQuoted cs.tail.tail))
  else if c = quoteChar then
    (appendPlaceholder size s.out).map (s.advance (skipQuoted cs))
  else if dollarTagLen (c :: cs) ≠ 0 then
    let n := dollarTagLen (c :: cs)
    (findTag ((c :: cs).take n) ((c :: cs).drop n)).bind fun k =>
      (appendPlaceholder size s.out).map (s.advance (n + k + n - 1))
  else if c.isDigit ∧ s.atBoundary then
    (appendPlaceholder size s.out).map (s.advance (skipNumber (c :: cs) - 1))
  else if c = '.' ∧ cs.head?.any Char.isDigit ∧ s.prev.all (fun p => p ≠ '.' && wordBoundary p) then
    (appendPlaceholder size s.out).map (s.advance (skipNumber (c :: cs) - 1))
  else if identifierStart c then
    let w := c :: cs.takeWhile identifierCont
    (if keywordLiteral w then appendPlaceholder size s.out else appendAll size w s.out).map
      (s.advance (w.length - 1))
  else
    (appendChar size c (if tightPunctuation c then dropSpace s.out else s.out)).map (s.advance 0)

/-- One round of the loop. -/
def step (size : ℕ) (s : QueryScanner) : Option QueryScanner :=
  match s.rest with
  | [] => none
  | c :: cs => if s.depth ≠ 0 then s.stepComment size c cs else s.stepText size c cs

/-- The text is at its end: a comment that is open is refused, and blanks at the end are dropped. -/
def finish (s : QueryScanner) : Option (List Char) :=
  if s.depth ≠ 0 then none else some (s.out.dropWhile (· = ' ')).reverse

/-- The loop, in at most `n` rounds. -/
def loop (size : ℕ) : ℕ → QueryScanner → Option (List Char)
  | 0, s => s.finish
  | n + 1, s => if s.rest = [] then s.finish else (s.step size).bind (loop size n)

/-- The loop; every round consumes a byte. -/
def scan (size : ℕ) (s : QueryScanner) : Option (List Char) := loop size s.rest.length s

end QueryScanner

/-- `pgwt_pg13_normalize_query`. -/
def normalizeQuery (input : List Char) (size : ℕ) : Option (List Char) :=
  if size < 2 then none else QueryScanner.scan size { rest := input }

/-- `fnv1a`. -/
def fnv1a (hash : UInt64) (data : List UInt8) : UInt64 :=
  data.foldl (fun h b => (h ^^^ b.toUInt64) * 1099511628211) hash

/-- The bytes of a number, the highest first. -/
def networkBytes (x : UInt32) : List UInt8 :=
  [(x >>> 24).toUInt8, (x >>> 16).toUInt8, (x >>> 8).toUInt8, x.toUInt8]

/-- `PGWT_PG13_SYNTH_VERSION` with its terminating NUL. -/
def synthVersion : List UInt8 := "pg13-synth-v1".toList.map (fun c => UInt8.ofNat c.toNat) ++ [0]

/-- `pgwt_pg13_synthetic_key`. -/
def syntheticKey (databaseid userid : UInt32) (normalized : List Char) : UInt64 :=
  if databaseid = 0 ∨ userid = 0 ∨ normalized = [] then 0
  else
    let hash := fnv1a 14695981039346656037 synthVersion
    let hash := fnv1a hash (networkBytes databaseid ++ networkBytes userid)
    let hash := fnv1a hash (normalized.map fun c => UInt8.ofNat c.toNat)
    if hash = 0 then 1 else hash

/-- `pgwt_pg13_synthetic_query`: the key of a text that is not refused. -/
def syntheticQuery (databaseid userid : UInt32) (activity : List Char) (size : ℕ) : Option UInt64 :=
  (normalizeQuery activity size).bind fun normalized =>
    let key := syntheticKey databaseid userid normalized
    if key = 0 then none else some key

/-! ### Lexemes -/

/-- A piece of a text as the scanner cuts it: a blank, a line comment, a block comment, a quoted
identifier, a literal, a word, and any other byte. -/
inductive QueryLexeme
  | space (c : Char)
  | line (text : List Char)
  | block (text : List Char)
  | quoted (text : List Char)
  | literal (text : List Char)
  | word (text : List Char)
  | punct (c : Char)
  deriving DecidableEq, Repr

namespace QueryLexeme

/-- The bytes of a piece. -/
def text : QueryLexeme → List Char
  | space c => [c]
  | line w => w
  | block w => w
  | quoted w => w
  | literal w => w
  | word w => w
  | punct c => [c]

/-- The piece is a blank. -/
def isSpace : QueryLexeme → Bool
  | space _ => true
  | _ => false

/-- The piece is a comment. -/
def isComment : QueryLexeme → Bool
  | line _ => true
  | block _ => true
  | _ => false

/-- What the scanner writes for a piece; `next` is the first byte behind it that is not a blank. -/
def emit (size : ℕ) (next : Option Char) (out : List Char) : QueryLexeme → Option (List Char)
  | space _ => QueryScanner.spaceAction size out next
  | line _ => appendSpace size out
  | block _ => appendSpace size out
  | quoted w => appendAll size w out
  | literal _ => appendPlaceholder size out
  | word w => if keywordLiteral w then appendPlaceholder size out else appendAll size w out
  | punct c => appendChar size c (if tightPunctuation c then dropSpace out else out)

end QueryLexeme

/-- The length of the rest of a block comment that is `depth` levels deep. -/
def blockEnd : ℕ → List Char → Option ℕ
  | _, [] => none
  | _, [_] => none
  | depth, c :: d :: cs =>
    if c = '/' ∧ d = '*' then (blockEnd (depth + 1) cs).map (· + 2)
    else if c = '*' ∧ d = '/' then
      if depth = 1 then some 2 else (blockEnd (depth - 1) cs).map (· + 2)
    else (blockEnd depth (d :: cs)).map (· + 1)

/-- The length of the rest of a quoted identifier. -/
def quotedEnd : List Char → Option ℕ
  | [] => none
  | [c] => if c = dquoteChar then some 1 else none
  | c :: d :: cs =>
    if c = dquoteChar then
      if d = dquoteChar then (quotedEnd cs).map (· + 2) else some 1
    else (quotedEnd (d :: cs)).map (· + 1)

/-- The first piece of a text, and its length less one; a text that is not complete has none. -/
def lexPiece (prev : Option Char) (c : Char) (cs : List Char) : Option (QueryLexeme × ℕ) :=
  let text := fun n => (c :: cs).take (n + 1)
  let literal := fun n => (QueryLexeme.literal (text n), n)
  if c = '-' ∧ cs.head? = some '-' then
    let n := 1 + (cs.tail.takeWhile fun d => d ≠ newlineChar ∧ d ≠ returnChar).length
    some (.line (text n), n)
  else if c = '/' ∧ cs.head? = some '*' then
    (blockEnd 1 cs.tail).map fun k => (.block (text (1 + k)), 1 + k)
  else if isSpaceChar c then some (.space c, 0)
  else if c = dquoteChar then (quotedEnd cs).map fun n => (.quoted (text n), n)
  else if c ∈ ['e', 'E', 'b', 'B', 'x', 'X'] ∧ cs.head? = some quoteChar ∧
      prev.all wordBoundary then
    some (literal (1 + skipQuoted cs.tail))
  else if c ∈ ['u', 'U'] ∧ cs.head? = some '&' ∧ cs.tail.head? = some quoteChar ∧
      prev.all wordBoundary then
    some (literal (2 + skipQuoted cs.tail.tail))
  else if c = quoteChar then some (literal (skipQuoted cs))
  else if dollarTagLen (c :: cs) ≠ 0 then
    let n := dollarTagLen (c :: cs)
    (findTag ((c :: cs).take n) ((c :: cs).drop n)).map fun k => literal (n + k + n - 1)
  else if c.isDigit ∧ prev.all wordBoundary then some (literal (skipNumber (c :: cs) - 1))
  else if c = '.' ∧ cs.head?.any Char.isDigit ∧ prev.all (fun p => p ≠ '.' && wordBoundary p) then
    some (literal (skipNumber (c :: cs) - 1))
  else if identifierStart c then
    let w := c :: cs.takeWhile identifierCont
    some (.word w, w.length - 1)
  else some (.punct c, 0)

/-- The pieces of a text behind a byte, at most `n` of them. -/
def lexFrom : ℕ → Option Char → List Char → Option (List QueryLexeme)
  | _, _, [] => some []
  | 0, _, _ :: _ => none
  | n + 1, prev, c :: cs =>
    (lexPiece prev c cs).bind fun p =>
      (lexFrom n ((c :: cs)[p.2]?) ((c :: cs).drop (p.2 + 1))).map (p.1 :: ·)

/-- The pieces of a text. -/
def lexQuery (input : List Char) : Option (List QueryLexeme) := lexFrom input.length none input

/-- The first byte that is not a blank. -/
def visible : List QueryLexeme → Option Char
  | [] => none
  | p :: ps => if p.isSpace then visible ps else p.text.head?

/-- What the scanner writes for the pieces of a text. -/
def emitLexemes (size : ℕ) : List QueryLexeme → List Char → Option (List Char)
  | [], out => some out
  | p :: ps, out => (p.emit size (visible ps) out).bind (emitLexemes size ps)

/-! ### The loop -/

variable {cs : List Char}

namespace QueryScanner

/-- If a round ends, it has consumed a byte. -/
def Consumes (s : QueryScanner) (x : Option QueryScanner) : Prop :=
  ∀ s', x = some s' → s'.rest.length < s.rest.length

namespace Consumes

variable {s : QueryScanner}

theorem ite {p : Prop} [Decidable p] {x y : Option QueryScanner} (hx : s.Consumes x)
    (hy : s.Consumes y) : s.Consumes (if p then x else y) := by
  split_ifs
  · exact hx
  · exact hy

theorem bind {α : Type*} {x : Option α} {f : α → Option QueryScanner}
    (h : ∀ a, s.Consumes (f a)) : s.Consumes (x.bind f) := by
  intro s' hs
  obtain ⟨a, -, ha⟩ := Option.bind_eq_some_iff.mp hs
  exact h a s' ha

theorem map {α : Type*} {x : Option α} {f : α → QueryScanner}
    (h : ∀ a, (f a).rest.length < s.rest.length) : s.Consumes (x.map f) := by
  intro s' hs
  obtain ⟨a, -, rfl⟩ := Option.map_eq_some_iff.mp hs
  exact h a

theorem some {t : QueryScanner} (h : t.rest.length < s.rest.length) : s.Consumes (some t) := by
  intro s' hs
  rwa [← Option.some.inj hs]

end Consumes

variable {s : QueryScanner}

theorem length_advance (h : s.rest ≠ []) (n : ℕ) (out : List Char) :
    (s.advance n out).rest.length < s.rest.length := by
  have hpos := List.length_pos_of_ne_nil h
  rw [advance, List.length_drop]
  omega

theorem consumes_stepComment (size : ℕ) (h : s.rest ≠ []) (c : Char) (cs : List Char) :
    s.Consumes (s.stepComment size c cs) :=
  .ite (.some (length_advance h 1 s.out))
    (.ite (.ite (.map fun out => length_advance h 1 out) (.some (length_advance h 1 s.out)))
      (.some (length_advance h 0 s.out)))

theorem consumes_stepText (size : ℕ) (h : s.rest ≠ []) (c : Char) (cs : List Char) :
    s.Consumes (s.stepText size c cs) := by
  have hadv : ∀ {n : ℕ} {x : Option (List Char)}, s.Consumes (x.map (s.advance n)) :=
    .map (length_advance h _)
  refine .ite hadv (.ite (.some (length_advance h 1 s.out)) (.ite hadv (.ite ?_ (.ite hadv
    (.ite hadv (.ite hadv (.ite ?_ (.ite hadv (.ite hadv (.ite hadv hadv))))))))))
  · exact .bind fun out => .map fun r => length_advance h r.1 r.2
  · exact .bind fun k => hadv

theorem length_step {size : ℕ} {s' : QueryScanner} (h : s.step size = some s') :
    s'.rest.length < s.rest.length := by
  rw [step] at h
  cases hrest : s.rest with
  | nil =>
    rw [hrest] at h
    exact nomatch h
  | cons c cs =>
    have hne : s.rest ≠ [] := by simp [hrest]
    rw [hrest] at h
    rw [← hrest]
    exact Consumes.ite (consumes_stepComment size hne c cs) (consumes_stepText size hne c cs) s' h

theorem loop_eq_scan (size : ℕ) {n : ℕ} (h : s.rest.length ≤ n) : loop size n s = s.scan size := by
  induction n using Nat.strongRecOn generalizing s with
  | _ n ih =>
    rw [scan]
    cases hrest : s.rest with
    | nil =>
      cases n with
      | zero => rfl
      | succ n => rw [loop, if_pos hrest, List.length_nil, loop]
    | cons c cs =>
      rw [hrest, List.length_cons] at h
      obtain ⟨n, rfl⟩ : ∃ m, n = m + 1 := ⟨n - 1, by omega⟩
      have hne : s.rest ≠ [] := by simp [hrest]
      rw [List.length_cons, loop, loop, if_neg hne, if_neg hne]
      cases hstep : s.step size with
      | none => rfl
      | some s' =>
        have hlt := length_step hstep
        rw [hrest, List.length_cons] at hlt
        rw [Option.bind_some, Option.bind_some, ih n (by omega) (by omega)]
        exact (ih cs.length (by omega) (by omega)).symm

theorem scan_nil (size : ℕ) (h : s.rest = []) : s.scan size = s.finish := by
  rw [scan, h, List.length_nil, loop]

theorem scan_step (size : ℕ) (h : s.rest ≠ []) : s.scan size = (s.step size).bind (scan size) := by
  obtain ⟨n, hn⟩ : ∃ n, s.rest.length = n + 1 :=
    ⟨s.rest.length - 1, by have := List.length_pos_of_ne_nil h; omega⟩
  rw [scan, hn, loop, if_neg h]
  cases hstep : s.step size with
  | none => rfl
  | some s' =>
    have hlt := length_step hstep
    exact loop_eq_scan size (by omega)

/-! ### The pieces of a text -/

theorem ite_eq_bind {α β : Type*} {p q : Prop} [Decidable p] [Decidable q] (hpq : p ↔ q)
    {x y : Option β} {u v : Option α} {f : α → Option β} (hx : x = u.bind f) (hy : y = v.bind f) :
    (if p then x else y) = (if q then u else v).bind f := by
  by_cases h : p
  · rw [if_pos h, if_pos (hpq.mp h), hx]
  · rw [if_neg h, if_neg (mt hpq.mpr h), hy]

theorem stepText_eq (size : ℕ) (s : QueryScanner) {c : Char} (hc : ¬(c = '/' ∧ cs.head? = some '*'))
    (hdq : c ≠ dquoteChar) :
    s.stepText size c cs = (lexPiece s.prev c cs).bind fun p =>
      (p.1.emit size (cs.dropWhile isSpaceChar).head? s.out).map (s.advance p.2) := by
  rw [stepText, lexPiece, if_neg hc, if_neg hc, if_neg hdq, if_neg hdq]
  have hdollar : ∀ n,
      ((findTag ((c :: cs).take n) ((c :: cs).drop n)).bind fun k =>
          (appendPlaceholder size s.out).map (s.advance (n + k + n - 1))) =
        ((findTag ((c :: cs).take n) ((c :: cs).drop n)).map fun k =>
          (QueryLexeme.literal ((c :: cs).take (n + k + n - 1 + 1)), n + k + n - 1)).bind fun p =>
            (p.1.emit size (cs.dropWhile isSpaceChar).head? s.out).map (s.advance p.2) := by
    intro n
    cases findTag ((c :: cs).take n) ((c :: cs).drop n) <;> rfl
  -- The branches of the loop and those of the lexer stand in the same order.
  exact ite_eq_bind Iff.rfl rfl (ite_eq_bind Iff.rfl rfl (ite_eq_bind Iff.rfl rfl
    (ite_eq_bind Iff.rfl rfl (ite_eq_bind Iff.rfl rfl (ite_eq_bind Iff.rfl (hdollar _)
      (ite_eq_bind Iff.rfl rfl (ite_eq_bind Iff.rfl rfl (ite_eq_bind Iff.rfl rfl rfl))))))))

/-- The copy of a quoted identifier is complete if the identifier is, and it is the identifier. -/
theorem copyQuoted_eq (size : ℕ) (cs out : List Char) :
    copyQuoted size cs out = (quotedEnd cs).bind fun n =>
      (appendAll size (cs.take n) out).map fun out => (n, out) := by
  induction cs using quotedEnd.induct generalizing out with
  | case1 => rfl
  | case2 =>
    rw [copyQuoted, quotedEnd, if_pos rfl]
    cases hout : appendChar size dquoteChar out <;> simp [appendAll, hout]
  | case3 c hc =>
    rw [copyQuoted, quotedEnd, if_neg hc]
    simp [hc]
  | case4 cs ih =>
    rw [copyQuoted, quotedEnd, if_pos rfl, if_pos rfl]
    cases hout : appendChar size dquoteChar out with
    | none => cases quotedEnd cs <;> simp [appendAll, hout]
    | some out' =>
      cases hout' : appendChar size dquoteChar out' with
      | none => cases quotedEnd cs <;> simp [appendAll, hout, hout']
      | some out'' =>
        cases hend : quotedEnd cs with
        | none => simp [ih, hend]
        | some n => simp [appendAll, hout, hout', ih, hend, Function.comp_def]
  | case5 d cs hd =>
    rw [copyQuoted, quotedEnd, if_pos rfl, if_neg hd]
    cases hout : appendChar size dquoteChar out <;> simp [appendAll, hd, hout]
  | case6 c d cs hc ih =>
    rw [copyQuoted, quotedEnd, if_neg hc]
    cases hout : appendChar size c out with
    | none => cases quotedEnd (d :: cs) <;> simp [appendAll, hout]
    | some out' =>
      cases hend : quotedEnd (d :: cs) with
      | none => simp [hc, ih, hend]
      | some n => simp [appendAll, hout, hc, ih, hend, Function.comp_def]

theorem stepText_quoted (size : ℕ) (s : QueryScanner) (cs : List Char) :
    s.stepText size dquoteChar cs = (lexPiece s.prev dquoteChar cs).bind fun p =>
      (p.1.emit size (cs.dropWhile isSpaceChar).head? s.out).map (s.advance p.2) := by
  have hline : ¬(dquoteChar = '-' ∧ cs.head? = some '-') := fun h => absurd h.1 (by decide)
  have hblock : ¬(dquoteChar = '/' ∧ cs.head? = some '*') := fun h => absurd h.1 (by decide)
  have hspace : ¬isSpaceChar dquoteChar = true := by decide
  rw [stepText, lexPiece, if_neg hline, if_neg hline, if_neg hblock, if_neg hblock, if_neg hspace,
    if_neg hspace, if_pos rfl, if_pos rfl]
  simp only [copyQuoted_eq]
  cases hend : quotedEnd cs with
  | none => cases appendChar size dquoteChar s.out <;> rfl
  | some n =>
    simp only [Option.bind_some, Option.map_some, QueryLexeme.emit, List.take_succ_cons, appendAll]
    cases hout : appendChar size dquoteChar s.out with
    | none => rfl
    | some out => cases hall : appendAll size (cs.take n) out <;> simp [hall]

theorem one_le_blockEnd {depth k : ℕ} (h : blockEnd depth cs = some k) : 1 ≤ k := by
  cases cs with
  | nil => exact nomatch h
  | cons c cs =>
    cases cs with
    | nil => exact nomatch h
    | cons d cs =>
      rw [blockEnd] at h
      split_ifs at h
      · obtain ⟨n, -, rfl⟩ := Option.map_eq_some_iff.mp h
        omega
      · exact (Option.some.inj h) ▸ (by decide)
      · obtain ⟨n, -, rfl⟩ := Option.map_eq_some_iff.mp h
        omega
      · obtain ⟨n, -, rfl⟩ := Option.map_eq_some_iff.mp h
        omega

/-- Behind the start of a block comment the scanner goes on to its end. -/
theorem scan_block (size depth : ℕ) (hdepth : depth ≠ 0) (cs : List Char) (prev : Option Char)
    (out : List Char) :
    scan size { prev, rest := cs, out, depth } = (blockEnd depth cs).bind fun k =>
      (appendSpace size out).bind fun out =>
        scan size { prev := cs[k - 1]?, rest := cs.drop k, out } := by
  induction depth, cs using blockEnd.induct generalizing prev with
  | case1 depth =>
    rw [scan_nil size rfl, finish, if_pos hdepth]
    rfl
  | case2 depth c =>
    have hstep : step size { prev, rest := [c], out, depth } =
        some { prev := some c, rest := [], out, depth } := by
      rw [step]
      simp [if_neg hdepth, stepComment, advance]
    rw [scan_step size (List.cons_ne_nil _ _), hstep, Option.bind_some, scan_nil size rfl, finish,
      if_pos hdepth]
    rfl
  | case3 depth c d cs h ih =>
    have hstep : step size { prev, rest := c :: d :: cs, out, depth } =
        some { prev := some d, rest := cs, out, depth := depth + 1 } := by
      rw [step]
      simp [if_neg hdepth, stepComment, advance, h]
    rw [scan_step size (List.cons_ne_nil _ _), hstep, Option.bind_some,
      ih (Nat.succ_ne_zero depth), blockEnd, if_pos h]
    cases hend : blockEnd (depth + 1) cs with
    | none => rfl
    | some k =>
      obtain ⟨n, rfl⟩ := Nat.exists_eq_add_of_le' (one_le_blockEnd hend)
      rfl
  | case4 c d cs h h' =>
    have hstep : step size { prev, rest := c :: d :: cs, out, depth := 1 } =
        (appendSpace size out).map fun out => { prev := some d, rest := cs, out } := by
      rw [step]
      simp [stepComment, advance, h']
    rw [scan_step size (List.cons_ne_nil _ _), hstep, blockEnd, if_neg h, if_pos h', if_pos rfl]
    cases appendSpace size out <;> rfl
  | case5 depth c d cs h h' hd ih =>
    have hstep : step size { prev, rest := c :: d :: cs, out, depth } =
        some { prev := some d, rest := cs, out, depth := depth - 1 } := by
      rw [step]
      simp [if_neg hdepth, stepComment, advance, h', hd]
    rw [scan_step size (List.cons_ne_nil _ _), hstep, Option.bind_some, ih (by omega), blockEnd,
      if_neg h, if_pos h', if_neg hd]
    cases hend : blockEnd (depth - 1) cs with
    | none => rfl
    | some k =>
      obtain ⟨n, rfl⟩ := Nat.exists_eq_add_of_le' (one_le_blockEnd hend)
      rfl
  | case6 depth c d cs h h' ih =>
    have hstep : step size { prev, rest := c :: d :: cs, out, depth } =
        some { prev := some c, rest := d :: cs, out, depth } := by
      rw [step]
      simp [if_neg hdepth, stepComment, advance, h, h']
    rw [scan_step size (List.cons_ne_nil _ _), hstep, Option.bind_some, ih hdepth, blockEnd,
      if_neg h, if_neg h']
    cases hend : blockEnd depth (d :: cs) with
    | none => rfl
    | some k =>
      obtain ⟨n, rfl⟩ := Nat.exists_eq_add_of_le' (one_le_blockEnd hend)
      rfl

end QueryScanner

/-! ### Pieces and their bytes -/

/-- The pieces that a text can begin with stand for its bytes, and are blanks if the first byte is
one. -/
def Cuts (c : Char) (cs : List Char) (x : Option (QueryLexeme × ℕ)) : Prop :=
  ∀ p, x = some p → p.1.text = (c :: cs).take (p.2 + 1) ∧ p.1.isSpace = isSpaceChar c

theorem Cuts.some {c : Char} {cs : List Char} {p : QueryLexeme × ℕ}
    (htext : p.1.text = (c :: cs).take (p.2 + 1)) (hspace : p.1.isSpace = isSpaceChar c) :
    Cuts c cs (some p) := by
  intro q hq
  rw [← Option.some.inj hq]
  exact ⟨htext, hspace⟩

theorem Cuts.map {c : Char} {x : Option ℕ} {f : ℕ → QueryLexeme × ℕ}
    (h : ∀ n, (f n).1.text = (c :: cs).take ((f n).2 + 1) ∧ (f n).1.isSpace = isSpaceChar c) :
    Cuts c cs (x.map f) := by
  intro q hq
  obtain ⟨n, -, rfl⟩ := Option.map_eq_some_iff.mp hq
  exact h n

/-- **A piece is the text up to its end.** -/
theorem cuts_lexPiece (prev : Option Char) (c : Char) (cs : List Char) :
    Cuts c cs (lexPiece prev c cs) := by
  unfold lexPiece
  refine iteInduction (fun h => .some rfl ?_) fun _ => ?_
  · rw [h.1]
    rfl
  refine iteInduction (fun h => .map fun k => ⟨rfl, ?_⟩) fun _ => ?_
  · rw [h.1]
    rfl
  refine iteInduction (fun h => .some rfl h.symm) fun hspace => ?_
  have hspace : false = isSpaceChar c := (Bool.eq_false_iff.mpr hspace).symm
  refine iteInduction (fun _ => .map fun n => ⟨rfl, hspace⟩) fun _ => ?_
  refine iteInduction (fun _ => .some rfl hspace) fun _ => ?_
  refine iteInduction (fun _ => .some rfl hspace) fun _ => ?_
  refine iteInduction (fun _ => .some rfl hspace) fun _ => ?_
  refine iteInduction (fun _ => .map fun k => ⟨rfl, hspace⟩) fun _ => ?_
  refine iteInduction (fun _ => .some rfl hspace) fun _ => ?_
  refine iteInduction (fun _ => .some rfl hspace) fun _ => ?_
  refine iteInduction (fun _ => .some ?_ hspace) fun _ => .some rfl hspace
  rw [List.length_cons, Nat.add_sub_cancel, List.take_succ_cons]
  exact congrArg (c :: ·) (List.prefix_iff_eq_take.mp (List.takeWhile_prefix _))

theorem drop_of_space {prev : Option Char} {c d : Char} {n : ℕ}
    (h : lexPiece prev c cs = some (.space d, n)) : (c :: cs).drop (n + 1) = cs := by
  have htext := (cuts_lexPiece prev c cs _ h).1
  cases cs with
  | nil => simp
  | cons e cs =>
    cases n with
    | zero => rfl
    | succ n => simp [QueryLexeme.text] at htext

theorem visible_lexFrom {n : ℕ} {prev : Option Char} {ps : List QueryLexeme}
    (h : lexFrom n prev cs = some ps) : visible ps = (cs.dropWhile isSpaceChar).head? := by
  induction n generalizing prev cs ps with
  | zero =>
    cases cs with
    | nil =>
      obtain rfl := Option.some.inj h
      rfl
    | cons c cs => exact nomatch h
  | succ n ih =>
    cases cs with
    | nil =>
      obtain rfl := Option.some.inj h
      rfl
    | cons c cs =>
      rw [lexFrom] at h
      obtain ⟨p, hp, h⟩ := Option.bind_eq_some_iff.mp h
      obtain ⟨qs, hqs, rfl⟩ := Option.map_eq_some_iff.mp h
      obtain ⟨htext, hspace⟩ := cuts_lexPiece prev c cs p hp
      obtain ⟨q, k⟩ := p
      rw [visible, hspace, List.dropWhile_cons]
      by_cases hc : isSpaceChar c = true
      · rw [if_pos hc, if_pos hc, ih hqs]
        cases q with
        | space d => rw [drop_of_space hp]
        | _ => exact absurd (hspace.trans hc) Bool.false_ne_true
      · rw [if_neg hc, if_neg hc, htext]
        rfl

namespace QueryScanner

/-- **The scanner cuts the text and writes what the pieces give.** -/
theorem scan_eq (size : ℕ) {n : ℕ} (prev : Option Char) {rest : List Char} (out : List Char)
    (hn : rest.length ≤ n) :
    scan size { prev, rest, out } = (lexFrom n prev rest).bind fun ps =>
      (emitLexemes size ps out).map fun out => (out.dropWhile (· = ' ')).reverse := by
  induction n generalizing prev rest out with
  | zero =>
    obtain rfl := List.length_eq_zero_iff.mp (Nat.le_zero.mp hn)
    rw [scan_nil size rfl]
    rfl
  | succ n ih =>
    cases rest with
    | nil =>
      rw [scan_nil size rfl]
      rfl
    | cons c cs =>
      rw [List.length_cons] at hn
      have hstep : step size { prev, rest := c :: cs, out } =
          stepText size { prev, rest := c :: cs, out } c cs := rfl
      have hlen : ∀ k, ((c :: cs).drop (k + 1)).length ≤ n := fun k => by
        rw [List.drop_succ_cons, List.length_drop]
        omega
      -- Once the first piece is known, and the scanner stands behind it.
      have hrest : ∀ p, lexPiece prev c cs = some p →
          ((p.1.emit size (cs.dropWhile isSpaceChar).head? out).bind fun out =>
              scan size { prev := (c :: cs)[p.2]?, rest := (c :: cs).drop (p.2 + 1), out }) =
            ((lexFrom n ((c :: cs)[p.2]?) ((c :: cs).drop (p.2 + 1))).map (p.1 :: ·)).bind fun ps =>
              (emitLexemes size ps out).map fun out => (out.dropWhile (· = ' ')).reverse := by
        rintro ⟨q, k⟩ hp
        simp only [ih _ _ (hlen _)]
        cases hps : lexFrom n ((c :: cs)[k]?) ((c :: cs).drop (k + 1)) with
        | none => cases q.emit size (cs.dropWhile isSpaceChar).head? out <;> rfl
        | some ps =>
          have hemit : q.emit size (cs.dropWhile isSpaceChar).head? out =
              q.emit size (visible ps) out := by
            cases q with
            | space d => rw [visible_lexFrom hps, drop_of_space hp]
            | _ => rfl
          rw [hemit]
          cases hq : q.emit size (visible ps) out <;> simp [emitLexemes, hq]
      rw [scan_step size (List.cons_ne_nil _ _), hstep, lexFrom]
      by_cases hblock : c = '/' ∧ cs.head? = some '*'
      · obtain ⟨rfl, hstar⟩ := hblock
        obtain ⟨d, cs, rfl⟩ : ∃ d es, cs = d :: es := List.exists_cons_of_ne_nil fun h => by
          rw [h] at hstar
          exact nomatch hstar
        obtain rfl : d = '*' := Option.some.inj hstar
        have hline : ¬('/' = '-' ∧ ('*' :: cs).head? = some '-') := by simp
        have hp : lexPiece prev '/' ('*' :: cs) = (blockEnd 1 cs).map fun k =>
            (.block (('/' :: '*' :: cs).take (1 + k + 1)), 1 + k) := by
          rw [lexPiece, if_neg hline, if_pos ⟨rfl, rfl⟩]
          rfl
        rw [stepText, if_neg hline, if_pos ⟨rfl, rfl⟩, Option.bind_some]
        have hscan := scan_block size 1 Nat.one_ne_zero cs (some '*') out
        refine hscan.trans ?_
        cases hend : blockEnd 1 cs with
        | none => rw [hp, hend]; rfl
        | some k =>
          obtain ⟨m, rfl⟩ := Nat.exists_eq_add_of_le' (one_le_blockEnd hend)
          have hlen : 1 + (m + 1) = m + 2 := Nat.add_comm 1 (m + 1)
          rw [hend, Option.map_some, hlen] at hp
          rw [hp]
          exact hrest _ hp
      · have hbind : stepText size { prev, rest := c :: cs, out } c cs =
            (lexPiece prev c cs).bind fun p =>
              (p.1.emit size (cs.dropWhile isSpaceChar).head? out).map
                (advance { prev, rest := c :: cs, out } p.2) := by
          by_cases hdq : c = dquoteChar
          · rw [hdq]
            exact stepText_quoted size _ cs
          · exact stepText_eq size _ hblock hdq
        rw [hbind]
        cases hp : lexPiece prev c cs with
        | none => rfl
        | some p =>
          rw [Option.bind_some, Option.bind_some, ← hrest p hp, Option.bind_map]
          rfl

end QueryScanner

/-- **The normaliser.** -/
theorem normalizeQuery_eq (input : List Char) (size : ℕ) :
    normalizeQuery input size = if size < 2 then none else
      (lexQuery input).bind fun ps =>
        (emitLexemes size ps []).map fun out => (out.dropWhile (· = ' ')).reverse := by
  rw [normalizeQuery, lexQuery, QueryScanner.scan_eq size none [] (Nat.le_refl _)]

end PgWaitTracer
