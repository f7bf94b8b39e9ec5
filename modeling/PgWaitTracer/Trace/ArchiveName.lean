import Mathlib.Data.Int.Notation
import Mathlib.Data.List.Basic
import Mathlib.Data.Nat.Notation

/-!
# Names of archives

An archive is named by the local hour in which its file was started, `YYYY-MM-DD_HH`, in front of
its suffix. The programs read the name with `sscanf` and recognize the suffix with `strstr` or by
comparison (`src/event_writer.c`, `src/summary_reader.c`). Names are lists of characters.
-/

namespace PgWaitTracer

/-- White space of the C locale. -/
def isSpaceChar (c : Char) : Bool := c.toNat = 32 || (9 ≤ c.toNat && c.toNat ≤ 13)

/-- A conversion `%d` of `scanf` with a field width: white space is skipped, and a sign counts in
the width. -/
def scanInt (width : ℕ) (cs : List Char) : Option (ℤ × List Char) :=
  let cs := cs.dropWhile isSpaceChar
  let neg := cs.head? = some '-'
  let sign := if neg ∨ cs.head? = some '+' then 1 else 0
  let digits := ((cs.drop sign).take (width - sign)).takeWhile Char.isDigit
  if digits = [] then none
  else
    let n : ℤ := digits.foldl (fun n c => 10 * n + (c.toNat - 48 : ℤ)) 0
    some (if neg then -n else n, cs.drop (sign + digits.length))

/-- `strstr`: the rest of the text from the first occurrence on. -/
def strstr (s pat : List Char) : Option (List Char) := s.tails.find? fun t => pat.isPrefixOf t

/-- A character of a `scanf` format. -/
def scanChar (c : Char) : List Char → Option (List Char)
  | [] => none
  | x :: cs => if x = c then some cs else none

/-- Year, month, day and hour in the name of an archive. -/
structure ArchiveDate where
  year : ℤ
  month : ℤ
  day : ℤ
  hour : ℤ
  deriving DecidableEq

/-- `sscanf` of `%4d-%2d-%2d_%2d`. -/
def leadingDate (name : List Char) : Option ArchiveDate := do
  let (year, cs) ← scanInt 4 name
  let cs ← scanChar '-' cs
  let (month, cs) ← scanInt 2 cs
  let cs ← scanChar '-' cs
  let (day, cs) ← scanInt 2 cs
  let cs ← scanChar '_' cs
  let (hour, _) ← scanInt 2 cs
  pure ⟨year, month, day, hour⟩

end PgWaitTracer
