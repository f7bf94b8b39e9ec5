import Mathlib.Data.Rat.Floor

/-!
# JSON documents

A JSON document as a tree, the lookup of a member of an object, and the two ways to write a machine
integer: as a number, and as a string of decimal digits, which survives a reader that keeps numbers
in floating point. Numbers are rationals, which contain all finite floating-point values.

## Main definitions

* `Json`, `Json.get?`.
* `Json.ofDecimal`, `Json.uint64?`, `Json.uint32?`, `Json.uint16?`, `Json.bool?`, `Json.text?`.

## Main results

* `Json.uint64?_ofDecimal` : what is written in decimal is read back.
* `Json.uint64?_ofNat` : so is a small number.
-/

/-- A JSON document. -/
inductive Json
  | null
  | bool (b : Bool)
  | num (x : ℚ)
  | str (s : String)
  | arr (items : List Json)
  | obj (members : List (String × Json))

namespace Json

/-- The first member of an object with the name. -/
def get? : Json → String → Option Json
  | obj members, key => members.lookup key
  | _, _ => none

/-- The document is an object. -/
def isObj : Json → Bool
  | obj _ => true
  | _ => false

/-- A number in decimal, as a string. -/
def ofDecimal (n : ℕ) : Json := str n.repr

/-- The number that a string of digits means. -/
def decimal? (cs : List Char) : Option ℕ :=
  if cs ≠ [] ∧ cs.all Char.isDigit then some (Nat.ofDigitChars 10 cs 0) else none

/-- A natural number below `bound`: a number, without its fraction, or decimal digits after
blanks. -/
def natBelow? (bound : ℕ) : Json → Option ℕ
  | num x => if 0 ≤ x ∧ x < bound then some ⌊x⌋₊ else none
  | str s => (decimal? (s.toList.dropWhile (· = ' '))).filter (· < bound)
  | _ => none

/-- A 64-bit integer. -/
def uint64? (j : Json) : Option UInt64 := (j.natBelow? (2 ^ 64)).map UInt64.ofNat

/-- A 64-bit integer that fits in 32 bits. -/
def uint32? (j : Json) : Option UInt32 :=
  ((j.natBelow? (2 ^ 64)).filter (· < 2 ^ 32)).map UInt32.ofNat

/-- A 64-bit integer that fits in 16 bits. -/
def uint16? (j : Json) : Option UInt16 :=
  ((j.natBelow? (2 ^ 64)).filter (· < 2 ^ 16)).map UInt16.ofNat

/-- A truth value: itself, or one of the numbers 0 and 1. -/
def bool? : Json → Option Bool
  | bool b => some b
  | num x => if x = 0 then some false else if x = 1 then some true else none
  | _ => none

/-- A string that is not empty. -/
def text? : Json → Option String
  | str s => if s = "" then none else some s
  | _ => none

mutual

/-- The length of the document printed without blanks, when no string needs an escape and all
numbers are integers. -/
def printedLength : Json → ℕ
  | null => 4
  | bool b => if b then 4 else 5
  | num x => (toString x.num).length
  | str s => s.length + 2
  | arr items => max 2 (1 + itemsLength items)
  | obj members => max 2 (1 + membersLength members)

/-- The items of an array, each with the sign behind it. -/
def itemsLength : List Json → ℕ
  | [] => 0
  | j :: items => printedLength j + 1 + itemsLength items

/-- The members of an object, each with the sign behind it. -/
def membersLength : List (String × Json) → ℕ
  | [] => 0
  | (key, j) :: members => key.length + 3 + printedLength j + 1 + membersLength members

end

/-! ### What is written is read back -/

theorem decimal?_toDigits (n : ℕ) : decimal? (Nat.toDigits 10 n) = some n := by
  have hdigits : (Nat.toDigits 10 n).all Char.isDigit = true :=
    List.all_eq_true.2 fun c hc => Nat.isDigit_of_mem_toDigits (by omega) (by omega) hc
  rw [decimal?, if_pos ⟨Nat.toDigits_ne_nil, hdigits⟩, Nat.ofDigitChars_ten_toDigits]

theorem dropWhile_toDigits (n : ℕ) :
    (Nat.toDigits 10 n).dropWhile (· = ' ') = Nat.toDigits 10 n := by
  cases hcs : Nat.toDigits 10 n with
  | nil => rfl
  | cons c cs =>
    have hdigit : c.isDigit = true :=
      Nat.isDigit_of_mem_toDigits (b := 10) (n := n) (by omega) (by omega) (by simp [hcs])
    have hne : c ≠ ' ' := by
      rintro rfl
      exact absurd hdigit (by decide)
    rw [List.dropWhile_cons, if_neg (by simpa using hne)]

@[simp]
theorem natBelow?_ofDecimal {bound n : ℕ} (h : n < bound) :
    natBelow? bound (ofDecimal n) = some n := by
  rw [ofDecimal, natBelow?, Nat.toList_repr, dropWhile_toDigits, decimal?_toDigits]
  simp [h]

@[simp]
theorem natBelow?_num {bound n : ℕ} (h : n < bound) : natBelow? bound (num n) = some n := by
  rw [natBelow?, if_pos ⟨Nat.cast_nonneg n, by exact_mod_cast h⟩, Nat.floor_natCast]

/-- **A 64-bit integer in decimal is read back.** -/
@[simp]
theorem uint64?_ofDecimal (v : UInt64) : uint64? (ofDecimal v.toNat) = some v := by
  rw [uint64?, natBelow?_ofDecimal v.toNat_lt]
  simp

@[simp]
theorem uint32?_num (v : UInt32) : uint32? (num v.toNat) = some v := by
  have h := v.toNat_lt
  rw [uint32?, natBelow?_num (by omega)]
  simp [h]

@[simp]
theorem uint16?_num (v : UInt16) : uint16? (num v.toNat) = some v := by
  have h := v.toNat_lt
  rw [uint16?, natBelow?_num (by omega)]
  simp [h]

@[simp]
theorem uint64?_num {n : ℕ} (h : n < 2 ^ 64) : uint64? (num n) = some (.ofNat n) := by
  rw [uint64?, natBelow?_num h, Option.map_some]

@[simp]
theorem bool?_bool (b : Bool) : bool? (bool b) = some b := rfl

@[simp]
theorem text?_str {s : String} (h : s ≠ "") : text? (str s) = some s := if_neg h

end Json
