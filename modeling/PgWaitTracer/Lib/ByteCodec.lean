import Mathlib.Data.List.Basic
import Mathlib.Tactic.Ring

/-!
# Byte codecs

Byte strings are lists of bytes. A *reader* of `α` takes a byte string and either refuses it or
returns a value together with the bytes that follow it. This file collects what a record format
without length prefixes needs: little-endian words of fixed width, columns of equally encoded
values, and the rule that a column is read back by the reader of its entries.

## Main definitions

* `ByteCodec.leBytes`, `ByteCodec.leNat`: little-endian words of a given width.
* `ByteCodec.readChunk`, `ByteCodec.readWord`: the readers of raw bytes and of words.
* `ByteCodec.readMany`: a reader run a given number of times.
* `ByteCodec.readFamily`: a family of values, stored in a given order of its indices.
* `ByteCodec.Inverts`: a reader undoes an encoder, whatever follows.
* `ByteCodec.FixedWidth`: a reader takes a fixed number of bytes.

## Main results

* `ByteCodec.leNat_leBytes`: a word read back is the value modulo the width.
* `ByteCodec.inverts_word`: words of values within the width are read back.
* `ByteCodec.Inverts.many`: a column is read back entry by entry.
* `ByteCodec.readMany_take`: a shorter column is read from the front of a longer one.
* `ByteCodec.Inverts.family`: a family is read back index by index.
-/

namespace ByteCodec

/-- Byte strings. -/
abbrev Bytes := List UInt8

/-- A reader: a value and the bytes after it, or a refusal. -/
abbrev Reader (α : Type*) := Bytes → Option (α × Bytes)

/-! ### Little-endian words -/

/-- The `w` low bytes of `n`, lowest first. -/
def leBytes : ℕ → ℕ → Bytes
  | 0, _ => []
  | w + 1, n => UInt8.ofNat (n % 256) :: leBytes w (n / 256)

/-- The number whose bytes are given, lowest first. -/
def leNat : Bytes → ℕ
  | [] => 0
  | b :: bs => b.toNat + 256 * leNat bs

@[simp] theorem length_leBytes : (w n : ℕ) → (leBytes w n).length = w
  | 0, _ => rfl
  | w + 1, n => by rw [leBytes, List.length_cons, length_leBytes w]

theorem leNat_leBytes : (w n : ℕ) → leNat (leBytes w n) = n % 256 ^ w
  | 0, n => by simp [leBytes, leNat, Nat.mod_one]
  | w + 1, n => by
    have hb : (UInt8.ofNat (n % 256)).toNat = n % 256 := by
      rw [UInt8.toNat_ofNat']
      omega
    rw [leBytes, leNat, hb, leNat_leBytes w, Nat.pow_succ, Nat.mul_comm (256 ^ w) 256,
      Nat.mod_mul]

theorem leNat_lt : (bs : Bytes) → leNat bs < 256 ^ bs.length
  | [] => by simp [leNat]
  | b :: bs => by
    have hb := b.toNat_lt
    have ih := leNat_lt bs
    rw [leNat, List.length_cons, Nat.pow_succ]
    omega

theorem leBytes_mod : (w n : ℕ) → leBytes w (n % 256 ^ w) = leBytes w n
  | 0, _ => rfl
  | w + 1, n => by
    have hlow : n % 256 ^ (w + 1) % 256 = n % 256 := by
      rw [Nat.pow_succ, Nat.mul_comm, Nat.mod_mul_right_mod]
    have hhigh : n % 256 ^ (w + 1) / 256 = n / 256 % 256 ^ w := by
      rw [Nat.pow_succ, Nat.mul_comm, Nat.mod_mul_right_div_self]
    rw [leBytes, leBytes, hlow, hhigh, leBytes_mod w]

theorem leBytes_add : (v w n : ℕ) → leBytes (v + w) n = leBytes v n ++ leBytes w (n / 256 ^ v)
  | 0, w, n => by simp [leBytes]
  | v + 1, w, n => by
    rw [Nat.add_right_comm, leBytes, leBytes, List.cons_append, leBytes_add v w,
      Nat.div_div_eq_div_mul, Nat.pow_succ, Nat.mul_comm 256]

theorem leBytes_leNat : (bs : Bytes) → leBytes bs.length (leNat bs) = bs
  | [] => rfl
  | b :: bs => by
    have hb := b.toNat_lt
    have hlow : (b.toNat + 256 * leNat bs) % 256 = b.toNat := by omega
    have hhigh : (b.toNat + 256 * leNat bs) / 256 = leNat bs := by omega
    rw [List.length_cons, leNat, leBytes, hlow, hhigh, leBytes_leNat bs, UInt8.ofNat_toNat]

/-! ### Readers -/

/-- Read exactly `n` bytes. -/
def readChunk (n : ℕ) : Reader Bytes := fun bs =>
  if n ≤ bs.length then some (bs.take n, bs.drop n) else none

/-- Read a little-endian word of `w` bytes. -/
def readWord (w : ℕ) : Reader ℕ := fun bs => (readChunk w bs).map fun r => (leNat r.1, r.2)

/-- Read one byte. -/
def readByte : Reader UInt8
  | [] => none
  | b :: bs => some (b, bs)

/-- Run a reader exactly `n` times. -/
def readMany {α : Type*} (rd : Reader α) : ℕ → Reader (List α)
  | 0, bs => some ([], bs)
  | n + 1, bs => do
    let (a, bs) ← rd bs
    let (as, bs) ← readMany rd n bs
    pure (a :: as, bs)

/-- The reader `rd` undoes the encoder `enc` on the values satisfying `P`, whatever bytes follow
the encoding. -/
def Inverts {α : Type*} (rd : Reader α) (enc : α → Bytes) (P : α → Prop) : Prop :=
  ∀ a, P a → ∀ rest, rd (enc a ++ rest) = some (a, rest)

theorem readChunk_append {l : Bytes} {n : ℕ} (h : l.length = n) (rest : Bytes) :
    readChunk n (l ++ rest) = some (l, rest) := by
  subst h
  simp [readChunk]

theorem readChunk_eq_none {bs : Bytes} {n : ℕ} (h : bs.length < n) : readChunk n bs = none := by
  simp [readChunk, Nat.not_le.2 h]

theorem readWord_leBytes (w n : ℕ) (rest : Bytes) :
    readWord w (leBytes w n ++ rest) = some (n % 256 ^ w, rest) := by
  rw [readWord, readChunk_append (length_leBytes w n), Option.map_some, leNat_leBytes]

theorem length_of_readWord {w n : ℕ} {bs rest : Bytes} (h : readWord w bs = some (n, rest)) :
    rest.length + w = bs.length := by
  rw [readWord, readChunk] at h
  split_ifs at h with hle
  · simp only [Option.map_some, Option.some.injEq, Prod.mk.injEq] at h
    rw [← h.2, List.length_drop]
    omega
  · simp at h

theorem eq_append_of_readWord {α : Type*} {w : ℕ} (toNat : α → ℕ) {ofNat : ℕ → α}
    (hof : ∀ n < 256 ^ w, toNat (ofNat n) = n) {bs rest : Bytes} {a : α}
    (h : (readWord w bs).map (fun r => (ofNat r.1, r.2)) = some (a, rest)) :
    bs = leBytes w (toNat a) ++ rest := by
  rw [readWord, readChunk] at h
  split_ifs at h with hle
  · simp only [Option.map_some, Option.some.injEq, Prod.mk.injEq] at h
    obtain ⟨rfl, rfl⟩ := h
    have hlen : (bs.take w).length = w := List.length_take_of_le hle
    have hlt := leNat_lt (bs.take w)
    have hword := leBytes_leNat (bs.take w)
    rw [hlen] at hlt hword
    rw [hof _ hlt, hword, List.take_append_drop]
  · simp at h

theorem inverts_word {α : Type*} (w : ℕ) (toNat : α → ℕ) (ofNat : ℕ → α)
    (hlt : ∀ a, toNat a < 256 ^ w) (hof : ∀ a, ofNat (toNat a) = a) :
    Inverts (fun bs => (readWord w bs).map fun r => (ofNat r.1, r.2))
      (fun a => leBytes w (toNat a)) fun _ => True := by
  intro a _ rest
  change (readWord w (leBytes w (toNat a) ++ rest)).map (fun r => (ofNat r.1, r.2)) = _
  rw [readWord_leBytes, Option.map_some, Nat.mod_eq_of_lt (hlt a), hof]

theorem Inverts.many {α : Type*} {rd : Reader α} {enc : α → Bytes} {P : α → Prop}
    (h : Inverts rd enc P) : (as : List α) → (∀ a ∈ as, P a) → (rest : Bytes) →
      readMany rd as.length (as.flatMap enc ++ rest) = some (as, rest)
  | [], _, rest => rfl
  | a :: as, hP, rest => by
    have hhead := h a (hP a List.mem_cons_self) (as.flatMap enc ++ rest)
    have htail := h.many as (fun b hb => hP b (List.mem_cons_of_mem a hb)) rest
    simp only [List.length_cons, List.flatMap_cons, List.append_assoc, readMany, hhead,
      Option.bind_eq_bind, Option.bind_some, htail]
    rfl

theorem length_of_readMany {α : Type*} {rd : Reader α} : (n : ℕ) → {bs rest : Bytes} →
    {as : List α} → readMany rd n bs = some (as, rest) → as.length = n
  | 0, _, _, _, h => by
    obtain ⟨rfl, -⟩ := Prod.ext_iff.1 (Option.some.inj h)
    rfl
  | n + 1, bs, rest, as, h => by
    simp only [readMany, Option.bind_eq_bind, Option.bind_eq_some_iff, Option.pure_def,
      Option.some.injEq, Prod.mk.injEq] at h
    obtain ⟨_, -, _, htail, rfl, -⟩ := h
    rw [List.length_cons, length_of_readMany n htail]

theorem eq_append_of_readMany {α : Type*} {rd : Reader α} {enc : α → Bytes}
    (h : ∀ {bs rest a}, rd bs = some (a, rest) → bs = enc a ++ rest) : (n : ℕ) →
      {bs rest : Bytes} → {as : List α} → readMany rd n bs = some (as, rest) →
        bs = as.flatMap enc ++ rest
  | 0, _, _, _, hread => by
    obtain ⟨rfl, rfl⟩ := Prod.ext_iff.1 (Option.some.inj hread)
    rfl
  | n + 1, bs, rest, as, hread => by
    simp only [readMany, Option.bind_eq_bind, Option.bind_eq_some_iff, Option.pure_def,
      Option.some.injEq, Prod.mk.injEq] at hread
    obtain ⟨⟨a, mid⟩, hhead, ⟨tail, rest'⟩, htail, rfl, rfl⟩ := hread
    rw [h hhead, List.flatMap_cons, List.append_assoc]
    exact congrArg (enc a ++ ·) (eq_append_of_readMany h n htail)

theorem readMany_take {α : Type*} {rd : Reader α} : {m n : ℕ} → m ≤ n → {bs rest : Bytes} →
    {as : List α} → readMany rd n bs = some (as, rest) →
      ∃ mid, readMany rd m bs = some (as.take m, mid) ∧
        readMany rd (n - m) mid = some (as.drop m, rest)
  | 0, n, _, bs, rest, as, h => ⟨bs, by rw [readMany, List.take_zero], by simpa using h⟩
  | m + 1, n + 1, hle, bs, rest, as, h => by
    simp only [readMany, Option.bind_eq_bind, Option.bind_eq_some_iff, Option.pure_def,
      Option.some.injEq, Prod.mk.injEq] at h
    obtain ⟨⟨a, mid⟩, hhead, ⟨tail, rest'⟩, htail, rfl, rfl⟩ := h
    obtain ⟨mid', hfront, hback⟩ := readMany_take (Nat.le_of_succ_le_succ hle) htail
    refine ⟨mid', ?_, ?_⟩
    · simp only [readMany, hhead, hfront, Option.bind_eq_bind, Option.bind_some,
        Option.pure_def, List.take_succ_cons]
    · rw [Nat.add_sub_add_right, List.drop_succ_cons]
      exact hback

theorem length_rest_le {α : Type*} {rd : Reader α}
    (h : ∀ {bs rest a}, rd bs = some (a, rest) → rest.length ≤ bs.length) : (n : ℕ) →
      {bs rest : Bytes} → {as : List α} → readMany rd n bs = some (as, rest) →
        rest.length ≤ bs.length
  | 0, _, _, _, hread => by
    obtain ⟨-, rfl⟩ := Prod.ext_iff.1 (Option.some.inj hread)
    exact le_rfl
  | n + 1, bs, rest, as, hread => by
    simp only [readMany, Option.bind_eq_bind, Option.bind_eq_some_iff, Option.pure_def,
      Option.some.injEq, Prod.mk.injEq] at hread
    obtain ⟨⟨a, mid⟩, hhead, ⟨tail, rest'⟩, htail, -, rfl⟩ := hread
    exact (length_rest_le h n htail).trans (h hhead)

/-- A reader that takes exactly `w` bytes, whatever they are. -/
structure FixedWidth {α : Type*} (rd : Reader α) (w : ℕ) : Prop where
  reads : ∀ bs : Bytes, w ≤ bs.length → ∃ a, rd bs = some (a, bs.drop w)
  short : ∀ bs : Bytes, bs.length < w → rd bs = none

theorem fixedWidth_word {α : Type*} (w : ℕ) (ofNat : ℕ → α) :
    FixedWidth (fun bs => (readWord w bs).map fun r => (ofNat r.1, r.2)) w where
  reads bs hle := ⟨_, by rw [readWord, readChunk, if_pos hle]; rfl⟩
  short bs hlt := by rw [readWord, readChunk_eq_none hlt]; rfl

theorem FixedWidth.many {α : Type*} {rd : Reader α} {w : ℕ} (h : FixedWidth rd w) : (n : ℕ) →
    (bs : Bytes) → w * n ≤ bs.length → ∃ as, readMany rd n bs = some (as, bs.drop (w * n))
  | 0, bs, _ => ⟨[], by rw [readMany, Nat.mul_zero, List.drop_zero]⟩
  | n + 1, bs, hle => by
    rw [Nat.mul_succ] at hle ⊢
    obtain ⟨a, ha⟩ := h.reads bs (by omega)
    obtain ⟨as, has⟩ := h.many n (bs.drop w) (by rw [List.length_drop]; omega)
    refine ⟨a :: as, ?_⟩
    simp only [readMany, ha, has, Option.bind_eq_bind, Option.bind_some, Option.pure_def,
      List.drop_drop]
    rw [Nat.add_comm w]

theorem FixedWidth.many_short {α : Type*} {rd : Reader α} {w : ℕ} (h : FixedWidth rd w) :
    (n : ℕ) → (bs : Bytes) → bs.length < w * n → readMany rd n bs = none
  | 0, bs, hlt => absurd hlt (Nat.not_lt_zero _)
  | n + 1, bs, hlt => by
    rw [Nat.mul_succ] at hlt
    by_cases hle : w ≤ bs.length
    · obtain ⟨a, ha⟩ := h.reads bs hle
      have htail := h.many_short n (bs.drop w) (by rw [List.length_drop]; omega)
      simp only [readMany, ha, htail, Option.bind_eq_bind, Option.bind_some, Option.bind_none]
    · have hhead := h.short bs (Nat.not_le.1 hle)
      simp only [readMany, hhead, Option.bind_eq_bind, Option.bind_none]

/-! ### Families -/

/-- A family of values in a given order of its indices. -/
def encodeFamily {ι α : Type*} (enc : α → Bytes) (order : List ι) (f : ι → α) : Bytes :=
  (order.map f).flatMap enc

/-- Read a family of values in a given order of its indices. -/
def readFamily {ι α : Type*} [DecidableEq ι] [Inhabited α] (rd : Reader α) (order : List ι) :
    Reader (ι → α) := fun bs =>
  (readMany rd order.length bs).map fun r => (fun i => r.1.getD (order.idxOf i) default, r.2)

theorem Inverts.family {ι α : Type*} [DecidableEq ι] [Inhabited α] {rd : Reader α}
    {enc : α → Bytes} {P : α → Prop} (h : Inverts rd enc P) {order : List ι}
    (horder : ∀ i, i ∈ order) :
    Inverts (readFamily rd order) (encodeFamily enc order) fun f => ∀ i, P (f i) := by
  intro f hf rest
  have hmany := h.many (order.map f) (List.forall_mem_map.2 fun i _ => hf i) rest
  rw [List.length_map] at hmany
  rw [readFamily, encodeFamily, hmany, Option.map_some]
  refine congrArg some (Prod.ext (funext fun i => ?_) rfl)
  have hlt : order.idxOf i < order.length := List.idxOf_lt_length_of_mem (horder i)
  change (order.map f).getD (order.idxOf i) default = f i
  rw [List.getD_eq_getElem?_getD, List.getElem?_map, List.getElem?_eq_getElem hlt,
    List.getElem_idxOf]
  rfl

end ByteCodec
