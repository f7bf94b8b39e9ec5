import Mathlib.Data.List.TakeWhile
import PgWaitTracer.Lib.ByteCodec

/-!
# USDT notes

The probes of a binary are found in the notes of its `.note.stapsdt` section, which
`pgwt_elf_usdt_sites` (`src/discovery.c`) walks. A note has three words, the sizes of its owner's
name and of its descriptor and its type; both follow, padded to four bytes. The padding is computed
in 32 bits, where the largest sizes become 0, so that such a note passes the check that should stop
the walk.

A read of the section can fail; it does so at the section's end.

## Main results

* `walksPrefix_iff`: when it does.
* `noteLoop_huge_descsz`: a read behind the section.
-/

namespace PgWaitTracer

open ByteCodec

/-! ### The walk -/

/-- `struct pgwt_usdt_site`. -/
structure UsdtSite where
  elfAddr : UInt64
  runtimeAddr : UInt64 := 0
  marker : ℤ
  canonical : ℤ := 0
  deriving DecidableEq

/-- What is looked for, the address of `.stapsdt.base` (0 if there is none), and the sites that the
plan has, of at most `PGWT_MAX_USDT_SITES`. -/
structure UsdtQuery where
  provider : Bytes
  name : Bytes
  marker : ℤ
  anchor : UInt64
  nSites : ℕ
  nSites_le : nSites ≤ 32

/-- Bytes of the section. -/
def bytesAt (buf : Bytes) (off n : ℕ) : Option Bytes :=
  if off + n ≤ buf.length then some ((buf.drop off).take n) else none

/-- A word of the section. -/
def wordAt (buf : Bytes) (off : ℕ) : ℕ := leNat ((buf.drop off).take 4)

/-- `(x + 3u) & ~3u`. -/
def padded32 (x : ℕ) : ℕ := (x + 3) % 2 ^ 32 / 4 * 4

/-- `bounded_str`, on `left` bytes. -/
def boundedStr (buf : Bytes) : ℕ → ℕ → Option (Option Bytes)
  | 0, _ => some none
  | left + 1, p =>
    match buf[p]? with
    | none => none
    | some c =>
      if c = 0 then some (some []) else (boundedStr buf left (p + 1)).map (Option.map (c :: ·))

/-- The address of a probe, moved as far as the anchor was. -/
def siteAddr (anchor loc noteBase : UInt64) : UInt64 :=
  if anchor ≠ 0 ∧ noteBase ≤ anchor then loc + (anchor - noteBase)
  else if anchor ≠ 0 then loc - (noteBase - anchor)
  else loc

/-- `stapsdt` with its NUL. -/
def stapsdtOwner : Bytes := [115, 116, 97, 112, 115, 100, 116, 0]

/-- The body of the loop, for a note that passed the check: its site, if it matches. -/
def noteSite (q : UsdtQuery) (buf : Bytes) (nmOff dsOff namesz descsz type : ℕ) :
    Option (Option UsdtSite) := do
  if type ≠ 3 ∨ namesz ≠ 8 then return none
  let owner ← bytesAt buf nmOff 8
  if owner ≠ stapsdtOwner ∨ descsz < 27 then return none
  let loc ← bytesAt buf dsOff 8
  let noteBase ← bytesAt buf (dsOff + 8) 8
  match ← boundedStr buf (descsz - 24) (dsOff + 24) with
  | none => return none
  | some prov =>
    match ← boundedStr buf (descsz - 24 - (prov.length + 1)) (dsOff + 24 + (prov.length + 1)) with
    | none => return none
    | some pname =>
      if prov ≠ q.provider ∨ pname ≠ q.name ∨ UInt64.ofNat (leNat loc) = 0 then return none
      return some
        { elfAddr := siteAddr q.anchor (.ofNat (leNat loc)) (.ofNat (leNat noteBase))
          marker := q.marker }

/-- The notes that passed the check, the sites, and whether one more was found than the plan has
room for. -/
structure NoteWalk where
  visited : List ℕ := []
  sites : List UsdtSite := []
  overflow : Bool := false
  deriving DecidableEq

/-- The loop of `pgwt_elf_usdt_sites` over a section. The header is read only where there are 12
bytes. -/
def noteLoop (q : UsdtQuery) (buf : Bytes) (off : ℕ) (w : NoteWalk) : Option NoteWalk :=
  if buf.length < off + 12 then some w
  else
    let dsOff := off + 12 + padded32 (wordAt buf off)
    let next := dsOff + padded32 (wordAt buf (off + 4))
    if _h : next ≤ off ∨ buf.length < dsOff ∨ buf.length < next then some w
    else
      let w := { w with visited := w.visited ++ [off] }
      match noteSite q buf (off + 12) dsOff (wordAt buf off) (wordAt buf (off + 4))
        (wordAt buf (off + 8)) with
      | none => none
      | some none => noteLoop q buf next w
      | some (some site) =>
        if 32 ≤ q.nSites + w.sites.length then some { w with overflow := true }
        else noteLoop q buf next { w with sites := w.sites ++ [site] }
termination_by buf.length - off
decreasing_by all_goals omega

/-! ### Well-formed notes -/

/-- A note lies in the section, and its padded sizes are 32-bit words. -/
def NoteFits (buf : Bytes) (off : ℕ) : Prop :=
  wordAt buf off + 3 < 2 ^ 32 ∧ wordAt buf (off + 4) + 3 < 2 ^ 32 ∧
    off + 12 + (wordAt buf off + 3) / 4 * 4 + (wordAt buf (off + 4) + 3) / 4 * 4 ≤ buf.length

instance (buf : Bytes) (off : ℕ) : Decidable (NoteFits buf off) :=
  inferInstanceAs (Decidable (_ ∧ _ ∧ _))

/-- The notes of the longest well-formed sequence from an offset on, and where it ends. -/
def notePrefix (buf : Bytes) (off : ℕ) : List ℕ × ℕ :=
  if _h : NoteFits buf off then
    let r := notePrefix buf
      (off + 12 + (wordAt buf off + 3) / 4 * 4 + (wordAt buf (off + 4) + 3) / 4 * 4)
    (off :: r.1, r.2)
  else ([], off)
termination_by buf.length - off
decreasing_by
  obtain ⟨-, -, hle⟩ := _h
  omega

/-- A text up to its NUL, and the bytes behind it. -/
def cstr? (s : Bytes) : Option (Bytes × Bytes) :=
  if 0 ∈ s then some (s.takeWhile (· ≠ 0), (s.dropWhile (· ≠ 0)).tail) else none

/-- The site of a well-formed note that matches. -/
def noteMatch (q : UsdtQuery) (buf : Bytes) (off : ℕ) : Option UsdtSite :=
  let name := (buf.drop (off + 12)).take (wordAt buf off)
  let desc := (buf.drop (off + 12 + (wordAt buf off + 3) / 4 * 4)).take (wordAt buf (off + 4))
  let loc := UInt64.ofNat (leNat (desc.take 8))
  if wordAt buf (off + 8) = 3 ∧ name = stapsdtOwner ∧ 27 ≤ desc.length then
    (cstr? (desc.drop 24)).bind fun prov => (cstr? prov.2).bind fun pname =>
      if prov.1 = q.provider ∧ pname.1 = q.name ∧ loc ≠ 0 then
        some
          { elfAddr := siteAddr q.anchor loc (.ofNat (leNat ((desc.drop 8).take 8)))
            marker := q.marker }
      else none
  else none

variable {q : UsdtQuery} {buf : Bytes} {off : ℕ} {w w' : NoteWalk}

theorem boundedStr_eq {left p : ℕ} (h : p + left ≤ buf.length) :
    boundedStr buf left p = some ((cstr? ((buf.drop p).take left)).map Prod.fst) := by
  induction left generalizing p with
  | zero => rfl
  | succ left ih =>
    have hp : p < buf.length := by omega
    rw [boundedStr, List.getElem?_eq_getElem hp, List.drop_eq_getElem_cons hp, List.take_succ_cons]
    dsimp only
    split_ifs with hc
    · simp [cstr?, hc]
    · rw [ih (by omega), cstr?, cstr?]
      by_cases hmem : 0 ∈ (buf.drop (p + 1)).take left
      · simp [hmem, hc]
      · simp [hmem, Ne.symm hc]

theorem cstr?_eq_some {s a r : Bytes} (h : cstr? s = some (a, r)) :
    a.length + 1 ≤ s.length ∧ r = s.drop (a.length + 1) := by
  rw [cstr?] at h
  split_ifs at h with hmem
  obtain ⟨rfl, rfl⟩ := Prod.mk.inj (Option.some.inj h)
  have happ := List.takeWhile_append_dropWhile (p := (· ≠ (0 : UInt8))) (l := s)
  have hne : s.dropWhile (· ≠ 0) ≠ [] := by
    intro hnil
    simpa using List.dropWhile_eq_nil_iff.1 hnil 0 hmem
  have hlen := congrArg List.length happ
  rw [List.length_append] at hlen
  have hpos := List.length_pos_iff.2 hne
  have hdrop : (s.takeWhile (· ≠ 0) ++ s.dropWhile (· ≠ 0)).drop (s.takeWhile (· ≠ 0)).length =
      s.dropWhile (· ≠ 0) := List.drop_left
  rw [happ] at hdrop
  exact ⟨by omega, by rw [← List.drop_drop, List.drop_one, hdrop]⟩

/-- A well-formed note is read inside the section, and its site is found. -/
theorem noteSite_eq (h : NoteFits buf off) :
    noteSite q buf (off + 12) (off + 12 + (wordAt buf off + 3) / 4 * 4) (wordAt buf off)
      (wordAt buf (off + 4)) (wordAt buf (off + 8)) = some (noteMatch q buf off) := by
  obtain ⟨-, -, hle⟩ := h
  generalize hds : off + 12 + (wordAt buf off + 3) / 4 * 4 = ds at hle
  have hdslen : ds + wordAt buf (off + 4) ≤ buf.length := by omega
  have hnmlen : off + 12 + wordAt buf off ≤ buf.length := by omega
  rw [noteSite, noteMatch, hds]
  generalize hdesc : (buf.drop ds).take (wordAt buf (off + 4)) = desc
  have hlen : desc.length = wordAt buf (off + 4) := by
    rw [← hdesc, List.length_take, List.length_drop]
    omega
  rw [← hlen] at hdslen hdesc
  have hslice (a n : ℕ) (han : a + n ≤ desc.length) :
      (buf.drop (ds + a)).take n = (desc.drop a).take n := by
    conv_rhs => rw [← hdesc, List.drop_take, List.take_take, List.drop_drop]
    rw [Nat.min_eq_left (by omega)]
  have hread (a n : ℕ) (han : a + n ≤ desc.length) :
      bytesAt buf (ds + a) n = some ((desc.drop a).take n) := by
    rw [bytesAt, if_pos (by omega), hslice a n han]
  have hstr (a : ℕ) (ha : a ≤ desc.length) :
      boundedStr buf (desc.length - a) (ds + a) = some ((cstr? (desc.drop a)).map Prod.fst) := by
    rw [boundedStr_eq (by omega), hslice a _ (by omega), List.take_of_length_le (by simp)]
  have howner : (buf.drop (off + 12)).take (wordAt buf off) = stapsdtOwner →
      wordAt buf off = 8 := by
    intro heq
    have hl := congrArg List.length heq
    rw [List.length_take, List.length_drop, Nat.min_eq_left (by omega)] at hl
    exact hl
  rw [← hlen]
  by_cases hstap : wordAt buf (off + 8) = 3 ∧ wordAt buf off = 8
  swap
  · rw [if_pos (by omega), if_neg fun hmatch => hstap ⟨hmatch.1, howner hmatch.2.1⟩]
    rfl
  obtain ⟨htype, hnamesz⟩ := hstap
  have hnm : bytesAt buf (off + 12) 8 = some ((buf.drop (off + 12)).take (wordAt buf off)) := by
    rw [bytesAt, if_pos (by omega), hnamesz]
  rw [if_neg (by omega), hnm]
  by_cases hok : (buf.drop (off + 12)).take (wordAt buf off) = stapsdtOwner ∧ 27 ≤ desc.length
  swap
  · rw [if_neg fun hmatch => hok hmatch.2, Option.bind_eq_bind, Option.bind_some,
      if_pos ((not_and_or.1 hok).imp_right Nat.lt_of_not_le)]
    rfl
  have hloc := hread 0 8 (by omega)
  have hbase := hread 8 8 (by omega)
  have hprov := hstr 24 (by omega)
  rw [Nat.add_zero, List.drop_zero] at hloc
  rw [if_pos ⟨htype, hok⟩]
  simp only [Option.bind_eq_bind, Option.bind_some, hok.1, ne_eq, not_true_eq_false, false_or,
    Nat.not_lt.2 hok.2, if_false, hloc, hbase, hprov]
  rcases hp : cstr? (desc.drop 24) with _ | ⟨prov, r⟩
  · rfl
  obtain ⟨hl, rfl⟩ := cstr?_eq_some hp
  rw [List.length_drop] at hl
  have hname := hstr (24 + (prov.length + 1)) (by omega)
  rw [← Nat.sub_sub, ← Nat.add_assoc, ← List.drop_drop] at hname
  simp only [Option.map_some, Option.bind_some, hname]
  rcases cstr? ((desc.drop 24).drop (prov.length + 1)) with _ | ⟨pname, r⟩
  · rfl
  · simp only [Option.map_some, Option.bind_some]
    by_cases hmatch : prov = q.provider ∧ pname = q.name ∧ UInt64.ofNat (leNat (desc.take 8)) ≠ 0
    · rw [if_pos hmatch, if_neg (by simpa using hmatch)]
      rfl
    · rw [if_neg hmatch, if_pos (by by_contra hnot; simp_all)]
      rfl

theorem padded32_of_lt {x : ℕ} (h : x + 3 < 2 ^ 32) : padded32 x = (x + 3) / 4 * 4 := by
  rw [padded32, Nat.mod_eq_of_lt h]

theorem noteLoop_of_fits (h : NoteFits buf off) :
    noteLoop q buf off w =
      match noteMatch q buf off with
      | none => noteLoop q buf
          (off + 12 + (wordAt buf off + 3) / 4 * 4 + (wordAt buf (off + 4) + 3) / 4 * 4)
          { w with visited := w.visited ++ [off] }
      | some site =>
        if 32 ≤ q.nSites + w.sites.length then
          some { w with visited := w.visited ++ [off], overflow := true }
        else noteLoop q buf
          (off + 12 + (wordAt buf off + 3) / 4 * 4 + (wordAt buf (off + 4) + 3) / 4 * 4)
          { w with visited := w.visited ++ [off], sites := w.sites ++ [site] } := by
  obtain ⟨hname, hdesc, hle⟩ := h
  rw [noteLoop, if_neg (by omega)]
  simp only [padded32_of_lt hname, padded32_of_lt hdesc, noteSite_eq ⟨hname, hdesc, hle⟩]
  rw [dif_neg (by omega)]
  cases noteMatch q buf off with
  | none => rfl
  | some site => rfl

/-- The walk of well-formed notes, as long as there is room for their sites. -/
theorem noteLoop_notePrefix (buf : Bytes) (off : ℕ) (hroom : q.nSites + w.sites.length ≤ 32) :
    let found := (notePrefix buf off).1.filterMap (noteMatch q buf)
    if q.nSites + w.sites.length + found.length ≤ 32 then
      noteLoop q buf off w = noteLoop q buf (notePrefix buf off).2
        { w with visited := w.visited ++ (notePrefix buf off).1, sites := w.sites ++ found }
    else ∃ l, l <+: (notePrefix buf off).1 ∧ noteLoop q buf off w =
      some ⟨w.visited ++ l, w.sites ++ found.take (32 - q.nSites - w.sites.length), true⟩ := by
  induction off using notePrefix.induct buf generalizing w with
  | case1 off h ih =>
    rw [notePrefix, dif_pos h, noteLoop_of_fits h]
    dsimp only
    rcases hmatch : noteMatch q buf off with _ | site
    · have hrest := ih (w := { w with visited := w.visited ++ [off] }) hroom
      rw [List.filterMap_cons_none hmatch]
      dsimp only at hrest ⊢
      split_ifs at hrest ⊢ with hfit
      · rw [hrest, List.append_assoc, List.singleton_append]
      · obtain ⟨l, hl, heq⟩ := hrest
        exact ⟨off :: l, List.prefix_cons_inj off |>.2 hl, by rw [heq]; simp⟩
    · rw [List.filterMap_cons_some hmatch, List.length_cons]
      dsimp only
      by_cases hfull : 32 ≤ q.nSites + w.sites.length
      · rw [if_neg (by omega), if_pos hfull]
        refine ⟨[off], List.prefix_append [off] _, ?_⟩
        rw [show 32 - q.nSites - w.sites.length = 0 by omega, List.take_zero, List.append_nil]
      · have hrest := ih (w := { w with visited := w.visited ++ [off], sites := w.sites ++ [site] })
          (by rw [List.length_append, List.length_singleton]; omega)
        rw [if_neg hfull]
        simp only [List.length_append, List.length_singleton] at hrest
        split_ifs at hrest ⊢ with hfit hfit'
        · rw [hrest, List.append_assoc, List.singleton_append, List.append_assoc,
            List.singleton_append]
        · omega
        · omega
        · obtain ⟨l, hl, heq⟩ := hrest
          refine ⟨off :: l, List.prefix_cons_inj off |>.2 hl, ?_⟩
          rw [heq, show 32 - q.nSites - w.sites.length =
            32 - q.nSites - (w.sites.length + 1) + 1 by omega, List.take_succ_cons]
          simp
  | case2 off h =>
    rw [notePrefix, dif_neg h]
    simp [hroom]

/-- What stands at an offset passes the check of the walk. -/
def PassesCheck (buf : Bytes) (off : ℕ) : Prop :=
  off + 12 + padded32 (wordAt buf off) + padded32 (wordAt buf (off + 4)) ≤ buf.length

theorem noteLoop_of_not_passes (h : ¬PassesCheck buf off) : noteLoop q buf off w = some w := by
  rw [noteLoop]
  split_ifs with hend
  · rfl
  · rw [PassesCheck, Nat.not_le] at h
    dsimp only
    rw [dif_pos (Or.inr (Or.inr h))]

theorem visited_noteLoop (h : noteLoop q buf off w = some w') :
    w.visited <+: w'.visited ∧ (PassesCheck buf off → w.visited ++ [off] <+: w'.visited) := by
  induction hn : buf.length - off using Nat.strong_induction_on generalizing off w with
  | _ n ih =>
  by_cases hpass : PassesCheck buf off
  · suffices hvis : w.visited ++ [off] <+: w'.visited from
      ⟨(List.prefix_append ..).trans hvis, fun _ => hvis⟩
    have hpass' := hpass
    rw [PassesCheck] at hpass'
    rw [noteLoop, if_neg (by omega)] at h
    dsimp only at h
    rw [dif_neg (by omega)] at h
    split at h
    · cases h
    · exact (ih _ (by omega) h rfl).1
    · split_ifs at h
      · exact Option.some.inj h ▸ List.prefix_rfl
      · exact (ih _ (by omega) h rfl).1
  · rw [noteLoop_of_not_passes hpass] at h
    rw [← Option.some.inj h]
    exact ⟨List.prefix_rfl, fun hp => absurd hp hpass⟩

/-- The walk stays in the section, stops at the first note that is not well-formed, and its sites
are those of the notes before it that match, as far as the plan has room for them; one more is
noticed. -/
def WalksPrefix (q : UsdtQuery) (buf : Bytes) : Prop :=
  let notes := (notePrefix buf 0).1
  let found := notes.filterMap (noteMatch q buf)
  ∃ w, noteLoop q buf 0 {} = some w ∧ w.sites = found.take (32 - q.nSites) ∧
    w.visited <+: notes ∧ (w.overflow = true ↔ 32 < q.nSites + found.length) ∧
    (w.overflow = false → w.visited = notes)

/-- **The walk of the notes.** It is right unless the note that should stop it passes the check,
with a size that is padded to 0; a plan that is full stops the walk before. -/
theorem walksPrefix_iff (q : UsdtQuery) (buf : Bytes) :
    WalksPrefix q buf ↔
      32 < q.nSites + ((notePrefix buf 0).1.filterMap (noteMatch q buf)).length ∨
        ¬PassesCheck buf (notePrefix buf 0).2 := by
  have hroom : q.nSites + ({} : NoteWalk).sites.length ≤ 32 := q.nSites_le
  have hloop := noteLoop_notePrefix buf 0 hroom
  simp only [List.length_nil, Nat.add_zero, Nat.sub_zero, List.nil_append] at hloop
  rw [WalksPrefix]
  split_ifs at hloop with hfit
  · rw [hloop]
    constructor
    · rintro ⟨w, hw, -, -, hover, hvis⟩
      refine Or.inr fun hpass => ?_
      have hle := ((visited_noteLoop hw).2 hpass).length_le
      rw [hvis (by rw [← Bool.not_eq_true, hover]; omega), List.length_append] at hle
      exact absurd hle (by simp)
    · rintro (hover | hpass)
      · omega
      · refine ⟨_, noteLoop_of_not_passes hpass, ?_, List.prefix_rfl, ?_, fun _ => rfl⟩
        · rw [List.take_of_length_le (by omega)]
        · exact iff_of_false Bool.false_ne_true (by omega)
  · obtain ⟨l, hl, heq⟩ := hloop
    refine iff_of_true ⟨_, heq, rfl, hl, iff_of_true rfl (by omega), ?_⟩ (Or.inl (by omega))
    exact fun h => absurd h (by simp)

theorem noteLoop_huge_descsz :
    let q : UsdtQuery := ⟨[], [], 0, 0, 0, by decide⟩
    let buf : Bytes := [8, 0, 0, 0, 255, 255, 255, 255, 3, 0, 0, 0] ++ stapsdtOwner
    noteLoop q buf 0 {} = none ∧ ¬WalksPrefix q buf := by
  intro q buf
  have hnone : noteLoop q buf 0 {} = none := by
    rw [noteLoop, if_neg (by decide)]
    dsimp only
    rw [dif_neg (by decide), show wordAt buf 0 = 8 by decide,
      show wordAt buf (0 + 4) = 4294967295 by decide, show wordAt buf (0 + 8) = 3 by decide,
      show padded32 8 = 8 by decide]
    simp [noteSite, bytesAt, buf, stapsdtOwner]
  refine ⟨hnone, ?_⟩
  rintro ⟨w, hw, -⟩
  rw [hnone] at hw
  cases hw

end PgWaitTracer
