import Mathlib.Data.List.Pairwise
import Mathlib.Data.UInt
import Mathlib.Logic.Function.Basic
import PgWaitTracer.Lib.BinarySearch

/-!
# The layout of a backend's status

Where `PgBackendStatus` has its members is read from the debug entries of the server's binary
(`src/backend_status_layout.c`). Types are searched by id, since the entries come with increasing
ids, and typedefs and qualifiers are followed 32 deep. There may be several definitions; all that
are complete and sane have to agree.

An attribute that is missing is `none`, and so is a member location that is an expression. What is
the same for all candidates of a call (version, pointer width, texts) is not part of a layout, and
a candidate that is refused does not say why, since nobody reads it.

## Main results

* `resolveType_eq_some`: what a type resolves to, with cycles and long chains.
* `parseDwarf_spec`: when there is a layout, and what is true of it.
-/

namespace PgWaitTracer

open BinarySearch

/-! ### Debug entries -/

/-- `enum dwarf_tag`. -/
inductive DwarfTag
  | other | struct | typedef | member | base | pointer | enum | enumerator
  | const | volatile | restrict | atomic
  deriving DecidableEq

/-- The members that are looked for. -/
inductive PgbsMember
  | changecount | procpid | databaseid | userid | state | activityRaw | queryId
  deriving DecidableEq

/-- `enum dwarf_name`. -/
inductive DwarfName
  | none | pgbs | member (m : PgbsMember) | stateRunning | stateFastpath | stateDisabled
  deriving DecidableEq

/-- `struct dwarf_die`. -/
structure DwarfDie where
  id : UInt64
  parent : Option ℕ := none
  tag : DwarfTag := .other
  name : DwarfName := .none
  typeId : Option UInt64 := none
  byteSize : Option UInt32 := none
  constValue : Option ℤ := none
  encoding : ℤ := 0
  declaration : Bool := false
  location : Option UInt64 := none

/-- The entries, as `readelf` prints them. -/
structure DwarfVec where
  dies : List DwarfDie
  sorted : dies.Pairwise fun d e => d.id < e.id

/-- `find_die`. -/
def findDie (vec : DwarfVec) (id : UInt64) : Option ℕ :=
  let lo := lowerBound (fun i => (vec.dies[i]?).any (·.id < id)) vec.dies.length
  if (vec.dies[lo]?).any (·.id = id) then some lo else none

/-- Typedefs and qualifiers. -/
def DwarfTag.isAlias (tag : DwarfTag) : Bool :=
  tag = .typedef || tag = .const || tag = .volatile || tag = .restrict || tag = .atomic

/-- `resolve_type`, with the depth that is left, 32 at first. -/
def resolveType (vec : DwarfVec) : ℕ → Option ℕ → Option ℕ
  | 0, _ | _, none => none
  | depth + 1, some i =>
    (vec.dies[i]?).bind fun die =>
      if die.tag.isAlias then resolveType vec depth (die.typeId.bind (findDie vec)) else some i

/-! ### Layouts -/

/-- `struct pgwt_pgbs_field`. -/
structure PgbsField where
  offset : UInt32 := 0
  width : UInt8 := 0
  present : Bool := false
  deriving DecidableEq

/-- `struct PgBackendStatusLayout`, as far as a candidate fills it. -/
@[ext]
structure DwarfLayout where
  structSize : UInt32
  field : PgbsMember → PgbsField
  queryIdSigned : Bool
  stateRunning : ℤ
  stateFastpath : ℤ
  stateMax : ℤ

/-- The order in which `structurally_sane` lists the fields. -/
def pgbsMembers : List PgbsMember :=
  [.changecount, .procpid, .databaseid, .userid, .state, .activityRaw, .queryId]

/-- `fields_overlap`, with ends that wrap around. -/
def fieldsOverlap (a b : PgbsField) : Bool :=
  a.present && b.present && a.offset < b.offset + b.width.toUInt32 &&
    b.offset < a.offset + a.width.toUInt32

/-- The nested loop of `structurally_sane`. -/
def fieldsSane (structSize : UInt32) : List PgbsField → Bool
  | [] => true
  | a :: fields =>
    !(a.present && structSize.toNat < a.offset.toNat + a.width.toNat) &&
      fields.all (!fieldsOverlap a ·) && fieldsSane structSize fields

/-- The members that must be there, and the widths that `structurally_sane` asks for. -/
def membersSane (major : ℤ) (pointerWidth : UInt32) (field : PgbsMember → PgbsField) : Bool :=
  [.changecount, .procpid, .databaseid, .userid, .state].all (fun m =>
      (field m).present && (field m).width = 4) &&
    (field .activityRaw).present && (field .activityRaw).width.toUInt32 = pointerWidth &&
    !(14 ≤ major && !((field .queryId).present && (field .queryId).width = 8)) &&
    !(major = 13 && (field .queryId).present)

/-- `structurally_sane`. -/
def structurallySane (major : ℤ) (pointerWidth : UInt32) (l : DwarfLayout) : Bool :=
  32 ≤ l.structSize && l.structSize ≤ 65536 && membersSane major pointerWidth l.field &&
    fieldsSane l.structSize (pgbsMembers.map l.field) &&
    (0 ≤ l.stateRunning && 0 ≤ l.stateFastpath && l.stateRunning ≤ l.stateMax &&
      l.stateFastpath ≤ l.stateMax && l.stateRunning ≠ l.stateFastpath && l.stateMax ≤ 64)

/-- The members of a definition that were found. -/
structure MemberScan where
  field : PgbsMember → PgbsField := fun _ => {}
  stateType : Option ℕ := none
  queryIdSigned : Bool := false

/-- The first loop of `layout_from_struct`. A member was found before if its field is present. -/
def memberStep (vec : DwarfVec) (structIndex : ℕ) (s : MemberScan) (die : DwarfDie) :
    Option MemberScan :=
  match die.name with
  | .member m =>
    if die.parent ≠ some structIndex ∨ die.tag ≠ .member then some s
    else if (s.field m).present then none
    else do
      let location ← die.location
      let typeIndex ← resolveType vec 32 (die.typeId.bind (findDie vec))
      let type ← vec.dies[typeIndex]?
      let size ← type.byteSize
      if 2 ^ 32 ≤ location.toNat ∨ size = 0 ∨ 255 < size then none
      else if m = .activityRaw ∧ type.tag ≠ .pointer then none
      else if m = .queryId ∧ (type.tag ≠ .base ∨ type.encoding < 5 ∨ 8 < type.encoding) then none
      else
        some
          { field := Function.update s.field m ⟨location.toUInt32, size.toUInt8, true⟩
            stateType := if m = .state then some typeIndex else s.stateType
            queryIdSigned := if m = .queryId then type.encoding ≤ 6 else s.queryIdSigned }
  | _ => some s

/-- The enumerators that were found. -/
structure EnumScan where
  running : Option ℤ := none
  fastpath : Option ℤ := none
  disabled : Option ℤ := none

/-- An enumerator is set once. -/
def setOnce (old : Option ℤ) (die : DwarfDie) : Option (Option ℤ) :=
  (die.constValue.filter fun v => 0 ≤ v ∧ v ≤ 2147483647).bind fun v =>
    if old.isSome then none else some (some v)

/-- The second loop of `layout_from_struct`. -/
def enumStep (stateType : ℕ) (s : EnumScan) (die : DwarfDie) : Option EnumScan :=
  if die.parent ≠ some stateType ∨ die.tag ≠ .enumerator then some s
  else
    match die.name with
    | .stateRunning => (setOnce s.running die).map fun v => { s with running := v }
    | .stateFastpath => (setOnce s.fastpath die).map fun v => { s with fastpath := v }
    | .stateDisabled => (setOnce s.disabled die).map fun v => { s with disabled := v }
    | _ => some s

/-- `layout_from_struct`. -/
def layoutFromStruct (vec : DwarfVec) (major : ℤ) (pointerWidth : UInt32) (structIndex : ℕ) :
    Option DwarfLayout := do
  let structure_ ← vec.dies[structIndex]?
  let structSize ← structure_.byteSize
  let s ← vec.dies.foldlM (memberStep vec structIndex) {}
  let stateType ← s.stateType.filter fun j => (vec.dies[j]?).any (·.tag = .enum)
  let e ← vec.dies.foldlM (enumStep stateType) {}
  let l : DwarfLayout :=
    { structSize, field := s.field, queryIdSigned := s.queryIdSigned
      stateRunning := ← e.running, stateFastpath := ← e.fastpath, stateMax := ← e.disabled }
  if structurallySane major pointerWidth l then some l else none

/-- `layouts_equal`. -/
def layoutsEqual (a b : DwarfLayout) : Bool :=
  a.structSize = b.structSize && pgbsMembers.all (fun m => a.field m = b.field m) &&
    a.queryIdSigned = b.queryIdSigned && a.stateRunning = b.stateRunning &&
    a.stateFastpath = b.stateFastpath && a.stateMax = b.stateMax

/-! ### Selection -/

/-- What an entry of the name leads to. -/
def rootTarget (vec : DwarfVec) (i : ℕ) (root : DwarfDie) : Option ℕ :=
  if root.name ≠ .pgbs then none
  else if root.tag = .struct then some i
  else if root.tag = .typedef then resolveType vec 32 (root.typeId.bind (findDie vec))
  else none

/-- The definition that an entry names, if it is one. -/
def pgbsTarget (vec : DwarfVec) (i : ℕ) : Option ℕ := do
  let root ← vec.dies[i]?
  let target ← rootTarget vec i root
  let die ← vec.dies[target]?
  if die.tag = .struct ∧ die.declaration = false then some target else none

/-- The definitions that were seen, as far as there is room for them, and the layout accepted. -/
structure LayoutSelection where
  seen : List ℕ := []
  accepted : Option DwarfLayout := none

/-- The loop of `pgwt_pgbs_parse_dwarf`, which fails if two layouts disagree. -/
def selectStep (vec : DwarfVec) (major : ℤ) (pointerWidth : UInt32) (s : LayoutSelection)
    (i : ℕ) : Option LayoutSelection :=
  match pgbsTarget vec i with
  | none => some s
  | some target =>
    if target ∈ s.seen then some s
    else
      let s := if s.seen.length < 256 then { s with seen := s.seen ++ [target] } else s
      match layoutFromStruct vec major pointerWidth target, s.accepted with
      | none, _ => some s
      | some candidate, none => some { s with accepted := some candidate }
      | some candidate, some accepted => if layoutsEqual accepted candidate then some s else none

/-- `pgwt_pgbs_parse_dwarf`, behind the parser of the stream. -/
def parseDwarf (vec : DwarfVec) (major : ℤ) (pointerWidth : UInt32) : Except String DwarfLayout :=
  match (List.range vec.dies.length).foldlM (selectStep vec major pointerWidth) {} with
  | none => .error "ambiguous PgBackendStatus definitions disagree"
  | some s =>
    match s.accepted with
    | none => .error "no complete unambiguous PgBackendStatus definition"
    | some l => .ok l

/-! ### Types -/

/-- An entry leads through so many typedefs and qualifiers to a type. -/
inductive LeadsTo (vec : DwarfVec) : ℕ → ℕ → ℕ → Prop
  | here {i die} (h : vec.dies[i]? = some die) (hd : die.tag.isAlias = false) : LeadsTo vec 0 i i
  | link {k i j t die type} (h : vec.dies[i]? = some die) (hd : die.tag.isAlias = true)
      (ht : vec.dies[j]? = some type) (hid : die.typeId = some type.id) (hj : LeadsTo vec k j t) :
      LeadsTo vec (k + 1) i t

variable {vec : DwarfVec} {i j t k : ℕ} {l l' : DwarfLayout} {major : ℤ} {pointerWidth : UInt32}

theorem findDie_eq_some {id : UInt64} :
    findDie vec id = some j ↔ ∃ die, vec.dies[j]? = some die ∧ die.id = id := by
  have hlt {i j : ℕ} {d e : DwarfDie} (hd : vec.dies[i]? = some d) (he : vec.dies[j]? = some e)
      (hij : i < j) : d.id < e.id := by
    obtain ⟨hi, rfl⟩ := List.getElem?_eq_some_iff.1 hd
    obtain ⟨hj, rfl⟩ := List.getElem?_eq_some_iff.1 he
    exact List.pairwise_iff_getElem.1 vec.sorted i j hi hj hij
  have hturns : Turns (fun i => (vec.dies[i]?).any (·.id < id)) vec.dies.length := by
    intro i j hij hj hp
    rcases Nat.eq_or_lt_of_le hij with rfl | hij
    · exact hp
    · have hd := List.getElem?_eq_getElem (hij.trans hj)
      have he := List.getElem?_eq_getElem hj
      simp only [hd, he, Option.any_some, decide_eq_true_eq] at hp ⊢
      exact UInt64.lt_trans (hlt hd he hij) hp
  obtain ⟨-, hbefore, hafter⟩ := lowerBound_spec hturns
  rw [findDie]
  generalize lowerBound _ _ = lo at *
  constructor
  · intro h
    rcases hlo : vec.dies[lo]? with _ | die
    · simp [hlo] at h
    · simp only [hlo, Option.any_some, decide_eq_true_eq] at h
      split_ifs at h with hid
      rw [← Option.some.inj h]
      exact ⟨die, hlo, hid⟩
  · rintro ⟨die, hj, rfl⟩
    have hjlt := (List.getElem?_eq_some_iff.1 hj).1
    have hlo : lo = j := by
      rcases Nat.lt_trichotomy lo j with h | h | h
      · have hd := List.getElem?_eq_getElem (h.trans hjlt)
        have hnot := hafter lo (Nat.le_refl lo) (h.trans hjlt)
        simp only [hd, Option.any_some, decide_eq_false_iff_not] at hnot
        exact absurd (hlt hd hj h) hnot
      · exact h
      · have hyes := hbefore j h
        simp [hj] at hyes
    simp [hlo, hj]

@[simp] theorem resolveType_none (depth : ℕ) : resolveType vec depth none = none := by
  cases depth with
  | zero => rfl
  | succ depth => rfl

/-- **What a type resolves to.** A cycle, or a chain that is too long, leads nowhere. -/
theorem resolveType_eq_some {depth : ℕ} :
    resolveType vec depth (some i) = some t ↔ ∃ k < depth, LeadsTo vec k i t := by
  induction depth generalizing i with
  | zero => simp [resolveType]
  | succ depth ih =>
    rw [resolveType]
    constructor
    · intro h
      obtain ⟨die, hdie, h⟩ := Option.bind_eq_some_iff.1 h
      split_ifs at h with halias
      · rcases hnext : die.typeId.bind (findDie vec) with _ | j
        · rw [hnext, resolveType_none] at h
          cases h
        · obtain ⟨id, hid, hfind⟩ := Option.bind_eq_some_iff.1 hnext
          obtain ⟨type, htype, rfl⟩ := findDie_eq_some.1 hfind
          rw [hnext] at h
          obtain ⟨k, hk, hlead⟩ := ih.1 h
          exact ⟨k + 1, by omega, .link hdie halias htype hid hlead⟩
      · obtain rfl := Option.some.inj h
        exact ⟨0, by omega, .here hdie (Bool.eq_false_iff.2 halias)⟩
    · rintro ⟨k, hk, hlead⟩
      cases hlead with
      | here hdie halias => simp [hdie, halias]
      | link hdie halias htype hid hlead =>
        have hnext := ih.2 ⟨_, Nat.lt_of_succ_lt_succ hk, hlead⟩
        simpa [hdie, halias, hid, findDie_eq_some.2 ⟨_, htype, rfl⟩] using hnext

/-- A definition of `PgBackendStatus`: an entry of that name that is, or leads to, a structure. -/
def IsDefinition (vec : DwarfVec) (t : ℕ) : Prop :=
  ∃ i root k die, vec.dies[i]? = some root ∧ root.name = .pgbs ∧
    (root.tag = .struct ∨ root.tag = .typedef) ∧ k ≤ 32 ∧ LeadsTo vec k i t ∧
    vec.dies[t]? = some die ∧ die.tag = .struct ∧ die.declaration = false

theorem isDefinition_iff :
    IsDefinition vec t ↔ ∃ i ∈ List.range vec.dies.length, pgbsTarget vec i = some t := by
  have hfrom {i : ℕ} {root : DwarfDie} (hroot : vec.dies[i]? = some root) :
      resolveType vec 33 (some i) = if root.tag.isAlias then
        resolveType vec 32 (root.typeId.bind (findDie vec)) else some i := by
    rw [resolveType, hroot, Option.bind_some]
  constructor
  · rintro ⟨i, root, k, die, hroot, hname, htag, hk, hlead, hdie, hstruct, hdecl⟩
    refine ⟨i, List.mem_range.2 (List.getElem?_eq_some_iff.1 hroot).1, ?_⟩
    have hres : resolveType vec 33 (some i) = some t := resolveType_eq_some.2 ⟨k, by omega, hlead⟩
    have htarget : rootTarget vec i root = some t := by
      rw [← hres, hfrom hroot, rootTarget, if_neg (not_not.2 hname)]
      rcases htag with htag | htag
      · rw [if_pos htag, htag]
        rfl
      · rw [htag]
        rfl
    simp [pgbsTarget, hroot, htarget, hdie, hstruct, hdecl]
  · rintro ⟨i, -, h⟩
    obtain ⟨root, hroot, h⟩ := Option.bind_eq_some_iff.1 h
    obtain ⟨target, htarget, h⟩ := Option.bind_eq_some_iff.1 h
    obtain ⟨die, hdie, h⟩ := Option.bind_eq_some_iff.1 h
    split_ifs at h with hok
    obtain rfl := Option.some.inj h
    rw [rootTarget] at htarget
    split_ifs at htarget with hname hstruct htypedef
    · have hres : resolveType vec 33 (some i) = some target := by
        rw [hfrom hroot, hstruct]
        exact htarget
      obtain ⟨k, hk, hlead⟩ := resolveType_eq_some.1 hres
      exact ⟨i, root, k, die, hroot, not_not.1 hname, Or.inl hstruct, by omega, hlead, hdie, hok⟩
    · have hres : resolveType vec 33 (some i) = some target := by
        rw [hfrom hroot, htypedef]
        exact htarget
      obtain ⟨k, hk, hlead⟩ := resolveType_eq_some.1 hres
      exact ⟨i, root, k, die, hroot, not_not.1 hname, Or.inr htypedef, by omega, hlead, hdie, hok⟩

/-! ### Layouts that are accepted -/

theorem layoutsEqual_iff : layoutsEqual l l' = true ↔ l = l' := by
  constructor
  · intro h
    simp only [layoutsEqual, pgbsMembers, List.all_cons, List.all_nil, Bool.and_eq_true,
      decide_eq_true_eq, Bool.and_true] at h
    obtain ⟨⟨⟨⟨⟨hsize, hfield⟩, hsigned⟩, hrunning⟩, hfastpath⟩, hmax⟩ := h
    refine DwarfLayout.ext hsize (funext fun m => ?_) hsigned hrunning hfastpath hmax
    cases m <;> simp [hfield]
  · rintro rfl
    simp [layoutsEqual]

/-- The fields lie inside the structure and apart from each other. -/
structure DwarfLayout.Separate (l : DwarfLayout) : Prop where
  inside : ∀ m, (l.field m).present →
    (l.field m).offset.toNat + (l.field m).width.toNat ≤ l.structSize.toNat
  apart : ∀ m n, m ≠ n → (l.field m).present → (l.field n).present →
    (l.field m).offset.toNat + (l.field m).width.toNat ≤ (l.field n).offset.toNat ∨
      (l.field n).offset.toNat + (l.field n).width.toNat ≤ (l.field m).offset.toNat

theorem fieldsSane_iff {size : UInt32} {fields : List PgbsField} :
    fieldsSane size fields = true ↔
      (∀ a ∈ fields, a.present → a.offset.toNat + a.width.toNat ≤ size.toNat) ∧
        fields.Pairwise fun a b => fieldsOverlap a b = false := by
  induction fields with
  | nil => simp [fieldsSane]
  | cons a fields ih =>
    rw [fieldsSane, Bool.and_eq_true, Bool.and_eq_true, ih, List.forall_mem_cons,
      List.pairwise_cons]
    simp only [Bool.not_eq_true', Bool.and_eq_false_iff, decide_eq_false_iff_not, Nat.not_lt,
      List.all_eq_true]
    cases a.present <;> simp <;> tauto

theorem mem_pgbsMembers (m : PgbsMember) : m ∈ pgbsMembers := by
  cases m <;> simp [pgbsMembers]

theorem fieldsOverlap_comm (a b : PgbsField) : fieldsOverlap a b = fieldsOverlap b a := by
  rw [Bool.eq_iff_iff]
  simp only [fieldsOverlap, Bool.and_eq_true]
  tauto

/-- **The bounds make the wrapping ends harmless.** -/
theorem separate_of_layoutFromStruct
    (h : layoutFromStruct vec major pointerWidth t = some l) : l.Separate := by
  have hsane : structurallySane major pointerWidth l = true := by
    simp only [layoutFromStruct, Option.bind_eq_bind, Option.bind_eq_some_iff] at h
    obtain ⟨_, _, _, _, _, _, _, _, _, _, _, _, _, _, _, _, h⟩ := h
    split_ifs at h with hsane
    exact Option.some.inj h ▸ hsane
  simp only [structurallySane, Bool.and_eq_true, decide_eq_true_eq] at hsane
  obtain ⟨⟨⟨⟨-, hsize⟩, -⟩, hfields⟩, -⟩ := hsane
  obtain ⟨hinside, hpair⟩ := fieldsSane_iff.1 hfields
  have hin m := hinside _ (List.mem_map_of_mem (mem_pgbsMembers m))
  refine ⟨hin, fun m n hne hm hn => ?_⟩
  have : Std.Symm fun m n => fieldsOverlap (l.field m) (l.field n) = false :=
    ⟨fun a b hab => (fieldsOverlap_comm _ _).trans hab⟩
  have hover : fieldsOverlap (l.field m) (l.field n) = false :=
    (List.pairwise_map.1 hpair).forall (mem_pgbsMembers m) (mem_pgbsMembers n) hne
  have hm' := hin m hm
  have hn' := hin n hn
  have hsize' : l.structSize.toNat ≤ 65536 := hsize
  have hw := (l.field m).width.toNat_lt
  simp only [fieldsOverlap, hm, hn, Bool.true_and, Bool.and_eq_false_iff, decide_eq_false_iff_not,
    UInt32.lt_iff_toNat_lt, UInt32.toNat_add, UInt8.toNat_toUInt32] at hover
  omega

/-! ### The selection -/

/-- An entry names a definition with this layout. -/
def Offers (vec : DwarfVec) (major : ℤ) (pointerWidth : UInt32) (i : ℕ) (l : DwarfLayout) : Prop :=
  ∃ t, pgbsTarget vec i = some t ∧ layoutFromStruct vec major pointerWidth t = some l

/-- What was seen before has the layout that was accepted, if it has one. -/
def LayoutSelection.Ok (s : LayoutSelection) (vec : DwarfVec) (major : ℤ) (pointerWidth : UInt32) :
    Prop :=
  ∀ t ∈ s.seen, ∀ l, layoutFromStruct vec major pointerWidth t = some l → s.accepted = some l

theorem selectStep_spec {s : LayoutSelection} (hs : s.Ok vec major pointerWidth) :
    match selectStep vec major pointerWidth s i with
    | none => ∃ a l, a ≠ l ∧ s.accepted = some a ∧ Offers vec major pointerWidth i l
    | some s' => s'.Ok vec major pointerWidth ∧ (∀ a, s.accepted = some a → s'.accepted = some a) ∧
      (∀ l, Offers vec major pointerWidth i l → s'.accepted = some l) ∧
      ∀ l, s'.accepted = some l → s.accepted = some l ∨ Offers vec major pointerWidth i l := by
  rw [selectStep]
  rcases htarget : pgbsTarget vec i with _ | t
  · refine ⟨hs, fun a => id, ?_, fun l => Or.inl⟩
    rintro l ⟨t, ht, -⟩
    rw [htarget] at ht
    cases ht
  have hoffers {l : DwarfLayout} : Offers vec major pointerWidth i l ↔
      layoutFromStruct vec major pointerWidth t = some l := by
    simp [Offers, htarget]
  dsimp only
  by_cases hseen : t ∈ s.seen
  · rw [if_pos hseen]
    exact ⟨hs, fun a => id, fun l hl => hs t hseen l (hoffers.1 hl), fun l => Or.inl⟩
  rw [if_neg hseen]
  -- whether there is room for the definition or not, it is the only one that may be new
  generalize hs₁ : (if s.seen.length < 256 then { s with seen := s.seen ++ [t] } else s) = s₁
  have hacc : s₁.accepted = s.accepted := by
    rw [← hs₁]
    split_ifs <;> rfl
  have hok {s' : LayoutSelection} (heq : s'.seen = s₁.seen)
      (hmono : ∀ a, s.accepted = some a → s'.accepted = some a)
      (ht : ∀ l, layoutFromStruct vec major pointerWidth t = some l → s'.accepted = some l) :
      s'.Ok vec major pointerWidth := by
    intro t' ht' l hl
    have hold : t' ∈ s.seen ∨ t' = t := by
      rw [heq, ← hs₁] at ht'
      split_ifs at ht'
      · simpa using ht'
      · exact Or.inl ht'
    rcases hold with hold | rfl
    · exact hmono l (hs t' hold l hl)
    · exact ht l hl
  rcases hlayout : layoutFromStruct vec major pointerWidth t with _ | l
  · dsimp only
    refine ⟨hok rfl (fun a ha => hacc.trans ha) (by simp [hlayout]), fun a ha => hacc.trans ha, ?_,
      fun l hl => Or.inl (hacc.symm.trans hl)⟩
    simp [hoffers, hlayout]
  · rcases ha : s₁.accepted with _ | a
    · dsimp only
      have hnone : s.accepted = none := hacc.symm.trans ha
      refine ⟨hok rfl (by simp [hnone]) (by simp [hlayout]), by simp [hnone], ?_, ?_⟩
      · simp [hoffers, hlayout]
      · simp [hoffers, hlayout]
    · dsimp only
      split_ifs with heq
      · obtain rfl := layoutsEqual_iff.1 heq
        refine ⟨hok rfl (fun b hb => hacc.trans hb) (by simp [hlayout, ha]),
          fun b hb => hacc.trans hb, by simp [hoffers, hlayout, ha],
          fun b hb => Or.inl (hacc.symm.trans hb)⟩
      · exact ⟨a, l, fun h => heq (layoutsEqual_iff.2 h), hacc.symm.trans ha, hoffers.2 hlayout⟩

theorem select_run (is : List ℕ) {s : LayoutSelection} (hs : s.Ok vec major pointerWidth) :
    match is.foldlM (selectStep vec major pointerWidth) s with
    | none => ∃ a l, a ≠ l ∧ (∃ i ∈ is, Offers vec major pointerWidth i l) ∧
      (s.accepted = some a ∨ ∃ i ∈ is, Offers vec major pointerWidth i a)
    | some s' => (∀ a, s.accepted = some a → s'.accepted = some a) ∧
      (∀ i ∈ is, ∀ l, Offers vec major pointerWidth i l → s'.accepted = some l) ∧
      ∀ l, s'.accepted = some l → s.accepted = some l ∨
        ∃ i ∈ is, Offers vec major pointerWidth i l := by
  induction is generalizing s with
  | nil => exact ⟨fun a => id, by simp, fun l => Or.inl⟩
  | cons i is ih =>
    have hstep := selectStep_spec (i := i) hs
    rw [List.foldlM_cons]
    generalize selectStep vec major pointerWidth s i = r at hstep ⊢
    rcases r with _ | s₁
    · obtain ⟨a, l, hne, ha, hl⟩ := hstep
      exact ⟨a, l, hne, ⟨i, List.mem_cons_self, hl⟩, Or.inl ha⟩
    obtain ⟨hok, hkeep, hoffer, hfrom⟩ := hstep
    have hrun := ih hok
    rw [Option.bind_eq_bind, Option.bind_some]
    generalize is.foldlM (selectStep vec major pointerWidth) s₁ = r at hrun ⊢
    rcases r with _ | s'
    · obtain ⟨a, l, hne, ⟨j, hj, hl⟩, ha⟩ := hrun
      refine ⟨a, l, hne, ⟨j, List.mem_cons_of_mem i hj, hl⟩, ?_⟩
      rcases ha with ha | ⟨j, hj, ha⟩
      · exact (hfrom a ha).imp_right fun h => ⟨i, List.mem_cons_self, h⟩
      · exact Or.inr ⟨j, List.mem_cons_of_mem i hj, ha⟩
    · obtain ⟨hkeep', hoffer', hfrom'⟩ := hrun
      refine ⟨fun a ha => hkeep' a (hkeep a ha), ?_, fun l hl => ?_⟩
      · rw [List.forall_mem_cons]
        exact ⟨fun l hl => hkeep' l (hoffer l hl), hoffer'⟩
      · rcases hfrom' l hl with hl | ⟨j, hj, hl⟩
        · exact (hfrom l hl).imp_right fun h => ⟨i, List.mem_cons_self, h⟩
        · exact Or.inr ⟨j, List.mem_cons_of_mem i hj, hl⟩

/-- What is accepted when the entries are visited in this order, `none` if layouts disagree. -/
def selected (vec : DwarfVec) (major : ℤ) (pointerWidth : UInt32) (is : List ℕ) :
    Option (Option DwarfLayout) :=
  (is.foldlM (selectStep vec major pointerWidth) {}).map (·.accepted)

theorem selected_spec (vec : DwarfVec) (major : ℤ) (pointerWidth : UInt32) (is : List ℕ) :
    match selected vec major pointerWidth is with
    | none => ∃ a l, a ≠ l ∧ (∃ i ∈ is, Offers vec major pointerWidth i l) ∧
      ∃ i ∈ is, Offers vec major pointerWidth i a
    | some accepted => ∀ l, accepted = some l ↔ ∃ i ∈ is, Offers vec major pointerWidth i l := by
  have hok : LayoutSelection.Ok {} vec major pointerWidth := by simp [LayoutSelection.Ok]
  have hrun := select_run is hok
  rw [selected]
  generalize is.foldlM (selectStep vec major pointerWidth) {} = r at hrun ⊢
  rcases r with _ | s
  · simpa using hrun
  · obtain ⟨-, hoffer, hfrom⟩ := hrun
    refine fun l => ⟨fun hl => ?_, ?_⟩
    · simpa using hfrom l hl
    · rintro ⟨i, hi, hl⟩
      exact hoffer i hi l hl

theorem selected_congr {vec' : DwarfVec} {is is' : List ℕ}
    (h : ∀ l, (∃ i ∈ is, Offers vec major pointerWidth i l) ↔
      ∃ i ∈ is', Offers vec' major pointerWidth i l) :
    selected vec major pointerWidth is = selected vec' major pointerWidth is' := by
  have hs := selected_spec vec major pointerWidth is
  have hs' := selected_spec vec' major pointerWidth is'
  generalize selected vec major pointerWidth is = r at hs ⊢
  generalize selected vec' major pointerWidth is' = r' at hs' ⊢
  rcases r with _ | a <;> rcases r' with _ | a'
  · rfl
  · obtain ⟨b, c, hne, hc, hb⟩ := hs
    rw [h, ← hs'] at hb hc
    exact absurd (Option.some.inj (hb.symm.trans hc)) hne
  · obtain ⟨b, c, hne, hc, hb⟩ := hs'
    rw [← h, ← hs] at hb hc
    exact absurd (Option.some.inj (hb.symm.trans hc)) hne
  · exact congrArg some (Option.ext fun l => (hs l).trans ((h l).trans (hs' l).symm))

/-- A complete and sane definition, with its layout. -/
def Passes (vec : DwarfVec) (major : ℤ) (pointerWidth : UInt32) (l : DwarfLayout) : Prop :=
  ∃ t, IsDefinition vec t ∧ layoutFromStruct vec major pointerWidth t = some l

theorem passes_iff :
    Passes vec major pointerWidth l ↔
      ∃ i ∈ List.range vec.dies.length, Offers vec major pointerWidth i l := by
  simp only [Passes, Offers, isDefinition_iff]
  constructor
  · rintro ⟨t, ⟨i, hi, ht⟩, hl⟩
    exact ⟨i, hi, t, ht, hl⟩
  · rintro ⟨i, hi, t, ht, hl⟩
    exact ⟨t, ⟨i, hi, ht⟩, hl⟩

theorem parseDwarf_eq_ok :
    parseDwarf vec major pointerWidth = .ok l ↔
      selected vec major pointerWidth (List.range vec.dies.length) = some (some l) := by
  rw [parseDwarf, selected]
  generalize List.foldlM (selectStep vec major pointerWidth) {} _ = r
  rcases r with _ | s
  · simp
  · rcases hs : s.accepted with _ | a <;> simp [hs]

/-- **A layout is accepted if it is the only one that passes.** Then its fields are separate. Only
the layouts that pass matter, not the order in which they are visited. -/
theorem parseDwarf_spec (vec : DwarfVec) (major : ℤ) (pointerWidth : UInt32) :
    (∀ l, parseDwarf vec major pointerWidth = .ok l ↔
      Passes vec major pointerWidth l ∧ ∀ l', Passes vec major pointerWidth l' → l' = l) ∧
    (∀ l, parseDwarf vec major pointerWidth = .ok l → l.Separate) ∧
    (∀ vec', (∀ l, Passes vec major pointerWidth l ↔ Passes vec' major pointerWidth l) →
      ∀ l, parseDwarf vec major pointerWidth = .ok l ↔ parseDwarf vec' major pointerWidth = .ok l) ∧
    ∀ is, is.Perm (List.range vec.dies.length) → selected vec major pointerWidth is =
      selected vec major pointerWidth (List.range vec.dies.length) := by
  have hok (l : DwarfLayout) : parseDwarf vec major pointerWidth = .ok l ↔
      Passes vec major pointerWidth l ∧ ∀ l', Passes vec major pointerWidth l' → l' = l := by
    have hspec := selected_spec vec major pointerWidth (List.range vec.dies.length)
    rw [parseDwarf_eq_ok]
    generalize selected vec major pointerWidth _ = r at hspec ⊢
    simp only [← passes_iff] at hspec
    rcases r with _ | accepted
    · obtain ⟨a, b, hne, hb, ha⟩ := hspec
      refine ⟨(nomatch ·), fun h => absurd ?_ hne⟩
      rw [h.2 a ha, h.2 b hb]
    · rw [Option.some.injEq]
      refine ⟨fun h => ⟨(hspec l).1 h, fun l' hl' => ?_⟩, fun h => (hspec l).2 h.1⟩
      exact Option.some.inj (((hspec l').2 hl').symm.trans h)
  refine ⟨hok, fun l hl => ?_, fun vec' h l => ?_, fun is his => ?_⟩
  · obtain ⟨⟨t, -, ht⟩, -⟩ := (hok l).1 hl
    exact separate_of_layoutFromStruct ht
  · rw [parseDwarf_eq_ok, parseDwarf_eq_ok, selected_congr fun l => ?_]
    rw [← passes_iff, ← passes_iff, h]
  · exact selected_congr fun l => by simp only [his.mem_iff]

end PgWaitTracer
