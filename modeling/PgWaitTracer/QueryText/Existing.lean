import PgWaitTracer.QueryText.Seen
import PgWaitTracer.Trace.ArchiveName

/-!
# Reading the query texts of an earlier run

At its start the daemon reads the lines of the file for their contexts and sources. It does not
parse them, but searches them for the fields. If the file is large it is compacted: a line is kept
if its context is new, its source is higher than what was seen before, or the tables have no room
for it.

## Main results

* `mem_keepLines`: the lines that are kept.
* `getlines_flatten`: lines of a file that are written to another one are its lines.
-/

namespace PgWaitTracer

/-! ### Numbers and fields -/

/-- A text up to its NUL. -/
def cString (cs : List Char) : List Char := cs.takeWhile fun c => c.toNat ≠ 0

/-- What `strtoll`, `strtoul` and `%lld` read: a sign behind blanks, and digits. -/
def cInteger (cs : List Char) : Option (Bool × ℕ) :=
  let cs := cs.dropWhile isSpaceChar
  let neg : Bool := cs.head? = some '-'
  let sign := if neg ∨ cs.head? = some '+' then 1 else 0
  let digits := (cs.drop sign).takeWhile Char.isDigit
  if digits = [] then none else some (neg, Nat.ofDigitChars 10 digits 0)

/-- `strtoll`, at the nearest bound if the number is too large. -/
def strtoll (cs : List Char) : Option ℤ :=
  (cInteger cs).map fun r =>
    if r.1 then max (-2 ^ 63) (-(r.2 : ℤ)) else min (2 ^ 63 - 1) (r.2 : ℤ)

/-- A signed number as a query id. -/
def queryIdOf (x : ℤ) : UInt64 := (Int64.ofInt x).toUInt64

/-- `parse_uint_field`: a field that is missing is 0, and a number with a minus sign wraps. -/
def parseUintField (line field : List Char) : Option UInt32 :=
  match strstr line field with
  | none => some 0
  | some rest =>
    (cInteger (rest.drop field.length)).bind fun r =>
      if 2 ^ 64 ≤ r.2 then none
      else
        let value := if r.1 then (2 ^ 64 - r.2) % 2 ^ 64 else r.2
        if value < 2 ^ 32 then some (UInt32.ofNat value) else none

/-- `source_from_name`. -/
def sourceFromName (name : List Char) : Option QuerySource :=
  if name = [] then some .full
  else if name = "pgss".toList then some .pgss
  else if name = "synthetic".toList then some .synthetic
  else if name = "full".toList then some .full
  else none

/-- The source of a line; a line without one has a complete text. -/
def parseSource (line : List Char) : Option QuerySource :=
  let field := "\"s\":\"".toList
  match strstr line field with
  | none => sourceFromName []
  | some rest =>
    let name := (rest.drop field.length).takeWhile (· ≠ '"')
    if 16 ≤ name.length then none else sourceFromName name

/-- `parse_line_key`. -/
def parseLineKey (line : List Char) : Option (QueryTextKey × QuerySource) :=
  let line := cString line
  let start := "\x7b\"q\":\"".toList
  if start.isPrefixOf line then
    (strtoll (line.drop start.length)).bind fun q =>
      if queryIdOf q = 0 then none
      else
        (parseUintField line "\"d\":".toList).bind fun databaseid =>
          (parseUintField line "\"u\":".toList).bind fun userid =>
            (parseSource line).map fun source =>
              ({ databaseid, userid, queryId := queryIdOf q }, source)
  else none

/-! ### Lines -/

/-- The byte that ends a line. -/
def lineEnd : Char := Char.ofNat 10

/-- What `getline` returns one after the other: lines with their ends, the last one perhaps
without. -/
def getlines : List Char → List (List Char)
  | [] => []
  | c :: cs =>
    if c = lineEnd then [c] :: getlines cs
    else
      match getlines cs with
      | [] => [[c]]
      | l :: ls => (c :: l) :: ls

/-- The loop of `load_existing`: the lines that go into the compacted file. -/
def keepLines : SeenTables → List (List Char) → List (List Char)
  | _, [] => []
  | t, l :: ls =>
    match parseLineKey l with
    | none => keepLines t ls
    | some (key, source) =>
      let r := t.checkOrInsert key source
      if r.1 = .known then keepLines r.2 ls else l :: keepLines r.2 ls

/-- `load_existing`: what is in the file afterwards, if all writes succeed. -/
def loadExisting (threshold : ℕ) (content : List Char) : List Char :=
  if threshold < content.length then (keepLines {} (getlines content)).flatten else content

/-- The tables after the lines. -/
def tablesAfter (t : SeenTables) (ls : List (List Char)) : SeenTables :=
  ls.foldl (fun t l => (parseLineKey l).elim t fun r => (t.checkOrInsert r.1 r.2).2) t

/-- The daemon reads the line, and has not recorded its context at the source or a higher one from
the lines before it. -/
def KeptAt (t : SeenTables) (before : List (List Char)) (l : List Char) : Prop :=
  ∃ key source, parseLineKey l = some (key, source) ∧ ¬(tablesAfter t before).Covers key source

/-! ### The lines that are kept -/

theorem tablesAfter_cons (t : SeenTables) (l : List Char) (ls : List (List Char)) :
    tablesAfter t (l :: ls) =
      tablesAfter ((parseLineKey l).elim t fun r => (t.checkOrInsert r.1 r.2).2) ls := rfl

variable {ls : List (List Char)} {t : SeenTables}

/-- One line. -/
theorem keepLines_cons (h : t.Ok) (l : List Char) (ls : List (List Char)) :
    (tablesAfter t [l]).Ok ∧
      ((KeptAt t [] l ∧ keepLines t (l :: ls) = l :: keepLines (tablesAfter t [l]) ls) ∨
        (¬KeptAt t [] l ∧ keepLines t (l :: ls) = keepLines (tablesAfter t [l]) ls)) := by
  have htables : tablesAfter t [l] =
      (parseLineKey l).elim t fun r => (t.checkOrInsert r.1 r.2).2 := rfl
  rw [htables, keepLines, KeptAt]
  cases hread : parseLineKey l with
  | none =>
    refine ⟨h, Or.inr ⟨?_, rfl⟩⟩
    rintro ⟨key, source, hsome, -⟩
    exact nomatch hsome
  | some r =>
    obtain ⟨key, source⟩ := r
    have hkept : (∃ k s, some (key, source) = some (k, s) ∧ ¬(tablesAfter t []).Covers k s) ↔
        ¬t.Covers key source := by
      constructor
      · rintro ⟨k, s, hks, hnot⟩
        obtain ⟨rfl, rfl⟩ := Prod.mk.inj (Option.some.inj hks)
        exact hnot
      · intro hnot
        exact ⟨key, source, rfl, hnot⟩
    rw [hkept]
    dsimp only [Option.elim_some]
    rcases SeenTables.covers_checkOrInsert h key source with
      ⟨hcovers, heq⟩ | ⟨hnew, heq⟩ | ⟨hnew, t', heq, hok, -⟩
    · rw [heq, if_pos rfl]
      exact ⟨h, Or.inr ⟨not_not.mpr hcovers, rfl⟩⟩
    · rw [heq, if_neg fun hknown => nomatch hknown]
      exact ⟨h, Or.inl ⟨hnew, rfl⟩⟩
    · rw [heq, if_neg fun hknown => nomatch hknown]
      exact ⟨hok, Or.inl ⟨hnew, rfl⟩⟩

theorem keepLines_append (h : t.Ok) (ls ls' : List (List Char)) :
    keepLines t (ls ++ ls') = keepLines t ls ++ keepLines (tablesAfter t ls) ls' := by
  induction ls generalizing t with
  | nil => rfl
  | cons l ls ih =>
    have hsplit := (keepLines_cons h l (ls ++ ls')).2
    have hself := (keepLines_cons h l ls).2
    have hok := (keepLines_cons h l ls).1
    rw [List.cons_append, tablesAfter_cons]
    rcases hsplit with ⟨hkept, heq⟩ | ⟨hnot, heq⟩
    · rcases hself with ⟨-, heq'⟩ | ⟨hnot, -⟩
      · rw [heq, heq', ih hok]
        rfl
      · exact absurd hkept hnot
    · rcases hself with ⟨hkept, -⟩ | ⟨-, heq'⟩
      · exact absurd hkept hnot
      · rw [heq, heq', ih hok]
        rfl

theorem ok_tablesAfter (h : t.Ok) (ls : List (List Char)) : (tablesAfter t ls).Ok := by
  induction ls generalizing t with
  | nil => exact h
  | cons l ls ih => exact ih (keepLines_cons h l ls).1

/-- **The lines that are kept.** -/
theorem mem_keepLines (h : t.Ok) {l : List Char} :
    l ∈ keepLines t ls ↔ ∃ before after, ls = before ++ l :: after ∧ KeptAt t before l := by
  induction ls generalizing t with
  | nil =>
    refine iff_of_false List.not_mem_nil ?_
    rintro ⟨before, after, hnil, -⟩
    exact List.cons_ne_nil l after (List.append_eq_nil_iff.mp hnil.symm).2
  | cons m ls ih =>
    obtain ⟨hok, hcases⟩ := keepLines_cons h m ls
    have hrest : (∃ before after, m :: ls = before ++ l :: after ∧ KeptAt t before l) ↔
        (m = l ∧ KeptAt t [] m) ∨ l ∈ keepLines (tablesAfter t [m]) ls := by
      rw [ih hok]
      constructor
      · rintro ⟨before, after, hsplit, hkept⟩
        cases before with
        | nil =>
          obtain ⟨rfl, rfl⟩ := List.cons.inj hsplit
          exact Or.inl ⟨rfl, hkept⟩
        | cons m' before =>
          obtain ⟨rfl, rfl⟩ := List.cons.inj hsplit
          exact Or.inr ⟨before, after, rfl, hkept⟩
      · rintro (⟨rfl, hkept⟩ | ⟨before, after, rfl, hkept⟩)
        · exact ⟨[], ls, rfl, hkept⟩
        · exact ⟨m :: before, after, rfl, hkept⟩
    rw [hrest]
    rcases hcases with ⟨hkept, heq⟩ | ⟨hnot, heq⟩
    · rw [heq, List.mem_cons, and_iff_left hkept]
      exact or_congr eq_comm Iff.rfl
    · rw [heq, or_iff_right fun hm => hnot hm.2]

theorem keepLines_sublist (h : t.Ok) (ls : List (List Char)) : (keepLines t ls).Sublist ls := by
  induction ls generalizing t with
  | nil => exact List.Sublist.refl _
  | cons l ls ih =>
    obtain ⟨hok, ⟨-, heq⟩ | ⟨-, heq⟩⟩ := keepLines_cons h l ls
    · rw [heq]
      exact (ih hok).cons_cons l
    · rw [heq]
      exact (ih hok).cons l

/-! ### Lines of lines -/

/-- A line with its end. -/
def Ended (l : List Char) : Prop := ∃ w, l = w ++ [lineEnd] ∧ lineEnd ∉ w

/-- Lines of a file: only the last one may be without its end. -/
structure FileLines (ls : List (List Char)) : Prop where
  ended : ls.Pairwise fun l _ => Ended l
  line : ∀ l ∈ ls, Ended l ∨ (l ≠ [] ∧ lineEnd ∉ l)

theorem FileLines.sublist {ls' : List (List Char)} (h : FileLines ls) (hsub : ls'.Sublist ls) :
    FileLines ls' :=
  ⟨h.ended.sublist hsub, fun l hl => h.line l (hsub.subset hl)⟩

theorem fileLines_getlines (content : List Char) : FileLines (getlines content) := by
  induction content with
  | nil => exact ⟨List.Pairwise.nil, List.forall_mem_nil _⟩
  | cons c cs ih =>
    rw [getlines]
    split_ifs with hc
    · subst hc
      have hended : Ended [lineEnd] := ⟨[], rfl, List.not_mem_nil⟩
      exact ⟨List.pairwise_cons.mpr ⟨fun _ _ => hended, ih.ended⟩,
        List.forall_mem_cons.mpr ⟨Or.inl hended, ih.line⟩⟩
    · cases hls : getlines cs with
      | nil =>
        refine ⟨List.pairwise_singleton _ _, List.forall_mem_singleton.mpr (Or.inr ⟨?_, ?_⟩)⟩
        · exact List.cons_ne_nil c []
        · simpa using Ne.symm hc
      | cons l ls =>
        rw [hls] at ih
        obtain ⟨hended, hrest⟩ := List.pairwise_cons.mp ih.ended
        obtain ⟨hl, hline⟩ := List.forall_mem_cons.mp ih.line
        have hcons : ∀ {w : List Char}, lineEnd ∉ w → lineEnd ∉ c :: w := fun hw =>
          List.not_mem_cons_of_ne_of_not_mem (Ne.symm hc) hw
        have hgrow : Ended l → Ended (c :: l) := by
          rintro ⟨w, rfl, hw⟩
          exact ⟨c :: w, rfl, hcons hw⟩
        refine ⟨List.pairwise_cons.mpr ⟨fun l' hl' => hgrow (hended l' hl'), hrest⟩,
          List.forall_mem_cons.mpr ⟨hl.imp hgrow ?_, hline⟩⟩
        rintro ⟨-, hw⟩
        exact ⟨List.cons_ne_nil c l, hcons hw⟩

theorem getlines_ended {w : List Char} (hw : lineEnd ∉ w) (cs : List Char) :
    getlines (w ++ lineEnd :: cs) = (w ++ [lineEnd]) :: getlines cs := by
  induction w with
  | nil => rw [List.nil_append, getlines, if_pos rfl, List.nil_append]
  | cons c w ih =>
    rw [List.mem_cons, not_or] at hw
    rw [List.cons_append, getlines, if_neg (Ne.symm hw.1), ih hw.2]
    rfl

theorem getlines_rest {w : List Char} (hne : w ≠ []) (hw : lineEnd ∉ w) : getlines w = [w] := by
  induction w with
  | nil => exact absurd rfl hne
  | cons c w ih =>
    rw [List.mem_cons, not_or] at hw
    rw [getlines, if_neg (Ne.symm hw.1)]
    cases w with
    | nil => rfl
    | cons d w => rw [ih (List.cons_ne_nil d w) hw.2]

/-- **Lines that are written to a file are its lines.** -/
theorem getlines_flatten (h : FileLines ls) : getlines ls.flatten = ls := by
  induction ls with
  | nil => rfl
  | cons l ls ih =>
    have hrest := ih (h.sublist (List.sublist_cons_self l ls))
    rw [List.flatten_cons]
    rcases h.line l List.mem_cons_self with ⟨w, rfl, hw⟩ | ⟨hne, hw⟩
    · rw [List.append_assoc, List.singleton_append, getlines_ended hw, hrest]
    · cases ls with
      | nil => rw [List.flatten_nil, List.append_nil, getlines_rest hne hw]
      | cons l' ls =>
        obtain ⟨w, rfl, -⟩ := (List.pairwise_cons.mp h.ended).1 l' List.mem_cons_self
        exact absurd (List.mem_append_right w (List.mem_singleton.mpr rfl)) hw

end PgWaitTracer
