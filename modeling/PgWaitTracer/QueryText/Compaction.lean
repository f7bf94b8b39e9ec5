import PgWaitTracer.QueryText.ServerMap

/-!
# What the compaction of the query texts deletes

The daemon decides by its own reading of a line which lines are left out of the compacted file, and
the server shows what it reads itself. What the server shows is the same before and after exactly if
for every text shown a line with it is kept, and none with another text before it. The two readings
differ: the daemon does not read the old format with numbers, nor members in another order, and it
reads lines that are not complete.

## Main results

* `loadExisting_sameTexts_iff`: when the compaction does not change what is shown.
-/

namespace PgWaitTracer

/-- The server shows the entry from these lines: no line for the same context has a higher source,
and the first one with this source has this text. -/
structure ShownFrom (entries : List MapEntry) (b : MapEntry) : Prop where
  highest : ∀ e ∈ entries, e.key = b.key → e.source.priority ≤ b.source.priority
  first : entries.find? (fun e => e.key = b.key ∧ e.source = b.source) = some b

/-- Of every entry that the server shows from the file, the daemon keeps a line: it reads the line
and has not recorded its context at the source or a higher one before; and no line that it keeps
before this one shows another text of the same context and source. -/
def Preserved (parse : List Char → Option Json) (content : List Char) : Prop :=
  ∀ b, ShownFrom ((getlines content).filterMap (serverLine parse)) b →
    ∃ before l after, getlines content = before ++ l :: after ∧ serverLine parse l = some b ∧
      KeptAt {} before l ∧
      ∀ pre m post e, before = pre ++ m :: post → KeptAt {} pre m → serverLine parse m = some e →
        e.key = b.key → e.source = b.source → e = b

/-- The server shows the same from the two files, whatever is in the file of sources, if its hash
map is large enough for both. -/
def SameTexts (parse : List Char → Option Json) (content content' : List Char) : Prop :=
  ∀ sources capacity capacity', (mapEntries parse content sources).length ≤ capacity →
    (mapEntries parse content' sources).length ≤ capacity' →
      ∀ key, qtMapLookup (loadQueryTexts capacity' parse content' sources) key =
        qtMapLookup (loadQueryTexts capacity parse content sources) key

/-! ### The entry that wins -/

theorem priority_injective : Function.Injective QuerySource.priority := by
  intro s s'
  cases s <;> cases s' <;> simp [QuerySource.priority]

theorem bestEntry_append (key : QueryTextKey) (entries entries' : List MapEntry) :
    bestEntry key (entries ++ entries') = (entries'.filter fun e => e.key = key).foldl
      (fun best e => some (best.elim e fun old => old.merge e)) (bestEntry key entries) := by
  rw [bestEntry, List.filter_append, List.foldl_append]
  rfl

variable {entries : List MapEntry} {b : MapEntry} {key : QueryTextKey}

theorem key_bestEntry (h : bestEntry key entries = some b) : b.key = key := by
  induction entries using List.reverseRecOn generalizing b with
  | nil => exact nomatch h
  | append_singleton entries e ih =>
    rw [bestEntry_append_singleton] at h
    split_ifs at h with hkey
    · cases hbest : bestEntry key entries with
      | none =>
        rw [hbest] at h
        rwa [← Option.some.inj h]
      | some old =>
        rw [hbest] at h
        rw [← Option.some.inj h, Option.elim_some, MapEntry.key_merge]
        exact ih hbest
    · exact ih h

theorem bestEntry_eq_none_iff : bestEntry key entries = none ↔ ∀ e ∈ entries, e.key ≠ key := by
  induction entries using List.reverseRecOn with
  | nil => exact iff_of_true rfl (List.forall_mem_nil _)
  | append_singleton entries e ih =>
    rw [bestEntry_append_singleton, List.forall_mem_append, List.forall_mem_singleton]
    split_ifs with hkey
    · exact iff_of_false (by simp) fun h => h.2 hkey
    · rw [ih, and_iff_left hkey]

theorem merge_of_text {old new : MapEntry} (htext : old.text ≠ none) (hkey : new.key = old.key) :
    old.merge new = if old.source.priority < new.source.priority then new else old := by
  rw [MapEntry.merge]
  split_ifs with hlt hfill
  · rw [← hkey]
  · exact absurd hfill.2.1 htext
  · rfl

/-- **The entry that wins among texts** is the first of the highest source. -/
theorem shownFrom_of_bestEntry (htexts : ∀ e ∈ entries, e.text ≠ none)
    (h : bestEntry key entries = some b) : ShownFrom entries b := by
  induction entries using List.reverseRecOn generalizing b with
  | nil => exact nomatch h
  | append_singleton entries e ih =>
    have hbkey := key_bestEntry h
    rw [List.forall_mem_append, List.forall_mem_singleton] at htexts
    rw [bestEntry_append_singleton] at h
    split_ifs at h with hkey
    · cases hbest : bestEntry key entries with
      | none =>
        rw [hbest] at h
        obtain rfl : e = b := Option.some.inj h
        have hnone := bestEntry_eq_none_iff.mp hbest
        refine ⟨?_, ?_⟩
        · rw [List.forall_mem_append, List.forall_mem_singleton]
          exact ⟨fun e' he' hk => absurd (hk.trans hkey) (hnone e' he'), fun _ => Nat.le_refl _⟩
        · rw [List.find?_append, List.find?_eq_none.mpr, Option.none_or]
          · simp
          · intro e' he'
            simp [hkey, hnone e' he']
      | some old =>
        rw [hbest] at h
        have hold := ih htexts.1 hbest
        have hokey := key_bestEntry hbest
        have hmem : old ∈ entries := List.mem_of_find?_eq_some hold.first
        rw [Option.elim_some, Option.some.injEq,
          merge_of_text (htexts.1 old hmem) (hkey.trans hokey.symm)] at h
        split_ifs at h with hlt
        · subst h
          refine ⟨?_, ?_⟩
          · rw [List.forall_mem_append, List.forall_mem_singleton]
            refine ⟨fun e' he' hk => ?_, fun _ => Nat.le_refl _⟩
            exact Nat.le_trans (hold.highest e' he' (hk.trans (hkey.trans hokey.symm)))
              (Nat.le_of_lt hlt)
          · rw [List.find?_append, List.find?_eq_none.mpr, Option.none_or]
            · simp
            · intro e' he' hc
              obtain ⟨hk, hs⟩ := of_decide_eq_true hc
              have hle := hold.highest e' he' (hk.trans (hkey.trans hokey.symm))
              rw [hs] at hle
              exact Nat.not_le_of_lt hlt hle
        · subst h
          refine ⟨?_, ?_⟩
          · rw [List.forall_mem_append, List.forall_mem_singleton]
            exact ⟨hold.highest, fun _ => Nat.le_of_not_lt hlt⟩
          · rw [List.find?_append, hold.first, Option.some_or]
    · have hold := ih htexts.1 h
      refine ⟨?_, ?_⟩
      · rw [List.forall_mem_append, List.forall_mem_singleton]
        exact ⟨hold.highest, fun hk => absurd (hk.trans hbkey) hkey⟩
      · rw [List.find?_append, hold.first, Option.some_or]

theorem ShownFrom.unique {b' : MapEntry} (h : ShownFrom entries b) (h' : ShownFrom entries b')
    (hkey : b.key = b'.key) : b = b' := by
  have hmem := List.mem_of_find?_eq_some h.first
  have hmem' := List.mem_of_find?_eq_some h'.first
  have hsource : b.source = b'.source := priority_injective (Nat.le_antisymm
    (h'.highest b hmem hkey) (h.highest b' hmem' hkey.symm))
  have hfirst := h.first
  rw [hkey, hsource, h'.first] at hfirst
  exact (Option.some.inj hfirst).symm

theorem bestEntry_eq_some_iff (htexts : ∀ e ∈ entries, e.text ≠ none) :
    bestEntry key entries = some b ↔ b.key = key ∧ ShownFrom entries b := by
  constructor
  · intro h
    exact ⟨key_bestEntry h, shownFrom_of_bestEntry htexts h⟩
  · rintro ⟨rfl, h⟩
    cases hbest : bestEntry b.key entries with
    | none =>
      exact absurd rfl (bestEntry_eq_none_iff.mp hbest b (List.mem_of_find?_eq_some h.first))
    | some b' =>
      rw [(shownFrom_of_bestEntry htexts hbest).unique h (key_bestEntry hbest)]

/-! ### What is kept -/

theorem keepLines_of_keptAt {t : SeenTables} (h : t.Ok) {before after : List (List Char)}
    {l : List Char} (hkept : KeptAt t before l) :
    keepLines t (before ++ l :: after) =
      keepLines t before ++ l :: keepLines (tablesAfter t (before ++ [l])) after := by
  rw [keepLines_append h]
  obtain ⟨-, ⟨-, heq⟩ | ⟨hnot, -⟩⟩ := keepLines_cons (ok_tablesAfter h before) l after
  · have htables : tablesAfter (tablesAfter t before) [l] = tablesAfter t (before ++ [l]) :=
      List.foldl_append.symm
    rw [heq, htables]
  · exact absurd hkept hnot

theorem exists_of_keepLines_eq {t : SeenTables} (h : t.Ok) {ls kept kept' : List (List Char)}
    {l : List Char} (hsplit : keepLines t ls = kept ++ l :: kept') :
    ∃ before after, ls = before ++ l :: after ∧ keepLines t before = kept ∧ KeptAt t before l := by
  induction ls generalizing t kept with
  | nil => exact absurd hsplit (by simp [keepLines])
  | cons m ls ih =>
    obtain ⟨hok, ⟨hkept, heq⟩ | ⟨hnot, heq⟩⟩ := keepLines_cons h m ls
    · rw [heq] at hsplit
      cases kept with
      | nil =>
        obtain ⟨rfl, -⟩ := List.cons.inj hsplit
        exact ⟨[], ls, rfl, rfl, hkept⟩
      | cons k kept =>
        obtain ⟨rfl, htail⟩ := List.cons.inj hsplit
        obtain ⟨before, after, rfl, rfl, hl⟩ := ih hok htail
        refine ⟨m :: before, after, rfl, ?_, hl⟩
        obtain ⟨-, ⟨-, heq'⟩ | ⟨hnot, -⟩⟩ := keepLines_cons h m before
        · exact heq'
        · exact absurd hkept hnot
    · rw [heq] at hsplit
      obtain ⟨before, after, rfl, rfl, hl⟩ := ih hok hsplit
      refine ⟨m :: before, after, rfl, ?_, hl⟩
      obtain ⟨-, ⟨hkept, -⟩ | ⟨-, heq'⟩⟩ := keepLines_cons h m before
      · exact absurd hkept hnot
      · exact heq'

theorem bestEntry_ext {entries' : List MapEntry}
    (h : (bestEntry key entries).map (fun e => (e.source, e.text)) =
      (bestEntry key entries').map fun e => (e.source, e.text)) :
    bestEntry key entries = bestEntry key entries' := by
  cases hbest : bestEntry key entries with
  | none =>
    rw [hbest, Option.map_none, eq_comm, Option.map_eq_none_iff] at h
    exact h.symm
  | some b =>
    rw [hbest, Option.map_some, eq_comm, Option.map_eq_some_iff] at h
    obtain ⟨b', hbest', hpair⟩ := h
    obtain ⟨hsource, htext⟩ := Prod.mk.inj hpair
    have hkey := (key_bestEntry hbest).trans (key_bestEntry hbest').symm
    obtain ⟨k, source, text⟩ := b
    obtain ⟨k', source', text'⟩ := b'
    dsimp only at hkey hsource htext
    subst hkey hsource htext
    exact hbest'.symm

section Files

variable (parse : List Char → Option Json)

theorem text_ne_none (ls : List (List Char)) :
    ∀ e ∈ ls.filterMap (serverLine parse), e.text ≠ none := by
  intro e he
  obtain ⟨line, -, hline⟩ := List.mem_filterMap.mp he
  exact (queryId_serverLine hline).2

/-- **Every entry shown is kept** exactly if the lines that are kept show the same. -/
theorem preserved_iff (content : List Char) :
    Preserved parse content ↔ ∀ key,
      bestEntry key ((keepLines {} (getlines content)).filterMap (serverLine parse)) =
        bestEntry key ((getlines content).filterMap (serverLine parse)) := by
  have hok := SeenTables.ok_empty
  constructor
  · intro h key
    cases hbest : bestEntry key ((getlines content).filterMap (serverLine parse)) with
    | none =>
      rw [bestEntry_eq_none_iff] at hbest ⊢
      intro e he
      exact hbest e (((keepLines_sublist hok _).filterMap _).subset he)
    | some b =>
      obtain ⟨hkey, hshown⟩ := (bestEntry_eq_some_iff (text_ne_none parse _)).mp hbest
      obtain ⟨before, l, after, hlines, hl, hkept, hbefore⟩ := h b hshown
      refine (bestEntry_eq_some_iff (text_ne_none parse _)).mpr ⟨hkey, ?_, ?_⟩
      · intro e he
        exact hshown.highest e (((keepLines_sublist hok _).filterMap _).subset he)
      · rw [hlines, keepLines_of_keptAt hok hkept, List.filterMap_append, List.find?_append]
        cases hfind : ((keepLines {} before).filterMap (serverLine parse)).find?
            (fun e => e.key = b.key ∧ e.source = b.source) with
        | none =>
          rw [Option.none_or, List.filterMap_cons_some hl, List.find?_cons_of_pos (by simp)]
        | some e =>
          obtain ⟨m, hm, he⟩ := List.mem_filterMap.mp (List.mem_of_find?_eq_some hfind)
          obtain ⟨pre, post, hpre, hmkept⟩ := (mem_keepLines hok).mp hm
          have hmatch := List.find?_some hfind
          obtain ⟨hek, hes⟩ : e.key = b.key ∧ e.source = b.source := by simpa using hmatch
          rw [Option.some_or, hbefore pre m post e hpre hmkept he hek hes]
  · intro h b hshown
    have hbest := (bestEntry_eq_some_iff (text_ne_none parse _)).mpr ⟨rfl, hshown⟩
    rw [← h b.key] at hbest
    obtain ⟨-, hshown'⟩ := (bestEntry_eq_some_iff (text_ne_none parse _)).mp hbest
    obtain ⟨-, entries, entries', hentries, hfirst⟩ :=
      List.find?_eq_some_iff_append.mp hshown'.first
    obtain ⟨kept, rest, hkept, hkeptEntries, hrest⟩ := List.filterMap_eq_append_iff.mp hentries
    obtain ⟨skipped, l, rest', rfl, hskipped, hl, -⟩ := List.filterMap_eq_cons_iff.mp hrest
    rw [← List.append_assoc] at hkept
    obtain ⟨before, after, hlines, hbefore, hlkept⟩ := exists_of_keepLines_eq hok hkept
    refine ⟨before, l, after, hlines, hl, hlkept, fun pre m post e hpre hmkept he hek hes => ?_⟩
    have hm : m ∈ kept ++ skipped := by
      rw [← hbefore]
      exact (mem_keepLines hok).mpr ⟨pre, post, hpre, hmkept⟩
    rcases List.mem_append.mp hm with hm | hm
    · have hmem : e ∈ entries := by
        rw [← hkeptEntries]
        exact List.mem_filterMap.mpr ⟨m, hm, he⟩
      exact absurd (hfirst e hmem) (by simp [hek, hes])
    · rw [hskipped m hm] at he
      exact nomatch he

theorem sameTexts_iff (content content' : List Char) :
    SameTexts parse content content' ↔ ∀ key,
      bestEntry key ((getlines content').filterMap (serverLine parse)) =
        bestEntry key ((getlines content).filterMap (serverLine parse)) := by
  constructor
  · intro h key
    have hentries : ∀ texts, mapEntries parse texts [] =
        (getlines texts).filterMap (serverLine parse) := fun texts => List.append_nil _
    by_cases hkey : key.queryId = 0
    · have hnone : ∀ texts,
          bestEntry key ((getlines texts).filterMap (serverLine parse)) = none := by
        intro texts
        refine bestEntry_eq_none_iff.mpr fun e he hk => ?_
        obtain ⟨line, -, hline⟩ := List.mem_filterMap.mp he
        exact (queryId_serverLine hline).1 (hk ▸ hkey)
      rw [hnone, hnone]
    · have hlookup := h [] _ _ (Nat.le_refl _) (Nat.le_refl _) key
      rw [qtMapLookup_load (Nat.le_refl _) hkey, qtMapLookup_load (Nat.le_refl _) hkey, hentries,
        hentries] at hlookup
      exact bestEntry_ext hlookup
  · intro h sources capacity capacity' hroom hroom' key
    by_cases hkey : key.queryId = 0
    · rw [qtMapLookup, qtMapLookup, if_pos hkey, if_pos hkey]
    · rw [qtMapLookup_load hroom hkey, qtMapLookup_load hroom' hkey, mapEntries, mapEntries,
        bestEntry_append, bestEntry_append, h key]

/-- **The compaction does not change what the server shows** exactly if the file is not compacted or
every entry shown is kept. -/
theorem loadExisting_sameTexts_iff (threshold : ℕ) (content : List Char) :
    SameTexts parse content (loadExisting threshold content) ↔
      content.length ≤ threshold ∨ Preserved parse content := by
  rw [sameTexts_iff, loadExisting]
  split_ifs with hlarge
  · rw [getlines_flatten ((fileLines_getlines content).sublist
      (keepLines_sublist SeenTables.ok_empty _)), ← preserved_iff,
      or_iff_right (Nat.not_le_of_lt hlarge)]
  · exact iff_of_true (fun _ => rfl) (Or.inl (Nat.le_of_not_lt hlarge))

/-! ### Files that both read alike -/

end Files

/-- A line in the old format, with the query id as a number. -/
def legacyLine : List Char := "\x7b\"q\":42,\"t\":\"select 1\"\x7d\n".toList

/-- What the JSON parser makes of the line. -/
def parseLegacy (line : List Char) : Option Json :=
  if line = legacyLine then some (.obj [("q", .num 42), ("t", .str "select 1")]) else none

/-- The server shows the text of the old line. The daemon does not read the line, and the compacted
file is empty. -/
theorem loadExisting_loses :
    qtMapLookup (loadQueryTexts 256 parseLegacy legacyLine []) ⟨0, 0, 42⟩ =
        some (.full, some "select 1".toList) ∧
      loadExisting 1 legacyLine = [] ∧
      qtMapLookup (loadQueryTexts 256 parseLegacy (loadExisting 1 legacyLine) []) ⟨0, 0, 42⟩ =
        none := by
  decide +kernel

end PgWaitTracer
