import Mathlib.Data.List.Induction
import PgWaitTracer.Lib.Json
import PgWaitTracer.QueryText.Existing

/-!
# The query texts that the server shows

The server parses the lines as JSON and keeps in a hash map, for every context, the text of the
highest source, and of these the first. A second file names contexts whose text is known to be
synthetic; these entries have no text.

## Main results

* `qtMapLookup_load`: the hash map, if it is large enough, has the entry that wins.
* `bestEntry_texts`: among texts it is the first of the highest source.
-/

namespace PgWaitTracer

open LinearProbe

/-! ### Lines -/

/-- `cJSON_GetObjectItem`: names are compared without regard to case. -/
def getObjectItem (name : List Char) : Json → Option Json
  | .obj members =>
    (members.find? fun m => (cString m.1.toList).map Char.toLower = name.map Char.toLower).map
      Prod.snd
  | _ => none

/-- The string of an item. -/
def valueString : Json → Option (List Char)
  | .str s => some (cString s.toList)
  | _ => none

/-- A floating-point number as a 64-bit integer; a number out of range becomes the smallest one. -/
def doubleToInt64 (x : ℚ) : ℤ :=
  let n := if 0 ≤ x then ⌊x⌋ else ⌈x⌉
  if -2 ^ 63 ≤ n ∧ n < 2 ^ 63 then n else -2 ^ 63

/-- An optional number as a 32-bit integer. -/
def itemUint32 : Option Json → UInt32
  | some (.num x) => UInt32.ofNat (doubleToInt64 x % 2 ^ 32).toNat
  | _ => 0

/-- The query id: a string of digits, or a number in the old format. -/
def itemQueryId : Option Json → UInt64
  | some (.str s) => queryIdOf ((strtoll (cString s.toList)).getD 0)
  | some (.num x) => queryIdOf (doubleToInt64 x)
  | _ => 0

/-- The priority of a source; entries without one have a complete text. -/
def itemSource (s : Option Json) : Option QuerySource :=
  match s.bind valueString with
  | none => some .full
  | some name =>
    if name = "pgss".toList then some .pgss
    else if name = "synthetic".toList then some .synthetic
    else if name = "full".toList then some .full
    else none

/-- What a line adds to the map. -/
structure MapEntry where
  key : QueryTextKey
  source : QuerySource
  text : Option (List Char)
  deriving DecidableEq, Repr

/-- A round of the loop of `server_load_query_texts`. -/
def serverLine (parse : List Char → Option Json) (line : List Char) : Option MapEntry :=
  (parse (cString line)).bind fun root =>
    let queryId := itemQueryId (getObjectItem ['q'] root)
    ((getObjectItem ['t'] root).bind valueString).bind fun text =>
      if queryId = 0 then none
      else
        (itemSource (getObjectItem ['s'] root)).map fun source =>
          { key :=
              { databaseid := itemUint32 (getObjectItem ['d'] root)
                userid := itemUint32 (getObjectItem ['u'] root)
                queryId }
            source
            text := some text }

/-- A round of the loop of `server_load_query_sources`. -/
def serverSource (parse : List Char → Option Json) (line : List Char) : Option MapEntry :=
  (parse (cString line)).bind fun root =>
    let queryId := ((getObjectItem ['q'] root).bind valueString).elim 0 fun q =>
      queryIdOf ((strtoll q).getD 0)
    if queryId ≠ 0 ∧
        (getObjectItem ['s'] root).bind valueString = some "synthetic".toList then
      some
        { key :=
            { databaseid := itemUint32 (getObjectItem ['d'] root)
              userid := itemUint32 (getObjectItem ['u'] root)
              queryId }
          source := .synthetic
          text := none }
    else none

/-! ### The map -/

/-- An empty slot. -/
def emptyEntry : MapEntry := { key := ⟨0, 0, 0⟩, source := .pgss, text := none }

/-- The query id of an empty slot is 0. -/
def MapEntry.vacant (e : MapEntry) : Bool := e.key.queryId = 0

/-- A second entry for the same context: a higher source wins, and so does a first text. -/
def MapEntry.merge (old new : MapEntry) : MapEntry :=
  if old.source.priority < new.source.priority then
    { old with source := new.source, text := new.text }
  else if new.source = old.source ∧ old.text = none ∧ new.text ≠ none then
    { old with text := new.text }
  else old

/-- `qt_map_insert`, with memory for the texts; a map that is full is left as it is. -/
def qtMapInsert (map : List MapEntry) (new : MapEntry) : List MapEntry :=
  match probe (stops MapEntry.key MapEntry.vacant new.key) map (qtSlot new.key) with
  | none => map
  | some j => map.modify j fun e => if e.vacant then new else e.merge new

/-- `qt_map_lookup_entry`: the source and the text. -/
def qtMapLookup (map : List MapEntry) (key : QueryTextKey) :
    Option (QuerySource × Option (List Char)) :=
  if key.queryId = 0 then none
  else
    (probe (stops MapEntry.key MapEntry.vacant key) map (qtSlot key)).bind fun j =>
      (map[j]?).bind fun e => if e.vacant then none else some (e.source, e.text)

/-- What the two files add to the map. -/
def mapEntries (parse : List Char → Option Json) (texts sources : List Char) : List MapEntry :=
  (getlines texts).filterMap (serverLine parse) ++ (getlines sources).filterMap (serverSource parse)

/-- `server_load_query_texts`, with a map of `capacity` slots. -/
def loadQueryTexts (capacity : ℕ) (parse : List Char → Option Json) (texts sources : List Char) :
    List MapEntry :=
  (mapEntries parse texts sources).foldl qtMapInsert (List.replicate capacity emptyEntry)

/-- The entry that wins among those for a key. -/
def bestEntry (key : QueryTextKey) (entries : List MapEntry) : Option MapEntry :=
  (entries.filter fun e => e.key = key).foldl
    (fun best e => some (best.elim e fun old => old.merge e)) none

/-! ### The map as a finite map -/

@[simp]
theorem MapEntry.key_merge (old new : MapEntry) : (old.merge new).key = old.key := by
  rw [merge]
  split_ifs <;> rfl

variable {parse : List Char → Option Json}

theorem queryId_serverLine {line : List Char} {e : MapEntry} (h : serverLine parse line = some e) :
    e.key.queryId ≠ 0 ∧ e.text ≠ none := by
  obtain ⟨root, -, h⟩ := Option.bind_eq_some_iff.mp h
  obtain ⟨text, -, h⟩ := Option.bind_eq_some_iff.mp h
  split_ifs at h with hq
  obtain ⟨source, -, rfl⟩ := Option.map_eq_some_iff.mp h
  exact ⟨hq, Option.some_ne_none text⟩

theorem queryId_serverSource {line : List Char} {e : MapEntry}
    (h : serverSource parse line = some e) : e.key.queryId ≠ 0 := by
  obtain ⟨root, -, h⟩ := Option.bind_eq_some_iff.mp h
  dsimp only at h
  split_ifs at h with hq
  rw [← Option.some.inj h]
  exact hq.1

theorem queryId_mapEntries {texts sources : List Char} :
    ∀ e ∈ mapEntries parse texts sources, e.key.queryId ≠ 0 := by
  intro e he
  rcases List.mem_append.mp he with he | he
  · obtain ⟨line, -, hline⟩ := List.mem_filterMap.mp he
    exact (queryId_serverLine hline).1
  · obtain ⟨line, -, hline⟩ := List.mem_filterMap.mp he
    exact queryId_serverSource hline

theorem bestEntry_append_singleton (key : QueryTextKey) (entries : List MapEntry) (e : MapEntry) :
    bestEntry key (entries ++ [e]) =
      if e.key = key then some ((bestEntry key entries).elim e fun old => old.merge e)
      else bestEntry key entries := by
  rw [bestEntry, List.filter_append, List.foldl_append]
  split_ifs with hkey
  · rw [List.filter_cons_of_pos (by simpa using hkey)]
    rfl
  · rw [List.filter_cons_of_neg (by simpa using hkey)]
    rfl

/-- **An insertion** into a map with an empty slot. -/
theorem counted_qtMapInsert {capacity num : ℕ} {map : List MapEntry}
    (h : Counted MapEntry.key MapEntry.vacant qtSlot capacity map num) (hroom : num < capacity)
    {new : MapEntry} (hnew : new.key.queryId ≠ 0) :
    (∃ num' ≤ num + 1,
      Counted MapEntry.key MapEntry.vacant qtSlot capacity (qtMapInsert map new) num') ∧
      lookup MapEntry.key MapEntry.vacant (qtMapInsert map new) =
        Function.update (lookup MapEntry.key MapEntry.vacant map) new.key
          (some ((lookup MapEntry.key MapEntry.vacant map new.key).elim new
            fun old => old.merge new)) := by
  have hfree : (occupied MapEntry.vacant map).length < map.length := by
    rw [h.length_eq, ← h.num_eq]
    exact hroom
  obtain ⟨i, r, hi, hvacant⟩ := exists_vacant hfree
  obtain ⟨j, hprobe⟩ := exists_probe (stops MapEntry.key MapEntry.vacant new.key) (qtSlot new.key)
    hi (by rw [stops, hvacant, Bool.true_or])
  obtain ⟨e, hj, hstop⟩ := exists_of_probe hprobe
  have hlookup := Probed.lookup_of_probe h.probed hprobe hj
  have hocc : ∀ e : MapEntry, e.key = new.key → e.vacant = false := by
    intro e he
    rw [MapEntry.vacant, he]
    exact decide_eq_false hnew
  rw [qtMapInsert, hprobe]
  dsimp only
  rw [modify_of_getElem? hj, hlookup]
  by_cases hvac : e.vacant = true
  · rw [if_pos hvac, if_pos hvac]
    have hwrite := h.write hprobe hj (rfl : new.key = new.key) (hocc new rfl)
    rw [if_pos hvac] at hwrite
    exact ⟨⟨num + 1, Nat.le_refl _, hwrite⟩,
      Probed.lookup_set h.probed hprobe rfl (hocc new rfl)⟩
  · rw [if_neg hvac, if_neg hvac]
    have hkey : (e.merge new).key = new.key := by
      rw [MapEntry.key_merge]
      simpa [stops, hvac] using hstop
    have hwrite := h.write hprobe hj hkey (hocc _ hkey)
    rw [if_neg hvac] at hwrite
    exact ⟨⟨num, Nat.le_succ num, hwrite⟩, Probed.lookup_set h.probed hprobe hkey (hocc _ hkey)⟩

theorem lookup_foldl_qtMapInsert {capacity : ℕ} (entries : List MapEntry)
    (hroom : entries.length ≤ capacity) (hkeys : ∀ e ∈ entries, e.key.queryId ≠ 0) :
    (∃ num ≤ entries.length, Counted MapEntry.key MapEntry.vacant qtSlot capacity
      (entries.foldl qtMapInsert (List.replicate capacity emptyEntry)) num) ∧
      ∀ key, lookup MapEntry.key MapEntry.vacant
        (entries.foldl qtMapInsert (List.replicate capacity emptyEntry)) key =
          bestEntry key entries := by
  induction entries using List.reverseRecOn with
  | nil =>
    refine ⟨⟨0, Nat.le_refl 0, counted_replicate rfl capacity⟩, fun key => ?_⟩
    rw [lookup, List.foldl_nil, occupied_replicate rfl]
    rfl
  | append_singleton entries e ih =>
    rw [List.length_append, List.length_singleton] at hroom ⊢
    obtain ⟨⟨num, hnum, hcounted⟩, hlookup⟩ := ih (by omega)
      fun e' he' => hkeys e' (List.mem_append_left _ he')
    have hkey := hkeys e (List.mem_append_right _ (List.mem_singleton.mpr rfl))
    obtain ⟨⟨num', hnum', hcounted'⟩, hlookup'⟩ :=
      counted_qtMapInsert hcounted (by omega) hkey
    rw [List.foldl_append, List.foldl_cons, List.foldl_nil]
    refine ⟨⟨num', by omega, hcounted'⟩, fun key => ?_⟩
    rw [hlookup', bestEntry_append_singleton]
    split_ifs with hk
    · rw [← hk, Function.update_self, hlookup]
    · rw [Function.update_of_ne (Ne.symm hk), hlookup]

/-- **The map that the server loads**, if it is large enough. -/
theorem qtMapLookup_load {capacity : ℕ} {texts sources : List Char}
    (hroom : (mapEntries parse texts sources).length ≤ capacity) {key : QueryTextKey}
    (hkey : key.queryId ≠ 0) :
    qtMapLookup (loadQueryTexts capacity parse texts sources) key =
      (bestEntry key (mapEntries parse texts sources)).map fun e => (e.source, e.text) := by
  obtain ⟨⟨num, -, hcounted⟩, hlookup⟩ :=
    lookup_foldl_qtMapInsert (mapEntries parse texts sources) hroom queryId_mapEntries
  rw [← loadQueryTexts] at hcounted hlookup
  rw [qtMapLookup, if_neg hkey, ← hlookup]
  cases hprobe : probe (stops MapEntry.key MapEntry.vacant key)
      (loadQueryTexts capacity parse texts sources) (qtSlot key) with
  | none =>
    rw [Probed.lookup_of_no_probe hcounted.probed hprobe]
    rfl
  | some j =>
    obtain ⟨e, hj, -⟩ := exists_of_probe hprobe
    rw [Probed.lookup_of_probe hcounted.probed hprobe hj, Option.bind_some, hj, Option.bind_some]
    cases e.vacant <;> rfl

end PgWaitTracer
