import PgWaitTracer.Lib.Run
import PgWaitTracer.QueryText.Seen

/-!
# Storing query texts

A call records its context as seen, prints a record into the stream and flushes it. If a write
fails, what it had to write is lost in part, and the call says so; but the context stays recorded,
so that a later call with the same text is answered from the tables and prints nothing.

## Main results

* `storeText_retry_iff`: a context is recorded only if its text is in the file, and a
  failed call can be repeated, exactly if no write fails.
-/

namespace PgWaitTracer

open LinearProbe

/-! ### Records -/

/-- `pgwt_qt_source_name`. -/
def QuerySource.name : QuerySource → List Char
  | pgss => "pgss".toList
  | synthetic => "synthetic".toList
  | full => "full".toList

/-- The escape of a byte in a JSON string. -/
def jsonEscape (c : Char) : List Char :=
  if c.toNat = 34 then "\\\"".toList
  else if c.toNat = 92 then "\\\\".toList
  else if c.toNat = 10 then "\\n".toList
  else if c.toNat = 13 then "\\r".toList
  else if c.toNat = 9 then "\\t".toList
  else if c.toNat < 32 then
    "\\u00".toList ++ [Nat.digitChar (c.toNat / 16), Nat.digitChar (c.toNat % 16)]
  else [c]

/-- `write_json_string`. -/
def writeJsonString (s : List Char) : List Char := '"' :: s.flatMap jsonEscape ++ ['"']

/-- What a call prints. -/
structure QueryTextRecord where
  key : QueryTextKey
  source : QuerySource
  text : List Char
  wallNs : UInt64
  deriving DecidableEq, Repr

/-- The line of a record. -/
def QueryTextRecord.line (r : QueryTextRecord) : List Char :=
  "\x7b\"q\":\"".toList ++ (toString r.key.queryId.toInt64.toInt).toList ++
    "\",\"d\":".toList ++ (toString r.key.databaseid.toNat).toList ++
    ",\"u\":".toList ++ (toString r.key.userid.toNat).toList ++
    ",\"s\":\"".toList ++ r.source.name ++ "\"".toList ++
    (if r.source = .synthetic then ",\"v\":\"pg13-synth-v1\"".toList else []) ++
    ",\"t\":".toList ++ writeJsonString r.text ++
    ",\"ts\":".toList ++ (toString r.wallNs.toNat).toList ++ "\x7d\n".toList

/-! ### The stream -/

/-- What of the bytes of one write reaches the file: all of them, or if the write fails at most all
but one. The stream drops the others. -/
def reach (chunk : List Char) : Option ℕ → List Char
  | none => chunk
  | some k => chunk.take (min k (chunk.length - 1))

/-- Printing and flushing a text: each write has the next bytes, at least one, and an outcome, and
the last one is the flush. The result is what reaches the file, and whether no write failed. -/
def emit (flush : Option ℕ) : List (ℕ × Option ℕ) → List Char → List Char × Bool
  | _, [] => ([], true)
  | [], c :: cs => (reach (c :: cs) flush, flush.isNone)
  | w :: ws, c :: cs =>
    let rest := emit flush ws ((c :: cs).drop (w.1 + 1))
    (reach ((c :: cs).take (w.1 + 1)) w.2 ++ rest.1, w.2.isNone && rest.2)

/-- `query_texts.jsonl` as a stream: the records printed, with the bytes of each that have reached
the file, and the error indicator, which nothing clears. -/
structure QueryTextFile where
  records : List (QueryTextRecord × List Char) := []
  error : Bool := false

/-! ### The index of stored texts -/

/-- `struct pgwt_query_text_index_entry`. -/
structure TextIndexEntry where
  key : QueryTextKey := ⟨0, 0, 0⟩
  source : QuerySource := .pgss
  deriving DecidableEq, Repr

/-- The query id of a free slot is 0. -/
def TextIndexEntry.vacant (e : TextIndexEntry) : Bool := e.key.queryId = 0

/-- `QT_TEXT_INDEX_SIZE`. -/
def qtTextIndexSize : ℕ := qtHtSize * 4

/-- `text_index_insert`; a full index is left as it is. -/
def textIndexInsert (index : List TextIndexEntry) (key : QueryTextKey) (source : QuerySource) :
    List TextIndexEntry :=
  match probe (stops TextIndexEntry.key TextIndexEntry.vacant key) index (qtSlot key) with
  | none => index
  | some j => index.modify j fun e =>
    if e.vacant then { key, source }
    else if e.source.priority < source.priority then { e with source } else e

/-- `text_index_source`. -/
def textIndexSource (index : Option (List TextIndexEntry)) (key : QueryTextKey) :
    Option QuerySource :=
  if key.queryId = 0 then none
  else index.bind fun index =>
    (probe (stops TextIndexEntry.key TextIndexEntry.vacant key) index (qtSlot key)).bind fun j =>
      (index[j]?).bind fun e => if e.vacant then none else some e.source

/-! ### A call -/

/-- The part of `struct pgwt_query_text_capture` that a call reads and writes. -/
structure QueryTextCapture where
  lockInitialized : Bool := true
  enabled : Bool := true
  fp : Option QueryTextFile := some {}
  tables : SeenTables := {}
  textIndex : Option (List TextIndexEntry) := some (List.replicate qtTextIndexSize {})

/-- `QT_MAX_TEXT`. -/
def qtMaxText : ℕ := 1024 * 1024

/-- The arguments of a call, the time it reads, and what becomes of its writes. -/
structure StoreCall where
  key : QueryTextKey
  source : Option QuerySource
  text : List Char
  wallNs : UInt64 := 0
  writes : List (ℕ × Option ℕ) := []
  flush : Option ℕ := none

/-- The record that a call prints. -/
def StoreCall.record (c : StoreCall) (source : QuerySource) : QueryTextRecord :=
  { key := c.key, source, text := c.text.take (qtMaxText - 1), wallNs := c.wallNs }

/-- What of the record reaches the file. -/
def StoreCall.emitted (c : StoreCall) (source : QuerySource) : List Char × Bool :=
  emit c.flush c.writes (c.record source).line

namespace QueryTextCapture

/-- `pgwt_qt_has_text`. -/
def hasText (s : QueryTextCapture) (key : QueryTextKey) : Bool :=
  (textIndexSource s.textIndex key).isSome

/-- `store_text_locked`, with the flush that `pgwt_qt_store_text` asks for. -/
def storeTextLocked (s : QueryTextCapture) (c : StoreCall) (source : QuerySource) :
    ℤ × QueryTextCapture :=
  match s.fp with
  | none => (-1, s)
  | some fp =>
    if !s.enabled then (-1, s)
    else
      match s.tables.checkOrInsert c.key source with
      | (.known, tables) => (1, { s with tables })
      | (.noRoom, tables) => (-1, { s with tables })
      | (.fresh, tables) =>
        let out := c.emitted source
        let fp : QueryTextFile :=
          { records := fp.records ++ [(c.record source, out.1)], error := fp.error || !out.2 }
        if fp.error then (-1, { s with tables, fp := some fp })
        else
          (0, { s with
            tables
            fp := some fp
            textIndex := s.textIndex.map fun index => textIndexInsert index c.key source })

/-- `pgwt_qt_store_text`. -/
def storeText (s : QueryTextCapture) (c : StoreCall) : ℤ × QueryTextCapture :=
  match c.source with
  | none => (-1, s)
  | some source =>
    if c.key.queryId = 0 ∨ c.text = [] ∨ s.lockInitialized = false then (-1, s)
    else s.storeTextLocked c source

/-- The records printed so far. -/
def records (s : QueryTextCapture) : List (QueryTextRecord × List Char) :=
  s.fp.elim [] QueryTextFile.records

/-- The call gets as far as printing a record. -/
def Prints (s : QueryTextCapture) (c : StoreCall) (source : QuerySource) : Prop :=
  c.source = some source ∧ c.key.queryId ≠ 0 ∧ c.text ≠ [] ∧ s.lockInitialized = true ∧
    s.enabled = true ∧ s.fp.isSome = true ∧ (s.tables.checkOrInsert c.key source).1 = .fresh

/-- No write fails in a call that prints a record. -/
def NoLostWrite (s : QueryTextCapture) (c : StoreCall) : Prop :=
  ∀ source, s.Prints c source → (c.emitted source).2 = true

/-- A complete record of the context at the source or a higher one is in the file. -/
def Persisted (s : QueryTextCapture) (key : QueryTextKey) (source : QuerySource) : Prop :=
  ∃ r ∈ s.records, r.1.key = key ∧ source.priority ≤ r.1.source.priority ∧ r.2 = r.1.line

/-- A complete record of the text is in the file. -/
def PersistedText (s : QueryTextCapture) (key : QueryTextKey) (source : QuerySource)
    (text : List Char) : Prop :=
  ∃ r ∈ s.records, r.1.key = key ∧ r.1.source = source ∧
    r.1.text = text.take (qtMaxText - 1) ∧ r.2 = r.1.line

/-- What is recorded as seen is in the file. -/
def Recorded (s : QueryTextCapture) : Prop :=
  ∀ key source, s.tables.Covers key source → s.Persisted key source

/-- The capture after a call. -/
def afterStore (s : QueryTextCapture) (c : StoreCall) : QueryTextCapture := (s.storeText c).2

/-- The calls one after the other. -/
def run (s : QueryTextCapture) (calls : List StoreCall) : QueryTextCapture :=
  calls.foldl afterStore s

/-- A call whose write failed can be repeated: after any of the calls behind it, another call with
the same context, source and text leaves the text in the file if its writes succeed. -/
def Retryable (s : QueryTextCapture) (calls : List StoreCall) : Prop :=
  ∀ before c mid after, calls = before ++ c :: (mid ++ after) → ∀ source,
    (s.run before).Prints c source → ((s.run before).storeText c).1 = -1 →
      ∀ retry : StoreCall, retry.key = c.key → retry.source = c.source → retry.text = c.text →
        (retry.emitted source).2 = true →
          ((((s.run before).afterStore c).run mid).afterStore retry).PersistedText c.key source
            c.text

end QueryTextCapture

/-! ### What reaches the file -/

theorem length_reach_lt {chunk : List Char} (h : chunk ≠ []) (k : ℕ) :
    (reach chunk (some k)).length < chunk.length := by
  have hpos := List.length_pos_of_ne_nil h
  rw [reach, List.length_take]
  omega

/-- Without a failing write the text reaches the file, and otherwise less than it. -/
theorem emit_spec (flush : Option ℕ) (ws : List (ℕ × Option ℕ)) (cs : List Char) :
    ((emit flush ws cs).2 = true ∧ (emit flush ws cs).1 = cs) ∨
      ((emit flush ws cs).2 = false ∧ (emit flush ws cs).1.length < cs.length) := by
  induction ws generalizing cs with
  | nil =>
    cases cs with
    | nil => exact Or.inl ⟨rfl, rfl⟩
    | cons c cs =>
      cases flush with
      | none => exact Or.inl ⟨rfl, rfl⟩
      | some k => exact Or.inr ⟨rfl, length_reach_lt (List.cons_ne_nil c cs) k⟩
  | cons w ws ih =>
    cases cs with
    | nil => exact Or.inl ⟨rfl, rfl⟩
    | cons c cs =>
      rw [emit]
      dsimp only
      have hsplit := List.take_append_drop (w.1 + 1) (c :: cs)
      have hlen := congrArg List.length hsplit
      rw [List.length_append] at hlen
      rcases hw : w.2 with _ | k
      · rcases ih ((c :: cs).drop (w.1 + 1)) with ⟨hok, hall⟩ | ⟨hfail, hlt⟩
        · refine Or.inl ⟨by rw [hok]; rfl, ?_⟩
          rw [hall, reach, hsplit]
        · refine Or.inr ⟨by rw [hfail, Bool.and_false], ?_⟩
          rw [List.length_append, reach]
          omega
      · have hlt := length_reach_lt (show (c :: cs).take (w.1 + 1) ≠ [] by simp) k
        refine Or.inr ⟨rfl, ?_⟩
        rw [List.length_append]
        rcases ih ((c :: cs).drop (w.1 + 1)) with ⟨-, hall⟩ | ⟨-, hle⟩
        · rw [hall]
          omega
        · omega

theorem emitted_of_no_writes (c : StoreCall) (source : QuerySource) :
    (({ c with writes := [], flush := none } : StoreCall).emitted source).2 = true := by
  rw [StoreCall.emitted]
  cases (StoreCall.record _ source).line <;> rfl

/-- **A record is complete exactly if no write of it fails.** -/
theorem StoreCall.emitted_eq_line_iff (c : StoreCall) (source : QuerySource) :
    (c.emitted source).1 = (c.record source).line ↔ (c.emitted source).2 = true := by
  rcases emit_spec c.flush c.writes (c.record source).line with ⟨hok, hall⟩ | ⟨hfail, hlt⟩
  · exact iff_of_true hall hok
  · refine iff_of_false (fun heq => ?_) (by rw [emitted, hfail]; decide)
    rw [← emitted, heq] at hlt
    exact Nat.lt_irrefl _ hlt

namespace QueryTextCapture

variable {s : QueryTextCapture}

variable {source : QuerySource} {c : StoreCall}

/-- A call that prints. -/
theorem storeText_prints (h : s.tables.Ok) (hprints : s.Prints c source) :
    ¬s.tables.Covers c.key source ∧
      ∃ fp, s.fp = some fp ∧
        (s.storeText c).2.tables.Ok ∧
        (∀ k t, (s.storeText c).2.tables.Covers k t ↔
          s.tables.Covers k t ∨ k = c.key ∧ t.priority ≤ source.priority) ∧
        (s.storeText c).2.records = s.records ++ [(c.record source, (c.emitted source).1)] ∧
        (s.storeText c).1 = (if fp.error || !(c.emitted source).2 then -1 else 0) ∧
        (s.storeText c).2.textIndex =
          if fp.error || !(c.emitted source).2 then s.textIndex
          else s.textIndex.map fun index => textIndexInsert index c.key source := by
  obtain ⟨hsource, hkey, htext, hlock, henabled, hfp, hfresh⟩ := hprints
  obtain ⟨fp, hfp⟩ := Option.isSome_iff_exists.mp hfp
  have hvalid : ¬(c.key.queryId = 0 ∨ c.text = [] ∨ s.lockInitialized = false) := by
    simp [hkey, htext, hlock]
  rcases SeenTables.covers_checkOrInsert h c.key source with
    ⟨-, heq⟩ | ⟨-, heq⟩ | ⟨hnew, t', heq, hok, hcovers⟩
  · rw [heq] at hfresh
    exact nomatch hfresh
  · rw [heq] at hfresh
    exact nomatch hfresh
  refine ⟨hnew, fp, hfp, ?_⟩
  have hrecords : s.records = fp.records := by rw [records, hfp]; rfl
  rw [storeText, hsource]
  dsimp only
  rw [if_neg hvalid, storeTextLocked, hfp]
  dsimp only
  rw [henabled, if_neg (by decide), heq]
  dsimp only
  rw [hrecords]
  split_ifs with herror
  · exact ⟨hok, hcovers, rfl, rfl, rfl⟩
  · exact ⟨hok, hcovers, rfl, rfl, rfl⟩

/-- A call that does not print leaves everything as it is. -/
theorem storeText_silent (h : s.tables.Ok) (hsilent : ∀ source, ¬s.Prints c source) :
    (s.storeText c).2 = s := by
  rw [storeText]
  cases hsource : c.source with
  | none => rfl
  | some source =>
    dsimp only
    split_ifs with hvalid
    · rfl
    push Not at hvalid
    rw [storeTextLocked]
    cases hfp : s.fp with
    | none => rfl
    | some fp =>
      dsimp only
      by_cases henabled : s.enabled = true
      · rw [if_neg (by rw [henabled]; decide)]
        have hlock : s.lockInitialized = true := by simpa using hvalid.2.2
        rcases SeenTables.covers_checkOrInsert h c.key source with
          ⟨-, heq⟩ | ⟨-, heq⟩ | ⟨-, t', heq, -, -⟩
        · rw [heq, ← hfp]
        · rw [heq, ← hfp]
        · refine absurd ⟨hsource, hvalid.1, hvalid.2.1, hlock, henabled, ?_, ?_⟩ (hsilent source)
          · rw [hfp]
            rfl
          · rw [heq]
      · rw [Bool.not_eq_true] at henabled
        rw [henabled]
        rfl

theorem not_prints_of_covers (h : s.tables.Ok) (hcovers : s.tables.Covers c.key source) :
    ¬s.Prints c source :=
  fun hprints => (storeText_prints h hprints).1 hcovers

/-! ### What the tables say about the file -/

/-- Every record that was printed has its context recorded. -/
def Mirrored (s : QueryTextCapture) : Prop := ∀ r ∈ s.records, s.tables.Covers r.1.key r.1.source

/-- The tables are in order and have all records, and nothing that is not in the file. -/
structure Sound (s : QueryTextCapture) : Prop where
  ok : s.tables.Ok
  mirrored : s.Mirrored
  recorded : s.Recorded

theorem sound_empty : ({} : QueryTextCapture).Sound where
  ok := SeenTables.ok_empty
  mirrored := List.forall_mem_nil _
  recorded key source h := absurd h (SeenTables.not_covers_empty key source)

theorem mirrored_storeText (h : s.tables.Ok) (hmirrored : s.Mirrored) (c : StoreCall) :
    (s.storeText c).2.tables.Ok ∧ (s.storeText c).2.Mirrored := by
  by_cases hsilent : ∀ source, ¬s.Prints c source
  · rw [storeText_silent h hsilent]
    exact ⟨h, hmirrored⟩
  · push Not at hsilent
    obtain ⟨source, hprints⟩ := hsilent
    obtain ⟨-, fp, -, hok, hcovers, hrecords, -, -⟩ := storeText_prints h hprints
    refine ⟨hok, ?_⟩
    rw [Mirrored, hrecords, List.forall_mem_append, List.forall_mem_singleton]
    refine ⟨fun r hr => (hcovers _ _).mpr (Or.inl (hmirrored r hr)), ?_⟩
    exact (hcovers _ _).mpr (Or.inr ⟨rfl, Nat.le_refl _⟩)

theorem mirrored_run (h : s.tables.Ok) (hmirrored : s.Mirrored) (calls : List StoreCall) :
    (s.run calls).tables.Ok ∧ (s.run calls).Mirrored := by
  induction calls generalizing s with
  | nil => exact ⟨h, hmirrored⟩
  | cons c calls ih =>
    obtain ⟨hok, hmirrored'⟩ := mirrored_storeText h hmirrored c
    exact ih hok hmirrored'

theorem records_subset (h : s.tables.Ok) (c : StoreCall) :
    s.records ⊆ (s.storeText c).2.records := by
  by_cases hsilent : ∀ source, ¬s.Prints c source
  · rw [storeText_silent h hsilent]
    exact List.Subset.refl _
  · push Not at hsilent
    obtain ⟨source, hprints⟩ := hsilent
    obtain ⟨-, fp, -, -, -, hrecords, -, -⟩ := storeText_prints h hprints
    rw [hrecords]
    exact List.subset_append_left _ _

theorem records_subset_run (h : s.tables.Ok) (hmirrored : s.Mirrored) (calls : List StoreCall) :
    s.records ⊆ (s.run calls).records := by
  induction calls generalizing s with
  | nil => exact List.Subset.refl _
  | cons c calls ih =>
    obtain ⟨hok, hmirrored'⟩ := mirrored_storeText h hmirrored c
    exact List.Subset.trans (records_subset h c) (ih hok hmirrored')

/-- **A call keeps the tables true**, if no write of it fails. -/
theorem sound_storeText (h : s.Sound) (hwrite : s.NoLostWrite c) : (s.storeText c).2.Sound := by
  obtain ⟨hok, hmirrored⟩ := mirrored_storeText h.ok h.mirrored c
  refine ⟨hok, hmirrored, ?_⟩
  by_cases hsilent : ∀ source, ¬s.Prints c source
  · rw [storeText_silent h.ok hsilent]
    exact h.recorded
  · push Not at hsilent
    obtain ⟨source, hprints⟩ := hsilent
    obtain ⟨-, fp, -, -, hcovers, hrecords, -, -⟩ := storeText_prints h.ok hprints
    intro k t hk
    rcases (hcovers k t).mp hk with hk | ⟨rfl, hle⟩
    · obtain ⟨r, hr, hspec⟩ := h.recorded k t hk
      exact ⟨r, records_subset h.ok c hr, hspec⟩
    · refine ⟨(c.record source, (c.emitted source).1), ?_, rfl, hle,
        (c.emitted_eq_line_iff source).mpr (hwrite source hprints)⟩
      rw [hrecords]
      exact List.mem_append_right _ (List.mem_singleton.mpr rfl)

/-- **A write that fails** leaves the context recorded without its text in the file. -/
theorem noLostWrite_of_persisted (h : s.tables.Ok) (hmirrored : s.Mirrored)
    (hprints : s.Prints c source) (hpersisted : (s.storeText c).2.Persisted c.key source) :
    (c.emitted source).2 = true := by
  obtain ⟨hnew, fp, -, -, -, hrecords, -, -⟩ := storeText_prints h hprints
  obtain ⟨r, hr, hkey, hle, hline⟩ := hpersisted
  rw [hrecords, List.mem_append, List.mem_singleton] at hr
  rcases hr with hr | rfl
  · refine absurd ?_ hnew
    rw [← hkey]
    exact (hmirrored r hr).mono hle
  · exact (c.emitted_eq_line_iff source).mp hline

theorem noLostWrite_of_recorded (h : s.Sound) (hrecorded : (s.storeText c).2.Recorded) :
    s.NoLostWrite c := by
  intro source hprints
  obtain ⟨-, fp, -, -, hcovers, -, -, -⟩ := storeText_prints h.ok hprints
  refine noLostWrite_of_persisted h.ok h.mirrored hprints (hrecorded c.key source ?_)
  exact (hcovers _ _).mpr (Or.inr ⟨rfl, Nat.le_refl _⟩)

theorem PersistedText.persisted {key : QueryTextKey} {text : List Char}
    (h : s.PersistedText key source text) : s.Persisted key source := by
  obtain ⟨r, hr, hkey, hsource, -, hline⟩ := h
  exact ⟨r, hr, hkey, Nat.le_of_eq (by rw [hsource]), hline⟩

/-! ### Runs -/

theorem recorded_run_iff (h : s.Sound) (calls : List StoreCall) :
    (∀ before after, calls = before ++ after → (s.run before).Recorded) ↔
      Run.Allowed afterStore NoLostWrite s calls :=
  @Run.Allowed.forall_state_iff _ _ afterStore (fun _ _ => True) Sound Recorded NoLostWrite
    (fun _ _ hs _ hwrite => sound_storeText hs hwrite) (fun _ hs => hs.recorded)
    (fun _ _ hs _ hrecorded => noLostWrite_of_recorded hs hrecorded) calls s
    (Run.Allowed.of_forall calls s fun _ _ _ => trivial) h

theorem retryable_of_noLostWrite (h : s.Sound) {calls : List StoreCall}
    (hwrites : Run.Allowed afterStore NoLostWrite s calls) :
    s.Retryable calls := by
  rintro before c mid after rfl source hprints - retry - - - -
  have hsound : (s.run before).Sound :=
    @Run.Allowed.invariant _ _ afterStore NoLostWrite Sound
      (fun _ _ hs hwrite => sound_storeText hs hwrite) before s
      (Run.Allowed.of_append_left before s _ hwrites) h
  have hwrite : (s.run before).NoLostWrite c := Run.Allowed.of_split before s hwrites
  obtain ⟨-, fp, -, -, -, hrecords, -, -⟩ := storeText_prints hsound.ok hprints
  have hnext := sound_storeText hsound hwrite
  have hmem : (c.record source, (c.emitted source).1) ∈ ((s.run before).afterStore c).records := by
    rw [afterStore, hrecords]
    exact List.mem_append_right _ (List.mem_singleton.mpr rfl)
  have hstay := records_subset_run hnext.ok hnext.mirrored mid hmem
  have hok := (mirrored_run hnext.ok hnext.mirrored mid).1
  exact ⟨_, records_subset hok retry hstay, rfl, rfl, rfl,
    (c.emitted_eq_line_iff source).mpr (hwrite source hprints)⟩

/-- **A failing write cannot be made up for.** -/
theorem noLostWrite_of_retryable (h : s.tables.Ok) (hmirrored : s.Mirrored)
    {calls : List StoreCall} (hretry : s.Retryable calls) :
    Run.Allowed afterStore NoLostWrite s calls := by
  induction calls generalizing s with
  | nil => trivial
  | cons c calls ih =>
    obtain ⟨hok, hmirrored'⟩ := mirrored_storeText h hmirrored c
    refine ⟨fun source hprints => ?_, ih hok hmirrored' ?_⟩
    · by_contra hlost
      obtain ⟨-, fp, -, -, hcovers, -, hrc, -⟩ := storeText_prints h hprints
      rw [Bool.not_eq_true] at hlost
      rw [hlost, Bool.not_false, Bool.or_true, if_pos rfl] at hrc
      have hknown : (s.afterStore c).tables.Covers c.key source :=
        (hcovers _ _).mpr (Or.inr ⟨rfl, Nat.le_refl _⟩)
      -- The call that is repeated at once prints nothing.
      have hsilent : ∀ t, ¬(s.afterStore c).Prints { c with writes := [], flush := none } t := by
        intro t ht
        obtain rfl : t = source := Option.some.inj (ht.1.symm.trans hprints.1)
        exact not_prints_of_covers hok hknown ht
      have hfound := hretry [] c [] calls rfl source hprints hrc
        { c with writes := [], flush := none } rfl rfl rfl (emitted_of_no_writes c source)
      have hsame : (s.afterStore c).afterStore { c with writes := [], flush := none } =
          s.afterStore c := storeText_silent hok hsilent
      have hfound : (s.afterStore c).PersistedText c.key source c.text := by
        rw [← hsame]
        exact hfound
      exact Bool.false_ne_true
        (hlost.symm.trans (noLostWrite_of_persisted h hmirrored hprints hfound.persisted))
    · rintro before d mid after rfl source
      exact hretry (c :: before) d mid after rfl source

/-! ### The published index -/

end QueryTextCapture

/-- **A failed store cannot be retried.** A context is recorded as seen only if a complete record of
it is in the file, and a call that failed can be repeated, exactly if no write fails in a call that
prints. -/
theorem storeText_retry_iff {s : QueryTextCapture} (h : s.Sound) (calls : List StoreCall) :
    ((∀ before after, calls = before ++ after → (s.run before).Recorded) ↔
        Run.Allowed QueryTextCapture.afterStore QueryTextCapture.NoLostWrite s calls) ∧
      (s.Retryable calls ↔
        Run.Allowed QueryTextCapture.afterStore QueryTextCapture.NoLostWrite s calls) :=
  ⟨QueryTextCapture.recorded_run_iff h calls,
    fun hretry => QueryTextCapture.noLostWrite_of_retryable h.ok h.mirrored hretry,
    fun hwrites => QueryTextCapture.retryable_of_noLostWrite h hwrites⟩

/-- A text whose flush fails. -/
def lostCall : StoreCall :=
  { key := ⟨1, 10, 42⟩, source := some .full, text := "select 1".toList, flush := some 0 }

/-- The theorem at a daemon that starts with an empty file and stores one text. -/
theorem storeText_retry_iff_lostCall :
    ((∀ before after, [lostCall] = before ++ after →
          (({} : QueryTextCapture).run before).Recorded) ↔
        Run.Allowed QueryTextCapture.afterStore QueryTextCapture.NoLostWrite {} [lostCall]) ∧
      (({} : QueryTextCapture).Retryable [lostCall] ↔
        Run.Allowed QueryTextCapture.afterStore QueryTextCapture.NoLostWrite {} [lostCall]) :=
  storeText_retry_iff QueryTextCapture.sound_empty [lostCall]

/-- The flush fails and the call says so. The same call again, with a disk that works, is answered
from the table, and the file stays empty. -/
theorem storeText_forgets :
    (({} : QueryTextCapture).storeText lostCall).1 = -1 ∧
      ((({} : QueryTextCapture).afterStore lostCall).storeText { lostCall with flush := none }).1 =
        1 ∧
      ((({} : QueryTextCapture).afterStore lostCall).afterStore
        { lostCall with flush := none }).records.map Prod.snd = [[]] ∧
      ¬(({} : QueryTextCapture).run [lostCall]).Recorded ∧
      ¬({} : QueryTextCapture).Retryable [lostCall] := by
  have hprints : ({} : QueryTextCapture).Prints lostCall .full :=
    ⟨rfl, by decide, by decide, rfl, rfl, rfl, by decide +kernel⟩
  have hlost : ¬({} : QueryTextCapture).NoLostWrite lostCall := fun hwrite =>
    absurd (hwrite .full hprints) (by decide +kernel)
  refine ⟨by decide +kernel, by decide +kernel, by decide +kernel, fun hrecorded => ?_,
    fun hretry => ?_⟩
  · exact hlost (QueryTextCapture.noLostWrite_of_recorded QueryTextCapture.sound_empty hrecorded)
  · exact hlost (QueryTextCapture.noLostWrite_of_retryable SeenTables.ok_empty
      QueryTextCapture.sound_empty.mirrored hretry).1

end PgWaitTracer
