import PgWaitTracer.Summary.Reader

/-!
# Approved windows are answered completely

If the preflight approves a window, the visitor is called once for every record of the directory in
the window and for no other: a file that the scan lists and that has a record in the window meets
the window by its header, and in a file whose block index is in order the binary search and the
early end leave out nothing. The scan stops at 256 files, and what it does not reach is seen by
neither the preflight nor the visit, so this is so exactly if no file behind these has a record in
the window.

## Main results

* `visitBlocks_recordCall`: the records of a file that are visited.
* `visitSummaries_complete_iff`: the visit of an approved window.
-/

namespace PgWaitTracer

open ByteCodec

variable {lz : Lz4} {mktime : ArchiveDate → ℤ} {d : TraceDir} {r : SummaryReader}
  {fromNs toNs : UInt64}

/-! ### Records of a directory -/

/-- The records of a file that decode. -/
def SummaryReader.records (lz : Lz4) (r : SummaryReader) : List SummaryRecord :=
  (List.range r.blockIndex.length).filterMap fun b => (summaryDecodeBlock lz r decodeBufSize b).2

/-- The decodable records of a file of the directory. -/
def TraceDir.fileRecords (lz : Lz4) (d : TraceDir) (path : List Char) : List SummaryRecord :=
  ((summaryReaderOpen d path).map (SummaryReader.records lz)).getD []

/-- The name of an archive, or `current.summary`. -/
def isSummaryName (name : List Char) : Bool := (archiveDate name).isSome || name = currentSummary

/-- The decodable records of the summary files of a directory. -/
def TraceDir.records (lz : Lz4) (d : TraceDir) : List SummaryRecord :=
  (d.entries.filter fun e => isSummaryName e.name).flatMap fun e => d.fileRecords lz e.name

/-- A file as the writer leaves it: a block for every second, in order, which the index lists by
that second; the size of the record in the block header is true, so that the buffer does not matter. -/
structure SummaryReader.InOrder (lz : Lz4) (r : SummaryReader) : Prop where
  increasing : r.blockIndex.Pairwise fun a b => a.timestampNs < b.timestampNs
  indexed : ∀ b e rec, r.blockIndex[b]? = some e →
    (summaryDecodeBlock lz r decodeBufSize b).2 = some rec → rec.secondWallNs = e.timestampNs
  sized : ∀ b buf, decodeBufSize ≤ buf →
    (summaryDecodeBlock lz r buf b).2 = (summaryDecodeBlock lz r decodeBufSize b).2

/-- An hour in ns. -/
def hourNs : ℕ := 3600 * 1000000000

/-- The start in the header is at most, and less than an hour before, the second of each record. -/
def SummaryReader.Placed (lz : Lz4) (r : SummaryReader) : Prop :=
  ∀ rec ∈ r.records lz, r.header.startTimeNs ≤ rec.secondWallNs ∧
    rec.secondWallNs.toNat < r.header.startTimeNs.toNat + hourNs

/-- The header says where the file is: its start is not 0, and the hour from there on is within the
clock. -/
def FileHeader.Locates (h : FileHeader) : Prop :=
  0 < h.startTimeNs ∧ h.startTimeNs.toNat + hourNs < 2 ^ 64

/-- A visitor that keeps what it is called with and never stops. -/
def recordCall (calls : List SummaryRecord) (rec : SummaryRecord) : List SummaryRecord × Bool :=
  (calls ++ [rec], false)

/-! ### One file -/

theorem decodeBufSize_le_grown {buf : ℕ} (h : decodeBufSize ≤ buf) (b : ℕ) :
    decodeBufSize ≤ (summaryDecodeBlock lz r buf b).1 := by
  rw [summaryDecodeBlock]
  split
  · exact h
  · split
    · exact h
    · split
      · exact h
      · dsimp only
        split_ifs <;> omega

/-- The blocks that are looked at hand on their records in the window. -/
theorem visitBlocks_recordCall (h : r.InOrder lz) (hto : 0 < toNs) (bs : List ℕ) {buf : ℕ}
    (hbuf : decodeBufSize ≤ buf) (v : Visit (List SummaryRecord)) (hv : v.stop = false) :
    ∃ n, visitBlocks lz r fromNs toNs recordCall bs buf v = ⟨v.total + n, v.state ++
      ((bs.takeWhile fun b => !(r.blockIndex[b]?).any fun e => toNs < e.timestampNs).filterMap
        fun b => (summaryDecodeBlock lz r decodeBufSize b).2).filter
          (SummaryRecord.inWindow fromNs toNs), false⟩ := by
  induction bs generalizing buf v with
  | nil =>
    refine ⟨0, ?_⟩
    rw [visitBlocks, List.takeWhile_nil, List.filterMap_nil, List.filter_nil, List.append_nil, ← hv]
    rfl
  | cons b bs ih =>
    rw [visitBlocks, hv]
    by_cases hlate : (r.blockIndex[b]?).any fun e => toNs < e.timestampNs
    · refine ⟨0, ?_⟩
      rw [List.takeWhile_cons_of_neg (by simp [hlate]), List.filterMap_nil, List.filter_nil,
        List.append_nil, if_neg (by simp), if_pos ⟨hto, hlate⟩, ← hv]
      rfl
    · have hgrown : decodeBufSize ≤ (summaryDecodeBlock lz r buf b).1 :=
        decodeBufSize_le_grown hbuf b
      rw [List.takeWhile_cons_of_pos (by simp [hlate]), if_neg (by simp),
        if_neg (fun h' => hlate h'.2), List.filterMap_cons, ← h.sized b buf hbuf]
      cases hrec : (summaryDecodeBlock lz r buf b).2 with
      | none =>
        dsimp only
        rw [hrec]
        exact ih hgrown v hv
      | some rec =>
        dsimp only
        rw [hrec]
        dsimp only
        by_cases hin : rec.inWindow fromNs toNs
        · obtain ⟨n, hn⟩ := ih hgrown ⟨v.total + 1, v.state ++ [rec], false⟩ rfl
          refine ⟨n + 1, ?_⟩
          rw [if_pos hin, List.filter_cons_of_pos hin, recordCall, hn, List.append_assoc,
            List.singleton_append, Nat.add_assoc, Nat.add_comm 1 n]
        · rw [if_neg hin, List.filter_cons_of_neg hin]
          exact ih hgrown v hv

theorem SummaryReader.InOrder.lt_of_lt (h : r.InOrder lz) {b c : ℕ} (hbc : b < c)
    {e e' : IndexEntry} (hb : r.blockIndex[b]? = some e) (hc : r.blockIndex[c]? = some e') :
    e.timestampNs < e'.timestampNs := by
  obtain ⟨hb', rfl⟩ := List.getElem?_eq_some_iff.mp hb
  obtain ⟨hc', rfl⟩ := List.getElem?_eq_some_iff.mp hc
  exact List.pairwise_iff_getElem.mp h.increasing b c hb' hc' hbc

theorem not_inWindow_of_lt_findBlock (h : r.InOrder lz) (hfrom : 0 < fromNs) {b : ℕ}
    (hb : b < summaryFindBlock r fromNs) {rec : SummaryRecord}
    (hrec : (summaryDecodeBlock lz r decodeBufSize b).2 = some rec) :
    rec.inWindow fromNs toNs = false := by
  set p : ℕ → Bool := fun b => (r.blockIndex[b]?).any fun e => e.timestampNs ≤ fromNs with hp
  have hturns : BinarySearch.Turns p r.blockIndex.length := by
    intro i j hij hj hpj
    rcases Nat.eq_or_lt_of_le hij with rfl | hlt
    · exact hpj
    · have hi' : r.blockIndex[i]? = some r.blockIndex[i] := List.getElem?_eq_getElem (by omega)
      have hj' : r.blockIndex[j]? = some r.blockIndex[j] := List.getElem?_eq_getElem hj
      have hlt := h.lt_of_lt hlt hi' hj'
      simp only [hp, hi', hj', Option.any_some, decide_eq_true_eq] at hpj ⊢
      exact UInt64.le_trans (UInt64.le_of_lt hlt) hpj
  obtain ⟨hle, hbefore, -⟩ := BinarySearch.lowerBound_spec hturns
  change b < BinarySearch.lowerBound p r.blockIndex.length - 1 at hb
  -- the block behind `b` is still not later than the window starts
  have hnext := hbefore (b + 1) (by omega)
  have hlen : b + 1 < r.blockIndex.length := by omega
  have hi' : r.blockIndex[b]? = some r.blockIndex[b] := List.getElem?_eq_getElem (by omega)
  have hj' : r.blockIndex[b + 1]? = some r.blockIndex[b + 1] := List.getElem?_eq_getElem hlen
  have hlt := h.lt_of_lt (Nat.lt_succ_self b) hi' hj'
  simp only [hp, hj', Option.any_some, decide_eq_true_eq] at hnext
  have hsec : rec.secondWallNs < fromNs := by
    rw [h.indexed b _ rec hi' hrec]
    exact UInt64.lt_of_lt_of_le hlt hnext
  simp [SummaryRecord.inWindow, hfrom, hsec]

theorem not_inWindow_of_late (h : r.InOrder lz) (hto : 0 < toNs) {b c : ℕ} (hbc : b ≤ c)
    (hlate : (r.blockIndex[b]?).any fun e => toNs < e.timestampNs) {rec : SummaryRecord}
    (hrec : (summaryDecodeBlock lz r decodeBufSize c).2 = some rec) :
    rec.inWindow fromNs toNs = false := by
  obtain ⟨e, he, hlt⟩ : ∃ e, r.blockIndex[b]? = some e ∧ toNs < e.timestampNs := by
    simpa [Option.any_eq_true] using hlate
  obtain ⟨e', he'⟩ : ∃ e', r.blockIndex[c]? = some e' := by
    rw [summaryDecodeBlock] at hrec
    split at hrec
    · cases hrec
    · exact ⟨_, ‹_›⟩
  have hle : toNs ≤ rec.secondWallNs := by
    rw [h.indexed c e' rec he' hrec]
    rcases Nat.eq_or_lt_of_le hbc with rfl | hbc
    · rw [he] at he'
      rw [← Option.some_inj.mp he']
      exact UInt64.le_of_lt hlt
    · exact UInt64.le_of_lt (UInt64.lt_trans hlt (h.lt_of_lt hbc he he'))
  simp [SummaryRecord.inWindow, hto, hle]

theorem exists_le_of_mem_dropWhile {p : ℕ → Bool} {l : List ℕ} (h : l.Pairwise (· < ·)) {c : ℕ}
    (hc : c ∈ l.dropWhile p) : ∃ b ≤ c, p b = false := by
  induction l with
  | nil => simp at hc
  | cons b l ih =>
    obtain ⟨hb, hl⟩ := List.pairwise_cons.mp h
    cases hp : p b
    · rw [List.dropWhile_cons_of_neg (by simp [hp])] at hc
      rcases List.mem_cons.mp hc with rfl | hc
      · exact ⟨c, Nat.le_refl c, hp⟩
      · exact ⟨b, Nat.le_of_lt (hb c hc), hp⟩
    · rw [List.dropWhile_cons_of_pos hp] at hc
      exact ih hl hc

theorem filter_filterMap_eq_nil {dec : ℕ → Option SummaryRecord} {q : SummaryRecord → Bool}
    {l : List ℕ} (h : ∀ b ∈ l, ∀ rec, dec b = some rec → q rec = false) :
    (l.filterMap dec).filter q = [] := by
  rw [List.filter_eq_nil_iff]
  intro rec hrec
  obtain ⟨b, hb, hdec⟩ := List.mem_filterMap.mp hrec
  rw [h b hb rec hdec]
  exact Bool.false_ne_true

theorem filter_visited (h : r.InOrder lz) (hfrom : 0 < fromNs) (hto : 0 < toNs) :
    (((List.range' (summaryFindBlock r fromNs)
        (r.blockIndex.length - summaryFindBlock r fromNs)).takeWhile
          fun b => !(r.blockIndex[b]?).any fun e => toNs < e.timestampNs).filterMap
        fun b => (summaryDecodeBlock lz r decodeBufSize b).2).filter
          (SummaryRecord.inWindow fromNs toNs) =
      (r.records lz).filter (SummaryRecord.inWindow fromNs toNs) := by
  set start := summaryFindBlock r fromNs
  set early : ℕ → Bool := fun b => !(r.blockIndex[b]?).any fun e => toNs < e.timestampNs with hearly
  set rest := List.range' start (r.blockIndex.length - start) with hrest
  have hsplit : List.range r.blockIndex.length = (List.range r.blockIndex.length).take start ++
      (rest.takeWhile early ++ rest.dropWhile early) := by
    rw [List.takeWhile_append_dropWhile, hrest]
    conv_lhs => rw [← List.take_append_drop start (List.range r.blockIndex.length)]
    rw [List.range_eq_range', List.drop_range', Nat.mul_one, Nat.zero_add]
  rw [SummaryReader.records, hsplit, List.filterMap_append, List.filterMap_append,
    List.filter_append, List.filter_append, filter_filterMap_eq_nil (l := List.take _ _),
    filter_filterMap_eq_nil (l := rest.dropWhile early), List.nil_append, List.append_nil]
  · intro c hc rec hrec
    obtain ⟨b, hbc, hb⟩ := exists_le_of_mem_dropWhile (List.pairwise_lt_range' ..) hc
    refine not_inWindow_of_late h hto hbc ?_ hrec
    simpa [hearly] using hb
  · intro b hb rec hrec
    refine not_inWindow_of_lt_findBlock h hfrom ?_ hrec
    rw [List.take_range] at hb
    exact lt_of_lt_of_le (List.mem_range.mp hb) (min_le_left _ _)

/-- **A file of a visit**: its records in the window, if its hour meets the window. -/
theorem visitFile_recordCall {e : SummaryFileEntry}
    (h : ∀ r, summaryReaderOpen d e.path = some r → r.InOrder lz) (hfrom : 0 < fromNs)
    (hto : 0 < toNs) (v : Visit (List SummaryRecord)) (hv : v.stop = false) :
    ∃ n, visitFile lz d fromNs toNs recordCall v e = ⟨v.total + n, v.state ++
      if summaryFileInWindow e fromNs toNs then
        (d.fileRecords lz e.path).filter (SummaryRecord.inWindow fromNs toNs) else [], false⟩ := by
  have hskip : v = ⟨v.total + 0, v.state ++ [], false⟩ := by
    rw [List.append_nil, ← hv]
    rfl
  rw [visitFile, hv]
  by_cases hin : summaryFileInWindow e fromNs toNs
  · rw [if_neg (by simp [hin]), if_pos hin, TraceDir.fileRecords]
    cases hopen : summaryReaderOpen d e.path with
    | none => exact ⟨0, hskip⟩
    | some r =>
      obtain ⟨n, hn⟩ := visitBlocks_recordCall (h r hopen) hto
        (List.range' (summaryFindBlock r fromNs)
          (r.blockIndex.length - summaryFindBlock r fromNs)) le_rfl v hv
      refine ⟨n, ?_⟩
      rw [filter_visited (h r hopen) hfrom hto] at hn
      simp only [if_pos hfrom, hn, Option.map_some, Option.getD_some]
  · rw [if_pos (by simp [hin]), if_neg hin]
    exact ⟨0, hskip⟩

/-! ### The directory -/

/-- The records in the window of a file that is listed. -/
def TraceDir.windowRecords (lz : Lz4) (d : TraceDir) (fromNs toNs : UInt64) (e : SummaryFileEntry) :
    List SummaryRecord :=
  (d.fileRecords lz e.path).filter (SummaryRecord.inWindow fromNs toNs)

theorem foldl_visitFile {files : List SummaryFileEntry}
    (h : ∀ e ∈ files, ∀ r, summaryReaderOpen d e.path = some r → r.InOrder lz)
    (hfrom : 0 < fromNs) (hto : 0 < toNs) (v : Visit (List SummaryRecord)) (hv : v.stop = false) :
    (files.foldl (visitFile lz d fromNs toNs recordCall) v).state = v.state ++
      (files.filter fun e => summaryFileInWindow e fromNs toNs).flatMap
        (d.windowRecords lz fromNs toNs) := by
  induction files generalizing v with
  | nil => simp
  | cons e files ih =>
    obtain ⟨he, hfiles⟩ := List.forall_mem_cons.mp h
    obtain ⟨n, hn⟩ := visitFile_recordCall he hfrom hto v hv
    rw [List.foldl_cons, ih hfiles _ (by rw [hn]), hn, List.append_assoc]
    by_cases hin : summaryFileInWindow e fromNs toNs
    · rw [if_pos hin, List.filter_cons_of_pos (by simpa using hin), List.flatMap_cons]
      rfl
    · rw [if_neg hin, List.filter_cons_of_neg (by simpa using hin), List.nil_append]

theorem header_of_open {path : List Char} (h : summaryReaderOpen d path = some r) :
    ∃ file rest, d.fopen path = some file ∧ readFileHeader file = some (r.header, rest) ∧
      r.header.magic = summaryMagic := by
  rw [summaryReaderOpen, Option.bind_eq_some_iff] at h
  obtain ⟨file, hfile, hopen⟩ := h
  simp only [openSummary, Option.bind_eq_bind, Option.bind_eq_some_iff, Prod.exists] at hopen
  obtain ⟨header, rest, hread, hopen⟩ := hopen
  split_ifs at hopen with hok
  obtain rfl := Option.some_inj.mp hopen
  exact ⟨file, rest, hfile, hread, hok.1⟩

theorem headerStart_of_open {path : List Char} (h : summaryReaderOpen d path = some r) :
    headerStart (d.fopen path) = r.header.startTimeNs := by
  obtain ⟨file, rest, hfile, hread, hmagic⟩ := header_of_open h
  rw [headerStart, hfile, Option.bind_some, hread]
  exact if_pos hmagic

theorem summaryEntry_eq_some {e : DirEntry} {f : SummaryFileEntry}
    (h : summaryEntry mktime d e = some f) :
    f.path = e.name ∧ isSummaryName e.name = true ∧
      (0 < headerStart (d.fopen e.name) → f.startWallNs = headerStart (d.fopen e.name)) := by
  rw [summaryEntry] at h
  split at h
  · rename_i date hdate
    obtain rfl := Option.some_inj.mp h
    exact ⟨rfl, by simp [isSummaryName, hdate], fun hpos => if_pos hpos⟩
  · split_ifs at h with hcur
    obtain rfl := Option.some_inj.mp h
    exact ⟨rfl, by simp [isSummaryName, hcur.1], fun _ => rfl⟩

/-- A file that is not listed has no records, unless it is a `current.summary` that the preflight
refuses. -/
theorem fileRecords_of_unlisted (hhidden : currentHidden d = false) {e : DirEntry}
    (hname : isSummaryName e.name = true) (h : summaryEntry mktime d e = none) :
    d.fileRecords lz e.name = [] := by
  rw [TraceDir.fileRecords]
  cases hopen : summaryReaderOpen d e.name with
  | none => rfl
  | some r =>
    exfalso
    obtain ⟨file, rest, hfile, -⟩ := header_of_open hopen
    have hstart := headerStart_of_open hopen
    rw [summaryEntry] at h
    split at h
    · cases h
    · rename_i hdate
      have hcur : e.name = currentSummary := by simpa [isSummaryName, hdate] using hname
      split_ifs at h with hpos
      have hzero : headerStart (d.fopen e.name) = 0 := by
        by_contra hne
        exact hpos ⟨hcur, UInt64.pos_iff_ne_zero.mpr hne⟩
      rw [hcur] at hfile hzero
      rw [hfile] at hzero
      simp [currentHidden, hfile, hzero] at hhidden

theorem filter_records (hhidden : currentHidden d = false) :
    (d.records lz).filter (SummaryRecord.inWindow fromNs toNs) =
      (listedFiles mktime d).flatMap (d.windowRecords lz fromNs toNs) := by
  have hall : ∀ l : List DirEntry,
      ((l.filter fun e => isSummaryName e.name).flatMap fun e => d.fileRecords lz e.name).filter
          (SummaryRecord.inWindow fromNs toNs) =
        (l.filterMap (summaryEntry mktime d)).flatMap (d.windowRecords lz fromNs toNs) := by
    intro l
    induction l with
    | nil => rfl
    | cons e l ih =>
      cases hname : isSummaryName e.name
      · have hnone : summaryEntry mktime d e = none := by
          cases h : summaryEntry mktime d e with
          | none => rfl
          | some f => rw [(summaryEntry_eq_some h).2.1] at hname; cases hname
        rw [List.filter_cons_of_neg (by simp [hname]), List.filterMap_cons_none hnone, ih]
      · rw [List.filter_cons_of_pos (by simpa using hname), List.flatMap_cons, List.filter_append,
          ih]
        cases h : summaryEntry mktime d e with
        | none =>
          rw [List.filterMap_cons_none h, fileRecords_of_unlisted hhidden hname h, List.filter_nil,
            List.nil_append]
        | some f =>
          rw [List.filterMap_cons_some h, List.flatMap_cons, TraceDir.windowRecords,
            (summaryEntry_eq_some h).1]
  exact hall d.entries

theorem windowRecords_ne_nil_iff {e : SummaryFileEntry} :
    d.windowRecords lz fromNs toNs e ≠ [] ↔
      ∃ rec ∈ d.fileRecords lz e.path, rec.inWindow fromNs toNs = true := by
  rw [TraceDir.windowRecords, ne_eq, List.filter_eq_nil_iff]
  push Not
  rfl

theorem inWindow_of_record (hfrom : 0 < fromNs) (hto : 0 < toNs) {f : SummaryFileEntry}
    (hplaced : r.Placed lz) (hlocates : r.header.Locates)
    (hstart : f.startWallNs = r.header.startTimeNs) {rec : SummaryRecord}
    (hrec : rec ∈ r.records lz) (hin : rec.inWindow fromNs toNs = true) : summaryFileInWindow f fromNs toNs = true := by
  obtain ⟨hle, hlt⟩ := hplaced rec hrec
  have hin' : fromNs ≤ rec.secondWallNs ∧ rec.secondWallNs < toNs := by
    simpa [SummaryRecord.inWindow, hfrom, hto] using hin
  have hsum : (r.header.startTimeNs + 3600 * 1000000000).toNat =
      r.header.startTimeNs.toNat + hourNs := by
    rw [UInt64.toNat_add]
    exact Nat.mod_eq_of_lt hlocates.2
  have hnot : ¬ toNs < r.header.startTimeNs := by
    rw [UInt64.not_lt]
    exact UInt64.le_trans hle (UInt64.le_of_lt hin'.2)
  have hnot' : ¬ r.header.startTimeNs + 3600 * 1000000000 < fromNs := by
    rw [UInt64.lt_iff_toNat_lt, hsum]
    have := UInt64.le_iff_toNat_le.mp hin'.1
    omega
  rw [summaryFileInWindow, hstart, decide_eq_false hnot, decide_eq_false hnot', Bool.and_false,
    Bool.and_false, Bool.not_false, Bool.and_self, Bool.or_true]

theorem eq_nil_of_perm_append {α : Type*} {A B C : List α} (h : A.Perm (A ++ (B ++ C))) :
    B = [] ∧ C = [] := by
  have hlen := h.length_eq
  rw [List.length_append, List.length_append] at hlen
  exact ⟨List.length_eq_zero_iff.mp (by omega), List.length_eq_zero_iff.mp (by omega)⟩

/-- The calls of a visit, and the records of the window that it leaves out: those of the listed
files out of the window, and those of the files behind the bound of the scan. -/
theorem visitSummaries_perm (lz : Lz4) (mktime : ArchiveDate → ℤ)
    (hhidden : currentHidden d = false) (hfrom : 0 < fromNs) (hto : 0 < toNs)
    (hfiles : ∀ f ∈ listedFiles mktime d, ∀ r, summaryReaderOpen d f.path = some r → r.InOrder lz) :
    let calls := (visitSummaries lz mktime d fromNs toNs recordCall []).state
    ((d.records lz).filter (SummaryRecord.inWindow fromNs toNs)).Perm (calls ++
      ((((listedFiles mktime d).take maxScanEntries).filter fun f =>
          !summaryFileInWindow f fromNs toNs).flatMap (d.windowRecords lz fromNs toNs) ++
        ((listedFiles mktime d).drop maxScanEntries).flatMap (d.windowRecords lz fromNs toNs))) := by
  intro calls
  set listed := listedFiles mktime d with hlisted
  set W := d.windowRecords lz fromNs toNs
  have hsort : (scanSummaryFiles mktime d maxScanEntries).Perm (listed.take maxScanEntries) :=
    List.perm_insertionSort _ _
  have hcalls : calls = ((scanSummaryFiles mktime d maxScanEntries).filter fun e =>
      summaryFileInWindow e fromNs toNs).flatMap W := by
    refine (foldl_visitFile (fun e he => ?_) hfrom hto _ rfl).trans (List.nil_append _)
    exact hfiles e (List.mem_of_mem_take (hsort.subset he))
  rw [filter_records hhidden, ← List.append_assoc, hcalls]
  conv_lhs =>
    rw [← List.take_append_drop maxScanEntries (listedFiles mktime d), List.flatMap_append]
  refine List.Perm.append_right _ ?_
  rw [← List.flatMap_append]
  refine List.Perm.flatMap_right _ ?_
  refine (List.filter_append_perm (fun e => summaryFileInWindow e fromNs toNs) _).symm.trans ?_
  exact List.Perm.append_right _ (hsort.symm.filter _)

/-- **Completeness of an approved window.** The visitor is called once for every record in the
window and for no other, exactly if every file with a record in the window is among the first 256 that the
directory lists and, should its header not say where it is, meets the window by its name. -/
theorem visitSummaries_complete_iff (lz : Lz4) (mktime : ArchiveDate → ℤ) (d : TraceDir)
    {fromNs toNs : UInt64} (hfrom : 0 < fromNs) (hwin : fromNs < toNs)
    (hfiles : ∀ e ∈ d.entries, isSummaryName e.name = true → ∀ r,
      summaryReaderOpen d e.name = some r → r.InOrder lz ∧ r.Placed lz)
    (happroved : summariesWindowCurrent mktime (some d) fromNs toNs = true) :
    (visitSummaries lz mktime d fromNs toNs recordCall []).state.Perm
        ((d.records lz).filter (SummaryRecord.inWindow fromNs toNs)) ↔
      ∀ i f, (listedFiles mktime d)[i]? = some f →
        (∃ rec ∈ d.fileRecords lz f.path, rec.inWindow fromNs toNs = true) →
        i < maxScanEntries ∧ ((∃ r, summaryReaderOpen d f.path = some r ∧ ¬ r.header.Locates) →
          summaryFileInWindow f fromNs toNs = true) := by
  have hto : 0 < toNs := UInt64.lt_trans hfrom hwin
  have hhidden : currentHidden d = false := by
    by_contra hne
    simp [summariesWindowCurrent, windowFiles, hne] at happroved
  have hlisted : ∀ f ∈ listedFiles mktime d, ∃ e ∈ d.entries, f.path = e.name ∧
      isSummaryName e.name = true ∧
      (0 < headerStart (d.fopen e.name) → f.startWallNs = headerStart (d.fopen e.name)) := by
    intro f hf
    obtain ⟨e, he, hentry⟩ := List.mem_filterMap.mp hf
    exact ⟨e, he, summaryEntry_eq_some hentry⟩
  have hperm := visitSummaries_perm lz mktime hhidden hfrom hto fun f hf r hr => by
    obtain ⟨e, he, hpath, hname, -⟩ := hlisted f hf
    exact (hfiles e he hname r (hpath ▸ hr)).1
  -- a file that the header places meets the window by its records
  have hmeets : ∀ f ∈ listedFiles mktime d, d.windowRecords lz fromNs toNs f ≠ [] →
      ((∃ r, summaryReaderOpen d f.path = some r ∧ ¬ r.header.Locates) →
        summaryFileInWindow f fromNs toNs = true) → summaryFileInWindow f fromNs toNs = true := by
    intro f hf hW hbad
    obtain ⟨e, he, hpath, hname, hstart⟩ := hlisted f hf
    obtain ⟨rec, hrec, hin⟩ := windowRecords_ne_nil_iff.mp hW
    rw [TraceDir.fileRecords] at hrec
    cases hopen : summaryReaderOpen d f.path with
    | none => simp [hopen] at hrec
    | some r =>
      rw [hopen, Option.map_some, Option.getD_some] at hrec
      by_cases hloc : r.header.Locates
      · have hopen' : summaryReaderOpen d e.name = some r := hpath ▸ hopen
        have hhead := headerStart_of_open hopen'
        refine inWindow_of_record hfrom hto (hfiles e he hname r hopen').2 hloc ?_ hrec hin
        rw [hstart (hhead ▸ hloc.1), hhead]
      · exact hbad ⟨r, hopen, hloc⟩
  constructor
  · intro h i f hf hrec
    have hW := windowRecords_ne_nil_iff.mpr hrec
    obtain ⟨hB, hC⟩ := eq_nil_of_perm_append (h.trans hperm)
    rw [List.flatMap_eq_nil_iff] at hB hC
    have hi : i < maxScanEntries := by
      by_contra hge
      refine hW (hC f (List.mem_of_getElem? (i := i - maxScanEntries) ?_))
      rw [List.getElem?_drop, Nat.add_sub_of_le (Nat.not_lt.mp hge), hf]
    refine ⟨hi, fun _ => ?_⟩
    by_contra hout
    refine hW (hB f (List.mem_filter.mpr ⟨List.mem_of_getElem? (i := i) ?_, by simpa using hout⟩))
    rw [List.getElem?_take_of_lt hi, hf]
  · intro h
    refine List.Perm.symm (hperm.trans ?_)
    have hB : (((listedFiles mktime d).take maxScanEntries).filter fun f =>
        !summaryFileInWindow f fromNs toNs).flatMap (d.windowRecords lz fromNs toNs) = [] := by
      rw [List.flatMap_eq_nil_iff]
      intro f hf
      obtain ⟨hmem, hout⟩ := List.mem_filter.mp hf
      by_contra hW
      obtain ⟨i, hi⟩ := List.mem_iff_getElem?.mp (List.mem_of_mem_take hmem)
      have hmeet := hmeets f (List.mem_of_mem_take hmem) hW
        (h i f hi (windowRecords_ne_nil_iff.mp hW)).2
      simp [hmeet] at hout
    have hC : ((listedFiles mktime d).drop maxScanEntries).flatMap
        (d.windowRecords lz fromNs toNs) = [] := by
      rw [List.flatMap_eq_nil_iff]
      intro f hf
      by_contra hW
      obtain ⟨i, hi⟩ := List.mem_iff_getElem?.mp hf
      rw [List.getElem?_drop] at hi
      have := (h _ f hi (windowRecords_ne_nil_iff.mp hW)).1
      omega
    rw [hB, hC, List.nil_append, List.append_nil]

/-! ### Hourly files -/

/-- The payload of a record of a second in which nothing happened. -/
def idlePayload : Bytes := List.replicate (classOrder.length * 8 + 52) 0

/-- The payload as a literal run. -/
def idleCompressed : Bytes := lz4LiteralPrefix idlePayload.length ++ idlePayload

/-- The header of a file that was opened at a time. -/
def hourHeader (start : UInt64) : FileHeader where
  magic := summaryMagic
  version := UInt16.ofNat summaryVersion
  flags := flagLz4
  pgVersion := 0
  startTimeNs := start
  clockOffsetNs := 0

/-- The header of the block of an idle second. -/
def idleBlock (wallNs : UInt64) : SummaryBlockHeader :=
  ⟨wallNs, ⟨0, 0, 0⟩, UInt32.ofNat idleCompressed.length, UInt32.ofNat idlePayload.length⟩

/-- A file with the record of the second in which it was opened. -/
def hourFile (start : UInt64) : Bytes :=
  (hourHeader start).bytes ++ ((idleBlock start).bytes ++ idleCompressed)

/-- The file once it is open. -/
def hourReader (start : UInt64) : SummaryReader := ⟨hourFile start, hourHeader start, [⟨start, 28⟩]⟩

theorem length_idlePayload : idlePayload.length = 140 := List.length_replicate

theorem length_idleCompressed : idleCompressed.length = 142 := by decide +kernel

theorem idleBlock_sizes (wallNs : UInt64) : (idleBlock wallNs).compressedSize.toNat = 142 ∧
    (idleBlock wallNs).uncompressedSize.toNat = 140 := by
  rw [idleBlock, length_idleCompressed, length_idlePayload]
  exact ⟨rfl, rfl⟩

theorem drop_hourFile (start : UInt64) :
    (hourFile start).drop 28 = (idleBlock start).bytes ++ idleCompressed :=
  List.drop_left' (length_fileHeader_bytes _)

theorem length_hourFile (start : UInt64) : (hourFile start).length = 194 := by
  rw [hourFile, List.length_append, List.length_append, length_fileHeader_bytes,
    length_summaryBlockHeader_bytes, length_idleCompressed]

theorem summaryFooterIndex_hourFile (start : UInt64) :
    summaryFooterIndex (hourFile start) = none := by
  have hlast : (hourFile start).drop ((hourFile start).length - 4) = [0, 0, 0, 0] := by
    have hfront : ((hourHeader start).bytes ++ (idleBlock start).bytes).length = 52 := by
      rw [List.length_append, length_fileHeader_bytes, length_summaryBlockHeader_bytes]
    rw [length_hourFile, hourFile, ← List.append_assoc, List.drop_append, hfront,
      List.drop_of_length_le (by rw [hfront]; decide), List.nil_append]
    decide +kernel
  rw [summaryFooterIndex, hlast]
  exact if_neg fun h => absurd h.2.1 (by decide)

theorem sequentialIndex_hourFile (start : UInt64) :
    sequentialIndex (hourFile start) = [⟨start, 28⟩] := by
  have hend : (hourFile start).drop 194 = [] :=
    List.drop_eq_nil_of_le (length_hourFile start).le
  obtain ⟨hsize, hsize'⟩ := idleBlock_sizes start
  rw [sequentialIndex, length_hourFile, scanSummaryBlocks, drop_hourFile,
    inverts_summaryBlockHeader _ trivial]
  dsimp only
  rw [hsize, hsize', if_pos (by decide), scanSummaryBlocks, hend]
  rfl

theorem openSummary_hourFile (start : UInt64) :
    openSummary (hourFile start) none = some (hourReader start) := by
  have hread : readFileHeader (hourFile start) =
      some (hourHeader start, (idleBlock start).bytes ++ idleCompressed) :=
    inverts_fileHeader _ trivial _
  have hindex : summaryBlockIndex (hourFile start) none = [⟨start, 28⟩] := by
    rw [summaryBlockIndex, summaryFooterIndex_hourFile, sequentialIndex_hourFile]
    rfl
  rw [openSummary, hread, Option.bind_eq_bind, Option.bind_some, hindex]
  exact if_pos ⟨rfl, rfl⟩

theorem decompress_idleCompressed {buf : ℕ} (h : decodeBufSize ≤ buf) :
    literalLz4.decompress idleCompressed buf = some idlePayload := by
  have hread : readLz4LiteralPrefix idleCompressed = some (idlePayload.length, idlePayload) :=
    readLz4LiteralPrefix_append _ _
  rw [literalLz4]
  dsimp only
  rw [hread, Option.bind_eq_bind, Option.bind_some]
  refine if_pos ⟨rfl, ?_⟩
  rw [length_idlePayload]
  exact le_trans (by decide) h

theorem idlePayload_decodes : (summaryDeserialize summaryVersion
    (EntryCounts.accum ⟨0, 0, 0⟩) idlePayload).isSome = true := by
  decide +kernel

theorem summaryDecodeBlock_hourReader (start : UInt64) : ∃ acc, ∀ buf, decodeBufSize ≤ buf →
    (summaryDecodeBlock literalLz4 (hourReader start) buf 0).2 = some ⟨start, acc⟩ := by
  obtain ⟨acc, hacc⟩ := Option.isSome_iff_exists.mp idlePayload_decodes
  refine ⟨acc, fun buf hbuf => ?_⟩
  have hbh : readSummaryBlockHeader ((hourReader start).file.drop (28 : UInt64).toNat) =
      some (idleBlock start, idleCompressed) := by
    have hdrop : (hourReader start).file.drop (28 : UInt64).toNat =
        (idleBlock start).bytes ++ idleCompressed := drop_hourFile start
    rw [hdrop]
    exact inverts_summaryBlockHeader _ trivial _
  have hchunk : readChunk (idleBlock start).compressedSize.toNat idleCompressed =
      some (idleCompressed, []) := by
    rw [(idleBlock_sizes start).1, ← length_idleCompressed, readChunk, if_pos le_rfl,
      List.take_length, List.drop_length]
  have hgrow : ¬ buf < (idleBlock start).uncompressedSize.toNat := by
    rw [(idleBlock_sizes start).2, Nat.not_lt]
    exact le_trans (by decide) hbuf
  have hget : (hourReader start).blockIndex[0]? = some ⟨start, 28⟩ := rfl
  rw [summaryDecodeBlock, hget]
  dsimp only
  rw [hbh]
  dsimp only
  rw [hchunk]
  dsimp only
  rw [if_neg hgrow, decompress_idleCompressed hbuf, Option.bind_eq_bind, Option.bind_some]
  exact congrArg (Option.bind · _) hacc

theorem summaryDecodeBlock_hourReader_succ (start : UInt64) (buf b : ℕ) :
    (summaryDecodeBlock literalLz4 (hourReader start) buf (b + 1)).2 = none := rfl

theorem records_hourReader (start : UInt64) :
    ∃ acc, (hourReader start).records literalLz4 = [⟨start, acc⟩] := by
  obtain ⟨acc, hacc⟩ := summaryDecodeBlock_hourReader start
  refine ⟨acc, ?_⟩
  have hrange : List.range (hourReader start).blockIndex.length = [0] := rfl
  rw [SummaryReader.records, hrange, List.filterMap_cons, hacc _ le_rfl, List.filterMap_nil]

theorem hourReader_inOrder (start : UInt64) : (hourReader start).InOrder literalLz4 := by
  obtain ⟨acc, hacc⟩ := summaryDecodeBlock_hourReader start
  refine ⟨List.pairwise_singleton _ _, fun b e rec he hrec => ?_, fun b buf hbuf => ?_⟩
  · cases b with
    | zero =>
      rw [hacc _ le_rfl] at hrec
      rw [← Option.some_inj.mp hrec, ← Option.some_inj.mp he]
    | succ b => cases he
  · cases b with
    | zero => rw [hacc _ hbuf, hacc _ le_rfl]
    | succ b => rw [summaryDecodeBlock_hourReader_succ, summaryDecodeBlock_hourReader_succ]

theorem hourReader_placed (start : UInt64) : (hourReader start).Placed literalLz4 := by
  obtain ⟨acc, hacc⟩ := records_hourReader start
  intro rec hrec
  rw [hacc, List.mem_singleton] at hrec
  rw [hrec]
  exact ⟨UInt64.le_refl _, Nat.lt_add_of_pos_right (by decide)⟩

/-- Two digits. -/
def twoDigits (n : ℕ) : List Char := [Char.ofNat (48 + n / 10), Char.ofNat (48 + n % 10)]

/-- The archives of January 2026, by hour. -/
def hourName (i : ℕ) : List Char :=
  ['2', '0', '2', '6', '-', '0', '1', '-'] ++ twoDigits (1 + i / 24) ++ ['_'] ++
    twoDigits (i % 24) ++ archiveSuffix

/-- The start of an hour of January 2026. -/
def hourStart (i : ℕ) : UInt64 := UInt64.ofNat (1767225600000000000 + i * hourNs)

theorem length_hourName (i : ℕ) : (hourName i).length = 25 := rfl

theorem archiveDate_hourName : ∀ i < 257,
    archiveDate (hourName i) = some ⟨2026, 1, 1 + (i / 24 : ℕ), (i % 24 : ℕ)⟩ := by
  decide +kernel

/-- A directory of hourly archives, listed by hour. -/
def hourDir (n : ℕ) (h : n ≤ 257) : TraceDir where
  entries := (List.range n).map fun i => ⟨hourName i, some (hourFile (hourStart i))⟩
  nodup := by
    rw [List.map_map, List.nodup_map_iff_inj_on List.nodup_range]
    intro i hi j hj hij
    have hi' := archiveDate_hourName i (lt_of_lt_of_le (List.mem_range.mp hi) h)
    have hj' := archiveDate_hourName j (lt_of_lt_of_le (List.mem_range.mp hj) h)
    rw [show hourName i = hourName j from hij, hj', Option.some_inj, ArchiveDate.mk.injEq] at hi'
    omega

/-- `mktime` in a time zone without an offset. -/
def mktimeUtc (date : ArchiveDate) : ℤ :=
  let y := if date.month ≤ 2 then date.year - 1 else date.year
  let yoe := y % 400
  let doy := (153 * (date.month + if 2 < date.month then -3 else 9) + 2) / 5 + date.day - 1
  let doe := yoe * 365 + yoe / 4 - yoe / 100 + doy
  (y / 400 * 146097 + doe - 719468) * 86400 + date.hour * 3600

theorem fopen_of_mem {e : DirEntry} (he : e ∈ d.entries) : d.fopen e.name = e.content := by
  have hfind : d.entries.find? (fun x => x.name = e.name) = some e := by
    obtain ⟨l, l', hl⟩ := List.append_of_mem he
    have hnodup := d.nodup
    rw [hl, List.map_append, List.map_cons, List.nodup_append] at hnodup
    rw [hl, List.find?_append, List.find?_eq_none.mpr, Option.none_or,
      List.find?_cons_of_pos (by simp)]
    intro x hx
    simpa using hnodup.2.2 x.name (List.mem_map_of_mem hx) e.name List.mem_cons_self
  rw [TraceDir.fopen, hfind, Option.bind_some]

section HourDir

variable {n : ℕ} (hn : n ≤ 257)

theorem fopen_hourDir {i : ℕ} (hi : i < n) :
    (hourDir n hn).fopen (hourName i) = some (hourFile (hourStart i)) :=
  fopen_of_mem (e := ⟨hourName i, _⟩) (List.mem_map.mpr ⟨i, List.mem_range.mpr hi, rfl⟩)

theorem fopen_hourDir_of_length {name : List Char} (h : name.length ≠ 25) :
    (hourDir n hn).fopen name = none := by
  rw [TraceDir.fopen, List.find?_eq_none.mpr, Option.bind_none]
  intro e he
  obtain ⟨i, -, rfl⟩ := List.mem_map.mp he
  have hne : hourName i ≠ name := fun heq => h (heq ▸ length_hourName i)
  simpa using hne

theorem summaryReaderOpen_hourDir {i : ℕ} (hi : i < n) :
    summaryReaderOpen (hourDir n hn) (hourName i) = some (hourReader (hourStart i)) := by
  rw [summaryReaderOpen, fopen_hourDir hn hi, Option.bind_some, fopen_hourDir_of_length hn]
  · exact openSummary_hourFile _
  · rw [List.length_append, length_hourName]
    decide

theorem headerStart_hourFile (start : UInt64) : headerStart (some (hourFile start)) = start := by
  have hread : readFileHeader (hourFile start) = some (hourHeader start, _) :=
    inverts_fileHeader _ trivial _
  rw [headerStart, Option.bind_some, hread]
  exact if_pos rfl

theorem toNat_hourStart {i : ℕ} (hi : i < 257) :
    (hourStart i).toNat = 1767225600000000000 + i * hourNs := by
  have hlt : 1767225600000000000 + i * hourNs < UInt64.size := by
    rw [show UInt64.size = 18446744073709551616 from rfl, show hourNs = 3600000000000 from rfl]
    omega
  exact UInt64.toNat_ofNat_of_lt' hlt

theorem hourStart_pos {i : ℕ} (hi : i < 257) : 0 < hourStart i := by
  rw [UInt64.lt_iff_toNat_lt, toNat_hourStart hi]
  exact Nat.lt_add_right _ (by decide)

theorem listedFiles_hourDir : listedFiles mktime (hourDir n hn) =
    (List.range n).map fun i => ⟨hourName i, hourStart i⟩ := by
  have hentry : ∀ i ∈ List.range n,
      summaryEntry mktime (hourDir n hn) ⟨hourName i, some (hourFile (hourStart i))⟩ =
        some ⟨hourName i, hourStart i⟩ := by
    intro i hi
    have hi := List.mem_range.mp hi
    rw [summaryEntry, fopen_hourDir hn hi, headerStart_hourFile,
      archiveDate_hourName i (lt_of_lt_of_le hi hn)]
    dsimp only
    rw [if_pos (hourStart_pos (lt_of_lt_of_le hi hn))]
  rw [listedFiles, ← List.filterMap_eq_map]
  refine Eq.trans ?_ (List.filterMap_congr hentry)
  exact List.filterMap_map

theorem hourDir_files : ∀ e ∈ (hourDir n hn).entries, isSummaryName e.name = true → ∀ r,
    summaryReaderOpen (hourDir n hn) e.name = some r →
      r.InOrder literalLz4 ∧ r.Placed literalLz4 := by
  intro e he _ r hr
  obtain ⟨i, hi, rfl⟩ := List.mem_map.mp he
  rw [summaryReaderOpen_hourDir hn (List.mem_range.mp hi)] at hr
  rw [← Option.some_inj.mp hr]
  exact ⟨hourReader_inOrder _, hourReader_placed _⟩

/-- A window is approved if one of the files that are scanned meets it. -/
theorem hourDir_approved {i : ℕ} (hi : i < n) (hscan : i < maxScanEntries)
    (hin : summaryFileInWindow ⟨hourName i, hourStart i⟩ fromNs toNs = true) :
    summariesWindowCurrent mktime (some (hourDir n hn)) fromNs toNs = true := by
  have hscanned : ∀ f, f ∈ scanSummaryFiles mktime (hourDir n hn) maxScanEntries ↔
      f ∈ (listedFiles mktime (hourDir n hn)).take maxScanEntries :=
    fun f => (List.perm_insertionSort _ _).mem_iff
  have hhidden : currentHidden (hourDir n hn) = false := by
    rw [currentHidden, fopen_hourDir_of_length hn (by decide)]
    rfl
  have hmem : (⟨hourName i, hourStart i⟩ : SummaryFileEntry) ∈
      scanSummaryFiles mktime (hourDir n hn) maxScanEntries := by
    rw [hscanned, listedFiles_hourDir, ← List.map_take, List.take_range, List.mem_map]
    exact ⟨i, List.mem_range.mpr (lt_min hscan hi), rfl⟩
  have husable : ∀ f ∈ scanSummaryFiles mktime (hourDir n hn) maxScanEntries,
      headerCurrent ((hourDir n hn).fopen f.path) = true := by
    intro f hf
    rw [hscanned, listedFiles_hourDir] at hf
    obtain ⟨j, hj, rfl⟩ := List.mem_map.mp (List.mem_of_mem_take hf)
    have hread : readFileHeader (hourFile (hourStart j)) = some (hourHeader (hourStart j), _) :=
      inverts_fileHeader _ trivial _
    rw [fopen_hourDir hn (List.mem_range.mp hj), headerCurrent, Option.bind_some, hread]
    rfl
  set considered := (scanSummaryFiles mktime (hourDir n hn) maxScanEntries).filter
    fun e => summaryFileInWindow e fromNs toNs with hcons
  have hpos : considered.length ≠ 0 := by
    rw [ne_eq, List.length_eq_zero_iff]
    exact List.ne_nil_of_mem (List.mem_filter.mpr ⟨hmem, hin⟩)
  have hunusable :
      (considered.filter fun e => !headerCurrent ((hourDir n hn).fopen e.path)) = [] := by
    rw [List.filter_eq_nil_iff]
    intro f hf
    rw [husable f (List.mem_of_mem_filter hf)]
    exact Bool.false_ne_true
  simp only [summariesWindowCurrent, windowFiles, hhidden, ← hcons, hunusable]
  simpa using hpos

end HourDir

/-- One archive of one record, which is in the window. -/
theorem visitSummaries_complete_oneHour :
    (visitSummaries literalLz4 mktimeUtc (hourDir 1 (by decide)) (hourStart 0)
        (hourStart 0 + 1000000000) recordCall []).state.Perm
      (((hourDir 1 (by decide)).records literalLz4).filter
        (SummaryRecord.inWindow (hourStart 0) (hourStart 0 + 1000000000))) := by
  refine (visitSummaries_complete_iff literalLz4 mktimeUtc (hourDir 1 (by decide)) (by decide)
    (by decide) (hourDir_files _) (hourDir_approved _ Nat.one_pos (by decide) (by decide))).mpr ?_
  intro i f hf _
  rw [listedFiles_hourDir] at hf
  obtain ⟨hi, rfl⟩ := List.getElem?_eq_some_iff.mp hf
  have hi : i < 1 := by simpa using hi
  obtain rfl : i = 0 := by omega
  refine ⟨by decide, fun _ => ?_⟩
  change summaryFileInWindow ⟨hourName 0, hourStart 0⟩ _ _ = true
  decide

/-- The archives of 257 hours, and a window on the last one: the file before it ends where the
window starts, so that the preflight approves, and the record is not visited. -/
theorem visitSummaries_misses_hour :
    0 < hourStart 256 ∧ hourStart 256 < hourStart 256 + 1000000000 ∧
    (∀ e ∈ (hourDir 257 le_rfl).entries, isSummaryName e.name = true → ∀ r,
      summaryReaderOpen (hourDir 257 le_rfl) e.name = some r →
        r.InOrder literalLz4 ∧ r.Placed literalLz4) ∧
    summariesWindowCurrent mktimeUtc (some (hourDir 257 le_rfl)) (hourStart 256)
      (hourStart 256 + 1000000000) = true ∧
    ¬ (visitSummaries literalLz4 mktimeUtc (hourDir 257 le_rfl) (hourStart 256)
        (hourStart 256 + 1000000000) recordCall []).state.Perm
      (((hourDir 257 le_rfl).records literalLz4).filter
        (SummaryRecord.inWindow (hourStart 256) (hourStart 256 + 1000000000))) := by
  have hfrom : 0 < hourStart 256 := by decide
  have hto : 0 < hourStart 256 + 1000000000 := by decide
  refine ⟨hfrom, by decide, hourDir_files _, ?_, fun hperm => ?_⟩
  · exact hourDir_approved le_rfl (i := 255) (by decide) (by decide) (by decide)
  · have hhidden : currentHidden (hourDir 257 le_rfl) = false := by
      rw [currentHidden, fopen_hourDir_of_length le_rfl (by decide)]
      rfl
    have hsplit := visitSummaries_perm literalLz4 mktimeUtc hhidden hfrom hto fun f hf r hr => by
      rw [listedFiles_hourDir] at hf
      obtain ⟨i, hi, rfl⟩ := List.mem_map.mp hf
      rw [summaryReaderOpen_hourDir le_rfl (List.mem_range.mp hi)] at hr
      exact Option.some_inj.mp hr ▸ hourReader_inOrder _
    obtain ⟨-, hmissed⟩ := eq_nil_of_perm_append (hperm.trans hsplit)
    have hdrop : (listedFiles mktimeUtc (hourDir 257 le_rfl)).drop maxScanEntries =
        [⟨hourName 256, hourStart 256⟩] := by
      rw [listedFiles_hourDir, ← List.map_drop]
      rfl
    obtain ⟨acc, hacc⟩ := records_hourReader (hourStart 256)
    rw [hdrop, List.flatMap_cons, List.flatMap_nil, List.append_nil, TraceDir.windowRecords,
      TraceDir.fileRecords, summaryReaderOpen_hourDir le_rfl (by decide), Option.map_some,
      Option.getD_some, hacc] at hmissed
    revert hmissed
    rw [List.filter_cons_of_pos]
    · exact List.cons_ne_nil _ _
    · rfl

end PgWaitTracer
