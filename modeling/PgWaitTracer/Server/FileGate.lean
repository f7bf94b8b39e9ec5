import PgWaitTracer.Server.FileScan

/-!
# Skipping a whole file

Before `server_load_events_fi_mode` (`src/server.c`) opens a file it compares the window, in the clock
of the file, with the extent that the header scan has found. A file that lies outside is skipped. If
it begins past the end of the scan then the load says that its right edge may be short.

The scan takes the beginning of the file from the first index entry and never lowers it. Blocks are
in commit order, so that a later block can hold earlier records, and a file that has them is skipped
for windows that contain them. The same goes for blocks whose header could not be read when they
were new.

## Main results

* `fileGate_sound_iff` : skipping is sound for every window exactly when the scan sees the file.
-/

namespace PgWaitTracer

/-! ### The gate -/

/-- A request, and the offset from the file's clock to the wall clock. -/
structure FileWindow where
  fromWallNs : ℤ
  toWallNs : ℤ
  canonOffset : ℤ
  rightBounded : Bool
  pid : UInt32
  markersOnly : Bool
  straddle : StraddleScan
  ordered : fromWallNs ≤ toWallNs
  fits : toWallNs - canonOffset ≤ clockMax

/-- `from_m`: the left edge in the clock of the file. -/
def FileWindow.fromM (w : FileWindow) : ℕ := (w.fromWallNs - w.canonOffset).toNat

/-- `to_m`: the right edge in the clock of the file. -/
def FileWindow.toM (w : FileWindow) : ℕ := (w.toWallNs - w.canonOffset).toNat

/-- `sample_to_m`: the right edge for samples, which are stamped at their end. -/
def FileWindow.sampleTo (w : FileWindow) (fc : ScanCov) : ℕ :=
  if !w.markersOnly && fc.maxSamplePeriodNs ≠ 0 then
    if clockMax - w.toM < fc.maxSamplePeriodNs then clockMax else w.toM + fc.maxSamplePeriodNs
  else w.toM

/-- The arguments of the load of the file. -/
def FileWindow.range (w : FileWindow) (fc : ScanCov) (h : ¬w.toWallNs - w.canonOffset ≤ 0) :
    LoadRange where
  fromM := w.fromM
  toM := w.toM
  sampleTo := w.sampleTo fc
  rightBounded := w.rightBounded
  pid := w.pid
  markersOnly := w.markersOnly
  straddle := w.straddle
  toM_pos := by
    rw [FileWindow.toM]
    omega
  toM_le := by
    have := w.fits
    rw [FileWindow.toM]
    omega

/-- `straddle_file_unseen`. -/
def straddleFileUnseen (enabled : Bool) (monoFirst monoLast fromM scanTo : ℕ) : Bool :=
  if !enabled then false
  else if monoLast < fromM then false
  else scanTo < monoFirst

/-- What the gate does with a file: skips it, with the flag that the skip sets, or loads it. -/
inductive FileGate
  | skip (truncated : Bool)
  | load (rg : LoadRange)

/-- The gate of `server_load_events_fi_mode`. -/
def fileGate (fc : ScanCov) (w : FileWindow) : FileGate :=
  if !fc.valid then .skip false
  else if h : w.toWallNs - w.canonOffset ≤ 0 then .skip false
  else
    let rg := w.range fc h
    if rg.scanTo < fc.monoFirst || fc.monoLast < rg.fromM then
      .skip (straddleFileUnseen w.straddle.enabled fc.monoFirst fc.monoLast rg.fromM rg.scanTo)
    else .load rg

/-! ### Soundness -/

/-- A skipped file has nothing for the window: no record in it, no sample that reaches into it, and
no record across its right edge that a bounded load would not hear of. -/
structure SkipSound (blocks : List ReaderBlock) (w : FileWindow) (truncated : Bool) : Prop where
  noRecord : ∀ r ∈ fileRecords blocks, ¬(w.fromM ≤ r.2.ts ∧ r.2.ts ≤ w.toM)
  noSample : ∀ r ∈ fileRecords blocks, r.1.isSample = true →
    ¬max (r.2.ts - r.1.samplePeriodNs.toNat) w.fromM < min r.2.ts w.toM
  straddlers : w.straddle.enabled = true → ∀ r ∈ fileRecords blocks, r.1.isSample = false →
    r.2.ts - r.2.dur < w.toM → w.toM < r.2.ts → truncated = true

/-- A window that ends at `x` reaches the first index entry, with the lookahead for samples that the
headers read so far call for. -/
def Reaches (blocks : List ReaderBlock) (read : ℕ → Bool) (markersOnly : Bool) (x : ℕ) : Prop :=
  indexFirst blocks ≤ x ∨ (markersOnly = false ∧ HeaderRead blocks read 0 blocks.length fun info =>
    info.isSample = true ∧ indexFirst blocks ≤ x + info.samplePeriodNs.toNat)

/-- The scan sees the file: no record comes before what the first index entry reaches, none after
the last header that was read, and none at the origin of the clock. -/
structure ScanSees (blocks : List ReaderBlock) (read : ℕ → Bool) (markersOnly : Bool) : Prop where
  positive : ∀ r ∈ fileRecords blocks, 0 < r.2.ts
  first : ∀ r ∈ fileRecords blocks, Reaches blocks read markersOnly r.2.ts
  last : ∀ r ∈ fileRecords blocks, r.2.ts ≤ indexFirst blocks ∨
    HeaderRead blocks read 0 blocks.length fun info => r.2.ts ≤ info.lastNs
  samples : ∀ r ∈ fileRecords blocks, r.1.isSample = true → r.1.samplePeriodNs ≠ 0 →
    Reaches blocks read markersOnly (r.2.ts - r.1.samplePeriodNs.toNat + 1)

theorem indexFirst_le_clockMax (blocks : List ReaderBlock) : indexFirst blocks ≤ clockMax := by
  cases blocks with
  | nil => exact Nat.zero_le _
  | cons b rest => exact b.indexTs_le

section

variable {start clock : UInt64} {blocks : List ReaderBlock} {read : ℕ → Bool} {fc : ScanCov}

variable {markersOnly : Bool}

theorem reaches_iff (h : fc.Scanned start clock blocks read blocks.length) {x : ℕ} :
    Reaches blocks read markersOnly x ↔
      indexFirst blocks ≤ x + if markersOnly then 0 else fc.maxSamplePeriodNs := by
  cases markersOnly with
  | true => simp [Reaches]
  | false =>
    have hread := h.le_maxSamplePeriodNs (indexFirst blocks - x)
    simp only [Nat.sub_le_iff_le_add', Nat.sub_eq_zero_iff_le] at hread
    simp only [Reaches, true_and, Bool.false_eq_true, if_false]
    rw [hread]

theorem le_scanTo_of_reaches (h : fc.Scanned start clock blocks read blocks.length)
    {w : FileWindow} (hw : ¬w.toWallNs - w.canonOffset ≤ 0) {x : ℕ} (hx : x ≤ w.toM)
    (hreach : Reaches blocks read w.markersOnly x) :
    indexFirst blocks ≤ (w.range fc hw).scanTo := by
  have hle := (reaches_iff h).1 hreach
  have hmax := indexFirst_le_clockMax blocks
  have hto := (toM_le_straddleTo (w.range fc hw)).trans (straddleTo_le_scanTo _)
  have hsample := sampleTo_le_scanTo (w.range fc hw)
  change w.toM ≤ _ at hto
  change w.sampleTo fc ≤ _ at hsample
  rw [FileWindow.sampleTo] at hsample
  cases hmo : w.markersOnly with
  | true =>
    rw [hmo, if_pos rfl] at hle
    omega
  | false =>
    rw [hmo] at hle hsample
    simp only [Bool.false_eq_true, if_false, Bool.not_false, Bool.true_and, ne_eq,
      decide_not, Bool.not_eq_eq_eq_not, Bool.not_true, decide_eq_false_iff_not] at hle hsample
    split_ifs at hsample <;> omega

/-- A skip of a file that the scan sees loses nothing. -/
theorem skipSound_of_scanSees (hne : blocks ≠ [])
    (h : fc.Scanned start clock blocks read blocks.length) {w : FileWindow}
    (hsees : ScanSees blocks read w.markersOnly) {truncated : Bool}
    (hskip : fileGate fc w = .skip truncated) : SkipSound blocks w truncated := by
  have hpos : 0 < blocks.length := List.length_pos_iff.2 hne
  have hlast : ∀ r ∈ fileRecords blocks, r.2.ts ≤ fc.monoLast := fun r hr =>
    (h.le_monoLast hpos r.2.ts).2 (hsees.last r hr)
  have hordered : w.fromM ≤ w.toM := Int.toNat_le_toNat (by have := w.ordered; omega)
  rw [fileGate, h.valid hpos] at hskip
  simp only [Bool.not_true, Bool.false_eq_true, if_false] at hskip
  split_ifs at hskip with hw hout
  · -- The window ends before the clock of the file starts.
    have hzero : w.toM = 0 := by
      rw [FileWindow.toM]
      omega
    refine ⟨fun r hr hin => ?_, fun r hr _ hin => ?_, fun _ r hr _ hstart => ?_⟩
    · have := hsees.positive r hr
      omega
    · omega
    · omega
  · have hfirst := h.monoFirst hpos
    have hfrom : (w.range fc hw).fromM = w.fromM := rfl
    rw [hfirst, hfrom] at hout
    simp only [Bool.or_eq_true, decide_eq_true_eq] at hout
    have hmiss : ∀ x, x ≤ w.toM → Reaches blocks read w.markersOnly x → fc.monoLast < w.fromM := by
      intro x hx hreach
      have := le_scanTo_of_reaches h hw hx hreach
      omega
    refine ⟨fun r hr hin => ?_, fun r hr hs hin => ?_, fun hen r hr hs hstart hend => ?_⟩
    · have := hmiss r.2.ts hin.2 (hsees.first r hr)
      have := hlast r hr
      omega
    · have hperiod : r.1.samplePeriodNs ≠ 0 := by
        intro hzero
        rw [hzero] at hin
        simp only [UInt64.toNat_zero, Nat.sub_zero] at hin
        omega
      have := hmiss _ (by omega) (hsees.samples r hr hs hperiod)
      have := hlast r hr
      omega
    · have hle := hlast r hr
      simp only [FileGate.skip.injEq] at hskip
      rw [← hskip, straddleFileUnseen, hen, hfirst, hfrom]
      have hge : ¬fc.monoLast < w.fromM := by omega
      simp only [Bool.not_true, Bool.false_eq_true, if_false, hge, decide_eq_true_eq]
      omega

/-- A window without a bounded right edge, on the clock of the file. -/
def windowAt (markersOnly : Bool) (a b : ℕ) (hab : a ≤ b) (hb : b ≤ clockMax) : FileWindow where
  fromWallNs := a
  toWallNs := b
  canonOffset := 0
  rightBounded := false
  pid := 0
  markersOnly := markersOnly
  straddle := ⟨false, 0, 0⟩
  ordered := by exact_mod_cast hab
  fits := by
    rw [sub_zero]
    exact_mod_cast hb

theorem scanTo_windowAt {a b : ℕ} {hab : a ≤ b} {hb : b ≤ clockMax}
    (hw : ¬(windowAt markersOnly a b hab hb).toWallNs - (windowAt markersOnly a b hab hb).canonOffset
      ≤ 0) :
    ((windowAt markersOnly a b hab hb).range fc hw).scanTo ≤
      b + if markersOnly then 0 else fc.maxSamplePeriodNs := by
  have hto : (windowAt markersOnly a b hab hb).toM = b := by simp [windowAt, FileWindow.toM]
  have hstraddle : ((windowAt markersOnly a b hab hb).range fc hw).straddleTo = b := hto
  have hsample : ((windowAt markersOnly a b hab hb).range fc hw).sampleTo ≤
      b + if markersOnly then 0 else fc.maxSamplePeriodNs := by
    change (windowAt markersOnly a b hab hb).sampleTo fc ≤ _
    rw [FileWindow.sampleTo, hto]
    cases markersOnly with
    | true => simp [windowAt]
    | false =>
      simp only [windowAt, Bool.not_false, Bool.true_and, Bool.false_eq_true, if_false]
      split_ifs <;> omega
  rw [LoadRange.scanTo, hstraddle]
  by_cases hlt : b < ((windowAt markersOnly a b hab hb).range fc hw).sampleTo
  · rw [if_pos hlt]
    exact hsample
  · rw [if_neg hlt]
    exact Nat.le_add_right _ _

/-- A window that does not reach the first index entry, or starts after the last header that was
read, skips the file. -/
theorem fileGate_windowAt (hne : blocks ≠ []) (h : fc.Scanned start clock blocks read blocks.length)
    {a b : ℕ} (hab : a ≤ b) (hb : b ≤ clockMax) (hpos : 0 < b)
    (hout : ¬Reaches blocks read markersOnly b ∨ fc.monoLast < a) :
    ∃ truncated, fileGate fc (windowAt markersOnly a b hab hb) = .skip truncated := by
  have hlen : 0 < blocks.length := List.length_pos_iff.2 hne
  have hw : ¬(windowAt markersOnly a b hab hb).toWallNs -
      (windowAt markersOnly a b hab hb).canonOffset ≤ 0 := by
    simp only [windowAt]
    omega
  have hcond : (((windowAt markersOnly a b hab hb).range fc hw).scanTo < fc.monoFirst ||
      fc.monoLast < ((windowAt markersOnly a b hab hb).range fc hw).fromM) = true := by
    rw [h.monoFirst hlen, Bool.or_eq_true, decide_eq_true_eq, decide_eq_true_eq]
    rcases hout with hreach | hlast
    · left
      rw [reaches_iff h] at hreach
      exact (scanTo_windowAt hw).trans_lt (Nat.not_le.1 hreach)
    · right
      simpa [FileWindow.range, FileWindow.fromM, windowAt] using hlast
  rw [fileGate, h.valid hlen, dif_neg hw]
  simp only [Bool.not_true, Bool.false_eq_true, if_false]
  rw [if_pos hcond]
  exact ⟨_, rfl⟩

/-- Where every skip is sound the scan sees the file. -/
theorem scanSees_of_skipSound (hne : blocks ≠ [])
    (h : fc.Scanned start clock blocks read blocks.length)
    (hsound : ∀ w : FileWindow, w.markersOnly = markersOnly → ∀ truncated,
      fileGate fc w = .skip truncated → SkipSound blocks w truncated) :
    ScanSees blocks read markersOnly := by
  have hlen : 0 < blocks.length := List.length_pos_iff.2 hne
  have hfits : ∀ r : BlockMeta × TraceEvent, r.2.ts ≤ clockMax := fun r =>
    Nat.le_of_lt_succ r.2.timestampNs.toNat_lt
  have hfrom : ∀ {a b : ℕ} {hab : a ≤ b} {hb : b ≤ clockMax},
      (windowAt markersOnly a b hab hb).fromM = a := by
    intro a b hab hb
    simp [windowAt, FileWindow.fromM]
  have hto : ∀ {a b : ℕ} {hab : a ≤ b} {hb : b ≤ clockMax},
      (windowAt markersOnly a b hab hb).toM = b := by
    intro a b hab hb
    simp [windowAt, FileWindow.toM]
  -- A skip of the window that holds just the time of the record would lose it.
  have hkeep : ∀ r ∈ fileRecords blocks, 0 < r.2.ts →
      Reaches blocks read markersOnly r.2.ts ∧ r.2.ts ≤ fc.monoLast := by
    intro r hr hpos
    by_contra hout
    have hout' : ¬Reaches blocks read markersOnly r.2.ts ∨ fc.monoLast < r.2.ts := by
      by_contra hin
      push Not at hin
      exact hout hin
    obtain ⟨truncated, hskip⟩ := fileGate_windowAt hne h le_rfl (hfits r) hpos hout'
    refine (hsound _ rfl _ hskip).noRecord r hr ?_
    rw [hfrom, hto]
    exact ⟨le_rfl, le_rfl⟩
  have hpositive : ∀ r ∈ fileRecords blocks, 0 < r.2.ts := by
    intro r hr
    by_contra hzero
    have hskip : fileGate fc (windowAt markersOnly 0 0 le_rfl (Nat.zero_le _)) = .skip false := by
      rw [fileGate, h.valid hlen, dif_pos (by simp [windowAt])]
      rfl
    refine (hsound _ rfl _ hskip).noRecord r hr ?_
    rw [hfrom, hto]
    omega
  refine ⟨hpositive, fun r hr => (hkeep r hr (hpositive r hr)).1, fun r hr => ?_,
    fun r hr hs hperiod => ?_⟩
  · exact (h.le_monoLast hlen _).1 (hkeep r hr (hpositive r hr)).2
  · by_contra hreach
    have hpos := hpositive r hr
    have hp : 0 < r.1.samplePeriodNs.toNat := by
      rw [Nat.pos_iff_ne_zero, ne_eq, ← UInt64.toNat_zero, UInt64.toNat_inj]
      exact hperiod
    have hle : r.2.ts - r.1.samplePeriodNs.toNat + 1 ≤ r.2.ts := by omega
    obtain ⟨truncated, hskip⟩ := fileGate_windowAt hne h (Nat.le_succ _)
      (hle.trans (hfits r)) (Nat.succ_pos _) (.inl hreach)
    refine (hsound _ rfl _ hskip).noSample r hr hs ?_
    rw [hfrom, hto]
    omega

end

/-- **Skipping a file is sound for every window exactly when the scan sees the file.** The refreshes
may see the file grow in any steps and miss any headers. -/
theorem fileGate_sound_iff {start clock : UInt64} {blocks : List ReaderBlock} (hne : blocks ≠ [])
    {refreshes : List Refresh} (hgrow : Growing 0 blocks.length refreshes) (markersOnly : Bool) :
    (∀ w : FileWindow, w.markersOnly = markersOnly → ∀ truncated,
      fileGate (covScanRun start clock blocks {} refreshes) w = .skip truncated →
        SkipSound blocks w truncated) ↔ ScanSees blocks (readAt refreshes) markersOnly := by
  have hempty : ScanCov.Scanned {} start clock blocks (readAt refreshes) 0 :=
    ⟨rfl, nofun, nofun, nofun, nofun, nofun, fun x => by simp [not_headerRead_zero]⟩
  have h := covScanRun_scanned hgrow le_rfl hempty
  simp only [Nat.not_lt_zero, if_false] at h
  constructor
  · exact scanSees_of_skipSound hne h
  · rintro hsees w rfl truncated hskip
    exact skipSound_of_scanSees hne h hsees hskip

/-- Blocks committed out of order: the second one has the earlier record. -/
def blocksOutOfOrder : List ReaderBlock :=
  [transitionsClosing [50] 50 50, transitionsClosing [15] 15 15]

/-- A refresh that reads every header. -/
def Refresh.all (committed : ℕ) : Refresh := ⟨committed, fun _ => false, fun _ => false⟩

/-- The window from 10 to 20 skips the file although its second block has a record at 15. -/
theorem fileGate_skips_record :
    (∀ b ∈ blocksOutOfOrder, b.content.Bounded) ∧
      Growing 0 blocksOutOfOrder.length [.all 1, .all 2] ∧
      fileGate (covScanRun 0 0 blocksOutOfOrder {} [.all 1, .all 2])
        (windowAt false 10 20 (by decide) (by decide)) = .skip false ∧
      ∃ r ∈ fileRecords blocksOutOfOrder, 10 ≤ r.2.ts ∧ r.2.ts ≤ 20 := by
  refine ⟨?_, .more (Nat.zero_le 1) (.more (Nat.le_succ 1) (.done 2)), rfl, ?_⟩
  · simp only [blocksOutOfOrder, List.mem_cons, List.not_mem_nil, or_false]
    rintro b (rfl | rfl) info ⟨⟩ ev hev <;>
      · obtain ⟨t, ht, rfl⟩ := List.mem_map.1 hev
        obtain rfl := List.mem_singleton.1 ht
        decide
  · decide

theorem scanSees_of_inOrder {blocks : List ReaderBlock} (hb : ∀ b ∈ blocks, b.content.Bounded)
    {read : ℕ → Bool} (hread : ∀ i < blocks.length, read i = true)
    (hpos : ∀ r ∈ fileRecords blocks, 0 < r.2.ts)
    (hfirst : ∀ r ∈ fileRecords blocks, indexFirst blocks ≤ r.2.ts) :
    ScanSees blocks read false := by
  have hown : ∀ r ∈ fileRecords blocks, ∀ Q : BlockMeta → Prop, Q r.1 →
      HeaderRead blocks read 0 blocks.length Q := by
    intro r hr Q hQ
    obtain ⟨b, hmem, hinfo, -⟩ := mem_fileRecords.1 hr
    obtain ⟨i, hi, rfl⟩ := List.getElem_of_mem hmem
    exact ⟨i, blocks[i], r.1, Nat.zero_le _, hi, List.getElem?_eq_getElem hi, hread i hi, hinfo, hQ⟩
  refine ⟨hpos, fun r hr => .inl (hfirst r hr), fun r hr => .inr (hown r hr _ ?_),
    fun r hr hs _ => .inr ⟨rfl, hown r hr _ ⟨hs, ?_⟩⟩⟩
  · obtain ⟨b, hmem, hinfo, hev⟩ := mem_fileRecords.1 hr
    exact (hb b hmem r.1 hinfo r.2 hev).2
  · have := hfirst r hr
    omega

/-- A file in order, read as it grows, is skipped only by windows that want nothing of it. -/
theorem fileGate_sound_in_order :
    blocksOutOfOrder.reverse ≠ [] ∧ ∀ w : FileWindow, w.markersOnly = false → ∀ truncated,
      fileGate (covScanRun 0 0 blocksOutOfOrder.reverse {} [.all 1, .all 2]) w = .skip truncated →
        SkipSound blocksOutOfOrder.reverse w truncated := by
  refine ⟨by decide, ?_⟩
  refine (fileGate_sound_iff (by decide)
    (.more (Nat.zero_le 1) (.more (Nat.le_succ 1) (.done 2))) false).2 (scanSees_of_inOrder ?_ ?_ ?_ ?_)
  · simp only [blocksOutOfOrder, List.reverse_cons, List.reverse_nil, List.nil_append,
      List.cons_append, List.mem_cons, List.not_mem_nil, or_false]
    rintro b (rfl | rfl) info ⟨⟩ ev hev <;>
      · obtain ⟨t, ht, rfl⟩ := List.mem_map.1 hev
        obtain rfl := List.mem_singleton.1 ht
        decide
  · decide
  · decide
  · decide

end PgWaitTracer
