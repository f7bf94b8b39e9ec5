import Mathlib.Algebra.GroupWithZero.Nat
import PgWaitTracer.Lib.StableSort
import PgWaitTracer.Trace.ArchiveName
import Mathlib.Data.Char
import Mathlib.Data.List.Lex
import Mathlib.Data.Prod.Lex

/-!
# Retention

`pgwt_writer_cleanup_old_files` (`src/event_writer.c`) scans the trace directory once, deletes what
is too old, and collects the other archives. If the directory is over its cap, the collected
archives are deleted from the oldest hour on until it fits. A summary without the raw archives of
its hour cannot fall back on them, so a raw archive must not go before the summaries of its hour.

That is left to the order of the sort (within an hour summaries come first) and to one variable that
remembers the hour of the last summary that could not be deleted.

Files are listed as they were when the scan began, regular files can be examined, and names are
lists of characters. The conversions of the C library in local time are a parameter. Unlinking and
allocating may fail at any call.

## Main results

* `capLoop_tracks` : what the loop knows of the entries behind it.
* `sizeCapPass_safe` : the pass is safe for every directory, cap and pattern of failures.
-/

namespace PgWaitTracer

open StableSort

/-! ### Files -/

/-- A name in the trace directory. -/
abbrev FileName := List Char

/-- A file of the trace directory. -/
structure StoredFile where
  name : FileName
  regular : Bool
  mtime : ℤ
  size : ℕ
  deriving DecidableEq, Repr

/-- `enum retn_kind`. -/
inductive RetnKind
  | skip | traceArchive | summaryArchive | corrupt | orphanMeta
  deriving DecidableEq, Repr

/-- The size cap may delete files of this kind. -/
def RetnKind.evictable : RetnKind → Bool
  | traceArchive | summaryArchive | corrupt => true
  | skip | orphanMeta => false

/-- `has_suffix`. -/
def hasSuffix (name : FileName) (suffix : String) : Bool := suffix.toList.isSuffixOf name

/-- `strstr` as a test. -/
def hasInfix (name : FileName) (part : String) : Bool := (strstr name part.toList).isSome

/-- The name of the checkpoint beside a file. -/
def sidecarName (name : FileName) : FileName := name ++ ".open".toList

/-- `retn_classify`, given which names exist. -/
def retnClassify (access : FileName → Bool) (name : FileName) : RetnKind :=
  if name = "current.trace".toList ∨ name = "current.summary".toList then .skip
  else if hasSuffix name ".trace.lz4" then .traceArchive
  else if hasSuffix name ".summary.lz4" then .summaryArchive
  else if hasInfix name ".corrupt." then .corrupt
  else if hasSuffix name ".meta.tmp" || hasSuffix name ".jsonl.tmp" then .orphanMeta
  else if name = "current.trace.meta".toList ∨ name = "current.summary.meta".toList then
    if access (name.take (name.length - 5)) then .skip else .orphanMeta
  else if hasSuffix name ".open.tmp" then .orphanMeta
  else if hasSuffix name ".open" then
    if access (name.take (name.length - 5)) then .skip else .orphanMeta
  else .skip

theorem retnClassify_of_evictable {access access' : FileName → Bool} {name : FileName}
    (h : (retnClassify access name).evictable = true) :
    retnClassify access' name = retnClassify access name := by
  unfold retnClassify at h ⊢
  by_cases hlive : name = "current.trace".toList ∨ name = "current.summary".toList
  · rw [if_pos hlive, if_pos hlive]
  rw [if_neg hlive] at h
  rw [if_neg hlive, if_neg hlive]
  by_cases htrace : hasSuffix name ".trace.lz4" = true
  · rw [if_pos htrace, if_pos htrace]
  rw [if_neg htrace] at h
  rw [if_neg htrace, if_neg htrace]
  by_cases hsummary : hasSuffix name ".summary.lz4" = true
  · rw [if_pos hsummary, if_pos hsummary]
  rw [if_neg hsummary] at h
  rw [if_neg hsummary, if_neg hsummary]
  by_cases hcorrupt : hasInfix name ".corrupt." = true
  · rw [if_pos hcorrupt, if_pos hcorrupt]
  -- from here on no kind is one that may be deleted
  rw [if_neg hcorrupt] at h
  split_ifs at h <;> exact nomatch h

/-! ### Hours -/

/-- The conversions of the C library in local time: `mktime` of an hour, and the start of the local
hour of an instant, if it has one. -/
structure LocalTime where
  mktime : ArchiveDate → ℤ
  hourStart : ℕ → Option ℤ

/-- `retn_file_time`: the hour in the name, else the time of the last change. -/
def retnFileTime (lt : LocalTime) (name : FileName) (mtime : ℤ) : ℤ :=
  match leadingDate name with
  | some date => if 0 < lt.mktime date then lt.mktime date else mtime
  | none => mtime

/-! ### The directory -/

/-- The files that are there, and the calls to `unlink` so far. -/
structure RetnDir where
  files : List StoredFile
  unlinks : ℕ
  deriving DecidableEq, Repr

/-- `access` with `F_OK`. -/
def RetnDir.access (d : RetnDir) (name : FileName) : Bool := d.files.any (·.name = name)

/-- `unlink`: whether call number `k` may succeed is up to `unlinked`. -/
def RetnDir.unlink (unlinked : ℕ → Bool) (d : RetnDir) (name : FileName) : RetnDir × Bool :=
  if unlinked d.unlinks && d.access name then
    ({ files := d.files.filter (·.name ≠ name), unlinks := d.unlinks + 1 }, true)
  else ({ d with unlinks := d.unlinks + 1 }, false)

/-- `retn_unlink_sidecar`: the bytes that were freed. -/
def RetnDir.unlinkSidecar (unlinked : ℕ → Bool) (d : RetnDir) (name : FileName) : RetnDir × ℕ :=
  match d.files.find? (·.name = sidecarName name) with
  | none => (d, 0)
  | some f =>
    if f.regular then
      let r := d.unlink unlinked f.name
      (r.1, if r.2 then f.size else 0)
    else (d, 0)

/-- `retn_dir_bytes`. -/
def RetnDir.bytes (d : RetnDir) : ℕ := ((d.files.filter (·.regular)).map (·.size)).sum

/-! ### The scan -/

/-- `struct retn_entry`. -/
structure RetnEntry where
  name : FileName
  ftime : ℤ
  size : ℕ
  kind : RetnKind
  deriving DecidableEq, Repr

/-- What `pgwt_writer_cleanup_old_files` is told: the clock, the hours and bytes to retain (none for
zero), and the start of the live summary (zero for none). -/
structure RetentionConfig where
  now : ℤ
  retentionHours : ℕ
  retentionBytes : ℕ
  liveSummaryNs : ℕ
  deriving DecidableEq, Repr

/-- The hour before which files are deleted by age, zero for none. -/
def RetentionConfig.cutoff (cfg : RetentionConfig) : ℤ :=
  if 0 < cfg.retentionHours then cfg.now - cfg.retentionHours * 3600 else 0

/-- The scan: the directory, the archives that were collected with the room for them and the calls
to `realloc`, and whether nothing was left out. -/
structure RetnScan where
  dir : RetnDir
  kept : List RetnEntry
  capKept : ℕ
  reallocs : ℕ
  scanComplete : Bool
  deriving DecidableEq, Repr

/-- An archive is collected, unless the array cannot grow. -/
def RetnScan.keep (grows : ℕ → Bool) (sc : RetnScan) (e : RetnEntry) : RetnScan :=
  if sc.capKept ≤ sc.kept.length then
    if grows sc.reallocs then
      { sc with
        kept := sc.kept ++ [e]
        capKept := if sc.capKept = 0 then 64 else sc.capKept * 2
        reallocs := sc.reallocs + 1 }
    else { sc with
      reallocs := sc.reallocs + 1
      scanComplete := false }
  else { sc with kept := sc.kept ++ [e] }

section Pass

variable (lt : LocalTime) (cfg : RetentionConfig) (grows unlinked : ℕ → Bool)

/-- The archive as it is collected. -/
def StoredFile.entry (f : StoredFile) (kind : RetnKind) : RetnEntry :=
  ⟨f.name, retnFileTime lt f.name f.mtime, f.size, kind⟩

/-- One file of the scan. -/
def RetnScan.file (sc : RetnScan) (f : StoredFile) : RetnScan :=
  if !f.regular || !sc.dir.access f.name then sc
  else
    let kind := retnClassify sc.dir.access f.name
    if kind = .orphanMeta then
      if 3600 < cfg.now - f.mtime then { sc with dir := (sc.dir.unlink unlinked f.name).1 } else sc
    else if kind = .skip then sc
    else
      let aged := cfg.cutoff ≠ 0 ∧ retnFileTime lt f.name f.mtime < cfg.cutoff
      let r := if aged then sc.dir.unlink unlinked f.name else (sc.dir, false)
      if r.2 then { sc with dir := (r.1.unlinkSidecar unlinked f.name).1 }
      else if 0 < cfg.retentionBytes then { sc with dir := r.1 }.keep grows (f.entry lt kind)
      else { sc with dir := r.1 }

/-- The start of the live summary's hour, if there is a live summary. -/
def RetentionConfig.liveHour : Option ℤ :=
  if cfg.liveSummaryNs = 0 then none else lt.hourStart (cfg.liveSummaryNs / 1000000000)

/-- The scan of the directory. It is incomplete from the start when the live summary cannot be
placed. -/
def scanDir (files : List StoredFile) : RetnScan :=
  files.foldl (RetnScan.file lt cfg grows unlinked)
    { dir := ⟨files, 0⟩
      kept := []
      capKept := 0
      reallocs := 0
      scanComplete := cfg.retentionBytes = 0 || cfg.liveSummaryNs = 0 || (cfg.liveHour lt).isSome }

/-! ### The size cap -/

/-- `retn_cmp_oldest`, as the key by which it orders: the hour, the summaries first, the name. -/
def RetnEntry.key (e : RetnEntry) : ℤ ×ₗ Bool ×ₗ List Char :=
  toLex (e.ftime, toLex (decide (e.kind ≠ .summaryArchive), e.name))

/-- An attempt of the pass to delete an archive, and the directory before it. -/
structure CapEvent where
  entry : RetnEntry
  removed : Bool
  files : List StoredFile
  deriving DecidableEq, Repr

/-- The state of the loop: the directory, the bytes that are left by the pass's own count, the hour
of the last summary that could not be deleted, and what was tried. -/
structure CapState where
  dir : RetnDir
  totalBytes : ℕ
  failedSummaryHour : Option ℤ
  log : List CapEvent
  deriving DecidableEq, Repr

/-- The entry is passed over: a raw archive of the hour of a summary that could not be deleted, or
of the live summary. -/
def CapState.spares (liveHour : Option ℤ) (st : CapState) (e : RetnEntry) : Bool :=
  e.kind = .traceArchive && (st.failedSummaryHour = some e.ftime || liveHour = some e.ftime)

/-- One entry of the loop. -/
def CapState.evict (liveHour : Option ℤ) (st : CapState) (e : RetnEntry) : CapState :=
  if st.spares liveHour e then st
  else
    let r := st.dir.unlink unlinked e.name
    if r.2 then
      let s := r.1.unlinkSidecar unlinked e.name
      { st with
        dir := s.1
        totalBytes := st.totalBytes - (e.size + s.2)
        log := st.log ++ [⟨e, true, st.dir.files⟩] }
    else
      { st with
        dir := r.1
        failedSummaryHour := if e.kind = .summaryArchive then some e.ftime else st.failedSummaryHour
        log := st.log ++ [⟨e, false, st.dir.files⟩] }

/-- The loop over the sorted archives, until the directory fits. -/
def capLoop (liveHour : Option ℤ) : CapState → List RetnEntry → CapState
  | st, [] => st
  | st, e :: es =>
    if st.totalBytes ≤ cfg.retentionBytes then st
    else capLoop liveHour (st.evict unlinked liveHour e) es

/-- The pass over the size cap that follows a scan. -/
def sizeCapPass (byAge : Sorter RetnEntry.key) (sc : RetnScan) : CapState :=
  let st : CapState := ⟨sc.dir, sc.dir.bytes, none, []⟩
  if 0 < cfg.retentionBytes && cfg.retentionBytes < sc.dir.bytes && sc.scanComplete then
    capLoop cfg unlinked (cfg.liveHour lt) st (byAge.sort sc.kept)
  else st

/-! ### Safety -/

/-- The hour and the kind of a file. -/
def StoredFile.ftime (f : StoredFile) : ℤ := retnFileTime lt f.name f.mtime

/-- The kind of a regular file, as far as the size cap is concerned. -/
def StoredFile.kind (f : StoredFile) : RetnKind :=
  if f.regular then retnClassify (fun _ => true) f.name else .skip

/-- A file that the pass has to pass over: a raw archive of the live summary's hour, or of an hour
of which it tried to delete a summary and could not. -/
def Spared (liveHour : Option ℤ) (log : List CapEvent) (f : StoredFile) : Prop :=
  f.kind = .traceArchive ∧ (liveHour = some (f.ftime lt) ∨
    ∃ ev ∈ log, ev.removed = false ∧ ev.entry.kind = .summaryArchive ∧
      ev.entry.ftime = f.ftime lt)

/-- **The pass strands no summary and goes by hours**, given the files before it: it deletes nothing
after an incomplete scan, no raw archive while a summary of its hour is there or live, and nothing
before it has tried every archive of an earlier hour that it may delete. -/
structure CapPassSafe (sc : RetnScan) (log : List CapEvent) : Prop where
  complete : ∀ ev ∈ log, ev.removed = true → sc.scanComplete = true
  raw : ∀ ev ∈ log, ev.removed = true → ev.entry.kind = .traceArchive →
    cfg.liveHour lt ≠ some ev.entry.ftime ∧
      ∀ f ∈ ev.files, f.kind = .summaryArchive → f.ftime lt ≠ ev.entry.ftime
  order : ∀ front ev back, log = front ++ ev :: back → ev.removed = true →
    ∀ f ∈ sc.dir.files, f.kind.evictable = true → f.ftime lt < ev.entry.ftime →
      (∃ ev' ∈ front, ev'.entry.name = f.name) ∨ Spared lt (cfg.liveHour lt) front f

/-! ### The scan collects the archives -/

variable {lt cfg grows unlinked}

variable {e' : RetnEntry} {f : StoredFile}

theorem mem_files_unlink {d : RetnDir} {name : FileName}
    (h : f ∈ (d.unlink unlinked name).1.files) :
    f ∈ d.files ∧ ((d.unlink unlinked name).2 = true → f.name ≠ name) := by
  rw [RetnDir.unlink] at h ⊢
  split_ifs at h ⊢ with hok
  · obtain ⟨hmem, hne⟩ := List.mem_filter.1 h
    exact ⟨hmem, fun _ => by simpa using hne⟩
  · exact ⟨h, fun hfalse => nomatch hfalse⟩

theorem mem_files_unlinkSidecar {d : RetnDir} {name : FileName}
    (h : f ∈ (d.unlinkSidecar unlinked name).1.files) : f ∈ d.files := by
  rw [RetnDir.unlinkSidecar] at h
  cases hfind : d.files.find? (·.name = sidecarName name) with
  | none => simpa only [hfind] using h
  | some g =>
    simp only [hfind] at h
    by_cases hreg : g.regular = true
    · rw [if_pos hreg] at h
      exact (mem_files_unlink h).1
    · rwa [if_neg hreg] at h

theorem RetnScan.keep_cases (sc : RetnScan) (e : RetnEntry) :
    (sc.keep grows e).dir = sc.dir ∧
      ((sc.keep grows e).kept = sc.kept ++ [e] ∧
          (sc.keep grows e).scanComplete = sc.scanComplete ∨
        (sc.keep grows e).kept = sc.kept ∧ (sc.keep grows e).scanComplete = false) := by
  rw [RetnScan.keep]
  by_cases hfull : sc.capKept ≤ sc.kept.length
  · rw [if_pos hfull]
    by_cases hgrows : grows sc.reallocs = true
    · rw [if_pos hgrows]
      exact ⟨rfl, .inl ⟨rfl, rfl⟩⟩
    · rw [if_neg hgrows]
      exact ⟨rfl, .inr ⟨rfl, rfl⟩⟩
  · rw [if_neg hfull]
    exact ⟨rfl, .inl ⟨rfl, rfl⟩⟩

theorem RetnScan.mem_kept_keep (sc : RetnScan) (e : RetnEntry) (h : e' ∈ sc.kept) :
    e' ∈ (sc.keep grows e).kept := by
  rcases (sc.keep_cases e).2 with ⟨hkept, -⟩ | ⟨hkept, -⟩
  · rw [hkept]
    exact List.mem_append_left _ h
  · rwa [hkept]

theorem RetnScan.keep_complete {sc : RetnScan} {e : RetnEntry}
    (h : (sc.keep grows e).scanComplete = true) :
    sc.scanComplete = true ∧ e ∈ (sc.keep grows e).kept := by
  rcases (sc.keep_cases e).2 with ⟨hkept, hsame⟩ | ⟨-, hfalse⟩
  · rw [hkept, ← hsame]
    exact ⟨h, List.mem_append_right _ List.mem_cons_self⟩
  · rw [hfalse] at h
    exact nomatch h

/-- One file of the scan: files only go away, collected archives stay, and what is left of the file
has been collected if it is an archive. -/
structure RetnScan.FileStep (sc sc' : RetnScan) (f : StoredFile) : Prop where
  files : ∀ g ∈ sc'.dir.files, g ∈ sc.dir.files
  kept : ∀ e ∈ sc.kept, e ∈ sc'.kept
  complete : sc'.scanComplete = true → sc.scanComplete = true
  collected : 0 < cfg.retentionBytes → sc'.scanComplete = true → f ∈ sc'.dir.files →
    f.kind.evictable = true → f.entry lt f.kind ∈ sc'.kept

theorem StoredFile.kind_eq (access : FileName → Bool) (h : f.kind.evictable = true) :
    f.regular = true ∧ retnClassify access f.name = f.kind := by
  rw [StoredFile.kind] at h ⊢
  split_ifs at h ⊢ with hreg
  · exact ⟨hreg, retnClassify_of_evictable h⟩
  · exact nomatch h

theorem RetnScan.fileStep (sc : RetnScan) (f : StoredFile) :
    @RetnScan.FileStep lt cfg sc (sc.file lt cfg grows unlinked f) f := by
  rw [RetnScan.file]
  by_cases hseen : (!f.regular || !sc.dir.access f.name) = true
  · rw [if_pos hseen]
    refine ⟨fun _ h => h, fun _ h => h, fun h => h, fun _ _ hmem hkind => ?_⟩
    have haccess : sc.dir.access f.name = true :=
      List.any_eq_true.2 ⟨f, hmem, decide_eq_true rfl⟩
    simp [(StoredFile.kind_eq (fun _ => true) hkind).1, haccess] at hseen
  rw [if_neg hseen]
  dsimp only
  have hkind := fun h => (f.kind_eq sc.dir.access h).2
  by_cases horphan : retnClassify sc.dir.access f.name = .orphanMeta
  · rw [if_pos horphan]
    have hnot : f.kind.evictable = true → False := fun h => by
      rw [← hkind h, horphan] at h
      exact nomatch h
    split_ifs
    · exact ⟨fun g hg => (mem_files_unlink hg).1, fun _ h => h, fun h => h,
        fun _ _ _ h => (hnot h).elim⟩
    · exact ⟨fun _ h => h, fun _ h => h, fun h => h, fun _ _ _ h => (hnot h).elim⟩
  rw [if_neg horphan]
  by_cases hskip : retnClassify sc.dir.access f.name = .skip
  · rw [if_pos hskip]
    refine ⟨fun _ h => h, fun _ h => h, fun h => h, fun _ _ _ h => ?_⟩
    rw [← hkind h, hskip] at h
    exact nomatch h
  rw [if_neg hskip]
  generalize hr : (if cfg.cutoff ≠ 0 ∧ retnFileTime lt f.name f.mtime < cfg.cutoff then
    sc.dir.unlink unlinked f.name else (sc.dir, false)) = r
  have hfiles : ∀ g ∈ r.1.files, g ∈ sc.dir.files ∧ (r.2 = true → g.name ≠ f.name) := by
    intro g hg
    rw [← hr] at hg ⊢
    split_ifs at hg ⊢
    · exact mem_files_unlink hg
    · exact ⟨hg, fun h => nomatch h⟩
  split_ifs with hgone hcap
  · refine ⟨fun g hg => (hfiles g (mem_files_unlinkSidecar hg)).1, fun _ h => h, fun h => h,
      fun _ _ hmem _ => ?_⟩
    exact absurd rfl ((hfiles f (mem_files_unlinkSidecar hmem)).2 hgone)
  · refine ⟨fun g hg => ?_, fun e he => ?_, fun h => (RetnScan.keep_complete h).1,
      fun _ h _ hevict => ?_⟩
    · rw [(RetnScan.keep_cases _ _).1] at hg
      exact (hfiles g hg).1
    · exact RetnScan.mem_kept_keep _ _ he
    · rw [hkind hevict] at h ⊢
      exact (RetnScan.keep_complete h).2
  · exact ⟨fun g hg => (hfiles g hg).1, fun _ h => h, fun h => h,
      fun hpos => absurd hpos hcap⟩

/-- A complete scan has collected every archive that is left. -/
theorem mem_kept_scanDir {files : List StoredFile} (hcap : 0 < cfg.retentionBytes)
    (hcomplete : (scanDir lt cfg grows unlinked files).scanComplete = true)
    (hf : f ∈ (scanDir lt cfg grows unlinked files).dir.files) (hkind : f.kind.evictable = true) :
    f.entry lt f.kind ∈ (scanDir lt cfg grows unlinked files).kept := by
  have hrun : ∀ (todo : List StoredFile) (sc : RetnScan),
      (∀ g ∈ (todo.foldl (RetnScan.file lt cfg grows unlinked) sc).dir.files, g ∈ sc.dir.files) ∧
      (∀ e ∈ sc.kept, e ∈ (todo.foldl (RetnScan.file lt cfg grows unlinked) sc).kept) ∧
      ((todo.foldl (RetnScan.file lt cfg grows unlinked) sc).scanComplete = true →
        sc.scanComplete = true ∧
        ∀ g ∈ todo, g ∈ (todo.foldl (RetnScan.file lt cfg grows unlinked) sc).dir.files →
          g.kind.evictable = true →
            g.entry lt g.kind ∈ (todo.foldl (RetnScan.file lt cfg grows unlinked) sc).kept) := by
    intro todo
    induction todo with
    | nil => exact fun sc => ⟨fun _ h => h, fun _ h => h, fun h => ⟨h, nofun⟩⟩
    | cons g todo ih =>
      intro sc
      have hstep : @RetnScan.FileStep lt cfg sc (sc.file lt cfg grows unlinked g) g :=
        sc.fileStep g
      obtain ⟨hfiles, hkept, hrest⟩ := ih (sc.file lt cfg grows unlinked g)
      refine ⟨fun g' hg' => hstep.files g' (hfiles g' hg'),
        fun e he => hkept e (hstep.kept e he), fun hc => ?_⟩
      obtain ⟨hc', hcollected⟩ := hrest hc
      refine ⟨hstep.complete hc', fun g' hg' hmem hevict => ?_⟩
      rcases List.mem_cons.1 hg' with rfl | hg'
      · exact hkept _ (hstep.collected hcap hc' (hfiles _ hmem) hevict)
      · exact hcollected g' hg' hmem hevict
  obtain ⟨hfiles, -, hall⟩ := hrun files _
  exact (hall hcomplete).2 f (hfiles f hf) hf hkind

/-! ### The loop -/

theorem ftime_le_of_key_le {e : RetnEntry} (h : e.key ≤ e'.key) : e.ftime ≤ e'.ftime := by
  rcases Prod.Lex.toLex_le_toLex.1 h with hlt | ⟨heq, -⟩
  · exact le_of_lt hlt
  · exact le_of_eq heq

theorem not_key_le_of_summary {e : RetnEntry} (he : e.kind = .traceArchive)
    (he' : e'.kind = .summaryArchive) (hftime : e'.ftime = e.ftime) : ¬e.key ≤ e'.key := by
  intro h
  rcases Prod.Lex.toLex_le_toLex.1 h with hlt | ⟨-, hle⟩
  · exact absurd hftime (ne_of_gt hlt)
  · simp only [he, he'] at hle
    rcases Prod.Lex.toLex_le_toLex.1 hle with hlt | ⟨heq, -⟩
    · exact absurd (show true < false from hlt) (by decide)
    · exact nomatch show true = false from heq

/-- What the loop knows when it has passed the entries `done` of the sorted archives, from a
directory with the given files: each was tried or is spared, the last summary that could not be
deleted is remembered, and what was deleted is gone. -/
structure CapState.Tracks (liveHour : Option ℤ) (start : List StoredFile) (done : List RetnEntry)
    (st : CapState) : Prop where
  files : ∀ f ∈ st.dir.files, f ∈ start
  tried : ∀ e ∈ done, (∃ ev ∈ st.log, ev.entry = e) ∨ e.kind = .traceArchive ∧
    (liveHour = some e.ftime ∨ ∃ ev ∈ st.log, ev.removed = false ∧
      ev.entry.kind = .summaryArchive ∧ ev.entry.ftime = e.ftime)
  logged : ∀ ev ∈ st.log, ev.entry ∈ done
  remembered : ∀ ev ∈ st.log, ev.removed = false → ev.entry.kind = .summaryArchive →
    ∃ h, st.failedSummaryHour = some h ∧ ev.entry.ftime ≤ h
  failed : ∀ h, st.failedSummaryHour = some h →
    ∃ ev ∈ st.log, ev.removed = false ∧ ev.entry.kind = .summaryArchive ∧ ev.entry.ftime = h
  gone : ∀ ev ∈ st.log, ev.removed = true → ∀ f ∈ st.dir.files, f.name ≠ ev.entry.name

/-- A deletion is safe, after what was tried before. -/
structure CapEvent.Safe (lt : LocalTime) (liveHour : Option ℤ) (start : List StoredFile)
    (front : List CapEvent) (ev : CapEvent) : Prop where
  raw : ev.entry.kind = .traceArchive → liveHour ≠ some ev.entry.ftime ∧
    ∀ f ∈ ev.files, f.kind = .summaryArchive → f.ftime lt ≠ ev.entry.ftime
  order : ∀ f ∈ start, f.kind.evictable = true → f.ftime lt < ev.entry.ftime →
    (∃ ev' ∈ front, ev'.entry.name = f.name) ∨ Spared lt liveHour front f

/-- Every deletion in the log is safe. -/
def LogSafe (lt : LocalTime) (liveHour : Option ℤ) (start : List StoredFile)
    (log : List CapEvent) : Prop :=
  ∀ front ev back, log = front ++ ev :: back → ev.removed = true → ev.Safe lt liveHour start front

theorem LogSafe.concat {liveHour : Option ℤ} {start : List StoredFile} {log : List CapEvent}
    {ev : CapEvent} (h : LogSafe lt liveHour start log)
    (hev : ev.removed = true → ev.Safe lt liveHour start log) :
    LogSafe lt liveHour start (log ++ [ev]) := by
  intro front ev' back heq hremoved
  rcases List.eq_nil_or_concat back with rfl | ⟨back', last, rfl⟩
  · obtain ⟨rfl, hlast⟩ := List.append_inj' heq rfl
    obtain rfl := List.head_eq_of_cons_eq hlast
    exact hev hremoved
  · have hinit : log = front ++ ev' :: back' := by
      have hsplit : log ++ [ev] = (front ++ ev' :: back') ++ [last] := by
        rw [heq]
        simp
      exact (List.append_inj' hsplit rfl).1
    exact h front ev' back' hinit hremoved

section Loop

variable {liveHour : Option ℤ} {start : List StoredFile} {all done rest : List RetnEntry}
  {e : RetnEntry} {st : CapState}

/-- The sorted archives, with those that are passed in front. -/
structure Passed (lt : LocalTime) (start : List StoredFile) (all done rest : List RetnEntry) :
    Prop where
  split : all = done ++ rest
  sorted : Sorted RetnEntry.key all
  collected : ∀ f ∈ start, f.kind.evictable = true → f.entry lt f.kind ∈ all

theorem Passed.next (h : Passed lt start all done (e :: rest)) :
    Passed lt start all (done ++ [e]) rest :=
  ⟨by rw [h.split, List.append_assoc, List.singleton_append], h.sorted, h.collected⟩

theorem Passed.done_le (h : Passed lt start all done (e :: rest)) :
    ∀ e' ∈ done, e'.ftime ≤ e.ftime := by
  intro e' he'
  have hsorted := h.sorted
  rw [h.split] at hsorted
  exact ftime_le_of_key_le ((sorted_append.1 hsorted).2.2 e' he' e List.mem_cons_self)

theorem Passed.mem_done (h : Passed lt start all done (e :: rest)) (he' : e' ∈ all)
    (hlt : ¬e.key ≤ e'.key) : e' ∈ done := by
  have hsorted := h.sorted
  rw [h.split] at hsorted he'
  rcases List.mem_append.1 he' with hdone | hrest
  · exact hdone
  · rcases List.mem_cons.1 hrest with rfl | hrest
    · exact absurd le_rfl hlt
    · exact absurd (List.rel_of_pairwise_cons (sorted_append.1 hsorted).2.1 hrest) hlt

theorem CapState.Tracks.no_summary (ht : st.Tracks liveHour start done)
    (h : Passed lt start all done (e :: rest)) (he : e.kind = .traceArchive)
    (hspared : st.spares liveHour e = false) :
    ∀ f ∈ st.dir.files, f.kind = .summaryArchive → f.ftime lt ≠ e.ftime := by
  intro f hf hkind hftime
  have hall := h.collected f (ht.files f hf) (by rw [hkind]; rfl)
  rw [hkind] at hall
  have hdone : f.entry lt .summaryArchive ∈ done :=
    h.mem_done hall (not_key_le_of_summary he rfl hftime)
  rcases ht.tried _ hdone with ⟨ev, hev, hentry⟩ | ⟨hraw, -⟩
  · cases hremoved : ev.removed with
    | true =>
      refine ht.gone ev hev hremoved f hf ?_
      rw [hentry]
      rfl
    | false =>
      obtain ⟨hour, hhour, hle⟩ := ht.remembered ev hev hremoved (by rw [hentry]; rfl)
      obtain ⟨ev', hev', -, -, hour'⟩ := ht.failed hour hhour
      have hle' : hour ≤ e.ftime := hour' ▸ h.done_le _ (ht.logged ev' hev')
      have hsame : hour = e.ftime := by
        refine le_antisymm hle' ?_
        rw [hentry] at hle
        exact hftime.symm.le.trans hle
      rw [CapState.spares, he, hhour, hsame] at hspared
      simp at hspared
  · exact nomatch hraw

theorem CapState.Tracks.safe (ht : st.Tracks liveHour start done)
    (h : Passed lt start all done (e :: rest)) (hspared : st.spares liveHour e = false) :
    CapEvent.Safe lt liveHour start st.log ⟨e, true, st.dir.files⟩ where
  raw := by
    intro he
    refine ⟨fun hlive => ?_, ht.no_summary h he hspared⟩
    change e.kind = .traceArchive at he
    simp [CapState.spares, he, hlive] at hspared
  order := by
    intro f hf hkind hlt
    have hdone : f.entry lt f.kind ∈ done :=
      h.mem_done (h.collected f hf hkind) fun hle =>
        absurd (ftime_le_of_key_le hle) (not_le_of_gt hlt)
    rcases ht.tried _ hdone with ⟨ev, hev, hentry⟩ | hspare
    · refine .inl ⟨ev, hev, ?_⟩
      rw [hentry]
      rfl
    · exact .inr hspare

theorem tried_mono {log log' : List CapEvent} (hsub : ∀ ev ∈ log, ev ∈ log')
    (h : (∃ ev ∈ log, ev.entry = e') ∨ e'.kind = .traceArchive ∧
      (liveHour = some e'.ftime ∨ ∃ ev ∈ log, ev.removed = false ∧
        ev.entry.kind = .summaryArchive ∧ ev.entry.ftime = e'.ftime)) :
    (∃ ev ∈ log', ev.entry = e') ∨ e'.kind = .traceArchive ∧
      (liveHour = some e'.ftime ∨ ∃ ev ∈ log', ev.removed = false ∧
        ev.entry.kind = .summaryArchive ∧ ev.entry.ftime = e'.ftime) := by
  rcases h with ⟨ev, hev, hentry⟩ | ⟨hraw, hlive | ⟨ev, hev, hfailed⟩⟩
  · exact .inl ⟨ev, hsub ev hev, hentry⟩
  · exact .inr ⟨hraw, .inl hlive⟩
  · exact .inr ⟨hraw, .inr ⟨ev, hsub ev hev, hfailed⟩⟩

theorem CapState.Tracks.skip (ht : st.Tracks liveHour start done)
    (hspared : st.spares liveHour e = true) : st.Tracks liveHour start (done ++ [e]) where
  files := ht.files
  tried := by
    intro e' he'
    rcases List.mem_append.1 he' with hold | hnew
    · exact ht.tried e' hold
    · obtain rfl := List.mem_singleton.1 hnew
      simp only [CapState.spares, Bool.and_eq_true, Bool.or_eq_true, decide_eq_true_eq] at hspared
      obtain ⟨hraw, hfailed | hlive⟩ := hspared
      · exact .inr ⟨hraw, .inr (ht.failed _ hfailed)⟩
      · exact .inr ⟨hraw, .inl hlive⟩
  logged := fun ev hev => List.mem_append_left _ (ht.logged ev hev)
  remembered := ht.remembered
  failed := ht.failed
  gone := ht.gone

/-- An attempt on the next entry is tracked. -/
theorem CapState.Tracks.attempt (ht : st.Tracks liveHour start done)
    (h : Passed lt start all done (e :: rest)) {st' : CapState} {removed : Bool}
    (hlog : st'.log = st.log ++ [⟨e, removed, st.dir.files⟩])
    (hfiles : ∀ f ∈ st'.dir.files, f ∈ st.dir.files ∧ (removed = true → f.name ≠ e.name))
    (hfailed : st'.failedSummaryHour =
      if removed = false ∧ e.kind = .summaryArchive then some e.ftime else st.failedSummaryHour) :
    st'.Tracks liveHour start (done ++ [e]) where
  files := fun f hf => ht.files f (hfiles f hf).1
  tried := by
    intro e' he'
    rcases List.mem_append.1 he' with hold | hnew
    · exact tried_mono (fun ev hev => hlog ▸ List.mem_append_left _ hev) (ht.tried e' hold)
    · obtain rfl := List.mem_singleton.1 hnew
      exact .inl ⟨_, hlog ▸ List.mem_append_right _ List.mem_cons_self, rfl⟩
  logged := by
    intro ev hev
    rw [hlog] at hev
    rcases List.mem_append.1 hev with hold | hnew
    · exact List.mem_append_left _ (ht.logged ev hold)
    · obtain rfl := List.mem_singleton.1 hnew
      exact List.mem_append_right _ List.mem_cons_self
  remembered := by
    intro ev hev hremoved hkind
    rw [hlog] at hev
    rw [hfailed]
    rcases List.mem_append.1 hev with hold | hnew
    · split_ifs
      · exact ⟨e.ftime, rfl, h.done_le _ (ht.logged ev hold)⟩
      · exact ht.remembered ev hold hremoved hkind
    · obtain rfl := List.mem_singleton.1 hnew
      rw [if_pos ⟨hremoved, hkind⟩]
      exact ⟨e.ftime, rfl, le_rfl⟩
  failed := by
    intro hour hhour
    rw [hfailed] at hhour
    rw [hlog]
    split_ifs at hhour with hnow
    · obtain rfl := Option.some.inj hhour
      exact ⟨_, List.mem_append_right _ List.mem_cons_self, hnow.1, hnow.2, rfl⟩
    · obtain ⟨ev, hev, hrest⟩ := ht.failed hour hhour
      exact ⟨ev, List.mem_append_left _ hev, hrest⟩
  gone := by
    intro ev hev hremoved f hf
    rw [hlog] at hev
    rcases List.mem_append.1 hev with hold | hnew
    · exact ht.gone ev hold hremoved f (hfiles f hf).1
    · obtain rfl := List.mem_singleton.1 hnew
      exact (hfiles f hf).2 hremoved

theorem CapState.Tracks.evict (ht : st.Tracks liveHour start done)
    (h : Passed lt start all done (e :: rest)) (hsafe : LogSafe lt liveHour start st.log) :
    (st.evict unlinked liveHour e).Tracks liveHour start (done ++ [e]) ∧
      LogSafe lt liveHour start (st.evict unlinked liveHour e).log := by
  unfold CapState.evict
  cases hspared : st.spares liveHour e with
  | true =>
    rw [if_pos rfl]
    exact ⟨ht.skip hspared, hsafe⟩
  | false =>
    rw [if_neg Bool.false_ne_true]
    dsimp only
    cases hremoved : (st.dir.unlink unlinked e.name).2 with
    | true =>
      rw [if_pos rfl]
      refine ⟨ht.attempt h rfl (fun f hf => ?_) (by simp), hsafe.concat fun _ => ht.safe h hspared⟩
      obtain ⟨hmem, hne⟩ := mem_files_unlink (mem_files_unlinkSidecar hf)
      exact ⟨hmem, fun _ => hne hremoved⟩
    | false =>
      rw [if_neg Bool.false_ne_true]
      refine ⟨ht.attempt h rfl (fun f hf => ⟨(mem_files_unlink hf).1, nofun⟩) (by simp),
        hsafe.concat nofun⟩

/-- **What the loop deletes is safe.** -/
theorem capLoop_tracks (rest : List RetnEntry) (ht : st.Tracks liveHour start done)
    (h : Passed lt start all done rest) (hsafe : LogSafe lt liveHour start st.log) :
    LogSafe lt liveHour start (capLoop cfg unlinked liveHour st rest).log := by
  induction rest generalizing done st with
  | nil => exact hsafe
  | cons e rest ih =>
    rw [capLoop]
    split_ifs
    · exact hsafe
    · obtain ⟨ht', hsafe'⟩ := ht.evict h hsafe
      exact ih ht' h.next hsafe'

end Loop

end Pass

/-- **The size cap.** For every directory, configuration, sorting function, and pattern of failures
of `unlink` and `realloc`, the pass over the size cap that follows the scan is safe. -/
theorem sizeCapPass_safe (lt : LocalTime) (cfg : RetentionConfig) (grows unlinked : ℕ → Bool)
    (byAge : Sorter RetnEntry.key) (files : List StoredFile) :
    CapPassSafe lt cfg (scanDir lt cfg grows unlinked files)
      (sizeCapPass lt cfg unlinked byAge (scanDir lt cfg grows unlinked files)).log := by
  generalize hsc : scanDir lt cfg grows unlinked files = sc
  rw [sizeCapPass]
  split_ifs with hrun
  · simp only [Bool.and_eq_true, decide_eq_true_eq] at hrun
    obtain ⟨⟨hcap, -⟩, hcomplete⟩ := hrun
    have hstart : CapState.Tracks (cfg.liveHour lt) sc.dir.files []
        ⟨sc.dir, sc.dir.bytes, none, []⟩ := ⟨fun _ h => h, nofun, nofun, nofun, nofun, nofun⟩
    have hpassed : Passed lt sc.dir.files (byAge.sort sc.kept) [] (byAge.sort sc.kept) := by
      refine ⟨rfl, byAge.sorted _, fun f hf hkind => ?_⟩
      subst hsc
      exact (byAge.perm _).mem_iff.2 (mem_kept_scanDir hcap hcomplete hf hkind)
    have hsafe := @capLoop_tracks lt cfg unlinked _ _ _ _ _ _ hstart hpassed
      (fun front _ _ hnil => absurd hnil (by simp))
    refine ⟨fun _ _ _ => hcomplete, fun ev hev hremoved => ?_,
      fun front ev back hlog hremoved => ?_⟩
    · obtain ⟨front, back, hlog⟩ := List.append_of_mem hev
      exact (hsafe front ev back hlog hremoved).raw
    · exact (hsafe front ev back hlog hremoved).order
  · refine ⟨nofun, nofun, fun front ev back hnil => absurd hnil (by simp)⟩

end PgWaitTracer
