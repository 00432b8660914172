import AegisHV.Lib.Run
import AegisHV.Proofs.SpoolCodec

/-! The spool over whole runs. An append is refused, extends the open segment or opens the next
one; from these three effects follow the round trip of the accepted lines across restarts and
the accounting of bytes. -/

namespace AegisHV.Spool

open Sys PendingSpoolRecord List Disk

theorem spoolSegmentIndex_path {index : ℕ} (h : index < 2 ^ 64) :
    spoolSegmentIndex (spoolSegmentPath index) = some index := by
  unfold spoolSegmentIndex spoolSegmentPath
  rw [String.toList_ofList, dropPrefix?_append, Option.bind_eq_bind, Option.bind_some,
    dropSuffix?_append]
  exact fromStrRadix_padded (by decide) (by decide) h

theorem saturatingAdd_eq {a b : ℕ} (h : a + b < 2 ^ 64) : saturatingAdd a b = a + b := by
  rw [saturatingAdd]
  omega

namespace SpoolDir

variable {dir dir' : SpoolDir} {name : String}

theorem map_extend_of_not_mem {files : List (String × List UInt8)} {bytes : List UInt8}
    (h : name ∉ files.map Prod.fst) : files.map (extend name bytes) = files := by
  apply map_congr_left (g := id) _ |>.trans (map_id _)
  intro file hfile
  have hne : file.1 ≠ name := fun heq => h (heq ▸ mem_map_of_mem hfile)
  rw [extend, if_neg hne, id]

/-- Appending to the last file of a directory. -/
theorem files_appendTo {files : List (String × List UInt8)} {old bytes : List UInt8}
    (hfiles : dir.files = files ++ [(name, old)]) :
    (dir.appendTo name bytes).files = files ++ [(name, old ++ bytes)] := by
  have hnodup := dir.nodup
  rw [hfiles, map_append, nodup_append] at hnodup
  have hname : name ∉ files.map Prod.fst := fun h => hnodup.2.2 _ h _ (by simp) rfl
  show dir.files.map (extend name bytes) = _
  rw [hfiles, map_append, map_extend_of_not_mem hname]
  simp [extend]

theorem createNew_of_not_mem (h : name ∉ dir.names) :
    ∃ dir', dir.createNew name = some dir' ∧ dir'.files = dir.files ++ [(name, [])] := by
  refine ⟨_, dif_neg h, rfl⟩

theorem createNew_of_mem (h : name ∈ dir.names) : dir.createNew name = none := dif_pos h

end SpoolDir

namespace Disk

variable {s : Disk}

/-- The names of all segments from the next index up to the given one are taken. -/
def TakenUpTo (s : Disk) (index : ℕ) : Prop :=
  ∀ j, s.spool.nextIndex ≤ j → j < index → spoolSegmentPath j ∈ s.dir.names

theorem TakenUpTo.of_next {index : ℕ}
    (h : TakenUpTo { s with spool := { s.spool with nextIndex := s.spool.nextIndex + 1 } } index)
    (hfirst : spoolSegmentPath s.spool.nextIndex ∈ s.dir.names) : s.TakenUpTo index := by
  intro j hj hlt
  rcases Nat.eq_or_lt_of_le hj with rfl | hj
  · exact hfirst
  · exact h j hj hlt

/-- The next segment gets an unused name, or the names are taken up to the last try. -/
theorem createNextSegment_run (tries : ℕ) (s : Disk) :
    (∃ index dir, (createNextSegment tries).run s = (.ok (spoolSegmentPath index),
        { dir, spool := { s.spool with nextIndex := index + 1 } }) ∧
      dir.files = s.dir.files ++ [(spoolSegmentPath index, [])] ∧ s.spool.nextIndex ≤ index ∧
      index + 1 < 2 ^ 64) ∨
    (∃ message next, (createNextSegment tries).run s =
        (.error (.internal message), { s with spool := { s.spool with nextIndex := next } }) ∧
      s.spool.nextIndex ≤ next ∧ (2 ^ 64 ≤ next + 1 ∨ next = s.spool.nextIndex + tries) ∧
      s.TakenUpTo next ∧ (s.spool.nextIndex < 2 ^ 64 → next < 2 ^ 64)) := by
  have htaken : s.TakenUpTo s.spool.nextIndex := fun j hj hlt => absurd hj (Nat.not_le.2 hlt)
  induction tries generalizing s with
  | zero => exact Or.inr ⟨_, s.spool.nextIndex, rfl, le_rfl, Or.inr rfl, htaken, id⟩
  | succ tries ih =>
    rw [createNextSegment, Op.run_read_bind]
    cases hadd : checkedAdd s.spool.nextIndex 1 with
    | none =>
      exact Or.inr ⟨_, s.spool.nextIndex, rfl, le_rfl, Or.inl (checkedAdd_eq_none.1 hadd), htaken, id⟩
    | some next =>
      obtain ⟨hlt, rfl⟩ := checkedAdd_eq_some.1 hadd
      simp only [okOr, Op.run_lift_ok_bind]
      by_cases hmem : spoolSegmentPath s.spool.nextIndex ∈ s.dir.names
      · rw [SpoolDir.createNew_of_mem hmem]
        rcases ih { s with spool := { s.spool with nextIndex := s.spool.nextIndex + 1 } }
            (fun j hj hlt => absurd hj (Nat.not_le.2 hlt)) with
          ⟨index, dir, hrun, hfiles, hle, hbound⟩ | ⟨message, next, hrun, hle, hend, htaken, hnext⟩
        · exact Or.inl ⟨index, dir, hrun, hfiles, Nat.le_of_succ_le hle, hbound⟩
        · refine Or.inr ⟨message, next, hrun, Nat.le_of_succ_le hle, ?_, htaken.of_next hmem,
            fun _ => hnext hlt⟩
          exact hend.imp_right fun h => h.trans (by dsimp only; omega)
      · obtain ⟨dir, hdir, hfiles⟩ := SpoolDir.createNew_of_not_mem hmem
        rw [hdir]
        exact Or.inl ⟨s.spool.nextIndex, dir, rfl, hfiles, le_rfl, hlt⟩

/-- No segment can be created: the names that would be tried are all taken, up to the last try
or the last index. -/
def Exhausted (s : Disk) : Prop :=
  ∃ next, s.spool.nextIndex ≤ next ∧ (2 ^ 64 ≤ next + 1 ∨ next = s.spool.nextIndex + 1024) ∧
    s.TakenUpTo next

def recordBytes (s : Disk) (line : Line) : ℕ := (build line.text s.spool.compression).totalBytes

def headerBytes (s : Disk) : ℕ := (spoolSegmentHeader s.spool.compression).length

/-- The spool after a record of the given size is written to the open segment. -/
def charge (spool : DiskSpool) (bytes : ℕ) : DiskSpool :=
  { spool with
    currentBytes := saturatingAdd spool.currentBytes bytes,
    totalBytes := saturatingAdd spool.totalBytes bytes }

/-- What a refused append leaves of the spool: the segment may have been closed. -/
def Refused (s : Disk) (spool : DiskSpool) : Prop :=
  spool = s.spool ∨ ∃ next, s.spool.nextIndex ≤ next ∧ (s.spool.nextIndex < 2 ^ 64 → next < 2 ^ 64) ∧
    spool = { s.spool with writer := none, currentBytes := 0, nextIndex := next }

/-- All that an append can do. -/
inductive AppendEffect (s : Disk) (line : Line) : Except SpoolError PUnit × Disk → Prop
  | refused {e : SpoolError} {spool : DiskSpool} (hspool : s.Refused spool)
      (hwhy : s.spool.availableBytes < s.recordBytes line ∨
        (needsSegment s.spool (s.recordBytes line) = true ∧
          (s.spool.availableBytes < s.headerBytes + s.recordBytes line ∨ s.Exhausted))) :
      AppendEffect s line (.error e, { s with spool })
  | extended {path : String} (hwriter : s.spool.writer = some path)
      (hroom : needsSegment s.spool (s.recordBytes line) = false)
      (hfits : s.recordBytes line ≤ s.spool.availableBytes) :
      AppendEffect s line (.ok ⟨⟩,
        { dir := s.dir.appendTo path (build line.text s.spool.compression).writeTo,
          spool := charge s.spool (s.recordBytes line) })
  | opened {index : ℕ} {dir : SpoolDir}
      (hfits : s.headerBytes + s.recordBytes line ≤ s.spool.availableBytes)
      (hfiles : dir.files = s.dir.files ++ [(spoolSegmentPath index,
        spoolSegmentHeader s.spool.compression ++ (build line.text s.spool.compression).writeTo)])
      (hle : s.spool.nextIndex ≤ index) (hbound : index + 1 < 2 ^ 64) :
      AppendEffect s line (.ok ⟨⟩, { dir, spool := { s.spool with
        writer := some (spoolSegmentPath index),
        currentBytes := saturatingAdd s.headerBytes (s.recordBytes line),
        totalBytes := saturatingAdd (saturatingAdd s.spool.totalBytes s.headerBytes)
          (s.recordBytes line),
        nextIndex := index + 1 } })

/-- The state after `close_current_segment`. -/
def closed (s : Disk) : Disk :=
  { s with spool := { s.spool with writer := none, currentBytes := 0 } }

theorem openSegment_run (s : Disk) (r : ℕ) : (openSegment r).run s =
    (do
      Op.lift (failIf (s.spool.availableBytes < saturatingAdd s.headerBytes r)
        (.full r s.spool.availableBytes s.spool.maxBytes))
      let path ← createNextSegment 1024
      let t ← Op.read
      Op.write { dir := t.dir.appendTo path (spoolSegmentHeader s.spool.compression),
                 spool := { t.spool with
                   writer := some path, currentBytes := s.headerBytes,
                   totalBytes := saturatingAdd t.spool.totalBytes s.headerBytes } } :
      Op Disk SpoolError PUnit).run s.closed := rfl

/-- Opening a segment is refused, or adds a file that holds the header. -/
theorem openSegment_cases (s : Disk) (r : ℕ) (hr : s.headerBytes + r < 2 ^ 64) :
    (∃ e spool, (openSegment r).run s = (.error e, { s with spool }) ∧ s.Refused spool ∧
      (s.spool.availableBytes < s.headerBytes + r ∨ s.Exhausted)) ∨
    (∃ index dir, (openSegment r).run s = (.ok ⟨⟩, { dir, spool := { s.spool with
        writer := some (spoolSegmentPath index), currentBytes := s.headerBytes,
        totalBytes := saturatingAdd s.spool.totalBytes s.headerBytes, nextIndex := index + 1 } }) ∧
      dir.files = s.dir.files ++
        [(spoolSegmentPath index, spoolSegmentHeader s.spool.compression)] ∧
      s.headerBytes + r ≤ s.spool.availableBytes ∧ s.spool.nextIndex ≤ index ∧
      index + 1 < 2 ^ 64) := by
  rw [openSegment_run, saturatingAdd_eq hr]
  by_cases hfull : s.spool.availableBytes < s.headerBytes + r
  · rw [failIf, if_pos (decide_eq_true hfull)]
    exact Or.inl ⟨_, _, rfl, Or.inr ⟨s.spool.nextIndex, le_rfl, id, rfl⟩, Or.inl hfull⟩
  · rw [failIf, if_neg (by simpa using hfull), Op.run_lift_ok_bind]
    rcases createNextSegment_run 1024 s.closed with
      ⟨index, dir, hrun, hfiles, hle, hbound⟩ | ⟨message, next, hrun, hle, hend, htaken, hnext⟩
    · rw [Op.run_bind_ok hrun, Op.run_read_bind]
      exact Or.inr ⟨index, _, rfl, SpoolDir.files_appendTo hfiles, Nat.le_of_not_lt hfull, hle,
        hbound⟩
    · rw [Op.run_bind_error hrun]
      exact Or.inl ⟨_, _, rfl, Or.inr ⟨next, hle, hnext, rfl⟩, Or.inr ⟨next, hle, hend, htaken⟩⟩

theorem ensureSegment_run (s : Disk) (r : ℕ) : (ensureSegment r).run s =
    if needsSegment s.spool r then (openSegment r).run s else (.ok ⟨⟩, s) := by
  rw [ensureSegment, Op.run_read_bind]
  split_ifs <;> rfl

theorem writeRecord_run {t : Disk} {path : String} (record : PendingSpoolRecord)
    (hwriter : t.spool.writer = some path) : (writeRecord record).run t =
      (.ok ⟨⟩, { dir := t.dir.appendTo path record.writeTo,
                 spool := { t.spool with
                   currentBytes := saturatingAdd t.spool.currentBytes record.totalBytes,
                   totalBytes := saturatingAdd t.spool.totalBytes record.totalBytes } }) := by
  rw [writeRecord, Op.run_read_bind, hwriter]
  rfl

theorem append_run (s : Disk) (line : Line) : (append line).run s =
    (do
      Op.lift (failIf (s.recordBytes line > s.spool.maxBytes)
        (.recordTooLarge (s.recordBytes line) s.spool.maxBytes))
      Op.lift (failIf (s.spool.availableBytes < s.recordBytes line)
        (.full (s.recordBytes line) s.spool.availableBytes s.spool.maxBytes))
      ensureSegment (s.recordBytes line)
      writeRecord (build line.text s.spool.compression) : Op Disk SpoolError PUnit).run s := rfl

theorem append_effect (s : Disk) (line : Line) :
    AppendEffect s line ((append line).run s) := by
  have hsmall : s.headerBytes + s.recordBytes line < 2 ^ 64 := by
    have hr := totalBytes_build_lt line s.spool.compression
    have hh := length_spoolSegmentHeader s.spool.compression
    rw [headerBytes, recordBytes]
    omega
  rw [append_run]
  by_cases hbig : s.recordBytes line > s.spool.maxBytes
  · rw [failIf, if_pos (decide_eq_true hbig)]
    refine .refused (Or.inl rfl) (Or.inl ?_)
    exact lt_of_le_of_lt (Nat.sub_le _ _) hbig
  rw [failIf, if_neg (by simpa using hbig), Op.run_lift_ok_bind]
  by_cases hfull : s.spool.availableBytes < s.recordBytes line
  · rw [failIf, if_pos (decide_eq_true hfull)]
    exact .refused (Or.inl rfl) (Or.inl hfull)
  rw [failIf, if_neg (by simpa using hfull), Op.run_lift_ok_bind]
  have hensure := ensureSegment_run s (s.recordBytes line)
  cases hneeds : needsSegment s.spool (s.recordBytes line) with
  | false =>
    rw [hneeds] at hensure
    obtain ⟨path, hwriter⟩ : ∃ path, s.spool.writer = some path := by
      rw [needsSegment, Bool.or_eq_false_iff, Option.isNone_eq_false_iff] at hneeds
      exact Option.isSome_iff_exists.1 hneeds.1
    rw [Op.run_bind_ok hensure, writeRecord_run _ hwriter]
    exact .extended hwriter hneeds (Nat.le_of_not_lt hfull)
  | true =>
    rw [hneeds] at hensure
    rcases openSegment_cases s (s.recordBytes line) hsmall with
      ⟨e, spool, hrun, hspool, hwhy⟩ | ⟨index, dir, hrun, hfiles, hfits, hle, hbound⟩
    · rw [Op.run_bind_error (hensure.trans hrun)]
      exact .refused hspool (Or.inr ⟨hneeds, hwhy⟩)
    · rw [Op.run_bind_ok (hensure.trans hrun)]
      exact .opened hfits (SpoolDir.files_appendTo hfiles) hle hbound

end Disk

/-- A segment that the spool has written. -/
structure Segment where
  index : ℕ
  compression : SpoolCompression
  lines : List Line

namespace Segment

def bytes (seg : Segment) : List UInt8 := segmentBytes seg.compression seg.lines

def file (seg : Segment) : String × List UInt8 := (spoolSegmentPath seg.index, seg.bytes)

def add (seg : Segment) (line : Line) : Segment := { seg with lines := seg.lines ++ [line] }

theorem bytes_add (seg : Segment) (line : Line) :
    (seg.add line).bytes = seg.bytes ++ (build line.text seg.compression).writeTo := by
  simp [bytes, add, segmentBytes]

theorem file_add (seg : Segment) (line : Line) : (seg.add line).file =
    (spoolSegmentPath seg.index, seg.bytes ++ (build line.text seg.compression).writeTo) := by
  rw [file, bytes_add]
  rfl

end Segment

/-- The directory holds the files it started with and the given segments behind them; a writer
stands at the end of the last one. -/
structure Holds (dir₀ : SpoolDir) (segs : List Segment) (s : Disk) : Prop where
  files : s.dir.files = dir₀.files ++ segs.map Segment.file
  index_lt : ∀ seg ∈ segs, seg.index + 1 < 2 ^ 64
  writer : ∀ path, s.spool.writer = some path → ∃ init last, segs = init ++ [last] ∧
    path = spoolSegmentPath last.index ∧ last.compression = s.spool.compression

namespace Holds

variable {dir₀ : SpoolDir} {segs : List Segment} {s s' : Disk} {line : Line}

theorem openSpool (h : Holds dir₀ segs s) (cfg : SpoolConfig) :
    Holds dir₀ segs (openSpool cfg s.dir) :=
  ⟨h.files, h.index_lt, fun _ hpath => absurd hpath (by simp [Disk.openSpool])⟩

theorem start (cfg : SpoolConfig) (dir₀ : SpoolDir) : Holds dir₀ [] (Disk.openSpool cfg dir₀) :=
  ⟨by simp [Disk.openSpool], by simp, fun _ hpath => absurd hpath (by simp [Disk.openSpool])⟩

theorem refused (h : Holds dir₀ segs s) {spool : DiskSpool} (hspool : s.Refused spool) :
    Holds dir₀ segs { s with spool } := by
  refine ⟨h.files, h.index_lt, fun path hpath => ?_⟩
  rcases hspool with rfl | ⟨next, -, -, rfl⟩
  · exact h.writer path hpath
  · simp at hpath

theorem extended (h : Holds dir₀ segs s) {path : String} (hwriter : s.spool.writer = some path)
    (line : Line) (bytes : ℕ) :
    ∃ init last, segs = init ++ [last] ∧ path = spoolSegmentPath last.index ∧
      last.compression = s.spool.compression ∧ Holds dir₀ (init ++ [last.add line])
        { dir := s.dir.appendTo path (build line.text s.spool.compression).writeTo,
          spool := charge s.spool bytes } := by
  obtain ⟨init, last, rfl, rfl, hlast⟩ := h.writer path hwriter
  refine ⟨init, last, rfl, rfl, hlast, ?_, ?_, ?_⟩
  · have hfiles := h.files
    rw [map_append, ← append_assoc] at hfiles
    rw [SpoolDir.files_appendTo hfiles, map_append, map_singleton, last.file_add, hlast,
      append_assoc]
  · exact forall_mem_concat (fun seg hseg => h.index_lt seg (mem_append_left _ hseg))
      (h.index_lt last (by simp))
  · intro path hpath
    rw [charge, hwriter, Option.some_inj] at hpath
    exact ⟨init, last.add line, rfl, hpath.symm, hlast⟩

theorem opened (h : Holds dir₀ segs s) {index : ℕ} {dir : SpoolDir} (hbound : index + 1 < 2 ^ 64)
    (hfiles : dir.files = s.dir.files ++ [(spoolSegmentPath index,
      spoolSegmentHeader s.spool.compression ++ (build line.text s.spool.compression).writeTo)])
    (currentBytes totalBytes nextIndex : ℕ) :
    Holds dir₀ (segs ++ [⟨index, s.spool.compression, [line]⟩]) { dir, spool := { s.spool with
      writer := some (spoolSegmentPath index), currentBytes, totalBytes, nextIndex } } := by
  refine ⟨?_, ?_, ?_⟩
  · rw [hfiles, h.files, ]
    simp [Segment.file, Segment.bytes, segmentBytes]
  · exact forall_mem_concat h.index_lt hbound
  · intro path hpath
    exact ⟨segs, _, rfl, (Option.some_inj.1 hpath).symm, rfl⟩

/-- The segments of the directory, with their indices. -/
theorem segments_eq (h : Holds dir₀ segs s) :
    s.dir.segments = dir₀.segments ++ segs.map fun seg => (seg.index, seg.bytes) := by
  have hnew : ∀ l : List Segment, (∀ seg ∈ l, seg.index + 1 < 2 ^ 64) →
      ((l.map Segment.file).filterMap fun file =>
          (spoolSegmentIndex file.1).map fun index => (index, file.2)) =
        l.map fun seg => (seg.index, seg.bytes) := by
    intro l hl
    induction l with
    | nil => rfl
    | cons seg l ih =>
      have hindex := spoolSegmentIndex_path (Nat.lt_of_succ_lt (hl seg mem_cons_self))
      rw [map_cons, filterMap_cons, Segment.file, hindex, map_cons,
        ← ih fun seg hseg => hl seg (mem_cons_of_mem _ hseg)]
      rfl
  rw [SpoolDir.segments, h.files, filterMap_append, hnew segs h.index_lt]
  rfl

end Holds

/-! ### Scanning a directory -/

/-- The scan looks for the largest index. -/
theorem scanSpoolDir_snd (dir : SpoolDir) : (scanSpoolDir dir).2 =
    ((dir.segments.map Prod.fst).max?.bind fun index => checkedAdd index 1).getD 1 := by
  have hfold : ∀ (l : List (ℕ × List UInt8)) (index : ℕ),
      l.foldl (fun current seg => some (current.elim seg.1 fun index => max index seg.1))
        (some index) = some ((l.map Prod.fst).foldl max index) := by
    intro l
    induction l with
    | nil => exact fun index => rfl
    | cons seg l ih => exact fun index => ih (max index seg.1)
  rw [scanSpoolDir]
  cases dir.segments with
  | nil => rfl
  | cons seg l =>
    exact congrArg (fun index => (Option.bind index fun index => checkedAdd index 1).getD 1)
      (hfold l seg.1)

/-- The scan continues behind all segments, unless one has the last index. -/
theorem scanSpoolDir_next {dir : SpoolDir} (h : ∀ seg ∈ dir.segments, seg.1 + 1 < 2 ^ 64) :
    (∀ seg ∈ dir.segments, seg.1 < (scanSpoolDir dir).2) ∧ (scanSpoolDir dir).2 < 2 ^ 64 := by
  rw [scanSpoolDir_snd]
  cases hmax : (dir.segments.map Prod.fst).max? with
  | none =>
    rw [max?_eq_none_iff, map_eq_nil_iff] at hmax
    simp [hmax]
  | some m =>
    obtain ⟨hmem, hle⟩ := max?_eq_some_iff.1 hmax
    obtain ⟨seg, hseg, rfl⟩ := mem_map.1 hmem
    have hadd : checkedAdd seg.1 1 = some (seg.1 + 1) := checkedAdd_eq_some.2 ⟨h seg hseg, rfl⟩
    rw [Option.bind_some, hadd]
    refine ⟨fun other hother => ?_, h seg hseg⟩
    exact Nat.lt_succ_of_le (hle _ (mem_map_of_mem hother))

/-- The total of the scan, as long as it fits a word. -/
theorem scanSpoolDir_total {dir : SpoolDir}
    (h : (dir.segments.map (·.2.length)).sum < 2 ^ 64) :
    (scanSpoolDir dir).1 = (dir.segments.map (·.2.length)).sum := by
  have hfold : ∀ (l : List (ℕ × List UInt8)) acc, acc + (l.map (·.2.length)).sum < 2 ^ 64 →
      l.foldl (fun total seg => saturatingAdd total seg.2.length) acc =
        acc + (l.map (·.2.length)).sum := by
    intro l
    induction l with
    | nil => exact fun acc _ => rfl
    | cons seg l ih =>
      intro acc hacc
      rw [map_cons, sum_cons] at hacc ⊢
      rw [foldl_cons, saturatingAdd_eq (by omega), ih _ (by omega)]
      omega
  have htotal := hfold dir.segments 0 (by omega)
  rwa [Nat.zero_add] at htotal

/-! ### The round trip -/

/-- The indices of the segments written lie behind those found at the start, increase, and stay
below the next one. -/
structure Ordered (dir₀ : SpoolDir) (indices : List ℕ) (next : ℕ) : Prop where
  increasing : indices.Pairwise (· < ·)
  fresh : ∀ old ∈ dir₀.segments, ∀ i ∈ indices, old.1 < i
  old_lt : ∀ old ∈ dir₀.segments, old.1 < next
  new_lt : ∀ i ∈ indices, i < next
  next_lt : next < 2 ^ 64

theorem Ordered.mono {dir₀ : SpoolDir} {indices : List ℕ} {next next' : ℕ}
    (h : Ordered dir₀ indices next) (hle : next ≤ next') (hlt : next' < 2 ^ 64) :
    Ordered dir₀ indices next' :=
  ⟨h.increasing, h.fresh, fun old hold => (h.old_lt old hold).trans_le hle,
    fun i hi => (h.new_lt i hi).trans_le hle, hlt⟩

theorem Ordered.concat {dir₀ : SpoolDir} {indices : List ℕ} {next index : ℕ}
    (h : Ordered dir₀ indices next) (hle : next ≤ index) (hlt : index + 1 < 2 ^ 64) :
    Ordered dir₀ (indices ++ [index]) (index + 1) := by
  refine ⟨?_, ?_, ?_, ?_, hlt⟩
  · rw [pairwise_append]
    refine ⟨h.increasing, pairwise_singleton _ _, fun i hi j hj => ?_⟩
    rw [mem_singleton.1 hj]
    exact (h.new_lt i hi).trans_le hle
  · exact fun old hold => forall_mem_concat (h.fresh old hold) ((h.old_lt old hold).trans_le hle)
  · intro old hold
    have := h.old_lt old hold
    omega
  · refine forall_mem_concat (fun i hi => ?_) (Nat.lt_succ_self index)
    have := h.new_lt i hi
    omega

/-- What a run has written: segments in order that hold exactly the accepted lines. -/
def Written (dir₀ : SpoolDir) (log : List (SpoolCall × Except SpoolError PUnit)) (s : Disk) : Prop :=
  ∃ segs, Holds dir₀ segs s ∧ Ordered dir₀ (segs.map Segment.index) s.spool.nextIndex ∧
    (segs.flatMap Segment.lines).map Line.text = accepted log

variable {dir₀ : SpoolDir} {log : List (SpoolCall × Except SpoolError PUnit)} {s : Disk}

theorem accepted_concat (x : SpoolCall × Except SpoolError PUnit) :
    accepted (log ++ [x]) = accepted log ++ accepted [x] := filterMap_append

theorem Written.append (h : Written dir₀ log s) (line : Line) :
    Written dir₀ (log ++ [(.append line, (s.call (.append line)).1)]) (s.call (.append line)).2 := by
  obtain ⟨segs, hholds, hordered, hlines⟩ := h
  have heffect := s.append_effect line
  rw [Disk.call]
  generalize (Disk.append line).run s = out at heffect
  cases heffect with
  | refused hspool =>
    refine ⟨segs, hholds.refused hspool, ?_, ?_⟩
    · rcases hspool with rfl | ⟨next, hle, hlt, rfl⟩
      · exact hordered
      · exact hordered.mono hle (hlt hordered.next_lt)
    · rw [accepted_concat, hlines]
      exact (append_nil _).symm
  | extended hwriter =>
    obtain ⟨init, last, rfl, -, -, hnext⟩ := hholds.extended hwriter line (s.recordBytes line)
    refine ⟨init ++ [last.add line], hnext, ?_, ?_⟩
    · rw [map_append] at hordered ⊢
      exact hordered
    · rw [accepted_concat, ← hlines]
      simp [Segment.add, accepted]
  | opened _ hfiles hle hbound =>
    refine ⟨segs ++ [⟨_, s.spool.compression, [line]⟩], hholds.opened hbound hfiles .., ?_, ?_⟩
    · rw [map_append]
      exact hordered.concat hle hbound
    · rw [accepted_concat, ← hlines]
      simp [accepted]

/-- No segment of the directory at the start has the last index. -/
def NoLastIndex (dir₀ : SpoolDir) : Prop := ∀ seg ∈ dir₀.segments, seg.1 ≠ 2 ^ 64 - 1

theorem index_lt_of_mem_segments {dir : SpoolDir} {seg : ℕ × List UInt8}
    (hseg : seg ∈ dir.segments) : seg.1 < 2 ^ 64 := by
  obtain ⟨file, -, hfile⟩ := mem_filterMap.1 hseg
  obtain ⟨index, hindex, rfl⟩ := Option.map_eq_some_iff.1 hfile
  unfold spoolSegmentIndex at hindex
  simp only [Option.bind_eq_bind, Option.bind_eq_some_iff] at hindex
  obtain ⟨-, -, value, -, hvalue⟩ := hindex
  unfold fromStrRadix at hvalue
  split_ifs at hvalue
  rw [Option.filter_eq_some_iff] at hvalue
  simpa using hvalue.2

theorem NoLastIndex.index_lt (h : NoLastIndex dir₀) {seg : ℕ × List UInt8}
    (hseg : seg ∈ dir₀.segments) : seg.1 + 1 < 2 ^ 64 := by
  have hne := h seg hseg
  have hlt := index_lt_of_mem_segments hseg
  omega

/-- The last index is never given to a new segment. -/
theorem Holds.index_succ_lt {segs : List Segment} (h : Holds dir₀ segs s)
    (hlast : NoLastIndex dir₀) : ∀ seg ∈ s.dir.segments, seg.1 + 1 < 2 ^ 64 := by
  intro seg hseg
  rw [h.segments_eq] at hseg
  rcases mem_append.1 hseg with hseg | hseg
  · exact hlast.index_lt hseg
  · obtain ⟨new, hnew, rfl⟩ := mem_map.1 hseg
    exact h.index_lt new hnew

theorem Written.restart (h : Written dir₀ log s) (hlast : NoLastIndex dir₀) (cfg : SpoolConfig) :
    Written dir₀ (log ++ [(.restart cfg, (s.call (.restart cfg)).1)])
      (s.call (.restart cfg)).2 := by
  obtain ⟨segs, hholds, hordered, hlines⟩ := h
  obtain ⟨hbelow, hlt⟩ := scanSpoolDir_next (hholds.index_succ_lt hlast)
  rw [hholds.segments_eq] at hbelow
  refine ⟨segs, hholds.openSpool cfg, ⟨hordered.increasing, hordered.fresh, ?_, ?_, hlt⟩, ?_⟩
  · intro old hold
    exact hbelow old (mem_append_left _ hold)
  · intro i hi
    obtain ⟨seg, hseg, rfl⟩ := mem_map.1 hi
    exact hbelow _ (mem_append_right _ (mem_map_of_mem hseg))
  · rw [accepted_concat, hlines]
    exact (append_nil _).symm

theorem Written.start (hlast : NoLastIndex dir₀) (cfg : SpoolConfig) :
    Written dir₀ [] (openSpool cfg dir₀) := by
  obtain ⟨hbelow, hlt⟩ := scanSpoolDir_next fun seg hseg => hlast.index_lt hseg
  exact ⟨[], .start cfg dir₀, ⟨.nil, by simp, hbelow, by simp, hlt⟩, rfl⟩

theorem run_written (hlast : NoLastIndex dir₀) (cfg : SpoolConfig) (calls : List SpoolCall) :
    Written dir₀ (run call (openSpool cfg dir₀) calls).1
      (run call (openSpool cfg dir₀) calls).2 := by
  apply run_inv (Written dir₀) (.start hlast cfg)
  intro log s c h
  cases c with
  | append line => exact h.append line
  | restart cfg => exact h.restart hlast cfg

theorem orderedInsert_append {α : Type*} (r : α → α → Prop) [DecidableRel r] {a : α}
    (xs ys : List α) (h : ∀ y ∈ ys, r a y) :
    (xs ++ ys).orderedInsert r a = xs.orderedInsert r a ++ ys := by
  induction xs with
  | nil =>
    cases ys with
    | nil => rfl
    | cons y ys => simp [h y mem_cons_self]
  | cons x xs ih =>
    rw [cons_append, orderedInsert_cons, orderedInsert_cons, ih]
    split_ifs <;> rfl

/-- Sorting leaves a sorted end alone that lies behind everything else. -/
theorem insertionSort_append {α : Type*} (r : α → α → Prop) [DecidableRel r] (xs : List α)
    {ys : List α} (hys : ys.Pairwise r) (h : ∀ x ∈ xs, ∀ y ∈ ys, r x y) :
    (xs ++ ys).insertionSort r = xs.insertionSort r ++ ys := by
  induction xs with
  | nil => exact hys.insertionSort_eq
  | cons x xs ih =>
    rw [cons_append, insertionSort_cons, insertionSort_cons,
      ih fun x' hx' => h x' (mem_cons_of_mem _ hx'),
      orderedInsert_append r _ _ (h x mem_cons_self)]

theorem mapM_decode_segments (segs : List Segment) :
    (segs.map fun seg => (seg.index, seg.bytes)).mapM
        (fun seg => decodeSpoolSegmentBytes seg.2) =
      .ok (segs.map fun seg =>
        seg.lines.map fun line => decodedRecord line.text seg.compression) := by
  induction segs with
  | nil => rfl
  | cons seg segs ih =>
    rw [map_cons, mapM_cons, ih, Segment.bytes, decodeSpoolSegmentBytes_segmentBytes]
    rfl

theorem map_line_decoded (segs : List Segment) :
    ((segs.map fun seg => seg.lines.map fun line =>
        decodedRecord line.text seg.compression).flatten.map (·.line)) =
      (segs.flatMap Segment.lines).map Line.text := by
  rw [map_flatten, map_map, map_flatMap]
  congr 2
  funext seg
  simp

/-- Reading the directory gives what was there at the start and the lines of the segments. -/
theorem Holds.readLines {segs : List Segment} (h : Holds dir₀ segs s)
    (hordered : Ordered dir₀ (segs.map Segment.index) s.spool.nextIndex) :
    s.dir.readLines =
      dir₀.readLines.map (· ++ (segs.flatMap Segment.lines).map Line.text) := by
  have hnew : (segs.map fun seg => (seg.index, seg.bytes)).Pairwise fun a b => a.1 ≤ b.1 := by
    rw [pairwise_map]
    exact (pairwise_map.1 hordered.increasing).imp Nat.le_of_lt
  have hsort := insertionSort_append (fun a b : ℕ × List UInt8 => a.1 ≤ b.1) dir₀.segments hnew
    (by
      intro old hold new hmem
      obtain ⟨seg, hseg, rfl⟩ := mem_map.1 hmem
      exact (hordered.fresh old hold _ (mem_map_of_mem hseg)).le)
  simp only [SpoolDir.readLines, h.segments_eq, hsort, mapM_append, mapM_decode_segments]
  cases (dir₀.segments.insertionSort fun a b => a.1 ≤ b.1).mapM
      fun seg => decodeSpoolSegmentBytes seg.2 with
  | error e => rfl
  | ok decoded =>
    show Except.ok ((decoded ++ _).flatten.map (·.line)) = Except.ok (_ ++ _)
    rw [flatten_append, map_append, map_line_decoded]

/-- Across any appends and restarts, the directory reads as it did at the start followed by the
accepted lines in the order of their appends. The segments written have increasing indices behind
those of the start and decode to the accepted lines; the files found at the start, and at every
restart, stay as they are. -/
theorem run_readLines (dir₀ : SpoolDir) (cfg : SpoolConfig) (calls : List SpoolCall)
    (hlast : NoLastIndex dir₀) :
    let out := run call (openSpool cfg dir₀) calls
    out.2.dir.readLines = dir₀.readLines.map (· ++ accepted out.1) ∧
      (∃ created, out.2.dir.segments = dir₀.segments ++ created ∧
        (created.map Prod.fst).Pairwise (· < ·) ∧
        (created.mapM fun seg => decodeSpoolSegmentBytes seg.2).map
          (fun decoded => decoded.flatten.map (·.line)) = .ok (accepted out.1) ∧
        ∀ old ∈ dir₀.segments, ∀ new ∈ created, old.1 < new.1) ∧
      dir₀.files <+: out.2.dir.files ∧
      ∀ before cfg' after, calls = before ++ .restart cfg' :: after →
        (run call (openSpool cfg dir₀) before).2.dir.files <+: out.2.dir.files := by
  intro out
  obtain ⟨segs, hholds, hordered, hlines⟩ := run_written hlast cfg calls
  refine ⟨?_, ⟨segs.map fun seg => (seg.index, seg.bytes), hholds.segments_eq, ?_, ?_, ?_⟩, ?_, ?_⟩
  · rw [hholds.readLines hordered, hlines]
  · rw [map_map]
    exact hordered.increasing
  · rw [mapM_decode_segments, ← hlines, ← map_line_decoded]
    rfl
  · intro old hold new hnew
    obtain ⟨seg, hseg, rfl⟩ := mem_map.1 hnew
    exact hordered.fresh old hold _ (mem_map_of_mem hseg)
  · rw [hholds.files]
    exact prefix_append _ _
  · -- after a restart the run is one from the directory as it is then
    intro before cfg' after hcalls
    obtain ⟨segs₁, hholds₁, -, -⟩ := run_written hlast cfg before
    generalize hs₁ : (run call (openSpool cfg dir₀) before).2 = s₁ at hholds₁ ⊢
    have hlast₁ : NoLastIndex s₁.dir := by
      intro seg hseg
      have := hholds₁.index_succ_lt hlast seg hseg
      omega
    have hout : out.2 = (run call (openSpool cfg' s₁.dir) after).2 := by
      rw [show out = run call (openSpool cfg dir₀) calls from rfl, hcalls, run_append,
        run_cons, hs₁]
      rfl
    obtain ⟨segs₂, hholds₂, -, -⟩ := run_written hlast₁ cfg' after
    rw [hout, hholds₂.files]
    exact prefix_append _ _

def smallConfig : SpoolConfig where
  maxBytes := 1000
  segmentBytes := 500
  compression := .none
  maxBytes_lt := by norm_num

theorem length_utf8_x : (utf8 "x").length < 2 ^ 63 := by decide

def lineX : Line := ⟨"x", length_utf8_x⟩

/-- A directory with one empty segment. -/
def oneSegment : SpoolDir where
  files := [("spool-7.seg", segmentHeaderV1)]
  nodup := nodup_singleton _

theorem run_readLines_restart :
    NoLastIndex oneSegment ∧
      (run call (openSpool smallConfig oneSegment)
        [.append lineX, .restart smallConfig, .append lineX]).2.dir.readLines = .ok ["x", "x"] := by
  have hlast : NoLastIndex oneSegment := by
    unfold NoLastIndex
    decide
  refine ⟨hlast, ?_⟩
  rw [(run_readLines oneSegment smallConfig _ hlast).1]
  rfl

/-! ### Accounting -/

/-- The bytes of the segment files of a directory. -/
def SpoolDir.size (dir : SpoolDir) : ℕ := (dir.segments.map (·.2.length)).sum

/-- What is charged is what the files hold, within the budget, and no segment grows past its
limit by a second record. -/
structure Charged (cfg : SpoolConfig) (segs : List Segment) (s : Disk) : Prop where
  maxBytes : s.spool.maxBytes = cfg.maxBytes
  segmentBytes : s.spool.segmentBytes = cfg.segmentBytes
  total : s.spool.totalBytes = s.dir.size
  budget : s.spool.totalBytes ≤ cfg.maxBytes
  limit : ∀ seg ∈ segs, 1 < seg.lines.length → seg.bytes.length ≤ cfg.segmentBytes
  current : ∀ path, s.spool.writer = some path → ∀ last ∈ segs.getLast?,
    s.spool.currentBytes = last.bytes.length

theorem Holds.size_eq {segs : List Segment} (h : Holds dir₀ segs s) :
    s.dir.size = dir₀.size + (segs.map fun seg => seg.bytes.length).sum := by
  rw [SpoolDir.size, h.segments_eq, map_append, sum_append, map_map]
  rfl

theorem length_bytes_add (seg : Segment) (line : Line) (h : seg.compression = s.spool.compression) :
    (seg.add line).bytes.length = seg.bytes.length + s.recordBytes line := by
  rw [Segment.bytes_add, length_append, recordBytes, totalBytes_build, h]

theorem Segment.length_bytes_pos (seg : Segment) : 0 < seg.bytes.length := by
  have := (length_spoolSegmentHeader seg.compression).1
  rw [Segment.bytes, Spool.segmentBytes, length_append]
  omega

variable {cfg : SpoolConfig}

theorem Charged.append {segs : List Segment} (h : Charged cfg segs s)
    (hholds : Holds dir₀ segs s) (line : Line) : ∃ segs',
      Holds dir₀ segs' (s.call (.append line)).2 ∧ Charged cfg segs' (s.call (.append line)).2 := by
  have heffect := s.append_effect line
  have hmax := cfg.maxBytes_lt
  have hbudget := h.budget
  have havail : s.spool.availableBytes = cfg.maxBytes - s.spool.totalBytes := by
    rw [DiskSpool.availableBytes, h.maxBytes]
  rw [Disk.call]
  generalize (Disk.append line).run s = out at heffect
  cases heffect with
  | refused hspool =>
    refine ⟨segs, hholds.refused hspool, ?_⟩
    rcases hspool with rfl | ⟨next, -, -, rfl⟩
    · exact h
    · exact ⟨h.maxBytes, h.segmentBytes, h.total, h.budget, h.limit, by simp⟩
  | extended hwriter hroom hfits =>
    obtain ⟨init, last, rfl, -, hlast, hnext⟩ := hholds.extended hwriter line (s.recordBytes line)
    have hsize := hnext.size_eq
    have hcurrent := h.current _ hwriter last (by simp)
    have hadd := length_bytes_add last line hlast
    have hold := hholds.size_eq
    have htotal := h.total
    rw [map_append, sum_append, map_singleton, sum_singleton] at hsize hold
    have hsum : saturatingAdd s.spool.totalBytes (s.recordBytes line) =
        s.spool.totalBytes + s.recordBytes line := saturatingAdd_eq (by omega)
    have hcur : saturatingAdd s.spool.currentBytes (s.recordBytes line) =
        s.spool.currentBytes + s.recordBytes line := saturatingAdd_eq (by omega)
    refine ⟨_, hnext, h.maxBytes, h.segmentBytes, ?_, ?_, ?_, ?_⟩
    · exact hsum.trans (Eq.trans (by omega) hsize.symm)
    · exact hsum.trans_le (by omega)
    · intro seg hseg hlines
      rcases mem_append.1 hseg with hseg | hseg
      · exact h.limit seg (mem_append_left _ hseg) hlines
      · rw [mem_singleton.1 hseg]
        have hpos := last.length_bytes_pos
        have hroom' := hroom
        rw [Disk.needsSegment, h.segmentBytes, hwriter] at hroom'
        simp only [Option.isNone_some, Bool.false_or, Bool.and_eq_false_iff, decide_eq_false_iff_not]
          at hroom'
        omega
    · intro path _ seg hseg
      rw [getLast?_append, getLast?_singleton] at hseg
      obtain rfl := Option.some_inj.1 hseg
      exact hcur.trans (by omega)
  | @opened index dir hfits hfiles _ hbound =>
    have hnext := hholds.opened hbound hfiles (saturatingAdd s.headerBytes (s.recordBytes line))
      (saturatingAdd (saturatingAdd s.spool.totalBytes s.headerBytes) (s.recordBytes line))
      (index + 1)
    have hsize := hnext.size_eq
    have hold := hholds.size_eq
    have htotal := h.total
    have hnew : (Segment.mk index s.spool.compression [line]).bytes.length =
        s.headerBytes + s.recordBytes line := by
      rw [Disk.headerBytes, Disk.recordBytes, totalBytes_build]
      simp [Segment.bytes, Spool.segmentBytes]
    rw [map_append, sum_append, map_singleton, sum_singleton, hnew] at hsize
    have hsum : saturatingAdd (saturatingAdd s.spool.totalBytes s.headerBytes)
        (s.recordBytes line) = s.spool.totalBytes + s.headerBytes + s.recordBytes line := by
      rw [saturatingAdd_eq (by omega : s.spool.totalBytes + s.headerBytes < 2 ^ 64)]
      exact saturatingAdd_eq (by omega)
    have hcur : saturatingAdd s.headerBytes (s.recordBytes line) =
        s.headerBytes + s.recordBytes line := saturatingAdd_eq (by omega)
    refine ⟨_, hnext, h.maxBytes, h.segmentBytes, ?_, ?_, ?_, ?_⟩
    · exact hsum.trans (Eq.trans (by omega) hsize.symm)
    · exact hsum.trans_le (by omega)
    · exact forall_mem_concat h.limit fun hlines => absurd hlines (by simp)
    · intro path _ seg hseg
      rw [getLast?_append, getLast?_singleton] at hseg
      obtain rfl := Option.some_inj.1 hseg
      exact hcur.trans hnew.symm

theorem Charged.start (hsize : dir₀.size ≤ cfg.maxBytes) :
    Charged cfg [] (openSpool cfg dir₀) := by
  have htotal : (scanSpoolDir dir₀).1 = dir₀.size :=
    scanSpoolDir_total (lt_of_le_of_lt hsize cfg.maxBytes_lt)
  exact ⟨rfl, rfl, htotal, htotal.trans_le hsize, by simp, by simp⟩

theorem run_charged (hsize : dir₀.size ≤ cfg.maxBytes) (lines : List Line) :
    ∃ segs, Holds dir₀ segs
        (run call (openSpool cfg dir₀) (lines.map .append)).2 ∧
      Charged cfg segs (run call (openSpool cfg dir₀) (lines.map .append)).2 := by
  have hrun : ∀ (lines : List Line) (s : Disk), (∃ segs, Holds dir₀ segs s ∧ Charged cfg segs s) →
      ∃ segs, Holds dir₀ segs (run call s (lines.map .append)).2 ∧
        Charged cfg segs (run call s (lines.map .append)).2 := by
    intro lines
    induction lines with
    | nil => exact fun s h => h
    | cons line lines ih =>
      intro s h
      obtain ⟨segs, hholds, hcharged⟩ := h
      rw [map_cons, run_cons]
      exact ih _ (hcharged.append hholds line)
  exact hrun lines _ ⟨[], .start cfg dir₀, .start hsize⟩

/-- After any appends the charged total is the size of the segment files and within the budget,
no segment written goes past its limit by a second record, and an append is refused only if the
record, with a header where a new segment is needed, does not fit what is left of the budget, or
if no index is left for the segment. -/
theorem run_accounting (dir₀ : SpoolDir) (cfg : SpoolConfig) (lines : List Line)
    (hsize : dir₀.size ≤ cfg.maxBytes) :
    let s := (run call (openSpool cfg dir₀) (lines.map .append)).2
    s.spool.totalBytes = s.dir.size ∧ s.spool.totalBytes ≤ cfg.maxBytes ∧
      (∀ file ∈ s.dir.files, file ∉ dir₀.files →
        ∃ records, decodeSpoolSegmentBytes file.2 = .ok records ∧
          (1 < records.length → file.2.length ≤ cfg.segmentBytes)) ∧
      ∀ line e, ((append line).run s).1 = .error e →
        cfg.maxBytes - s.dir.size < s.recordBytes line ∨
          (needsSegment s.spool (s.recordBytes line) = true ∧
            (cfg.maxBytes - s.dir.size < s.headerBytes + s.recordBytes line ∨ s.Exhausted)) := by
  intro s
  obtain ⟨segs, hholds, hcharged⟩ := run_charged hsize lines
  refine ⟨hcharged.total, hcharged.budget, ?_, ?_⟩
  · intro file hfile hnew
    have hfiles : s.dir.files = _ := hholds.files
    rw [hfiles] at hfile
    rcases mem_append.1 hfile with hold | hmem
    · exact absurd hold hnew
    · obtain ⟨seg, hseg, rfl⟩ := mem_map.1 hmem
      refine ⟨_, decodeSpoolSegmentBytes_segmentBytes seg.compression seg.lines, fun hlen => ?_⟩
      rw [length_map] at hlen
      exact hcharged.limit seg hseg hlen
  · intro line e herror
    have hleft : s.spool.availableBytes = cfg.maxBytes - s.dir.size := by
      rw [DiskSpool.availableBytes, hcharged.maxBytes, hcharged.total]
    have heffect := s.append_effect line
    generalize (append line).run s = out at heffect herror
    cases heffect with
    | refused _ hwhy =>
      rw [hleft] at hwhy
      exact hwhy
    | extended => simp at herror
    | opened => simp at herror

theorem run_accounting_two_lines :
    oneSegment.size ≤ smallConfig.maxBytes ∧
      (run call (openSpool smallConfig oneSegment)
        ([lineX, lineX].map .append)).2.spool.totalBytes ≤ 1000 :=
  ⟨by decide, (run_accounting oneSegment smallConfig [lineX, lineX] (by decide)).2.1⟩

/-- A directory whose only segment has the last index but one. -/
def nearlyExhausted : SpoolDir where
  files := [("spool-18446744073709551614.seg", [])]
  nodup := nodup_singleton _

/-- The budget is empty and large enough, and the append is refused all the same. -/
theorem append_refused_at_last_index :
    nearlyExhausted.size ≤ smallConfig.maxBytes ∧
      (openSpool smallConfig nearlyExhausted).headerBytes +
          (openSpool smallConfig nearlyExhausted).recordBytes lineX ≤
        smallConfig.maxBytes - nearlyExhausted.size ∧
      ((append lineX).run (openSpool smallConfig nearlyExhausted)).1 =
        .error (.internal "spool segment index exhausted") := by
  refine ⟨by decide, by decide, ?_⟩
  rfl

end AegisHV.Spool
