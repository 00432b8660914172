import AegisHV.Lib.Ends
import AegisHV.Spec.Elf

/-! The ELF loader is correct: it never faults, it changes nothing when it fails, and when
it succeeds the guest memory is the image's segments and nothing else. -/

namespace AegisHV.Elf
open Sys List

/-- A field of a header, read without a bounds check. -/
def field (width : ℕ) (bytes : List UInt8) (offset : ℕ) : ℕ :=
  fromLe ((bytes.drop offset).take width)

theorem uintAt_eq {width offset : ℕ} {bytes : List UInt8} (h : offset + width ≤ bytes.length) :
    uintAt width bytes offset = .ok (field width bytes offset) := by
  rw [uintAt, slice_of_le (Nat.le_add_right _ _) h, Nat.add_sub_cancel_left]
  rfl

theorem field_lt {width : ℕ} {bytes : List UInt8} (offset : ℕ) :
    field width bytes offset < 2 ^ (8 * width) := by
  refine lt_of_lt_of_le (fromLe_lt _) (Nat.pow_le_pow_right (by norm_num) ?_)
  have := length_take_le width (bytes.drop offset)
  omega

/-- A program header of type `PT_LOAD`, as far as the loader uses it. -/
structure Segment where
  flags : ℕ
  file : ℕ
  address : ℕ
  filesz : ℕ
  memsz : ℕ
  deriving DecidableEq

namespace Segment

def ofHeader (header : List UInt8) : Segment :=
  ⟨field 4 header 4, field 8 header 8, field 8 header 16, field 8 header 32, field 8 header 40⟩

/-- Some byte of the segment lies in page `p` of the guest memory at `base`. -/
def Touches (base : ℕ) (seg : Segment) (p : ℕ) : Prop :=
  ∃ a, seg.address ≤ a ∧ a < seg.address + seg.memsz ∧ base + p * 4096 ≤ a ∧ a < base + (p + 1) * 4096

/-- What the first loop checks of a segment. -/
structure Ok (base memoryLen imageLen : ℕ) (seg : Segment) : Prop where
  flags_le : seg.flags ≤ 7
  readable : seg.flags &&& READ ≠ 0
  not_wx : seg.flags &&& 3 ≠ 3
  filesz_le : seg.filesz ≤ seg.memsz
  range : seg.memsz ≠ 0 → base ≤ seg.address ∧ seg.address - base + seg.memsz ≤ memoryLen ∧
    seg.file + seg.filesz ≤ imageLen ∧ seg.file + seg.filesz < 2 ^ 64

theorem touches_iff {base p : ℕ} {seg : Segment} (h : seg.memsz ≠ 0) (hb : base ≤ seg.address) :
    seg.Touches base p ↔ (seg.address - base) / 4096 ≤ p ∧
      p < (seg.address - base + seg.memsz + 4095) / 4096 := by
  constructor
  · rintro ⟨a, h1, h2, h3, h4⟩
    omega
  · intro hp
    exact ⟨max seg.address (base + p * 4096), by omega, by omega, by omega, by omega⟩

theorem not_touches_of_memsz_eq_zero {base p : ℕ} {seg : Segment} (h : seg.memsz = 0) :
    ¬ seg.Touches base p := by
  rintro ⟨a, h1, h2, -⟩
  omega

end Segment

def isLoad (header : List UInt8) : Bool := field 4 header 0 == 1

def loads (headers : List (List UInt8)) : List Segment :=
  (headers.filter isLoad).map Segment.ofHeader

theorem loads_append (l l' : List (List UInt8)) : loads (l ++ l') = loads l ++ loads l' := by
  simp [loads]

theorem loads_singleton (header : List UInt8) :
    loads [header] = if isLoad header then [Segment.ofHeader header] else [] := by
  unfold loads
  split_ifs with h <;> simp [h]

/-! Postconditions of the small steps; no step faults. -/

def NoPanic (f : Fault) : Prop := f ≠ .panic

theorem ends_reject (e : LoadError) (c : Bool) : Ends (fun _ => c = false) NoPanic (reject e c) := by
  cases c with
  | true => exact .error (by simp [NoPanic])
  | false => exact .ok rfl

variable {α : Type}

theorem ends_orElse (e : LoadError) (o : Option α) :
    Ends (fun a => o = some a) NoPanic (orElse e o) := by
  cases o with
  | none => exact .error (by simp [NoPanic])
  | some a => exact .ok rfl

theorem ends_fail {P : α → Prop} (e : LoadError) : Ends P NoPanic (fail e) :=
  .error (by simp [NoPanic])

theorem ends_markPages (flags : UInt8) (pages : List UInt8) :
    Ends (fun r => (∀ p ∈ pages, p = 0) ∧ r = List.replicate pages.length flags) NoPanic
      (markPages flags pages) := by
  induction pages with
  | nil => exact .ok ⟨by simp, rfl⟩
  | cons page rest ih =>
    unfold markPages
    split_ifs with h
    · exact ends_fail _
    · refine ih.bind fun r hr => .ok ⟨?_, ?_⟩
      · simp only [mem_cons, forall_eq_or_imp]
        exact ⟨not_not.1 h, hr.1⟩
      · rw [hr.2]
        rfl

theorem flags_le_of_and {flags : ℕ} (hlt : flags < 2 ^ 32) (h : flags &&& complementOf 32 7 = 0) :
    flags ≤ 7 := by
  have := and_complementOf_mask (w := 32) flags 3 hlt (by norm_num)
  rw [show 2 ^ 3 - 1 = 7 from rfl] at this
  omega

/-- The first loop has taken in one more segment. -/
structure Marked (base entry : ℕ) (seg : Segment) (scan scan' : Scan) : Prop where
  length : scan'.pageFlags.length = 32
  fresh : ∀ p, seg.Touches base p → scan.pageFlags[p]? = some 0
  touched : ∀ p, seg.Touches base p → scan'.pageFlags[p]? = some (UInt8.ofNat seg.flags)
  others : ∀ p, ¬ seg.Touches base p → scan'.pageFlags[p]? = scan.pageFlags[p]?
  entry : scan'.entryValid = true → scan.entryValid = true ∨
    (seg.flags &&& 1 ≠ 0 ∧ seg.address ≤ entry ∧ entry < seg.address + seg.filesz)

/-- The pages of a segment that is in range, marked in the flags. -/
theorem marked_splice {base entry memoryLen imageLen lo hi : ℕ} {seg : Segment} {scan : Scan}
    {valid : Bool} (hok : seg.Ok base memoryLen imageLen) (hmem : memoryLen ≤ 32 * 4096)
    (hsz : seg.memsz ≠ 0) (hlen : scan.pageFlags.length = 32)
    (hl : lo = (seg.address - base) / 4096)
    (hh : hi = (seg.address - base + seg.memsz + 4095) / 4096)
    (hfree : ∀ f ∈ (scan.pageFlags.drop lo).take (hi - lo), f = 0)
    (hentry : valid = true → scan.entryValid = true ∨
      (seg.flags &&& 1 ≠ 0 ∧ seg.address ≤ entry ∧ entry < seg.address + seg.filesz)) :
    Marked base entry seg scan
      { pageFlags := splice scan.pageFlags lo
          (List.replicate (hi - lo) (UInt8.ofNat seg.flags))
        entryValid := valid } := by
  obtain ⟨hbase, hrange, -⟩ := hok.range hsz
  have hfit : lo + (List.replicate (hi - lo) (UInt8.ofNat seg.flags)).length ≤
      scan.pageFlags.length := by
    rw [length_replicate]
    omega
  refine ⟨(splice_length hfit).trans hlen, fun p hp => ?_, fun p hp => ?_, fun p hp => ?_, hentry⟩
  · obtain ⟨h1, h2⟩ := (Segment.touches_iff hsz hbase).1 hp
    have hget : (((scan.pageFlags.drop lo).take (hi - lo)))[p - lo]? = scan.pageFlags[p]? := by
      rw [getElem?_take_of_lt (by omega), getElem?_drop]
      congr 1
      omega
    rw [← hget]
    have hlt : p - lo < ((scan.pageFlags.drop lo).take (hi - lo)).length := by
      rw [length_take, length_drop]
      omega
    rw [getElem?_eq_getElem hlt]
    exact congrArg some (hfree _ (getElem_mem hlt))
  · obtain ⟨h1, h2⟩ := (Segment.touches_iff hsz hbase).1 hp
    rw [getElem?_splice hfit, length_replicate, if_pos (by omega), getElem?_replicate,
      if_pos (by omega)]
  · rw [Segment.touches_iff hsz hbase] at hp
    rw [getElem?_splice hfit, length_replicate, if_neg (by omega)]

theorem ends_orPanic {o : Option α} {a : α} (h : o = some a) :
    Ends (· = a) NoPanic (orPanic o) := by
  subst h
  exact .ok rfl

theorem ends_markSegment {base memoryLen imageLen entry start stop : ℕ} {seg : Segment} {scan : Scan}
    (hok : seg.Ok base memoryLen imageLen) (hlen : scan.pageFlags.length = 32)
    (hmem : memoryLen ≤ 32 * 4096) (hbase : base + memoryLen < 2 ^ 64) (hzero : seg.memsz ≠ 0)
    (hs : start = seg.address - base) (ht : stop = seg.address - base + seg.memsz) :
    Ends (Marked base entry seg scan) NoPanic
      (markSegment entry seg.flags seg.address seg.filesz start stop scan) := by
  obtain ⟨hb, hrange, -⟩ := hok.range hzero
  have hfile := hok.filesz_le
  have hupper : checkedAdd stop 4095 = some (stop + 4095) :=
    checkedAdd_eq_some.2 ⟨by omega, rfl⟩
  have hend : checkedAdd seg.address seg.filesz = some (seg.address + seg.filesz) :=
    checkedAdd_eq_some.2 ⟨by omega, rfl⟩
  refine (ends_orPanic hupper).bind fun upper hu => ?_
  subst hu
  refine (ends_orPanic (slice_of_le (by omega) (by omega))).bind fun pages hpages => ?_
  refine (ends_markPages _ pages).bind fun marked hm => ?_
  have hcount : marked = List.replicate ((stop + 4095) / 4096 - start / 4096)
      (UInt8.ofNat seg.flags) := by
    rw [hm.2, hpages, length_take, length_drop, Nat.min_eq_left (by omega)]
  rw [hpages] at hm
  have key : ∀ v : Bool, _ → Marked base entry seg scan ⟨_, v⟩ := fun v =>
    marked_splice hok hmem hzero hlen (congrArg (· / 4096) hs)
      (congrArg (fun x => (x + 4095) / 4096) ht) hm.1
  simp only [hcount]
  split_ifs with hexec
  · simp only [Bool.and_eq_true, bne_iff_ne, decide_eq_true_eq] at hexec
    refine (ends_orPanic hend).bind fun fileEnd hf => .ok (key _ fun hvalid => ?_)
    rw [hf, Bool.or_eq_true, decide_eq_true_eq] at hvalid
    exact hvalid.imp_right fun hlt => ⟨hexec.1, hexec.2, hlt⟩
  · exact .ok (key _ Or.inl)

variable {header : List UInt8}

theorem ends_scanSegment {image : List UInt8} {base memoryLen entry : ℕ} {scan : Scan}
    (hh : header.length = 56) (hlen : scan.pageFlags.length = 32) (hmem : memoryLen ≤ 32 * 4096)
    (hbase : base + memoryLen < 2 ^ 64) :
    Ends (fun scan' => (Segment.ofHeader header).Ok base memoryLen image.length ∧
      Marked base entry (Segment.ofHeader header) scan scan') NoPanic
      (scanSegment image base memoryLen entry scan header) := by
  have h1 : field 4 header 4 = (Segment.ofHeader header).flags := rfl
  have h2 : field 8 header 8 = (Segment.ofHeader header).file := rfl
  have h3 : field 8 header 16 = (Segment.ofHeader header).address := rfl
  have h4 : field 8 header 32 = (Segment.ofHeader header).filesz := rfl
  have h5 : field 8 header 40 = (Segment.ofHeader header).memsz := rfl
  have hflt : (Segment.ofHeader header).flags < 2 ^ 32 := field_lt 4
  simp (disch := omega) only [scanSegment, u32At, u64At, uintAt_eq, except_ok_bind, h1, h2, h3, h4,
    h5]
  generalize Segment.ofHeader header = seg at *
  refine (ends_reject _ _).bind fun _ _ => (ends_reject _ _).bind fun _ _ =>
    (ends_reject _ _).bind fun _ _ => (ends_reject _ _).bind fun _ _ =>
    (ends_reject _ _).bind fun _ hperm => (ends_reject _ _).bind fun _ hsz => ?_
  simp only [Bool.or_eq_false_iff, bne_eq_false_iff_eq, beq_eq_false_iff_ne] at hperm
  have hfile : seg.filesz ≤ seg.memsz := by simpa using hsz
  have hle := flags_le_of_and hflt hperm.1.1
  split_ifs with hzero
  · exact .ok ⟨⟨hle, hperm.1.2, hperm.2, hfile, absurd hzero⟩, hlen,
      fun p hp => absurd hp (Segment.not_touches_of_memsz_eq_zero hzero),
      fun p hp => absurd hp (Segment.not_touches_of_memsz_eq_zero hzero), fun _ _ => rfl, Or.inl⟩
  refine (ends_orElse _ _).bind fun start hstart => (ends_orElse _ _).bind fun stop hstop =>
    (ends_reject _ _).bind fun _ hrange => ?_
  obtain ⟨hb, hs⟩ := checkedSub_eq_some.1 hstart
  obtain ⟨-, ht⟩ := checkedAdd_eq_some.1 hstop
  simp only [Bool.or_eq_false_iff, Bool.not_eq_false', decide_eq_false_iff_not, not_lt] at hrange
  have hin : seg.file + seg.filesz ≤ image.length ∧ seg.file + seg.filesz < 2 ^ 64 := by
    cases hfe : checkedAdd seg.file seg.filesz with
    | none => simp [hfe] at hrange
    | some fileEnd =>
      obtain ⟨hlt, rfl⟩ := checkedAdd_eq_some.1 hfe
      exact ⟨by simpa [hfe] using hrange.2, hlt⟩
  have hok : seg.Ok base memoryLen image.length :=
    ⟨hle, hperm.1.2, hperm.2, hfile, fun _ => ⟨hb, by omega, hin⟩⟩
  exact (ends_markSegment hok hlen hmem hbase hzero hs (by omega)).mono fun _ hm => ⟨hok, hm⟩

/-- What the first loop knows after the headers of `segs`. -/
structure Scanned (base memoryLen imageLen entry : ℕ) (segs : List Segment) (scan : Scan) :
    Prop where
  length : scan.pageFlags.length = 32
  ok : ∀ seg ∈ segs, seg.Ok base memoryLen imageLen
  marked : ∀ seg ∈ segs, ∀ p, seg.Touches base p →
    scan.pageFlags[p]? = some (UInt8.ofNat seg.flags)
  clear : ∀ p < 32, (∀ seg ∈ segs, ¬ seg.Touches base p) → scan.pageFlags[p]? = some 0
  apart : segs.Pairwise fun a b => ∀ p, ¬ (a.Touches base p ∧ b.Touches base p)
  entry : scan.entryValid = true → ∃ seg ∈ segs,
    seg.flags &&& 1 ≠ 0 ∧ seg.address ≤ entry ∧ entry < seg.address + seg.filesz

variable {image : List UInt8} {base memoryLen imageLen entry : ℕ} {segs : List Segment}
  {seg : Segment} {scan scan' : Scan}

theorem Segment.Ok.flags_ne_zero (h : seg.Ok base memoryLen imageLen) :
    UInt8.ofNat seg.flags ≠ 0 := by
  have hsmall : ∀ f ≤ 7, f &&& READ ≠ 0 → UInt8.ofNat f ≠ 0 := by decide
  exact hsmall _ h.flags_le h.readable

theorem scanned_nil : Scanned base memoryLen imageLen entry []
    { pageFlags := List.replicate 32 0, entryValid := false } := by
  refine ⟨length_replicate, by simp, by simp, fun p hp _ => ?_, List.Pairwise.nil, by simp⟩
  rw [getElem?_replicate, if_pos hp]

theorem Scanned.snoc (h : Scanned base memoryLen imageLen entry segs scan)
    (hok : seg.Ok base memoryLen imageLen) (hm : Marked base entry seg scan scan') :
    Scanned base memoryLen imageLen entry (segs ++ [seg]) scan' := by
  -- a page that is free for the new segment has no flags, and each older segment has some
  have hdisj : ∀ a ∈ segs, ∀ p, a.Touches base p → ¬ seg.Touches base p := fun a ha p hp hp' => by
    have := (hm.fresh p hp').symm.trans (h.marked a ha p hp)
    exact (h.ok a ha).flags_ne_zero (Option.some.inj this).symm
  refine ⟨hm.length, forall_mem_concat h.ok hok, forall_mem_concat (fun a ha p hp => ?_) hm.touched,
    fun p hp hnone => ?_, ?_, fun hv => ?_⟩
  · rw [hm.others p (hdisj a ha p hp)]
    exact h.marked a ha p hp
  · rw [hm.others p (hnone seg (by simp))]
    exact h.clear p hp fun a ha => hnone a (by simp [ha])
  · refine pairwise_append.2 ⟨h.apart, pairwise_singleton _ _, fun a ha b hb p hp => ?_⟩
    obtain rfl := mem_singleton.1 hb
    exact hdisj a ha p hp.1 hp.2
  · rcases hm.entry hv with hv | hv
    · obtain ⟨a, ha, hentry⟩ := h.entry hv
      exact ⟨a, by simp [ha], hentry⟩
    · exact ⟨seg, by simp, hv⟩

theorem ends_scanHeader (hh : header.length = 56)
    (hmem : memoryLen ≤ 32 * 4096) (hbase : base + memoryLen < 2 ^ 64) {seen : List (List UInt8)}
    (h : Scanned base memoryLen image.length entry (loads seen) scan) :
    Ends (Scanned base memoryLen image.length entry (loads (seen ++ [header]))) NoPanic
      (scanHeader image base memoryLen entry scan header) := by
  rw [loads_append, loads_singleton, scanHeader, u32At, uintAt_eq (by omega), except_ok_bind]
  by_cases hdyn : field 4 header 0 = 2 ∨ field 4 header 0 = 3
  · rw [if_pos hdyn]
    exact ends_fail _
  rw [if_neg hdyn]
  by_cases hload : field 4 header 0 = 1
  · rw [if_pos hload, if_pos (by simp [isLoad, hload])]
    exact (ends_scanSegment hh h.length hmem hbase).mono fun scan' hs => h.snoc hs.1 hs.2
  · rw [if_neg hload, if_neg (by simp [isLoad, hload]), append_nil]
    exact .ok h

theorem ends_scan {headers : List UInt8} (hmem : memoryLen ≤ 32 * 4096)
    (hbase : base + memoryLen < 2 ^ 64) :
    Ends (Scanned base memoryLen image.length entry (loads (chunksExact 56 headers))) NoPanic
      ((chunksExact 56 headers).foldlM (scanHeader image base memoryLen entry)
        { pageFlags := List.replicate 32 0, entryValid := false }) := by
  refine Ends.foldlM (fun seen => Scanned base memoryLen image.length entry (loads seen))
    scanned_nil fun seen header rest t hl ht => ends_scanHeader ?_ hmem hbase ht
  have hmem : header ∈ chunksExact 56 headers := by simp [hl]
  exact length_of_mem_chunksExact hmem

/-- The second loop after the headers of `segs`: their file bytes are in place, all other bytes
are zero. -/
structure Copied (image : List UInt8) (base memoryLen : ℕ) (flags : List UInt8)
    (segs : List Segment) (guest : Guest) : Prop where
  length : guest.memory.length = memoryLen
  permissions : guest.permissions = flags
  file : ∀ seg ∈ segs, ∀ i < seg.filesz,
    guest.memory[seg.address - base + i]? = image[seg.file + i]?
  zero : ∀ i < memoryLen, (∀ seg ∈ segs,
    ¬ (seg.address - base ≤ i ∧ i < seg.address - base + seg.filesz)) → guest.memory[i]? = some 0

theorem Segment.Ok.touches {x : ℕ} (h : seg.Ok base memoryLen imageLen)
    (hx : seg.address - base ≤ x ∧ x < seg.address - base + seg.filesz) :
    seg.Touches base (x / 4096) := by
  have hle := h.filesz_le
  obtain ⟨hb, -, -⟩ := h.range (by omega)
  exact ⟨base + x, by omega, by omega, by omega, by omega⟩

variable {flags : List UInt8} {guest : Guest}

theorem Copied.snoc_empty (h : Copied image base memoryLen flags segs guest)
    (hsz : seg.filesz = 0) : Copied image base memoryLen flags (segs ++ [seg]) guest := by
  refine ⟨h.length, h.permissions, forall_mem_concat h.file fun i hi => absurd hi (by omega),
    fun i hi hnone => h.zero i hi fun a ha => hnone a (by simp [ha])⟩

theorem Copied.snoc (h : Copied image base memoryLen flags segs guest)
    (hall : ∀ a ∈ segs, a.Ok base memoryLen image.length)
    (hok : seg.Ok base memoryLen image.length) (hsz : seg.memsz ≠ 0)
    (hapart : ∀ a ∈ segs, ∀ p, ¬ (a.Touches base p ∧ seg.Touches base p)) :
    Copied image base memoryLen flags (segs ++ [seg])
      { guest with
        memory := splice guest.memory (seg.address - base)
          ((image.drop seg.file).take seg.filesz) } := by
  obtain ⟨hb, hrange, hfile, -⟩ := hok.range hsz
  have hle := hok.filesz_le
  have hnew : ((image.drop seg.file).take seg.filesz).length = seg.filesz := by
    rw [length_take, length_drop]
    omega
  have hfit : seg.address - base + ((image.drop seg.file).take seg.filesz).length ≤
      guest.memory.length := by
    rw [h.length]
    omega
  refine ⟨(splice_length hfit).trans h.length, h.permissions, fun a ha i hi => ?_,
    fun i hi hnone => ?_⟩
  · rw [getElem?_splice hfit, hnew]
    rcases mem_append.1 ha with ha | ha
    · rw [if_neg, h.file a ha i hi]
      intro hin
      exact hapart a ha _ ⟨(hall a ha).touches ⟨Nat.le_add_right _ _, by omega⟩, hok.touches hin⟩
    · obtain rfl := mem_singleton.1 ha
      rw [if_pos ⟨by omega, by omega⟩, Nat.add_sub_cancel_left, getElem?_take_of_lt hi,
        getElem?_drop]
  · rw [getElem?_splice hfit, hnew, if_neg (hnone seg (by simp))]
    exact h.zero i hi fun a ha => hnone a (by simp [ha])

theorem copySegment_run (hh : header.length = 56)
    {seen : List (List UInt8)} (h : Copied image base memoryLen flags (loads seen) guest)
    (hmemory : memoryLen < 2 ^ 64)
    (hall : ∀ a ∈ loads (seen ++ [header]), a.Ok base memoryLen image.length)
    (hapart : (loads (seen ++ [header])).Pairwise
      fun a b => ∀ p, ¬ (a.Touches base p ∧ b.Touches base p)) :
    ∃ guest', (copySegment image base header).run guest = (.ok (), guest') ∧
      Copied image base memoryLen flags (loads (seen ++ [header])) guest' := by
  have h2 : field 8 header 8 = (Segment.ofHeader header).file := rfl
  have h3 : field 8 header 16 = (Segment.ofHeader header).address := rfl
  have h4 : field 8 header 32 = (Segment.ofHeader header).filesz := rfl
  have h5 : field 8 header 40 = (Segment.ofHeader header).memsz := rfl
  simp only [loads_append, loads_singleton] at hall hapart ⊢
  simp (disch := omega) only [copySegment, u32At, u64At, uintAt_eq, Op.run_lift_ok_bind, h2, h3, h4,
    h5]
  by_cases hload : field 4 header 0 ≠ 1
  · have hkind : isLoad header = false := by simp [isLoad, hload]
    refine ⟨guest, by rw [if_pos hload, Op.run_pure], ?_⟩
    simpa [hkind] using h
  have hkind : isLoad header = true := by simpa [isLoad] using hload
  rw [if_neg hload, Op.run_lift_ok_bind]
  rw [if_pos hkind] at hall hapart ⊢
  generalize Segment.ofHeader header = seg at *
  have hok := hall seg (by simp)
  have hle := hok.filesz_le
  by_cases hsz : seg.memsz = 0
  · exact ⟨guest, by rw [if_pos hsz, Op.run_pure], h.snoc_empty (by omega)⟩
  obtain ⟨hb, hrange, hfile, hfile64⟩ := hok.range hsz
  have hlen := h.length
  have hsub : checkedSub seg.address base = some (seg.address - base) :=
    checkedSub_eq_some.2 ⟨hb, rfl⟩
  have htarget : checkedAdd (seg.address - base) seg.filesz =
      some (seg.address - base + seg.filesz) := checkedAdd_eq_some.2 ⟨by omega, rfl⟩
  have hfileEnd : checkedAdd seg.file seg.filesz = some (seg.file + seg.filesz) :=
    checkedAdd_eq_some.2 ⟨hfile64, rfl⟩
  have hbytes : slice image seg.file (seg.file + seg.filesz) =
      some ((image.drop seg.file).take seg.filesz) := by
    rw [slice_of_le (by omega) hfile, Nat.add_sub_cancel_left]
  obtain ⟨old, hold⟩ : ∃ old, slice guest.memory (seg.address - base)
      (seg.address - base + seg.filesz) = some old := ⟨_, slice_of_le (by omega) (by omega)⟩
  simp only [if_neg hsz, Op.run_lift_ok_bind, hsub, htarget, hfileEnd, hbytes, orPanic,
    Op.run_read_bind, hold, Op.run_write]
  refine ⟨_, rfl, h.snoc (fun a ha => hall a (by simp [ha])) hok hsz fun a ha => ?_⟩
  exact (pairwise_append.1 hapart).2.2 a ha seg (by simp)

/-! The whole loader. -/

/-- The `PT_LOAD` program headers of an image, in the order of the header table. -/
def loadSegments (image : List UInt8) : List Segment :=
  loads (chunksExact 56 ((image.drop (field 8 image 32)).take (field 2 image 56 * 56)))

/-- What a successful load leaves behind. -/
structure Loaded (image : List UInt8) (base : ℕ) (before after : Guest) (entry : ℕ) : Prop where
  /-- The entry point is the image's, in the file bytes of an executable segment. -/
  entry_eq : entry = field 8 image 24
  entry_mem : ∃ seg ∈ loadSegments image,
    seg.flags &&& 1 ≠ 0 ∧ seg.address ≤ entry ∧ entry < seg.address + seg.filesz
  /-- A segment's memory holds its file bytes and then zeros. -/
  bytes : ∀ seg ∈ loadSegments image, ∀ i < seg.memsz, base ≤ seg.address ∧
    ∃ b, after.memory[seg.address - base + i]? = some b ∧
      (i < seg.filesz → image[seg.file + i]? = some b) ∧ (seg.filesz ≤ i → b = 0)
  pages : ∀ seg ∈ loadSegments image, ∀ p, seg.Touches base p →
    ∃ f, after.permissions[p]? = some f ∧ f.toNat = seg.flags
  not_wx : ∀ f ∈ after.permissions, f.toNat &&& 3 ≠ 3
  apart : (loadSegments image).Pairwise fun a b => ∀ p, ¬ (a.Touches base p ∧ b.Touches base p)
  /-- Everything else is zero. -/
  memory_length : after.memory.length = before.memory.length
  other_bytes : ∀ i < after.memory.length, (∀ seg ∈ loadSegments image,
    ¬ (seg.address ≤ base + i ∧ base + i < seg.address + seg.memsz)) → after.memory[i]? = some 0
  permissions_length : after.permissions.length = before.permissions.length
  other_pages : ∀ p < after.permissions.length,
    (∀ seg ∈ loadSegments image, ¬ seg.Touches base p) → after.permissions[p]? = some 0

theorem ends_checkFile (image : List UInt8) (machine : ℕ) :
    Ends (fun _ => 64 ≤ image.length) NoPanic (checkFile image machine) := by
  refine (ends_reject _ _).bind fun _ hlen => ?_
  have hlen : 64 ≤ image.length := by simpa using hlen
  rw [slice_of_le (by omega) (by omega), orPanic]
  simp (disch := omega) only [u16At, u32At, uintAt_eq, except_ok_bind]
  iterate 5 refine (ends_reject _ _).bind fun _ _ => ?_
  exact (ends_reject _ _).mono fun _ _ => hlen

theorem ends_checkGuest :
    Ends (fun _ => guest.memory.length = guest.permissions.length * 4096 ∧
      guest.permissions.length ≤ 32 ∧ base + guest.memory.length < 2 ^ 64) NoPanic
      (checkGuest base guest) := by
  refine (ends_reject _ _).bind fun _ _ => (ends_reject _ _).bind fun _ _ =>
    (ends_reject _ _).bind fun _ hcount => ?_
  have hcount : guest.permissions.length ≤ 32 := by simpa using hcount
  have hmul : checkedMul guest.permissions.length 4096 = some (guest.permissions.length * 4096) :=
    if_pos (by omega)
  refine (ends_orPanic hmul).bind fun size hsize => (ends_reject _ _).bind fun _ hmem =>
    (ends_reject _ _).mono fun _ hadd => ⟨?_, hcount, ?_⟩
  · rw [bne_eq_false_iff_eq] at hmem
    exact hmem.trans hsize
  · rw [Option.isNone_eq_false_iff] at hadd
    obtain ⟨sum, hsum⟩ := Option.isSome_iff_exists.1 hadd
    exact (checkedAdd_eq_some.1 hsum).1

theorem ends_headerTable (hlen : 64 ≤ image.length) :
    Ends (fun headers => loads (chunksExact 56 headers) = loadSegments image) NoPanic
      (headerTable image) := by
  have hcount : field 2 image 56 < 2 ^ 16 := field_lt 56
  have hmul : checkedMul (field 2 image 56) 56 = some (field 2 image 56 * 56) := if_pos (by omega)
  simp (disch := omega) only [headerTable, u16At, u64At, uintAt_eq, except_ok_bind]
  refine (ends_reject _ _).bind fun _ _ => (ends_orPanic hmul).bind fun size hsize =>
    (ends_orElse _ _).bind fun stop hstop => (ends_orElse _ _).mono fun headers hslice => ?_
  obtain ⟨-, rfl⟩ := checkedAdd_eq_some.1 hstop
  unfold slice at hslice
  split_ifs at hslice with hin
  obtain rfl := Option.some.inj hslice
  rw [Nat.add_sub_cancel_left, hsize, loadSegments]

/-- The loader's contract: an image is loaded, or nothing is changed and the fault is one of the
loader's own errors. -/
def LoadCorrect (image : List UInt8) (base : ℕ) (guest : Guest) :
    Except Fault ℕ × Guest → Prop
  | (.ok entry, guest') => Loaded image base guest guest' entry
  | (.error (.error _), guest') => guest' = guest
  | (.error .panic, _) => False

theorem loadCorrect_error {f : Fault} (h : NoPanic f) : LoadCorrect image base guest (.error f, guest) := by
  cases f with
  | error e => rfl
  | panic => exact h rfl

theorem Scanned.disjoint (h : Scanned base memoryLen imageLen entry segs scan) {a : Segment} {p : ℕ}
    (ha : a ∈ segs) (hseg : seg ∈ segs) (hp : a.Touches base p) (hp' : seg.Touches base p) :
    a = seg := by
  have : Std.Symm fun a b : Segment => ∀ p, ¬ (a.Touches base p ∧ b.Touches base p) :=
    ⟨fun a b hab p hp => hab p hp.symm⟩
  by_contra hne
  exact h.apart.forall ha hseg hne p ⟨hp, hp'⟩

/-- A byte of a segment behind its file bytes. -/
theorem Copied.zero_tail (hscan : Scanned base memoryLen image.length entry segs scan)
    (h : Copied image base memoryLen flags segs guest) (hseg : seg ∈ segs) {i : ℕ}
    (hi : seg.filesz ≤ i) (hi' : i < seg.memsz) :
    guest.memory[seg.address - base + i]? = some 0 := by
  obtain ⟨hb, hrange, -⟩ := (hscan.ok seg hseg).range (by omega)
  refine h.zero _ (by omega) fun a ha hin => ?_
  have htouch : seg.Touches base ((seg.address - base + i) / 4096) :=
    ⟨seg.address + i, by omega, by omega, by omega, by omega⟩
  obtain rfl := hscan.disjoint ha hseg ((hscan.ok a ha).touches hin) htouch
  omega

theorem Segment.Ok.toNat_flags (h : seg.Ok base memoryLen imageLen) :
    (UInt8.ofNat seg.flags).toNat = seg.flags := by
  have := h.flags_le
  exact UInt8.toNat_ofNat_of_lt (by simp only [UInt8.size]; omega)

theorem Segment.Ok.page_lt {count p : ℕ} (h : seg.Ok base (count * 4096) imageLen)
    (hp : seg.Touches base p) : p < count := by
  obtain ⟨a, h1, h2, h3, h4⟩ := hp
  obtain ⟨hb, hrange, -⟩ := h.range (by omega)
  omega

theorem loaded_of_copied {guest' : Guest}
    (hmem : guest.memory.length = guest.permissions.length * 4096)
    (hcount : guest.permissions.length ≤ 32)
    (hscan : Scanned base guest.memory.length image.length (field 8 image 24) (loadSegments image)
      scan)
    (hvalid : scan.entryValid = true)
    (hcopy : Copied image base guest.memory.length
      (scan.pageFlags.take guest.permissions.length) (loadSegments image) guest') :
    Loaded image base guest guest' (field 8 image 24) := by
  have hlen : guest'.permissions.length = guest.permissions.length := by
    rw [hcopy.permissions, length_take, hscan.length]
    omega
  have hflag : ∀ p < guest.permissions.length, guest'.permissions[p]? = scan.pageFlags[p]? :=
    fun p hp => by rw [hcopy.permissions, getElem?_take_of_lt hp]
  have hpages : ∀ seg ∈ loadSegments image, ∀ p, seg.Touches base p →
      guest'.permissions[p]? = some (UInt8.ofNat seg.flags) := fun seg hseg p hp => by
    have hok := hscan.ok seg hseg
    rw [hmem] at hok
    rw [hflag p (hok.page_lt hp), hscan.marked seg hseg p hp]
  have hother : ∀ p < guest.permissions.length,
      (∀ seg ∈ loadSegments image, ¬ seg.Touches base p) → guest'.permissions[p]? = some 0 :=
    fun p hp hnone => by rw [hflag p hp, hscan.clear p (by omega) hnone]
  refine
    { entry_eq := rfl
      entry_mem := hscan.entry hvalid
      bytes := fun seg hseg i hi => ?_
      pages := fun seg hseg p hp => ⟨_, hpages seg hseg p hp, (hscan.ok seg hseg).toNat_flags⟩
      not_wx := fun f hf => ?_
      apart := hscan.apart
      memory_length := hcopy.length
      other_bytes := fun i hi hnone => ?_
      permissions_length := hlen
      other_pages := fun p hp => hother p (hlen ▸ hp) }
  · obtain ⟨hb, hrange, hfile, -⟩ := (hscan.ok seg hseg).range (by omega)
    refine ⟨hb, ?_⟩
    rcases Nat.lt_or_ge i seg.filesz with hlt | hge
    · have hget := hcopy.file seg hseg i hlt
      have hin : seg.file + i < image.length := by omega
      rw [getElem?_eq_getElem hin] at hget ⊢
      exact ⟨_, hget, fun _ => rfl, fun hle => absurd hlt (by omega)⟩
    · exact ⟨0, hcopy.zero_tail hscan hseg hge hi, fun hlt => absurd hlt (by omega), fun _ => rfl⟩
  · obtain ⟨p, hp, rfl⟩ := getElem_of_mem hf
    have hget := getElem?_eq_getElem hp
    by_cases htouch : ∃ seg ∈ loadSegments image, seg.Touches base p
    · obtain ⟨seg, hseg, hseg'⟩ := htouch
      obtain hval := Option.some.inj (hget.symm.trans (hpages seg hseg p hseg'))
      rw [hval, (hscan.ok seg hseg).toNat_flags]
      exact (hscan.ok seg hseg).not_wx
    · have hnone : ∀ seg ∈ loadSegments image, ¬ seg.Touches base p := by
        simpa using htouch
      have hval := Option.some.inj (hget.symm.trans (hother p (hlen ▸ hp) hnone))
      rw [hval]
      decide
  · refine hcopy.zero i (hcopy.length ▸ hi) fun seg hseg hin => ?_
    have hle := (hscan.ok seg hseg).filesz_le
    obtain ⟨hb, -⟩ := (hscan.ok seg hseg).range (by omega)
    exact hnone seg hseg ⟨by omega, by omega⟩

theorem load_correct (image : List UInt8) (machine base : ℕ) (guest : Guest) :
    LoadCorrect image base guest ((load image machine base).run guest) := by
  refine Op.lift_bind_ends (ends_checkFile image machine) (fun _ => loadCorrect_error)
    fun _ hlen => ?_
  refine Op.lift_bind_ends ends_checkGuest (fun _ => loadCorrect_error) fun _ hguest => ?_
  obtain ⟨hmem, hcount, hbase⟩ := hguest
  rw [u64At, uintAt_eq (by omega), Op.run_lift_ok_bind]
  refine Op.lift_bind_ends (ends_headerTable hlen) (fun _ => loadCorrect_error)
    fun headers hheaders => ?_
  refine Op.lift_bind_ends (ends_scan (by omega) hbase) (fun _ => loadCorrect_error)
    fun scan hscan => ?_
  cases hvalid : scan.entryValid with
  | false => exact rfl
  | true =>
  have hflags : slice scan.pageFlags 0 guest.permissions.length =
      some (scan.pageFlags.take guest.permissions.length) :=
    slice_of_le (Nat.zero_le _) (by rw [hscan.length]; omega)
  simp only [Bool.not_true, Bool.false_eq_true, if_false, Op.run_write_bind, hflags, orPanic,
    Op.run_lift_ok_bind, Op.run_read_bind]
  have hstep : ∀ seen header rest t, chunksExact 56 headers = seen ++ header :: rest →
      Copied image base guest.memory.length (scan.pageFlags.take guest.permissions.length)
        (loads seen) t →
      ∃ t', (copySegment image base header).run t = (.ok (), t') ∧
        Copied image base guest.memory.length (scan.pageFlags.take guest.permissions.length)
          (loads (seen ++ [header])) t' := by
    intro seen header rest t hl ht
    have hheader : header ∈ chunksExact 56 headers := by simp [hl]
    have hsplit : loads (chunksExact 56 headers) = loads (seen ++ [header]) ++ loads rest := by
      rw [← loads_append, hl, append_assoc, singleton_append]
    refine copySegment_run (length_of_mem_chunksExact hheader) ht (by omega) (fun a ha => ?_) ?_
    · exact hscan.ok a (by simp [hsplit, ha])
    · exact (pairwise_append.1 (hsplit ▸ hscan.apart)).1
  obtain ⟨guest', hrun, hcopy⟩ := Op.forM_run
    (fun seen => Copied image base guest.memory.length
      (scan.pageFlags.take guest.permissions.length) (loads seen))
    (s := ⟨List.replicate guest.memory.length 0, scan.pageFlags.take guest.permissions.length⟩)
    ⟨length_replicate, rfl, by simp [loads], fun i hi _ => by simp [hi]⟩ hstep
  rw [Op.run_bind_ok hrun]
  rw [hheaders] at hscan hcopy
  exact loaded_of_copied hmem hcount hscan hvalid hcopy

end AegisHV.Elf
