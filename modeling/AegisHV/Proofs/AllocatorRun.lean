import AegisHV.Proofs.AllocatorRollback
import AegisHV.Lib.Ledger

/-! Whole runs of the page allocator. Each call is a move of a ledger over the pages of
the usable regions: free, handed out, or removed by a reservation. -/

namespace AegisHV
open Sys PageRun MemoryMap

namespace PhysicalPageAllocator

variable {R A : ℕ} {s s' : PhysicalPageAllocator R A} {page : ℕ}

/-- The pages the range touches have left the free runs. -/
structure Reserved (s : PhysicalPageAllocator R A) (base length : ℕ)
    (s' : PhysicalPageAllocator R A) : Prop where
  runs : Runs s'.free
  covers : ∀ p, p % 4096 = 0 → (Covers start hi s'.free.toList p ↔
    Covers start hi s.free.toList p ∧ ¬ (p < base + length ∧ base < p + 4096))
  allocated : s'.allocated = s.allocated

theorem reserveRange_reserved (h : Inv s) (base length : ℕ) :
    (∃ e, (reserveRange base length).run s = (.error e, s)) ∨
    ∃ n s', (reserveRange base length).run s = (.ok n, s') ∧ Reserved s base length s' := by
  rcases reserveRange_spec h base length with he | ⟨t, n, a, b, ht, ha, hb, hab, hcut, hae, hbe, -, -⟩
  · exact Or.inl he
  · refine Or.inr ⟨n, _, ht, ⟨?_, hcut.tidy⟩, fun p hp => ?_, rfl⟩
    · rw [hcut.list]
      exact freeRuns_cut h.runs.toFreeRuns ha hb hab
    · rw [hcut.list, freeRuns_cut_covers h.runs.toFreeRuns ha hb p]
      have hrange : (a ≤ p ∧ p < b) ↔ (p < base + length ∧ base < p + 4096) := by omega
      rw [hrange]

theorem Reserved.inv {base length : ℕ} (h : Inv s) (hr : Reserved s base length s') : Inv s' := by
  refine ⟨hr.runs, ?_, ?_, ?_, ?_⟩
  · rw [hr.allocated]
    exact h.tidy
  · rw [hr.allocated]
    exact h.nodup
  · rw [hr.allocated]
    exact h.page
  · intro p hp hcov
    rw [hr.allocated] at hp
    exact h.held p hp ((hr.covers p (h.page p hp).1).1 hcov).1

def Call.constraint : Call → PageAllocationConstraint
  | .allocateWithin constraint => constraint
  | _ => PageAllocationConstraint.any

/-- All a call can do. -/
inductive Effect (s : PhysicalPageAllocator R A) : Call → Reply × PhysicalPageAllocator R A → Prop
  | failed {c e} : Effect s c (.failed e, s)
  | reserved {base length n s'} (h : Reserved s base length s') :
      Effect s (.reserveRange base length) (.removed n, s')
  | taken {c s'} {page : HostPhysical} (h : Taken s page.raw s')
      (hmin : c.constraint.minAddress ≤ page.raw)
      (hmax : page.raw + 4096 ≤ c.constraint.maxAddressExclusive) : Effect s c (.page page, s')
  | released {page : HostPhysical} {s'} (h : Released s page.raw s') :
      Effect s (.free page) (.freed, s')

theorem allocateZeroed_effect (h : Inv s) (zeroPage : HostPhysical → Except CoreError Unit) :
    Effect s (.allocateZeroed zeroPage) (step s (.allocateZeroed zeroPage)) := by
  simp only [step, Op.reply, allocateZeroed, allocate]
  rcases allocateWithin_spec h PageAllocationConstraint.any with ⟨e, he⟩ | ⟨page, s', hok, ht, hc⟩
  · rw [Op.run_bind_error he]
    exact .failed
  rw [Op.run_bind_ok hok]
  cases hz : zeroPage page with
  | ok u => exact .taken ht hc.1 hc.2
  | error err =>
    simp only [Op.run_bind_ok (ht.freePage h)]
    exact .failed

theorem allocateWithin_effect (h : Inv s) {c : Call} {constraint : PageAllocationConstraint}
    (hc : c.constraint = constraint) : Effect s c ((allocateWithin constraint).reply .page .failed s) := by
  rcases allocateWithin_spec h constraint with ⟨e, he⟩ | ⟨page, s', hok, ht, hmin, hmax⟩
  · rw [Op.reply_error he]
    exact .failed
  · rw [Op.reply_ok hok]
    exact .taken ht (by rwa [hc]) (by rwa [hc])

theorem step_effect (h : Inv s) (c : Call) : Effect s c (step s c) := by
  cases c with
  | reserveRange base length =>
    rcases reserveRange_reserved h base length with ⟨e, he⟩ | ⟨n, s', hok, hr⟩
    · rw [step, Op.reply_error he]
      exact .failed
    · rw [step, Op.reply_ok hok]
      exact .reserved hr
  | allocate => exact allocateWithin_effect h rfl
  | allocateWithin constraint => exact allocateWithin_effect h rfl
  | allocateZeroed zeroPage => exact allocateZeroed_effect h zeroPage
  | free page =>
    rcases freePage_spec h page with ⟨e, he, -⟩ | ⟨s', hok, hr⟩
    · rw [step, Op.reply_error he]
      exact .failed
    · rw [step, Op.reply_ok hok]
      exact .released hr

theorem Effect.inv {c : Call} {r : Reply × PhysicalPageAllocator R A} (h : Inv s)
    (he : Effect s c r) : Inv r.2 := by
  cases he with
  | failed => exact h
  | reserved hr => exact hr.inv h
  | taken ht => exact ht.inv h
  | released hr => exact hr.inv h

theorem step_inv (h : Inv s) (c : Call) : Inv (step s c).2 := (step_effect h c).inv h

/-! The ledger of a run. -/

/-- The addresses of the pages in the free runs. -/
def freeSet (s : PhysicalPageAllocator R A) : Set ℕ :=
  { p | p % 4096 = 0 ∧ Covers start hi s.free.toList p }

def allocatedSet (s : PhysicalPageAllocator R A) : Set ℕ := { p | p ∈ s.allocated.toList }

/-- The free pages a successful `reserve_range` touches. -/
def removedBy (s : PhysicalPageAllocator R A) (c : Call) : Set ℕ :=
  match c, (step s c).1 with
  | .reserveRange base length, .removed _ =>
    { p | p ∈ s.freeSet ∧ p < base + length ∧ base < p + 4096 }
  | _, _ => ∅

def removedPages : PhysicalPageAllocator R A → List Call → Set ℕ
  | _, [] => ∅
  | s, c :: cs => s.removedBy c ∪ removedPages (step s c).2 cs

def ledger (s : PhysicalPageAllocator R A) (removed : Set ℕ) : Ledger ℕ :=
  ⟨s.freeSet, s.allocatedSet, removed⟩

theorem Taken.ledger (ht : Taken s page s') (removed : Set ℕ) :
    Ledger.Move (s.ledger removed) (s'.ledger removed) := by
  have hfree : s'.freeSet = s.freeSet \ {page} := by
    ext p
    have := ht.page.1
    simp only [freeSet, Set.mem_ofPred_eq, Set.mem_sdiff, Set.mem_singleton_iff, ht.covers p]
    constructor
    · rintro ⟨hp, hcov, hout⟩
      exact ⟨⟨hp, hcov⟩, by omega⟩
    · rintro ⟨⟨hp, hcov⟩, hne⟩
      exact ⟨hp, hcov, by omega⟩
  have halloc : s'.allocatedSet = insert page s.allocatedSet := by
    ext p
    simp [allocatedSet, ht.allocated.list, or_comm]
  rw [PhysicalPageAllocator.ledger, PhysicalPageAllocator.ledger, hfree, halloc]
  exact .hand _ page ⟨ht.page.1, ht.free page le_rfl (by omega)⟩

theorem Released.ledger (h : Inv s) (hr : Released s page s') (removed : Set ℕ) :
    Ledger.Move (s.ledger removed) (s'.ledger removed) := by
  have hfree : s'.freeSet = insert page s.freeSet := by
    ext p
    have := (h.page page hr.mem).1
    simp only [freeSet, Set.mem_ofPred_eq, Set.mem_insert_iff, hr.covers p]
    constructor
    · rintro ⟨hp, hcov | hin⟩
      · exact Or.inr ⟨hp, hcov⟩
      · exact Or.inl (by omega)
    · rintro (rfl | ⟨hp, hcov⟩)
      · exact ⟨this, Or.inr (by omega)⟩
      · exact ⟨hp, Or.inl hcov⟩
  have halloc : s'.allocatedSet = s.allocatedSet \ {page} := by
    ext p
    simp [allocatedSet, hr.allocated.list, h.nodup.mem_erase_iff, and_comm]
  rw [PhysicalPageAllocator.ledger, PhysicalPageAllocator.ledger, hfree, halloc]
  exact .release _ page hr.mem

theorem Reserved.ledger {base length : ℕ} (hr : Reserved s base length s') (removed : Set ℕ) :
    Ledger.Move (s.ledger removed)
      (s'.ledger (removed ∪ { p | p ∈ s.freeSet ∧ p < base + length ∧ base < p + 4096 })) := by
  have hfree : s'.freeSet =
      s.freeSet \ { p | p ∈ s.freeSet ∧ p < base + length ∧ base < p + 4096 } := by
    ext p
    constructor
    · rintro ⟨hp, hcov⟩
      obtain ⟨hold, hout⟩ := (hr.covers p hp).1 hcov
      exact ⟨⟨hp, hold⟩, fun hin => hout hin.2⟩
    · rintro ⟨⟨hp, hcov⟩, hout⟩
      exact ⟨hp, (hr.covers p hp).2 ⟨hcov, fun hin => hout ⟨⟨hp, hcov⟩, hin⟩⟩⟩
  have halloc : s'.allocatedSet = s.allocatedSet := by rw [allocatedSet, hr.allocated, allocatedSet]
  rw [PhysicalPageAllocator.ledger, PhysicalPageAllocator.ledger, hfree, halloc]
  exact .reserve _ _ fun p hp => hp.1

/-- Every call is a move of the ledger. -/
theorem step_move (h : Inv s) (c : Call) (removed : Set ℕ) :
    Ledger.Move (s.ledger removed) ((step s c).2.ledger (removed ∪ s.removedBy c)) := by
  have he := step_effect h c
  unfold removedBy
  generalize step s c = r at he
  cases he with
  | failed =>
    simp only [Set.union_empty]
    exact .stay _
  | reserved hr => exact hr.ledger removed
  | taken ht =>
    simp only [Set.union_empty]
    exact ht.ledger removed
  | released hr =>
    simp only [Set.union_empty]
    exact hr.ledger h removed

theorem run_splits {U : Set ℕ} (cs : List Call) : ∀ {s : PhysicalPageAllocator R A} {removed : Set ℕ},
    Inv s → (s.ledger removed).Splits U →
      ((run step s cs).2.ledger (removed ∪ removedPages s cs)).Splits U := by
  induction cs with
  | nil =>
    simp [run, removedPages]
  | cons c cs ih =>
    intro s removed h hs
    rw [run_cons, removedPages, ← Set.union_assoc]
    exact ih (step_inv h c) ((step_move h c removed).splits hs)

/-! The allocator a memory map gives. -/

theorem insertRegion_spec {region : MemoryRegion} (h : Runs s.free)
    (hr : insertRegion s region = .ok s') :
    Runs s'.free ∧ s'.allocated = s.allocated ∧
      ∀ x, Covers start hi s'.free.toList x ↔ Covers start hi s.free.toList x ∨
        ((region.base + 4095) / 4096 * 4096 ≤ x ∧ x < region.hi / 4096 * 4096) := by
  obtain ⟨a, ha, hr⟩ := except_bind_ok.1 hr
  obtain ⟨stop, hstop, hr⟩ := except_bind_ok.1 hr
  obtain ⟨-, ha⟩ := alignUp_page.1 ha
  obtain ⟨hlt, rfl⟩ := MemoryRegion.stop_eq_ok.1 hstop
  have hb := alignDown_page (v := region.hi) hlt
  have hle : region.hi / 4096 * 4096 ≤ region.hi := Nat.div_mul_le_self _ _
  rw [← ha, ← hb]
  rw [← hb] at hle
  set b := alignDown region.hi PAGE_SIZE_4K
  have hblt : b < 2 ^ 64 := lt_of_le_of_lt hle hlt
  simp only at hr
  split_ifs at hr with hempty
  · cases hr
    exact ⟨h, rfl, fun x => ⟨Or.inl, fun hx => hx.resolve_right (by omega)⟩⟩
  · have hcount : a + (b - a) / PAGE_SIZE_4K * 4096 = b := by
      rw [PAGE_SIZE_4K]
      omega
    have hw : (⟨a, (b - a) / PAGE_SIZE_4K⟩ : PageRun).WF := by
      refine ⟨?_, ?_, by rwa [hcount]⟩
      · dsimp only
        omega
      · exact Nat.div_pos (by rw [PAGE_SIZE_4K]; omega) (by decide)
    rcases insertFreeRun_spec h hw with ⟨t, ht, hins⟩ | ⟨e, he, -⟩
    · rw [ht] at hr
      cases hr
      refine ⟨hins.runs, rfl, fun x => ?_⟩
      rw [hins.covers x, hi_mk, hcount]
    · rw [he] at hr
      cases hr

theorem fromMemoryMap_spec {M : ℕ} {map : MemoryMap M} (h : fromMemoryMap map = .ok s) :
    Runs s.free ∧ s.allocated.Holds 0 [] ∧
      ∀ x, Covers start hi s.free.toList x ↔ ∃ r ∈ map.usableRegions,
        (r.base + 4095) / 4096 * 4096 ≤ x ∧ x < r.hi / 4096 * 4096 := by
  refine foldlM_inv (fun seen t => Runs t.free ∧ t.allocated.Holds 0 [] ∧
    ∀ x, Covers start hi t.free.toList x ↔ ∃ r ∈ seen,
      (r.base + 4095) / 4096 * 4096 ≤ x ∧ x < r.hi / 4096 * 4096) ?_ ?_ h
  · refine ⟨⟨?_, Table.tidy_replicate⟩, ⟨Table.tidy_replicate, by simp⟩, by simp⟩
    simp [freeRuns_nil]
  · rintro seen region rest t t' - ⟨hruns, halloc, hcov⟩ hins
    obtain ⟨hruns', halloc', hcov'⟩ := insertRegion_spec hruns hins
    refine ⟨hruns', by rwa [halloc'], fun x => ?_⟩
    simp only [hcov' x, hcov x, List.mem_append, List.mem_singleton, or_and_right, exists_or,
      exists_eq_left]

theorem fromMemoryMap_inv {M : ℕ} {map : MemoryMap M} (h : fromMemoryMap map = .ok s) : Inv s := by
  obtain ⟨hruns, halloc, -⟩ := fromMemoryMap_spec h
  exact ⟨hruns, halloc.tidy, by simp [halloc.list], by simp [halloc.list], by simp [halloc.list]⟩

end PhysicalPageAllocator

/-- The 4 KiB pages all of whose bytes lie in usable regions. -/
def MemoryMap.usablePages {M : ℕ} (map : MemoryMap M) : Set ℕ :=
  { p | p % 4096 = 0 ∧ ∀ x, p ≤ x → x < p + 4096 →
      ∃ r ∈ map.usableRegions, r.base ≤ x ∧ x < r.base + r.length }

namespace PhysicalPageAllocator

variable {R A : ℕ} {s : PhysicalPageAllocator R A}

theorem fromMemoryMap_splits {M : ℕ} {map : MemoryMap M} (hmap : Regular map.regions)
    (h : fromMemoryMap map = .ok s) : (s.ledger ∅).Splits map.usablePages := by
  obtain ⟨hruns, halloc, hcov⟩ := fromMemoryMap_spec h
  have hheld : s.allocatedSet = ∅ := by simp [allocatedSet, halloc.list]
  refine ⟨fun p => ?_, by simp [ledger, hheld], by simp [ledger], by simp [ledger]⟩
  simp only [ledger, hheld, Set.mem_empty_iff_false, or_false, freeSet, usablePages,
    Set.mem_ofPred_eq, hcov]
  refine and_congr_right fun hp => ⟨?_, fun hall => ?_⟩
  · rintro ⟨r, hr, h1, h2⟩ x hx hx'
    rw [MemoryRegion.hi] at h2
    exact ⟨r, hr, by omega, by omega⟩
  · obtain ⟨r, hr, h1, h2⟩ :=
      covers_interval (usableRegions_apart hmap) (y := p + 4096) (by omega) hall
    exact ⟨r, hr, by omega, by omega⟩

/-! No page twice. -/

def HandsOut (entry : Call × Reply) (page : ℕ) : Prop := ∃ p, entry.2 = .page p ∧ p.raw = page

def Frees (entry : Call × Reply) (page : ℕ) : Prop :=
  ∃ p, entry = (.free p, .freed) ∧ p.raw = page

theorem step_handsOut (h : Inv s) (c : Call) (p : ℕ) (ho : HandsOut (c, (step s c).1) p) :
    p ∉ s.allocated.toList ∧ p ∈ (step s c).2.allocated.toList ∧
      c.constraint.minAddress ≤ p ∧ p + 4096 ≤ c.constraint.maxAddressExclusive := by
  have he := step_effect h c
  generalize step s c = r at he ho
  obtain ⟨q, hq, rfl⟩ := ho
  cases he with
  | taken ht hmin hmax =>
    cases hq
    refine ⟨ht.not_held h, ?_, hmin, hmax⟩
    rw [ht.allocated.list]
    exact List.mem_append_right _ (List.mem_singleton_self _)
  | failed => cases hq
  | reserved => cases hq
  | released => cases hq

theorem step_held (h : Inv s) (c : Call) (p : ℕ) (hp : p ∈ s.allocated.toList) :
    Frees (c, (step s c).1) p ∨ p ∈ (step s c).2.allocated.toList := by
  have he := step_effect h c
  generalize step s c = r at he
  cases he with
  | failed => exact Or.inr hp
  | reserved hr => exact Or.inr (by rwa [hr.allocated])
  | taken ht => exact Or.inr (by rw [ht.allocated.list]; exact List.mem_append_left _ hp)
  | @released q s' hr =>
    by_cases hq : p = q.raw
    · exact Or.inl ⟨q, rfl, hq.symm⟩
    · exact Or.inr (by rw [hr.allocated.list]; exact (h.nodup.mem_erase_iff).2 ⟨hq, hp⟩)

theorem run_step_inv (h : Inv s) (calls : List Call) : Inv (run step s calls).2 :=
  run_inv (fun _ t => Inv t) h (fun _ _ c ht => step_inv ht c) calls

theorem run_constraint (h : Inv s) (calls : List Call) :
    ∀ entry ∈ (run step s calls).1, ∀ p, HandsOut entry p →
      entry.1.constraint.minAddress ≤ p ∧ p + 4096 ≤ entry.1.constraint.maxAddressExclusive := by
  refine (run_inv (fun log t => Inv t ∧ ∀ entry ∈ log, ∀ p, HandsOut entry p →
    entry.1.constraint.minAddress ≤ p ∧ p + 4096 ≤ entry.1.constraint.maxAddressExclusive)
    ⟨h, by simp⟩ ?_ calls).2
  rintro log t c ⟨ht, hlog⟩
  exact ⟨step_inv ht c, forall_mem_concat hlog fun p hp => (step_handsOut ht c p hp).2.2⟩

theorem run_conserves_pages {M : ℕ} {entries : List MemoryRegion} {map : MemoryMap M}
    (hmap : fromEntries entries = .ok map) (hs : fromMemoryMap map = .ok s)
    (calls : List Call) :
    let s' := (run step s calls).2
    let log := (run step s calls).1
    FreeRuns s'.free.toList ∧ s'.allocated.toList.Nodup ∧
      (∀ p ∈ s'.allocated.toList, ∀ r ∈ s'.free.toList, ¬ (r.start < p + 4096 ∧ p < r.hi)) ∧
      (s'.ledger (removedPages s calls)).Splits map.usablePages ∧
      Exclusive HandsOut Frees log ∧
      ∀ entry ∈ log, ∀ p, HandsOut entry p →
        entry.1.constraint.minAddress ≤ p ∧ p + 4096 ≤ entry.1.constraint.maxAddressExclusive := by
  have h := fromMemoryMap_inv hs
  have hrun := run_step_inv h calls
  refine ⟨hrun.runs.toFreeRuns, hrun.nodup, fun p hp r hr hmeet => ?_, ?_, ?_, run_constraint h calls⟩
  · have h1 := (hrun.page p hp).1
    have h2 := (hrun.runs.wf r hr).aligned
    exact hrun.held p hp ⟨r, hr, by omega, hmeet.2⟩
  · have := run_splits calls h (fromMemoryMap_splits (fromEntries_spec hmap).1 hs)
    rwa [Set.empty_union] at this
  · exact run_exclusive h (fun _ c ht => step_inv ht c)
      (fun t c p ht ho => ⟨(step_handsOut ht c p ho).1, (step_handsOut ht c p ho).2.1⟩)
      (fun t c p ht hp => step_held ht c p hp) calls

def twoRegions : List MemoryRegion := [⟨100, 20000, .usable⟩, ⟨40960, 8192, .usable⟩]

theorem run_conserves_pages_two_regions :
    ∃ (map : MemoryMap 4) (s : PhysicalPageAllocator 4 2),
      fromEntries twoRegions = .ok map ∧ fromMemoryMap map = .ok s ∧
        ((run step s [.allocate, .reserveRange 8192 1]).2.ledger
          (removedPages s [.allocate, .reserveRange 8192 1])).Splits map.usablePages := by
  refine ⟨_, _, rfl, rfl, ?_⟩
  have hmap : (fromEntries twoRegions : Except _ (MemoryMap 4)) = .ok _ := rfl
  exact (run_conserves_pages hmap rfl _).2.2.2.1

/-! Failing calls change nothing, and freeing the page just handed out restores the allocator. -/

theorem eq_of_failed {α : Type} {op : Op (PhysicalPageAllocator R A) CoreError α} {e e' : CoreError}
    {s' : PhysicalPageAllocator R A}
    (h : op.run s = (.error e, s)) (h' : op.run s = (.error e', s')) : s' = s := by
  rw [h] at h'
  cases h'
  rfl

/-- In every state a run of calls reaches, the calls that fail change nothing and an allocation
is undone by freeing its page, in particular by `allocate_zeroed` when zeroing fails. -/
theorem run_failures_change_nothing {M : ℕ} {map : MemoryMap M} {s₀ : PhysicalPageAllocator R A}
    (hs : fromMemoryMap map = .ok s₀) (calls : List Call) :
    let s := (Sys.run step s₀ calls).2
    (∀ base length e s', (reserveRange base length).run s = (.error e, s') → s' = s) ∧
    (∀ c e s', (allocateWithin c).run s = (.error e, s') → s' = s) ∧
    (∀ page e s', (freePage page).run s = (.error e, s') → s' = s) ∧
    (∀ c page s', (allocateWithin c).run s = (.ok page, s') → (freePage page).run s' = (.ok (), s)) ∧
    ∀ zeroPage page s' err, allocate.run s = (.ok page, s') → zeroPage page = .error err →
      (freePage page).run s' = (.ok (), s) ∧ (allocateZeroed zeroPage).run s = (.error err, s) := by
  have h := run_step_inv (fromMemoryMap_inv hs) calls
  refine ⟨fun base length e s' he => ?_, fun c e s' he => ?_, fun page e s' he => ?_,
    fun c page s' hok => freePage_allocateWithin h hok, fun zeroPage page s' err hok hz => ?_⟩
  · rcases reserveRange_spec h base length with ⟨e', he'⟩ | ⟨t, n, a, b, hok, -⟩
    · exact eq_of_failed he' he
    · rw [hok] at he
      cases he
  · rcases allocateWithin_spec h c with ⟨e', he'⟩ | ⟨page, t, hok, -⟩
    · exact eq_of_failed he' he
    · rw [hok] at he
      cases he
  · rcases freePage_spec h page with ⟨e', he', -⟩ | ⟨t, hok, -⟩
    · exact eq_of_failed he' he
    · rw [hok] at he
      cases he
  · have hfree := freePage_allocateWithin h hok
    refine ⟨hfree, ?_⟩
    unfold allocateZeroed
    rw [Op.run_bind_ok hok, hz]
    simp only [Op.run_bind_ok hfree, Op.run_fail]

def zeroerFault : CoreError := ⟨.invalidAddress, "page could not be zeroed"⟩

theorem run_failures_change_nothing_two_regions :
    ∃ (map : MemoryMap 4) (s : PhysicalPageAllocator 4 2),
      fromEntries twoRegions = .ok map ∧ fromMemoryMap map = .ok s ∧
        (allocateZeroed fun _ => .error zeroerFault).run s = (.error zeroerFault, s) := by
  obtain ⟨map, s, hmap, hs, hsome⟩ : ∃ (map : MemoryMap 4) (s : PhysicalPageAllocator 4 2),
      fromEntries twoRegions = .ok map ∧ fromMemoryMap map = .ok s ∧
        (allocate.run s).1.toBool = true := ⟨_, _, rfl, rfl, by decide +kernel⟩
  refine ⟨map, s, hmap, hs, ?_⟩
  cases hok : allocate.run s with
  | mk result s' =>
  rw [hok] at hsome
  cases result with
  | error e => cases hsome
  | ok page =>
    exact ((run_failures_change_nothing hs []).2.2.2.2 (fun _ => .error zeroerFault) page s'
      zeroerFault hok rfl).2

/-! The free runs do not remember how they came about. -/

theorem free_eq_of_freeSet {s' : PhysicalPageAllocator R A} (h : Inv s) (h' : Inv s')
    (heq : s.freeSet = s'.freeSet) : s.free = s'.free := by
  have hpage : ∀ {t : PhysicalPageAllocator R A}, Inv t → ∀ x,
      Covers start hi t.free.toList x ↔ x / 4096 * 4096 ∈ t.freeSet := by
    intro t ht x
    rw [freeSet, Set.mem_ofPred_eq, and_iff_right (Nat.mul_mod_left _ _)]
    refine exists_congr fun r => and_congr_right fun hr => ?_
    have haligned := (ht.runs.wf r hr).aligned
    have hend := r.hi_eq
    omega
  refine h.runs.tidy.ext h'.runs.tidy (freeRuns_unique h.runs.toFreeRuns h'.runs.toFreeRuns ?_)
  intro x
  rw [hpage h, hpage h', heq]

/-- Two runs that have handed out and reserved the same pages end with the same free-run table. -/
theorem free_independent_of_history {M : ℕ} {entries : List MemoryRegion} {map : MemoryMap M}
    (hmap : fromEntries entries = .ok map) (hs : fromMemoryMap map = .ok s)
    (calls calls' : List Call) (hremoved : removedPages s calls = removedPages s calls')
    (hheld : (run step s calls).2.allocatedSet = (run step s calls').2.allocatedSet) :
    (run step s calls).2.free = (run step s calls').2.free := by
  have h := fromMemoryMap_inv hs
  have hsplits := fun cs => run_splits cs h (fromMemoryMap_splits (fromEntries_spec hmap).1 hs)
  refine free_eq_of_freeSet (run_step_inv h calls) (run_step_inv h calls') (Set.ext fun p => ?_)
  have hfree := (hsplits calls).mem_free p
  rw [ledger, hremoved, hheld] at hfree
  exact hfree.trans ((hsplits calls').mem_free p).symm

/-- Pages that are all given back leave no trace. -/
theorem free_independent_of_history_two_pages :
    ∃ (map : MemoryMap 4) (s : PhysicalPageAllocator 4 2),
      fromEntries twoRegions = .ok map ∧ fromMemoryMap map = .ok s ∧ (run step s
        [.allocate, .allocate, .free ⟨4096, by decide⟩, .free ⟨8192, by decide⟩]).2.free = s.free := by
  have hmap : (fromEntries twoRegions : Except _ (MemoryMap 4)) = .ok _ := rfl
  refine ⟨_, _, hmap, rfl, free_independent_of_history hmap rfl _ [] ?_ ?_⟩
  · simp [removedPages, removedBy]
  · exact congrArg (fun l => { p | p ∈ l }) (by decide +kernel)

end PhysicalPageAllocator
end AegisHV
