import AegisHV.Proofs.AllocatorRun

/-! What the allocator finds and takes, exactly: a reservation removes the free pages its range
touches and counts them, and the search of `allocate_within` misses no page that it could take. -/

namespace AegisHV
open Sys PageRun

namespace PhysicalPageAllocator

variable {R A : ℕ} {s s' : PhysicalPageAllocator R A}

/-! The number of free pages, by counting the page numbers the runs cover. -/

theorem covers_pages {l : List PageRun} (h : ∀ r ∈ l, r.WF) (n : ℕ) :
    Covers (fun r => r.start / 4096) (fun r => r.hi / 4096) l n ↔ Covers start hi l (n * 4096) := by
  refine exists_congr fun r => and_congr_right fun hr => ?_
  have hal := (h r hr).aligned
  have hhi := r.hi_eq
  dsimp only
  omega

theorem freeSet_eq_image (h : FreeRuns s.free.toList) :
    s.freeSet = (fun n => n * 4096) ''
      (cover (fun r : PageRun => r.start / 4096) (fun r => r.hi / 4096) s.free.toList : Set ℕ) := by
  ext p
  simp only [freeSet, Set.mem_ofPred_eq, Set.mem_image, Finset.mem_coe, mem_cover,
    covers_pages h.wf]
  constructor
  · rintro ⟨hal, hcov⟩
    have hp : p / 4096 * 4096 = p := by omega
    exact ⟨p / 4096, by rwa [hp], hp⟩
  · rintro ⟨n, hcov, rfl⟩
    exact ⟨Nat.mul_mod_left n 4096, hcov⟩

theorem freeSet_finite (h : FreeRuns s.free.toList) : s.freeSet.Finite := by
  rw [freeSet_eq_image h]
  exact (Finset.finite_toSet _).image _

theorem ncard_freeSet (h : FreeRuns s.free.toList) : s.freeSet.ncard = s.freePages := by
  have hinj : Function.Injective fun n : ℕ => n * 4096 := fun a b hab => by
    simp only at hab
    omega
  have hapart : s.free.toList.Pairwise fun a b =>
      ¬ (a.start / 4096 < b.hi / 4096 ∧ b.start / 4096 < a.hi / 4096) :=
    h.apart.imp fun {a b} hab hmeet => by omega
  have hlen : ∀ r ∈ s.free.toList, r.hi / 4096 - r.start / 4096 = r.count := by
    intro r hr
    have hhi := r.hi_eq
    omega
  rw [freeSet_eq_image h, Set.ncard_image_of_injective _ hinj, Set.ncard_coe_finset,
    card_cover hapart, freePages, List.map_congr_left hlen]

/-- The pages that the range touches. -/
def touched (base length : ℕ) : Set ℕ := { p | p < base + length ∧ base < p + 4096 }

variable {base length : ℕ}

theorem Reserved.freeSet_eq (hr : Reserved s base length s') :
    s'.freeSet = s.freeSet \ touched base length := by
  ext p
  simp only [freeSet, touched, Set.mem_ofPred_eq, Set.mem_sdiff, and_assoc]
  exact and_congr_right fun hp => hr.covers p hp

theorem reserveRange_count {n : ℕ} (h : Inv s)
    (hok : (reserveRange base length).run s = (.ok n, s')) : n = s.freePages - s'.freePages := by
  rcases reserveRange_spec h base length with ⟨e, he⟩ | ⟨t, m, a, b, hok', -, -, -, -, -, -, -, hm⟩
  · rw [he] at hok
    cases hok
  · rw [hok'] at hok
    cases hok
    exact hm

theorem reserveRange_refused {p : ℕ} (h : Inv s) (hp : p ∈ s.allocated.toList)
    (ht : p ∈ touched base length) : ∃ e, (reserveRange base length).run s = (.error e, s) := by
  rcases reserveRange_spec h base length with he | ⟨t, m, a, b, -, -, -, -, -, ha, hb, hheld, -⟩
  · exact he
  · obtain ⟨hlt, hgt⟩ := ht
    exact absurd ⟨by omega, by omega⟩ (hheld p hp)

/-- In every state a run of calls reaches, a reservation that succeeds removes exactly the free
pages its range touches, reports their number and touches nothing else; one whose range touches
a page handed out is refused. -/
theorem reserveRange_exact {M : ℕ} {map : MemoryMap M} {s₀ : PhysicalPageAllocator R A}
    (hs : fromMemoryMap map = .ok s₀) (calls : List Call) (base length : ℕ) :
    let s := (Sys.run step s₀ calls).2
    (∀ n s', (reserveRange base length).run s = (.ok n, s') →
      s'.freeSet = s.freeSet \ touched base length ∧
        n = (s.freeSet ∩ touched base length).ncard ∧ s'.allocated = s.allocated) ∧
    ∀ p ∈ s.allocated.toList, p ∈ touched base length →
      ∃ e, (reserveRange base length).run s = (.error e, s) := by
  intro s
  have h : Inv s := run_step_inv (fromMemoryMap_inv hs) calls
  refine ⟨fun n s' hok => ?_, fun p hp ht => reserveRange_refused h hp ht⟩
  have hreserved : Reserved s base length s' := by
    rcases reserveRange_reserved h base length with ⟨e, he⟩ | ⟨m, t, hok', hr⟩
    · rw [he] at hok
      cases hok
    · rw [hok'] at hok
      cases hok
      exact hr
  have hfree := hreserved.freeSet_eq
  have hsub : s'.freeSet ⊆ s.freeSet := hfree ▸ Set.sdiff_subset
  refine ⟨hfree, ?_, hreserved.allocated⟩
  calc n = s.freePages - s'.freePages := reserveRange_count h hok
    _ = s.freeSet.ncard - s'.freeSet.ncard := by
      rw [ncard_freeSet h.runs.toFreeRuns, ncard_freeSet hreserved.runs.toFreeRuns]
    _ = (s.freeSet \ s'.freeSet).ncard :=
      (Set.ncard_sdiff hsub (freeSet_finite hreserved.runs.toFreeRuns)).symm
    _ = (s.freeSet ∩ touched base length).ncard := by rw [hfree, Set.sdiff_sdiff_right_self]

theorem reserveRange_exact_two_regions :
    ∃ (map : MemoryMap 4) (s : PhysicalPageAllocator 4 2),
      MemoryMap.fromEntries twoRegions = .ok map ∧ fromMemoryMap map = .ok s ∧
        (s.freeSet ∩ touched 8200 4096).ncard = 2 := by
  obtain ⟨map, s, hmap, hs, hcount⟩ : ∃ (map : MemoryMap 4) (s : PhysicalPageAllocator 4 2),
      MemoryMap.fromEntries twoRegions = .ok map ∧ fromMemoryMap map = .ok s ∧
        ((reserveRange 8200 4096).run s).1.toOption = some 2 :=
    ⟨_, _, rfl, rfl, by decide +kernel⟩
  refine ⟨map, s, hmap, hs, ?_⟩
  cases hrun : (reserveRange 8200 4096).run s with
  | mk result s' =>
  rw [hrun] at hcount
  cases result with
  | error e => cases hcount
  | ok n =>
    cases hcount
    exact ((reserveRange_exact hs [] 8200 4096).1 2 s' hrun).2.1.symm

end PhysicalPageAllocator

/-- The page at `p` lies inside the constraint. -/
def PageAllocationConstraint.Satisfied (c : PageAllocationConstraint) (p : ℕ) : Prop :=
  c.minAddress ≤ p ∧ p + PAGE_SIZE_4K ≤ c.maxAddressExclusive

namespace PhysicalPageAllocator

variable {R A : ℕ} {s s' : PhysicalPageAllocator R A} {c : PageAllocationConstraint} {p : ℕ}

/-- What is left of the free pages without the page at `p` fits the table of runs. -/
def Removable (s : PhysicalPageAllocator R A) (p : ℕ) : Prop :=
  ∃ l : List PageRun, l.length ≤ R ∧ FreeRuns l ∧
    ∀ x, Covers start hi l x ↔ Covers start hi s.free.toList x ∧ ¬ (p ≤ x ∧ x < p + PAGE_SIZE_4K)

theorem Removable.length_cut (h : FreeRuns s.free.toList) (hp : p % 4096 = 0)
    (hr : s.Removable p) : (s.free.toList.flatMap (cut p (p + 4096))).length ≤ R := by
  obtain ⟨l, hlen, hl, hcov⟩ := hr
  have hruns := freeRuns_cut h (a := p) (b := p + 4096) hp (by omega) (by omega)
  rwa [freeRuns_unique hruns hl fun x => ?_]
  rw [hcov, freeRuns_cut_covers h hp (by omega), PAGE_SIZE_4K]

/-! The search finds a page whenever there is one, and none above another. -/

theorem fits_of_free (h : FreeRuns s.free.toList) (hp : p ∈ s.freeSet) (hc : c.Satisfied p) :
    ∃ run ∈ s.free.toList, Fits c run p := by
  obtain ⟨hal, run, hrun, hlo, hhi⟩ := hp
  refine ⟨run, hrun, hal, hlo, ?_, hc.1, hc.2⟩
  -- the end of a run is a multiple of the page size
  have hstart := (h.wf run hrun).aligned
  have heq := run.hi_eq
  omega

variable {run : PageRun}

theorem candidateIn_of_fits (hw : run.WF) (h : Fits c run p) :
    ∃ q, q ≤ p ∧ candidateIn c run = .ok (some (q, run.hi)) := by
  obtain ⟨hal, hlo, hhi, hmin, hmax⟩ := h
  have hlt := hw.hi_lt
  rw [← hi_eq] at hlt
  obtain ⟨q, hq⟩ : ∃ q, q = (max run.start c.minAddress + 4095) / 4096 * 4096 := ⟨_, rfl⟩
  have hup : alignUp (max run.start c.minAddress) PAGE_SIZE_4K = .ok q :=
    alignUp_page.2 ⟨by omega, hq⟩
  have hend : checkedAdd q PAGE_SIZE_4K = some (q + PAGE_SIZE_4K) :=
    checkedAdd_eq_some.2 ⟨by rw [PAGE_SIZE_4K]; omega, rfl⟩
  have hfit : q + PAGE_SIZE_4K ≤ min run.hi c.maxAddressExclusive := by
    rw [PAGE_SIZE_4K]
    omega
  refine ⟨q, by omega, ?_⟩
  simp only [candidateIn, hw.stop, except_ok_bind, hup, hend, if_pos hfit]
  rfl

theorem candidateIn_ok (hw : run.WF) (hc : c.minAddress + 4095 < 2 ^ 64) :
    ∃ found, candidateIn c run = .ok found := by
  have hpos := hw.count_pos
  have hlt := hw.hi_lt
  rw [candidateIn, hw.stop, except_ok_bind, alignUp_page.2 ⟨by omega, rfl⟩, except_ok_bind]
  split
  · exact ⟨_, rfl⟩
  · split_ifs <;> exact ⟨_, rfl⟩

theorem selectPage_of_fits {l : List PageRun} (h : FreeRuns l) (hrun : run ∈ l)
    (hfit : Fits c run p) :
    ∀ i, ∃ index q stop, q ≤ p ∧ selectPage c l i = .ok (some (index, q, stop)) := by
  induction l with
  | nil => cases hrun
  | cons r l ih =>
    intro i
    have hw : r.WF := h.wf r (by simp)
    have hmin : c.minAddress + 4095 < 2 ^ 64 := by
      have hlt := (h.wf run hrun).hi_lt
      rw [← hi_eq] at hlt
      have hle := hfit.min_le
      have hhi := hfit.le_hi
      omega
    obtain ⟨found, hfound⟩ := candidateIn_ok hw hmin
    rw [selectPage, hfound]
    cases found with
    | some found =>
      obtain ⟨q, stop⟩ := found
      refine ⟨i, q, stop, ?_, rfl⟩
      rcases List.mem_cons.1 hrun with rfl | hmem
      · obtain ⟨q', hle, hq'⟩ := candidateIn_of_fits hw hfit
        rw [hfound] at hq'
        cases hq'
        exact hle
      · -- a later run lies above this one
        have hq := (candidateIn_some hw hfound).2.le_hi
        have hapart := (apart_cons.1 h.apart).1 run hmem
        have hlo := hfit.start_le
        omega
    | none =>
      rcases List.mem_cons.1 hrun with rfl | hmem
      · obtain ⟨q', -, hq'⟩ := candidateIn_of_fits hw hfit
        rw [hfound] at hq'
        cases hq'
      · exact ih ⟨fun r hr => h.wf r (by simp [hr]), (apart_cons.1 h.apart).2⟩ hmem (i + 1)

/-- Where a page satisfies the constraint and there is room to note it, only the split of a run in
a full table can fail. -/
theorem allocateWithin_of_free (h : Inv s) (hroom : s.allocated.len < A) (hp : p ∈ s.freeSet)
    (hc : c.Satisfied p) :
    (∃ page s', (allocateWithin c).run s = (.ok page, s')) ∨
    ∃ e q, (allocateWithin c).run s = (.error e, s) ∧ e.kind = .capacityExceeded ∧ q ≤ p ∧
      q ∈ s.freeSet ∧ c.Satisfied q ∧ ¬ s.Removable q := by
  obtain ⟨run₀, hrun₀, hfit₀⟩ := fits_of_free h.runs.toFreeRuns hp hc
  obtain ⟨index, q, stop, hq, hsel⟩ := selectPage_of_fits h.runs.toFreeRuns hrun₀ hfit₀ 0
  obtain ⟨l, run, r, hl, rfl, rfl, hfit⟩ := selectPage_spec h.runs.wf hsel
  have hnonempty : ¬ c.maxAddressExclusive ≤ c.minAddress := by
    have hlt := hc.2
    have hle := hc.1
    rw [PAGE_SIZE_4K] at hlt
    omega
  unfold allocateWithin
  rw [if_neg hnonempty, Op.run_read_bind, if_neg (Nat.not_le.2 hroom), hsel, Op.run_lift_ok_bind]
  simp only [Nat.zero_add]
  obtain ⟨hal, hlo, hhi, hmin, hmax⟩ := hfit
  have hrun := h.runs.wf run (by simp [hl])
  rcases takePageFromRun_spec h.runs hl hal hlo hhi with ⟨t, ht, -⟩ | ⟨e, he, hkind, hfull⟩
  · have hlt := hrun.hi_lt
    rw [← hi_eq] at hlt
    have hpage : q < 2 ^ 64 - 1 := by omega
    refine Or.inl ⟨⟨q, hpage⟩, ⟨t, s.allocated.push q⟩, ?_⟩
    rw [Op.run_bind_ok ht, Op.run_read_bind, Op.run_write_bind, Op.run_lift, HostPhysical.new,
      dif_pos hpage]
  · refine Or.inr ⟨e, q, by rw [Op.run_bind_error he], hkind, hq, ⟨hal, run, by simp [hl], hlo,
      by omega⟩, ⟨hmin, hmax⟩, fun hremovable => ?_⟩
    have hlen := hremovable.length_cut h.runs.toFreeRuns hal
    rw [hl, flatMap_cut_within (hl ▸ h.runs.toFreeRuns) hlo hhi (by omega)] at hlen
    omega

/-- In every state a run of calls reaches, `allocate_within` succeeds if the lowest free page
inside the constraint can be removed, and is out of memory only if there is no such page. -/
theorem allocateWithin_takes_lowest {M : ℕ} {map : MemoryMap M} {s₀ : PhysicalPageAllocator R A}
    (hs : fromMemoryMap map = .ok s₀) (calls : List Call) (c : PageAllocationConstraint) :
    let s := (Sys.run step s₀ calls).2
    (∀ p, s.allocated.len < A → IsLeast { p | p ∈ s.freeSet ∧ c.Satisfied p } p → s.Removable p →
      ∃ page s', (allocateWithin c).run s = (.ok page, s')) ∧
    ∀ e s', (allocateWithin c).run s = (.error e, s') → e.kind = .outOfMemory →
      ∀ p ∈ s.freeSet, ¬ c.Satisfied p := by
  intro s
  have h : Inv s := run_step_inv (fromMemoryMap_inv hs) calls
  refine ⟨fun p hroom hleast hremovable => ?_, fun e s' he hkind p hp hc => ?_⟩
  · obtain ⟨hp, hc⟩ := hleast.1
    rcases allocateWithin_of_free h hroom hp hc with hok | ⟨e, q, -, -, hle, hq, hcq, hnot⟩
    · exact hok
    · obtain rfl : q = p := le_antisymm hle (hleast.2 ⟨hq, hcq⟩)
      exact absurd hremovable hnot
  · by_cases hroom : s.allocated.len < A
    · rcases allocateWithin_of_free h hroom hp hc with ⟨page, t, hok⟩ | ⟨e', q, he', hkind', -⟩
      · rw [hok] at he
        cases he
      · rw [he'] at he
        cases he
        rw [hkind'] at hkind
        cases hkind
    · have hnonempty : ¬ c.maxAddressExclusive ≤ c.minAddress := by
        have hlt := hc.2
        have hle := hc.1
        rw [PAGE_SIZE_4K] at hlt
        omega
      rw [allocateWithin, if_neg hnonempty, Op.run_read_bind, if_pos (Nat.not_lt.1 hroom)] at he
      cases he
      cases hkind

def threePages : List MemoryRegion := [⟨4096, 12288, .usable⟩]

theorem allocateWithin_takes_lowest_three_pages :
    ∃ (map : MemoryMap 1) (s : PhysicalPageAllocator 1 1),
      MemoryMap.fromEntries threePages = .ok map ∧ fromMemoryMap map = .ok s ∧
        ∀ p ∈ s.freeSet, ¬ (⟨16384, 20480⟩ : PageAllocationConstraint).Satisfied p := by
  obtain ⟨map, s, hmap, hs, herror⟩ : ∃ (map : MemoryMap 1) (s : PhysicalPageAllocator 1 1),
      MemoryMap.fromEntries threePages = .ok map ∧ fromMemoryMap map = .ok s ∧
        ((allocateWithin ⟨16384, 20480⟩).run s).1 = .error
          ⟨.outOfMemory, "physical allocator has no free 4K page in the requested address range"⟩ :=
    ⟨_, _, rfl, rfl, rfl⟩
  refine ⟨map, s, hmap, hs, ?_⟩
  exact (allocateWithin_takes_lowest hs [] ⟨16384, 20480⟩).2 _ _ (Prod.ext herror rfl) rfl

/-- With a full table of runs, the page above the lowest one could have been taken. -/
theorem allocateWithin_refuses_removable :
    ∃ (map : MemoryMap 1) (s : PhysicalPageAllocator 1 1),
      MemoryMap.fromEntries threePages = .ok map ∧ fromMemoryMap map = .ok s ∧
        s.allocated.len < 1 ∧ 12288 ∈ s.freeSet ∧
        (⟨8192, 20480⟩ : PageAllocationConstraint).Satisfied 12288 ∧ s.Removable 12288 ∧
        ∃ e, ((allocateWithin ⟨8192, 20480⟩).run s).1 = .error e ∧ e.kind = .capacityExceeded := by
  obtain ⟨map, s, hmap, hs, hlist, hempty, herror⟩ :
      ∃ (map : MemoryMap 1) (s : PhysicalPageAllocator 1 1),
      MemoryMap.fromEntries threePages = .ok map ∧ fromMemoryMap map = .ok s ∧
        s.free.toList = [⟨4096, 3⟩] ∧ s.allocated.len = 0 ∧
        ((allocateWithin ⟨8192, 20480⟩).run s).1 = .error
          ⟨.capacityExceeded, "physical allocator cannot split a free run at the requested page"⟩ :=
    ⟨_, _, rfl, rfl, rfl, rfl, rfl⟩
  refine ⟨map, s, hmap, hs, by omega, ?_, ⟨by norm_num, by norm_num [PAGE_SIZE_4K]⟩, ?_, _, herror,
    rfl⟩
  · refine ⟨by norm_num, ⟨4096, 3⟩, by simp [hlist], by norm_num, ?_⟩
    norm_num
  · refine ⟨[⟨4096, 2⟩], le_rfl, ⟨?_, List.pairwise_singleton _ _⟩, fun x => ?_⟩
    · intro r hr
      obtain rfl := List.mem_singleton.1 hr
      exact ⟨by norm_num, by norm_num, by norm_num⟩
    · simp only [hlist, covers_cons, hi_mk, covers_nil, or_false, PAGE_SIZE_4K]
      omega

end PhysicalPageAllocator
end AegisHV
