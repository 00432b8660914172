import AegisHV.Proofs.Allocator

/-! Handing a page out and taking it back. The free runs are the only list of runs with gaps
between them that covers their addresses, and slots out of use hold the fill values, so that an
allocator is determined by the pages it has free and handed out. -/

namespace AegisHV
open Sys PageRun List

namespace PhysicalPageAllocator

variable {R A : ℕ} {s s' : PhysicalPageAllocator R A} {page : ℕ}

/-- The page has moved from the free runs to the pages handed out. -/
structure Taken (s : PhysicalPageAllocator R A) (page : ℕ) (s' : PhysicalPageAllocator R A) :
    Prop where
  runs : Runs s'.free
  covers : ∀ x, Covers start hi s'.free.toList x ↔
    Covers start hi s.free.toList x ∧ ¬ (page ≤ x ∧ x < page + 4096)
  allocated : s'.allocated.Holds 0 (s.allocated.toList ++ [page])
  free : ∀ x, page ≤ x → x < page + 4096 → Covers start hi s.free.toList x
  page : page % 4096 = 0 ∧ page + 4096 < 2 ^ 64

/-- The page has moved back from the pages handed out to the free runs. -/
structure Released (s : PhysicalPageAllocator R A) (page : ℕ) (s' : PhysicalPageAllocator R A) :
    Prop where
  runs : Runs s'.free
  covers : ∀ x, Covers start hi s'.free.toList x ↔
    Covers start hi s.free.toList x ∨ (page ≤ x ∧ x < page + 4096)
  mem : page ∈ s.allocated.toList
  allocated : s'.allocated.Holds 0 (s.allocated.toList.erase page)

theorem Taken.not_held (ht : Taken s page s') (h : Inv s) : page ∉ s.allocated.toList :=
  fun hmem => h.held page hmem (ht.free page le_rfl (by omega))

/-- Allocation fails and changes nothing or takes one page inside the constraint. -/
theorem allocateWithin_spec (h : Inv s) (c : PageAllocationConstraint) :
    (∃ e, (allocateWithin c).run s = (.error e, s)) ∨
    ∃ page s', (allocateWithin c).run s = (.ok page, s') ∧ Taken s page.raw s' ∧
      c.minAddress ≤ page.raw ∧ page.raw + 4096 ≤ c.maxAddressExclusive := by
  unfold allocateWithin
  by_cases hempty : c.maxAddressExclusive ≤ c.minAddress
  · exact Or.inl ⟨_, by rw [if_pos hempty, Op.run_fail]⟩
  rw [if_neg hempty, Op.run_read_bind]
  by_cases hfull : A ≤ s.allocated.len
  · exact Or.inl ⟨_, by rw [if_pos hfull, Op.run_fail]⟩
  rw [if_neg hfull]
  cases hsel : selectPage c s.free.toList 0 with
  | error e => exact Or.inl ⟨e, rfl⟩
  | ok found =>
  rw [Op.run_lift_ok_bind]
  cases found with
  | none => exact Or.inl ⟨_, rfl⟩
  | some found =>
  obtain ⟨index, page, stop⟩ := found
  obtain ⟨l, run, r, hl, rfl, rfl, hfit⟩ := selectPage_spec h.runs.wf hsel
  obtain ⟨hal, hlo, hhi, hmin, hmax⟩ := hfit
  have hlt : run.hi < 2 ^ 64 := by
    rw [hi_eq]
    exact (h.runs.wf run (by simp [hl])).hi_lt
  simp only [Nat.zero_add]
  rcases takePageFromRun_spec h.runs hl hal hlo hhi with ⟨t, ht, ht'⟩ | ⟨e, he, -⟩
  · have hpage : page < 2 ^ 64 - 1 := by omega
    have hend : page + 4096 < 2 ^ 64 := by omega
    have hcut : t.toList = s.free.toList.flatMap (cut page (page + 4096)) := by
      rw [ht'.list, hl, flatMap_cut_within (hl ▸ h.runs.toFreeRuns) hlo hhi (by omega)]
    rw [Op.run_bind_ok ht, Op.run_read_bind, Op.run_write_bind, Op.run_lift]
    refine Or.inr ⟨⟨page, hpage⟩, ⟨t, s.allocated.push page⟩, ?_, ⟨⟨?_, ht'.tidy⟩, ?_,
      Table.Holds.push ⟨h.tidy, rfl⟩ (by omega) page, ?_, hal, hend⟩, hmin, hmax⟩
    · rw [HostPhysical.new, dif_pos hpage]
    · rw [hcut]
      exact freeRuns_cut h.runs.toFreeRuns hal (by omega) (by omega)
    · rw [hcut]
      exact freeRuns_cut_covers h.runs.toFreeRuns hal (by omega)
    · intro x h1 h2
      exact ⟨run, by simp [hl], hlo.trans h1, lt_of_lt_of_le h2 hhi⟩
  · exact Or.inl ⟨e, by rw [Op.run_bind_error he]⟩

/-- Freeing fails and changes nothing or gives back a page that was handed out; a page that was
handed out is refused only if its run is. -/
theorem freePage_spec (h : Inv s) (page : HostPhysical) :
    (∃ e, (freePage page).run s = (.error e, s) ∧
      (page.raw ∈ s.allocated.toList → Refused s ⟨page.raw, 1⟩)) ∨
    ∃ s', (freePage page).run s = (.ok (), s') ∧ Released s page.raw s' := by
  unfold freePage
  by_cases hal : page.raw % PAGE_SIZE_4K ≠ 0
  · exact Or.inl ⟨_, by rw [if_pos hal, Op.run_fail], fun hmem => absurd (h.page _ hmem).1 hal⟩
  rw [if_neg hal, Op.run_read_bind]
  cases hfind : s.allocated.toList.findIdx? (· = page.raw) with
  | none =>
    refine Or.inl ⟨_, rfl, fun hmem => ?_⟩
    rw [findIdx?_eq_none_iff] at hfind
    simpa using hfind _ hmem
  | some index =>
  obtain ⟨hidx, hfind⟩ := findIdx?_eq_some_iff_findIdx_eq.1 hfind
  obtain ⟨l, rest, hl, hlen, hbefore, hat⟩ :=
    findIdx_split (fun p => decide (p = page.raw)) s.allocated.toList
  obtain rfl : index = l.length := hfind.symm.trans hlen
  cases rest with
  | nil => simp [hl] at hidx
  | cons p r =>
  obtain rfl : p = page.raw := by simpa using hat p r rfl
  have hmem : page.raw ∈ s.allocated.toList := by simp [hl]
  have hout : page.raw ∉ l := fun hin => by simpa using hbefore _ hin
  obtain ⟨haligned, hlt⟩ := h.page _ hmem
  have hw : (⟨page.raw, 1⟩ : PageRun).WF := ⟨haligned, Nat.one_pos, by rwa [Nat.one_mul]⟩
  rcases insertFreeRun_spec h.runs hw with ⟨t, ht, hins⟩ | ⟨e, he, hrefused⟩
  · simp only [Op.run_bind_ok ht, Op.run_read_bind, Op.run_write]
    refine Or.inr ⟨_, rfl, hins.runs, fun x => ?_, hmem, ?_⟩
    · rw [hins.covers x, hi_mk]
    · rw [hl, erase_append_right _ hout, erase_cons_head]
      exact Table.Holds.removeAt ⟨h.tidy, hl⟩
  · exact Or.inl ⟨e, by simp only [Op.run_bind_error he], fun _ => hrefused⟩

theorem Taken.inv (h : Inv s) (ht : Taken s page s') : Inv s' := by
  refine ⟨ht.runs, ht.allocated.tidy, ?_, ?_, ?_⟩
  · rw [ht.allocated.list]
    simpa using h.nodup.concat (ht.not_held h)
  · rw [ht.allocated.list]
    exact forall_mem_concat h.page ht.page
  · rw [ht.allocated.list]
    exact forall_mem_concat (fun p hp hcov => h.held p hp ((ht.covers p).1 hcov).1)
      fun hcov => ((ht.covers page).1 hcov).2 ⟨le_rfl, by omega⟩

theorem Released.inv (h : Inv s) (hr : Released s page s') : Inv s' := by
  have hsub : ∀ p ∈ s'.allocated.toList, p ≠ page ∧ p ∈ s.allocated.toList := fun p hp => by
    rwa [hr.allocated.list, h.nodup.mem_erase_iff] at hp
  refine ⟨hr.runs, hr.allocated.tidy, ?_, fun p hp => h.page p (hsub p hp).2, ?_⟩
  · rw [hr.allocated.list]
    exact h.nodup.erase page
  · intro p hp hcov
    obtain ⟨hne, hmem⟩ := hsub p hp
    rcases (hr.covers p).1 hcov with hcov | ⟨h1, h2⟩
    · exact h.held p hmem hcov
    · -- both are multiples of 4096
      have := (h.page p hmem).1
      have := (h.page page hr.mem).1
      omega

/-- Handing a page out and taking it straight back changes nothing. -/
theorem Taken.released {s'' : PhysicalPageAllocator R A} (h : Inv s) (ht : Taken s page s')
    (hr : Released s' page s'') : s'' = s := by
  have hfree : s''.free = s.free := by
    refine hr.runs.tidy.ext h.runs.tidy
      (freeRuns_unique hr.runs.toFreeRuns h.runs.toFreeRuns fun x => ?_)
    have := ht.free x
    rw [hr.covers, ht.covers]
    tauto
  have halloc : s''.allocated = s.allocated := by
    refine hr.allocated.tidy.ext h.tidy ?_
    rw [hr.allocated.list, ht.allocated.list, erase_append_right _ (ht.not_held h),
      erase_cons_head, append_nil]
  cases s''
  simp_all

/-- The run of a page just taken fits: with it the table is as long as it was before. -/
theorem Taken.not_refused (h : Inv s) (ht : Taken s page s') : ¬ Refused s' ⟨page, 1⟩ := by
  have hhi : (⟨page, 1⟩ : PageRun).hi = page + 4096 := by rw [hi_mk]
  rintro (⟨r, hr, hlo, hup⟩ | ⟨hfull, l, r, hl, hruns⟩)
  · rw [hhi] at hup
    have hlt := start_lt_hi (ht.runs.wf r hr)
    have hcov : ∀ x, r.start ≤ x → x < r.hi → ¬ (page ≤ x ∧ x < page + 4096) := fun x h1 h2 =>
      ((ht.covers x).1 ⟨r, hr, h1, h2⟩).2
    rcases Nat.le_total page r.start with hle | hle
    · exact hcov r.start le_rfl hlt ⟨hle, hup⟩
    · exact hcov page hle hlo ⟨le_rfl, by omega⟩
  have hsame : l ++ ⟨page, 1⟩ :: r = s.free.toList := by
    apply freeRuns_unique hruns h.runs.toFreeRuns
    intro x
    have hfree := ht.free x
    have hcov := ht.covers x
    rw [hl, covers_append] at hcov
    rw [covers_append, covers_cons, hhi]
    by_cases hin : page ≤ x ∧ x < page + 4096
    · exact ⟨fun _ => hfree hin.1 hin.2, fun _ => Or.inr (Or.inl hin)⟩
    · rw [or_iff_right hin, hcov, and_iff_left hin]
  have hlong := congrArg List.length hsame
  have hshort : s'.free.len = l.length + r.length := by
    rw [← s'.free.toList_length, hl, length_append]
  rw [Table.toList_length, length_append, length_cons] at hlong
  have := s.free.len_le
  omega

theorem Taken.freePage {page : HostPhysical} (h : Inv s) (ht : Taken s page.raw s') :
    (freePage page).run s' = (.ok (), s) := by
  rcases freePage_spec (ht.inv h) page with ⟨e, -, hrefused⟩ | ⟨s'', hok, hr⟩
  · exact absurd (hrefused (by simp [ht.allocated.list])) (ht.not_refused h)
  · rw [hok, ht.released h hr]

section

variable {c : PageAllocationConstraint} {page : HostPhysical}

theorem allocateWithin_taken (h : Inv s) (hok : (allocateWithin c).run s = (.ok page, s')) :
    Taken s page.raw s' ∧ c.minAddress ≤ page.raw ∧ page.raw + 4096 ≤ c.maxAddressExclusive := by
  rcases allocateWithin_spec h c with ⟨e, he⟩ | ⟨page', t, hok', ht⟩
  · rw [he] at hok
    cases hok
  · rw [hok] at hok'
    cases hok'
    exact ht

/-- Freeing the page an allocation has just returned undoes the allocation. -/
theorem freePage_allocateWithin (h : Inv s) (hok : (allocateWithin c).run s = (.ok page, s')) :
    (freePage page).run s' = (.ok (), s) := (allocateWithin_taken h hok).1.freePage h

end

end PhysicalPageAllocator
end AegisHV
