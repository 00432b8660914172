import AegisHV.Lib.Ends
import AegisHV.Proofs.AllocatorRun
import AegisHV.Spec.EarlyMemory

/-! Every page the type-1 runtime hands out is its own page of usable memory, inside the
address range of the runtime and outside every reservation. -/

namespace AegisHV
open Sys PhysicalPageAllocator List LimineMemmapEntry

/-! The usable memory of the map. -/

namespace LimineMemmapEntry

/-- What `from_entries` checks of a usable entry of the map `entries`. -/
structure UsableIn (entries : List LimineMemmapEntry) (e : LimineMemmapEntry) : Prop where
  mem : e ∈ entries
  kind : e.kind = 0
  aligned : e.base % 4096 = 0 ∧ e.length % 4096 = 0
  apart : ∀ o ∈ entries, o.kind ≠ 0 → o.base + o.length ≤ e.base ∨ e.base + e.length ≤ o.base

theorem stop_eq_ok {e : LimineMemmapEntry} {n : ℕ} (h : e.stop = .ok n) : n = e.base + e.length :=
  (checkedAdd_eq_some.1 (okOr_eq_ok.1 h)).2

end LimineMemmapEntry

theorem LimineMemoryKind.eq_zero_of_usable {raw : ℕ} (h : fromRaw raw = .ok .usable) : raw = 0 := by
  unfold fromRaw at h
  split at h <;> first | rfl | cases h

namespace LimineUsableMemory

variable {N : ℕ} {entries : List LimineMemmapEntry}

theorem rejectOverlap_ok {entry : LimineMemmapEntry} {index stop : ℕ}
    (h : rejectOverlap entry index stop entries.zipIdx = .ok ()) {o : LimineMemmapEntry} {i : ℕ}
    (ho : entries[i]? = some o) (hi : i ≠ index) :
    o.base + o.length ≤ entry.base ∨ stop ≤ o.base := by
  have hstep := forM_ok.1 h (o, i) (mem_zipIdx_iff_getElem?.2 ho)
  simp only [if_neg hi, except_bind_ok, failIf_eq_ok, Bool.and_eq_false_iff,
    decide_eq_false_iff_not, Nat.not_lt] at hstep
  obtain ⟨_, -, otherEnd, hend, hapart⟩ := hstep
  rwa [stop_eq_ok hend] at hapart

theorem addEntry_ok {t t' : Table BootMemoryRegion N} {e : LimineMemmapEntry} {i : ℕ}
    (hi : entries[i]? = some e) (h : addEntry entries t (e, i) = .ok t') :
    t' = t ∨ UsableIn entries e ∧ t'.toList = t.toList ++ [⟨e.base, e.length, .usable⟩] := by
  obtain ⟨kind, hkind, h⟩ := except_bind_ok.1 h
  obtain ⟨stop, hstop, h⟩ := except_bind_ok.1 h
  by_cases husable : kind = .usable
  swap
  · rw [if_pos husable] at h
    cases h
    exact Or.inl rfl
  · subst husable
    simp only [ne_eq, not_true_eq_false, if_false, except_bind_ok, failIf_eq_ok, exists_const,
      Bool.or_eq_false_iff, bne_eq_false_iff_eq, decide_eq_false_iff_not, Nat.not_le] at h
    obtain ⟨⟨⟨-, hbase⟩, hlength⟩, _, hoverlap, hroom, hpure⟩ := h
    cases hpure
    have hzero := LimineMemoryKind.eq_zero_of_usable hkind
    refine Or.inr ⟨⟨mem_of_getElem? hi, hzero, ⟨hbase, hlength⟩, fun o ho hne => ?_⟩,
      Table.toList_push _ _ hroom⟩
    obtain ⟨j, hj⟩ := mem_iff_getElem?.1 ho
    have hji : j ≠ i := by
      rintro rfl
      rw [hi] at hj
      cases hj
      exact hne hzero
    rw [← stop_eq_ok hstop]
    exact rejectOverlap_ok hoverlap hj hji

theorem fromEntries_regions {usable : LimineUsableMemory N} (h : fromEntries entries = .ok usable) :
    ∀ r ∈ usable.regions, ∃ e, UsableIn entries e ∧ r = ⟨e.base, e.length, .usable⟩ := by
  obtain ⟨table, hfold, hpure⟩ := except_bind_ok.1 h
  cases hpure
  refine foldlM_inv (fun _ (t : Table BootMemoryRegion N) => ∀ r ∈ t.toList,
    ∃ e, UsableIn entries e ∧ r = ⟨e.base, e.length, .usable⟩)
    (by simp) (fun seen indexed rest t t' hsplit ht hadd => ?_) hfold
  have hi : entries[indexed.2]? = some indexed.1 :=
    mem_zipIdx_iff_getElem?.1 (hsplit ▸ mem_append_right _ mem_cons_self)
  rcases addEntry_ok hi hadd with rfl | ⟨husable, hlist⟩
  · exact ht
  · rw [hlist]
    exact forall_mem_concat ht ⟨indexed.1, husable, rfl⟩

end LimineUsableMemory

/-! The allocator as a stock of pages. -/

namespace PhysicalPageAllocator

/-- The pages of `U` are free, handed out, or in `removed`. -/
structure Stocked {R A : ℕ} (U removed : Set ℕ) (s : PhysicalPageAllocator R A) : Prop where
  inv : Inv s
  splits : (s.ledger removed).Splits U

variable {R A : ℕ} {s s' : PhysicalPageAllocator R A} {U removed : Set ℕ} {page : ℕ}

theorem Stocked.taken (h : Stocked U removed s) (ht : Taken s page s') : Stocked U removed s' :=
  ⟨ht.inv h.inv, (ht.ledger removed).splits h.splits⟩

theorem Stocked.reserved {base length : ℕ} (h : Stocked U removed s)
    (hr : Reserved s base length s') :
    Stocked U (removed ∪ { p | p ∈ s.freeSet ∧ p < base + length ∧ base < p + 4096 }) s' :=
  ⟨hr.inv h.inv, (hr.ledger removed).splits h.splits⟩

/-- A page handed out is one of the stock and was not removed. -/
theorem Stocked.held (h : Stocked U removed s) (hp : page ∈ s.allocated.toList) :
    page ∈ U ∧ page ∉ removed :=
  ⟨(h.splits.total page).1 (Or.inr (Or.inl hp)), h.splits.held_reserved page hp⟩

/-- Calls of `allocate_within` that all succeeded, with the pages they returned. -/
inductive Obtained (c : PageAllocationConstraint) (s₀ : PhysicalPageAllocator R A) :
    List HostPhysical → PhysicalPageAllocator R A → Prop
  | start : Obtained c s₀ [] s₀
  | next {pages s page s'} (h : Obtained c s₀ pages s)
      (hok : (allocateWithin c).run s = (.ok page, s')) : Obtained c s₀ (pages ++ [page]) s'

end PhysicalPageAllocator

/-! Allocating the pages of the toy guest. -/

section

variable {constraint : PageAllocationConstraint} {s₀ s : EarlyAllocator} {pages : List HostPhysical}

/-- Giving the pages back, the last one first, undoes their allocations. -/
theorem Obtained.rollback (h₀ : Inv s₀) (h : Obtained constraint s₀ pages s) :
    Inv s ∧ rollback pages s = (none, s₀) := by
  induction h with
  | start => exact ⟨h₀, rfl⟩
  | @next pages s page s' h hok ih =>
    obtain ⟨hs, hback⟩ := ih
    refine ⟨(allocateWithin_taken hs hok).1.inv hs, ?_⟩
    have hfree : giveBack (none, s') page = (none, s) := by
      rw [giveBack, freePage_allocateWithin hs hok]
    rw [AegisHV.rollback, reverse_append, reverse_singleton, singleton_append, foldl_cons, hfree]
    exact hback

/-- The loop obtains the pages that remain, or it fails with the error of the allocation that
failed, and then the allocator is the one it started from. -/
theorem allocatePages_spec (h₀ : Inv s₀) (remaining : ℕ) :
    ∀ {pages : List HostPhysical} {s : EarlyAllocator}, Obtained constraint s₀ pages s →
      (∃ more s', more.length = remaining ∧ Obtained constraint s₀ (pages ++ more) s' ∧
        (allocatePages constraint remaining pages).run s = (.ok (pages ++ more), s')) ∨
      ∃ more t error, more.length < remaining ∧ Obtained constraint s₀ (pages ++ more) t ∧
        (allocateWithin constraint).run t = (.error error, t) ∧
        (allocatePages constraint remaining pages).run s = (.error (.core error.kind), s₀) := by
  induction remaining with
  | zero =>
    intro pages s h
    exact Or.inl ⟨[], s, rfl, by rwa [append_nil], by rw [append_nil]; rfl⟩
  | succ remaining ih =>
    intro pages s h
    obtain ⟨hs, hback⟩ := Obtained.rollback h₀ h
    rcases allocateWithin_spec hs constraint with ⟨error, herror⟩ | ⟨page, t, hok, -⟩
    · refine Or.inr ⟨[], s, error, Nat.succ_pos _, by rwa [append_nil], herror, ?_⟩
      simp only [allocatePages, herror, hback]
    · have hlist (more : List HostPhysical) : pages ++ [page] ++ more = pages ++ page :: more := by
        simp
      simp only [allocatePages, hok]
      rcases ih (h.next hok) with ⟨more, s', hlen, hall, hrun⟩ | ⟨more, u, error, hlen, hall, hrest⟩
      · rw [hlist] at hall hrun
        exact Or.inl ⟨page :: more, s', congrArg Nat.succ hlen, hall, hrun⟩
      · rw [hlist] at hall
        exact Or.inr ⟨page :: more, u, error, Nat.succ_lt_succ hlen, hall, hrest⟩

end

theorem Type1ToyGuestHostPages.all_ofPages {pages : List HostPhysical}
    (h : pages.length = TYPE1_TOY_GUEST_PAGE_COUNT) :
    (Type1ToyGuestHostPages.ofPages pages).all = pages := by
  have hrange : (Type1ToyGuestHostPages.ofPages pages).all =
      (List.range 13).map fun i => pages.getD i HostPhysical.zero := rfl
  rw [hrange]
  refine ext_getElem (by simp [h, TYPE1_TOY_GUEST_PAGE_COUNT]) fun i h1 h2 => ?_
  simp [getElem?_eq_getElem h2]

/-! The pages of the runtime. -/

def Type1RuntimeMemoryPlan.pages (plan : Type1RuntimeMemoryPlan) : Type1RuntimeBackend → List ℕ
  | .none => []
  | .intelVmx => [plan.vmxonPhysical, plan.vmcsPhysical]
  | .amdSvm => [plan.svmVmcbPhysical]

/-- `pages` are pages the allocator has handed out within the runtime's range. -/
structure HandedOut (U removed : Set ℕ) (pages : List ℕ) (s : EarlyAllocator) : Prop where
  stocked : Stocked U removed s
  nodup : pages.Nodup
  held : ∀ p ∈ pages, p ∈ s.allocated.toList
  range : ∀ p ∈ pages,
    TYPE1_RUNTIME_MIN_PHYSICAL ≤ p ∧ p + 4096 ≤ TYPE1_RUNTIME_MAX_PHYSICAL_EXCLUSIVE

theorem runtimePageConstraint_ok {constraint : PageAllocationConstraint}
    (h : runtimePageConstraint = .ok constraint) :
    constraint = ⟨TYPE1_RUNTIME_MIN_PHYSICAL, TYPE1_RUNTIME_MAX_PHYSICAL_EXCLUSIVE⟩ := by
  cases h
  rfl

section

variable {U removed : Set ℕ} {constraint : PageAllocationConstraint} {pages : List ℕ}
  {s s' : EarlyAllocator}

/-- One more page from the allocator. -/
theorem HandedOut.exec_allocate (h : HandedOut U removed pages s) {page : HostPhysical}
    (hc : runtimePageConstraint = .ok constraint)
    (hrun : (allocateWithin constraint).run s = (.ok page, s')) :
    HandedOut U removed (pages ++ [page.raw]) s' := by
  rw [runtimePageConstraint_ok hc] at hrun
  obtain ⟨ht, hrange⟩ := allocateWithin_taken h.stocked.inv hrun
  have hnew := ht.not_held h.stocked.inv
  refine ⟨h.stocked.taken ht, ?_, fun p hp => ?_, forall_mem_concat h.range hrange⟩
  · refine nodup_append.2 ⟨h.nodup, by simp, fun a ha b hb hab => ?_⟩
    rw [mem_singleton.1 hb] at hab
    exact hnew (hab ▸ h.held a ha)
  · rw [ht.allocated.list]
    exact mem_append.2 ((mem_append.1 hp).imp_left (h.held p))

theorem HandedOut.obtained (h : HandedOut U removed pages s) {new : List HostPhysical}
    (hc : runtimePageConstraint = .ok constraint) (hnew : Obtained constraint s new s') :
    HandedOut U removed (pages ++ new.map HostPhysical.raw) s' := by
  induction hnew with
  | start => rwa [map_nil, append_nil]
  | next _ hok ih =>
    rw [map_append, ← append_assoc]
    exact ih.exec_allocate hc hok

theorem planMemory_obtained {backend : Type1RuntimeBackend} {plan : Type1RuntimeMemoryPlan}
    (hplan : planMemory constraint s backend = .ok (plan, s')) :
    ∃ new, Obtained constraint s new s' ∧ plan.pages backend = new.map HostPhysical.raw := by
  cases backend with
  | none =>
    cases hplan
    exact ⟨[], .start, rfl⟩
  | amdSvm =>
    obtain ⟨⟨vmcb, t⟩, hvmcb, hpure⟩ := except_bind_ok.1 hplan
    cases hpure
    exact ⟨[vmcb], Obtained.start.next (Op.exec_eq_ok.1 (mapError_eq_ok.1 hvmcb)), rfl⟩
  | intelVmx =>
    obtain ⟨⟨vmxon, t⟩, hvmxon, hrest⟩ := except_bind_ok.1 hplan
    have hfirst := Obtained.start.next (Op.exec_eq_ok.1 (mapError_eq_ok.1 hvmxon))
    simp only at hrest
    rcases hvmcs : (allocateWithin constraint).run t with ⟨_ | vmcs, t'⟩
    · simp only [hvmcs] at hrest
      split at hrest <;> cases hrest
    · rw [hvmcs] at hrest
      cases hrest
      exact ⟨[vmxon, vmcs], hfirst.next hvmcs, rfl⟩

end

namespace Type1RuntimeMemoryAllocation

/-- Every page handed out so far: the backend's and the toy guest's. -/
def handedOut (backend : Type1RuntimeBackend) (a : Type1RuntimeMemoryAllocation) : List ℕ :=
  a.plan.pages backend ++ (a.toyGuest.toList.flatMap fun guest => guest.all.map HostPhysical.raw)

variable {U removed : Set ℕ} {backend : Type1RuntimeBackend} {a : Type1RuntimeMemoryAllocation}

/-- The failure that a call of `allocate_intel_toy_guest` ran into: a check of its own, or the
allocation of a page after fewer than thirteen others. -/
inductive Failure (a : Type1RuntimeMemoryAllocation) : Type1EarlyMemoryError → Prop
  | backend (h : a.plan.vmxonPhysical = 0 ∨ a.plan.vmcsPhysical = 0) : Failure a .backendMismatch
  | again (h : a.toyGuest.isSome) : Failure a .toyGuestAlreadyAllocated
  | page {constraint pages s error} (hc : runtimePageConstraint = .ok constraint)
      (hpages : Obtained constraint a.allocator pages s)
      (hlen : pages.length < TYPE1_TOY_GUEST_PAGE_COUNT)
      (herror : (allocateWithin constraint).run s = (.error error, s)) :
      Failure a (.core error.kind)

/-- All a call can do: fail and change nothing, or fill in the toy guest. -/
inductive ToyEffect (a : Type1RuntimeMemoryAllocation) :
    Except Type1EarlyMemoryError Type1ToyGuestHostPages × Type1RuntimeMemoryAllocation → Prop
  | failed {e} (h : Failure a e) : ToyEffect a (.error e, a)
  | allocated {constraint pages s'} (hnone : a.toyGuest = none)
      (hc : runtimePageConstraint = .ok constraint)
      (h : Obtained constraint a.allocator pages s')
      (hlen : pages.length = TYPE1_TOY_GUEST_PAGE_COUNT) :
      ToyEffect a (.ok (.ofPages pages),
        { a with allocator := s', toyGuest := some (.ofPages pages) })

theorem step_toyEffect (h : Inv a.allocator) : ToyEffect a (step a ()) := by
  unfold step allocateIntelToyGuest
  rw [Op.run_read_bind]
  by_cases hmismatch : a.plan.vmxonPhysical = 0 ∨ a.plan.vmcsPhysical = 0
  · rw [if_pos hmismatch]
    exact .failed (.backend hmismatch)
  rw [if_neg hmismatch]
  by_cases hsome : a.toyGuest.isSome = true
  · rw [if_pos hsome]
    exact .failed (.again hsome)
  rw [if_neg hsome]
  have hnone : a.toyGuest = none := by simpa using hsome
  obtain ⟨constraint, hc⟩ : ∃ constraint, runtimePageConstraint = .ok constraint := ⟨_, rfl⟩
  rw [hc, Op.run_lift_ok_bind]
  rcases allocatePages_spec h TYPE1_TOY_GUEST_PAGE_COUNT .start with
    ⟨pages, s', hlen, hpages, hrun⟩ | ⟨pages, t, error, hlen, hpages, herror, hrun⟩
  · rw [hrun]
    exact .allocated hnone hc hpages hlen
  · rw [hrun]
    exact .failed (.page hc hpages hlen herror)

theorem ToyEffect.handedOut {r : Except Type1EarlyMemoryError Type1ToyGuestHostPages ×
      Type1RuntimeMemoryAllocation} (he : ToyEffect a r)
    (h : HandedOut U removed (a.handedOut backend) a.allocator) :
    HandedOut U removed (r.2.handedOut backend) r.2.allocator := by
  cases he with
  | failed => exact h
  | allocated hnone hc hpages hlen =>
    have := h.obtained hc hpages
    simp only [Type1RuntimeMemoryAllocation.handedOut, hnone, Option.toList_none,
      flatMap_nil, append_nil, Option.toList_some, flatMap_cons,
      Type1ToyGuestHostPages.all_ofPages hlen] at this ⊢
    exact this

end Type1RuntimeMemoryAllocation

/-! Setting the runtime memory up. -/

/-- Some byte of the page lies in the reservation. -/
def Type1PhysicalReservation.Meets (r : Type1PhysicalReservation) (p : ℕ) : Prop :=
  p < r.base + r.length ∧ r.base < p + 4096

theorem applyReservation_stocked {U removed : Set ℕ} {acc acc' : EarlyAllocator × ℕ}
    {r : Type1PhysicalReservation} (h : Stocked U removed acc.1)
    (hempty : acc.1.allocated.toList = []) (hr : applyReservation acc r = .ok acc') :
    acc'.1.allocated.toList = [] ∧ ∃ removed', removed ⊆ removed' ∧ Stocked U removed' acc'.1 ∧
      ∀ p ∈ U, r.Meets p → p ∈ removed' := by
  obtain ⟨⟨n, t⟩, hexec, hrest⟩ := except_bind_ok.1 hr
  obtain ⟨excluded, -, hpure⟩ := except_bind_ok.1 hrest
  cases hpure
  have hrun := Op.exec_eq_ok.1 (mapError_eq_ok.1 hexec)
  rcases reserveRange_reserved h.inv r.base r.length with ⟨e, he⟩ | ⟨n', s', hok, hreserved⟩
  · rw [he] at hrun
    cases hrun
  · rw [hok] at hrun
    cases hrun
    refine ⟨by rw [hreserved.allocated, hempty], _, Set.subset_union_left, h.reserved hreserved,
      fun p hp hmeets => ?_⟩
    rcases (h.splits.total p).2 hp with hfree | hheld | hremoved
    · exact Or.inr ⟨hfree, hmeets⟩
    · have hmem : p ∈ acc.1.allocated.toList := hheld
      rw [hempty] at hmem
      cases hmem
    · exact Or.inl hremoved

theorem applyReservations_stocked {U : Set ℕ} {s : EarlyAllocator} {acc : EarlyAllocator × ℕ}
    {reservations : List Type1PhysicalReservation} (h : Stocked U ∅ s)
    (hempty : s.allocated.toList = [])
    (hfold : reservations.foldlM applyReservation (s, 0) = .ok acc) :
    ∃ removed, Stocked U removed acc.1 ∧ ∀ r ∈ reservations, ∀ p ∈ U, r.Meets p → p ∈ removed := by
  refine (foldlM_inv (fun seen t => t.1.allocated.toList = [] ∧
    ∃ removed, Stocked U removed t.1 ∧ ∀ r ∈ seen, ∀ p ∈ U, r.Meets p → p ∈ removed)
    ⟨hempty, ∅, h, by simp⟩ ?_ hfold).2
  rintro seen r rest t t' - ⟨ht, removed, hstocked, hseen⟩ hr
  obtain ⟨ht', removed', hsub, hstocked', hnew⟩ := applyReservation_stocked hstocked ht hr
  exact ⟨ht', removed', hstocked',
    forall_mem_concat (fun r' hr' p hp hmeets => hsub (hseen r' hr' p hp hmeets)) hnew⟩

/-- The page is its owner's alone to use: usable memory in the runtime's range that no other
entry of the map and no reservation touches. -/
structure PageSafe (entries : List LimineMemmapEntry)
    (reservations : List Type1PhysicalReservation) (p : ℕ) : Prop where
  aligned : p % PAGE_SIZE_4K = 0
  range : TYPE1_RUNTIME_MIN_PHYSICAL ≤ p ∧ p + PAGE_SIZE_4K ≤ TYPE1_RUNTIME_MAX_PHYSICAL_EXCLUSIVE
  usable : ∃ e ∈ entries, e.kind = 0 ∧ e.base ≤ p ∧ p + PAGE_SIZE_4K ≤ e.base + e.length
  unusable : ∀ o ∈ entries, o.kind ≠ 0 → o.base + o.length ≤ p ∨ p + PAGE_SIZE_4K ≤ o.base
  reserved : ∀ r ∈ reservations, r.base + r.length ≤ p ∨ p + PAGE_SIZE_4K ≤ r.base

/-- A page of the normalized map lies in one entry of the boot loader's map. -/
theorem usablePages_entry {N : ℕ} {entries : List LimineMemmapEntry} {usable : LimineUsableMemory N}
    {map : MemoryMap N} (husable : LimineUsableMemory.fromEntries entries = .ok usable)
    (hmap : MemoryMap.fromEntries
      (usable.regions.map fun r => (⟨r.base, r.length, .usable⟩ : MemoryRegion)) = .ok map)
    {p : ℕ} (hp : p ∈ map.usablePages) :
    ∃ e, UsableIn entries e ∧ e.base ≤ p ∧ p + 4096 ≤ e.base + e.length := by
  obtain ⟨haligned, hall⟩ := hp
  obtain ⟨region, hregion, hle, hlt⟩ := hall p le_rfl (by omega)
  obtain ⟨hmem, hkind⟩ := mem_filter.1 hregion
  have hat : MemoryMap.KindAt map.regions .usable p :=
    ⟨region, hmem, of_decide_eq_true hkind, hle, hlt⟩
  obtain ⟨r, hr, -, hrle, hrlt⟩ := ((MemoryMap.fromEntries_spec hmap).2 _ _).1 hat
  obtain ⟨b, hb, rfl⟩ := mem_map.1 hr
  obtain ⟨e, he, rfl⟩ := LimineUsableMemory.fromEntries_regions husable b hb
  refine ⟨e, he, hrle, ?_⟩
  have := he.aligned
  simp only [MemoryRegion.hi] at hrlt
  omega

theorem setup_handedOut {N : ℕ} {entries : List LimineMemmapEntry} {backend : Type1RuntimeBackend}
    {reservations : List Type1PhysicalReservation} {a : Type1RuntimeMemoryAllocation}
    (h : allocateType1RuntimeMemoryWithReservations N entries backend reservations = .ok a) :
    ∃ U removed, HandedOut U removed (a.handedOut backend) a.allocator ∧
      (∀ p ∈ U, p % 4096 = 0 ∧
        ∃ e, UsableIn entries e ∧ e.base ≤ p ∧ p + 4096 ≤ e.base + e.length) ∧
      ∀ r ∈ reservations, ∀ p ∈ U, r.Meets p → p ∈ removed := by
  simp only [allocateType1RuntimeMemoryWithReservations, except_bind_ok, failIf_eq_ok,
    mapError_eq_ok, exists_const] at h
  obtain ⟨-, usable, husable, map, hmap, s, hs, ⟨t, excluded⟩, hfold, constraint, hc, ⟨plan, t'⟩,
    hplan, hpure⟩ := h
  cases hpure
  have hstart : Stocked map.usablePages ∅ s :=
    ⟨fromMemoryMap_inv hs, fromMemoryMap_splits (MemoryMap.fromEntries_spec hmap).1 hs⟩
  obtain ⟨removed, hstocked, hmeets⟩ :=
    applyReservations_stocked hstart (fromMemoryMap_spec hs).2.1.list hfold
  refine ⟨map.usablePages, removed, ?_, fun p hp => ⟨hp.1, usablePages_entry husable hmap hp⟩,
    hmeets⟩
  obtain ⟨new, hnew, hpages⟩ := planMemory_obtained hplan
  have hnone : HandedOut map.usablePages removed [] t := ⟨hstocked, nodup_nil, by simp, by simp⟩
  simpa [Type1RuntimeMemoryAllocation.handedOut, hpages] using hnone.obtained hc hnew

namespace Type1RuntimeMemoryAllocation

theorem run_handedOut {U removed : Set ℕ} {backend : Type1RuntimeBackend}
    {a : Type1RuntimeMemoryAllocation}
    (h : HandedOut U removed (a.handedOut backend) a.allocator) (calls : List Unit) :
    HandedOut U removed ((run step a calls).2.handedOut backend) (run step a calls).2.allocator ∧
      ∀ entry ∈ (run step a calls).1, ∀ guest, entry.2 = .ok guest →
        (run step a calls).2.toyGuest = some guest := by
  refine run_inv (fun (log : List (Unit × Except _ _)) (t : Type1RuntimeMemoryAllocation) =>
    HandedOut U removed (t.handedOut backend) t.allocator ∧
      ∀ entry ∈ log, ∀ guest, entry.2 = .ok guest → t.toyGuest = some guest) ⟨h, by simp⟩ ?_ calls
  rintro log t ⟨⟩ ⟨ht, hlog⟩
  have heffect := step_toyEffect ht.stocked.inv
  refine ⟨heffect.handedOut ht, ?_⟩
  generalize step t () = r at heffect
  refine forall_mem_concat (fun entry hold guest hguest => ?_) fun guest hguest => ?_
  · have htoy := hlog entry hold guest hguest
    cases heffect with
    | failed => exact htoy
    | allocated hnone =>
      rw [hnone] at htoy
      cases htoy
  · cases heffect with
    | failed => cases hguest
    | allocated =>
      cases hguest
      rfl

theorem linkedKernelReservation_ok {physical virtual start stop : ℕ} {r : Type1PhysicalReservation}
    (h : linkedKernelReservation physical virtual start stop = .ok r) :
    r.base = physical ∧ r.length = stop - start := by
  simp only [linkedKernelReservation, except_bind_ok, failIf_eq_ok, okOr_eq_ok, checkedSub_eq_some,
    exists_const] at h
  obtain ⟨-, length, ⟨-, rfl⟩, -, -, _, -, -, hnew⟩ := h
  unfold Type1PhysicalReservation.new at hnew
  split_ifs at hnew
  cases hnew
  exact ⟨rfl, rfl⟩

theorem runtime_pages_safe {N : ℕ} {entries : List LimineMemmapEntry}
    {backend : Type1RuntimeBackend} {reservations : List Type1PhysicalReservation}
    {a : Type1RuntimeMemoryAllocation}
    (h : allocateType1RuntimeMemoryWithReservations N entries backend reservations = .ok a)
    (calls : List Unit) :
    let log := (run step a calls).1
    let a' := (run step a calls).2
    (a'.handedOut backend).Nodup ∧
      (∀ p ∈ a'.handedOut backend, PageSafe entries reservations p) ∧
      (∀ entry ∈ log, ∀ guest, entry.2 = .ok guest → ∀ page ∈ guest.all,
        page.raw ∈ a'.handedOut backend) ∧
      ∀ physical virtual start stop r, linkedKernelReservation physical virtual start stop = .ok r →
        r ∈ reservations → ∀ p ∈ a'.handedOut backend,
          physical + (stop - start) ≤ p ∨ p + PAGE_SIZE_4K ≤ physical := by
  obtain ⟨U, removed, hsetup, hU, hmeets⟩ := setup_handedOut h
  obtain ⟨hrun, hlog⟩ := run_handedOut hsetup calls
  have hsafe : ∀ p ∈ (run step a calls).2.handedOut backend, PageSafe entries reservations p := by
    intro p hp
    obtain ⟨hmem, hkept⟩ := hrun.stocked.held (hrun.held p hp)
    obtain ⟨haligned, e, he, hle, hge⟩ := hU p hmem
    refine ⟨haligned, hrun.range p hp, ⟨e, he.mem, he.kind, hle, hge⟩, fun o ho hkind => ?_,
      fun r hr => ?_⟩
    · have := he.apart o ho hkind
      rw [PAGE_SIZE_4K]
      omega
    · have hout : ¬ r.Meets p := fun hin => hkept (hmeets r hr p hmem hin)
      rw [Type1PhysicalReservation.Meets] at hout
      rw [PAGE_SIZE_4K]
      omega
  refine ⟨hrun.nodup, hsafe, fun entry hentry guest hguest page hpage => ?_, ?_⟩
  · have htoy := hlog entry hentry guest hguest
    refine mem_append_right _ ?_
    rw [htoy]
    simpa using ⟨page, hpage, rfl⟩
  · intro physical virtual start stop r hkernel hr p hp
    obtain ⟨hbase, hlength⟩ := linkedKernelReservation_ok hkernel
    rw [← hbase, ← hlength]
    exact (hsafe p hp).reserved r hr

/-- Thirty-two usable pages, the first one reserved, and a framebuffer. -/
def smallSetup : Except Type1EarlyMemoryError Type1RuntimeMemoryAllocation :=
  allocateType1RuntimeMemoryWithReservations 4
    [⟨0x200000, 0x20000, 0⟩, ⟨0x400000, 0x1000, 7⟩] .intelVmx
    [⟨0x200000, 0x10, by decide, by decide⟩]

theorem runtime_pages_safe_small_setup : ∃ a, smallSetup = .ok a ∧
    ((run step a [()]).2.handedOut .intelVmx).length = 15 ∧
    ((run step a [()]).2.handedOut .intelVmx).Nodup := by
  have hcount : smallSetup.toOption.map (fun a =>
      ((run step a [()]).2.handedOut .intelVmx).length) = some 15 := by decide +kernel
  cases h : smallSetup with
  | error e =>
    rw [h] at hcount
    cases hcount
  | ok a =>
    rw [h] at hcount
    exact ⟨a, rfl, Option.some_inj.1 hcount, (runtime_pages_safe h [()]).1⟩

end Type1RuntimeMemoryAllocation

end AegisHV
