import AegisHV.Spec.HostPaging
import Mathlib.Data.Nat.Bitwise

/-! The host page tables mean the mappings they were built from: a walk finds a
mapping's page exactly where some mapping covers the address. -/

namespace AegisHV.HostPaging
open Sys HostPageTableImage List HostPageMapping HostPageTableLayout HostPagePermissions

/-! Addresses: what the bit tests of the source say in arithmetic. -/

theorem isPageAligned_iff {a : ℕ} : isPageAligned a = true ↔ a % 4096 = 0 := by
  rw [isPageAligned, beq_iff_eq]
  exact Eq.congr_left (Nat.and_two_pow_sub_one_eq_mod a 12)

theorem isCanonical48_iff {a : ℕ} :
    isCanonical48 a = true ↔ a < 2 ^ 47 ∨ 2 ^ 64 - 2 ^ 47 ≤ a ∧ a < 2 ^ 64 := by
  simp only [isCanonical48, isSignExtended48, Nat.shiftRight_eq_div_pow, Nat.and_one_is_mod, Bool.or_eq_true,
    Bool.and_eq_true, beq_iff_eq]
  omega

theorem slotAt_val (shift a : ℕ) : (slotAt shift a).val = a / 2 ^ shift % 512 := by
  rw [← Nat.shiftRight_eq_div_pow]
  exact Nat.and_two_pow_sub_one_eq_mod _ 9

/-- A kernel window that `build` accepts. -/
structure Window (base : ℕ) : Prop where
  aligned : base % 2 ^ 21 = 0
  high : 2 ^ 64 - 2 ^ 47 ≤ base
  fits : base + 2 ^ 21 < 2 ^ 64

theorem validateKernelWindow_ok {base stop : ℕ} (h : validateKernelWindow base = .ok stop) :
    Window base ∧ stop = base + 2 ^ 21 := by
  simp only [validateKernelWindow, except_bind_ok, failIf_eq_ok, okOr_eq_ok, checkedAdd_eq_some,
    exists_const, Bool.not_eq_false', bne_eq_false_iff_eq, beq_eq_false_iff_ne] at h
  obtain ⟨haligned, hcanonical, hhigh, stop', ⟨hfits, rfl⟩, -, hpure⟩ := h
  cases hpure
  rw [show HOST_KERNEL_WINDOW_SIZE = 2 ^ 21 from rfl] at *
  rw [Nat.and_two_pow_sub_one_eq_mod] at haligned
  refine ⟨⟨haligned, ?_, hfits⟩, rfl⟩
  rcases isCanonical48_iff.1 hcanonical with hlow | hhigh'
  · refine absurd ?_ hhigh
    rw [Nat.one_shiftLeft, Nat.and_two_pow, Nat.testBit_lt_two_pow hlow]
    rfl
  · exact hhigh'.1

section

variable {base va : ℕ}

/-- The three upper slots of an address are those of the window exactly inside the window: the
topmost of their bits is the sign bit of a canonical address. -/
theorem slots_eq_iff (hw : Window base) (hva : isCanonical48 va = true) :
    pml4Index va = pml4Index base ∧ pdptIndex va = pdptIndex base ∧ pdIndex va = pdIndex base ↔
      base ≤ va ∧ va < base + 2 ^ 21 := by
  have hcanonical := isCanonical48_iff.1 hva
  obtain ⟨haligned, hhigh, hfits⟩ := hw
  simp only [pml4Index, pdptIndex, pdIndex, Fin.ext_iff, slotAt_val]
  omega

theorem ptIndex_eq_iff {va' : ℕ} (hw : Window base) (h : base ≤ va ∧ va < base + 2 ^ 21)
    (h' : base ≤ va' ∧ va' < base + 2 ^ 21) :
    ptIndex va = ptIndex va' ↔ va / 4096 = va' / 4096 := by
  obtain ⟨haligned, -, -⟩ := hw
  simp only [ptIndex, Fin.ext_iff, slotAt_val]
  omega

end

/-! Entries: an aligned physical address with flags beside it. -/

theorem and_mask_of_aligned {p : ℕ} (haligned : p % 4096 = 0) (hlt : p < 2 ^ 52) :
    p &&& HOST_PTE_ADDRESS_MASK = p := by
  have hp : p = (p / 2 ^ 12) <<< 12 := by
    omega
  have hmask : HOST_PTE_ADDRESS_MASK = (2 ^ 40 - 1) <<< 12 := by decide
  rw [hmask, hp, ← Nat.shiftLeft_and_distrib, Nat.and_two_pow_sub_one_eq_mod,
    Nat.mod_eq_of_lt (by omega)]

section

variable {p f c : ℕ}

theorem or_and_mask (hp : p &&& HOST_PTE_ADDRESS_MASK = p) (hf : f &&& HOST_PTE_ADDRESS_MASK = 0) :
    (p ||| f) &&& HOST_PTE_ADDRESS_MASK = p := by
  rw [Nat.and_or_distrib_right, hp, hf, Nat.or_zero]

/-- A test of bits outside the address sees only the flags. -/
theorem or_and_flags (hp : p &&& HOST_PTE_ADDRESS_MASK = p) (hc : HOST_PTE_ADDRESS_MASK &&& c = 0) :
    (p ||| f) &&& c = f &&& c := by
  have hpc : p &&& c = 0 := by
    rw [← hp, Nat.and_assoc, hc, Nat.and_zero]
  rw [Nat.and_or_distrib_right, hpc, Nat.zero_or]

end

theorem leafFlags_and_mask (permissions : HostPagePermissions) :
    permissions.leafFlags &&& HOST_PTE_ADDRESS_MASK = 0 := by
  rcases permissions with ⟨_ | _, _ | _⟩ <;> decide

theorem or_leafFlags_ne_zero (p : ℕ) (permissions : HostPagePermissions) :
    p ||| permissions.leafFlags ≠ 0 := by
  intro h
  have hflags : permissions.leafFlags = 0 := (Nat.or_eq_zero_iff.1 h).2
  rcases permissions with ⟨_ | _, _ | _⟩ <;> exact absurd hflags (by decide)

section

variable {image : HostPageTableImage} {p : ℕ} {permissions : HostPagePermissions}

theorem fromLeafEntry_or (hp : p &&& HOST_PTE_ADDRESS_MASK = p) :
    fromLeafEntry (p ||| permissions.leafFlags) = permissions := by
  rw [fromLeafEntry, or_and_flags hp (by decide), or_and_flags hp (by decide)]
  rcases permissions with ⟨_ | _, _ | _⟩ <;> decide

theorem validateTableEntry_or (hp : p &&& HOST_PTE_ADDRESS_MASK = p) (hlt : p < image.physicalLimit) :
    image.validateTableEntry (p ||| HOST_TABLE_FLAGS) p = .ok () := by
  rw [validateTableEntry, failIf_eq_ok, or_and_flags hp (by decide), or_and_flags hp (by decide),
    or_and_mask hp (by decide)]
  simp only [bne_self_eq_false, Bool.or_false, Bool.or_eq_false_iff, decide_eq_false_iff_not,
    Nat.not_le]
  exact ⟨by decide, hlt⟩

theorem validateLeafEntry_or (hp : p &&& HOST_PTE_ADDRESS_MASK = p) (hlt : p < image.physicalLimit)
    (hwx : permissions.isWritableExecutable = false) :
    image.validateLeafEntry (p ||| permissions.leafFlags) = .ok () := by
  rw [validateLeafEntry, failIf_eq_ok, or_and_mask hp (leafFlags_and_mask _)]
  simp only [or_and_flags (c := complement HOST_LEAF_ALLOWED_BITS) hp (by decide),
    or_and_flags (c := HOST_PTE_PRESENT) hp (by decide),
    or_and_flags (c := HOST_PTE_USER) hp (by decide),
    or_and_flags (c := HOST_PTE_LARGE) hp (by decide),
    or_and_flags (c := HOST_PTE_WRITABLE) hp (by decide),
    or_and_flags (c := HOST_PTE_NO_EXECUTE) hp (by decide),
    decide_eq_false (Nat.not_le.2 hlt)]
  rcases permissions with ⟨_ | _, _ | _⟩
  · decide
  · decide
  · decide
  · exact absurd hwx (by decide)

end

/-! The locations of the tables. -/

/-- What `validate` of the layout checks of one table page. -/
structure Located (base limit : ℕ) (location : HostPageTableLocation) : Prop where
  physical : location.physicalAddress % 4096 = 0
  virtual : location.virtualAddress % 4096 = 0
  fits : location.physicalAddress + 4096 ≤ limit
  inside : base ≤ location.virtualAddress ∧ location.virtualAddress < base + 2 ^ 21

theorem validateLocation_ok {base limit : ℕ} {previous : List HostPageTableLocation}
    {location : HostPageTableLocation}
    (h : validateLocation base (base + 2 ^ 21) limit previous location = .ok ()) :
    Located base limit location := by
  simp only [validateLocation, except_bind_ok, failIf_eq_ok, okOr_eq_ok,
    checkedAdd_eq_some, exists_const, Bool.or_eq_false_iff, Bool.not_eq_false',
    decide_eq_false_iff_not, Nat.not_lt, Nat.not_le, isPageAligned_iff] at h
  obtain ⟨-, ⟨hphysical, hvirtual⟩, -, stop, ⟨-, rfl⟩, hfits, hinside, -⟩ := h
  exact ⟨hphysical, hvirtual, hfits, hinside⟩

theorem validate_located {base limit : ℕ} {layout : HostPageTableLayout}
    (h : layout.validate base (base + 2 ^ 21) limit = .ok ()) (level : HostPageTableLevel) :
    Located base limit (layout.location level) := by
  simp only [HostPageTableLayout.validate, except_bind_ok] at h
  obtain ⟨all, hfold, -⟩ := h
  have hall := foldlM_inv (fun seen _ => ∀ l ∈ seen, Located base limit l) (by simp)
    (fun seen location rest t t' _ hseen hstep => by
      obtain ⟨_, hlocation, -⟩ := except_bind_ok.1 hstep
      exact forall_mem_concat hseen (validateLocation_ok hlocation)) hfold
  apply hall
  cases level <;> simp [locations, HostPageTableLevel.all]

/-! Installing the mappings, page by page. -/

structure Page where
  virtualAddress : ℕ
  physicalAddress : ℕ
  permissions : HostPagePermissions

def Page.entry (p : Page) : ℕ := p.physicalAddress ||| p.permissions.leafFlags

def HostPageMapping.page (m : HostPageMapping) (k : ℕ) : Page :=
  ⟨m.virtualAddress + k * 4096, m.physicalAddress + k * 4096, m.permissions⟩

def HostPageMapping.pages (m : HostPageMapping) : List Page :=
  (List.range (m.length / 4096)).map m.page

/-- What `install_mapping` checks of a mapping before it installs its pages. -/
structure Placed (base limit : ℕ) (m : HostPageMapping) : Prop where
  virtual : m.virtualAddress % 4096 = 0
  physical : m.physicalAddress % 4096 = 0
  length : m.length % 4096 = 0
  not_wx : m.permissions.isWritableExecutable = false
  inside : base ≤ m.virtualAddress ∧ m.virtualAddress + m.length ≤ base + 2 ^ 21
  fits : m.physicalAddress + m.length ≤ limit

theorem checkMapping_ok {image : HostPageTableImage} {m : HostPageMapping}
    (h : checkMapping image m = .ok ()) : Placed image.kernelVirtualBase image.physicalLimit m := by
  simp only [checkMapping, except_bind_ok, failIf_eq_ok, okOr_eq_ok, checkedAdd_eq_some,
    exists_const, Bool.or_eq_false_iff, Bool.not_eq_false', decide_eq_false_iff_not, Nat.not_lt,
    isPageAligned_iff] at h
  obtain ⟨-, ⟨⟨hvirtual, hphysical⟩, hlength⟩, hwx, _, ⟨-, rfl⟩, _, ⟨-, rfl⟩, _, ⟨-, rfl⟩,
    ⟨⟨-, hbase⟩, hend⟩, hfits⟩ := h
  exact ⟨hvirtual, hphysical, hlength, hwx, ⟨hbase, hend⟩, hfits⟩

/-- The tables of `image` are those of `start` with the leaves of `pages` in the last one. -/
structure Holds (start : HostPageTableImage) (pages : List Page) (image : HostPageTableImage) :
    Prop where
  layout : image.layout = start.layout
  base : image.kernelVirtualBase = start.kernelVirtualBase
  limit : image.physicalLimit = start.physicalLimit
  upper : ∀ level, level ≠ .pt → ∀ i, (image.tables level).entries i = (start.tables level).entries i
  leaf : ∀ p ∈ pages, (image.tables .pt).entries (ptIndex p.virtualAddress) = p.entry
  used : ∀ i, (image.tables .pt).entries i ≠ 0 → ∃ p ∈ pages, ptIndex p.virtualAddress = i

theorem setEntry_entries (image : HostPageTableImage) (level level' : HostPageTableLevel)
    (i j : Fin 512) (entry : ℕ) : ((image.setEntry level i entry).tables level').entries j =
      if level' = level ∧ j = i then entry else (image.tables level').entries j := by
  by_cases hlevel : level' = level
  · subst hlevel
    simp [setEntry, HostPageTable.set, Function.update_apply]
  · simp [setEntry, hlevel]

/-- The body of the loop of `install_mapping` for a page. -/
def putPage (s : Building) (p : Page) : Except HostPagingError Building :=
  installPage ⟨p.virtualAddress, p.physicalAddress, 0, p.permissions⟩ s 0

/-- The two table indices of a page agree, and a page of a table is read-write. -/
def Marks (layout : HostPageTableLayout) (p : Page) : Prop :=
  layout.tableIndexByPhysical p.physicalAddress = layout.tableIndexByVirtual p.virtualAddress ∧
    (layout.tableIndexByPhysical p.physicalAddress ≠ none →
      p.permissions = READ_WRITE)

theorem markTablePage_eq_ok {layout : HostPageTableLayout} {marked marked' : HostPageTableLevel → Bool}
    {p : Page} : markTablePage layout marked p.virtualAddress p.physicalAddress p.permissions =
      .ok marked' ↔ Marks layout p ∧ marked' = fun level =>
        marked level || decide (layout.tableIndexByPhysical p.physicalAddress = some level) := by
  have hupdate : ∀ level, Function.update marked level true =
      fun level' => marked level' || decide (level = level') := by
    intro level
    funext level'
    by_cases h : level' = level
    · simp [h]
    · simp [h, Ne.symm h]
  unfold markTablePage Marks
  cases layout.tableIndexByPhysical p.physicalAddress with
  | none =>
    cases layout.tableIndexByVirtual p.virtualAddress with
    | none => simp [pure, Except.pure, eq_comm]
    | some level => simp
  | some level =>
    cases layout.tableIndexByVirtual p.virtualAddress with
    | none => simp
    | some level' =>
      by_cases hlevel : level = level'
      · subst hlevel
        simp only [if_pos, except_bind_ok, failIf_eq_ok, exists_const, hupdate, bne_eq_false_iff_eq, ne_eq,
          reduceCtorEq, not_false_eq_true, true_and, forall_const, Option.some.injEq, pure,
          Except.pure, Except.ok.injEq]
        exact and_congr_right fun _ => eq_comm
      · simp [hlevel]

/-- What a page needs before it is installed. -/
structure Fits (s : Building) (p : Page) : Prop where
  unguarded : s.image.guardIsSet (ptIndex p.virtualAddress) = false
  fresh : (s.image.tables .pt).entries (ptIndex p.virtualAddress) = 0
  unaliased : s.image.physicalPageIsMapped p.physicalAddress = false
  marks : Marks s.image.layout p
  counted : s.image.mappedPageCount + 1 < 2 ^ 16

def put (s : Building) (p : Page) : Building where
  image := { s.image.setEntry .pt (ptIndex p.virtualAddress) p.entry with
    mappedPageCount := s.image.mappedPageCount + 1 }
  mappedTables := fun level => s.mappedTables level ||
    decide (s.image.layout.tableIndexByPhysical p.physicalAddress = some level)

theorem putPage_eq_ok {s s' : Building} {p : Page} :
    putPage s p = .ok s' ↔ Fits s p ∧ s' = put s p := by
  have hva : p.virtualAddress + 0 * HOST_PAGE_SIZE_4K = p.virtualAddress := by simp
  have hpa : p.physicalAddress + 0 * HOST_PAGE_SIZE_4K = p.physicalAddress := by simp
  simp only [putPage, installPage, hva, hpa, except_bind_ok, failIf_eq_ok, exists_const,
    bne_eq_false_iff_eq, markTablePage_eq_ok, decide_eq_false_iff_not, Nat.not_le]
  constructor
  · rintro ⟨hguard, hfresh, haliased, marked, ⟨hmarks, rfl⟩, hcount, hpure⟩
    cases hpure
    exact ⟨⟨hguard, hfresh, haliased, hmarks, hcount⟩, rfl⟩
  · rintro ⟨⟨hguard, hfresh, haliased, hmarks, hcount⟩, rfl⟩
    exact ⟨hguard, hfresh, haliased, _, ⟨hmarks, rfl⟩, hcount, rfl⟩

theorem put_entries (s : Building) (p : Page) (level : HostPageTableLevel) (i : Fin 512) :
    ((put s p).image.tables level).entries i = if level = .pt ∧ i = ptIndex p.virtualAddress
      then p.entry else (s.image.tables level).entries i :=
  setEntry_entries _ _ _ _ _ _

theorem putPages_keep {pages : List Page} {s s' : Building} (h : pages.foldlM putPage s = .ok s') :
    s'.image.kernelVirtualBase = s.image.kernelVirtualBase ∧
      s'.image.physicalLimit = s.image.physicalLimit := by
  refine foldlM_inv (fun _ (t : Building) =>
    t.image.kernelVirtualBase = s.image.kernelVirtualBase ∧
      t.image.physicalLimit = s.image.physicalLimit) ⟨rfl, rfl⟩ ?_ h
  intro seen p rest t t' _ ht hput
  obtain ⟨-, rfl⟩ := putPage_eq_ok.1 hput
  exact ht

theorem checkMapping_congr {image image' : HostPageTableImage} (m : HostPageMapping)
    (hbase : image'.kernelVirtualBase = image.kernelVirtualBase)
    (hlimit : image'.physicalLimit = image.physicalLimit) :
    checkMapping image' m = checkMapping image m := by
  unfold checkMapping
  rw [hbase, hlimit]

theorem installMapping_eq (s : Building) (m : HostPageMapping) :
    installMapping s m = (checkMapping s.image m >>= fun _ => m.pages.foldlM putPage s) := by
  have hpages : m.pages.foldlM putPage s =
      (List.range (m.length / HOST_PAGE_SIZE_4K)).foldlM (installPage m) s := by
    rw [pages, foldlM_map]
    rfl
  rw [hpages]
  rfl

/-- All mappings are checked against the same window, then their pages are installed. -/
theorem installAll_eq_ok {mappings : List HostPageMapping} :
    ∀ {s s' : Building}, mappings.foldlM installMapping s = .ok s' ↔
      (∀ m ∈ mappings, checkMapping s.image m = .ok ()) ∧
        (mappings.flatMap pages).foldlM putPage s = .ok s' := by
  induction mappings with
  | nil => simp
  | cons m mappings ih =>
    intro s s'
    simp only [foldlM_cons, installMapping_eq, flatMap_cons, foldlM_append,
      forall_mem_cons, except_bind_ok, ih]
    constructor
    · rintro ⟨t, ⟨_, hcheck, hpages⟩, hrest, hfold⟩
      obtain ⟨hbase, hlimit⟩ := putPages_keep hpages
      refine ⟨⟨hcheck, fun m' hm' => ?_⟩, t, hpages, hfold⟩
      rw [← checkMapping_congr m' hbase hlimit]
      exact hrest m' hm'
    · rintro ⟨⟨hcheck, hrest⟩, t, hpages, hfold⟩
      obtain ⟨hbase, hlimit⟩ := putPages_keep hpages
      refine ⟨t, ⟨(), hcheck, hpages⟩, fun m' hm' => ?_, hfold⟩
      rw [checkMapping_congr m' hbase hlimit]
      exact hrest m' hm'

section

variable {start : HostPageTableImage} {pages : List Page} {s s' : Building} {p : Page}

theorem holds_put (hs : Holds start pages s.image) (hp : Fits s p) :
    Holds start (pages ++ [p]) (put s p).image := by
  refine ⟨hs.layout, hs.base, hs.limit, fun level hlevel i => ?_, forall_mem_concat ?_ ?_, ?_⟩
  · rw [put_entries, if_neg fun heq => hlevel heq.1, hs.upper level hlevel i]
  · intro q hq
    rw [put_entries, if_neg, hs.leaf q hq]
    rintro ⟨-, hslot⟩
    have hzero := hs.leaf q hq
    rw [hslot, hp.fresh] at hzero
    exact or_leafFlags_ne_zero _ _ hzero.symm
  · rw [put_entries, if_pos ⟨rfl, rfl⟩]
  · intro i hi
    rw [put_entries] at hi
    split_ifs at hi with hslot
    · exact ⟨p, by simp, hslot.2.symm⟩
    · obtain ⟨q, hq, hqi⟩ := hs.used i hi
      exact ⟨q, mem_append_left _ hq, hqi⟩

theorem holds_putPages (hs : Holds start [] s.image) (h : pages.foldlM putPage s = .ok s') :
    Holds start pages s'.image := by
  refine foldlM_inv (fun seen t => Holds start seen t.image) hs ?_ h
  intro seen p rest t t' _ ht hput
  obtain ⟨hfits, rfl⟩ := putPage_eq_ok.1 hput
  exact holds_put ht hfits

end

/-! What a build that succeeds has established. -/

theorem recordGuard_ok {image image' : HostPageTableImage} {guard : HostUnmappedPage}
    (h : recordGuard image guard = .ok image') :
    isCanonical48 guard.virtualAddress = true ∧ guard.virtualAddress % 4096 = 0 ∧
      ∃ guards, image' = { image with guardBitmap := guards } := by
  simp only [recordGuard, except_bind_ok, failIf_eq_ok, exists_const, Bool.not_eq_false',
    isPageAligned_iff] at h
  obtain ⟨hcanonical, haligned, hset⟩ := h
  refine ⟨hcanonical, haligned, ?_⟩
  split_ifs at hset
  · cases hset
    exact ⟨_, rfl⟩
  · cases hset
    exact ⟨image.guardBitmap, rfl⟩

theorem recordGuards_ok {image image' : HostPageTableImage} {guards : List HostUnmappedPage}
    (h : guards.foldlM recordGuard image = .ok image') :
    (∃ bitmap, image' = { image with guardBitmap := bitmap }) ∧
      ∀ g ∈ guards, isCanonical48 g.virtualAddress = true ∧ g.virtualAddress % 4096 = 0 := by
  refine foldlM_inv (fun seen t => (∃ bitmap, t = { image with guardBitmap := bitmap }) ∧
    ∀ g ∈ seen, isCanonical48 g.virtualAddress = true ∧ g.virtualAddress % 4096 = 0)
    ⟨⟨image.guardBitmap, rfl⟩, by simp⟩ (fun seen g rest t t' _ ht hg => ?_) h
  obtain ⟨⟨bitmap, rfl⟩, hseen⟩ := ht
  obtain ⟨hcanonical, haligned, bitmap', rfl⟩ := recordGuard_ok hg
  exact ⟨⟨bitmap', rfl⟩, forall_mem_concat hseen ⟨hcanonical, haligned⟩⟩

/-- The image before the guards and the mappings, with its upper tables in place. -/
def emptyImage (layout : HostPageTableLayout) (base limit : ℕ) : HostPageTableImage :=
  installHierarchy
    { layout, kernelVirtualBase := base, physicalLimit := limit, mappedPageCount := 0
      guardBitmap := fun _ => 0, tables := fun _ => HostPageTable.zeroed }

structure Built (layout : HostPageTableLayout) (base : ℕ) (mappings : List HostPageMapping)
    (guards : List HostUnmappedPage) (limit : ℕ) (image : HostPageTableImage) : Prop where
  limit_le : limit ≤ 2 ^ 52
  window : Window base
  located : ∀ level, Located base limit (layout.location level)
  holds : Holds (emptyImage layout base limit) (mappings.flatMap pages) image
  placed : ∀ m ∈ mappings, Placed base limit m
  valid : image.validate = .ok ()
  guards_ok : ∀ g ∈ guards, isCanonical48 g.virtualAddress = true ∧ g.virtualAddress % 4096 = 0
  guards_walk : ∀ g ∈ guards, image.walk g.virtualAddress = .ok none

theorem validate_limit {capabilities : HostPagingCapabilities} {limit : ℕ}
    (h : capabilities.validate = .ok limit) : limit ≤ 2 ^ 52 := by
  simp only [HostPagingCapabilities.validate, HostPagingCapabilities.physicalLimit, except_bind_ok,
    failIf_eq_ok, exists_const, Bool.not_eq_false', Bool.and_eq_true, decide_eq_true_eq] at h
  obtain ⟨-, -, ⟨-, hle⟩, hpure⟩ := h
  cases hpure
  rw [Nat.one_shiftLeft]
  exact Nat.pow_le_pow_right (by norm_num) hle

theorem build_built {capabilities : HostPagingCapabilities} {layout : HostPageTableLayout} {base : ℕ}
    {mappings : List HostPageMapping} {guards : List HostUnmappedPage} {image : HostPageTableImage}
    (h : build capabilities layout base mappings guards = .ok image) :
    ∃ limit, Built layout base mappings guards limit image := by
  simp only [build, except_bind_ok, failIf_eq_ok, exists_const] at h
  obtain ⟨limit, hlimit, stop, hstop, _, hlayout, start, hguards, s, hinstall, -, -, _, hvalid, _,
    hwalks, hpure⟩ := h
  cases hpure
  obtain ⟨hwindow, rfl⟩ := validateKernelWindow_ok hstop
  obtain ⟨⟨bitmap, rfl⟩, hguardsOk⟩ := recordGuards_ok hguards
  have hstart : Holds (emptyImage layout base limit) []
      { emptyImage layout base limit with guardBitmap := bitmap } :=
    ⟨rfl, rfl, rfl, fun _ _ _ => rfl, by simp, fun _ hi => absurd rfl hi⟩
  obtain ⟨hchecks, hpages⟩ := installAll_eq_ok.1 hinstall
  refine ⟨limit, validate_limit hlimit, hwindow, validate_located hlayout,
    holds_putPages hstart hpages, fun m hm => checkMapping_ok (hchecks m hm), hvalid, hguardsOk,
    fun g hg => ?_⟩
  have hwalk := forM_ok.1 hwalks g hg
  simp only [except_bind_ok, failIf_eq_ok] at hwalk
  obtain ⟨found, hfound, hnone⟩ := hwalk
  rw [hfound, Option.isSome_eq_false_iff.1 hnone |> Option.isNone_iff_eq_none.1]

/-! Walking the built tables. -/

theorem descend_eq {image : HostPageTableImage} {level next : HostPageTableLevel} {slot : Fin 512}
    (hentries : ∀ i, (image.tables level).entries i =
      if i = slot then (image.layout.location next).physicalAddress ||| HOST_TABLE_FLAGS else 0)
    (haligned : (image.layout.location next).physicalAddress % 4096 = 0)
    (hlt : (image.layout.location next).physicalAddress < image.physicalLimit)
    (hlimit : image.physicalLimit ≤ 2 ^ 52) (i : Fin 512) :
    image.descend image.tables level next i = .ok (decide (i = slot)) := by
  simp only [descend, hentries]
  by_cases hi : i = slot
  · have hne : (image.layout.location next).physicalAddress ||| HOST_TABLE_FLAGS ≠ 0 :=
      fun h => absurd (Nat.or_eq_zero_iff.1 h).2 (by decide)
    rw [if_pos hi, if_neg hne,
      validateTableEntry_or (and_mask_of_aligned haligned (lt_of_lt_of_le hlt hlimit)) hlt, hi]
    simp [pure, Except.pure]
  · simp [hi, pure, Except.pure]

theorem walkLeaf_entry {image : HostPageTableImage} {p : Page} (va : ℕ)
    (haligned : p.physicalAddress % 4096 = 0) (hlt : p.physicalAddress < image.physicalLimit)
    (hlimit : image.physicalLimit ≤ 2 ^ 52) (hwx : p.permissions.isWritableExecutable = false) :
    image.walkLeaf p.entry va = .ok (some
      { virtualAddress := va, physicalAddress := p.physicalAddress + va % 4096
        physicalPage := p.physicalAddress, pageOffset := va % 4096, permissions := p.permissions }) := by
  have hmask := and_mask_of_aligned haligned (lt_of_lt_of_le hlt hlimit)
  have hoffset : va &&& (HOST_PAGE_SIZE_4K - 1) = va % 4096 := Nat.and_two_pow_sub_one_eq_mod va 12
  have hadd : checkedAdd p.physicalAddress (va % 4096) = some (p.physicalAddress + va % 4096) :=
    checkedAdd_eq_some.2 ⟨by omega, rfl⟩
  simp only [walkLeaf, Page.entry, or_leafFlags_ne_zero, if_false, validateLeafEntry_or hmask hlt hwx,
    or_and_mask hmask (leafFlags_and_mask _), hoffset, hadd, fromLeafEntry_or hmask, okOr,
    except_ok_bind]
  rfl

namespace HostPageMapping

def Covers (m : HostPageMapping) (va : ℕ) : Prop :=
  m.virtualAddress ≤ va ∧ va < m.virtualAddress + m.length

/-- The answer a walk owes to a mapping that covers the address. -/
def walkAt (m : HostPageMapping) (va : ℕ) : HostPageWalk where
  virtualAddress := va
  physicalAddress := m.physicalAddress + (va - m.virtualAddress)
  physicalPage := m.physicalAddress + (va - m.virtualAddress) - va % 4096
  pageOffset := va % 4096
  permissions := m.permissions

variable {m : HostPageMapping} {base limit va : ℕ}

theorem page_of_covers (hm : Placed base limit m) (h : m.Covers va) :
    ∃ k < m.length / 4096, (m.page k).virtualAddress / 4096 = va / 4096 ∧
      (m.page k).physicalAddress + va % 4096 = m.physicalAddress + (va - m.virtualAddress) := by
  obtain ⟨h1, h2⟩ := h
  obtain ⟨hvirtual, -, hlength, -⟩ := hm
  refine ⟨(va - m.virtualAddress) / 4096, ?_, ?_, ?_⟩
  · omega
  · simp only [page]
    omega
  · simp only [page]
    omega

theorem covers_of_page {k : ℕ} (hm : Placed base limit m) (hk : k < m.length / 4096)
    (h : (m.page k).virtualAddress / 4096 = va / 4096) : m.Covers va := by
  obtain ⟨hvirtual, -, hlength, -⟩ := hm
  simp only [page] at h
  exact ⟨by omega, by omega⟩

end HostPageMapping

section

variable {layout : HostPageTableLayout} {base : ℕ} {mappings : List HostPageMapping}
  {guards : List HostUnmappedPage} {limit : ℕ} {image : HostPageTableImage}

theorem walk_eq (hb : Built layout base mappings guards limit image) {va : ℕ}
    (hva : isCanonical48 va = true) :
    image.walk va = if base ≤ va ∧ va < base + 2 ^ 21
      then image.walkLeaf ((image.tables .pt).entries (ptIndex va)) va else .ok none := by
  have hlayout : image.layout = layout := hb.holds.layout
  have hlimit : image.physicalLimit = limit := hb.holds.limit
  have hdescend : ∀ level next slot, level ≠ .pt →
      (∀ i, ((emptyImage layout base limit).tables level).entries i =
        if i = slot then (layout.location next).physicalAddress ||| HOST_TABLE_FLAGS else 0) →
      ∀ i, image.descend image.tables level next i = .ok (decide (i = slot)) := by
    intro level next slot hlevel hentries
    have hnext := hb.located next
    have hfits := hnext.fits
    have hle := hb.limit_le
    refine descend_eq (fun i => ?_) ?_ ?_ ?_
    · rw [hb.holds.upper level hlevel, hentries, hlayout]
    · rw [hlayout]
      exact hnext.physical
    · rw [hlayout]
      omega
    · rwa [hlimit]
  have hpml4 := hdescend .pml4 .pdpt (pml4Index base) (by decide) fun i => by
    simp [emptyImage, installHierarchy, setEntry_entries, HostPageTable.zeroed]
  have hpdpt := hdescend .pdpt .pd (pdptIndex base) (by decide) fun i => by
    simp [emptyImage, installHierarchy, setEntry_entries, HostPageTable.zeroed]
  have hpd := hdescend .pd .pt (pdIndex base) (by decide) fun i => by
    simp [emptyImage, installHierarchy, setEntry_entries, HostPageTable.zeroed]
  simp only [walk, walkTables, hva, failIf, hpml4, hpdpt, hpd, except_ok_bind,
    ← slots_eq_iff hb.window hva]
  by_cases h1 : pml4Index va = pml4Index base
  · by_cases h2 : pdptIndex va = pdptIndex base
    · by_cases h3 : pdIndex va = pdIndex base
      · simp [h1, h2, h3]
      · simp [h1, h2, h3, pure, Except.pure]
    · simp [h1, h2, pure, Except.pure]
  · simp [h1, pure, Except.pure]

theorem walk_covered (hb : Built layout base mappings guards limit image) {va : ℕ}
    (hva : isCanonical48 va = true) {m : HostPageMapping} (hm : m ∈ mappings) (h : m.Covers va) :
    image.walk va = .ok (some (m.walkAt va)) := by
  have hplaced := hb.placed m hm
  obtain ⟨k, hk, hpage, hphysical⟩ := page_of_covers hplaced h
  have hmem : m.page k ∈ mappings.flatMap pages :=
    mem_flatMap.2 ⟨m, hm, mem_map.2 ⟨k, mem_range.2 hk, rfl⟩⟩
  obtain ⟨-, hpa, hlength, hwx, hinside, hfits⟩ := hplaced
  have hin : base ≤ va ∧ va < base + 2 ^ 21 := ⟨hinside.1.trans h.1, lt_of_lt_of_le h.2 hinside.2⟩
  have hslot : ptIndex va = ptIndex (m.page k).virtualAddress := by
    refine (ptIndex_eq_iff hb.window hin ?_).2 hpage.symm
    simp only [page] at hpage ⊢
    omega
  have hlimit : image.physicalLimit = limit := hb.holds.limit
  rw [walk_eq hb hva, if_pos hin, hslot, hb.holds.leaf _ hmem, walkLeaf_entry]
  · refine congrArg (fun w => Except.ok (some w)) ?_
    simp only [walkAt, HostPageWalk.mk.injEq, ← hphysical, Nat.add_sub_cancel]
    exact ⟨trivial, trivial, trivial, trivial, rfl⟩
  · simp only [page]
    omega
  · simp only [page, hlimit]
    omega
  · rw [hlimit]
    exact hb.limit_le
  · exact hwx

theorem walk_uncovered (hb : Built layout base mappings guards limit image) {va : ℕ}
    (hva : isCanonical48 va = true) (h : ∀ m ∈ mappings, ¬ m.Covers va) :
    image.walk va = .ok none := by
  rw [walk_eq hb hva]
  split_ifs with hin
  · by_cases hentry : (image.tables .pt).entries (ptIndex va) = 0
    · rw [hentry]
      rfl
    · exfalso
      obtain ⟨p, hp, hslot⟩ := hb.holds.used _ hentry
      obtain ⟨m, hm, hpages⟩ := mem_flatMap.1 hp
      obtain ⟨k, hk, rfl⟩ := mem_map.1 hpages
      have hplaced := hb.placed m hm
      have hk := mem_range.1 hk
      refine h m hm (covers_of_page hplaced hk ?_)
      refine (ptIndex_eq_iff hb.window ?_ hin).1 hslot
      obtain ⟨-, -, -, -, hinside, -⟩ := hplaced
      simp only [page]
      omega
  · rfl

/-- What `validate_tables` has checked of the last table and of the table pages. -/
structure Validated (image : HostPageTableImage) (tables : HostPageTables) : Prop where
  leaf : ∀ i, (tables .pt).entries i ≠ 0 →
    image.validateLeafEntry ((tables .pt).entries i) = .ok () ∧ image.guardIsSet i = false
  apart : ∀ i j, j < i → (tables .pt).entries i ≠ 0 → (tables .pt).entries j ≠ 0 →
    (tables .pt).entries j &&& HOST_PTE_ADDRESS_MASK ≠ (tables .pt).entries i &&& HOST_PTE_ADDRESS_MASK
  tablePage : ∀ level, image.checkTablePage tables (image.layout.location level) = .ok ()

theorem countLeaf_ok {image : HostPageTableImage} {tables : HostPageTables} {n n' : ℕ} {i : Fin 512}
    (h : image.countLeaf tables n i = .ok n') (hi : (tables .pt).entries i ≠ 0) :
    (image.validateLeafEntry ((tables .pt).entries i) = .ok () ∧ image.guardIsSet i = false) ∧
      ∀ j < i, (tables .pt).entries j ≠ 0 → (tables .pt).entries j &&& HOST_PTE_ADDRESS_MASK ≠
        (tables .pt).entries i &&& HOST_PTE_ADDRESS_MASK := by
  simp only [countLeaf, if_neg hi, except_bind_ok, failIf_eq_ok, exists_const, any_eq_false,
    Bool.and_eq_true, decide_eq_true_eq, bne_iff_ne, beq_iff_eq, not_and] at h
  obtain ⟨_, hleaf, hguard, hapart, -⟩ := h
  exact ⟨⟨hleaf, hguard⟩, fun j hj hne => hapart j (mem_finRange j) ⟨hj, hne⟩⟩

theorem validateTables_ok {image : HostPageTableImage} {tables : HostPageTables}
    (h : image.validateTables tables = .ok ()) : Validated image tables := by
  simp only [validateTables, except_bind_ok, failIf_eq_ok, exists_const] at h
  obtain ⟨_, -, _, -, _, -, _, -, _, -, count, hcount, -, -, hpages⟩ := h
  have hleaves : ∀ i ∈ List.finRange 512, ∃ n n', image.countLeaf tables n i = .ok n' :=
    foldlM_inv (fun seen _ => ∀ i ∈ seen, ∃ n n', image.countLeaf tables n i = .ok n') (by simp)
      (fun seen i rest n n' _ hseen hi => forall_mem_concat hseen ⟨n, n', hi⟩) hcount
  refine ⟨fun i hi => ?_, fun i j hj hi hne => ?_, fun level => ?_⟩
  · obtain ⟨n, n', hn⟩ := hleaves i (mem_finRange i)
    exact (countLeaf_ok hn hi).1
  · obtain ⟨n, n', hn⟩ := hleaves i (mem_finRange i)
    exact (countLeaf_ok hn hi).2 j hj hne
  · refine forM_ok.1 hpages _ ?_
    cases level <;> simp [locations, HostPageTableLevel.all]

/-- A walk that finds a page read it from a used slot of the window. -/
theorem walk_found (hb : Built layout base mappings guards limit image) {va : ℕ} {w : HostPageWalk}
    (hva : isCanonical48 va = true) (h : image.walk va = .ok (some w)) :
    (base ≤ va ∧ va < base + 2 ^ 21) ∧ (image.tables .pt).entries (ptIndex va) ≠ 0 ∧
      w.physicalPage = (image.tables .pt).entries (ptIndex va) &&& HOST_PTE_ADDRESS_MASK := by
  rw [walk_eq hb hva] at h
  split_ifs at h with hin
  · unfold walkLeaf at h
    split_ifs at h with hzero
    · cases h
    · simp only [except_bind_ok] at h
      obtain ⟨_, -, _, -, hpure⟩ := h
      cases hpure
      exact ⟨hin, hzero, rfl⟩
  · cases h

/-- The built tables mean the mappings, and are safe to load. -/
structure WalkCorrect (layout : HostPageTableLayout) (base : ℕ) (mappings : List HostPageMapping)
    (guards : List HostUnmappedPage) (image : HostPageTableImage) : Prop where
  covered : ∀ va, isCanonical48 va = true → ∀ m ∈ mappings, m.Covers va →
    image.walk va = .ok (some (m.walkAt va))
  uncovered : ∀ va, isCanonical48 va = true → (∀ m ∈ mappings, ¬ m.Covers va) →
    image.walk va = .ok none
  guarded : ∀ g ∈ guards, ∀ va, g.virtualAddress ≤ va → va < g.virtualAddress + HOST_PAGE_SIZE_4K →
    image.walk va = .ok none
  outside : ∀ va, isCanonical48 va = true → va < base ∨ base + HOST_KERNEL_WINDOW_SIZE ≤ va →
    image.walk va = .ok none
  not_wx : ∀ i, (image.tables .pt).entries i &&& HOST_PTE_WRITABLE ≠ 0 →
    (image.tables .pt).entries i &&& HOST_PTE_NO_EXECUTE ≠ 0
  injective : ∀ va va' w w', isCanonical48 va = true → isCanonical48 va' = true →
    image.walk va = .ok (some w) → image.walk va' = .ok (some w') →
    w.physicalPage = w'.physicalPage → va / HOST_PAGE_SIZE_4K = va' / HOST_PAGE_SIZE_4K
  tablePages : ∀ level, ∃ w, image.walk (layout.location level).virtualAddress = .ok (some w) ∧
    w.physicalAddress = (layout.location level).physicalAddress ∧
    w.permissions = READ_WRITE

theorem walk_guarded (hb : Built layout base mappings guards limit image) {g : HostUnmappedPage}
    (hg : g ∈ guards) {va : ℕ} (hle : g.virtualAddress ≤ va) (hlt : va < g.virtualAddress + 4096) :
    image.walk va = .ok none := by
  obtain ⟨hcanonical, haligned⟩ := hb.guards_ok g hg
  have hva : isCanonical48 va = true := by
    have := isCanonical48_iff.1 hcanonical
    rw [isCanonical48_iff]
    omega
  refine walk_uncovered hb hva fun m hm hcovers => ?_
  -- a mapping is made of whole pages, so it would cover the guard address too
  obtain ⟨hvirtual, -, hlength, -⟩ := hb.placed m hm
  have hguard : m.Covers g.virtualAddress := by
    obtain ⟨h1, h2⟩ := hcovers
    exact ⟨by omega, by omega⟩
  have hwalk := walk_covered hb hcanonical hm hguard
  rw [hb.guards_walk g hg] at hwalk
  cases hwalk

theorem walk_injective (hb : Built layout base mappings guards limit image) {va va' : ℕ}
    {w w' : HostPageWalk} (hva : isCanonical48 va = true) (hva' : isCanonical48 va' = true)
    (h : image.walk va = .ok (some w)) (h' : image.walk va' = .ok (some w'))
    (heq : w.physicalPage = w'.physicalPage) : va / 4096 = va' / 4096 := by
  obtain ⟨hin, hused, hpage⟩ := walk_found hb hva h
  obtain ⟨hin', hused', hpage'⟩ := walk_found hb hva' h'
  have hvalid := validateTables_ok hb.valid
  rw [hpage, hpage'] at heq
  refine (ptIndex_eq_iff hb.window hin hin').1 ?_
  rcases lt_trichotomy (ptIndex va) (ptIndex va') with hlt | hslot | hlt
  · exact absurd heq (hvalid.apart _ _ hlt hused' hused)
  · exact hslot
  · exact absurd heq.symm (hvalid.apart _ _ hlt hused hused')

theorem leaf_not_wx (hb : Built layout base mappings guards limit image) (i : Fin 512)
    (h : (image.tables .pt).entries i &&& HOST_PTE_WRITABLE ≠ 0) :
    (image.tables .pt).entries i &&& HOST_PTE_NO_EXECUTE ≠ 0 := by
  have hused : (image.tables .pt).entries i ≠ 0 := by
    intro hzero
    rw [hzero] at h
    exact h rfl
  have hleaf := ((validateTables_ok hb.valid).leaf i hused).1
  simp only [validateLeafEntry, failIf_eq_ok, Bool.or_eq_false_iff, Bool.and_eq_false_iff,
    bne_eq_false_iff_eq, beq_eq_false_iff_ne] at hleaf
  exact hleaf.2.resolve_left h

theorem walk_tablePage (hb : Built layout base mappings guards limit image)
    (level : HostPageTableLevel) :
    ∃ w, image.walk (layout.location level).virtualAddress = .ok (some w) ∧
      w.physicalAddress = (layout.location level).physicalAddress ∧
      w.permissions = READ_WRITE := by
  have hcheck := (validateTables_ok hb.valid).tablePage level
  simp only [checkTablePage, except_bind_ok, failIf_eq_ok, okOr_eq_ok, exists_const,
    bne_eq_false_iff_eq, hb.holds.layout] at hcheck
  obtain ⟨_, hwalk, w, rfl, hphysical, hpermissions⟩ := hcheck
  obtain ⟨-, haligned, -, hinside⟩ := hb.located level
  have hva : isCanonical48 (layout.location level).virtualAddress = true := by
    obtain ⟨-, hhigh, hfits⟩ := hb.window
    rw [isCanonical48_iff]
    omega
  refine ⟨w, hwalk, ?_, hpermissions⟩
  -- the walk is the one some mapping owes, and the address has no offset in its page
  by_cases hcovers : ∃ m ∈ mappings, m.Covers (layout.location level).virtualAddress
  · obtain ⟨m, hm, hc⟩ := hcovers
    have hfound := (walk_covered hb hva hm hc).symm.trans hwalk
    cases hfound
    rw [← show _ = (layout.location level).physicalAddress from hphysical]
    simp only [walkAt, haligned, Nat.sub_zero]
  · push Not at hcovers
    have hnone := (walk_uncovered hb hva hcovers).symm.trans hwalk
    cases hnone

end

theorem build_walk_correct {capabilities : HostPagingCapabilities} {layout : HostPageTableLayout}
    {base : ℕ} {mappings : List HostPageMapping} {guards : List HostUnmappedPage}
    {image : HostPageTableImage} (h : build capabilities layout base mappings guards = .ok image) :
    WalkCorrect layout base mappings guards image := by
  obtain ⟨limit, hb⟩ := build_built h
  refine ⟨fun va hva m hm hc => walk_covered hb hva hm hc, fun va hva hc => walk_uncovered hb hva hc,
    fun g hg va hle hlt => walk_guarded hb hg hle hlt, fun va hva hout => ?_, leaf_not_wx hb,
    fun va va' w w' hva hva' hw hw' heq => walk_injective hb hva hva' hw hw' heq, walk_tablePage hb⟩
  rw [walk_eq hb hva, if_neg]
  rintro ⟨hle, hlt⟩
  exact hout.elim (fun hlow => absurd hle (Nat.not_le.2 hlow)) fun hhigh => absurd hlt (Nat.not_lt.2 hhigh)

/-- The kernel's own base with one code page and the four table pages. -/
def minimalLayout : HostPageTableLayout where
  location
    | .pml4 => ⟨0x3f0000, 0xffffffff801f0000⟩
    | .pdpt => ⟨0x3f1000, 0xffffffff801f1000⟩
    | .pd => ⟨0x3f2000, 0xffffffff801f2000⟩
    | .pt => ⟨0x3f3000, 0xffffffff801f3000⟩

def minimalMappings : List HostPageMapping :=
  [⟨0xffffffff80000000, 0x200000, 4096, .READ_EXECUTE⟩,
    ⟨0xffffffff801f0000, 0x3f0000, 4 * 4096, .READ_WRITE⟩]

def minimalBuild : Except HostPagingError HostPageTableImage :=
  build ⟨true, false, 48⟩ minimalLayout 0xffffffff80000000 minimalMappings
    [⟨0⟩, ⟨0xffffffff80001000⟩]

theorem build_walk_correct_minimal : ∃ image, minimalBuild = .ok image ∧
    WalkCorrect minimalLayout 0xffffffff80000000 minimalMappings
      [⟨0⟩, ⟨0xffffffff80001000⟩] image := by
  have hok : minimalBuild.toBool = true := by decide +kernel
  cases h : minimalBuild with
  | error e =>
    rw [h] at hok
    cases hok
  | ok image => exact ⟨image, rfl, build_walk_correct h⟩

end AegisHV.HostPaging
