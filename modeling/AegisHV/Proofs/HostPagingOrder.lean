import AegisHV.Proofs.HostPaging

/-! The order of the mappings does not matter to `build`. Installing two pages one after the other
asks the same of the tables in both orders and leaves the same tables behind. -/

namespace AegisHV.HostPaging
open Sys HostPageTableImage List

section

variable {s : Building} {p q : Page}

theorem physicalPageIsMapped_iff {image : HostPageTableImage} {pa : ℕ} :
    image.physicalPageIsMapped pa = true ↔ ∃ i, (image.tables .pt).entries i ≠ 0 ∧
      (image.tables .pt).entries i &&& HOST_PTE_ADDRESS_MASK = pa := by
  simp [physicalPageIsMapped]

theorem mapped_put (hp : Fits s p) (hmask : p.physicalAddress &&& HOST_PTE_ADDRESS_MASK =
    p.physicalAddress) (pa : ℕ) : (put s p).image.physicalPageIsMapped pa = true ↔
      s.image.physicalPageIsMapped pa = true ∨ p.physicalAddress = pa := by
  simp only [physicalPageIsMapped_iff, put_entries, true_and]
  have hentry : p.entry &&& HOST_PTE_ADDRESS_MASK = p.physicalAddress :=
    or_and_mask hmask (leafFlags_and_mask _)
  constructor
  · rintro ⟨i, hne, heq⟩
    split_ifs at hne heq with hi
    · exact Or.inr (hentry.symm.trans heq)
    · exact Or.inl ⟨i, hne, heq⟩
  · rintro (⟨i, hne, heq⟩ | heq)
    · -- the slot of the new page was empty
      have hi : i ≠ ptIndex p.virtualAddress := fun hi => hne (hi ▸ hp.fresh)
      exact ⟨i, by rwa [if_neg hi], by rwa [if_neg hi]⟩
    · refine ⟨ptIndex p.virtualAddress, ?_, ?_⟩
      · rw [if_pos rfl]
        exact or_leafFlags_ne_zero _ _
      · rw [if_pos rfl, hentry, heq]

/-- What a second page needs is the same in both orders. -/
theorem fits_put (hp : Fits s p) (hmask : p.physicalAddress &&& HOST_PTE_ADDRESS_MASK =
    p.physicalAddress) : Fits (put s p) q ↔ Fits s q ∧
      ptIndex p.virtualAddress ≠ ptIndex q.virtualAddress ∧
      p.physicalAddress ≠ q.physicalAddress ∧ s.image.mappedPageCount + 2 < 2 ^ 16 := by
  have hmapped := mapped_put hp hmask q.physicalAddress
  constructor
  · rintro ⟨hguard, hfresh, haliased, hmarks, hcount⟩
    simp only [put_entries, true_and] at hfresh
    rw [← Bool.not_eq_true, hmapped, not_or, Bool.not_eq_true] at haliased
    have hcount' : s.image.mappedPageCount + 1 + 1 < 2 ^ 16 := hcount
    split_ifs at hfresh with hslot
    · exact absurd hfresh (or_leafFlags_ne_zero _ _)
    · exact ⟨⟨hguard, hfresh, haliased.1, hmarks, by omega⟩, Ne.symm hslot, haliased.2, by omega⟩
  · rintro ⟨hq, hslot, hpage, hcount⟩
    refine ⟨hq.unguarded, ?_, ?_, hq.marks, hcount⟩
    · rw [put_entries, if_neg fun heq => hslot heq.2.symm, hq.fresh]
    · rw [← Bool.not_eq_true, hmapped, not_or, Bool.not_eq_true]
      exact ⟨hq.unaliased, hpage⟩

theorem put_comm (h : ptIndex p.virtualAddress ≠ ptIndex q.virtualAddress) :
    put (put s p) q = put (put s q) p := by
  have htables : (put (put s p) q).image.tables = (put (put s q) p).image.tables := by
    simp only [put, setEntry, HostPageTable.set, Function.update_self, Function.update_idem,
      Function.update_comm h]
  have hmarked : (put (put s p) q).mappedTables = (put (put s q) p).mappedTables := by
    funext level
    exact Bool.or_right_comm _ _ _
  rw [Building.mk.injEq, HostPageTableImage.mk.injEq]
  exact ⟨⟨rfl, rfl, rfl, rfl, rfl, htables⟩, hmarked⟩

theorem putPage_comm (hp : p.physicalAddress &&& HOST_PTE_ADDRESS_MASK = p.physicalAddress)
    (hq : q.physicalAddress &&& HOST_PTE_ADDRESS_MASK = q.physicalAddress) {u : Building}
    (h : ∃ t, putPage s p = .ok t ∧ putPage t q = .ok u) :
    ∃ t, putPage s q = .ok t ∧ putPage t p = .ok u := by
  simp only [putPage_eq_ok] at h ⊢
  obtain ⟨_, ⟨hfits, rfl⟩, hfits', rfl⟩ := h
  obtain ⟨hq', hslot, hpage, hcount⟩ := (fits_put hfits hp).1 hfits'
  refine ⟨put s q, ⟨hq', rfl⟩, (fits_put hq' hq).2 ⟨hfits, hslot.symm, hpage.symm, hcount⟩, ?_⟩
  exact put_comm hslot

end

/-! All the pages of all the mappings. -/

theorem page_mask {base limit : ℕ} {m : HostPageMapping} (hm : Placed base limit m)
    (hlimit : limit ≤ 2 ^ 52) {p : Page} (hp : p ∈ m.pages) :
    p.physicalAddress &&& HOST_PTE_ADDRESS_MASK = p.physicalAddress := by
  obtain ⟨k, hk, rfl⟩ := mem_map.1 hp
  have hlt := mem_range.1 hk
  have haligned := hm.physical
  have hfits := hm.fits
  refine and_mask_of_aligned ?_ ?_
  · simp only [HostPageMapping.page]
    omega
  · simp only [HostPageMapping.page]
    omega

theorem installAll_perm {mappings mappings' : List HostPageMapping} (h : mappings.Perm mappings')
    {s s' : Building} (hlimit : s.image.physicalLimit ≤ 2 ^ 52)
    (hfold : mappings.foldlM installMapping s = .ok s') :
    mappings'.foldlM installMapping s = .ok s' := by
  obtain ⟨hcheck, hpages⟩ := installAll_eq_ok.1 hfold
  have hmask : ∀ p ∈ mappings.flatMap HostPageMapping.pages,
      p.physicalAddress &&& HOST_PTE_ADDRESS_MASK = p.physicalAddress := by
    intro p hp
    obtain ⟨m, hm, hpm⟩ := mem_flatMap.1 hp
    exact page_mask (checkMapping_ok (hcheck m hm)) hlimit hpm
  refine installAll_eq_ok.2 ⟨fun m hm => hcheck m (h.mem_iff.2 hm), ?_⟩
  exact foldlM_perm (h.flatMap_right _)
    (fun p hp q hq t u hpq => putPage_comm (hmask p hp) (hmask q hq) hpq) hpages

theorem build_reorder {mappings mappings' : List HostPageMapping} (h : mappings.Perm mappings')
    {capabilities : HostPagingCapabilities} {layout : HostPageTableLayout} {base : ℕ}
    {guards : List HostUnmappedPage} {image : HostPageTableImage}
    (hbuild : build capabilities layout base mappings guards = .ok image) :
    build capabilities layout base mappings' guards = .ok image := by
  simp only [build, except_bind_ok, failIf_eq_ok, exists_const] at hbuild ⊢
  obtain ⟨limit, hlimit, stop, hstop, u, hlayout, start, hguards, s, hinstall, hrest⟩ := hbuild
  refine ⟨limit, hlimit, stop, hstop, u, hlayout, start, hguards, s, ?_, hrest⟩
  refine installAll_perm h ?_ hinstall
  obtain ⟨⟨bitmap, rfl⟩, -⟩ := recordGuards_ok hguards
  exact validate_limit hlimit

/-- For two orders of the same mappings `build` fails for both or returns one image for both. -/
theorem build_perm {mappings mappings' : List HostPageMapping} (h : mappings.Perm mappings')
    (capabilities : HostPagingCapabilities) (layout : HostPageTableLayout) (base : ℕ)
    (guards : List HostUnmappedPage) :
    (∃ e e', build capabilities layout base mappings guards = .error e ∧
      build capabilities layout base mappings' guards = .error e') ∨
    ∃ image, build capabilities layout base mappings guards = .ok image ∧
      build capabilities layout base mappings' guards = .ok image := by
  cases hbuild : build capabilities layout base mappings guards with
  | ok image => exact Or.inr ⟨image, rfl, build_reorder h hbuild⟩
  | error e =>
    cases hbuild' : build capabilities layout base mappings' guards with
    | error e' => exact Or.inl ⟨e, e', rfl, rfl⟩
    | ok image =>
      rw [build_reorder h.symm hbuild'] at hbuild
      cases hbuild

theorem build_perm_minimal : ∃ image, minimalBuild = .ok image ∧
    build ⟨true, false, 48⟩ minimalLayout 0xffffffff80000000 minimalMappings.reverse
      [⟨0⟩, ⟨0xffffffff80001000⟩] = .ok image := by
  have hok : minimalBuild.toBool = true := by decide +kernel
  rcases build_perm (reverse_perm minimalMappings).symm ⟨true, false, 48⟩ minimalLayout
    0xffffffff80000000 [⟨0⟩, ⟨0xffffffff80001000⟩] with ⟨e, -, he, -⟩ | hsame
  · rw [minimalBuild, he] at hok
    cases hok
  · exact hsame

end AegisHV.HostPaging
