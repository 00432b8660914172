import AegisHV.Proofs.HostPaging

/-! The tables in memory against the tables that were built. The processor sets accessed and dirty
bits, and neither the checks nor the walk look at these bits. -/

namespace AegisHV.HostPaging
open Sys HostPageTableImage

/-! Two entries that differ in some bits only. -/

/-- The entries are both empty or both in use, and no mask without the given bits tells them
apart. -/
structure Alike (bits planned materialized : ℕ) : Prop where
  zero : materialized = 0 ↔ planned = 0
  masked : ∀ c, c &&& bits = 0 → materialized &&& c = planned &&& c

variable {b bits : ℕ}

theorem and_eq_of_testBit {a c : ℕ} (h : ∀ i, bits.testBit i = false → a.testBit i = b.testBit i)
    (hc : c &&& bits = 0) : a &&& c = b &&& c := by
  apply Nat.eq_of_testBit_eq
  intro i
  have hbit : (c.testBit i && bits.testBit i) = false := by
    rw [← Nat.testBit_and, hc, Nat.zero_testBit]
  rw [Nat.testBit_and, Nat.testBit_and]
  cases hi : bits.testBit i with
  | false => rw [h i hi]
  | true =>
    rw [hi, Bool.and_true] at hbit
    rw [hbit, Bool.and_false, Bool.and_false]

theorem testBit_of_and_complement {a i : ℕ} (ha : a < 2 ^ 64) (hb : b < 2 ^ 64)
    (hbits : bits < 2 ^ 64) (h : a &&& complement bits = b &&& complement bits)
    (hi : bits.testBit i = false) : a.testBit i = b.testBit i := by
  have hbit := congrArg (Nat.testBit · i) h
  simp only [Nat.testBit_and, complement, testBit_complementOf i hbits, hi, Bool.not_false,
    Bool.and_true] at hbit
  by_cases hlt : i < 64
  · simpa [hlt] using hbit
  · have hpow : 2 ^ 64 ≤ 2 ^ i := Nat.pow_le_pow_right (by norm_num) (by omega)
    rw [Nat.testBit_lt_two_pow (lt_of_lt_of_le ha hpow), Nat.testBit_lt_two_pow (lt_of_lt_of_le hb hpow)]

theorem complement_and_self (h : bits < 2 ^ 64) : complement bits &&& bits = 0 := by
  apply Nat.eq_of_testBit_eq
  intro i
  rw [Nat.testBit_and, complement, testBit_complementOf i h]
  cases bits.testBit i <;> simp

section

/-! What the checks and the walk see of such entries. -/

variable {image : HostPageTableImage} {tables : HostPageTables}

theorem validateTableEntry_alike {planned materialized : ℕ} (expected : ℕ)
    (h : Alike HOST_PTE_ACCESSED planned materialized) :
    image.validateTableEntry materialized expected = image.validateTableEntry planned expected := by
  unfold validateTableEntry
  rw [h.masked _ (by decide), h.masked _ (by decide), h.masked _ (by decide)]

theorem validateLeafEntry_alike {planned materialized : ℕ}
    (h : Alike (HOST_PTE_ACCESSED ||| HOST_PTE_DIRTY) planned materialized) :
    image.validateLeafEntry materialized = image.validateLeafEntry planned := by
  unfold validateLeafEntry
  rw [h.masked _ (by decide), h.masked HOST_PTE_PRESENT (by decide),
    h.masked HOST_PTE_USER (by decide), h.masked HOST_PTE_LARGE (by decide),
    h.masked HOST_PTE_ADDRESS_MASK (by decide), h.masked HOST_PTE_WRITABLE (by decide),
    h.masked HOST_PTE_NO_EXECUTE (by decide)]

/-- The tables have alike entries everywhere. -/
def TablesAlike (planned materialized : HostPageTables) : Prop :=
  ∀ level i, Alike (mutableBits level) ((planned level).entries i) ((materialized level).entries i)

theorem walkLeaf_alike (h : TablesAlike image.tables tables) (i : Fin 512) (va : ℕ) :
    image.walkLeaf ((tables .pt).entries i) va =
      image.walkLeaf ((image.tables .pt).entries i) va := by
  have hentry := h .pt i
  unfold walkLeaf
  rw [validateLeafEntry_alike hentry, hentry.masked HOST_PTE_ADDRESS_MASK (by decide)]
  simp only [hentry.zero, HostPagePermissions.fromLeafEntry,
    hentry.masked HOST_PTE_WRITABLE (by decide), hentry.masked HOST_PTE_NO_EXECUTE (by decide)]

theorem descend_alike (h : TablesAlike image.tables tables) (level : HostPageTableLevel)
    (hlevel : level ≠ .pt) (next : HostPageTableLevel) (i : Fin 512) :
    image.descend tables level next i = image.descend image.tables level next i := by
  have hentry := h level i
  rw [mutableBits, if_neg hlevel] at hentry
  simp only [descend, hentry.zero, validateTableEntry_alike _ hentry]

theorem walkTables_alike (h : TablesAlike image.tables tables) (va : ℕ) :
    image.walkTables tables va = image.walkTables image.tables va := by
  simp only [walkTables, descend_alike h .pml4 (by decide),
    descend_alike h .pdpt (by decide), descend_alike h .pd (by decide),
    walkLeaf_alike h]

theorem validateSingleHierarchyEntry_alike (h : TablesAlike image.tables tables)
    (level : HostPageTableLevel) (hlevel : level ≠ .pt) (slot : Fin 512)
    (target : HostPageTableLocation) :
    image.validateSingleHierarchyEntry tables level slot target =
      image.validateSingleHierarchyEntry image.tables level slot target := by
  have hentry : ∀ i, Alike HOST_PTE_ACCESSED ((image.tables level).entries i)
      ((tables level).entries i) := by
    intro i
    have := h level i
    rwa [mutableBits, if_neg hlevel] at this
  unfold validateSingleHierarchyEntry
  congr 1
  funext i
  have hzero : ((tables level).entries i != 0) = ((image.tables level).entries i != 0) := by
    rw [Bool.eq_iff_iff, bne_iff_ne, bne_iff_ne, ne_eq, (hentry i).zero]
  simp only [validateTableEntry_alike _ (hentry i), hzero]

theorem countLeaf_alike (h : TablesAlike image.tables tables) :
    image.countLeaf tables = image.countLeaf image.tables := by
  funext count i
  have hmask : ∀ j, (tables .pt).entries j &&& HOST_PTE_ADDRESS_MASK =
      (image.tables .pt).entries j &&& HOST_PTE_ADDRESS_MASK :=
    fun j => (h .pt j).masked _ (by decide)
  have hzero : ∀ j, ((tables .pt).entries j != 0) = ((image.tables .pt).entries j != 0) := by
    intro j
    rw [Bool.eq_iff_iff, bne_iff_ne, bne_iff_ne, ne_eq, (h .pt j).zero]
  simp only [countLeaf, (h .pt i).zero, validateLeafEntry_alike (h .pt i), hmask, hzero]

theorem validateTables_alike (h : TablesAlike image.tables tables) :
    image.validateTables tables = image.validateTables image.tables := by
  simp only [validateTables, validateSingleHierarchyEntry_alike h .pml4 (by decide),
    validateSingleHierarchyEntry_alike h .pdpt (by decide),
    validateSingleHierarchyEntry_alike h .pd (by decide), countLeaf_alike h]
  have hpage : image.checkTablePage tables = image.checkTablePage image.tables := by
    funext location
    simp only [checkTablePage, walkTables_alike h]
  rw [hpage]

end

section

/-! The entries of a built image are empty or present. -/

variable {layout : HostPageTableLayout} {base limit : ℕ} {mappings : List HostPageMapping}
  {guards : List HostUnmappedPage} {image : HostPageTableImage}

theorem upper_entry (hb : Built layout base mappings guards limit image) {level : HostPageTableLevel}
    (hlevel : level ≠ .pt) (i : Fin 512) : (image.tables level).entries i = 0 ∨
      ∃ next, (image.tables level).entries i =
        (layout.location next).physicalAddress ||| HOST_TABLE_FLAGS := by
  rw [hb.holds.upper level hlevel]
  simp only [emptyImage, installHierarchy, setEntry_entries, HostPageTable.zeroed]
  split_ifs
  · exact Or.inr ⟨_, rfl⟩
  · exact Or.inr ⟨_, rfl⟩
  · exact Or.inr ⟨_, rfl⟩
  · exact Or.inl rfl

theorem leafFlags_present (permissions : HostPagePermissions) :
    permissions.leafFlags < 2 ^ 64 ∧ permissions.leafFlags.testBit 0 = true := by
  rcases permissions with ⟨_ | _, _ | _⟩ <;> decide

/-- An entry in use is an address with flags. -/
theorem used_entry (hb : Built layout base mappings guards limit image) (level : HostPageTableLevel)
    (i : Fin 512) (hne : (image.tables level).entries i ≠ 0) :
    ∃ address flags, (image.tables level).entries i = address ||| flags ∧ address < 2 ^ 52 ∧
      flags < 2 ^ 64 ∧ flags.testBit 0 = true := by
  by_cases hlevel : level = .pt
  · subst hlevel
    obtain ⟨p, hp, rfl⟩ := hb.holds.used i hne
    obtain ⟨m, hm, hpm⟩ := List.mem_flatMap.1 hp
    obtain ⟨k, hk, rfl⟩ := List.mem_map.1 hpm
    refine ⟨_, _, hb.holds.leaf _ hp, ?_, ?_, ?_⟩
    · have hlt := List.mem_range.1 hk
      have hfits := (hb.placed m hm).fits
      have hle := hb.limit_le
      simp only [HostPageMapping.page]
      omega
    · exact (leafFlags_present _).1
    · exact (leafFlags_present _).2
  · obtain ⟨next, hnext⟩ := (upper_entry hb hlevel i).resolve_left hne
    refine ⟨_, _, hnext, ?_, by decide, by decide⟩
    have hfits := (hb.located next).fits
    have hle := hb.limit_le
    omega

theorem entry_lt (hb : Built layout base mappings guards limit image) (level : HostPageTableLevel)
    (i : Fin 512) : (image.tables level).entries i < 2 ^ 64 := by
  by_cases hne : (image.tables level).entries i = 0
  · rw [hne]
    norm_num
  · obtain ⟨address, flags, heq, haddress, hflags, -⟩ := used_entry hb level i hne
    rw [heq]
    exact Nat.or_lt_two_pow (by omega) hflags

theorem entry_present (hb : Built layout base mappings guards limit image)
    (level : HostPageTableLevel) (i : Fin 512) (hne : (image.tables level).entries i ≠ 0) :
    ((image.tables level).entries i).testBit 0 = true := by
  obtain ⟨address, flags, heq, -, -, hbit⟩ := used_entry hb level i hne
  rw [heq, Nat.testBit_or, hbit, Bool.or_true]

end

theorem testBit_mutableBits {level : HostPageTableLevel} :
    (mutableBits level).testBit b = true ↔
      1 <<< b = HOST_PTE_ACCESSED ∨ level = .pt ∧ 1 <<< b = HOST_PTE_DIRTY := by
  have hshift : ∀ n, 1 <<< b = 1 <<< n ↔ n = b := by
    intro n
    rw [Nat.one_shiftLeft, Nat.one_shiftLeft, Nat.pow_right_inj (by norm_num)]
    exact eq_comm
  unfold mutableBits HOST_PTE_ACCESSED HOST_PTE_DIRTY
  rw [hshift, hshift]
  split_ifs with hlevel
  · simp only [Nat.one_shiftLeft, Nat.testBit_or, Nat.testBit_two_pow, Bool.or_eq_true,
      decide_eq_true_eq, hlevel, true_and]
  · simp only [Nat.one_shiftLeft, Nat.testBit_two_pow, decide_eq_true_eq, hlevel, false_and,
      or_false]

/-- The contents differ at most in the accessed bit of present entries and, at the last level, in
their dirty bit. -/
def MarkedOnly (planned materialized : HostPageTables) : Prop :=
  ∀ level i b, ((materialized level).entries i).testBit b ≠ ((planned level).entries i).testBit b →
    (planned level).entries i &&& HOST_PTE_PRESENT ≠ 0 ∧
      (1 <<< b = HOST_PTE_ACCESSED ∨ level = .pt ∧ 1 <<< b = HOST_PTE_DIRTY)

theorem mutableBits_lt (level : HostPageTableLevel) : mutableBits level < 2 ^ 64 := by
  cases level <;> decide

theorem present_iff {entry : ℕ} : entry &&& HOST_PTE_PRESENT ≠ 0 ↔ entry.testBit 0 = true :=
  and_two_pow_ne_zero entry 0

theorem MarkedOnly.alike {planned materialized : HostPageTables} (h : MarkedOnly planned materialized) :
    TablesAlike planned materialized := by
  intro level i
  have hbits : ∀ b, (mutableBits level).testBit b = false →
      ((materialized level).entries i).testBit b = ((planned level).entries i).testBit b := by
    intro b hb
    by_contra hne
    rw [testBit_mutableBits.2 (h level i b hne).2] at hb
    cases hb
  refine ⟨?_, fun c hc => and_eq_of_testBit hbits hc⟩
  by_cases hpresent : (planned level).entries i &&& HOST_PTE_PRESENT = 0
  · -- no bit of the entry may differ
    have hsame : (materialized level).entries i = (planned level).entries i := by
      apply Nat.eq_of_testBit_eq
      intro b
      by_contra hne
      exact (h level i b hne).1 hpresent
    rw [hsame]
  · have hplanned := present_iff.1 hpresent
    have hmaterialized : ((materialized level).entries i).testBit 0 = true := by
      rw [hbits 0 (by cases level <;> decide), hplanned]
    constructor
    · intro hzero
      rw [hzero] at hmaterialized
      cases hmaterialized
    · intro hzero
      rw [hzero] at hplanned
      cases hplanned

section

variable {layout : HostPageTableLayout} {base limit : ℕ} {mappings : List HostPageMapping}
  {guards : List HostUnmappedPage} {image : HostPageTableImage} {tables : HostPageTables}

theorem validateMaterializedTables_eq_ok : image.validateMaterializedTables tables = .ok () ↔
    (∀ level i, ((image.tables level).entries i = 0 → (tables level).entries i = 0) ∧
      (image.tables level).entries i &&& complement (mutableBits level) =
        (tables level).entries i &&& complement (mutableBits level)) ∧
      image.validateTables tables = .ok () := by
  have hall : ∀ level, level ∈ HostPageTableLevel.all := by
    intro level
    cases level <;> decide
  have hentry : ∀ planned materialized bits : ℕ, ((planned == 0 && materialized != 0) ||
      planned &&& complement bits != materialized &&& complement bits) = false ↔
      (planned = 0 → materialized = 0) ∧
        planned &&& complement bits = materialized &&& complement bits := by
    intro planned materialized bits
    simp only [Bool.or_eq_false_iff, Bool.and_eq_false_iff, beq_eq_false_iff_ne,
      bne_eq_false_iff_eq, imp_iff_not_or, ne_eq]
  rw [validateMaterializedTables, except_bind_ok]
  constructor
  · rintro ⟨⟨⟩, hcheck, hvalid⟩
    refine ⟨fun level i => ?_, hvalid⟩
    have hslot := forM_ok.1 (forM_ok.1 hcheck level (hall level)) i (List.mem_finRange i)
    exact (hentry _ _ _).1 (failIf_eq_ok.1 hslot)
  · rintro ⟨hcheck, hvalid⟩
    refine ⟨(), forM_ok.2 fun level _ => forM_ok.2 fun i _ => ?_, hvalid⟩
    exact failIf_eq_ok.2 ((hentry _ _ _).2 (hcheck level i))

theorem markedOnly_of_valid (hb : Built layout base mappings guards limit image)
    (hword : ∀ level i, (tables level).entries i < 2 ^ 64)
    (h : image.validateMaterializedTables tables = .ok ()) : MarkedOnly image.tables tables := by
  obtain ⟨hentries, -⟩ := validateMaterializedTables_eq_ok.1 h
  intro level i b hne
  obtain ⟨hempty, hmasked⟩ := hentries level i
  refine ⟨present_iff.2 (entry_present hb level i fun hzero => hne ?_), ?_⟩
  · rw [hzero, hempty hzero]
  · rw [← testBit_mutableBits]
    by_contra hbit
    exact hne (testBit_of_and_complement (entry_lt hb level i) (hword level i)
      (mutableBits_lt level) hmasked (Bool.not_eq_true _ ▸ hbit)).symm

theorem valid_of_markedOnly (hb : Built layout base mappings guards limit image)
    (h : MarkedOnly image.tables tables) : image.validateMaterializedTables tables = .ok () := by
  refine validateMaterializedTables_eq_ok.2 ⟨fun level i => ?_, ?_⟩
  · have halike := h.alike level i
    exact ⟨halike.zero.2, (halike.masked _ (complement_and_self (mutableBits_lt level))).symm⟩
  · rw [validateTables_alike h.alike]
    exact hb.valid

end

/-- The check of the tables in memory accepts those, and only those, that differ from the built
ones in bits the processor sets, and then walks them to the same answers. -/
theorem materialized_exact {capabilities : HostPagingCapabilities} {layout : HostPageTableLayout}
    {base : ℕ} {mappings : List HostPageMapping} {guards : List HostUnmappedPage}
    {image : HostPageTableImage} (h : build capabilities layout base mappings guards = .ok image)
    {tables : HostPageTables} (hword : ∀ level i, (tables level).entries i < 2 ^ 64) :
    (image.validateMaterializedTables tables = .ok () ↔ MarkedOnly image.tables tables) ∧
      (image.validateMaterializedTables tables = .ok () →
        ∀ va, image.walkMaterialized tables va = image.walk va) := by
  obtain ⟨limit, hb⟩ := build_built h
  refine ⟨⟨markedOnly_of_valid hb hword, valid_of_markedOnly hb⟩, fun hvalid va => ?_⟩
  rw [walkMaterialized, hvalid, ]
  exact walkTables_alike (markedOnly_of_valid hb hword hvalid).alike va

/-- The tables after the processor has used every entry. -/
def accessed (tables : HostPageTables) : HostPageTables := fun level =>
  ⟨fun i => if (tables level).entries i = 0 then 0
    else (tables level).entries i ||| HOST_PTE_ACCESSED⟩

theorem accessed_marked {layout : HostPageTableLayout} {base limit : ℕ}
    {mappings : List HostPageMapping} {guards : List HostUnmappedPage} {image : HostPageTableImage}
    (hb : Built layout base mappings guards limit image) :
    MarkedOnly image.tables (accessed image.tables) := by
  intro level i b hne
  by_cases hzero : (image.tables level).entries i = 0
  · exact absurd (by simp [accessed, hzero]) hne
  · refine ⟨present_iff.2 (entry_present hb level i hzero), Or.inl ?_⟩
    by_contra hbit
    apply hne
    have hout : HOST_PTE_ACCESSED.testBit b = false := by
      rw [HOST_PTE_ACCESSED, Nat.one_shiftLeft, Nat.testBit_two_pow, decide_eq_false_iff_not]
      rintro rfl
      exact hbit rfl
    simp [accessed, hzero, Nat.testBit_or, hout]

theorem materialized_exact_minimal : ∃ image, minimalBuild = .ok image ∧
    ∀ va, image.walkMaterialized (accessed image.tables) va = image.walk va := by
  have hok : minimalBuild.toBool = true := by decide +kernel
  cases h : minimalBuild with
  | error e =>
    rw [h] at hok
    cases hok
  | ok image =>
    obtain ⟨limit, hb⟩ := build_built h
    have hword : ∀ level i, (accessed image.tables level).entries i < 2 ^ 64 := by
      intro level i
      dsimp only [accessed]
      split_ifs
      · norm_num
      · exact Nat.or_lt_two_pow (entry_lt hb level i) (by decide)
    obtain ⟨hiff, hwalk⟩ := materialized_exact h hword
    exact ⟨image, rfl, hwalk (hiff.2 (accessed_marked hb))⟩

end AegisHV.HostPaging
