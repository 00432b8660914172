import AegisHV.Spec.VmiArm64

/-! The ARM64 stage-1 walker against the walk of the architecture. The loop of the code is a walk
through the same tables with its own view of descriptors; where both walks begin at one table
they differ on two kinds of descriptors only. -/

namespace AegisHV.Vmi.Arm64

open Sys GranuleConfig Radix

/-! The view that the code has of a descriptor. -/

/-- The code also takes blocks at level 1 of the 16K granule. -/
def codeBlock (g : Granule) (level : ℕ) : Bool :=
  blockAllowed g level || (g = .size16K && level = 1)

/-- None of the bits that the architecture ignores in a table descriptor is set. -/
def Clean (t : ℕ) : Prop := t % 2 ^ 12 / 2 ^ 2 = 0

instance (t : ℕ) : Decidable (Clean t) := inferInstanceAs (Decidable (_ = _))

def codeLeaf (low : ℕ) (tables : List ℕ) (descriptor : ℕ) :
    Option ((ℕ × List ℕ) ⊕ Leaf) :=
  if reservedSet low descriptor then none else some (.inr ⟨tables, descriptor⟩)

def codeStep (memory : GuestMemory) (vm : VmId) (g : Granule) (level : ℕ) (s : ℕ × List ℕ)
    (index : ℕ) : Option ((ℕ × List ℕ) ⊕ Leaf) :=
  (entryAt memory vm s.1 index).bind fun descriptor =>
    if descriptor % 4 = 3 then
      if level = 3 then codeLeaf (pageBits g) s.2 descriptor
      else if reservedSet (pageBits g) descriptor ∨ ¬ Clean descriptor then none
      else some (.inl (addressField (pageBits g) descriptor, s.2 ++ [descriptor]))
    else if descriptor % 4 = 1 ∧ codeBlock g level then
      codeLeaf ((radix g).shift level) s.2 descriptor
    else none

section

variable {g : Granule} {low descriptor : ℕ}

theorem pageSize_eq (g : Granule) : (forGranule g).pageSize = 2 ^ pageBits g := by
  cases g <;> rfl

theorem levelShift_eq (g : Granule) (level : ℕ) :
    (forGranule g).levelShift level = (radix g).shift level := by
  cases g <;> rfl

theorem shift_le {level : ℕ} (h : firstLevel g ≤ level) : (radix g).shift level ≤ 39 := by
  cases g <;> simp only [radix, pageBits, firstLevel] at h ⊢ <;> omega

theorem pageBits_le (g : Granule) : 12 ≤ pageBits g ∧ pageBits g ≤ 16 := by
  cases g <;> simp [pageBits]

theorem and_alignedOutputMask (descriptor : ℕ) (h : low ≤ 64) :
    descriptor &&& alignedOutputMask (2 ^ low) = addressField low descriptor :=
  and_ones_and_complement (m := 48) descriptor (by norm_num) h

theorem mul_two_pow_eq_zero {q n : ℕ} : q * 2 ^ n = 0 ↔ q = 0 := by
  simp

theorem and_lowOutputReservedMask (descriptor : ℕ) (h : low ≤ 64) :
    descriptor &&& lowOutputReservedMask (2 ^ low) = 0 ↔
      descriptor % 2 ^ low / 2 ^ 12 = 0 := by
  have hmask : descriptor &&& lowOutputReservedMask (2 ^ low) = _ :=
    and_ones_and_complement (n := 12) descriptor h (by norm_num)
  rw [hmask, mul_two_pow_eq_zero]

theorem and_highReserved (descriptor : ℕ) :
    descriptor &&& OUTPUT_ADDR_HIGH_RESERVED = 0 ↔ descriptor % 2 ^ 52 / 2 ^ 48 = 0 := by
  have hmask : descriptor &&& OUTPUT_ADDR_HIGH_RESERVED = _ :=
    and_field_mask (m := 52) (n := 48) descriptor (by norm_num)
  rw [hmask, mul_two_pow_eq_zero]

/-- The code wants all bits of a table descriptor below the page clear, ignored ones too. -/
theorem and_tableLowReservedMask (g : Granule) (descriptor : ℕ) :
    descriptor &&& (forGranule g).tableLowReservedMask = 0 ↔
      descriptor % 2 ^ pageBits g / 2 ^ 12 = 0 ∧ Clean descriptor := by
  have hp := pageBits_le g
  have hmask := and_ones_and_complement (m := pageBits g) (n := 2) descriptor (by omega)
    (by norm_num)
  rw [tableLowReservedMask, pageSize_eq]
  have hbits : DESC_TYPE_MASK = 2 ^ 2 - 1 := rfl
  rw [hbits, hmask, Clean]
  cases g <;> simp only [pageBits] <;> omega

theorem typeBits (descriptor : ℕ) : descriptor &&& DESC_TYPE_MASK = descriptor % 4 :=
  Nat.and_two_pow_sub_one_eq_mod descriptor 2

theorem presentBit (descriptor : ℕ) : descriptor &&& DESC_INVALID_MASK = descriptor % 2 :=
  Nat.and_two_pow_sub_one_eq_mod descriptor 1

theorem blockSize_eq (g : Granule) (level : ℕ) : (forGranule g).blockSize level =
    if codeBlock g level then some (2 ^ (radix g).shift level) else none := by
  have hshift : 1 <<< (forGranule g).levelShift level =
      2 ^ (radix g).shift level := by
    rw [Nat.one_shiftLeft, levelShift_eq]
  rw [blockSize, hshift]
  congr 1
  cases g with
  | size4K => simp [forGranule, codeBlock, blockAllowed, PAGE_4K, PAGE_16K, PAGE_64K]
  | size16K =>
    simp [forGranule, codeBlock, blockAllowed, PAGE_4K, PAGE_16K, PAGE_64K, or_comm]
  | size64K => simp [forGranule, codeBlock, blockAllowed, PAGE_4K, PAGE_16K, PAGE_64K]

/-- The two checks of reserved bits that every kind of descriptor gets. -/
theorem toOption_reserved (name : String) (e : TranslationError) {mask : ℕ} {p : Prop} [Decidable p]
    (hmask : descriptor &&& mask = 0 ↔ p) :
    (do rejectOutputHighBits name descriptor
        failIf (descriptor &&& mask != 0) e : Except TranslationError Unit).toOption =
      if descriptor % 2 ^ 52 / 2 ^ 48 ≠ 0 ∨ ¬ p then none else some () := by
  have hhigh := and_highReserved descriptor
  rw [toOption_bind, rejectOutputHighBits, toOption_failIf, toOption_failIf]
  generalize descriptor % 2 ^ 52 / 2 ^ 48 = high at hhigh ⊢
  by_cases hzero : high = 0
  · by_cases hp : p
    · simp [hhigh.2 hzero, hmask.2 hp, hzero, hp]
    · have hlow : descriptor &&& mask ≠ 0 := fun h => hp (hmask.1 h)
      simp [hhigh.2 hzero, hlow, hzero, hp]
  · have hset : descriptor &&& OUTPUT_ADDR_HIGH_RESERVED ≠ 0 := fun h => hzero (hhigh.1 h)
    simp [hset, hzero]

theorem toOption_leafReserved (name : String) (e : TranslationError) (h : low ≤ 64) :
    (do rejectOutputHighBits name descriptor
        failIf (descriptor &&& lowOutputReservedMask (2 ^ low) != 0) e :
          Except TranslationError Unit).toOption =
      if reservedSet low descriptor then none else some () :=
  toOption_reserved name e (and_lowOutputReservedMask descriptor h)

end

/-! The loop of the code as a walk. -/

def permsOf (tables : List ℕ) : Permissions := tables.foldl .applyTable {}

theorem permsOf_concat (tables : List ℕ) (descriptor : ℕ) :
    permsOf (tables ++ [descriptor]) = (permsOf tables).applyTable descriptor := by
  rw [permsOf, List.foldl_append]
  rfl

theorem and_or_eq_zero {v a b : ℕ} : v &&& (a ||| b) = 0 ↔ v &&& a = 0 ∧ v &&& b = 0 := by
  rw [Nat.and_or_distrib_left, Nat.or_eq_zero_iff]

theorem permsOf_eq (tables : List ℕ) : permsOf tables =
    { writable := tables.all fun t => !t.testBit 62
      user := tables.all fun t => !t.testBit 61
      executable := tables.all fun t => !t.testBit 60 && !t.testBit 59 } := by
  induction tables using List.reverseRecOn with
  | nil => rfl
  | append_singleton tables t ih =>
    have hw : (t &&& AP_TABLE_READ_ONLY = 0) = (t.testBit 62 = false) :=
      propext (and_two_pow_eq_zero t 62)
    have hu : (t &&& AP_TABLE_NO_USER = 0) = (t.testBit 61 = false) :=
      propext (and_two_pow_eq_zero t 61)
    have hx : (t &&& (UXN_TABLE ||| PXN_TABLE) = 0) =
        (t.testBit 60 = false ∧ t.testBit 59 = false) := by
      rw [and_or_eq_zero]
      exact propext (and_congr (and_two_pow_eq_zero t 60) (and_two_pow_eq_zero t 59))
    rw [permsOf_concat, ih]
    simp [Permissions.applyTable, hw, hu, hx]

theorem applyLeaf_permsOf (tables : List ℕ) (d : ℕ) : (permsOf tables).applyLeaf d =
    { writable := (tables.all fun t => !t.testBit 62) && !d.testBit 7
      user := (tables.all fun t => !t.testBit 61) && d.testBit 6
      executable := (tables.all fun t => !t.testBit 60 && !t.testBit 59) &&
        (!d.testBit 54 && !d.testBit 53) } := by
  have hw : (d &&& AP_READ_ONLY = 0) = (d.testBit 7 = false) :=
    propext (and_two_pow_eq_zero d 7)
  have hu : (d &&& AP_USER ≠ 0) = (d.testBit 6 = true) := propext (and_two_pow_ne_zero d 6)
  have hx : (d &&& (UXN ||| PXN) = 0) = (d.testBit 54 = false ∧ d.testBit 53 = false) := by
    rw [and_or_eq_zero]
    exact propext (and_congr (and_two_pow_eq_zero d 54) (and_two_pow_eq_zero d 53))
  rw [permsOf_eq]
  simp [Permissions.applyLeaf, hw, hu, hx]

section

variable {memory : GuestMemory} {vm : VmId} {g : Granule} {inputVa va base level : ℕ}
  {tables : List ℕ}

theorem tableIndex_eq (g : Granule) (inputVa level : ℕ) :
    tableIndex inputVa level (forGranule g) = (radix g).index level inputVa := by
  have hmask : (forGranule g).indexMask = 2 ^ (radix g).bits level - 1 := by
    cases g <;> rfl
  rw [tableIndex, hmask, Nat.and_two_pow_sub_one_eq_mod, Nat.shiftRight_eq_div_pow, levelShift_eq]
  rfl

/-- A leaf of 2 ^ low bytes, as the code computes it. -/
theorem result_eq {low : ℕ} (h : low ≤ 64) (level d : ℕ) (hlow : low = (radix g).shift level) :
    result ((d &&& alignedOutputMask (2 ^ low)) ||| (inputVa &&& (2 ^ low - 1)))
      (2 ^ low) ((permsOf tables).applyLeaf d) = leafResult g inputVa level ⟨tables, d⟩ := by
  rw [and_alignedOutputMask d h, addressField, or_offset, applyLeaf_permsOf]
  subst hlow
  rfl

theorem toOption_translateBlock (h : firstLevel g ≤ level) (d : ℕ) :
    (translateBlock level d inputVa va (permsOf tables) (forGranule g)).toOption =
      if codeBlock g level then
        if reservedSet ((radix g).shift level) d then none
        else some (leafResult g inputVa level ⟨tables, d⟩)
      else none := by
  have hshift := shift_le h
  rw [translateBlock, toOption_bind, toOption_okOr, blockSize_eq]
  cases codeBlock g level with
  | false => rfl
  | true =>
    simp only [if_true, Option.bind_some]
    rw [toOption_bind, validateBlockDescriptor, toOption_leafReserved _ _ (by omega),
      result_eq (by omega) level d rfl]
    split_ifs <;> rfl

theorem toOption_translatePage (d : ℕ) :
    (translatePage d inputVa (permsOf tables) (forGranule g)).toOption =
      if reservedSet (pageBits g) d then none else some (leafResult g inputVa 3 ⟨tables, d⟩) := by
  have hp := pageBits_le g
  have hlow : pageBits g = (radix g).shift 3 := by simp [radix]
  rw [translatePage, toOption_bind, validatePageDescriptor, pageSize_eq,
    toOption_leafReserved _ _ (by omega), result_eq (by omega) 3 d hlow]
  split_ifs <;> rfl

theorem toOption_validateTableDescriptor (name : String) (d : ℕ) :
    (validateTableDescriptor name d (forGranule g)).toOption =
      if reservedSet (pageBits g) d ∨ ¬ Clean d then none else some () := by
  rw [validateTableDescriptor, toOption_reserved _ _ (and_tableLowReservedMask g d)]
  simp only [reservedSet, not_and_or, or_assoc]

/-- What a descriptor means to the code once it has been read. -/
def codeRest (memory : GuestMemory) (vm : VmId) (g : Granule) (inputVa level : ℕ)
    (levels tables : List ℕ) (d : ℕ) : Option TranslationResult :=
  if d % 4 = 3 then
    if level = 3 then
      if reservedSet (pageBits g) d then none else some (leafResult g inputVa 3 ⟨tables, d⟩)
    else if reservedSet (pageBits g) d ∨ ¬ Clean d then none
    else ((radix g).walk (codeStep memory vm g) levels
      (addressField (pageBits g) d, tables ++ [d]) inputVa).map
        fun leaf => leafResult g inputVa leaf.1 leaf.2
  else if d % 4 = 1 ∧ codeBlock g level then
    if reservedSet ((radix g).shift level) d then none
    else some (leafResult g inputVa level ⟨tables, d⟩)
  else none

theorem map_walk_codeStep (levels : List ℕ) :
    ((radix g).walk (codeStep memory vm g) (level :: levels) (base, tables) inputVa).map
        (fun leaf => leafResult g inputVa leaf.1 leaf.2) =
      (entryAt memory vm base ((radix g).index level inputVa)).bind
        (codeRest memory vm g inputVa level levels tables) := by
  rw [walk, codeStep]
  cases entryAt memory vm base ((radix g).index level inputVa) with
  | none => rfl
  | some d =>
    simp only [Option.bind_some, codeRest, codeLeaf]
    split_ifs with h1 h2 h3 h4 h5 h6 <;> first | rfl | simp [h2]

theorem toOption_walkLevels {levels : List ℕ} (h : ∀ l ∈ levels, firstLevel g ≤ l) :
    (walkLevels memory vm inputVa va (forGranule g) levels base
        (permsOf tables)).toOption =
      ((radix g).walk (codeStep memory vm g) levels (base, tables) inputVa).map
        fun leaf => leafResult g inputVa leaf.1 leaf.2 := by
  induction levels generalizing base tables with
  | nil => rfl
  | cons level levels ih =>
    have hlevel := h level List.mem_cons_self
    have hp := pageBits_le g
    rw [map_walk_codeStep, walkLevels, toOption_bind, toOption_readTableEntry, tableIndex_eq]
    congr 1
    funext d
    rw [toOption_bind, validatePresent, toOption_failIf, typeBits, presentBit, codeRest]
    have htypes : d % 4 = 0 ∨ d % 4 = 1 ∨ d % 4 = 2 ∨ d % 4 = 3 := by omega
    rcases htypes with htype | htype | htype | htype
    · have hbit : d % 2 = 0 := by omega
      simp [hbit, htype]
    · have hbit : d % 2 = 1 := by omega
      simp [hbit, htype, DESC_BLOCK, toOption_translateBlock hlevel]
    · have hbit : d % 2 = 0 := by omega
      simp [hbit, htype]
    · have hbit : d % 2 = 1 := by omega
      by_cases hlast : level = 3
      · simp [hbit, htype, hlast, DESC_BLOCK, DESC_TABLE_OR_PAGE, toOption_translatePage]
      · have hrest : (walkLevels memory vm inputVa va (forGranule g) levels
            (addressField (pageBits g) d) (permsOf (tables ++ [d]))).toOption = _ :=
          ih fun l hl => h l (List.mem_cons_of_mem level hl)
        rw [permsOf_concat] at hrest
        by_cases hbad : reservedSet (pageBits g) d ∨ ¬ Clean d
        · simp [hbit, htype, hlast, hbad, DESC_BLOCK, DESC_TABLE_OR_PAGE, toOption_bind,
            toOption_validateTableDescriptor]
        · simp [hbit, htype, hlast, hbad, DESC_BLOCK, DESC_TABLE_OR_PAGE, toOption_bind,
            toOption_validateTableDescriptor, pageSize_eq,
            and_alignedOutputMask d (show pageBits g ≤ 64 by omega), hrest]

end

/-! The two walks from one table. -/

section

variable {memory : GuestMemory} {vm : VmId} {g : Granule} {va : ℕ}

/-- All that a step of the two walks can be. -/
theorem step_cases (memory : GuestMemory) (vm : VmId) (g : Granule) (level : ℕ)
    (s : ℕ × List ℕ) (index : ℕ) :
    (archStep memory vm g level s index = none ∧ codeStep memory vm g level s index = none) ∨
    (∃ leaf, leaf.tables = s.2 ∧ archStep memory vm g level s index = some (.inr (some leaf)) ∧
      codeStep memory vm g level s index = some (.inr leaf)) ∨
    (archStep memory vm g level s index = some (.inr none) ∧
      codeStep memory vm g level s index = none) ∨
    (∃ d base, archStep memory vm g level s index = some (.inl (base, s.2 ++ [d])) ∧
      codeStep memory vm g level s index =
        if Clean d then some (.inl (base, s.2 ++ [d])) else none) ∨
    (∃ d, entryAt memory vm s.1 index = some d ∧ g = .size16K ∧ level = 1 ∧ d % 4 = 1 ∧
      archStep memory vm g level s index = none ∧ codeStep memory vm g level s index =
        if reservedSet ((radix g).shift level) d then none else some (.inr ⟨s.2, d⟩)) := by
  unfold archStep codeStep
  cases hentry : entryAt memory vm s.1 index with
  | none => exact Or.inl ⟨rfl, rfl⟩
  | some d =>
    simp only [Option.bind_some]
    by_cases htable : d % 4 = 3
    · by_cases hlast : level = 3
      · by_cases hreserved : reservedSet (pageBits g) d
        · right; right; simp [htable, hlast, hreserved, leafOf, codeLeaf]
        · right; left
          exact ⟨⟨s.2, d⟩, rfl, by simp [htable, hlast, hreserved, leafOf],
            by simp [htable, hlast, hreserved, codeLeaf]⟩
      · by_cases hreserved : reservedSet (pageBits g) d
        · right; right; simp [htable, hlast, hreserved]
        · right; right; right; left
          by_cases hclean : Clean d <;> simp [htable, hlast, hreserved, hclean]
    · by_cases hblock : d % 4 = 1
      · by_cases hallowed : blockAllowed g level
        · by_cases hreserved : reservedSet ((radix g).shift level) d
          · right; right; simp [hblock, hallowed, hreserved, leafOf, codeLeaf, codeBlock]
          · right; left
            exact ⟨⟨s.2, d⟩, rfl, by simp [hblock, hallowed, hreserved, leafOf],
              by simp [hblock, hallowed, hreserved, codeLeaf, codeBlock]⟩
        · by_cases hodd : g = .size16K ∧ level = 1
          · right; right; right; right
            exact ⟨d, rfl, hodd.1, hodd.2, hblock, by simp [hblock, hallowed],
              by simp [hblock, hodd, codeLeaf, codeBlock]⟩
          · left
            simp [hblock, hallowed, hodd, codeBlock]
      · left
        simp [htable, hblock]

variable {levels : List ℕ}

theorem tables_subset {s : ℕ × List ℕ} {l : ℕ} {leaf : Leaf}
    (h : (radix g).walk (archStep memory vm g) levels s va = some (l, some leaf)) :
    ∀ t ∈ s.2, t ∈ leaf.tables := by
  induction levels generalizing s with
  | nil => cases h
  | cons level levels ih =>
    rcases step_cases memory vm g level s ((radix g).index level va) with
      ⟨harch, -⟩ | ⟨leaf', htables, harch, -⟩ | ⟨harch, -⟩ | ⟨d, base, harch, -⟩ |
        ⟨d, -, -, -, -, harch, -⟩
    · rw [walk_cons_none harch] at h
      cases h
    · rw [walk_cons_leaf harch] at h
      obtain ⟨-, rfl⟩ := by simpa using h
      rw [htables]
      exact fun t ht => ht
    · rw [walk_cons_leaf harch] at h
      simp at h
    · rw [walk_cons_table harch] at h
      intro t ht
      exact ih h t (List.mem_append_left _ ht)
    · rw [walk_cons_none harch] at h
      cases h

/-- What the code finds of what the architecture finds: no leaf behind a table descriptor with an
ignored bit set. -/
def kept : ℕ × Option Leaf → Option (ℕ × Leaf)
  | (l, some leaf) => if ∀ t ∈ leaf.tables, Clean t then some (l, leaf) else none
  | (_, none) => none

/-- The code walks on to what the architecture finds, as far as it keeps it. -/
def KeepsFrom (memory : GuestMemory) (vm : VmId) (g : Granule) (va : ℕ) (levels : List ℕ)
    (s : ℕ × List ℕ) : Prop :=
  (radix g).walk (codeStep memory vm g) levels s va =
    ((radix g).walk (archStep memory vm g) levels s va).bind kept

theorem KeepsFrom.cons {level : ℕ} {s : ℕ × List ℕ} (hs : ∀ t ∈ s.2, Clean t)
    (hodd : g = .size16K → level = 1 → ∀ d,
      entryAt memory vm s.1 ((radix g).index level va) = some d → d % 4 ≠ 1)
    (hrest : ∀ s' : ℕ × List ℕ, (∀ t ∈ s'.2, Clean t) → KeepsFrom memory vm g va levels s') :
    KeepsFrom memory vm g va (level :: levels) s := by
  unfold KeepsFrom
  rcases step_cases memory vm g level s ((radix g).index level va) with
    ⟨harch, hcode⟩ | ⟨leaf', htables, harch, hcode⟩ | ⟨harch, hcode⟩ | ⟨d, base, harch, hcode⟩ |
      ⟨d, hentry, hg, hlevel, hblock, -⟩
  · rw [walk_cons_none hcode, walk_cons_none harch]
    rfl
  · rw [walk_cons_leaf hcode, walk_cons_leaf harch]
    rw [← htables] at hs
    exact (if_pos hs).symm
  · rw [walk_cons_none hcode, walk_cons_leaf harch]
    rfl
  · rw [walk_cons_table harch]
    by_cases hclean : Clean d
    · rw [if_pos hclean] at hcode
      rw [walk_cons_table hcode]
      apply hrest
      simpa [or_imp, forall_and, hclean] using hs
    · rw [if_neg hclean] at hcode
      rw [walk_cons_none hcode, eq_comm, Option.bind_eq_none_iff]
      rintro ⟨l, _ | leaf⟩ hleaf
      · rfl
      · exact if_neg fun h => hclean (h d (tables_subset hleaf d (by simp)))
  · exact absurd hblock (hodd hg hlevel d hentry)

theorem keepsFrom (hodd : g = .size16K → 1 ∉ levels) (s : ℕ × List ℕ) (hs : ∀ t ∈ s.2, Clean t) :
    KeepsFrom memory vm g va levels s := by
  induction levels generalizing s with
  | nil => rfl
  | cons level levels ih =>
    apply KeepsFrom.cons hs
    · intro hg hlevel
      exact absurd (by simp [hlevel]) (hodd hg)
    · apply ih
      intro hg hmem
      exact hodd hg (List.mem_cons_of_mem level hmem)

/-- What the code returns agrees with the architecture exactly if the tables on the way to a leaf
have no ignored bit set. -/
theorem agrees_iff {base : ℕ} {out : Except TranslationError TranslationResult}
    (h : KeepsFrom memory vm g va levels (base, []))
    (hout : out.toOption = ((radix g).walk (codeStep memory vm g) levels (base, []) va).map
      fun leaf => leafResult g va leaf.1 leaf.2) :
    Agrees (outcomeOf g va ((radix g).walk (archStep memory vm g) levels (base, []) va)) out ↔
      ∀ l leaf, (radix g).walk (archStep memory vm g) levels (base, []) va = some (l, some leaf) →
        ∀ t ∈ leaf.tables, Clean t := by
  rw [h] at hout
  generalize (radix g).walk (archStep memory vm g) levels (base, []) va = found at hout ⊢
  rcases found with _ | ⟨l, _ | leaf⟩
  · refine iff_of_true (fun r hr => ?_) (fun l leaf heq => by cases heq)
    rw [toOption_eq_some.2 hr] at hout
    cases hout
  · exact iff_of_true trivial fun l' leaf heq => by simp at heq
  · have hfound : (∀ l' leaf', some (l, some leaf) = some (l', some leaf') →
        ∀ t ∈ leaf'.tables, Clean t) ↔ ∀ t ∈ leaf.tables, Clean t := by
      simp
    rw [hfound, outcomeOf, Agrees, ← toOption_eq_some, hout, Option.bind_some, kept]
    by_cases hclean : ∀ t ∈ leaf.tables, Clean t
    · rw [if_pos hclean]
      exact iff_of_true rfl hclean
    · rw [if_neg hclean]
      exact iff_of_false (by simp) hclean

end

/-! The table that the code selects. -/

section

variable {context : Stage1Context} {g : Granule} {va vaBits ttbr input : ℕ}

/-- The input sizes that the code takes. -/
def SizeOk (g : Granule) (vaBits : ℕ) : Prop :=
  pageBits g ≤ vaBits ∧ vaBits ≤ covers g (firstLevel g)

theorem vaBitsFromTsz_eq_ok {tsz : ℕ}
    (h : vaBitsFromTsz tsz (forGranule g) = .ok vaBits) :
    vaBits = 64 - tsz ∧ SizeOk g vaBits := by
  obtain ⟨bits, hbits, hrest⟩ := except_bind_ok.1 h
  obtain ⟨_, hrange, hok⟩ := except_bind_ok.1 hrest
  obtain ⟨-, hsub⟩ := checkedSub_eq_some.1 (okOr_eq_ok.1 hbits)
  have hrange := failIf_eq_ok.1 hrange
  simp only [Bool.or_eq_false_iff, decide_eq_false_iff_not, not_lt] at hrange
  have heq := Except.ok.inj hok
  subst heq
  refine ⟨hsub, ?_, ?_⟩
  · cases g <;> exact hrange.1
  · cases g <;> exact hrange.2

theorem coverage_eq (g : Granule) (level : ℕ) :
    (forGranule g).levelCoverageBits level = covers g level := by
  cases g <;> rfl

/-- The loop of the code stops at the first level, which covers every size it takes. -/
theorem startLevel_eq (h : SizeOk g vaBits) :
    (forGranule g).startLevel vaBits = .ok (firstLevel g) := by
  have hmin : ∃ levels, List.range' (forGranule g).minStartLevel
      (4 - (forGranule g).minStartLevel) = firstLevel g :: levels := by
    cases g <;> exact ⟨_, rfl⟩
  obtain ⟨levels, hlevels⟩ := hmin
  apply okOr_eq_ok.2
  rw [hlevels]
  apply List.find?_cons_of_pos
  rw [coverage_eq, decide_eq_true_iff]
  exact h.2

theorem initialLevel_eq (g : Granule) (vaBits : ℕ) : initialLevel g vaBits =
    if vaBits ≤ covers g 3 then 3 else if vaBits ≤ covers g 2 then 2
    else if vaBits ≤ covers g 1 then 1 else 0 := by
  unfold initialLevel
  by_cases h3 : vaBits ≤ covers g 3
  · simp [h3]
  by_cases h2 : vaBits ≤ covers g 2
  · simp [h3, h2]
  by_cases h1 : vaBits ≤ covers g 1 <;> simp [h3, h2, h1]

theorem initialLevel_eq_iff (h : SizeOk g vaBits) :
    initialLevel g vaBits = firstLevel g ↔ NeedsFirstLevel g vaBits := by
  have hmax := h.2
  rw [initialLevel_eq, NeedsFirstLevel]
  by_cases h3 : vaBits ≤ covers g 3
  · rw [if_pos h3]
    cases g <;> simp only [covers, radix, pageBits, firstLevel] at h3 ⊢ <;> omega
  rw [if_neg h3]
  by_cases h2 : vaBits ≤ covers g 2
  · rw [if_pos h2]
    cases g <;> simp only [covers, radix, pageBits, firstLevel, true_iff] at h2 h3 ⊢ <;> omega
  rw [if_neg h2]
  by_cases h1 : vaBits ≤ covers g 1
  · rw [if_pos h1]
    cases g <;> simp only [covers, radix, pageBits, firstLevel, true_iff] at h1 h2 hmax ⊢ <;> omega
  · rw [if_neg h1]
    cases g <;> simp only [covers, radix, pageBits, firstLevel, true_iff] at h1 hmax ⊢ <;> omega

theorem selectTtbr_eq (haccepted : Accepted context)
    (hregion : region context va = some (vaBits, some ttbr, input)) :
    SizeOk context.tcr.granule vaBits ∧
    selectTtbr context va (forGranule context.tcr.granule) =
      .ok ⟨ttbr, input, firstLevel context.tcr.granule⟩ := by
  obtain ⟨bits0, h0⟩ := haccepted context.tcr.t0sz (by simp)
  obtain ⟨bits1, h1⟩ := haccepted context.tcr.t1sz (by simp)
  obtain ⟨hbits0, hsize0⟩ := vaBitsFromTsz_eq_ok h0
  obtain ⟨hbits1, hsize1⟩ := vaBitsFromTsz_eq_ok h1
  have hrange : ∀ n, rangeSize n = 2 ^ n := fun n => Nat.one_shiftLeft n
  rw [selectTtbr, h0, except_ok_bind, h1, except_ok_bind, hrange, hrange]
  simp only [region, ← hbits0, ← hbits1] at hregion
  have hpos := Nat.two_pow_pos bits1
  have hend : 2 ^ 64 - 1 - (2 ^ bits1 - 1) = 2 ^ 64 - 2 ^ bits1 := by omega
  rw [hend]
  by_cases hlow : va < 2 ^ bits0
  · rw [if_pos hlow, Option.some.injEq, Prod.mk.injEq, Prod.mk.injEq] at hregion
    obtain ⟨rfl, httbr, rfl⟩ := hregion
    refine ⟨hsize0, ?_⟩
    rw [if_pos hlow, httbr, startLevel_eq hsize0]
    rfl
  · rw [if_neg hlow] at hregion
    by_cases hhigh : 2 ^ 64 - 2 ^ bits1 ≤ va
    · rw [if_pos hhigh, Option.some.injEq, Prod.mk.injEq, Prod.mk.injEq] at hregion
      obtain ⟨rfl, httbr, rfl⟩ := hregion
      refine ⟨hsize1, ?_⟩
      rw [if_neg hlow, if_pos hhigh, httbr, startLevel_eq hsize1, inputMask, hrange,
        Nat.and_two_pow_sub_one_eq_mod]
      rfl
    · rw [if_neg hhigh] at hregion
      cases hregion

/-- The entries of the first table fit a page. -/
theorem tableBits_le (h : SizeOk g vaBits) (hneeds : NeedsFirstLevel g vaBits) :
    tableBits g vaBits ≤ pageBits g := by
  have hlevel := (initialLevel_eq_iff h).2 hneeds
  obtain ⟨-, hmax⟩ := h
  rw [tableBits, hlevel]
  cases g <;> simp only [covers, radix, pageBits, firstLevel] at hmax hneeds ⊢ <;> omega

/-- The address in a TTBR, cut at the page. -/
theorem addressField_split {low high : ℕ} (h : low ≤ high) (hhigh : high ≤ 48) (word : ℕ) :
    addressField low word =
      addressField high word + word % 2 ^ high / 2 ^ low * 2 ^ low := by
  obtain ⟨k, rfl⟩ := Nat.exists_eq_add_of_le h
  have hmod : word % 2 ^ (low + k) = word % 2 ^ 48 % 2 ^ (low + k) :=
    (Nat.mod_mod_of_dvd word (pow_dvd_pow 2 hhigh)).symm
  rw [hmod, addressField, addressField]
  generalize word % 2 ^ 48 = w
  rw [pow_add, Nat.mod_mul_right_div_self, ← Nat.div_div_eq_div_mul]
  have hdiv := Nat.div_add_mod (w / 2 ^ low) (2 ^ k)
  calc w / 2 ^ low * 2 ^ low
      = (2 ^ k * (w / 2 ^ low / 2 ^ k) + w / 2 ^ low % 2 ^ k) * 2 ^ low := by rw [hdiv]
    _ = w / 2 ^ low / 2 ^ k * (2 ^ low * 2 ^ k) + w / 2 ^ low % 2 ^ k * 2 ^ low := by ring

theorem addressField_of_aligned (h : SizeOk g vaBits) (hneeds : NeedsFirstLevel g vaBits)
    (haligned : PageAligned g vaBits ttbr) :
    addressField (tableBits g vaBits) ttbr = addressField (pageBits g) ttbr := by
  have hp := pageBits_le g
  rw [addressField_split (tableBits_le h hneeds) (by omega), haligned, Nat.zero_mul, Nat.add_zero]

/-- The levels that the code walks. -/
theorem toOption_translate (memory : GuestMemory) (vm : VmId) (haccepted : Accepted context)
    (hregion : region context va = some (vaBits, some ttbr, input)) :
    (translateArm64Stage1 memory vm context va).toOption =
      ((radix context.tcr.granule).walk (codeStep memory vm context.tcr.granule)
        (List.range' (firstLevel context.tcr.granule) (4 - firstLevel context.tcr.granule))
        (addressField (pageBits context.tcr.granule) ttbr, []) input).map
          fun leaf => leafResult context.tcr.granule input leaf.1 leaf.2 := by
  obtain ⟨-, hselect⟩ := selectTtbr_eq haccepted hregion
  have hp := pageBits_le context.tcr.granule
  have hlevels : ∀ l ∈ List.range' (firstLevel context.tcr.granule)
      (4 - firstLevel context.tcr.granule), firstLevel context.tcr.granule ≤ l := by
    intro l hl
    exact (List.mem_range'_1.1 hl).1
  rw [translateArm64Stage1, hselect, except_ok_bind, walkStage1, pageSize_eq,
    and_alignedOutputMask _ (by omega)]
  have hwalk : (walkLevels memory vm input va (forGranule context.tcr.granule) _
      (addressField (pageBits context.tcr.granule) ttbr) (permsOf [])).toOption = _ :=
    toOption_walkLevels hlevels
  exact hwalk

/-- A block at level 1 of the 16K granule: a fault to the architecture, a leaf to the code. -/
theorem oddBlock {memory : GuestMemory} {vm : VmId} (levels tables : List ℕ) {base d : ℕ}
    (hentry : entryAt memory vm base ((radix .size16K).index 1 input) = some d) (hd : d % 4 = 1) :
    (radix .size16K).walk (archStep memory vm .size16K) (1 :: levels) (base, tables) input = none ∧
    (radix .size16K).walk (codeStep memory vm .size16K) (1 :: levels) (base, tables) input =
      if reservedSet ((radix .size16K).shift 1) d then none else some (1, ⟨tables, d⟩) := by
  constructor
  · apply walk_cons_none
    simp [archStep, hentry, hd, blockAllowed]
  · by_cases hreserved : reservedSet ((radix .size16K).shift 1) d
    · rw [if_pos hreserved]
      apply walk_cons_none
      simp [codeStep, hentry, hd, codeBlock, codeLeaf, hreserved]
    · rw [if_neg hreserved]
      apply walk_cons_leaf
      simp [codeStep, hentry, hd, codeBlock, codeLeaf, hreserved]

/-- The two walks from the first level, for every granule. -/
theorem agrees_first_iff {memory : GuestMemory} {vm : VmId} {base : ℕ}
    {out : Except TranslationError TranslationResult}
    (hout : out.toOption = ((radix g).walk (codeStep memory vm g)
      (List.range' (firstLevel g) (4 - firstLevel g)) (base, []) input).map
        fun leaf => leafResult g input leaf.1 leaf.2) :
    Agrees (outcomeOf g input ((radix g).walk (archStep memory vm g)
      (List.range' (firstLevel g) (4 - firstLevel g)) (base, []) input)) out ↔
    (g = .size16K → ∀ d, entryAt memory vm base ((radix g).index 1 input) = some d → d % 4 = 1 →
      reservedSet ((radix g).shift 1) d) ∧
    ∀ l leaf, (radix g).walk (archStep memory vm g)
      (List.range' (firstLevel g) (4 - firstLevel g)) (base, []) input = some (l, some leaf) →
        ∀ t ∈ leaf.tables, Clean t := by
  by_cases hg : g = .size16K
  · subst hg
    have hlevels : List.range' (firstLevel .size16K) (4 - firstLevel .size16K) = [1, 2, 3] := rfl
    rw [hlevels] at hout ⊢
    by_cases hodd : ∃ d, entryAt memory vm base ((radix .size16K).index 1 input) = some d ∧ d % 4 = 1
    · obtain ⟨d, hentry, hd⟩ := hodd
      obtain ⟨harch, hcode⟩ := oddBlock [2, 3] [] hentry hd
      rw [hcode] at hout
      rw [harch, outcomeOf]
      by_cases hreserved : reservedSet ((radix .size16K).shift 1) d
      · rw [if_pos hreserved] at hout
        refine ⟨fun _ => ⟨fun _ d' hentry' _ => ?_, fun l leaf h => ?_⟩, fun _ r hr => ?_⟩
        · rw [hentry, Option.some.injEq] at hentry'
          exact hentry' ▸ hreserved
        · cases h
        · rw [toOption_eq_some.2 hr] at hout
          cases hout
      · rw [if_neg hreserved, Option.map_some, toOption_eq_some] at hout
        constructor
        · intro h
          exact absurd hout (h _)
        · intro h
          exact absurd (h.1 rfl d hentry hd) hreserved
    · push Not at hodd
      have hagree : KeepsFrom memory vm .size16K input [1, 2, 3] (base, []) := by
        apply KeepsFrom.cons (by simp)
        · intro _ _ d hentry
          exact hodd d hentry
        · exact keepsFrom fun _ => by decide
      rw [agrees_iff hagree hout]
      refine ⟨fun h => ⟨fun _ d hentry hd => absurd hd (hodd d hentry), h⟩, fun h => h.2⟩
  · rw [agrees_iff (keepsFrom (fun h => absurd h hg) _ (by simp)) hout]
    exact ⟨fun h => ⟨fun h16 => absurd h16 hg, h⟩, fun h => h.2⟩

/-- From a first table at a page, the code is right exactly on plain walks. -/
theorem walkRight_iff_plain (memory : GuestMemory) (vm : VmId) (haccepted : Accepted context)
    (hregion : region context va = some (vaBits, some ttbr, input))
    (hneeds : NeedsFirstLevel context.tcr.granule vaBits)
    (haligned : PageAligned context.tcr.granule vaBits ttbr) :
    WalkRight memory vm context va vaBits ttbr input ↔
      PlainWalk memory vm context.tcr.granule vaBits ttbr input := by
  obtain ⟨hsize, hselect⟩ := selectTtbr_eq haccepted hregion
  have hlevel := (initialLevel_eq_iff hsize).2 hneeds
  have hbase := addressField_of_aligned hsize hneeds haligned
  have hagrees := agrees_first_iff (toOption_translate memory vm haccepted hregion)
  constructor
  · intro hright
    have hplain := hright.2
    rw [archWalk, hlevel, hbase, hagrees] at hplain
    refine ⟨?_, ?_⟩
    · rw [hbase]
      exact hplain.1
    · rw [archWalk, hlevel, hbase]
      exact hplain.2
  · intro hplain
    refine ⟨⟨_, hselect, hlevel.symm⟩, ?_⟩
    obtain ⟨hblock, htables⟩ := hplain
    rw [hbase] at hblock
    rw [archWalk, hlevel, hbase] at htables ⊢
    exact hagrees.2 ⟨hblock, htables⟩

/-- A walk that is right starts at the first level, as all walks of the code do. -/
theorem needs_of_walkRight {memory : GuestMemory} {vm : VmId} (haccepted : Accepted context)
    (hregion : region context va = some (vaBits, some ttbr, input))
    (h : WalkRight memory vm context va vaBits ttbr input) :
    NeedsFirstLevel context.tcr.granule vaBits := by
  obtain ⟨hsize, hselect⟩ := selectTtbr_eq haccepted hregion
  obtain ⟨⟨selected, hselected, hlevel⟩, -⟩ := h
  rw [hselect, Except.ok.injEq] at hselected
  rw [← hselected] at hlevel
  exact (initialLevel_eq_iff hsize).1 hlevel.symm

end

/-! A first table that does not begin at a page: the code reads the table at the page. -/

section

variable {g : Granule} {vm : VmId} {vaBits ttbr input : ℕ}

/-- A table apart from the first. -/
def nextTable (g : Granule) (ttbr : ℕ) : ℕ :=
  if addressField (pageBits g) ttbr = 0 then 2 ^ (pageBits g + 1) else 0

/-- Where the architecture reads first. -/
def archEntry (g : Granule) (vaBits ttbr input : ℕ) : ℕ :=
  addressField (tableBits g vaBits) ttbr + (radix g).index (firstLevel g) input * 8

/-- Every descriptor leads to the next table, or to its page from the last level, but the one that
the architecture reads first is invalid. -/
def twin (g : Granule) (vaBits ttbr input : ℕ) : GuestMemory := fun _ gpa =>
  .ok (8, ⟨(toLe 8 (if gpa = archEntry g vaBits ttbr input then 0 else nextTable g ttbr + 3)).toArray,
    by simp⟩)

/-- The descriptor of the next table is a plain one. -/
theorem next_plain (g : Granule) (ttbr : ℕ) : nextTable g ttbr + 3 < 2 ^ 64 ∧
    (nextTable g ttbr + 3) % 4 = 3 ∧ ¬ reservedSet (pageBits g) (nextTable g ttbr + 3) ∧
    Clean (nextTable g ttbr + 3) ∧
    addressField (pageBits g) (nextTable g ttbr + 3) = nextTable g ttbr := by
  unfold nextTable
  split_ifs <;> cases g <;> decide

theorem entryAt_twin {base index : ℕ} (h : base + index * 8 < 2 ^ 64) :
    entryAt (twin g vaBits ttbr input) vm base index =
      some (if base + index * 8 = archEntry g vaBits ttbr input then 0
        else nextTable g ttbr + 3) := by
  have hmul : checkedMul index 8 = some (index * 8) := if_pos (by omega)
  have hadd : checkedAdd base (index * 8) = some (base + index * 8) := if_pos h
  apply toOption_eq_some.2
  simp only [readTableEntry, hmul, Option.bind_some, hadd, okOr, except_ok_bind, twin,
    Except.mapError]
  refine congrArg Except.ok (fromLe_toLe ?_)
  split_ifs
  · norm_num
  · exact (next_plain g ttbr).1

theorem index_lt (l va : ℕ) : (radix g).index l va * 8 < 2 ^ pageBits g := by
  have hlt : (radix g).index l va < 2 ^ (radix g).bits l := Nat.mod_lt _ (Nat.two_pow_pos _)
  cases g <;> simp only [radix, pageBits] at hlt ⊢ <;> omega

/-- The two first tables of an unaligned register begin apart in one page. -/
theorem twin_addresses (hsize : SizeOk g vaBits) (hneeds : NeedsFirstLevel g vaBits)
    (haligned : ¬ PageAligned g vaBits ttbr) :
    addressField (pageBits g) ttbr < addressField (tableBits g vaBits) ttbr ∧
    addressField (tableBits g vaBits) ttbr < addressField (pageBits g) ttbr + 2 ^ pageBits g := by
  have hp := pageBits_le g
  rw [addressField_split (tableBits_le hsize hneeds) (by omega)]
  have hpos := Nat.mul_pos (Nat.pos_of_ne_zero haligned) (Nat.two_pow_pos (tableBits g vaBits))
  have hle := Nat.div_mul_le_self (ttbr % 2 ^ pageBits g) (2 ^ tableBits g vaBits)
  omega

theorem addressField_lt (low w : ℕ) : addressField low w < 2 ^ 48 :=
  lt_of_le_of_lt (Nat.div_mul_le_self _ _) (Nat.mod_lt _ (by norm_num))

theorem two_pow_pageBits (g : Granule) : 2 ^ pageBits g ≤ 2 ^ 16 :=
  Nat.pow_le_pow_right (by norm_num) (pageBits_le g).2

/-- The next table does not hold the entry that the architecture reads first. -/
theorem entryAt_next (hsize : SizeOk g vaBits) (hneeds : NeedsFirstLevel g vaBits)
    (haligned : ¬ PageAligned g vaBits ttbr) (level : ℕ) :
    entryAt (twin g vaBits ttbr input) vm (nextTable g ttbr) ((radix g).index level input) =
      some (nextTable g ttbr + 3) := by
  obtain ⟨hlt, hend⟩ := twin_addresses hsize hneeds haligned
  have hpow := two_pow_pageBits g
  have hindex : (radix g).index level input * 8 < 2 ^ pageBits g := index_lt _ _
  have hfirst : (radix g).index (firstLevel g) input * 8 < 2 ^ pageBits g := index_lt _ _
  have hnext : nextTable g ttbr ≤ 2 ^ (pageBits g + 1) ∧
      nextTable g ttbr + (radix g).index level input * 8 ≠ archEntry g vaBits ttbr input := by
    unfold nextTable archEntry
    split_ifs with hzero
    · omega
    · have hpage : 2 ^ pageBits g ≤ addressField (pageBits g) ttbr :=
        Nat.le_of_dvd (Nat.pos_of_ne_zero hzero) (Nat.dvd_mul_left _ _)
      omega
  rw [entryAt_twin (by omega), if_neg hnext.2]

/-- A walk of the code along the next table ends at its page. -/
theorem walk_next {memory : GuestMemory} {levels : List ℕ} (hlevels : 3 ∈ levels)
    (hnext : ∀ level, entryAt memory vm (nextTable g ttbr) ((radix g).index level input) =
      some (nextTable g ttbr + 3)) {base : ℕ} {tables : List ℕ}
    (hfirst : ∀ level ∈ levels.head?, entryAt memory vm base ((radix g).index level input) =
      some (nextTable g ttbr + 3)) :
    ((radix g).walk (codeStep memory vm g) levels (base, tables) input).isSome = true := by
  obtain ⟨-, htype, hreserved, hclean, hfield⟩ := next_plain g ttbr
  induction levels generalizing base tables with
  | nil => cases hlevels
  | cons level levels ih =>
    have hentry := hfirst level rfl
    by_cases hlast : level = 3
    · have hstep : codeStep memory vm g level (base, tables) ((radix g).index level input) =
          some (.inr ⟨tables, nextTable g ttbr + 3⟩) := by
        subst hlast
        simp [codeStep, hentry, htype, codeLeaf, hreserved]
      rw [walk_cons_leaf hstep]
      rfl
    · have hstep : codeStep memory vm g level (base, tables) ((radix g).index level input) =
          some (.inl (nextTable g ttbr, tables ++ [nextTable g ttbr + 3])) := by
        simp [codeStep, hentry, htype, hlast, hreserved, hclean, hfield]
      rw [walk_cons_table hstep]
      exact ih (List.mem_of_ne_of_mem (Ne.symm hlast) hlevels) fun l _ => hnext l

/-- In the twin memory the architecture finds nothing and the code finds a leaf. -/
theorem twin_walks (input : ℕ) (vm : VmId) (hsize : SizeOk g vaBits) (hneeds : NeedsFirstLevel g vaBits)
    (haligned : ¬ PageAligned g vaBits ttbr) :
    archWalk (twin g vaBits ttbr input) vm g vaBits ttbr input = none ∧
    PlainWalk (twin g vaBits ttbr input) vm g vaBits ttbr input ∧
    ((radix g).walk (codeStep (twin g vaBits ttbr input) vm g)
      (List.range' (firstLevel g) (4 - firstLevel g))
      (addressField (pageBits g) ttbr, []) input).isSome = true := by
  obtain ⟨hlt, hend⟩ := twin_addresses hsize hneeds haligned
  have hpow := two_pow_pageBits g
  have hbase := addressField_lt (tableBits g vaBits) ttbr
  have hindex : (radix g).index (firstLevel g) input * 8 < 2 ^ pageBits g := index_lt _ _
  have hlevels : List.range' (firstLevel g) (4 - firstLevel g) =
      firstLevel g :: List.range' (firstLevel g + 1) (3 - firstLevel g) := by
    cases g <;> rfl
  have hentry : entryAt (twin g vaBits ttbr input) vm (addressField (tableBits g vaBits) ttbr)
      ((radix g).index (firstLevel g) input) = some 0 := by
    rw [entryAt_twin (by omega), archEntry, if_pos rfl]
  have harch : archWalk (twin g vaBits ttbr input) vm g vaBits ttbr input = none := by
    rw [archWalk, (initialLevel_eq_iff hsize).2 hneeds, hlevels]
    apply walk_cons_none
    simp [archStep, hentry]
  refine ⟨harch, ⟨fun hg d hd htype => ?_, fun l leaf h => ?_⟩, ?_⟩
  · subst hg
    obtain rfl : d = 0 := Option.some.inj (hd.symm.trans hentry)
    cases htype
  · rw [harch] at h
    cases h
  · apply walk_next (List.mem_range'_1.2 (by cases g <;> decide))
      (entryAt_next hsize hneeds haligned)
    intro level hlevel
    rw [hlevels] at hlevel
    cases hlevel
    rw [entryAt_twin (by omega), if_neg (by unfold archEntry; omega)]

end

/-- A memory whose reads all fail has plain walks only. -/
theorem plainWalk_empty (g : Granule) (vm : VmId) (vaBits ttbr input : ℕ) :
    PlainWalk (fun _ gpa => .error (.unmapped gpa 8)) vm g vaBits ttbr input := by
  have hentry : ∀ base index, entryAt (fun _ gpa => .error (.unmapped gpa 8)) vm base index = none := by
    intro base index
    simp only [entryAt, readTableEntry, toOption_bind, toOption_okOr, toOption_mapError]
    cases (checkedMul index 8).bind fun offset => checkedAdd base offset <;> rfl
  refine ⟨fun _ d h => ?_, fun l leaf h => ?_⟩
  · rw [hentry] at h
    cases h
  · obtain ⟨s, hstep⟩ := (leaf_of_walk h).2
    simp [archStep, hentry] at hstep

/-- The walk of an address in one of the two ranges. With the first table at a page it is right
exactly if the input needs the first level of the granule and the walk is plain; and it is right
in all memories with plain walks exactly if it needs that level and the table is at a page. -/
theorem walkRight_iff {context : Stage1Context} {va vaBits ttbr input : ℕ}
    (haccepted : Accepted context)
    (hregion : region context va = some (vaBits, some ttbr, input)) :
    (PageAligned context.tcr.granule vaBits ttbr → ∀ memory vm,
      (WalkRight memory vm context va vaBits ttbr input ↔
        NeedsFirstLevel context.tcr.granule vaBits ∧
          PlainWalk memory vm context.tcr.granule vaBits ttbr input)) ∧
    ((∀ memory vm, PlainWalk memory vm context.tcr.granule vaBits ttbr input →
        WalkRight memory vm context va vaBits ttbr input) ↔
      NeedsFirstLevel context.tcr.granule vaBits ∧
        PageAligned context.tcr.granule vaBits ttbr) := by
  refine ⟨fun haligned memory vm => ?_, fun h => ?_, fun ⟨hneeds, haligned⟩ memory vm => ?_⟩
  · constructor
    · intro hright
      have hneeds := needs_of_walkRight haccepted hregion hright
      exact ⟨hneeds, (walkRight_iff_plain memory vm haccepted hregion hneeds haligned).1 hright⟩
    · intro ⟨hneeds, hplain⟩
      exact (walkRight_iff_plain memory vm haccepted hregion hneeds haligned).2 hplain
  · have hneeds := needs_of_walkRight haccepted hregion (h _ 0 (plainWalk_empty _ _ _ _ _))
    refine ⟨hneeds, ?_⟩
    by_contra haligned
    obtain ⟨hsize, -⟩ := selectTtbr_eq haccepted hregion
    obtain ⟨harch, hplain, hcode⟩ := twin_walks input 0 hsize hneeds haligned
    obtain ⟨found, hfound⟩ := Option.isSome_iff_exists.1 hcode
    have hout := toOption_translate (twin context.tcr.granule vaBits ttbr input) 0 haccepted hregion
    rw [hfound, Option.map_some, toOption_eq_some] at hout
    have hright := (h _ 0 hplain).2
    rw [harch] at hright
    exact hright _ hout
  · exact (walkRight_iff_plain memory vm haccepted hregion hneeds haligned).2

/-- The 4K granule with one table for the low addresses. -/
def contextOf (tsz : ℕ) : Stage1Context := ⟨some 0x1000, none, ⟨tsz, tsz, .size4K⟩⟩

theorem contextOf_accepted : Accepted (contextOf 16) ∧ Accepted (contextOf 25) := by
  constructor
  · intro tsz htsz
    refine ⟨48, ?_⟩
    rcases List.mem_cons.1 htsz with rfl | htsz
    · rfl
    · rw [List.mem_singleton.1 htsz]
      rfl
  · intro tsz htsz
    refine ⟨39, ?_⟩
    rcases List.mem_cons.1 htsz with rfl | htsz
    · rfl
    · rw [List.mem_singleton.1 htsz]
      rfl

def word (v : ℕ) : Vector UInt8 8 :=
  #v[UInt8.ofNat v, UInt8.ofNat (v / 256), 0, 0, 0, 0, 0, 0]

/-- Every entry is a table, and at the last level a page, at 0x1000. -/
def tableMemory : GuestMemory := fun _ _ => .ok (8, word 0x1003)

/-- Every entry is a block at address zero. -/
def blockMemory : GuestMemory := fun _ _ => .ok (8, word 0x441)

/-- With 48 bits of input the walk of 0x2345 is right. -/
theorem walkRight_iff_48_bits : WalkRight tableMemory 1 (contextOf 16) 0x2345 48 0x1000 0x2345 := by
  have hregion : region (contextOf 16) 0x2345 = some (48, some 0x1000, 0x2345) := by decide +kernel
  have hwalk : archWalk tableMemory 1 .size4K 48 0x1000 0x2345 =
      some (3, some ⟨[0x1003, 0x1003, 0x1003], 0x1003⟩) := by decide +kernel
  have haligned : PageAligned .size4K 48 0x1000 := by
    unfold PageAligned
    decide +kernel
  have hneeds : NeedsFirstLevel .size4K 48 := by
    unfold NeedsFirstLevel
    decide
  apply ((walkRight_iff contextOf_accepted.1 hregion).1 haligned tableMemory 1).2
  refine ⟨hneeds, fun hg => ?_, fun l leaf h => ?_⟩
  · cases hg
  · have hleaf := hwalk.symm.trans h
    simp only [Option.some.injEq, Prod.mk.injEq] at hleaf
    rw [← hleaf.2]
    decide

/-- With 39 bits, a block of the table at the register is a gigabyte to the architecture; the code
takes the table for one of level 0 and refuses the block. -/
theorem walk_39_bits_not_right :
    archWalk blockMemory 1 .size4K 39 0x1000 0x2345 = some (1, some ⟨[], 0x441⟩) ∧
    translateArm64Stage1 blockMemory 1 (contextOf 25) 0x2345 = .error (.malformedPageTables "l0"
      "block descriptors are not valid at this level for the selected granule") ∧
    region (contextOf 25) 0x2345 = some (39, some 0x1000, 0x2345) ∧
    ¬ WalkRight blockMemory 1 (contextOf 25) 0x2345 39 0x1000 0x2345 := by
  have hregion : region (contextOf 25) 0x2345 = some (39, some 0x1000, 0x2345) := by decide +kernel
  refine ⟨by decide +kernel, by decide +kernel, hregion, fun h => ?_⟩
  have hneeds := needs_of_walkRight contextOf_accepted.2 hregion h
  revert hneeds
  unfold NeedsFirstLevel
  decide

end AegisHV.Vmi.Arm64
