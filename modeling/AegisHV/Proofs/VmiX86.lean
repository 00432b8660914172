import AegisHV.Spec.VmiX86

/-! The x86-64 walkers as walks through radix tables. Each part of the code is the walk of its
levels, up to the errors; the results are then read off the entries of the walk. -/

namespace AegisHV.Vmi.X86

open Sys

/-- What the entries of a walk give an address. -/
def leafResult (gva : ℕ) (leaf : Level × List ℕ) : TranslationResult where
  gpa := leaf.2.getLast?.getD 0 % 2 ^ 52 / 2 ^ leaf.1.shift * 2 ^ leaf.1.shift +
    gva % 2 ^ leaf.1.shift
  readable := true
  writable := leaf.2.all (·.testBit 1)
  executable := leaf.2.all fun entry => !entry.testBit 63
  user := leaf.2.all (·.testBit 2)
  pageSize := 2 ^ leaf.1.shift

/-- The permissions that a list of entries leaves. -/
def permsOf (entries : List ℕ) : PagePermissions := entries.foldl .apply {}

theorem permsOf_concat (entries : List ℕ) (entry : ℕ) :
    permsOf (entries ++ [entry]) = (permsOf entries).apply entry := by
  rw [permsOf, List.foldl_append]
  rfl

theorem permsOf_eq (entries : List ℕ) : permsOf entries =
    { writable := entries.all (·.testBit 1)
      user := entries.all (·.testBit 2)
      executable := entries.all fun entry => !entry.testBit 63 } := by
  induction entries using List.reverseRecOn with
  | nil => rfl
  | append_singleton entries entry ih =>
    have hw : (entry &&& WRITABLE ≠ 0) = (entry.testBit 1 = true) :=
      propext (and_two_pow_ne_zero entry 1)
    have hu : (entry &&& USER ≠ 0) = (entry.testBit 2 = true) :=
      propext (and_two_pow_ne_zero entry 2)
    have hx : (entry &&& NX = 0) = (entry.testBit 63 = false) :=
      propext (and_two_pow_eq_zero entry 63)
    rw [permsOf_concat, ih]
    simp [PagePermissions.apply, hw, hu, hx]

section

variable {memory : GuestMemory} {vm : VmId} {gva base : ℕ} {entries : List ℕ}

theorem toOption_walkEntry (index : ℕ) (name : String) :
    (walkEntry memory vm gva base index name).toOption =
      (entryAt memory vm base index).bind fun entry =>
        if entry &&& PRESENT = 0 ∨ entry &&& RESERVED_HIGH_BITS ≠ 0 then none else some entry := by
  simp only [walkEntry, toOption_bind, toOption_readTableEntry, validatePresent,
    rejectReservedHighBits, toOption_failIf]
  congr 1
  funext entry
  by_cases hp : entry &&& PRESENT = 0
  · simp [hp]
  · by_cases hr : entry &&& RESERVED_HIGH_BITS = 0
    · simp only [beq_iff_eq, bne_iff_ne, ne_eq, hp, hr, not_true_eq_false, or_self, if_false]
      rfl
    · simp [hp, hr]

variable {l : Level} {entry : ℕ}

theorem high_of_reserved (h : entry &&& l.reserved entry = 0) :
    entry &&& RESERVED_HIGH_BITS = 0 := by
  have hor : ∀ low, entry &&& (RESERVED_HIGH_BITS ||| low) = 0 →
      entry &&& RESERVED_HIGH_BITS = 0 := by
    intro low hlow
    rw [Nat.and_or_distrib_left] at hlow
    exact (Nat.or_eq_zero_iff.1 hlow).1
  cases l with
  | pml5 => exact hor _ h
  | pml4 => exact hor _ h
  | pt => exact h
  | pdpt =>
    rw [Level.reserved] at h
    split_ifs at h with hlarge
    · exact hor _ h
    · exact h
  | pd =>
    rw [Level.reserved] at h
    split_ifs at h with hlarge
    · exact hor _ h
    · exact h

/-- What is left of a level once its entry is present and has no reserved high bits. -/
def levelRest (memory : GuestMemory) (vm : VmId) (gva : ℕ) (entries : List ℕ) (l : Level)
    (ls : List Level) (entry : ℕ) : Option TranslationResult :=
  if entry &&& l.reserved entry ≠ 0 then none
  else if l.isLeaf entry then some (leafResult gva (l, entries ++ [entry]))
  else (radix.walk (step memory vm) ls (entry &&& TABLE_BASE_MASK, entries ++ [entry]) gva).map
    (leafResult gva)

variable {ls : List Level}

theorem toOption_level {index : ℕ} {name : String}
    {f : ℕ → Except TranslationError TranslationResult} (hindex : index = radix.index l gva)
    (hf : ∀ entry, entry &&& RESERVED_HIGH_BITS = 0 →
      (f entry).toOption = levelRest memory vm gva entries l ls entry) :
    (walkEntry memory vm gva base index name >>= f).toOption =
      (radix.walk (step memory vm) (l :: ls) (base, entries) gva).map (leafResult gva) := by
  rw [toOption_bind, toOption_walkEntry, hindex, Radix.walk, step]
  cases entryAt memory vm base (radix.index l gva) with
  | none => rfl
  | some entry =>
    by_cases hp : entry &&& PRESENT = 0
    · simp [hp]
    by_cases hr : entry &&& l.reserved entry = 0
    · have hhigh := high_of_reserved hr
      simp only [hp, hhigh, hr, ne_eq, not_true_eq_false, or_self, if_false, Option.bind_some,
        hf entry hhigh, levelRest]
      cases l.isLeaf entry <;> rfl
    · by_cases hhigh : entry &&& RESERVED_HIGH_BITS = 0
      · simp [hp, hr, hhigh, hf entry hhigh, levelRest]
      · simp [hp, hr, hhigh]

theorem index_eq (l : Level) : (gva >>> l.shift) &&& 0x1ff = radix.index l gva := by
  have hmask : 0x1ff = 2 ^ 9 - 1 := rfl
  rw [hmask, Nat.and_two_pow_sub_one_eq_mod, Nat.shiftRight_eq_div_pow]
  rfl

theorem result_eq (l : Level) (entry : ℕ) (h : l.shift ≤ 52) :
    result ((entry &&& (2 ^ 52 - 2 ^ l.shift)) ||| (gva &&& (2 ^ l.shift - 1))) (2 ^ l.shift)
      ((permsOf entries).apply entry) = leafResult gva (l, entries ++ [entry]) := by
  rw [and_field_mask entry h, or_offset, ← permsOf_concat, permsOf_eq]
  simp [result, leafResult]

theorem toOption_walkPt (base : ℕ) :
    (walkPt memory vm gva base (permsOf entries)).toOption =
      (radix.walk (step memory vm) [.pt] (base, entries) gva).map (leafResult gva) := by
  apply toOption_level (index_eq .pt)
  intro entry hhigh
  have hreserved : entry &&& Level.pt.reserved entry = 0 := hhigh
  have hleaf : Level.pt.isLeaf entry = true := rfl
  simp only [levelRest, hreserved, hleaf]
  exact congrArg some (result_eq .pt entry (by decide))

/-- The reserved bits of a level that are left to check after the high ones. -/
theorem and_reserved (hhigh : entry &&& RESERVED_HIGH_BITS = 0) (low : ℕ) :
    entry &&& (RESERVED_HIGH_BITS ||| low) = entry &&& low := by
  rw [Nat.and_or_distrib_left, hhigh, Nat.zero_or]

/-- A level at which a page may end: the large-page bit decides. -/
theorem toOption_large {low : ℕ} {name : String}
    {page : TranslationResult} {next : Except TranslationError TranslationResult}
    (hhigh : entry &&& RESERVED_HIGH_BITS = 0)
    (hreserved : l.reserved entry =
      if entry &&& LARGE_PAGE ≠ 0 then RESERVED_HIGH_BITS ||| low else RESERVED_HIGH_BITS)
    (hleaf : l.isLeaf entry = decide (entry &&& LARGE_PAGE ≠ 0))
    (hpage : page = leafResult gva (l, entries ++ [entry]))
    (hnext : next.toOption = (radix.walk (step memory vm) ls
      (entry &&& TABLE_BASE_MASK, entries ++ [entry]) gva).map (leafResult gva)) :
    (if entry &&& LARGE_PAGE ≠ 0 then do
        rejectReservedLargePageBits name entry low
        return page
      else next : Except TranslationError TranslationResult).toOption =
        levelRest memory vm gva entries l ls entry := by
  rw [levelRest, hreserved, hleaf]
  by_cases hlarge : entry &&& LARGE_PAGE = 0
  · simp [hlarge, hhigh, hnext]
  · simp only [hlarge, ne_eq, not_false_eq_true, if_true, decide_true, toOption_bind,
      rejectReservedLargePageBits, toOption_failIf, and_reserved hhigh]
    by_cases hlow : entry &&& low = 0
    · simp only [hlow, hpage]
      rfl
    · simp [hlow]

theorem toOption_walkPd (base : ℕ) :
    (walkPd memory vm gva base (permsOf entries)).toOption =
      (radix.walk (step memory vm) [.pd, .pt] (base, entries) gva).map (leafResult gva) := by
  apply toOption_level (index_eq .pd)
  intro entry hhigh
  apply toOption_large hhigh rfl rfl (result_eq .pd entry (by decide))
  rw [← permsOf_concat]
  exact toOption_walkPt _

theorem toOption_walkPdpt (base : ℕ) :
    (walkPdpt memory vm gva base (permsOf entries)).toOption =
      (radix.walk (step memory vm) [.pdpt, .pd, .pt] (base, entries) gva).map
        (leafResult gva) := by
  apply toOption_level (index_eq .pdpt)
  intro entry hhigh
  apply toOption_large hhigh rfl rfl (result_eq .pdpt entry (by decide))
  rw [← permsOf_concat]
  exact toOption_walkPd _

/-- A level at which no page ends: the large-page bit is reserved. -/
theorem toOption_table {e : TranslationError} {next : Except TranslationError TranslationResult}
    (hhigh : entry &&& RESERVED_HIGH_BITS = 0)
    (hreserved : l.reserved entry = RESERVED_HIGH_BITS ||| LARGE_PAGE)
    (hleaf : l.isLeaf entry = false)
    (hnext : next.toOption = (radix.walk (step memory vm) ls
      (entry &&& TABLE_BASE_MASK, entries ++ [entry]) gva).map (leafResult gva)) :
    (do failIf (entry &&& LARGE_PAGE != 0) e
        next : Except TranslationError TranslationResult).toOption =
      levelRest memory vm gva entries l ls entry := by
  rw [levelRest, hreserved, hleaf, and_reserved hhigh, toOption_bind, toOption_failIf]
  by_cases hlarge : entry &&& LARGE_PAGE = 0
  · simp [hlarge, hnext]
  · simp [hlarge]

theorem toOption_walkPml4 (base : ℕ) :
    (walkPml4 memory vm gva base (permsOf entries)).toOption =
      (radix.walk (step memory vm) [.pml4, .pdpt, .pd, .pt] (base, entries) gva).map
        (leafResult gva) := by
  apply toOption_level (index_eq .pml4)
  intro entry hhigh
  apply toOption_table hhigh rfl rfl
  rw [← permsOf_concat]
  exact toOption_walkPdpt _

theorem toOption_walkPml5 (base : ℕ) :
    (walkPml5 memory vm gva base (permsOf entries)).toOption =
      (radix.walk (step memory vm) [.pml5, .pml4, .pdpt, .pd, .pt] (base, entries) gva).map
        (leafResult gva) := by
  apply toOption_level (index_eq .pml5)
  intro entry hhigh
  apply toOption_table hhigh rfl rfl
  rw [← permsOf_concat]
  exact toOption_walkPml4 _

/-- The translation of a canonical address is what the walk from the root finds. -/
theorem toOption_translateX86_64 (regs : GuestRegisters) (mode : PagingMode) :
    (translateX86_64 memory vm regs gva mode).toOption =
      if isCanonical gva mode then regs.cr3OrTtbr.bind fun cr3 =>
        (walked memory vm mode cr3 gva).map (leafResult gva)
      else none := by
  rw [translateX86_64, toOption_bind, toOption_failIf]
  cases isCanonical gva mode with
  | false => rfl
  | true =>
    simp only [Bool.not_true, Bool.false_eq_true, if_false, if_true, Option.bind_some,
      toOption_bind, toOption_okOr]
    congr 1
    funext cr3
    cases mode with
    | fourLevel =>
      have hroot : (walkPml4 memory vm gva (cr3 &&& CR3_BASE_MASK) (permsOf [])).toOption = _ :=
        toOption_walkPml4 _
      exact hroot
    | la57 =>
      have hroot : (walkPml5 memory vm gva (cr3 &&& CR3_BASE_MASK) (permsOf [])).toOption = _ :=
        toOption_walkPml5 _
      exact hroot

theorem translateX86_64_eq_ok {regs : GuestRegisters} {mode : PagingMode}
    {r : TranslationResult} : translateX86_64 memory vm regs gva mode = .ok r ↔
      isCanonical gva mode = true ∧ ∃ cr3 leaf, regs.cr3OrTtbr = some cr3 ∧
        walked memory vm mode cr3 gva = some leaf ∧ r = leafResult gva leaf := by
  rw [← toOption_eq_some, toOption_translateX86_64]
  cases isCanonical gva mode with
  | false => simp
  | true =>
    simp only [if_true, true_and, Option.bind_eq_some_iff, Option.map_eq_some_iff]
    constructor
    · intro ⟨cr3, hcr3, leaf, hleaf, hr⟩
      exact ⟨cr3, leaf, hcr3, hleaf, hr.symm⟩
    · intro ⟨cr3, leaf, hcr3, hleaf, hr⟩
      exact ⟨cr3, hcr3, leaf, hleaf, hr.symm⟩

end

theorem isCanonical_of_div_eq {gva gva' k : ℕ} (hk : k ≤ 47) (h : gva' / 2 ^ k = gva / 2 ^ k)
    (mode : PagingMode) : isCanonical gva' mode = isCanonical gva mode := by
  have hshift : ∀ n, k ≤ n → gva' >>> n = gva >>> n := by
    intro n hn
    have hdiv : ∀ a, a / 2 ^ n = a / 2 ^ k / 2 ^ (n - k) := by
      intro a
      rw [Nat.div_div_eq_div_mul, ← pow_add, Nat.add_sub_cancel' hn]
    rw [Nat.shiftRight_eq_div_pow, Nat.shiftRight_eq_div_pow, hdiv gva', hdiv gva, h]
  cases mode with
  | fourLevel => simp only [isCanonical, isCanonicalWithSignBit, hshift 47 hk, hshift 48 (by omega)]
  | la57 =>
    simp only [isCanonical, isCanonicalWithSignBit, hshift 56 (by omega), hshift 57 (by omega)]

theorem levels_pairwise (mode : PagingMode) :
    (levels mode).Pairwise fun a b => radix.shift b ≤ radix.shift a := by
  cases mode <;> decide

section

variable {memory : GuestMemory} {vm : VmId} {mode : PagingMode} {cr3 gva gva' : ℕ}
  {leaf : Level × List ℕ}

theorem isLeaf_of_step {l : Level} {s : ℕ × List ℕ} {index : ℕ} {entries : List ℕ}
    (h : step memory vm l s index = some (.inr entries)) : ∃ entry, l.isLeaf entry = true := by
  obtain ⟨entry, -, hentry⟩ := Option.bind_eq_some_iff.1 h
  split_ifs at hentry with hbad hleaf
  · exact ⟨entry, hleaf⟩
  · cases hentry

/-- A page ends at one of the last three levels. -/
theorem shift_of_walked (h : walked memory vm mode cr3 gva = some leaf) : leaf.1.shift ≤ 30 := by
  obtain ⟨-, s, hstep⟩ := Radix.leaf_of_walk h
  obtain ⟨entry, hleaf⟩ := isLeaf_of_step hstep
  cases hl : leaf.1 with
  | pml5 =>
    rw [hl] at hleaf
    cases hleaf
  | pml4 =>
    rw [hl] at hleaf
    cases hleaf
  | pdpt => decide
  | pd => decide
  | pt => decide

theorem leafResult_uniform (leaf : Level × List ℕ) : leafResult gva' leaf =
    { leafResult gva leaf with
      gpa := (leafResult gva leaf).gpa / (leafResult gva leaf).pageSize *
        (leafResult gva leaf).pageSize + gva' % (leafResult gva leaf).pageSize } := by
  have hpos := Nat.two_pow_pos leaf.1.shift
  have hbase : ∀ q, (q * 2 ^ leaf.1.shift + gva % 2 ^ leaf.1.shift) / 2 ^ leaf.1.shift = q := by
    intro q
    rw [Nat.mul_comm q, Nat.mul_add_div hpos, Nat.div_eq_of_lt (Nat.mod_lt _ hpos), Nat.add_zero]
  simp only [leafResult, hbase]

theorem leafResult_gpa_lt (h : leaf.1.shift ≤ 52) : (leafResult gva leaf).gpa < 2 ^ 52 := by
  have hpos := Nat.two_pow_pos leaf.1.shift
  have hmod := Nat.mod_lt gva hpos
  have hpow : 2 ^ 52 = 2 ^ (52 - leaf.1.shift) * 2 ^ leaf.1.shift := by
    rw [← pow_add, Nat.sub_add_cancel h]
  have hdiv : leaf.2.getLast?.getD 0 % 2 ^ 52 / 2 ^ leaf.1.shift < 2 ^ (52 - leaf.1.shift) := by
    apply Nat.div_lt_of_lt_mul
    rw [Nat.mul_comm, ← hpow]
    exact Nat.mod_lt _ (by norm_num)
  calc (leafResult gva leaf).gpa
      < leaf.2.getLast?.getD 0 % 2 ^ 52 / 2 ^ leaf.1.shift * 2 ^ leaf.1.shift +
          2 ^ leaf.1.shift := Nat.add_lt_add_left hmod _
    _ = (leaf.2.getLast?.getD 0 % 2 ^ 52 / 2 ^ leaf.1.shift + 1) * 2 ^ leaf.1.shift := by ring
    _ ≤ 2 ^ (52 - leaf.1.shift) * 2 ^ leaf.1.shift := Nat.mul_le_mul_right _ hdiv
    _ = 2 ^ 52 := hpow.symm

theorem translateX86_64_uniform {regs : GuestRegisters} {r : TranslationResult}
    (h : translateX86_64 memory vm regs gva mode = .ok r)
    (hpage : gva' / r.pageSize = gva / r.pageSize) :
    translateX86_64 memory vm regs gva' mode =
      .ok { r with gpa := r.gpa / r.pageSize * r.pageSize + gva' % r.pageSize } := by
  obtain ⟨hcanonical, cr3, leaf, hcr3, hleaf, rfl⟩ := translateX86_64_eq_ok.1 h
  have hshift := shift_of_walked hleaf
  apply translateX86_64_eq_ok.2
  refine ⟨?_, cr3, leaf, hcr3, ?_, (leafResult_uniform leaf).symm⟩
  · rw [isCanonical_of_div_eq (by omega) hpage, hcanonical]
  · exact Radix.walk_uniform (levels_pairwise mode) hleaf hpage

/-- The lower half of the 48-bit addresses is canonical in both modes. -/
theorem isCanonical_of_lt (h : gva < 2 ^ 47) (mode : PagingMode) : isCanonical gva mode = true := by
  have hzero : gva / 2 ^ 47 = 0 := Nat.div_eq_of_lt h
  rw [isCanonical_of_div_eq le_rfl (hzero.trans (Nat.zero_div _).symm)]
  cases mode <;> decide

theorem pml5Index_of_lt (h : gva < 2 ^ 47) : pml5Index gva = 0 := by
  rw [pml5Index, Nat.shiftRight_eq_div_pow, Nat.div_eq_of_lt (by omega), Nat.zero_and]

/-- A PML5 entry that takes no right away. -/
structure Transparent (entry : ℕ) : Prop where
  present : entry.testBit 0 = true
  writable : entry.testBit 1 = true
  user : entry.testBit 2 = true
  executable : entry.testBit 63 = false
  notLarge : entry.testBit 7 = false
  notReserved : entry &&& RESERVED_HIGH_BITS = 0

theorem walkPml5_transparent {base entry : ℕ} (hentry : Transparent entry) (h : gva < 2 ^ 47)
    (hread : readTableEntry memory vm base 0 "pml5e" = .ok entry) :
    walkPml5 memory vm gva base {} = walkPml4 memory vm gva (entry &&& TABLE_BASE_MASK) {} := by
  have hpresent : validatePresent "pml5e" entry gva = .ok () := by
    have hbit : entry &&& PRESENT ≠ 0 := (and_two_pow_ne_zero entry 0).2 hentry.present
    apply failIf_eq_ok.2
    simp [hbit]
  have hhigh : rejectReservedHighBits "pml5e" entry = .ok () := by
    apply failIf_eq_ok.2
    simp [hentry.notReserved]
  have hlarge : (entry &&& LARGE_PAGE != 0) = false := by
    have hbit : entry &&& LARGE_PAGE = 0 := (and_two_pow_eq_zero entry 7).2 hentry.notLarge
    simp [hbit]
  have hperms : PagePermissions.apply {} entry = {} := by
    have hperms := permsOf_eq [entry]
    simp only [List.all_cons, List.all_nil, Bool.and_true, hentry.writable, hentry.user,
      hentry.executable, Bool.not_false] at hperms
    exact hperms
  have hwalk : walkEntry memory vm gva base (pml5Index gva) "pml5e" = .ok entry := by
    rw [walkEntry, pml5Index_of_lt h, hread, except_ok_bind, hpresent, hhigh]
    rfl
  rw [walkPml5, hwalk, except_ok_bind, hlarge, hperms]
  rfl

theorem translateX86_64_la57 {regs regs' : GuestRegisters} {cr3' entry : ℕ}
    (hcr3 : regs.cr3OrTtbr = some cr3) (hcr3' : regs'.cr3OrTtbr = some cr3')
    (hread : readTableEntry memory vm (cr3 &&& CR3_BASE_MASK) 0 "pml5e" = .ok entry)
    (hentry : Transparent entry) (hroot : entry &&& TABLE_BASE_MASK = cr3' &&& CR3_BASE_MASK)
    (h : gva < 2 ^ 47) :
    translateX86_64 memory vm regs gva .la57 = translateX86_64 memory vm regs' gva .fourLevel := by
  simp only [translateX86_64, isCanonical_of_lt h, hcr3, hcr3', okOr, except_ok_bind, failIf,
    walkPml5_transparent hentry h hread, hroot]

end

/-- What a translation promises: the whole page translates alike, the rights are those of all
entries of the walk, the address fits the physical space, and a transparent fifth level changes
nothing. -/
theorem translateX86_64_spec (memory : GuestMemory) (vm : VmId) :
    (∀ regs mode gva r, translateX86_64 memory vm regs gva mode = .ok r →
      (∀ gva', gva' / r.pageSize = gva / r.pageSize →
        translateX86_64 memory vm regs gva' mode =
          .ok { r with gpa := r.gpa / r.pageSize * r.pageSize + gva' % r.pageSize }) ∧
      (∃ cr3 l entries, regs.cr3OrTtbr = some cr3 ∧
        walked memory vm mode cr3 gva = some (l, entries) ∧
        r.pageSize = 2 ^ l.shift ∧
        r.writable = entries.all (·.testBit 1) ∧ r.user = entries.all (·.testBit 2) ∧
        r.executable = entries.all fun entry => !entry.testBit 63) ∧
      r.gpa < 2 ^ 52) ∧
    ∀ regs regs' cr3 cr3' entry gva, regs.cr3OrTtbr = some cr3 → regs'.cr3OrTtbr = some cr3' →
      readTableEntry memory vm (cr3 &&& CR3_BASE_MASK) 0 "pml5e" = .ok entry →
      Transparent entry → entry &&& TABLE_BASE_MASK = cr3' &&& CR3_BASE_MASK → gva < 2 ^ 47 →
        translateX86_64 memory vm regs gva .la57 =
          translateX86_64 memory vm regs' gva .fourLevel := by
  constructor
  · intro regs mode gva r h
    obtain ⟨-, cr3, leaf, hcr3, hleaf, hr⟩ := translateX86_64_eq_ok.1 h
    refine ⟨fun gva' hpage => translateX86_64_uniform h hpage, ?_, ?_⟩
    · exact ⟨cr3, leaf.1, leaf.2, hcr3, hleaf, by rw [hr]; rfl, by rw [hr]; rfl, by rw [hr]; rfl,
        by rw [hr]; rfl⟩
    · rw [hr]
      exact leafResult_gpa_lt (le_trans (shift_of_walked hleaf) (by norm_num))
  · intro regs regs' cr3 cr3' entry gva hcr3 hcr3' hread hentry hroot h
    exact translateX86_64_la57 hcr3 hcr3' hread hentry hroot h

/-- A memory in which every entry is the same writable user page at 0x1000. -/
def loopMemory : GuestMemory := fun _ _ => .ok (8, #v[0x07, 0x10, 0, 0, 0, 0, 0, 0])

/-- Its address 0x5678 translates, and with it the rest of the page. -/
theorem translateX86_64_spec_loop :
    translateX86_64 loopMemory 1 ⟨some 0x1000⟩ 0x5678 .fourLevel =
      .ok ⟨0x1678, true, true, true, true, 4096⟩ ∧
    translateX86_64 loopMemory 1 ⟨some 0x1000⟩ 0x5001 .fourLevel =
      .ok ⟨0x1001, true, true, true, true, 4096⟩ ∧
    translateX86_64 loopMemory 1 ⟨some 0x2000⟩ 0x5678 .la57 =
      translateX86_64 loopMemory 1 ⟨some 0x1000⟩ 0x5678 .fourLevel := by
  have h : translateX86_64 loopMemory 1 ⟨some 0x1000⟩ 0x5678 .fourLevel =
      .ok ⟨0x1678, true, true, true, true, 4096⟩ := by decide +kernel
  obtain ⟨hpage, hla57⟩ := translateX86_64_spec loopMemory 1
  refine ⟨h, (hpage _ _ _ _ h).1 0x5001 (by decide), ?_⟩
  exact hla57 _ _ 0x2000 0x1000 0x1007 _ rfl rfl (by decide +kernel)
    ⟨by decide, by decide, by decide, by decide, by decide, by decide⟩ (by decide) (by norm_num)

end AegisHV.Vmi.X86
