import AegisHV.Lib.Run
import AegisHV.Proofs.VmiX86
import AegisHV.Spec.VmiCache

/-! The translation cache against the walks it stands for. Every entry holds the page of a walk
that was made under its key, and only an insert adds entries; so hits are right in every run. -/

namespace AegisHV.Vmi.Cache

open Sys X86 List TranslationCache AddressSpaceRoot

/-- The entry holds the page that a walk found for some address of its key. -/
def EntryOk (memory : GuestMemory) (entry : TranslationCacheEntry) : Prop :=
  ∃ mode cr3 gva r, entry.key.mode = modeOf mode ∧ entry.key.root = .ofCr3 cr3 ∧
    translateX86_64 memory entry.key.vm ⟨some cr3⟩ gva mode = .ok r ∧
    r.pageSize = entry.key.pageSize ∧ gva / r.pageSize = entry.key.virtualPage ∧
    TranslationCacheValue.fromTranslation r = .ok entry.value

def EntriesOk (memory : GuestMemory) (cache : TranslationCache) : Prop :=
  ∀ entry ∈ cache.entries, EntryOk memory entry

section

variable {memory : GuestMemory} {cache : TranslationCache} {key : TranslationCacheKey}
  {value : TranslationCacheValue}

variable {entry : TranslationCacheEntry}

theorem mem_replaceFirst {entries : List TranslationCacheEntry}
    (h : entry ∈ replaceFirst key value entries) :
    entry ∈ entries ∨ entry = ⟨key, value⟩ := by
  induction entries with
  | nil => exact Or.inl h
  | cons first rest ih =>
    rw [replaceFirst] at h
    split_ifs at h with hkey
    · rcases mem_cons.1 h with hfirst | hrest
      · right
        rw [hfirst, ← hkey]
      · exact Or.inl (mem_cons_of_mem first hrest)
    · rcases mem_cons.1 h with hfirst | hrest
      · left
        rw [hfirst]
        exact mem_cons_self
      · rcases ih hrest with hmem | hnew
        · exact Or.inl (mem_cons_of_mem first hmem)
        · exact Or.inr hnew

theorem mem_insert (h : entry ∈ (cache.insert key value).entries) :
    entry ∈ cache.entries ∨ entry = ⟨key, value⟩ := by
  unfold TranslationCache.insert at h
  split_ifs at h with hany hfull
  · exact mem_replaceFirst h
  · exact (mem_append.1 h).imp mem_of_mem_drop mem_singleton.1
  · exact (mem_append.1 h).imp_right mem_singleton.1

theorem mem_retainCount {keep : TranslationCacheEntry → Bool} :
    entry ∈ (cache.retainCount keep).2.entries ↔ entry ∈ cache.entries ∧ keep entry = true :=
  mem_filter

variable {vm : VmId} {gva : ℕ}

theorem forGva_eq_ok {mode : TranslationMode} {root : AddressSpaceRoot}
    {pageSize : ℕ} {access : TranslationAccess}
    (h : TranslationCacheKey.forGva vm mode root gva pageSize access = .ok key) :
    key = { vm, mode, root, virtualPage := gva / pageSize, pageSize, access } := by
  obtain ⟨_, -, hkey⟩ := except_bind_ok.1 h
  exact (Except.ok.inj hkey).symm

/-- All that an insert can do: it is refused and changes nothing, or it stores the page. -/
theorem insertTranslationResult_cases (key : TranslationCacheKey)
    (result : Except TranslationError TranslationResult) (cache : TranslationCache) :
    (∃ e, (insertTranslationResult key result).run cache = (.error e, cache) ∧
      (CacheCall.insertTranslationResult key result).insertion = none) ∨
    ∃ r value, result = .ok r ∧ r.pageSize = key.pageSize ∧
      TranslationCacheValue.fromTranslation r = .ok value ∧
      (insertTranslationResult key result).run cache =
        (.ok (), cache.insert key value) := by
  unfold insertTranslationResult
  cases result with
  | error e => exact Or.inl ⟨e, rfl, rfl⟩
  | ok r =>
    rw [Op.run_lift_ok_bind]
    by_cases hsize : r.pageSize = key.pageSize
    · cases hvalue : TranslationCacheValue.fromTranslation r with
      | error e =>
        simp [hsize, hvalue, failIf, Except.mapError, CacheCall.insertion, Except.toOption]
      | ok value =>
        refine Or.inr ⟨r, value, rfl, hsize, hvalue, ?_⟩
        simp [hsize, failIf, Except.mapError]
    · simp [hsize, failIf, CacheCall.insertion]

variable {mode : PagingMode} {cr3 : ℕ}

theorem EntriesOk.insert {pageSize : ℕ} {access : TranslationAccess} (h : EntriesOk memory cache) :
    EntriesOk memory (insertTranslation memory cache vm mode cr3 gva pageSize access).2 := by
  unfold insertTranslation
  cases hkey : TranslationCacheKey.forGva vm (modeOf mode) (.ofCr3 cr3) gva pageSize access with
  | error e => exact h
  | ok key =>
    simp only
    rcases insertTranslationResult_cases key (translateX86_64 memory vm ⟨some cr3⟩ gva mode) cache
      with ⟨e, hrun, -⟩ | ⟨r, value, hr, hsize, hvalue, hrun⟩
    · rw [Op.reply_error hrun]
      exact h
    · rw [Op.reply_ok hrun]
      intro entry hentry
      rcases mem_insert hentry with hold | hnew
      · exact h entry hold
      · have hk := forGva_eq_ok hkey
        subst hk
        subst hnew
        exact ⟨mode, cr3, gva, r, rfl, rfl, hr, hsize, by rw [hsize], hvalue⟩

theorem EntriesOk.retainCount (h : EntriesOk memory cache) (keep : TranslationCacheEntry → Bool) :
    EntriesOk memory (cache.retainCount keep).2 := by
  intro entry hentry
  exact h entry (mem_retainCount.1 hentry).1

theorem EntriesOk.step (h : EntriesOk memory cache) (c : Call) :
    EntriesOk memory (step memory cache c).2 := by
  cases c with
  | insert vm mode cr3 gva pageSize access => exact h.insert
  | invalidateVmid vm => exact h.retainCount _
  | invalidateRoot vm root => exact h.retainCount _
  | invalidateCr3 vm cr3 => exact h.retainCount _
  | invalidateAsid vm asid => exact h.retainCount _
  | flush =>
    intro entry hentry
    cases hentry

/-- In every state of a run each entry holds the page of a walk. -/
theorem run_entriesOk (memory : GuestMemory) {maxEntries : ℕ} (hmake : make maxEntries = .ok cache)
    (cs : List Call) : EntriesOk memory (run (Cache.step memory) cache cs).2 := by
  apply run_inv (fun _ s => EntriesOk memory s)
  · obtain ⟨_, -, hcache⟩ := except_bind_ok.1 hmake
    rw [← Except.ok.inj hcache]
    intro entry hentry
    cases hentry
  · intro _ s c hs
    exact hs.step c

variable {cr3' : ℕ}

/-- The cache keeps more bits of a CR3 than the walker, so its roots tell the walker's. -/
theorem walk_base_of_ofCr3 (h : ofCr3 cr3 = .ofCr3 cr3') :
    cr3 &&& CR3_BASE_MASK = cr3' &&& CR3_BASE_MASK := by
  have hmask : X86_CR3_BASE_MASK &&& CR3_BASE_MASK = CR3_BASE_MASK := by decide
  have hbase := x86Cr3.inj h
  rw [← hmask, ← Nat.and_assoc, hbase, Nat.and_assoc]

theorem translateX86_64_congr (h : cr3 &&& CR3_BASE_MASK = cr3' &&& CR3_BASE_MASK) :
    translateX86_64 memory vm ⟨some cr3⟩ gva mode =
      translateX86_64 memory vm ⟨some cr3'⟩ gva mode := by
  simp only [translateX86_64, okOr, except_ok_bind, h]

/-- A cached page gives each of its addresses what the walk would. -/
theorem toResult_fromTranslation {r : TranslationResult} {value : TranslationCacheValue} {k : ℕ}
    (hvalue : TranslationCacheValue.fromTranslation r = .ok value) (hsize : r.pageSize = 2 ^ k)
    (hk : k ≤ 64) (hgpa : r.gpa < 2 ^ 64) (gva : ℕ) :
    value.toResult gva =
      { r with gpa := r.gpa / r.pageSize * r.pageSize + gva % r.pageSize } := by
  obtain ⟨_, -, hmake⟩ := except_bind_ok.1 hvalue
  rw [← Except.ok.inj hmake]
  simp only [TranslationCacheValue.toResult, hsize, and_complement_mask r.gpa k hgpa hk, or_offset]

theorem lookupResult_eq_some {result : TranslationResult}
    (h : cache.lookupResult key gva = some result) :
    gva / key.pageSize = key.virtualPage ∧ ∃ entry ∈ cache.entries, entry.key = key ∧
      result = entry.value.toResult gva := by
  unfold lookupResult at h
  split_ifs at h with hzero hpage
  obtain ⟨value, hvalue, hresult⟩ := Option.map_eq_some_iff.1 h
  obtain ⟨hlookup, -⟩ := Option.filter_eq_some_iff.1 hvalue
  obtain ⟨entry, hfind, hentry⟩ := Option.map_eq_some_iff.1 hlookup
  have hkey : entry.key = key := by simpa using find?_some hfind
  refine ⟨not_not.1 hpage, entry, mem_of_find?_eq_some hfind, hkey, ?_⟩
  rw [hentry, hresult]

theorem modeOf_injective {mode' : PagingMode} (h : modeOf mode = modeOf mode') :
    mode = mode' := by
  cases mode <;> cases mode' <;> first | rfl | cases h

theorem EntriesOk.hitsRight (h : EntriesOk memory cache) : HitsRight memory cache := by
  intro vm mode cr3 gva₀ pageSize access key gva result hkey hhit
  have hk := forGva_eq_ok hkey
  obtain ⟨hpage, entry, hmem, hentry, hresult⟩ := lookupResult_eq_some hhit
  obtain ⟨mode', cr3', gva', r, hmode, hroot, htranslate, hsize, hvirtual, hvalue⟩ := h entry hmem
  rw [hentry] at hmode hroot htranslate hsize hvirtual
  subst hk
  obtain ⟨-, _, leaf, -, hleaf, hr⟩ := translateX86_64_eq_ok.1 htranslate
  have hshift := shift_of_walked hleaf
  have hgpa : r.gpa < 2 ^ 64 := by
    rw [hr]
    exact lt_trans (leafResult_gpa_lt (by omega)) (by norm_num)
  have hpow : r.pageSize = 2 ^ leaf.1.shift := by rw [hr]; rfl
  -- the walk of the key and the walk of the entry start at the same table
  have hmode' := modeOf_injective hmode
  rw [translateX86_64_congr (walk_base_of_ofCr3 hroot), hmode', hresult,
    toResult_fromTranslation hvalue hpow (by omega) hgpa]
  apply translateX86_64_uniform htranslate
  rw [hvirtual, hsize]
  exact hpage

/-- The CR3 of an entry whose walk starts at the table of another has the same root in the cache
exactly if it agrees with the other in the high bits too. -/
theorem ofCr3_eq_iff (h : cr3 < 2 ^ 64) (hwalk : cr3' % 2 ^ 52 / 2 ^ 12 = cr3 % 2 ^ 52 / 2 ^ 12) :
    x86Cr3 (cr3' / 2 ^ 12 * 2 ^ 12) = .ofCr3 cr3 ↔
      cr3' / 2 ^ 52 = cr3 / 2 ^ 52 := by
  have hcache : cr3 &&& X86_CR3_BASE_MASK = cr3 / 2 ^ 12 * 2 ^ 12 :=
    and_complement_mask cr3 12 h (by norm_num)
  rw [ofCr3, x86Cr3.injEq]
  omega

theorem walkRoot_eq_iff {base : ℕ} : walkRoot (.x86Cr3 base) = some (cr3 &&& CR3_BASE_MASK) ↔
    base % 2 ^ 52 / 2 ^ 12 = cr3 % 2 ^ 52 / 2 ^ 12 := by
  have hwalk : ∀ v, v &&& CR3_BASE_MASK = v % 2 ^ 52 / 2 ^ 12 * 2 ^ 12 := by
    intro v
    exact and_field_mask (m := 52) (n := 12) v (by norm_num)
  rw [walkRoot, Option.some.injEq, hwalk, hwalk]
  omega

/-- The base that the cache keeps of a CR3 is a page address. -/
theorem EntryOk.base (h : EntryOk memory entry) {base : ℕ}
    (hroot : entry.key.root = .x86Cr3 base) : base / 2 ^ 12 * 2 ^ 12 = base := by
  obtain ⟨_, cr3, _, _, -, hcr3, -⟩ := h
  have hbase : base = cr3 &&& X86_CR3_BASE_MASK :=
    x86Cr3.inj (hroot.symm.trans hcr3)
  have hlt : base < 2 ^ 64 := by
    rw [hbase]
    exact lt_of_le_of_lt Nat.and_le_right (by decide)
  have hmask : base &&& X86_CR3_BASE_MASK = base := by
    rw [hbase, Nat.and_assoc, Nat.and_self]
  rw [← and_complement_mask base 12 hlt (by norm_num)]
  exact hmask

/-- An invalidation clears the root exactly if no twin of the CR3 was there before. -/
theorem cleared_iff_noTwin (h : EntriesOk memory cache) (vm : VmId) (hcr3 : cr3 < 2 ^ 64) :
    Cleared (cache.invalidateCr3 vm cr3).2 vm cr3 ↔ NoTwin cache vm cr3 := by
  constructor
  · intro hcleared entry hentry hvm base hroot hwalk
    have haligned := (h entry hentry).base hroot
    by_contra hhigh
    have hkept : entry ∈ (cache.invalidateCr3 vm cr3).2.entries := by
      apply mem_retainCount.2
      refine ⟨hentry, ?_⟩
      rw [decide_eq_true_iff]
      right
      rw [hroot, ← haligned]
      exact fun heq => hhigh ((ofCr3_eq_iff hcr3 hwalk).1 heq)
    apply hcleared entry hkept hvm
    rw [hroot]
    exact walkRoot_eq_iff.2 hwalk
  · intro hnoTwin entry hentry hvm hwalk
    obtain ⟨hmem, hkeep⟩ := mem_retainCount.1 hentry
    cases hroot : entry.key.root with
    | x86Cr3 base =>
      have haligned := (h entry hmem).base hroot
      rw [hroot] at hwalk
      have hbits := walkRoot_eq_iff.1 hwalk
      have hsame := (ofCr3_eq_iff hcr3 hbits).2 (hnoTwin entry hmem hvm base hroot hbits)
      rw [haligned] at hsame
      simp [hvm, hroot, hsame] at hkeep
    | arm64Ttbr0 base asid => simp [hroot, walkRoot] at hwalk
    | arm64Ttbr1 base asid => simp [hroot, walkRoot] at hwalk
    | explicit id asid => simp [hroot, walkRoot] at hwalk

end

/-- In every state that inserts and invalidations reach, a hit is what the walk would return, and
an invalidation by CR3 clears the root of the walk exactly if no twin of the CR3 is cached. -/
theorem run_hits_and_clears (memory : GuestMemory) {maxEntries : ℕ} {cache : TranslationCache}
    (hmake : make maxEntries = .ok cache) (cs : List Call) :
    HitsRight memory (run (Cache.step memory) cache cs).2 ∧
    ∀ vm cr3, cr3 < 2 ^ 64 →
      (Cleared ((run (Cache.step memory) cache cs).2.invalidateCr3 vm cr3).2 vm cr3 ↔
        NoTwin (run (Cache.step memory) cache cs).2 vm cr3) := by
  have hok := run_entriesOk memory hmake cs
  refine ⟨hok.hitsRight, ?_⟩
  intro vm cr3 hcr3
  exact cleared_iff_noTwin hok vm hcr3

/-- The page of 0x5678 is cached for one VM under a CR3 of the table at 0x1000. -/
def cachePage (cr3 : ℕ) : Call := .insert 1 .fourLevel cr3 0x5678 4096 ⟨false, false, false⟩

theorem run_hits_and_clears_page :
    Cleared ((run (Cache.step loopMemory) ⟨4, []⟩ [cachePage 0x1000]).2.invalidateCr3 1 0x1000).2
      1 0x1000 := by
  have hroots : ∀ entry ∈ (run (Cache.step loopMemory) ⟨4, []⟩ [cachePage 0x1000]).2.entries,
      entry.key.root = .x86Cr3 0x1000 := by decide +kernel
  have hmake : make 4 = .ok ⟨4, []⟩ := rfl
  apply ((run_hits_and_clears loopMemory hmake [cachePage 0x1000]).2 1 0x1000 (by norm_num)).2
  intro entry hentry _ base hbase _
  rw [hroots entry hentry, x86Cr3.injEq] at hbase
  rw [← hbase]

/-- A CR3 with the address-masking bit 61 set is walked from the same table, but its page survives
the invalidation of the table. -/
theorem masked_cr3_not_cleared :
    ¬ Cleared ((run (Cache.step loopMemory) ⟨4, []⟩
      [cachePage 0x2000000000001000]).2.invalidateCr3 1 0x1000).2 1 0x1000 := by
  unfold Cleared
  decide +kernel

end AegisHV.Vmi.Cache
