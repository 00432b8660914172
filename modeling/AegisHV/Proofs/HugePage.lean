import AegisHV.Spec.HugePage

/-! Splitting a huge page and merging its children are inverse to each other, but for pages that
end at the top of the address space. -/

namespace AegisHV
open Sys List

namespace TranslationMapping

/-- Where the mapping takes an address, and with which permissions. -/
def translate (m : TranslationMapping) (address : ℕ) : Option (ℕ × TranslationPermissions) :=
  if m.guestPhysical.raw ≤ address ∧ address < m.guestPhysical.raw + m.pageSize.bytes then
    some (m.hostPhysical.raw + (address - m.guestPhysical.raw), m.permissions)
  else none

/-- Where a list of mappings takes an address. -/
def translateAll (ms : List TranslationMapping) (address : ℕ) :
    Option (ℕ × TranslationPermissions) :=
  ms.findSome? fun m => m.translate address

/-- Mappings of one size and one set of permissions, each where the one before ends. -/
def Tiles (size : TranslationPageSize) (permissions : TranslationPermissions) :
    ℕ → ℕ → List TranslationMapping → Prop
  | _, _, [] => True
  | guest, host, m :: ms => m.pageSize = size ∧ m.permissions = permissions ∧
    m.guestPhysical.raw = guest ∧ m.hostPhysical.raw = host ∧
    Tiles size permissions (guest + size.bytes) (host + size.bytes) ms

section

variable {size : TranslationPageSize} {permissions : TranslationPermissions}

theorem bytes_pos (size : TranslationPageSize) : 4096 ≤ size.bytes := by
  cases size <;> decide

theorem translateAll_tiles {ms : List TranslationMapping} (address : ℕ) :
    ∀ guest host, Tiles size permissions guest host ms →
      translateAll ms address =
        if guest ≤ address ∧ address < guest + ms.length * size.bytes then
          some (host + (address - guest), permissions)
        else none := by
  induction ms with
  | nil =>
    intro guest host _
    rw [length_nil, if_neg (by omega)]
    rfl
  | cons m ms ih =>
    rintro guest host ⟨hsize, hpermissions, hguest, hhost, hrest⟩
    have hlen : (m :: ms).length * size.bytes = size.bytes + ms.length * size.bytes := by
      rw [length_cons, Nat.succ_mul, Nat.add_comm]
    rw [translateAll, findSome?_cons, translate, hsize, hpermissions, hguest, hhost]
    by_cases hin : guest ≤ address ∧ address < guest + size.bytes
    · rw [if_pos hin, if_pos (by omega)]
    · rw [if_neg hin]
      have hnext := ih (guest + size.bytes) (host + size.bytes) hrest
      rw [translateAll] at hnext
      rw [hnext]
      by_cases hafter : guest + size.bytes ≤ address ∧
          address < guest + size.bytes + ms.length * size.bytes
      · rw [if_pos hafter, if_pos (by omega),
          show host + size.bytes + (address - (guest + size.bytes)) = host + (address - guest) by
            omega]
      · rw [if_neg hafter, if_neg (by omega)]

/-- There are mappings that tile a range within the address space. -/
theorem exists_tiles (size : TranslationPageSize) (permissions : TranslationPermissions) (n : ℕ) :
    ∀ guest host, guest + n * size.bytes ≤ 2 ^ 64 → host + n * size.bytes ≤ 2 ^ 64 →
      ∃ ms : List TranslationMapping, Tiles size permissions guest host ms ∧ ms.length = n := by
  have hpos := bytes_pos size
  induction n with
  | zero => exact fun guest host _ _ => ⟨[], trivial, rfl⟩
  | succ n ih =>
    intro guest host hguest hhost
    rw [Nat.succ_mul] at hguest hhost
    obtain ⟨ms, htiles, hlen⟩ := ih (guest + size.bytes) (host + size.bytes) (by omega) (by omega)
    exact ⟨⟨⟨guest, by omega⟩, ⟨host, by omega⟩, size, permissions⟩ :: ms,
      ⟨rfl, rfl, rfl, rfl, htiles⟩, by rw [length_cons, hlen]⟩

theorem mergeChild_ok {first m : TranslationMapping} {guest host : ℕ} {next : ℕ × ℕ} :
    mergeChild first (guest, host) m = .ok next ↔
      (m.pageSize = first.pageSize ∧ m.permissions = first.permissions ∧
        m.guestPhysical.raw = guest ∧ m.hostPhysical.raw = host) ∧
      guest + first.pageSize.bytes < 2 ^ 64 ∧ host + first.pageSize.bytes < 2 ^ 64 ∧
      next = (guest + first.pageSize.bytes, host + first.pageSize.bytes) := by
  simp only [mergeChild, except_bind_ok, failIf_eq_ok, endGpa, endHpa, okOr_eq_ok,
    checkedAdd_eq_some, Bool.or_eq_false_iff, bne_eq_false_iff_eq]
  constructor
  · rintro ⟨-, ⟨hsize, hperm⟩, -, ⟨hguest, hhost⟩, _, ⟨hg, rfl⟩, _, ⟨hh, rfl⟩, hnext⟩
    rw [hsize, hguest] at hg
    rw [hsize, hhost] at hh
    obtain rfl := Except.ok.inj hnext
    exact ⟨⟨hsize, hperm, hguest, hhost⟩, hg, hh, by rw [hsize, hguest, hhost]⟩
  · rintro ⟨⟨hsize, hperm, hguest, hhost⟩, hg, hh, rfl⟩
    rw [hsize, hguest, hhost]
    exact ⟨⟨⟩, ⟨rfl, hperm⟩, ⟨⟩, ⟨rfl, rfl⟩, _, ⟨hg, rfl⟩, _, ⟨hh, rfl⟩, rfl⟩

/-- The loop accepts mappings that tile a range whose ends are addresses. -/
theorem mergeChildren_ok {first : TranslationMapping} {ms : List TranslationMapping} :
    ∀ guest host, ms ≠ [] →
      ((∃ next, ms.foldlM (mergeChild first) (guest, host) = .ok next) ↔
        Tiles first.pageSize first.permissions guest host ms ∧
          guest + ms.length * first.pageSize.bytes < 2 ^ 64 ∧
          host + ms.length * first.pageSize.bytes < 2 ^ 64) := by
  induction ms with
  | nil => exact fun guest host hne => absurd rfl hne
  | cons m ms ih =>
    intro guest host _
    simp only [foldlM_cons, except_bind_ok, mergeChild_ok, length_cons, Nat.succ_mul]
    rcases eq_or_ne ms [] with rfl | hne
    · constructor
      · rintro ⟨next, mid, ⟨hm, hg, hh, rfl⟩, -⟩
        exact ⟨⟨hm.1, hm.2.1, hm.2.2.1, hm.2.2.2, trivial⟩, by simpa using hg, by simpa using hh⟩
      · rintro ⟨⟨h1, h2, h3, h4, -⟩, hg, hh⟩
        exact ⟨_, _, ⟨⟨h1, h2, h3, h4⟩, by simpa using hg, by simpa using hh, rfl⟩, rfl⟩
    · constructor
      · rintro ⟨next, mid, ⟨hm, hg, hh, rfl⟩, hnext⟩
        obtain ⟨htiles, hg', hh'⟩ := (ih _ _ hne).mp ⟨next, hnext⟩
        exact ⟨⟨hm.1, hm.2.1, hm.2.2.1, hm.2.2.2, htiles⟩, by omega, by omega⟩
      · rintro ⟨⟨h1, h2, h3, h4, htiles⟩, hg, hh⟩
        obtain ⟨next, hnext⟩ := (ih (guest + first.pageSize.bytes) (host + first.pageSize.bytes)
          hne).mpr ⟨htiles, by omega, by omega⟩
        exact ⟨next, _, ⟨⟨h1, h2, h3, h4⟩, by omega, by omega, rfl⟩, hnext⟩

theorem new_ok {guest : GuestPhysical} {host : HostPhysical} {size : TranslationPageSize}
    {permissions : TranslationPermissions} {m : TranslationMapping} :
    new guest host size permissions = .ok m ↔
      (guest.raw % size.bytes = 0 ∧ host.raw % size.bytes = 0 ∧ permissions.isWx = false) ∧
        m = ⟨guest, host, size, permissions⟩ := by
  simp only [new, except_bind_ok, failIf_eq_ok, Bool.or_eq_false_iff, bne_eq_false_iff_eq]
  constructor
  · rintro ⟨-, ⟨hg, hh⟩, -, hwx, hm⟩
    exact ⟨⟨hg, hh, hwx⟩, (Except.ok.inj hm).symm⟩
  · rintro ⟨⟨hg, hh, hwx⟩, rfl⟩
    exact ⟨⟨⟩, ⟨hg, hh⟩, ⟨⟩, hwx, rfl⟩

end

variable {ms : List TranslationMapping}

/-- What `plan_merge` accepts and what it makes of it. -/
theorem planMerge_ok {merged : TranslationMapping} :
    planMerge ms = .ok merged ↔ ∃ first parent, ms.head? = some first ∧
      first.pageSize.parent = some parent ∧
      ms.length = parent.bytes / first.pageSize.bytes ∧
      (Tiles first.pageSize first.permissions first.guestPhysical.raw first.hostPhysical.raw ms ∧
        first.guestPhysical.raw + ms.length * first.pageSize.bytes < 2 ^ 64 ∧
        first.hostPhysical.raw + ms.length * first.pageSize.bytes < 2 ^ 64) ∧
      (first.guestPhysical.raw % parent.bytes = 0 ∧ first.hostPhysical.raw % parent.bytes = 0 ∧
        first.permissions.isWx = false) ∧
      merged = ⟨first.guestPhysical, first.hostPhysical, parent, first.permissions⟩ := by
  simp only [planMerge, except_bind_ok, okOr_eq_ok, failIf_eq_ok, new_ok, Bool.or_eq_false_iff,
    bne_eq_false_iff_eq]
  constructor
  · rintro ⟨first, hfirst, parent, hparent, -, hlen, -, -, next, hloop, hchecks, hmerged⟩
    have hne : ms ≠ [] := by
      rintro rfl
      exact absurd hfirst (by simp)
    exact ⟨first, parent, hfirst, hparent, hlen, (mergeChildren_ok _ _ hne).mp ⟨next, hloop⟩,
      hchecks, hmerged⟩
  · rintro ⟨first, parent, hfirst, hparent, hlen, htiles, hchecks, hmerged⟩
    have hne : ms ≠ [] := by
      rintro rfl
      exact absurd hfirst (by simp)
    obtain ⟨next, hloop⟩ := (mergeChildren_ok _ _ hne).mpr htiles
    exact ⟨first, hfirst, parent, hparent, ⟨⟩, hlen, ⟨⟩, ⟨hchecks.1, hchecks.2.1⟩, next, hloop,
      hchecks, hmerged⟩

theorem Tiles.permissions_eq {size : TranslationPageSize} {permissions : TranslationPermissions} :
    ∀ guest host, Tiles size permissions guest host ms → ∀ m ∈ ms, m.permissions = permissions := by
  induction ms with
  | nil =>
    intro guest host _ m hm
    exact absurd hm not_mem_nil
  | cons m ms ih =>
    rintro guest host ⟨-, hpermissions, -, -, hrest⟩ m' hm'
    rcases mem_cons.mp hm' with rfl | hm'
    · exact hpermissions
    · exact ih _ _ hrest m' hm'

theorem parent_bytes {size parent : TranslationPageSize} (h : size.parent = some parent) :
    parent.bytes / size.bytes * size.bytes = parent.bytes := by
  cases size <;> cases h <;> rfl

variable {child : TranslationPageSize}

theorem parent_of_child {size : TranslationPageSize} (h : size.child = some child) :
    child.parent = some size := by
  cases size <;> cases h <;> rfl

theorem child_of_parent {size parent : TranslationPageSize} (h : size.parent = some parent) :
    parent.child = some size := by
  cases size <;> cases h <;> rfl

/-- A merged mapping does what its children did. -/
theorem planMerge_translates {merged : TranslationMapping} (h : planMerge ms = .ok merged) :
    (∀ address, translateAll ms address = merged.translate address) ∧
      (∀ m ∈ ms, m.permissions = merged.permissions) ∧ merged.permissions.isWx = false := by
  obtain ⟨first, parent, -, hparent, hlen, ⟨htiles, -, -⟩, ⟨-, -, hwx⟩, rfl⟩ := planMerge_ok.mp h
  refine ⟨fun address => ?_, htiles.permissions_eq _ _, hwx⟩
  rw [translateAll_tiles address _ _ htiles, hlen, parent_bytes hparent]
  rfl

/-- Mappings that tile a mapping's range do what the mapping does. -/
theorem translateAll_children {m : TranslationMapping} (hchild : m.pageSize.child = some child)
    (htiles : Tiles child m.permissions m.guestPhysical.raw m.hostPhysical.raw ms)
    (hlen : ms.length = m.pageSize.bytes / child.bytes) (address : ℕ) :
    translateAll ms address = m.translate address := by
  rw [translateAll_tiles address _ _ htiles, hlen, parent_bytes (parent_of_child hchild)]
  rfl

/-- The children of a mapping merge exactly where the mapping passes the checks of `new` and ends
below the top of both address spaces. -/
theorem planMerge_children {m : TranslationMapping} (hchild : m.pageSize.child = some child)
    (htiles : Tiles child m.permissions m.guestPhysical.raw m.hostPhysical.raw ms)
    (hlen : ms.length = m.pageSize.bytes / child.bytes) :
    planMerge ms = .ok m ↔
      new m.guestPhysical m.hostPhysical m.pageSize m.permissions = .ok m ∧
        m.guestPhysical.raw + m.pageSize.bytes < 2 ^ 64 ∧
        m.hostPhysical.raw + m.pageSize.bytes < 2 ^ 64 := by
  have hparent := parent_of_child hchild
  have hbytes : ms.length * child.bytes = m.pageSize.bytes := by
    rw [hlen, parent_bytes hparent]
  rw [planMerge_ok, new_ok]
  constructor
  · rintro ⟨first, parent, -, hfirst, -, ⟨-, hguest, hhost⟩, hchecks, rfl⟩
    have hsize : child = first.pageSize :=
      Option.some.inj (hchild.symm.trans (child_of_parent hfirst))
    rw [← hsize, hbytes] at hguest hhost
    exact ⟨⟨hchecks, rfl⟩, hguest, hhost⟩
  · rintro ⟨⟨hchecks, -⟩, hguest, hhost⟩
    match ms, htiles with
    | [], _ =>
      have hpos := bytes_pos m.pageSize
      rw [length_nil] at hbytes
      omega
    | first :: rest, htiles =>
      have ⟨hsize, hpermissions, hg, hh, _⟩ := htiles
      refine ⟨first, m.pageSize, rfl, ?_⟩
      rw [hsize, hpermissions, hg, hh, hbytes]
      refine ⟨hparent, hlen, ⟨htiles, hguest, hhost⟩, hchecks, ?_⟩
      rcases m with ⟨⟨guest, _⟩, ⟨host, _⟩, size, permissions⟩
      obtain rfl : _ = guest := hg
      obtain rfl : _ = host := hh
      rfl

end TranslationMapping

/-- The children of a split plan: as many as it counts, from the start of its source on. -/
def SplitPlan.Enumerates (plan : SplitPlan) (children : List TranslationMapping) : Prop :=
  TranslationMapping.Tiles plan.childSize plan.source.permissions plan.source.guestPhysical.raw
    plan.source.hostPhysical.raw children ∧ children.length = plan.childCount

namespace TranslationMapping

theorem planSplit_eq {m : TranslationMapping} {child : TranslationPageSize}
    (hchild : m.pageSize.child = some child) :
    planSplit m = .ok ⟨m, child, m.pageSize.bytes / child.bytes, .range⟩ := by
  rw [planSplit, hchild]
  rfl

theorem exists_child {size : TranslationPageSize} (h : size ≠ .size4K) :
    ∃ child, size.child = some child := by
  cases size with
  | size4K => exact absurd rfl h
  | size2M => exact ⟨.size4K, rfl⟩
  | size1G => exact ⟨.size2M, rfl⟩

/-- A page within both address spaces has children. -/
theorem exists_children {m : TranslationMapping} {child : TranslationPageSize}
    (hchild : m.pageSize.child = some child)
    (hguest : m.guestPhysical.raw + m.pageSize.bytes ≤ 2 ^ 64)
    (hhost : m.hostPhysical.raw + m.pageSize.bytes ≤ 2 ^ 64) :
    ∃ children, SplitPlan.Enumerates ⟨m, child, m.pageSize.bytes / child.bytes, .range⟩
      children := by
  have hbytes := parent_bytes (parent_of_child hchild)
  exact exists_tiles child m.permissions _ _ _ (by rwa [hbytes]) (by rwa [hbytes])

/-- A huge page splits into children that translate as it does and merge back into it, and what
merges translates as its parts did, exactly where the page is one that `new` accepts and neither
of its ranges ends at the very top of the address space. -/
theorem split_merge_iff (m : TranslationMapping) (hsize : m.pageSize ≠ .size4K)
    (hguest : m.guestPhysical.raw + m.pageSize.bytes ≤ 2 ^ 64)
    (hhost : m.hostPhysical.raw + m.pageSize.bytes ≤ 2 ^ 64) :
    ((∃ plan, planSplit m = .ok plan ∧ (∃ children, plan.Enumerates children) ∧
        ∀ children, plan.Enumerates children →
          (∀ address, translateAll children address = m.translate address) ∧
          planMerge children = .ok m) ∧
      ∀ children merged, planMerge children = .ok merged →
        (∀ address, translateAll children address = merged.translate address) ∧
        (∀ child ∈ children, child.permissions = merged.permissions) ∧
        merged.permissions.isWx = false) ↔
      new m.guestPhysical m.hostPhysical m.pageSize m.permissions = .ok m ∧
        m.guestPhysical.raw + m.pageSize.bytes < 2 ^ 64 ∧
        m.hostPhysical.raw + m.pageSize.bytes < 2 ^ 64 := by
  obtain ⟨child, hchild⟩ := exists_child hsize
  constructor
  · rintro ⟨⟨plan, hplan, ⟨children, hchildren⟩, hall⟩, -⟩
    obtain rfl := Except.ok.inj ((planSplit_eq hchild).symm.trans hplan)
    exact (planMerge_children hchild hchildren.1 hchildren.2).mp (hall children hchildren).2
  · intro hnew
    refine ⟨⟨_, planSplit_eq hchild, exists_children hchild hguest hhost, ?_⟩,
      fun children merged h => planMerge_translates h⟩
    intro children hchildren
    exact ⟨translateAll_children hchild hchildren.1 hchildren.2,
      (planMerge_children hchild hchildren.1 hchildren.2).mpr hnew⟩

/-- A readable page of 2 MiB from a guest address on. -/
def readable (guest : GuestPhysical) : TranslationMapping :=
  ⟨guest, ⟨0, by decide⟩, .size2M, ⟨true, false, false⟩⟩

theorem split_merge_iff_low :
    ∃ plan, planSplit (readable ⟨0x200000, by decide⟩) = .ok plan ∧
      ∀ children, plan.Enumerates children →
        planMerge children = .ok (readable ⟨0x200000, by decide⟩) := by
  obtain ⟨⟨plan, hplan, -, hall⟩, -⟩ := (split_merge_iff (readable ⟨0x200000, by decide⟩)
    (by decide) (by decide) (by decide)).mpr ⟨rfl, by decide, by decide⟩
  exact ⟨plan, hplan, fun children h => (hall children h).2⟩

/-- The children of the last page of the guest do not merge. -/
theorem top_page_not_merged :
    ∃ m plan children, new m.guestPhysical m.hostPhysical m.pageSize m.permissions = .ok m ∧
      m.pageSize ≠ .size4K ∧ m.guestPhysical.raw + m.pageSize.bytes = 2 ^ 64 ∧
      m.hostPhysical.raw + m.pageSize.bytes ≤ 2 ^ 64 ∧
      planSplit m = .ok plan ∧ plan.Enumerates children ∧ planMerge children ≠ .ok m := by
  obtain ⟨children, hchildren⟩ := @exists_children
    (readable ⟨2 ^ 64 - 0x200000, by decide⟩) .size4K rfl (by decide) (by decide)
  refine ⟨readable ⟨2 ^ 64 - 0x200000, by decide⟩, _, children, rfl, by decide, by decide,
    by decide, rfl, hchildren, ?_⟩
  intro hmerge
  have htop := ((planMerge_children rfl hchildren.1 hchildren.2).mp hmerge).2.1
  exact absurd htop (by decide)

end TranslationMapping

end AegisHV
