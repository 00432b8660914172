import AegisHV.Lib.Run
import AegisHV.Proofs.TrapController

/-! The stage-2 table over a run of `map`, `set_permissions` and `split`: its mappings stay
apart, a split that goes through keeps what every address sees, and what a split that fails
leaves behind. -/

namespace AegisHV
open Sys List Stage2Mapping

namespace Stage2Mapping

def endOf (m : Stage2Mapping) : ℕ := m.base + m.pageSize.bytes

theorem stop_eq_ok {m : Stage2Mapping} {stop : ℕ} :
    m.stop = .ok stop ↔ m.endOf < 2 ^ 64 ∧ stop = m.endOf := by
  unfold Stage2Mapping.stop checkedAdd
  by_cases h : m.base + m.pageSize.bytes < 2 ^ 64
  · rw [if_pos h]
    constructor
    · intro hstop
      cases hstop
      exact ⟨h, rfl⟩
    · rintro ⟨-, rfl⟩
      rfl
  · rw [if_neg h]
    constructor
    · intro hstop
      cases hstop
    · rintro ⟨hlt, -⟩
      exact absurd hlt h

/-- Mappings of one VM and address space have no address in common. -/
def Apart (m m' : Stage2Mapping) : Prop :=
  m.ownerVm = m'.ownerVm → m.addressSpace = m'.addressSpace →
    m.endOf ≤ m'.base ∨ m'.endOf ≤ m.base

theorem Apart.symm {m m' : Stage2Mapping} (h : m.Apart m') : m'.Apart m :=
  fun hvm hspace => (h hvm.symm hspace.symm).symm

/-- What lies within a mapping is apart from all that is apart from it. -/
theorem Apart.of_within {m c m' : Stage2Mapping} (h : m.Apart m') (hvm : c.ownerVm = m.ownerVm)
    (hspace : c.addressSpace = m.addressSpace) (hlo : m.base ≤ c.base) (hhi : c.endOf ≤ m.endOf) :
    c.Apart m' := by
  intro hvm' hspace'
  have hapart := h (hvm.symm.trans hvm') (hspace.symm.trans hspace')
  omega

theorem endOf_pos (m : Stage2Mapping) : m.base < m.endOf := by
  unfold endOf PageSize.bytes
  cases m.pageSize with
  | size4K => simp
  | size2M => simp
  | size1G => simp

end Stage2Mapping

namespace Stage2Table

variable {t : Stage2Table} {vm space : String} {gpa base : ℕ} {target : PageSize}
  {key : MappingKey} {m m' : Stage2Mapping}

/-- What holds of every table that is built by its own operations. -/
structure WellFormed (t : Stage2Table) : Prop where
  keyed : ∀ {key m}, t.mappings.get key = some m → key = MappingKey.new m
  fits : ∀ {key m}, t.mappings.get key = some m → m.endOf < 2 ^ 64
  apart : ∀ {key key' m m'}, t.mappings.get key = some m → t.mappings.get key' = some m' →
    key ≠ key' → m.Apart m'

def PairwiseApart (t : Stage2Table) : Prop := t.mappings.values.Pairwise Apart

theorem WellFormed.pairwiseApart (h : WellFormed t) : t.PairwiseApart := by
  refine pairwise_map.2 (List.Pairwise.imp_of_mem ?_ t.mappings.sorted)
  intro e e' he he' hlt
  exact h.apart (OrdMap.mem_entries.1 he) (OrdMap.mem_entries.1 he') hlt.ne

theorem covers_iff (hfits : m.endOf < 2 ^ 64) : covers vm space gpa m = true ↔
    (m.ownerVm = vm ∧ m.addressSpace = space) ∧ m.base ≤ gpa ∧ gpa < m.endOf := by
  have hstop := Stage2Mapping.stop_eq_ok.2 ⟨hfits, rfl⟩
  simp [covers, Stage2Mapping.contains, hstop]

/-- No two mappings cover one address, so it does not matter in what order they are searched. -/
theorem WellFormed.lookup_iff (h : WellFormed t) : t.lookup vm space gpa = some m ↔
    ∃ key, t.mappings.get key = some m ∧ covers vm space gpa m = true := by
  constructor
  · intro hlookup
    obtain ⟨key, hkey⟩ := OrdMap.mem_values.1 (mem_of_find?_eq_some hlookup)
    exact ⟨key, hkey, find?_some hlookup⟩
  · rintro ⟨key, hkey, hcovers⟩
    cases hlookup : t.lookup vm space gpa with
    | none => exact absurd hcovers (find?_eq_none.1 hlookup m (OrdMap.mem_values.2 ⟨key, hkey⟩))
    | some m' =>
      obtain ⟨key', hkey'⟩ := OrdMap.mem_values.1 (mem_of_find?_eq_some hlookup)
      have hcovers' := find?_some hlookup
      by_cases heq : key = key'
      · subst heq
        exact hkey'.symm.trans hkey
      · obtain ⟨⟨hvm, hspace⟩, hlo, hhi⟩ := (covers_iff (h.fits hkey)).1 hcovers
        obtain ⟨⟨hvm', hspace'⟩, hlo', hhi'⟩ := (covers_iff (h.fits hkey')).1 hcovers'
        have hapart := h.apart hkey hkey' heq (hvm.trans hvm'.symm) (hspace.trans hspace'.symm)
        omega

/-! What `map` and `set_permissions` keep. -/

theorem wellFormed_new : WellFormed new := by
  constructor
  · intro key m h
    cases h
  · intro key m h
    cases h
  · intro key key' m m' h
    cases h

theorem rejectOverlap_eq_ok (hfits : ∀ existing ∈ t.mappings.values, existing.endOf < 2 ^ 64) :
    t.rejectOverlap m = .ok () ↔
      m.endOf < 2 ^ 64 ∧ ∀ existing ∈ t.mappings.values, m.Apart existing := by
  unfold rejectOverlap
  rw [except_bind_ok]
  constructor
  · rintro ⟨stop, hstop, hall⟩
    obtain ⟨hend, rfl⟩ := stop_eq_ok.1 hstop
    refine ⟨hend, fun existing hmem hvm hspace => ?_⟩
    have hone := forM_ok.1 hall existing hmem
    have hex := stop_eq_ok.2 ⟨hfits existing hmem, rfl⟩
    rw [if_neg (by simp [hvm, hspace]), hex, except_ok_bind] at hone
    split_ifs at hone with hover
    omega
  · rintro ⟨hend, hall⟩
    refine ⟨m.endOf, stop_eq_ok.2 ⟨hend, rfl⟩, forM_ok.2 fun existing hmem => ?_⟩
    have hex := stop_eq_ok.2 ⟨hfits existing hmem, rfl⟩
    split_ifs with hother
    · rfl
    · simp only [not_or, not_not] at hother
      have hapart := hall existing hmem hother.1.symm hother.2.symm
      rw [hex, except_ok_bind, if_neg (by omega)]
      rfl

theorem wellFormed_map {t' : Stage2Table} (h : WellFormed t) (hmap : t.map m = .ok t') :
    WellFormed t' := by
  obtain ⟨_, hreject, hmap⟩ := except_bind_ok.1 hmap
  cases hmap
  have hfits : ∀ existing ∈ t.mappings.values, existing.endOf < 2 ^ 64 := by
    intro existing hmem
    obtain ⟨key, hkey⟩ := OrdMap.mem_values.1 hmem
    exact h.fits hkey
  obtain ⟨hend, hall⟩ := (rejectOverlap_eq_ok hfits).1 hreject
  have hget : ∀ {key m'}, (t.mappings.insert (MappingKey.new m) m).get key = some m' →
      (key = MappingKey.new m ∧ m' = m) ∨ t.mappings.get key = some m' := by
    intro key m' hkey
    rw [OrdMap.get_insert] at hkey
    split_ifs at hkey with heq
    · exact Or.inl ⟨heq, (Option.some.inj hkey).symm⟩
    · exact Or.inr hkey
  constructor
  · intro key m' hkey
    rcases hget hkey with ⟨rfl, rfl⟩ | hkey
    · rfl
    · exact h.keyed hkey
  · intro key m' hkey
    rcases hget hkey with ⟨rfl, rfl⟩ | hkey
    · exact hend
    · exact h.fits hkey
  · intro key key' m₁ m₂ h₁ h₂ hne
    rcases hget h₁ with ⟨rfl, rfl⟩ | h₁'
    · rcases hget h₂ with ⟨rfl, rfl⟩ | h₂'
      · exact absurd rfl hne
      · exact hall m₂ (OrdMap.mem_values.2 ⟨key', h₂'⟩)
    · rcases hget h₂ with ⟨rfl, rfl⟩ | h₂'
      · exact (hall m₁ (OrdMap.mem_values.2 ⟨key, h₁'⟩)).symm
      · exact h.apart h₁' h₂' hne

theorem get_writeAt {p : Stage2Permissions} {key' : MappingKey}
    (hkey : (t.writeAt key p).mappings.get key' = some m') :
    ∃ m q, t.mappings.get key' = some m ∧ m' = { m with permissions := q } := by
  rw [writeAt, OrdMap.get_modify] at hkey
  split_ifs at hkey with heq
  · subst heq
    obtain ⟨m, hm, rfl⟩ := Option.map_eq_some_iff.1 hkey
    exact ⟨m, p, hm, rfl⟩
  · exact ⟨m', m'.permissions, hkey, rfl⟩

/-- The permissions of a mapping play no part in where it lies. -/
theorem wellFormed_writeAt {p : Stage2Permissions} (h : WellFormed t) :
    WellFormed (t.writeAt key p) := by
  constructor
  · intro key' m' hkey
    obtain ⟨m, q, hm, rfl⟩ := get_writeAt hkey
    have hkeyed := h.keyed hm
    exact hkeyed
  · intro key' m' hkey
    obtain ⟨m, q, hm, rfl⟩ := get_writeAt hkey
    have hfits := h.fits hm
    exact hfits
  · intro key₁ key₂ m₁ m₂ h₁ h₂ hne
    obtain ⟨n₁, q₁, hn₁, rfl⟩ := get_writeAt h₁
    obtain ⟨n₂, q₂, hn₂, rfl⟩ := get_writeAt h₂
    have hapart := h.apart hn₁ hn₂ hne
    exact hapart

theorem wellFormed_remove (h : WellFormed t) (key : MappingKey) :
    WellFormed ⟨t.mappings.remove key⟩ := by
  have hget : ∀ {key' m}, (t.mappings.remove key).get key' = some m →
      t.mappings.get key' = some m := by
    intro key' m hkey
    rw [OrdMap.get_remove] at hkey
    split_ifs at hkey
    exact hkey
  constructor
  · intro key' m hkey
    exact h.keyed (hget hkey)
  · intro key' m hkey
    exact h.fits (hget hkey)
  · intro key₁ key₂ m₁ m₂ h₁ h₂ hne
    exact h.apart (hget h₁) (hget h₂) hne

/-! What `split` does. -/

/-- The part of a mapping with the given index. -/
def child (parent : Stage2Mapping) (base : ℕ) (target : PageSize) (index : ℕ) : Stage2Mapping :=
  ⟨parent.ownerVm, parent.addressSpace, base + index * target.bytes, target, parent.memoryType,
    parent.permissions⟩

/-- A mapping that `split` has nothing against. -/
structure Splits (parent : Stage2Mapping) (base : ℕ) (target : PageSize) : Prop where
  next : parent.pageSize.immediateChild = some target
  aligned : target.isAligned base = true
  ownerVm : isBlank parent.ownerVm = false
  addressSpace : isBlank parent.addressSpace = false

variable {parent : Stage2Mapping}

theorem new_child (haligned : target.isAligned base = true) (hvm : isBlank parent.ownerVm = false)
    (hspace : isBlank parent.addressSpace = false) (index : ℕ) :
    Stage2Mapping.new parent.ownerVm parent.addressSpace (base + index * target.bytes) target
      parent.memoryType parent.permissions = .ok (child parent base target index) := by
  have hindex : target.isAligned (base + index * target.bytes) = true := by
    rw [PageSize.isAligned, Nat.add_mul_mod_self_right]
    exact haligned
  simp [Stage2Mapping.new, hindex, hvm, hspace, child]

theorem run_addChildren (h : Splits parent base target) (indices : List ℕ) :
    ∀ (children : List Stage2Mapping) (t : Stage2Table),
      (indices.foldlM (addChild parent base target) children).run t =
        (.ok (children ++ indices.map (child parent base target)),
          ⟨(indices.map (child parent base target)).foldl
            (fun m c => m.insert (MappingKey.new c) c) t.mappings⟩) := by
  induction indices with
  | nil =>
    simp
  | cons index indices ih =>
    intro children t
    have hone : (addChild parent base target children index).run t =
        (.ok (children ++ [child parent base target index]),
          ⟨t.mappings.insert (MappingKey.new (child parent base target index))
            (child parent base target index)⟩) := by
      rw [addChild, new_child h.aligned h.ownerVm h.addressSpace]
      rfl
    rw [foldlM_cons, Op.run_bind_ok hone, ih]
    simp

theorem run_split_missing (h : t.mappings.get ⟨vm, space, base⟩ = none) :
    (split vm space base target).run t = (.error (missingMapping vm space base), t) := by
  rw [split, Op.run_read_bind, h]
  rfl

/-- How many parts there are, and that they fill the mapping. -/
def parts (parent : Stage2Mapping) (target : PageSize) : ℕ := parent.pageSize.bytes / target.bytes

theorem splitCount_eq_ok {size : PageSize} {count : ℕ} : size.splitCount target = .ok count ↔
    size.immediateChild = some target ∧ count = size.bytes / target.bytes := by
  unfold PageSize.splitCount
  split_ifs with h
  · constructor
    · intro hcount
      cases hcount
    · rintro ⟨hnext, -⟩
      exact absurd hnext h
  · constructor
    · intro hcount
      cases hcount
      exact ⟨not_not.1 h, rfl⟩
    · rintro ⟨-, rfl⟩
      rfl

theorem run_split_ok (hget : t.mappings.get ⟨vm, space, base⟩ = some parent)
    (h : Splits parent base target) :
    (split vm space base target).run t =
      (.ok ((List.range (parts parent target)).map (child parent base target)),
        ⟨((List.range (parts parent target)).map (child parent base target)).foldl
          (fun m c => m.insert (MappingKey.new c) c) (t.mappings.remove ⟨vm, space, base⟩)⟩) := by
  have hcount := splitCount_eq_ok.2 ⟨h.next, rfl⟩
  rw [split, Op.run_read_bind, hget]
  simp only [okOr, Op.run_lift_ok_bind, Op.run_write_bind, hcount]
  rw [run_addChildren h]
  rfl

theorem parts_mul (hnext : parent.pageSize.immediateChild = some target) :
    0 < parts parent target ∧ parts parent target * target.bytes = parent.pageSize.bytes := by
  unfold parts
  cases hsize : parent.pageSize with
  | size4K =>
    rw [hsize] at hnext
    cases hnext
  | size2M =>
    rw [hsize] at hnext
    cases hnext
    decide
  | size1G =>
    rw [hsize] at hnext
    cases hnext
    decide

/-- A split that fails fails before it has put in a part, and the mapping is gone. -/
theorem run_split_error (hget : t.mappings.get ⟨vm, space, base⟩ = some parent)
    (h : ¬ Splits parent base target) :
    ∃ e, (split vm space base target).run t =
      (.error e, ⟨t.mappings.remove ⟨vm, space, base⟩⟩) := by
  rw [split, Op.run_read_bind, hget]
  simp only [okOr, Op.run_lift_ok_bind, Op.run_write_bind]
  cases hcount : parent.pageSize.splitCount target with
  | error e => exact ⟨e, rfl⟩
  | ok count =>
    obtain ⟨hnext, rfl⟩ := splitCount_eq_ok.1 hcount
    obtain ⟨hpos, -⟩ := parts_mul hnext
    obtain ⟨n, hn⟩ := Nat.exists_eq_add_one.2 hpos
    rw [parts] at hn
    rw [Op.run_lift_ok_bind, hn, range_succ_eq_map]
    cases hnew : Stage2Mapping.new parent.ownerVm parent.addressSpace (base + 0 * target.bytes)
        target parent.memoryType parent.permissions with
    | error e =>
      refine ⟨e, Op.run_bind_error ?_⟩
      rw [addChild, hnew]
      rfl
    | ok c =>
      refine absurd ⟨hnext, ?_, ?_, ?_⟩ h <;>
      · rw [Nat.zero_mul, Stage2Mapping.new] at hnew
        split_ifs at hnew
        simp_all

/-! The table after a split. -/

/-- The table that a split which goes through leaves. -/
def splitTable (t : Stage2Table) (parent : Stage2Mapping) (target : PageSize) : Stage2Table :=
  ⟨((List.range (parts parent target)).map (child parent parent.base target)).foldl
    (fun m c => m.insert (MappingKey.new c) c) (t.mappings.remove (MappingKey.new parent))⟩

theorem bytes_pos (size : PageSize) : 0 < size.bytes := by
  cases size with
  | size4K => decide
  | size2M => decide
  | size1G => decide

theorem child_within (hnext : parent.pageSize.immediateChild = some target) {index : ℕ}
    (hindex : index < parts parent target) :
    parent.base ≤ (child parent parent.base target index).base ∧
      (child parent parent.base target index).endOf ≤ parent.endOf := by
  obtain ⟨-, hfull⟩ := parts_mul hnext
  have hle : (index + 1) * target.bytes ≤ parts parent target * target.bytes :=
    Nat.mul_le_mul_right _ hindex
  rw [Nat.add_mul] at hle
  simp only [child, endOf]
  omega

theorem child_apart {i j : ℕ} (hij : i < j) :
    (child parent base target i).endOf ≤ (child parent base target j).base := by
  have hle : (i + 1) * target.bytes ≤ j * target.bytes := Nat.mul_le_mul_right _ hij
  rw [Nat.add_mul] at hle
  simp only [child, endOf]
  omega

/-- A split table has the parts in the place of the mapping, and the other mappings as before. -/
theorem get_splitTable (h : WellFormed t) (hget : t.mappings.get key = some parent)
    (hnext : parent.pageSize.immediateChild = some target) {key' : MappingKey} :
    (t.splitTable parent target).mappings.get key' = some m ↔
      (∃ index < parts parent target,
        m = child parent parent.base target index ∧ key' = MappingKey.new m) ∨
      (key' ≠ key ∧ t.mappings.get key' = some m) := by
  have hnodup : ((List.range (parts parent target)).map (child parent parent.base target)).Pairwise
      fun a b => MappingKey.new a ≠ MappingKey.new b := by
    refine pairwise_map.2 (pairwise_lt_range.imp fun {i j} hij heq => ?_)
    have hbase := congrArg MappingKey.base heq
    have hapart := @child_apart parent.base target parent i j hij
    have hpos := (child parent parent.base target i).endOf_pos
    simp only [MappingKey.new] at hbase
    omega
  rw [splitTable, OrdMap.get_foldl_insert hnodup, ← h.keyed hget, OrdMap.get_remove]
  simp only [mem_map, mem_range]
  constructor
  · rintro (⟨⟨index, hindex, rfl⟩, rfl⟩ | ⟨-, hother⟩)
    · exact Or.inl ⟨index, hindex, rfl, rfl⟩
    · split_ifs at hother with heq
      exact Or.inr ⟨heq, hother⟩
  · rintro (⟨index, hindex, rfl, rfl⟩ | ⟨hne, hother⟩)
    · exact Or.inl ⟨⟨index, hindex, rfl⟩, rfl⟩
    · refine Or.inr ⟨?_, by rw [if_neg hne, hother]⟩
      -- a mapping with the key of a part would meet the one that is split
      rintro _ ⟨index, hindex, rfl⟩ rfl
      have hkeyed := h.keyed hother
      obtain ⟨hlo, hhi⟩ := child_within hnext hindex
      have hapart := h.apart hget hother (Ne.symm hne)
        (congrArg MappingKey.ownerVm hkeyed) (congrArg MappingKey.addressSpace hkeyed)
      have hbase : (child parent parent.base target index).base = m.base :=
        congrArg MappingKey.base hkeyed
      have hpos := (child parent parent.base target index).endOf_pos
      have hpos' := m.endOf_pos
      omega

theorem wellFormed_splitTable (h : WellFormed t) (hget : t.mappings.get key = some parent)
    (hnext : parent.pageSize.immediateChild = some target) :
    WellFormed (t.splitTable parent target) := by
  constructor
  · intro key' m hm
    rcases (get_splitTable h hget hnext).1 hm with ⟨index, -, rfl, rfl⟩ | ⟨-, hm⟩
    · rfl
    · exact h.keyed hm
  · intro key' m hm
    rcases (get_splitTable h hget hnext).1 hm with ⟨index, hindex, rfl, rfl⟩ | ⟨-, hm⟩
    · exact (child_within hnext hindex).2.trans_lt (h.fits hget)
    · exact h.fits hm
  · intro key₁ key₂ m₁ m₂ h₁ h₂ hne
    rcases (get_splitTable h hget hnext).1 h₁ with ⟨i, hi, rfl, rfl⟩ | ⟨hne₁, h₁'⟩
    · obtain ⟨hlo, hhi⟩ := child_within hnext hi
      rcases (get_splitTable h hget hnext).1 h₂ with ⟨j, hj, rfl, rfl⟩ | ⟨hne₂, h₂'⟩
      · intro _ _
        rcases lt_trichotomy i j with hij | rfl | hij
        · exact Or.inl (child_apart hij)
        · exact absurd rfl hne
        · exact Or.inr (child_apart hij)
      · exact (h.apart hget h₂' (Ne.symm hne₂)).of_within rfl rfl hlo hhi
    · rcases (get_splitTable h hget hnext).1 h₂ with ⟨j, hj, rfl, rfl⟩ | ⟨hne₂, h₂'⟩
      · obtain ⟨hlo, hhi⟩ := child_within hnext hj
        have hapart : (child parent parent.base target j).Apart m₁ :=
          (h.apart hget h₁' (Ne.symm hne₁)).of_within rfl rfl hlo hhi
        exact hapart.symm
      · exact h.apart h₁' h₂' hne

/-- What an address sees of the mapping that covers it. -/
def attributesAt (t : Stage2Table) (ownerVm addressSpace : String) (gpa : ℕ) :
    Option (Stage2Permissions × MemoryType) :=
  (t.lookup ownerVm addressSpace gpa).map fun m => (m.permissions, m.memoryType)

theorem WellFormed.attributesAt_iff (h : WellFormed t) {a : Stage2Permissions × MemoryType} :
    t.attributesAt vm space gpa = some a ↔ ∃ key m, t.mappings.get key = some m ∧
      covers vm space gpa m = true ∧ (m.permissions, m.memoryType) = a := by
  rw [attributesAt, Option.map_eq_some_iff]
  constructor
  · rintro ⟨m, hm, ha⟩
    obtain ⟨key, hkey, hcovers⟩ := h.lookup_iff.1 hm
    exact ⟨key, m, hkey, hcovers, ha⟩
  · rintro ⟨key, m, hkey, hcovers, ha⟩
    exact ⟨m, h.lookup_iff.2 ⟨key, hkey, hcovers⟩, ha⟩

/-- An address of the mapping falls in one of the parts. -/
theorem exists_child (hnext : parent.pageSize.immediateChild = some target)
    (hlo : parent.base ≤ gpa) (hhi : gpa < parent.endOf) :
    ∃ index < parts parent target, (child parent parent.base target index).base ≤ gpa ∧
      gpa < (child parent parent.base target index).endOf := by
  obtain ⟨-, hfull⟩ := parts_mul hnext
  have hdiv := Nat.div_add_mod (gpa - parent.base) target.bytes
  have hmod := Nat.mod_lt (gpa - parent.base) (bytes_pos target)
  rw [Nat.mul_comm] at hdiv
  refine ⟨(gpa - parent.base) / target.bytes, ?_, ?_, ?_⟩
  · rw [Nat.div_lt_iff_lt_mul (bytes_pos target)]
    unfold endOf at hhi
    omega
  · simp only [child]
    omega
  · simp only [child, endOf]
    omega

theorem attributesAt_splitTable (h : WellFormed t) (hget : t.mappings.get key = some parent)
    (hnext : parent.pageSize.immediateChild = some target) (vm space : String) (gpa : ℕ) :
    (t.splitTable parent target).attributesAt vm space gpa = t.attributesAt vm space gpa := by
  have hsplit := wellFormed_splitTable h hget hnext
  ext a
  rw [hsplit.attributesAt_iff, h.attributesAt_iff]
  constructor
  · rintro ⟨key', m, hm, hcovers, ha⟩
    rcases (get_splitTable h hget hnext).1 hm with ⟨index, hindex, rfl, rfl⟩ | ⟨-, hm'⟩
    · obtain ⟨hlo, hhi⟩ := child_within hnext hindex
      obtain ⟨hname, hlo', hhi'⟩ := (covers_iff (hsplit.fits hm)).1 hcovers
      exact ⟨key, parent, hget,
        (covers_iff (h.fits hget)).2 ⟨hname, hlo.trans hlo', hhi'.trans_le hhi⟩, ha⟩
    · exact ⟨key', m, hm', hcovers, ha⟩
  · rintro ⟨key', m, hm, hcovers, ha⟩
    by_cases heq : key' = key
    · subst heq
      obtain rfl : parent = m := Option.some.inj (hget.symm.trans hm)
      obtain ⟨hname, hlo, hhi⟩ := (covers_iff (h.fits hget)).1 hcovers
      obtain ⟨index, hindex, hlo', hhi'⟩ := exists_child hnext hlo hhi
      have hchild := (get_splitTable h hget hnext).2 (Or.inl ⟨index, hindex, rfl, rfl⟩)
      exact ⟨_, _, hchild, (covers_iff (hsplit.fits hchild)).2 ⟨hname, hlo', hhi'⟩, ha⟩
    · exact ⟨key', m, (get_splitTable h hget hnext).2 (Or.inr ⟨heq, hm⟩), hcovers, ha⟩

/-! Runs. -/

inductive Call
  | map (mapping : Stage2Mapping)
  | setPermissions (ownerVm addressSpace : String) (gpa : ℕ) (permissions : Stage2Permissions)
  | split (ownerVm addressSpace : String) (base : ℕ) (target : PageSize)

inductive Reply
  | done
  | previous (permissions : Stage2Permissions)
  | children (mappings : List Stage2Mapping)
  | failed (e : TrapError)

def step (t : Stage2Table) : Call → Reply × Stage2Table
  | .map mapping =>
    match t.map mapping with
    | .ok t' => (.done, t')
    | .error e => (.failed e, t)
  | .setPermissions ownerVm addressSpace gpa permissions =>
    match t.setPermissions ownerVm addressSpace gpa permissions with
    | .ok (previous, t') => (.previous previous, t')
    | .error e => (.failed e, t)
  | .split ownerVm addressSpace base target =>
    (split ownerVm addressSpace base target).reply .children .failed t

/-- What a split request does to a table whose mappings are in order. -/
theorem run_split_cases (h : WellFormed t) (vm space : String) (base : ℕ) (target : PageSize) :
    (t.mappings.get ⟨vm, space, base⟩ = none ∧
      (split vm space base target).run t = (.error (missingMapping vm space base), t)) ∨
    ∃ parent, t.mappings.get ⟨vm, space, base⟩ = some parent ∧
      MappingKey.new parent = ⟨vm, space, base⟩ ∧
      ((Splits parent base target ∧ ∃ children,
        (split vm space base target).run t = (.ok children, t.splitTable parent target)) ∨
      (¬ Splits parent base target ∧ ∃ e, (split vm space base target).run t =
        (.error e, ⟨t.mappings.remove ⟨vm, space, base⟩⟩))) := by
  cases hget : t.mappings.get ⟨vm, space, base⟩ with
  | none => exact Or.inl ⟨rfl, run_split_missing hget⟩
  | some parent =>
    have hkeyed := h.keyed hget
    refine Or.inr ⟨parent, rfl, hkeyed.symm, ?_⟩
    by_cases hsplits : Splits parent base target
    · have hbase : base = parent.base := congrArg MappingKey.base hkeyed
      have hrun := run_split_ok hget hsplits
      refine Or.inl ⟨hsplits, (List.range (parts parent target)).map (child parent base target), ?_⟩
      rw [hrun, splitTable, ← hkeyed, ← hbase]
    · exact Or.inr ⟨hsplits, run_split_error hget hsplits⟩

theorem wellFormed_split (h : WellFormed t) :
    WellFormed ((split vm space base target).run t).2 := by
  rcases run_split_cases h vm space base target with ⟨-, hrun⟩ | ⟨parent, hget, -, hcases⟩
  · rw [hrun]
    exact h
  · rcases hcases with ⟨hsplits, children, hrun⟩ | ⟨-, e, hrun⟩
    · rw [hrun]
      exact wellFormed_splitTable h hget hsplits.next
    · rw [hrun]
      exact wellFormed_remove h _

theorem wellFormed_step (h : WellFormed t) (c : Call) : WellFormed (step t c).2 := by
  cases c with
  | map mapping =>
    rw [step]
    cases hmap : t.map mapping with
    | ok t' => exact wellFormed_map h hmap
    | error e => exact h
  | setPermissions vm space gpa p =>
    rw [step]
    cases hslot : t.slot vm space gpa with
    | none =>
      rw [setPermissions_of_not_slot hslot]
      exact h
    | some key =>
      obtain ⟨previous, -, hset⟩ := setPermissions_of_slot (p := p) hslot
      rw [hset]
      exact wellFormed_writeAt h
  | split vm space base target =>
    rw [step, Op.reply_snd]
    exact wellFormed_split h

theorem run_wellFormed (calls : List Call) : WellFormed (run step new calls).2 :=
  run_inv (fun _ t => WellFormed t) wellFormed_new (fun _ _ c h => wellFormed_step h c) calls

/-- What a split owes its caller: the addresses see what they saw before and the mappings are
apart, or it failed and nothing has changed. -/
def SplitRight (t : Stage2Table) (ownerVm addressSpace : String) (base : ℕ) (target : PageSize) :
    Prop :=
  match (split ownerVm addressSpace base target).run t with
  | (.ok _, t') => (∀ vm space gpa, t'.attributesAt vm space gpa = t.attributesAt vm space gpa) ∧
      t'.PairwiseApart
  | (.error _, t') => t' = t

/-- After any run, a split request does what it should if and only if there is no mapping at the
base, or the mapping there can be split: the target is the next smaller size, the base is a
multiple of it and the names are not blank. -/
theorem splitRight_iff (calls : List Call) (vm space : String) (base : ℕ) (target : PageSize) :
    (run step new calls).2.SplitRight vm space base target ↔
      ∀ parent, (run step new calls).2.mappings.get ⟨vm, space, base⟩ = some parent →
        parent.pageSize.immediateChild = some target ∧ target.isAligned base = true ∧
          isBlank vm = false ∧ isBlank space = false := by
  have h := run_wellFormed calls
  unfold SplitRight
  rcases run_split_cases h vm space base target with
    ⟨hget, hrun⟩ | ⟨parent, hget, hkeyed, hcases⟩
  · simp [hrun, hget]
  · obtain ⟨rfl, rfl, rfl⟩ := MappingKey.mk.inj hkeyed
    rcases hcases with ⟨hsplits, children, hrun⟩ | ⟨hsplits, e, hrun⟩
    · rw [hrun]
      constructor
      · rintro - parent' hget'
        obtain rfl := Option.some.inj (hget.symm.trans hget')
        exact ⟨hsplits.next, hsplits.aligned, hsplits.ownerVm, hsplits.addressSpace⟩
      · rintro -
        exact ⟨attributesAt_splitTable h hget hsplits.next,
          (wellFormed_splitTable h hget hsplits.next).pairwiseApart⟩
    · rw [hrun]
      constructor
      · intro hsame
        have hgone := congrArg (fun t => t.mappings.get (MappingKey.new parent)) hsame
        simp only [MappingKey.new, OrdMap.get_remove, if_true, hget] at hgone
        cases hgone
      · intro hall
        obtain ⟨hnext, haligned, hvm, hspace⟩ := hall parent hget
        exact absurd ⟨hnext, haligned, hvm, hspace⟩ hsplits

/-- A 1 GiB mapping that is to be split into pages of 4 KiB is lost. -/
theorem split_two_levels_not_right :
    ¬ (run step new [.map ⟨"vm", "s", 0, .size1G, .writeBack, .RWX⟩]).2.SplitRight
      "vm" "s" 0 .size4K := by
  intro h
  have hsame := congrArg (fun t => t.mappings.values.length) h
  exact absurd hsame (by decide)

end Stage2Table
end AegisHV
