import AegisHV.Proofs.MemoryMap
import AegisHV.Spec.Handoff

/-! The three checks of the boot memory agree: which maps the usable projection accepts, and
that the memory map of the core crate takes whatever the projection or the handoff check
lets through. -/

namespace AegisHV
open Sys List LimineUsableMemory

namespace LimineMemmapEntry

/-- The end of an entry that does not overflow. -/
def hi (e : LimineMemmapEntry) : ℕ := e.base + e.length

/-- For an empty entry, that it lies strictly inside the other. -/
def Overlaps (a b : LimineMemmapEntry) : Prop := a.base < b.hi ∧ b.base < a.hi

theorem stop_isOk (e : LimineMemmapEntry) (n : ℕ) : e.stop = .ok n ↔ e.hi < 2 ^ 64 ∧ n = e.hi := by
  rw [stop, okOr_eq_ok, checkedAdd_eq_some]
  rfl

end LimineMemmapEntry

theorem LimineMemoryKind.fromRaw_isOk (raw : ℕ) : (∃ kind, fromRaw raw = .ok kind) ↔ raw < 9 := by
  constructor
  · rintro ⟨kind, h⟩
    by_contra hge
    obtain ⟨m, rfl⟩ := Nat.exists_eq_add_of_le' (Nat.not_lt.1 hge)
    cases h
  · intro h
    interval_cases raw <;> exact ⟨_, rfl⟩

theorem LimineMemoryKind.fromRaw_usable {raw : ℕ} {kind : LimineMemoryKind}
    (h : fromRaw raw = .ok kind) : kind = .usable ↔ raw = 0 := by
  unfold fromRaw at h
  split at h <;> cases h <;> simp

namespace LimineUsableMemory

open LimineMemmapEntry

variable {N : ℕ} {entries : List LimineMemmapEntry}

/-- The entries a list keeps, as regions. -/
def usableOf (l : List LimineMemmapEntry) : List BootMemoryRegion :=
  (l.filter fun e => e.kind = 0).map fun e => ⟨e.base, e.length, .usable⟩

/-- What the loop demands of the entry at index `i`. -/
structure Sound (entries : List LimineMemmapEntry) (e : LimineMemmapEntry) (i : ℕ) : Prop where
  known : e.kind < 9
  ends : e.hi < 2 ^ 64
  usable : e.kind = 0 → 0 < e.length ∧ e.base % 4096 = 0 ∧ e.length % 4096 = 0
  apart : e.kind = 0 → ∀ o j, entries[j]? = some o → j ≠ i →
    o.kind < 9 ∧ o.hi < 2 ^ 64 ∧ ¬ Overlaps e o

theorem rejectOverlap_isOk (e : LimineMemmapEntry) (i : ℕ) :
    rejectOverlap e i e.hi entries.zipIdx = .ok () ↔ ∀ o j, entries[j]? = some o → j ≠ i →
      o.kind < 9 ∧ o.hi < 2 ^ 64 ∧ ¬ Overlaps e o := by
  rw [rejectOverlap, forM_ok]
  simp only [Prod.forall, mem_zipIdx_iff_getElem?]
  refine forall_congr' fun o => forall_congr' fun j => imp_congr_right fun hj => ?_
  by_cases hij : j = i
  · simp [hij, pure, Except.pure]
  · simp only [hij, if_false, except_bind_ok, stop_isOk, failIf_eq_ok, ne_eq, not_false_eq_true,
      forall_const, ← LimineMemoryKind.fromRaw_isOk, Overlaps]
    constructor
    · rintro ⟨kind, hkind, n, ⟨hlt, rfl⟩, hno⟩
      exact ⟨⟨kind, hkind⟩, hlt, by simpa using hno⟩
    · rintro ⟨⟨kind, hkind⟩, hlt, hno⟩
      exact ⟨kind, hkind, _, ⟨hlt, rfl⟩, by simpa using hno⟩

theorem addEntry_isOk {t t' : Table BootMemoryRegion N} {e : LimineMemmapEntry} {i : ℕ} :
    addEntry entries t (e, i) = .ok t' ↔ Sound entries e i ∧
      ((e.kind ≠ 0 ∧ t' = t) ∨
        (e.kind = 0 ∧ t.len < N ∧ t' = t.push ⟨e.base, e.length, .usable⟩)) := by
  simp only [addEntry, except_bind_ok, stop_isOk]
  constructor
  · rintro ⟨kind, hkind, stop, ⟨hends, rfl⟩, h⟩
    have hknown := (LimineMemoryKind.fromRaw_isOk _).1 ⟨kind, hkind⟩
    have husable := LimineMemoryKind.fromRaw_usable hkind
    by_cases hk : kind = .usable
    · rw [if_neg (by simpa using hk)] at h
      simp only [except_bind_ok, failIf_eq_ok, exists_const, Bool.or_eq_false_iff,
        bne_eq_false_iff_eq, decide_eq_false_iff_not, Nat.not_le, beq_eq_false_iff_ne] at h
      obtain ⟨⟨⟨hlen, hbase⟩, hlength⟩, _, hover, hroom, hpure⟩ := h
      cases hpure
      refine ⟨⟨hknown, hends, fun _ => ⟨Nat.pos_of_ne_zero hlen, hbase, hlength⟩,
        fun _ => (rejectOverlap_isOk e i).1 hover⟩, Or.inr ⟨husable.1 hk, hroom, rfl⟩⟩
    · rw [if_pos hk] at h
      cases h
      have hne : e.kind ≠ 0 := fun h0 => hk (husable.2 h0)
      exact ⟨⟨hknown, hends, fun h0 => absurd h0 hne, fun h0 => absurd h0 hne⟩, Or.inl ⟨hne, rfl⟩⟩
  · rintro ⟨⟨hknown, hends, haligned, hapart⟩, hcase⟩
    obtain ⟨kind, hkind⟩ := (LimineMemoryKind.fromRaw_isOk _).2 hknown
    have husable := LimineMemoryKind.fromRaw_usable hkind
    refine ⟨kind, hkind, _, ⟨hends, rfl⟩, ?_⟩
    rcases hcase with ⟨hne, rfl⟩ | ⟨h0, hroom, rfl⟩
    · rw [if_pos (fun hk => hne (husable.1 hk))]
      rfl
    · rw [if_neg (by simpa using husable.2 h0)]
      obtain ⟨hlen, hbase, hlength⟩ := haligned h0
      simp only [except_bind_ok, failIf_eq_ok, exists_const, Bool.or_eq_false_iff,
        bne_eq_false_iff_eq, decide_eq_false_iff_not, Nat.not_le, beq_eq_false_iff_ne]
      exact ⟨⟨⟨Nat.ne_of_gt hlen, hbase⟩, hlength⟩, (), (rejectOverlap_isOk e i).2 (hapart h0),
        hroom, rfl⟩

/-- The loop over a part of the entries. -/
theorem addEntries_isOk (l : List (LimineMemmapEntry × ℕ)) : ∀ t t' : Table BootMemoryRegion N,
    l.foldlM (addEntry entries) t = .ok t' →
      (∀ p ∈ l, Sound entries p.1 p.2) ∧
        t'.toList = t.toList ++ usableOf (l.map Prod.fst) := by
  induction l with
  | nil =>
    intro t t' h
    cases h
    simp [usableOf]
  | cons p l ih =>
    intro t t' h
    obtain ⟨u, hadd, h⟩ := except_bind_ok.1 h
    obtain ⟨hsound, hcase⟩ := addEntry_isOk.1 hadd
    obtain ⟨hall, hlist⟩ := ih u t' h
    refine ⟨?_, ?_⟩
    · intro q hq
      rcases mem_cons.1 hq with rfl | hq
      · exact hsound
      · exact hall q hq
    · rcases hcase with ⟨hne, rfl⟩ | ⟨h0, hroom, rfl⟩
      · rw [hlist, map_cons, usableOf, usableOf, filter_cons_of_neg (by simpa using hne)]
      · rw [hlist, Table.toList_push _ _ hroom, map_cons, usableOf, usableOf,
          filter_cons_of_pos (by simpa using h0), append_assoc]
        rfl

theorem addEntries_succeeds (entries : List LimineMemmapEntry)
    (l : List (LimineMemmapEntry × ℕ)) : ∀ t : Table BootMemoryRegion N,
    (∀ p ∈ l, Sound entries p.1 p.2) → t.len + (usableOf (l.map Prod.fst)).length ≤ N →
      ∃ t', l.foldlM (addEntry entries) t = .ok t' := by
  induction l with
  | nil =>
    intro t _ _
    exact ⟨t, rfl⟩
  | cons p l ih =>
    intro t hall hroom
    have hp := hall p (by simp)
    by_cases h0 : p.1.kind = 0
    · rw [map_cons, usableOf, filter_cons_of_pos (by simpa using h0), map_cons,
        length_cons, ← usableOf] at hroom
      have hlen := t.push_len ⟨p.1.base, p.1.length, .usable⟩ (by omega)
      obtain ⟨t', ht'⟩ := ih (t.push ⟨p.1.base, p.1.length, .usable⟩)
        (fun q hq => hall q (by simp [hq])) (by omega)
      refine ⟨t', ?_⟩
      exact except_bind_ok.2 ⟨_, addEntry_isOk.2 ⟨hp, Or.inr ⟨h0, by omega, rfl⟩⟩, ht'⟩
    · rw [map_cons, usableOf, filter_cons_of_neg (by simpa using h0)] at hroom
      obtain ⟨t', ht'⟩ := ih t (fun q hq => hall q (by simp [hq])) hroom
      refine ⟨t', ?_⟩
      exact except_bind_ok.2 ⟨_, addEntry_isOk.2 ⟨hp, Or.inl ⟨h0, rfl⟩⟩, ht'⟩

/-- The maps the projection accepts. The condition does not mention the order of the entries:
`Overlaps` is symmetric. -/
structure Projectable (N : ℕ) (entries : List LimineMemmapEntry) : Prop where
  known : ∀ e ∈ entries, e.kind < 9
  ends : ∀ e ∈ entries, e.base + e.length < 2 ^ 64
  usable : ∀ e ∈ entries, e.kind = 0 → 0 < e.length ∧ e.base % 4096 = 0 ∧ e.length % 4096 = 0
  apart : entries.Pairwise fun a b => a.kind = 0 ∨ b.kind = 0 → ¬ Overlaps a b
  fits : (entries.filter fun e => e.kind = 0).length ≤ N

theorem length_usableOf (l : List LimineMemmapEntry) :
    (usableOf l).length = (l.filter fun e => e.kind = 0).length := by
  rw [usableOf, length_map]

theorem sound_of_projectable (h : Projectable N entries) {e : LimineMemmapEntry} {i : ℕ}
    (hi : entries[i]? = some e) : Sound entries e i := by
  have hmem := mem_of_getElem? hi
  refine ⟨h.known e hmem, h.ends e hmem, h.usable e hmem, fun h0 o j hj hij => ?_⟩
  have homem := mem_of_getElem? hj
  refine ⟨h.known o homem, h.ends o homem, fun hover => ?_⟩
  obtain ⟨hilt, rfl⟩ := List.getElem?_eq_some_iff.1 hi
  obtain ⟨hjlt, rfl⟩ := List.getElem?_eq_some_iff.1 hj
  have hpair := pairwise_iff_getElem.1 h.apart
  rcases Nat.lt_or_gt_of_ne hij with hlt | hlt
  · exact hpair j i hjlt hilt hlt (Or.inr h0) ⟨hover.2, hover.1⟩
  · exact hpair i j hilt hjlt hlt (Or.inl h0) hover

theorem fromEntries_regions_eq {usable : LimineUsableMemory N}
    (h : fromEntries entries = .ok usable) : usable.regions = usableOf entries := by
  obtain ⟨t, hfold, hpure⟩ := except_bind_ok.1 h
  cases hpure
  have := (addEntries_isOk _ _ _ hfold).2
  rwa [Table.replicate_toList, zipIdx_map_fst] at this

theorem projectable_of_ok {usable : LimineUsableMemory N}
    (h : fromEntries entries = .ok usable) : Projectable N entries := by
  have hregions := fromEntries_regions_eq h
  obtain ⟨t, hfold, hpure⟩ := except_bind_ok.1 h
  cases hpure
  have hsound : ∀ e i, entries[i]? = some e → Sound entries e i := fun e i hi =>
    (addEntries_isOk _ _ _ hfold).1 (e, i) (mem_zipIdx_iff_getElem?.2 hi)
  have hmem : ∀ e ∈ entries, ∃ i, Sound entries e i := fun e he => by
    obtain ⟨i, hi⟩ := mem_iff_getElem?.1 he
    exact ⟨i, hsound e i hi⟩
  refine ⟨fun e he => ?_, fun e he => ?_, fun e he => ?_, ?_, ?_⟩
  · obtain ⟨i, hs⟩ := hmem e he
    exact hs.known
  · obtain ⟨i, hs⟩ := hmem e he
    exact hs.ends
  · obtain ⟨i, hs⟩ := hmem e he
    exact hs.usable
  · rw [pairwise_iff_getElem]
    intro i j hi hj hij husable hover
    have hgi := getElem?_eq_getElem hi
    have hgj := getElem?_eq_getElem hj
    rcases husable with h0 | h0
    · exact ((hsound _ i hgi).apart h0 _ j hgj (by omega)).2.2 hover
    · exact ((hsound _ j hgj).apart h0 _ i hgi (by omega)).2.2 ⟨hover.2, hover.1⟩
  · rw [← length_usableOf, ← hregions, regions, Table.toList_length]
    exact t.len_le

theorem fromEntries_isOk (entries : List LimineMemmapEntry) :
    (∃ usable : LimineUsableMemory N, fromEntries entries = .ok usable) ↔ Projectable N entries := by
  refine ⟨fun ⟨usable, h⟩ => projectable_of_ok h, fun h => ?_⟩
  obtain ⟨t, ht⟩ := addEntries_succeeds entries entries.zipIdx
    (Table.replicate N ⟨0, 0, .reserved⟩)
    (fun p hp => sound_of_projectable h (mem_zipIdx_iff_getElem?.1 hp)) (by
      rw [length_usableOf]
      simpa [Table.replicate] using h.fits)
  exact ⟨⟨t⟩, except_bind_ok.2 ⟨t, ht, rfl⟩⟩

theorem projectable_perm {entries entries' : List LimineMemmapEntry} (h : entries.Perm entries') :
    Projectable N entries ↔ Projectable N entries' := by
  have main : ∀ {l l' : List LimineMemmapEntry}, l.Perm l' → Projectable N l → Projectable N l' := by
    intro l l' hp hl
    refine ⟨fun e he => hl.known e (hp.mem_iff.2 he), fun e he => hl.ends e (hp.mem_iff.2 he),
      fun e he => hl.usable e (hp.mem_iff.2 he), ?_, ?_⟩
    · refine hp.pairwise hl.apart ?_
      intro a b hab husable hover
      exact hab husable.symm ⟨hover.2, hover.1⟩
    · rw [← (hp.filter _).length_eq]
      exact hl.fits
  exact ⟨main h, main h.symm⟩

end LimineUsableMemory

/-! The regions of the handoff. -/

namespace BootMemoryRegion

def hi (r : BootMemoryRegion) : ℕ := r.base + r.length

def Overlaps (a b : BootMemoryRegion) : Prop := a.base < b.hi ∧ b.base < a.hi

theorem stop_isOk (r : BootMemoryRegion) (n : ℕ) : r.stop = .ok n ↔ r.hi < 2 ^ 64 ∧ n = r.hi := by
  rw [stop, okOr_eq_ok, checkedAdd_eq_some]
  rfl

/-- The regions a memory map of the core crate can be made of without loss. -/
structure Clean (regions : List BootMemoryRegion) : Prop where
  wf : ∀ r ∈ regions, 0 < r.length ∧ r.hi < 2 ^ 64
  apart : regions.Pairwise fun a b => ¬ Overlaps a b

/-- The address lies in a usable region. -/
def UsableAt (regions : List BootMemoryRegion) (x : ℕ) : Prop :=
  ∃ r ∈ regions, r.kind = .usable ∧ r.base ≤ x ∧ x < r.base + r.length

theorem toCoreKind_usable {k : BootMemoryKind} : k.toCoreKind = .usable ↔ k = .usable := by
  cases k <;> simp [BootMemoryKind.toCoreKind]

variable {regions : List BootMemoryRegion}

theorem kindAt_toCore {x : ℕ} :
    MemoryMap.KindAt (regions.map toCoreRegion) .usable x ↔ UsableAt regions x := by
  constructor
  · rintro ⟨m, hm, hk, hlo, hhi⟩
    obtain ⟨r, hr, rfl⟩ := mem_map.1 hm
    exact ⟨r, hr, toCoreKind_usable.1 hk, hlo, hhi⟩
  · rintro ⟨r, hr, hk, hlo, hhi⟩
    exact ⟨r.toCoreRegion, mem_map_of_mem hr, toCoreKind_usable.2 hk, hlo, hhi⟩

variable {M : ℕ}

theorem Clean.acceptable (h : Clean regions)
    (hM : regions.length ≤ M) : MemoryMap.Acceptable M (regions.map toCoreRegion) := by
  refine ⟨by rwa [length_map], ?_, ?_⟩
  · intro m hm
    obtain ⟨r, hr, rfl⟩ := mem_map.1 hm
    exact h.wf r hr
  · have hsymm : Std.Symm fun a b : MemoryRegion => a.kind ≠ b.kind → ¬ MemoryMap.Overlaps a b :=
      ⟨fun a b hab hne hover => hab (Ne.symm hne) ⟨hover.2, hover.1⟩⟩
    have hpair : (regions.map toCoreRegion).Pairwise fun a b =>
        a.kind ≠ b.kind → ¬ MemoryMap.Overlaps a b := by
      rw [pairwise_map]
      refine h.apart.imp ?_
      intro a b hab _
      exact hab
    intro a ha b hb
    exact hpair.forall_of_forall (fun a _ hne => absurd rfl hne) ha hb

/-- A clean list makes a map with the same usable addresses. -/
theorem Clean.map (h : Clean regions) (hM : regions.length ≤ M) :
    ∃ map : MemoryMap M, MemoryMap.fromEntries (regions.map toCoreRegion) = .ok map ∧
      ∀ x, MemoryMap.KindAt map.regions .usable x ↔ UsableAt regions x := by
  obtain ⟨map, hmap⟩ := (MemoryMap.fromEntries_isOk _).2 (h.acceptable hM)
  refine ⟨map, hmap, fun x => ?_⟩
  rw [(MemoryMap.fromEntries_spec hmap).2, kindAt_toCore]

/-- The bytes of the usable regions. -/
def usableBytes (regions : List BootMemoryRegion) : ℕ :=
  ((regions.filter fun r => r.kind = .usable).map length).sum

theorem usableBytes_eq (regions : List BootMemoryRegion) : usableBytes regions =
    ((regions.filter fun r => r.kind = .usable).map fun r => r.hi - r.base).sum := by
  simp only [usableBytes, hi, Nat.add_sub_cancel_left]

theorem Clean.usableBytes_lt (h : Clean regions) :
    usableBytes regions < 2 ^ 64 := by
  rw [usableBytes_eq]
  apply Nat.lt_of_le_pred (by norm_num)
  refine sum_le_of_below (h.apart.filter _) fun r hr => ?_
  exact Nat.le_pred_of_lt (h.wf r (mem_filter.1 hr).1).2

theorem Clean.total (h : Clean regions)
    {map : MemoryMap M} (hmap : MemoryMap.fromEntries (regions.map toCoreRegion) = .ok map) :
    (map.usableRegions.map MemoryRegion.length).sum = usableBytes regions := by
  obtain ⟨hreg, hkind⟩ := MemoryMap.fromEntries_spec hmap
  have hmaps : (map.usableRegions.map MemoryRegion.length) =
      map.usableRegions.map fun r => r.hi - r.base := by
    simp only [MemoryRegion.hi, Nat.add_sub_cancel_left]
  rw [hmaps, usableBytes_eq]
  refine sum_eq_of_covers ?_ (h.apart.filter _) fun x => ?_
  · refine (MemoryMap.usableRegions_apart hreg).imp ?_
    omega
  · have hx := (hkind .usable x).trans kindAt_toCore
    simp only [Covers, MemoryMap.usableRegions, mem_filter, decide_eq_true_eq, and_assoc]
    exact hx

end BootMemoryRegion

namespace BootHandoff

open BootMemoryRegion

theorem rejectOverlap_isOk {r : BootMemoryRegion} {l : List BootMemoryRegion}
    (h : rejectOverlap r r.hi l = .ok ()) : ∀ o ∈ l, ¬ Overlaps o r := by
  intro o ho hover
  have := forM_ok.1 h o ho
  simp only [except_bind_ok, stop_isOk, failIf_eq_ok] at this
  obtain ⟨n, ⟨-, rfl⟩, hno⟩ := this
  simp only [Bool.and_eq_false_iff, decide_eq_false_iff_not] at hno
  exact hno.elim (fun hn => hn hover.2) fun hn => hn hover.1

variable {regions : List BootMemoryRegion}

theorem addRegion_isOk {u u' : ℕ × ℕ} {r : BootMemoryRegion}
    {i : ℕ} (h : addRegion regions u (r, i) = .ok u') :
    0 < r.length ∧ r.hi < 2 ^ 64 ∧ (∀ o ∈ regions.take i, ¬ Overlaps o r) ∧
      u'.2 = if r.kind = .usable then saturatingAdd u.2 r.length else u.2 := by
  simp only [addRegion, validateRegion, except_bind_ok, failIf_eq_ok, stop_isOk, exists_const,
    Bool.or_eq_false_iff, beq_eq_false_iff_ne] at h
  obtain ⟨stop, ⟨⟨⟨hlen, -⟩, -⟩, hlt, rfl⟩, _, hover, h⟩ := h
  refine ⟨Nat.pos_of_ne_zero hlen, hlt, rejectOverlap_isOk hover, ?_⟩
  split_ifs at h ⊢ with hk
  · cases h
    rfl
  · cases h
    rfl

theorem usableBytes_snoc (l : List BootMemoryRegion) (r : BootMemoryRegion) :
    usableBytes (l ++ [r]) = usableBytes l + if r.kind = .usable then r.length else 0 := by
  rw [usableBytes, filter_append, map_append, sum_append, ← usableBytes]
  split_ifs with hk
  · rw [filter_cons_of_pos (by simpa using hk)]
    simp
  · rw [filter_cons_of_neg (by simpa using hk)]
    simp

/-- The regions before a place of the loop are the ones the inner loop looks at. -/
theorem take_of_zipIdx {seen rest : List (BootMemoryRegion × ℕ)}
    {p : BootMemoryRegion × ℕ} (h : regions.zipIdx = seen ++ p :: rest) :
    regions.take p.2 = seen.map Prod.fst := by
  have hindex : p.2 = seen.length := by
    have hget : regions.zipIdx[seen.length]? = some p := by simp [h]
    rw [getElem?_zipIdx] at hget
    obtain ⟨r, -, rfl⟩ := Option.map_eq_some_iff.1 hget
    exact Nat.zero_add _
  have hfst : regions = seen.map Prod.fst ++ (p :: rest).map Prod.fst := by
    rw [← map_append, ← h, zipIdx_map_fst]
  rw [hfst, hindex, ← length_map (f := Prod.fst), take_left]

/-- The loop over the regions lets clean lists through and its sum never saturates. -/
theorem addRegions_isOk {u : ℕ × ℕ} (h : regions.zipIdx.foldlM (addRegion regions) (0, 0) = .ok u) :
    Clean regions ∧ u.2 = usableBytes regions := by
  have := foldlM_inv (fun (seen : List (BootMemoryRegion × ℕ)) (u : ℕ × ℕ) =>
    Clean (seen.map Prod.fst) ∧ u.2 = usableBytes (seen.map Prod.fst)) ?_ ?_ h
  · rwa [zipIdx_map_fst] at this
  · exact ⟨⟨by simp, List.Pairwise.nil⟩, rfl⟩
  · intro seen p rest u u' hsplit hseen hadd
    obtain ⟨hclean, hsum⟩ := hseen
    obtain ⟨hlen, hlt, hover, hu⟩ := addRegion_isOk hadd
    rw [take_of_zipIdx hsplit] at hover
    rw [map_append, map_singleton]
    have hclean' : Clean (seen.map Prod.fst ++ [p.1]) := by
      exact ⟨forall_mem_concat hclean.wf ⟨hlen, hlt⟩, pairwise_concat hclean.apart hover⟩
    refine ⟨hclean', ?_⟩
    have hbound := hclean'.usableBytes_lt
    rw [usableBytes_snoc] at hbound ⊢
    rw [hu, hsum]
    split_ifs at hbound ⊢ with hk
    · rw [saturatingAdd]
      omega
    · rfl

theorem validateBootHandoff_isOk {handoff : BootHandoff} {report : BootValidationReport}
    (h : validateBootHandoff handoff = .ok report) :
    Clean handoff.memoryRegions ∧ report.usableBytes = usableBytes handoff.memoryRegions := by
  obtain ⟨_, -, h⟩ := except_bind_ok.1 h
  obtain ⟨_, -, h⟩ := except_bind_ok.1 h
  obtain ⟨_, -, h⟩ := except_bind_ok.1 h
  obtain ⟨_, -, h⟩ := except_bind_ok.1 h
  obtain ⟨_, -, h⟩ := except_bind_ok.1 h
  obtain ⟨u, hloop, h⟩ := except_bind_ok.1 h
  obtain ⟨_, -, h⟩ := except_bind_ok.1 h
  obtain ⟨_, -, h⟩ := except_bind_ok.1 h
  have hu : report.usableBytes = u.2 := by
    cases hf : handoff.framebuffer with
    | none =>
      rw [hf] at h
      cases h
      rfl
    | some framebuffer =>
      rw [hf] at h
      obtain ⟨_, -, h⟩ := except_bind_ok.1 h
      cases h
      rfl
  obtain ⟨hclean, hsum⟩ := addRegions_isOk hloop
  exact ⟨hclean, hu.trans hsum⟩

end BootHandoff

/-! The three together. -/

namespace LimineUsableMemory

open BootMemoryRegion

variable {N : ℕ} {entries : List LimineMemmapEntry}

theorem usableAt_usableOf {x : ℕ} : UsableAt (usableOf entries) x ↔
    ∃ e ∈ entries, e.kind = 0 ∧ e.base ≤ x ∧ x < e.base + e.length := by
  constructor
  · rintro ⟨r, hr, -, hlo, hhi⟩
    obtain ⟨e, he, rfl⟩ := mem_map.1 hr
    obtain ⟨hmem, h0⟩ := mem_filter.1 he
    exact ⟨e, hmem, of_decide_eq_true h0, hlo, hhi⟩
  · rintro ⟨e, he, h0, hlo, hhi⟩
    exact ⟨_, mem_map_of_mem (mem_filter.2 ⟨he, decide_eq_true h0⟩), rfl, hlo, hhi⟩

theorem Projectable.clean (h : Projectable N entries) : Clean (usableOf entries) := by
  refine ⟨fun r hr => ?_, ?_⟩
  · obtain ⟨e, he, rfl⟩ := mem_map.1 hr
    obtain ⟨hmem, h0⟩ := mem_filter.1 he
    exact ⟨(h.usable e hmem (of_decide_eq_true h0)).1, h.ends e hmem⟩
  · rw [usableOf, pairwise_map]
    refine (h.apart.filter _).imp_of_mem ?_
    intro a b ha _ hab
    exact hab (Or.inl (of_decide_eq_true (mem_filter.1 ha).2))

end LimineUsableMemory

open BootMemoryRegion LimineUsableMemory in
theorem boot_memory_checks_agree (N M : ℕ) (entries : List LimineMemmapEntry) :
    ((∃ usable : LimineUsableMemory N, fromEntries entries = .ok usable) ↔
      Projectable N entries) ∧
    (∀ entries', entries.Perm entries' →
      ((∃ usable : LimineUsableMemory N, fromEntries entries = .ok usable) ↔
        ∃ usable : LimineUsableMemory N, fromEntries entries' = .ok usable)) ∧
    (∀ usable : LimineUsableMemory N, fromEntries entries = .ok usable →
      usable.regions.length ≤ M →
        ∃ map : MemoryMap M, MemoryMap.fromEntries (usable.regions.map toCoreRegion) = .ok map ∧
          (∀ x, MemoryMap.KindAt map.regions .usable x ↔ UsableAt usable.regions x) ∧
          ∀ x, UsableAt usable.regions x ↔
            ∃ e ∈ entries, e.kind = 0 ∧ e.base ≤ x ∧ x < e.base + e.length) ∧
    ∀ handoff report, validateBootHandoff handoff = .ok report → handoff.memoryRegions.length ≤ M →
      ∃ map : MemoryMap M,
        MemoryMap.fromEntries (handoff.memoryRegions.map toCoreRegion) = .ok map ∧
          (∀ x, MemoryMap.KindAt map.regions .usable x ↔ UsableAt handoff.memoryRegions x) ∧
          (map.usableRegions.map MemoryRegion.length).sum = report.usableBytes := by
  refine ⟨fromEntries_isOk entries, fun entries' hp => ?_,
    fun usable hok hM => ?_, fun handoff report hok hM => ?_⟩
  · rw [fromEntries_isOk, fromEntries_isOk, projectable_perm hp]
  · have hregions := fromEntries_regions_eq hok
    have hclean : Clean usable.regions := hregions ▸ (projectable_of_ok hok).clean
    obtain ⟨map, hmap, hat⟩ := hclean.map hM
    refine ⟨map, hmap, hat, fun x => ?_⟩
    rw [hregions]
    exact usableAt_usableOf
  · obtain ⟨hclean, hbytes⟩ := BootHandoff.validateBootHandoff_isOk hok
    obtain ⟨map, hmap, hat⟩ := hclean.map hM
    exact ⟨map, hmap, hat, (hclean.total hmap).trans hbytes.symm⟩

-- an empty entry strictly inside a usable one is refused, at its edge it is not
example : (fromEntries (N := 2) [⟨4096, 8192, 0⟩, ⟨8192, 0, 1⟩]).toBool = false ∧
    (fromEntries (N := 2) [⟨4096, 8192, 0⟩, ⟨4096, 0, 1⟩]).toBool = true := by
  decide +kernel

end AegisHV
