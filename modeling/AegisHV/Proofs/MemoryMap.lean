import AegisHV.Proofs.Memory

/-! Which lists of entries the firmware memory map accepts, and that the regions it makes of
them do not depend on their order: a regular list is determined by the kinds it gives to
the addresses. -/

namespace AegisHV
open Sys List

namespace MemoryMap

open MemoryRegion

variable {N : ℕ}

variable {l : List MemoryRegion} {r : MemoryRegion}

theorem kindAt_base (hr : r ∈ l) (h : r.WF) :
    KindAt l r.kind r.base :=
  ⟨r, hr, rfl, le_rfl, Nat.lt_add_of_pos_right h.1⟩

variable {a : MemoryRegion}

/-- In a regular list the tail has the addresses behind the first region. -/
theorem kindAt_tail (h : Regular (a :: l))
    (k : MemoryRegionKind) (x : ℕ) : KindAt l k x ↔ KindAt (a :: l) k x ∧ a.hi ≤ x := by
  have hapart := (pairwise_cons.1 h.apart).1
  constructor
  · rintro ⟨r, hr, hk, hlo, hhi⟩
    exact ⟨⟨r, mem_cons_of_mem a hr, hk, hlo, hhi⟩, (hapart r hr).1.trans hlo⟩
  · rintro ⟨⟨r, hr, hk, hlo, hhi⟩, hx⟩
    rcases mem_cons.1 hr with rfl | hr
    · omega
    · exact ⟨r, hr, hk, hlo, hhi⟩

theorem Regular.tail (h : Regular (a :: l)) :
    Regular l :=
  ⟨fun r hr => h.wf r (mem_cons_of_mem a hr), (pairwise_cons.1 h.apart).2⟩

theorem Regular.head_le (h : Regular (a :: l))
    {k : MemoryRegionKind} {x : ℕ} (hx : KindAt (a :: l) k x) : a.base ≤ x := by
  obtain ⟨r, hr, -, hlo, -⟩ := hx
  rcases mem_cons.1 hr with rfl | hr
  · exact hlo
  · have h1 := ((pairwise_cons.1 h.apart).1 r hr).1
    have h2 : a.base ≤ a.hi := Nat.le_add_right _ _
    omega

/-- Behind the first region its own kind does not go on. -/
theorem Regular.not_kindAt_hi (h : Regular (a :: l)) :
    ¬ KindAt (a :: l) a.kind a.hi := by
  rintro ⟨r, hr, hk, hlo, hhi⟩
  rcases mem_cons.1 hr with rfl | hr
  · omega
  · have := ((pairwise_cons.1 h.apart).1 r hr).2 hk.symm
    omega

/-- The first region starts at the first address with a kind. -/
theorem Regular.head_kind (h : Regular (a :: l))
    {k : MemoryRegionKind} (hk : KindAt (a :: l) k a.base) : k = a.kind := by
  obtain ⟨r, hr, rfl, hlo, -⟩ := hk
  rcases mem_cons.1 hr with rfl | hr
  · rfl
  · have h1 := ((pairwise_cons.1 h.apart).1 r hr).1
    have h2 : a.base < a.hi := Nat.lt_add_of_pos_right (h.wf a (by simp)).1
    omega

variable {l' : List MemoryRegion}

theorem Regular.head_hi_le {b : MemoryRegion} (h : Regular (a :: l))
    (hk : ∀ k x, KindAt (a :: l) k x ↔ KindAt (b :: l') k x) (hbase : a.base = b.base)
    (hkind : a.kind = b.kind) : b.hi ≤ a.hi := by
  by_contra hlt
  have h1 : a.base < a.hi := Nat.lt_add_of_pos_right (h.wf a (by simp)).1
  have hb : KindAt (b :: l') a.kind a.hi := ⟨b, by simp, hkind.symm, by omega, by omega⟩
  exact h.not_kindAt_hi ((hk _ _).2 hb)

theorem Regular.head_eq {b : MemoryRegion} (h : Regular (a :: l))
    (h' : Regular (b :: l')) (hk : ∀ k x, KindAt (a :: l) k x ↔ KindAt (b :: l') k x) : a = b := by
  have ha : KindAt (a :: l) a.kind a.base := kindAt_base (by simp) (h.wf a (by simp))
  have hb : KindAt (b :: l') b.kind b.base := kindAt_base (by simp) (h'.wf b (by simp))
  have hbase : a.base = b.base :=
    le_antisymm (h.head_le ((hk _ _).2 hb)) (h'.head_le ((hk _ _).1 ha))
  have hkind : a.kind = b.kind := h'.head_kind (hbase ▸ (hk _ _).1 ha)
  have hhi : a.hi = b.hi := by
    apply le_antisymm
    · exact h'.head_hi_le (fun k x => (hk k x).symm) hbase.symm hkind.symm
    · exact h.head_hi_le hk hbase hkind
  have hlength : a.length = b.length := by
    simp only [hi] at hhi
    omega
  cases a
  simp only at hbase hkind hlength
  rw [hbase, hkind, hlength]

/-- A regular list is determined by the kinds of the addresses. -/
theorem regular_ext (h : Regular l) (h' : Regular l')
    (hk : ∀ k x, KindAt l k x ↔ KindAt l' k x) : l = l' := by
  induction l generalizing l' with
  | nil =>
    cases l' with
    | nil => rfl
    | cons b l' =>
      have hb := kindAt_base (l := b :: l') (by simp) (h'.wf b (by simp))
      obtain ⟨r, hr, -⟩ := (hk _ _).2 hb
      cases hr
  | cons a l ih =>
    cases l' with
    | nil =>
      have ha := kindAt_base (l := a :: l) (by simp) (h.wf a (by simp))
      obtain ⟨r, hr, -⟩ := (hk _ _).1 ha
      cases hr
    | cons b l' =>
      obtain rfl := h.head_eq h' hk
      rw [ih h.tail h'.tail]
      intro k x
      rw [kindAt_tail h, kindAt_tail h', hk]

/-! What the sort and the merge accept. -/

variable {t : Table MemoryRegion N}

theorem insertSorted_isOk (r : MemoryRegion) (h : t.len < N) :
    ∃ t', insertSorted t r = .ok t' := by
  unfold insertSorted
  rw [if_neg (by omega)]
  exact ⟨_, rfl⟩

variable {entries : List MemoryRegion}

theorem sortEntries_isOk (hlen : entries.length ≤ N)
    (hw : ∀ r ∈ entries, r.WF) : ∃ t : Table MemoryRegion N, sortEntries entries = .ok t := by
  induction entries using List.reverseRecOn with
  | nil => exact ⟨_, rfl⟩
  | append_singleton l r ih =>
    rw [length_append, length_singleton] at hlen
    obtain ⟨t, ht⟩ := ih (by omega) (fun x hx => hw x (by simp [hx]))
    have hroom : t.len < N := by
      rw [← t.toList_length, (sortEntries_spec ht).1.length_eq]
      omega
    obtain ⟨t', ht'⟩ := insertSorted_isOk r hroom
    refine ⟨t', ?_⟩
    rw [sortEntries, foldlM_append]
    refine except_bind_ok.2 ⟨t, ht, ?_⟩
    rw [foldlM_cons, validateRegion_ok.2 (hw r (by simp)), ht']
    rfl

/-- The merge refuses a region exactly when it starts inside one of another kind. -/
theorem mergeRegion_isOk (h : Regular t.toList)
    (hr : r.WF) (hbase : ∀ a ∈ t.toList, a.base ≤ r.base) (hroom : t.len < N) :
    (∃ t', mergeRegion t r = .ok t') ↔ ∀ k, KindAt t.toList k r.base → k = r.kind := by
  unfold mergeRegion
  rcases eq_nil_or_concat' t.toList with hnil | ⟨l, last, hl⟩
  · have hlen : t.len = 0 := by rw [← t.toList_length, hnil]; rfl
    rw [if_pos hlen, hnil]
    exact iff_of_true ⟨_, rfl⟩ (by simp [KindAt])
  · have hlen : t.len = l.length + 1 := by rw [← t.toList_length, hl]; simp
    have hlast : t.get (t.len - 1) MemoryRegion.empty = last := by
      rw [hlen]
      exact Table.get_append hl _
    have hwf : last.WF := h.wf last (by simp [hl])
    have hb : last.base ≤ r.base := hbase last (by simp [hl])
    -- only the last region can reach over the base of a region that starts behind all others
    have honly : (∀ k, KindAt t.toList k r.base → k = r.kind) ↔
        ¬ (r.base < last.hi ∧ r.kind ≠ last.kind) := by
      constructor
      · rintro hall ⟨hlt, hne⟩
        exact hne (hall last.kind ⟨last, by simp [hl], rfl, hb, hlt⟩).symm
      · rintro hnot k ⟨m, hm, rfl, -, hhi⟩
        rw [hl, mem_append, mem_singleton] at hm
        rcases hm with hm | rfl
        · have := ((pairwise_append.1 (hl ▸ h.apart)).2.2 m hm last (by simp)).1
          omega
        · by_contra hne
          exact hnot ⟨hhi, fun heq => hne heq.symm⟩
    rw [honly, if_neg (by omega), hlast]
    simp only [hwf.stop, hr.stop, except_ok_bind]
    by_cases hbad : r.base < last.hi ∧ r.kind ≠ last.kind
    · rw [if_pos hbad]
      exact iff_of_false (by simp) (by simpa using hbad)
    · rw [if_neg hbad]
      refine iff_of_true ?_ hbad
      by_cases hmerge : r.base ≤ last.hi ∧ r.kind = last.kind
      · rw [if_pos hmerge]
        exact ⟨_, rfl⟩
      · rw [if_neg hmerge, if_neg (by omega)]
        exact ⟨_, rfl⟩

theorem mergeRegion_len {t' : Table MemoryRegion N} (hN : 0 < N)
    (h : mergeRegion t r = .ok t') : t'.len ≤ t.len + 1 := by
  unfold mergeRegion at h
  by_cases hlen : t.len = 0
  · rw [if_pos hlen] at h
    cases h
    rw [Table.push_len _ _ (by omega)]
  rw [if_neg hlen] at h
  obtain ⟨lastEnd, -, h⟩ := except_bind_ok.1 h
  split_ifs at h with hbad hmerge hfull
  · obtain ⟨stop, -, h⟩ := except_bind_ok.1 h
    cases h
    exact Nat.le_succ _
  · cases h
    rw [Table.push_len _ _ (by omega)]

/-- No region starts inside an earlier one of another kind. -/
def Compatible (l : List MemoryRegion) : Prop :=
  l.Pairwise fun a b => b.base < a.hi → a.kind = b.kind

theorem mergeAll_append (l : List MemoryRegion) (r : MemoryRegion) (t' : Table MemoryRegion N) :
    mergeAll (l ++ [r]) = .ok t' ↔
      ∃ t : Table MemoryRegion N, mergeAll l = .ok t ∧ mergeRegion t r = .ok t' := by
  rw [mergeAll, foldlM_append, except_bind_ok]
  simp [mergeAll]

theorem mergeAll_len {sorted : List MemoryRegion} (hlen : sorted.length ≤ N) :
    ∀ {t : Table MemoryRegion N}, mergeAll sorted = .ok t → t.len ≤ sorted.length := by
  induction sorted using List.reverseRecOn with
  | nil =>
    intro t h
    cases h
    exact le_rfl
  | append_singleton l r ih =>
    intro t' h
    rw [length_append, length_singleton] at hlen ⊢
    obtain ⟨t, ht, hstep⟩ := (mergeAll_append l r t').1 h
    have hle := ih (by omega) ht
    have hstep' := mergeRegion_len (by omega) hstep
    omega

theorem mergeAll_isOk {sorted : List MemoryRegion} (hlen : sorted.length ≤ N)
    (hs : sorted.Pairwise fun a b => a.base ≤ b.base) (hw : ∀ r ∈ sorted, r.WF) :
    (∃ t : Table MemoryRegion N, mergeAll sorted = .ok t) ↔ Compatible sorted := by
  induction sorted using List.reverseRecOn with
  | nil => exact iff_of_true ⟨_, rfl⟩ List.Pairwise.nil
  | append_singleton l r ih =>
    rw [length_append, length_singleton] at hlen
    obtain ⟨hsl, -, hlast⟩ := pairwise_append.1 hs
    have hwl : ∀ x ∈ l, x.WF := fun x hx => hw x (by simp [hx])
    have hle : ∀ a ∈ l, a.base ≤ r.base := fun a ha => hlast a ha r (by simp)
    specialize ih (by omega) hsl hwl
    have hone : ∀ t : Table MemoryRegion N, mergeAll l = .ok t →
        ((∃ t', mergeRegion t r = .ok t') ↔ ∀ a ∈ l, r.base < a.hi → a.kind = r.kind) := by
      intro t ht
      obtain ⟨hreg, hbase, hkind⟩ := mergeAll_full (by omega) hsl hwl ht
      have hroom := mergeAll_len (by omega) ht
      have hbefore : ∀ a ∈ t.toList, a.base ≤ r.base := by
        intro a ha
        obtain ⟨b, hb, hab⟩ := hbase a ha
        exact hab.trans (hle b hb)
      rw [mergeRegion_isOk hreg (hw r (by simp)) hbefore (by omega)]
      constructor
      · intro hall a ha hlt
        exact hall a.kind ((hkind _ _).2 ⟨a, ha, rfl, hle a ha, hlt⟩)
      · intro hall k hk
        obtain ⟨a, ha, rfl, -, hlt⟩ := (hkind _ _).1 hk
        exact hall a ha hlt
    rw [Compatible, pairwise_append]
    simp only [mergeAll_append, pairwise_singleton, true_and, mem_singleton, forall_eq]
    constructor
    · rintro ⟨t', t, ht, hstep⟩
      exact ⟨ih.1 ⟨t, ht⟩, (hone t ht).1 ⟨t', hstep⟩⟩
    · rintro ⟨hcomp, hnew⟩
      obtain ⟨t, ht⟩ := ih.2 hcomp
      obtain ⟨t', hstep⟩ := (hone t ht).2 hnew
      exact ⟨t', t, ht, hstep⟩

/-- Two regions share an address. -/
def Overlaps (a b : MemoryRegion) : Prop := a.base < b.hi ∧ b.base < a.hi

/-- On sorted regions of some length, comparing each with those behind it is enough. -/
theorem compatible_iff (hs : l.Pairwise fun a b => a.base ≤ b.base) (hw : ∀ r ∈ l, r.WF) :
    Compatible l ↔ ∀ a ∈ l, ∀ b ∈ l, a.kind ≠ b.kind → ¬ Overlaps a b := by
  constructor
  · intro h a ha b hb
    have hsymm : Std.Symm fun a b : MemoryRegion => a.kind ≠ b.kind → ¬ Overlaps a b :=
      ⟨fun a b hab hne hover => hab (Ne.symm hne) ⟨hover.2, hover.1⟩⟩
    have hpair : l.Pairwise fun a b => a.kind ≠ b.kind → ¬ Overlaps a b :=
      h.imp fun hab hne hover => hne (hab hover.2)
    exact hpair.forall_of_forall (fun a _ hne => absurd rfl hne) ha hb
  · intro h
    refine hs.imp_of_mem fun {a b} ha hb hle hlt => ?_
    by_contra hne
    have hb' : b.base < b.hi := Nat.lt_add_of_pos_right (hw b hb).1
    exact h a ha b hb hne ⟨by omega, hlt⟩

/-- The lists of entries that are accepted. -/
structure Acceptable (N : ℕ) (entries : List MemoryRegion) : Prop where
  fits : entries.length ≤ N
  wf : ∀ r ∈ entries, 0 < r.length ∧ r.base + r.length < 2 ^ 64
  compatible : ∀ a ∈ entries, ∀ b ∈ entries, a.kind ≠ b.kind → ¬ Overlaps a b

theorem acceptable_perm {entries' : List MemoryRegion} (h : entries.Perm entries') :
    Acceptable N entries ↔ Acceptable N entries' := by
  have main : ∀ {l l' : List MemoryRegion}, l.Perm l' → Acceptable N l → Acceptable N l' := by
    intro l l' hp ha
    refine ⟨hp.length_eq ▸ ha.fits, fun r hr => ha.wf r (hp.mem_iff.2 hr), ?_⟩
    intro a hal b hbl
    exact ha.compatible a (hp.mem_iff.2 hal) b (hp.mem_iff.2 hbl)
  exact ⟨main h, main h.symm⟩

theorem fromEntries_isOk (entries : List MemoryRegion) :
    (∃ map : MemoryMap N, fromEntries entries = .ok map) ↔ Acceptable N entries := by
  unfold fromEntries
  by_cases hlen : N < entries.length
  · rw [if_pos hlen]
    refine iff_of_false (by simp) fun h => ?_
    have := h.fits
    omega
  rw [if_neg hlen]
  simp only [except_bind_ok]
  constructor
  · rintro ⟨map, sorted, hsort, merged, hmerge, -⟩
    obtain ⟨hperm, hs, hw⟩ := sortEntries_spec hsort
    have hws : ∀ r ∈ sorted.toList, r.WF := fun r hr => hw r (hperm.mem_iff.1 hr)
    have hcomp := (mergeAll_isOk (by rw [hperm.length_eq]; omega) hs hws).1 ⟨merged, hmerge⟩
    refine (acceptable_perm hperm).1 ⟨?_, hws, (compatible_iff hs hws).1 hcomp⟩
    rw [hperm.length_eq]
    omega
  · intro h
    obtain ⟨sorted, hsort⟩ := sortEntries_isOk h.fits h.wf
    obtain ⟨hperm, hs, hw⟩ := sortEntries_spec hsort
    have hacc := (acceptable_perm hperm).2 h
    obtain ⟨merged, hmerge⟩ :=
      (mergeAll_isOk hacc.fits hs hacc.wf).2 ((compatible_iff hs hacc.wf).2 hacc.compatible)
    exact ⟨⟨merged⟩, sorted, hsort, merged, hmerge, rfl⟩

/-- What an accepted map says about its entries. -/
structure Describes (map : MemoryMap N) (entries : List MemoryRegion) : Prop where
  sorted : map.regions.Pairwise fun a b => a.base < b.base
  disjoint : map.regions.Pairwise fun a b => ¬ Overlaps a b
  merged : map.regions.Pairwise fun a b => a.hi = b.base → a.kind ≠ b.kind
  kinds : ∀ k x, KindAt map.regions k x ↔ KindAt entries k x

theorem fromEntries_describes {map : MemoryMap N}
    (h : fromEntries entries = .ok map) : Describes map entries := by
  obtain ⟨hreg, hkinds⟩ := fromEntries_spec h
  refine ⟨?_, ?_, ?_, hkinds⟩
  · refine hreg.apart.imp_of_mem fun {a b} ha _ hab => ?_
    have : a.base < a.hi := Nat.lt_add_of_pos_right (hreg.wf a ha).1
    omega
  · refine hreg.apart.imp fun {a b} hab hover => ?_
    have := hover.2
    omega
  · refine hreg.apart.imp fun {a b} hab htouch hkind => ?_
    have := hab.2 hkind
    omega

/-- The regions do not depend on the order of the entries. -/
theorem regions_perm {entries' : List MemoryRegion} (hp : entries.Perm entries') :
    (fromEntries (N := N) entries).toOption.map regions =
      (fromEntries (N := N) entries').toOption.map regions := by
  have hok : (∃ map : MemoryMap N, fromEntries entries = .ok map) ↔
      ∃ map : MemoryMap N, fromEntries entries' = .ok map := by
    rw [fromEntries_isOk, fromEntries_isOk, acceptable_perm hp]
  cases h : fromEntries (N := N) entries with
  | error e =>
    cases h' : fromEntries (N := N) entries' with
    | error e' => rfl
    | ok map' =>
      obtain ⟨map, hmap⟩ := hok.2 ⟨map', h'⟩
      rw [h] at hmap
      cases hmap
  | ok map =>
    obtain ⟨map', h'⟩ := hok.1 ⟨map, h⟩
    rw [h']
    obtain ⟨hreg, hkinds⟩ := fromEntries_spec h
    obtain ⟨hreg', hkinds'⟩ := fromEntries_spec h'
    have hsame : map.regions = map'.regions := by
      apply regular_ext hreg hreg'
      intro k x
      rw [hkinds, hkinds', kindAt_perm hp]
    simp [Except.toOption, hsame]

theorem fromEntries_correct (N : ℕ) (entries : List MemoryRegion) :
    ((∃ map : MemoryMap N, fromEntries entries = .ok map) ↔ Acceptable N entries) ∧
      (∀ map : MemoryMap N, fromEntries entries = .ok map → Describes map entries) ∧
      ∀ entries', entries.Perm entries' →
        (fromEntries (N := N) entries).toOption.map regions =
          (fromEntries (N := N) entries').toOption.map regions :=
  ⟨fromEntries_isOk entries, fun _ => fromEntries_describes, fun _ => regions_perm⟩

end MemoryMap
end AegisHV
