import AegisHV.Spec.Memory
import AegisHV.Lib.Span

/-! The firmware memory map. Sorting permutes the entries, merging keeps the kind of
every address, and the regions that come out are sorted and disjoint, with a gap
between neighbours of one kind. -/

namespace AegisHV
open Sys List

namespace MemoryRegion

/-- The end of a region that does not overflow. -/
def hi (r : MemoryRegion) : ℕ := r.base + r.length

def WF (r : MemoryRegion) : Prop := 0 < r.length ∧ r.base + r.length < 2 ^ 64

theorem stop_eq_ok {r : MemoryRegion} {n : ℕ} :
    r.stop = .ok n ↔ r.base + r.length < 2 ^ 64 ∧ n = r.hi := by
  unfold stop
  cases h : checkedAdd r.base r.length with
  | none =>
    rw [checkedAdd_eq_none] at h
    refine ⟨fun hn => by simp at hn, fun hn => absurd hn.1 (by omega)⟩
  | some m =>
    obtain ⟨hlt, rfl⟩ := checkedAdd_eq_some.1 h
    exact ⟨fun hn => ⟨hlt, by simpa [hi, eq_comm] using hn⟩, fun hn => by rw [hn.2]; rfl⟩

theorem WF.stop {r : MemoryRegion} (h : r.WF) : r.stop = .ok r.hi := stop_eq_ok.2 ⟨h.2, rfl⟩

end MemoryRegion

namespace MemoryMap

open MemoryRegion

variable {N : ℕ}

/-- Address `x` lies in a region of kind `k`. -/
def KindAt (l : List MemoryRegion) (k : MemoryRegionKind) (x : ℕ) : Prop :=
  ∃ r ∈ l, r.kind = k ∧ r.base ≤ x ∧ x < r.hi

structure Regular (l : List MemoryRegion) : Prop where
  wf : ∀ r ∈ l, r.WF
  apart : l.Pairwise fun a b => a.hi ≤ b.base ∧ (a.kind = b.kind → a.hi < b.base)

variable {l : List MemoryRegion}

theorem kindAt_append {l' : List MemoryRegion} {k : MemoryRegionKind} {x : ℕ} :
    KindAt (l ++ l') k x ↔ KindAt l k x ∨ KindAt l' k x := by
  simp only [KindAt, mem_append, or_and_right, exists_or]

variable {r : MemoryRegion}

theorem kindAt_singleton {k : MemoryRegionKind} {x : ℕ} :
    KindAt [r] k x ↔ r.kind = k ∧ r.base ≤ x ∧ x < r.hi := by
  simp [KindAt]

theorem kindAt_perm {l' : List MemoryRegion} (h : l.Perm l') (k : MemoryRegionKind) (x : ℕ) :
    KindAt l k x ↔ KindAt l' k x := by
  simp only [KindAt, h.mem_iff]

theorem validateRegion_ok : validateRegion r = .ok () ↔ r.WF := by
  unfold validateRegion
  split_ifs with h
  · exact ⟨fun hc => by simp at hc, fun hw => absurd h hw.1.ne'⟩
  · rw [except_bind_ok]
    constructor
    · rintro ⟨n, hn, -⟩
      exact ⟨Nat.pos_of_ne_zero h, (stop_eq_ok.1 hn).1⟩
    · intro hw
      exact ⟨r.hi, hw.stop, rfl⟩

variable {t : Table MemoryRegion N}

/-- One round of the sort keeps the entries seen, as a multiset, in order of their bases. -/
theorem insertSorted_spec {t' : Table MemoryRegion N}
    (hs : t.toList.Pairwise fun a b => a.base ≤ b.base) (h : insertSorted t r = .ok t') :
    t'.toList.Perm (r :: t.toList) ∧ t'.toList.Pairwise fun a b => a.base ≤ b.base := by
  unfold insertSorted at h
  split_ifs at h with hN
  cases h
  obtain ⟨l, u, hl, hu, hlater, hlast⟩ := t.toList_insertBy (fun y => r.base < y.base) r (by omega)
  rw [hl] at hs ⊢
  rw [hu]
  refine ⟨perm_middle, ?_⟩
  obtain ⟨hsl, hsu, hcross⟩ := pairwise_append.1 hs
  have hmax : ∀ y ∈ l, y.base ≤ r.base := by
    intro y hy
    -- the last of `l` does not sort later than `r`, and `l` is sorted
    obtain ⟨l', z, rfl⟩ := (eq_nil_or_concat' l).resolve_left (ne_nil_of_mem hy)
    have hz : z.base ≤ r.base := by simpa using hlast z (by simp)
    rcases mem_append.1 hy with hy' | hy'
    · exact ((pairwise_append.1 hsl).2.2 y hy' z (by simp)).trans hz
    · rw [mem_singleton.1 hy']
      exact hz
  refine pairwise_append.2 ⟨hsl, pairwise_cons.2 ⟨?_, hsu⟩, ?_⟩
  · intro y hy
    have := hlater y hy
    simp only [decide_eq_true_eq] at this
    omega
  · intro a ha b hb
    rcases mem_cons.1 hb with rfl | hb
    · exact hmax a ha
    · exact hcross a ha b hb

theorem sortEntries_spec {entries : List MemoryRegion} (h : sortEntries entries = .ok t) :
    t.toList.Perm entries ∧ (t.toList.Pairwise fun a b => a.base ≤ b.base) ∧
      ∀ r ∈ entries, r.WF := by
  refine foldlM_inv (fun seen (t : Table MemoryRegion N) => t.toList.Perm seen ∧
    (t.toList.Pairwise fun a b => a.base ≤ b.base) ∧ ∀ r ∈ seen, r.WF) ?_ ?_ h
  · simp
  · rintro seen a rest t t' - ⟨hp, hs, hw⟩ hstep
    obtain ⟨⟨⟩, hv, hi⟩ := except_bind_ok.1 hstep
    obtain ⟨hp', hs'⟩ := insertSorted_spec hs hi
    exact ⟨hp'.trans ((hp.cons a).trans (perm_append_singleton a seen).symm), hs',
      forall_mem_concat hw (validateRegion_ok.1 hv)⟩

theorem regular_nil : Regular [] := ⟨by simp, List.Pairwise.nil⟩

variable {last : MemoryRegion}

/-- Appending a region behind the last one; the gap is needed for a last region of its own kind
only, since all others end before the last one starts. -/
theorem regular_snoc (h : Regular (l ++ [last]))
    (hr : r.WF) (hle : last.hi ≤ r.base) (hkind : last.kind = r.kind → last.hi < r.base) :
    Regular (l ++ [last] ++ [r]) := by
  obtain ⟨-, -, hcross⟩ := pairwise_append.1 h.apart
  have hlast := h.wf last (by simp)
  refine ⟨forall_mem_concat h.wf hr, pairwise_concat h.apart
    (forall_mem_concat (fun a ha => ?_) ⟨hle, hkind⟩)⟩
  have h1 := (hcross a ha last (by simp)).1
  have h2 : last.base < last.hi := Nat.lt_add_of_pos_right hlast.1
  omega

/-- Widening the last region upwards. -/
theorem regular_widen (h : Regular (l ++ [last]))
    (hr : r.WF) (hbase : r.base = last.base) (hkind : r.kind = last.kind) :
    Regular (l ++ [r]) := by
  obtain ⟨hl, -, hcross⟩ := pairwise_append.1 h.apart
  refine ⟨forall_mem_concat (fun x hx => h.wf x (by simp [hx])) hr, pairwise_concat hl fun a ha => ?_⟩
  rw [hbase, hkind]
  exact hcross a ha last (by simp)

/-- The last region widened to the end of one that starts inside it or at its end. -/
theorem widened_spec (h : Regular (l ++ [last]))
    (hr : r.WF) (hbase : last.base ≤ r.base) (hmeets : r.base ≤ last.hi)
    (hkind : r.kind = last.kind) :
    let w : MemoryRegion := ⟨last.base, max last.hi r.hi - last.base, last.kind⟩
    Regular (l ++ [w]) ∧ ∀ k x, KindAt (l ++ [w]) k x ↔ KindAt (l ++ [last] ++ [r]) k x := by
  intro w
  have hwhi : w.hi = max last.hi r.hi := by
    simp only [w, hi] at hbase ⊢
    omega
  have hw : w.WF := by
    obtain ⟨h1, h2⟩ := h.wf last (by simp)
    obtain ⟨h3, h4⟩ := hr
    simp only [WF, w, hi]
    omega
  refine ⟨regular_widen h hw rfl rfl, fun k x => ?_⟩
  simp only [kindAt_append, kindAt_singleton, or_assoc, hwhi, hkind]
  refine or_congr_right ?_
  rw [← and_or_left]
  refine and_congr_right fun _ => ?_
  change last.base ≤ x ∧ x < max last.hi r.hi ↔ _
  omega

theorem mergeRegion_spec {t' : Table MemoryRegion N} (hN : 0 < N)
    (h : Regular t.toList) (hr : r.WF) (hbase : ∀ a ∈ t.toList, a.base ≤ r.base)
    (hm : mergeRegion t r = .ok t') :
    Regular t'.toList ∧ (∀ a ∈ t'.toList, a.base ≤ r.base) ∧
      ∀ k x, KindAt t'.toList k x ↔ KindAt (t.toList ++ [r]) k x := by
  unfold mergeRegion at hm
  rcases eq_nil_or_concat' t.toList with hnil | ⟨l, last, hl⟩
  · have hlen : t.len = 0 := by rw [← t.toList_length, hnil]; rfl
    rw [if_pos hlen] at hm
    cases hm
    rw [t.toList_push r (by omega), hnil]
    exact ⟨⟨by simpa using hr, by simp⟩, by simp, fun k x => Iff.rfl⟩
  · have hlen : t.len = l.length + 1 := by rw [← t.toList_length, hl]; simp
    have hlast : t.get (t.len - 1) MemoryRegion.empty = last := by
      rw [hlen]
      exact Table.get_append hl _
    have hwf : last.WF := h.wf last (by simp [hl])
    rw [hl] at h
    have hb : last.base ≤ r.base := hbase last (by simp [hl])
    rw [if_neg (by omega), hlast] at hm
    simp only [hwf.stop, hr.stop, except_ok_bind] at hm
    rw [show (if last.hi < r.hi then r.hi else last.hi) = max last.hi r.hi by
      split_ifs <;> omega] at hm
    split_ifs at hm with hoverlap hmerge hfull
    · cases hm
      obtain ⟨hreg, hat⟩ := widened_spec h hr hb hmerge.1 hmerge.2
      rw [hlen, Nat.add_sub_cancel, Table.set_append hl, hl]
      exact ⟨hreg, forall_mem_concat (fun a ha => hbase a (by simp [hl, ha])) hb, hat⟩
    · cases hm
      rw [t.toList_push r (by omega), hl]
      refine ⟨regular_snoc h hr ?_ ?_, forall_mem_concat (hl ▸ hbase) le_rfl, fun k x => Iff.rfl⟩
      · by_contra hlt
        have : r.kind = last.kind := by
          by_contra hne
          exact hoverlap ⟨by omega, hne⟩
        exact hmerge ⟨by omega, this⟩
      · intro hk
        by_contra hle
        exact hmerge ⟨by omega, hk.symm⟩

/-- A merged region starts no later than some region seen, so no later than any to come. -/
theorem mergeAll_full {sorted : List MemoryRegion}
    (hN : sorted ≠ [] → 0 < N) (hs : sorted.Pairwise fun a b => a.base ≤ b.base)
    (hw : ∀ r ∈ sorted, r.WF) (h : mergeAll sorted = .ok t) :
    Regular t.toList ∧ (∀ a ∈ t.toList, ∃ b ∈ sorted, a.base ≤ b.base) ∧
      ∀ k x, KindAt t.toList k x ↔ KindAt sorted k x := by
  refine foldlM_inv (fun seen (t : Table MemoryRegion N) => Regular t.toList ∧
    (∀ a ∈ t.toList, ∃ b ∈ seen, a.base ≤ b.base) ∧
      ∀ k x, KindAt t.toList k x ↔ KindAt seen k x) ?_ ?_ h
  · exact ⟨regular_nil, by simp, fun k x => Iff.rfl⟩
  · rintro seen a rest t t' rfl ⟨hreg, hbase, hkind⟩ hstep
    obtain ⟨-, -, hcross⟩ := pairwise_append.1 hs
    have hle : ∀ c ∈ t.toList, c.base ≤ a.base := by
      intro c hc
      obtain ⟨b, hb, hcb⟩ := hbase c hc
      exact hcb.trans (hcross b hb a (by simp))
    obtain ⟨hreg', hbase', hkind'⟩ :=
      mergeRegion_spec (hN (by simp)) hreg (hw a (by simp)) hle hstep
    refine ⟨hreg', fun c hc => ⟨a, by simp, hbase' c hc⟩, fun k x => ?_⟩
    rw [hkind', kindAt_append, kindAt_append, hkind]

/-- An accepted map is regular and gives every address the kinds its entries give it. -/
theorem fromEntries_spec {entries : List MemoryRegion} {map : MemoryMap N}
    (h : fromEntries entries = .ok map) :
    Regular map.regions ∧ ∀ k x, KindAt map.regions k x ↔ KindAt entries k x := by
  unfold fromEntries at h
  split_ifs at h with hlen
  obtain ⟨sorted, hsort, h⟩ := except_bind_ok.1 h
  obtain ⟨merged, hmerge, h⟩ := except_bind_ok.1 h
  cases h
  obtain ⟨hperm, hs, hw⟩ := sortEntries_spec hsort
  have hN : sorted.toList ≠ [] → 0 < N := by
    intro hne
    have h1 := length_pos_of_ne_nil hne
    have h2 := sorted.len_le
    rw [sorted.toList_length] at h1
    omega
  obtain ⟨hreg, -, hkind⟩ := mergeAll_full hN hs (fun r hr => hw r (hperm.mem_iff.1 hr)) hmerge
  exact ⟨hreg, fun k x => (hkind k x).trans (kindAt_perm hperm k x)⟩

/-- The usable regions of a regular map have a gap between neighbours. -/
theorem usableRegions_apart {map : MemoryMap N} (h : Regular map.regions) :
    Apart base hi map.usableRegions := by
  have : map.usableRegions.Pairwise fun a b =>
      a.hi ≤ b.base ∧ (a.kind = b.kind → a.hi < b.base) := h.apart.filter _
  refine this.imp_of_mem ?_
  intro a b ha hb hab
  simp only [usableRegions, mem_filter, decide_eq_true_eq] at ha hb
  exact hab.2 (ha.2.trans hb.2.symm)

end MemoryMap
end AegisHV
