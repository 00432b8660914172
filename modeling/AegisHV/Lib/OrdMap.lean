import Mathlib.Tactic

/-! Maps that keep their entries sorted by key, as a `BTreeMap` does: iteration runs over
the entries in key order, and a search for a value finds the first one in that order. -/

namespace Sys
open List

universe u v

@[ext] structure OrdMap (K : Type u) (V : Type v) [LinearOrder K] where
  entries : List (K × V)
  sorted : entries.Pairwise fun a b => a.1 < b.1

namespace OrdMap

variable {K : Type u} {V : Type v} [LinearOrder K] {m : OrdMap K V} {k k' : K} {v : V}

def getEntry (k : K) : List (K × V) → Option V
  | [] => none
  | e :: l => if e.1 = k then some e.2 else getEntry k l

def insertEntry (k : K) (v : V) : List (K × V) → List (K × V)
  | [] => [(k, v)]
  | e :: l =>
    if k < e.1 then (k, v) :: e :: l
    else if k = e.1 then (k, v) :: l
    else e :: insertEntry k v l

theorem mem_insertEntry {l : List (K × V)} {e : K × V} (h : e ∈ insertEntry k v l) :
    e = (k, v) ∨ e ∈ l := by
  induction l with
  | nil => exact Or.inl (mem_singleton.1 h)
  | cons e' l ih =>
    unfold insertEntry at h
    split_ifs at h with hlt heq
    · exact mem_cons.1 h
    · rcases mem_cons.1 h with h | h
      · exact Or.inl h
      · exact Or.inr (mem_cons_of_mem _ h)
    · rcases mem_cons.1 h with rfl | h
      · exact Or.inr (mem_cons_self ..)
      · exact (ih h).imp_right (mem_cons_of_mem _)

theorem insertEntry_sorted {l : List (K × V)} (k : K) (v : V)
    (h : l.Pairwise fun a b => a.1 < b.1) :
    (insertEntry k v l).Pairwise fun a b => a.1 < b.1 := by
  induction l with
  | nil => exact pairwise_singleton _ _
  | cons e l ih =>
    obtain ⟨he, hl⟩ := pairwise_cons.1 h
    unfold insertEntry
    split_ifs with hlt heq
    · refine pairwise_cons.2 ⟨fun b hb => ?_, h⟩
      rcases mem_cons.1 hb with rfl | hb
      · exact hlt
      · exact hlt.trans (he b hb)
    · exact pairwise_cons.2 ⟨fun b hb => heq ▸ he b hb, hl⟩
    · refine pairwise_cons.2 ⟨fun b hb => ?_, ih hl⟩
      rcases mem_insertEntry hb with rfl | hb
      · exact lt_of_le_of_ne (not_lt.1 hlt) (Ne.symm heq)
      · exact he b hb

def empty : OrdMap K V := ⟨[], List.Pairwise.nil⟩

def get (m : OrdMap K V) (k : K) : Option V := getEntry k m.entries

def insert (m : OrdMap K V) (k : K) (v : V) : OrdMap K V :=
  ⟨insertEntry k v m.entries, insertEntry_sorted k v m.sorted⟩

/-- Changes the value at `k` in place, if there is one. -/
def modify (m : OrdMap K V) (k : K) (f : V → V) : OrdMap K V where
  entries := m.entries.map fun e => if e.1 = k then (e.1, f e.2) else e
  sorted := by
    refine pairwise_map.2 (m.sorted.imp fun {a b} hab => ?_)
    split_ifs <;> exact hab

def remove (m : OrdMap K V) (k : K) : OrdMap K V where
  entries := m.entries.filter fun e => e.1 ≠ k
  sorted := m.sorted.filter _

def values (m : OrdMap K V) : List V := m.entries.map Prod.snd

/-- The key of the first value that satisfies `p`. -/
def findKey (m : OrdMap K V) (p : V → Bool) : Option K :=
  (m.entries.find? fun e => p e.2).map Prod.fst

theorem get_insert (m : OrdMap K V) (k k' : K) (v : V) :
    (m.insert k v).get k' = if k' = k then some v else m.get k' := by
  obtain ⟨l, hl⟩ := m
  change getEntry k' (insertEntry k v l) = if k' = k then some v else getEntry k' l
  clear hl
  induction l with
  | nil => simp only [insertEntry, getEntry, eq_comm]
  | cons e l ih =>
    rcases eq_or_ne k' k with rfl | hk
    · rw [if_pos rfl] at ih ⊢
      unfold insertEntry
      split_ifs with hlt heq
      · simp [getEntry]
      · simp [getEntry]
      · simp [getEntry, Ne.symm heq, ih]
    · rw [if_neg hk] at ih ⊢
      unfold insertEntry
      split_ifs with hlt heq
      · simp [getEntry, Ne.symm hk]
      · subst heq
        simp [getEntry, Ne.symm hk]
      · simp only [getEntry, ih]

theorem get_modify (m : OrdMap K V) (k k' : K) (f : V → V) :
    (m.modify k f).get k' = if k' = k then (m.get k).map f else m.get k' := by
  obtain ⟨l, hl⟩ := m
  change getEntry k' (l.map fun e => if e.1 = k then (e.1, f e.2) else e) =
    if k' = k then (getEntry k l).map f else getEntry k' l
  clear hl
  induction l with
  | nil => simp [getEntry]
  | cons e l ih =>
    rw [map_cons, getEntry, ih, getEntry, getEntry]
    by_cases he : e.1 = k
    · by_cases hk : k' = k
      · simp [he, hk]
      · simp [he, hk, Ne.symm hk]
    · by_cases hk : k' = k
      · simp [he, hk]
      · simp [he, hk]

theorem get_remove (m : OrdMap K V) (k k' : K) :
    (m.remove k).get k' = if k' = k then none else m.get k' := by
  obtain ⟨l, hl⟩ := m
  change getEntry k' (l.filter fun e => e.1 ≠ k) = if k' = k then none else getEntry k' l
  clear hl
  induction l with
  | nil => simp [getEntry]
  | cons e l ih =>
    rw [filter_cons]
    by_cases he : e.1 = k
    · by_cases hk : k' = k
      · simpa [he, hk] using ih
      · simpa [he, getEntry, Ne.symm hk] using ih
    · by_cases hk : k' = k
      · simpa [he, hk, getEntry] using ih
      · simp only [he, hk, getEntry, ne_eq, not_false_eq_true, decide_true, if_true, if_false, ih]

theorem modify_modify (m : OrdMap K V) (k : K) (f g : V → V) :
    (m.modify k f).modify k g = m.modify k (g ∘ f) := by
  ext1
  simp only [modify, map_map]
  refine map_congr_left fun e _ => ?_
  by_cases he : e.1 = k <;> simp [he]

theorem mem_entries : (k, v) ∈ m.entries ↔ m.get k = some v := by
  obtain ⟨l, hl⟩ := m
  change (k, v) ∈ l ↔ getEntry k l = some v
  induction l with
  | nil => simp [getEntry]
  | cons e l ih =>
    obtain ⟨he, hl⟩ := pairwise_cons.1 hl
    rw [mem_cons, getEntry]
    split_ifs with hk
    · have hout : (k, v) ∉ l := fun hmem => absurd (he _ hmem) (by simp [hk])
      obtain ⟨ke, ve⟩ := e
      subst hk
      simp [hout, eq_comm]
    · rw [← ih hl]
      refine or_iff_right fun heq => hk ?_
      rw [← heq]

theorem findKey_modify (m : OrdMap K V) (k : K) {f : V → V} {p : V → Bool}
    (hf : ∀ v, p (f v) = p v) : (m.modify k f).findKey p = m.findKey p := by
  obtain ⟨l, hl⟩ := m
  change Option.map _ (List.find? _ (l.map fun e => if e.1 = k then (e.1, f e.2) else e)) =
    Option.map _ (l.find? _)
  clear hl
  induction l with
  | nil => rfl
  | cons e l ih =>
    rw [map_cons, find?_cons, find?_cons]
    by_cases he : e.1 = k
    · simp only [he, if_true, hf]
      cases p e.2 with
      | true => simp [he]
      | false => exact ih
    · simp only [he, if_false]
      cases p e.2 with
      | true => rfl
      | false => exact ih

theorem get_of_findKey {p : V → Bool} (h : m.findKey p = some k) :
    ∃ v, m.get k = some v ∧ p v = true := by
  obtain ⟨e, he, rfl⟩ := Option.map_eq_some_iff.1 h
  have hp := find?_some he
  exact ⟨e.2, mem_entries.1 (mem_of_find?_eq_some he), hp⟩

theorem mem_values : v ∈ m.values ↔ ∃ k, m.get k = some v := by
  simp only [values, mem_map, Prod.exists, exists_eq_right, mem_entries]

theorem find?_values (m : OrdMap K V) (p : V → Bool) :
    m.values.find? p = (m.findKey p).bind m.get := by
  cases h : m.entries.find? (fun e => p e.2) with
  | none => simp [values, findKey, find?_map, h]
  | some e =>
    have hmem := mem_entries.1 (mem_of_find?_eq_some h)
    simp [values, findKey, find?_map, h, hmem]

/-- The entries after values with different keys have been put in one after the other. -/
theorem get_foldl_insert {f : V → K} {l : List V} (hf : l.Pairwise fun a b => f a ≠ f b) :
    (l.foldl (fun m c => m.insert (f c) c) m).get k = some v ↔
      (v ∈ l ∧ f v = k) ∨ ((∀ c ∈ l, f c ≠ k) ∧ m.get k = some v) := by
  induction l generalizing m with
  | nil => simp
  | cons c l ih =>
    obtain ⟨hc, hf⟩ := pairwise_cons.1 hf
    rw [foldl_cons, ih hf, get_insert]
    by_cases hk : k = f c
    · subst hk
      have hout : ∀ b ∈ l, f b ≠ f c := fun b hb => (hc b hb).symm
      have hv : ¬ (v ∈ l ∧ f v = f c) := fun h => hout v h.1 h.2
      simp only [hv, false_or, if_true, Option.some.injEq, mem_cons]
      constructor
      · rintro ⟨-, rfl⟩
        exact Or.inl ⟨Or.inl rfl, rfl⟩
      · rintro (⟨rfl | hmem, hfv⟩ | ⟨hall, -⟩)
        · exact ⟨hout, rfl⟩
        · exact absurd ⟨hmem, hfv⟩ hv
        · exact absurd rfl (hall c (Or.inl rfl))
    · rw [if_neg hk, forall_mem_cons, mem_cons]
      constructor
      · rintro (⟨hmem, hfv⟩ | ⟨hall, hget⟩)
        · exact Or.inl ⟨Or.inr hmem, hfv⟩
        · exact Or.inr ⟨⟨Ne.symm hk, hall⟩, hget⟩
      · rintro (⟨rfl | hmem, hfv⟩ | ⟨⟨-, hall⟩, hget⟩)
        · exact absurd hfv.symm hk
        · exact Or.inl ⟨hmem, hfv⟩
        · exact Or.inr ⟨hall, hget⟩

end OrdMap
end Sys
