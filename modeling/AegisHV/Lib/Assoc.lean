import Mathlib.Tactic

/-! Maps without an order: lists of entries with distinct keys. -/

namespace Sys
open List

universe u v

structure Assoc (K : Type u) (V : Type v) where
  entries : List (K × V)
  nodup : (entries.map Prod.fst).Nodup

namespace Assoc

variable {K : Type u} {V : Type v}

def keys (m : Assoc K V) : List K := m.entries.map Prod.fst

theorem keys_nodup (m : Assoc K V) : m.keys.Nodup := m.nodup

def size (m : Assoc K V) : ℕ := m.entries.length

theorem size_eq_keys (m : Assoc K V) : m.size = m.keys.length := (length_map _).symm

variable [DecidableEq K]

def empty : Assoc K V := ⟨[], nodup_nil⟩

def getEntry (k : K) : List (K × V) → Option V
  | [] => none
  | e :: rest => if e.1 = k then some e.2 else getEntry k rest

def putEntry (k : K) (v : V) : List (K × V) → List (K × V)
  | [] => [(k, v)]
  | e :: rest => if e.1 = k then (k, v) :: rest else e :: putEntry k v rest

variable {k : K} {l : List (K × V)}

theorem mem_keys_putEntry {k' : K} {v : V} :
    k' ∈ (putEntry k v l).map Prod.fst ↔ k' = k ∨ k' ∈ l.map Prod.fst := by
  induction l with
  | nil => simp [putEntry]
  | cons e rest ih =>
    by_cases he : e.1 = k
    · simp [putEntry, he]
    · simp only [putEntry, if_neg he, map_cons, mem_cons, ih]
      tauto

theorem putEntry_nodup (k : K) (v : V) (h : (l.map Prod.fst).Nodup) :
    ((putEntry k v l).map Prod.fst).Nodup := by
  induction l with
  | nil => simp [putEntry]
  | cons e rest ih =>
    rw [map_cons, nodup_cons] at h
    by_cases he : e.1 = k
    · rw [putEntry, if_pos he, map_cons, nodup_cons]
      exact ⟨he ▸ h.1, h.2⟩
    · rw [putEntry, if_neg he, map_cons, nodup_cons, mem_keys_putEntry]
      exact ⟨fun hmem => hmem.elim he h.1, ih h.2⟩

def get (m : Assoc K V) (k : K) : Option V := getEntry k m.entries

def put (m : Assoc K V) (k : K) (v : V) : Assoc K V :=
  ⟨putEntry k v m.entries, putEntry_nodup k v m.nodup⟩

/-- `retain` -/
def retain (m : Assoc K V) (p : K → V → Bool) : Assoc K V where
  entries := m.entries.filter fun e => p e.1 e.2
  nodup := m.nodup.sublist (filter_sublist.map _)

theorem keys_putEntry (k : K) (v : V) (l : List (K × V)) :
    (putEntry k v l).map Prod.fst =
      if k ∈ l.map Prod.fst then l.map Prod.fst else l.map Prod.fst ++ [k] := by
  induction l with
  | nil => rfl
  | cons e rest ih =>
    rw [putEntry]
    by_cases he : e.1 = k
    · rw [if_pos he, map_cons, map_cons, he, if_pos mem_cons_self]
    · simp only [if_neg he, map_cons, ih, mem_cons, Ne.symm he, false_or]
      split <;> rfl

theorem keys_put (m : Assoc K V) (k : K) (v : V) :
    (m.put k v).keys = if k ∈ m.keys then m.keys else m.keys ++ [k] :=
  keys_putEntry k v m.entries

theorem getEntry_putEntry (k k' : K) (v : V) (l : List (K × V)) :
    getEntry k' (putEntry k v l) = if k' = k then some v else getEntry k' l := by
  induction l with
  | nil =>
    by_cases h : k' = k
    · simp [putEntry, getEntry, h]
    · simp [putEntry, getEntry, h, Ne.symm h]
  | cons e rest ih =>
    by_cases he : e.1 = k
    · rw [putEntry, if_pos he]
      by_cases h : k' = k
      · simp [getEntry, h]
      · simp [getEntry, h, Ne.symm h, he]
    · rw [putEntry, if_neg he, getEntry, ih]
      by_cases hk : e.1 = k'
      · have hne : k' ≠ k := fun h => he (hk.trans h)
        simp [getEntry, hk, hne]
      · simp [getEntry, hk]

theorem get_put (m : Assoc K V) (k k' : K) (v : V) :
    (m.put k v).get k' = if k' = k then some v else m.get k' :=
  getEntry_putEntry k k' v m.entries

theorem getEntry_eq_none (h : k ∉ l.map Prod.fst) :
    getEntry k l = none := by
  induction l with
  | nil => rfl
  | cons e rest ih =>
    rw [map_cons, mem_cons, not_or] at h
    rw [getEntry, if_neg (Ne.symm h.1), ih h.2]

theorem getEntry_filter (k : K) (p : K → V → Bool) (h : (l.map Prod.fst).Nodup) :
    getEntry k (l.filter fun e => p e.1 e.2) = (getEntry k l).filter (p k) := by
  induction l with
  | nil => rfl
  | cons e rest ih =>
    rw [map_cons, nodup_cons] at h
    by_cases he : e.1 = k
    · subst he
      have hrest : getEntry e.1 (rest.filter fun e => p e.1 e.2) = none := by
        refine getEntry_eq_none fun hmem => h.1 ?_
        exact (filter_sublist.map Prod.fst).subset hmem
      by_cases hp : p e.1 e.2
      · simp [hp, getEntry, Option.filter]
      · simp [hp, getEntry, hrest, Option.filter]
    · by_cases hp : p e.1 e.2
      · simp [hp, getEntry, he, ih h.2]
      · simp [hp, getEntry, he, ih h.2]

theorem get_retain (m : Assoc K V) (p : K → V → Bool) (k : K) :
    (m.retain p).get k = (m.get k).filter (p k) :=
  getEntry_filter k p m.nodup

theorem mem_entries {m : Assoc K V} {v : V} : (k, v) ∈ m.entries ↔ m.get k = some v := by
  obtain ⟨l, hl⟩ := m
  simp only [get]
  induction l with
  | nil => simp [getEntry]
  | cons e rest ih =>
    rw [map_cons, nodup_cons] at hl
    rw [mem_cons, ih hl.2, getEntry]
    by_cases he : e.1 = k
    · subst he
      rw [if_pos rfl, getEntry_eq_none hl.1, Option.some.injEq]
      constructor
      · rintro (h | h)
        · rw [← h]
        · cases h
      · rintro rfl
        exact .inl rfl
    · rw [if_neg he]
      refine or_iff_right fun h => he ?_
      rw [← h]

theorem mem_keys {m : Assoc K V} : k ∈ m.keys ↔ ∃ v, m.get k = some v := by
  rw [keys, mem_map]
  constructor
  · rintro ⟨⟨k, v⟩, hmem, rfl⟩
    exact ⟨v, mem_entries.mp hmem⟩
  · rintro ⟨v, hv⟩
    exact ⟨(k, v), mem_entries.mpr hv, rfl⟩

end Assoc

end Sys
