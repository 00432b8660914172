import Mathlib.Tactic

/-! Walks through radix tables. An address is cut into indices from the top; at every level the
index picks an entry of the current table, which ends the walk or leads to the next table. -/

namespace Sys

universe u v w

variable {L : Type u} {σ : Type v} {ρ : Type w}

/-- The bits of an address that the levels of a tree of tables take as index. -/
structure Radix (L : Type u) where
  shift : L → ℕ
  bits : L → ℕ

namespace Radix

def index (radix : Radix L) (l : L) (va : ℕ) : ℕ := va / 2 ^ radix.shift l % 2 ^ radix.bits l

/-- The level at which the walk of an address ends, and what it ends with. -/
def walk (radix : Radix L) (step : L → σ → ℕ → Option (σ ⊕ ρ)) :
    List L → σ → ℕ → Option (L × ρ)
  | [], _, _ => none
  | l :: ls, s, va => (step l s (radix.index l va)).bind
      (Sum.elim (fun s' => radix.walk step ls s' va) fun r => some (l, r))

variable {radix : Radix L} {step : L → σ → ℕ → Option (σ ⊕ ρ)} {l : L} {ls : List L} {s s' : σ}
  {r : ρ} {va va' : ℕ}

theorem walk_cons_none (h : step l s (radix.index l va) = none) :
    radix.walk step (l :: ls) s va = none := by
  rw [walk, h, Option.bind_none]

theorem walk_cons_table (h : step l s (radix.index l va) = some (.inl s')) :
    radix.walk step (l :: ls) s va = radix.walk step ls s' va := by
  rw [walk, h, Option.bind_some, Sum.elim_inl]

theorem walk_cons_leaf (h : step l s (radix.index l va) = some (.inr r)) :
    radix.walk step (l :: ls) s va = some (l, r) := by
  rw [walk, h, Option.bind_some, Sum.elim_inr]

/-- A walk ends at one of its levels, with a leaf of that level. -/
theorem leaf_of_walk (h : radix.walk step ls s va = some (l, r)) :
    l ∈ ls ∧ ∃ s', step l s' (radix.index l va) = some (.inr r) := by
  induction ls generalizing s with
  | nil => cases h
  | cons l' ls ih =>
    cases hstep : step l' s (radix.index l' va) with
    | none =>
      rw [walk_cons_none hstep] at h
      cases h
    | some next =>
      cases next with
      | inl s' =>
        rw [walk_cons_table hstep] at h
        obtain ⟨hmem, hleaf⟩ := ih h
        exact ⟨List.mem_cons_of_mem l' hmem, hleaf⟩
      | inr r' =>
        rw [walk_cons_leaf hstep, Option.some.injEq] at h
        obtain ⟨rfl, rfl⟩ := h
        exact ⟨List.mem_cons_self, s, hstep⟩

/-- The index of a level does not see the bits below a smaller shift. -/
theorem index_eq_of_div_eq {k : ℕ} (hk : k ≤ radix.shift l) (h : va' / 2 ^ k = va / 2 ^ k) :
    radix.index l va' = radix.index l va := by
  have hdiv : ∀ a, a / 2 ^ radix.shift l = a / 2 ^ k / 2 ^ (radix.shift l - k) := by
    intro a
    rw [Nat.div_div_eq_div_mul, ← pow_add, Nat.add_sub_cancel' hk]
  rw [index, index, hdiv va', hdiv va, h]

/-- All addresses of a page take the walk that found the page. -/
theorem walk_uniform (hdesc : ls.Pairwise fun a b => radix.shift b ≤ radix.shift a)
    (h : radix.walk step ls s va = some (l, r))
    (hva : va' / 2 ^ radix.shift l = va / 2 ^ radix.shift l) :
    radix.walk step ls s va' = some (l, r) := by
  induction ls generalizing s with
  | nil => cases h
  | cons l' ls ih =>
    obtain ⟨habove, hdesc⟩ := List.pairwise_cons.1 hdesc
    have hle : radix.shift l ≤ radix.shift l' := by
      rcases List.mem_cons.1 (leaf_of_walk h).1 with rfl | hmem
      · exact le_rfl
      · exact habove l hmem
    have hindex := index_eq_of_div_eq hle hva
    cases hstep : step l' s (radix.index l' va) with
    | none =>
      rw [walk_cons_none hstep] at h
      cases h
    | some next =>
      cases next with
      | inl s' =>
        rw [walk_cons_table hstep] at h
        rw [walk_cons_table (hindex ▸ hstep)]
        exact ih hdesc h
      | inr r' =>
        rw [walk_cons_leaf hstep] at h
        rw [walk_cons_leaf (hindex ▸ hstep), h]

end Radix

end Sys
