import Mathlib.Tactic

/-! A ledger over a fixed stock of resources: each one is free, held by a client or set
aside for good. Handing out, taking back and setting aside keep the three parts a
partition of the stock. -/

namespace Sys

universe u

structure Ledger (α : Type u) where
  free : Set α
  held : Set α
  reserved : Set α

namespace Ledger

variable {α : Type u} {U : Set α} {L L' : Ledger α}

inductive Move : Ledger α → Ledger α → Prop
  | stay (L : Ledger α) : Move L L
  | reserve (L : Ledger α) (S : Set α) (h : S ⊆ L.free) :
      Move L ⟨L.free \ S, L.held, L.reserved ∪ S⟩
  | hand (L : Ledger α) (x : α) (h : x ∈ L.free) :
      Move L ⟨L.free \ {x}, insert x L.held, L.reserved⟩
  | release (L : Ledger α) (x : α) (h : x ∈ L.held) :
      Move L ⟨insert x L.free, L.held \ {x}, L.reserved⟩

structure Splits (U : Set α) (L : Ledger α) : Prop where
  total : ∀ x, (x ∈ L.free ∨ x ∈ L.held ∨ x ∈ L.reserved) ↔ x ∈ U
  free_held : ∀ x ∈ L.free, x ∉ L.held
  free_reserved : ∀ x ∈ L.free, x ∉ L.reserved
  held_reserved : ∀ x ∈ L.held, x ∉ L.reserved

theorem Splits.mem_free (h : Splits U L) (x : α) :
    x ∈ L.free ↔ x ∈ U ∧ x ∉ L.held ∧ x ∉ L.reserved := by
  have hheld := h.free_held x
  have hreserved := h.free_reserved x
  rw [← h.total]
  tauto

theorem Move.splits (hm : Move L L') (h : Splits U L) : Splits U L' := by
  obtain ⟨htotal, hfh, hfr, hhr⟩ := h
  cases hm with
  | stay => exact ⟨htotal, hfh, hfr, hhr⟩
  | reserve S hS =>
    refine ⟨fun x => ?_, fun x hx => hfh x hx.1, fun x hx hr => ?_, fun x hx hr => ?_⟩
    · rw [← htotal x]
      simp only [Set.mem_sdiff, Set.mem_union]
      tauto
    · rcases hr with hr | hr
      · exact hfr x hx.1 hr
      · exact hx.2 hr
    · rcases hr with hr | hr
      · exact hhr x hx hr
      · exact hfh x (hS hr) hx
  | hand y hy =>
    refine ⟨fun x => ?_, fun x hx hh => ?_, fun x hx => hfr x hx.1, fun x hx hr => ?_⟩
    · rw [← htotal x]
      by_cases hxy : x = y
      · simp [hxy, hy]
      · simp [hxy]
    · rcases hh with rfl | hh
      · exact hx.2 rfl
      · exact hfh x hx.1 hh
    · rcases hx with rfl | hx
      · exact hfr x hy hr
      · exact hhr x hx hr
  | release y hy =>
    refine ⟨fun x => ?_, fun x hx hh => ?_, fun x hx hr => ?_, fun x hx => hhr x hx.1⟩
    · rw [← htotal x]
      by_cases hxy : x = y
      · simp [hxy, hy]
      · simp [hxy]
    · rcases hx with rfl | hx
      · exact hh.2 rfl
      · exact hfh x hx hh.1
    · rcases hx with rfl | hx
      · exact hhr x hy hr
      · exact hfr x hx hr

end Ledger
end Sys
