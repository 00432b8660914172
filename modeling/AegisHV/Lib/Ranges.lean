import AegisHV.Lib.Word

/-! Lists of address ranges `[lo, lo + size)` whose ends are computed in 64 bits. A range
that reaches the end of the address space has no computed address at all; below it
the computed tests agree with the ranges. -/

namespace Sys
open List

universe u

variable {μ : Type u} (lo size : μ → ℕ)

/-- The address lies in the range. -/
def InRange (m : μ) (x : ℕ) : Prop := lo m ≤ x ∧ x < lo m + size m

def wrappedEnd (m : μ) : ℕ := wrappingAdd (lo m) (size m)

/-- The test for it that uses the wrapped end. -/
def inWrapped (m : μ) (x : ℕ) : Bool := decide (lo m ≤ x) && decide (x < wrappedEnd lo size m)

/-- No address lies in both ranges. -/
def Separate (a b : μ) : Prop := ∀ x, ¬ (InRange lo size a x ∧ InRange lo size b x)

/-- The range at one place of the list is the only one with the address. -/
def OnlyAt (l : List μ) (m : μ) (x : ℕ) : Prop :=
  ∃ l₁ l₂, l = l₁ ++ m :: l₂ ∧ InRange lo size m x ∧ ∀ a ∈ l₁ ++ l₂, ¬ InRange lo size a x

variable {lo size} {l : List μ} {m a b : μ} {x : ℕ}

theorem inWrapped_iff (h : lo m + size m < 2 ^ 64) :
    inWrapped lo size m x = true ↔ InRange lo size m x := by
  rw [inWrapped, wrappedEnd, wrappingAdd, Nat.mod_eq_of_lt h, Bool.and_eq_true,
    decide_eq_true_eq, decide_eq_true_eq]
  exact Iff.rfl

theorem inWrapped_eq_false (h : 2 ^ 64 ≤ lo m + size m) (hlo : lo m < 2 ^ 64)
    (hsize : size m < 2 ^ 64) : inWrapped lo size m x = false := by
  have hend : wrappedEnd lo size m < lo m := by
    rw [wrappedEnd, wrappingAdd]
    omega
  simp only [inWrapped, Bool.and_eq_false_iff, decide_eq_false_iff_not]
  omega

/-- Two ranges below the end of the address space that the wrapped test lets pass. -/
theorem separate_of_not_wrapped (ha : lo a + size a < 2 ^ 64) (hb : lo b + size b < 2 ^ 64)
    (h : ¬ (lo b < wrappedEnd lo size a ∧ lo a < wrappedEnd lo size b)) : Separate lo size a b := by
  rw [wrappedEnd, wrappedEnd, wrappingAdd, wrappingAdd, ] at h
  rintro x ⟨⟨h1, h2⟩, h3, h4⟩
  omega

theorem onlyAt_of_mem (hl : l.Pairwise (Separate lo size)) (hm : m ∈ l) (hx : InRange lo size m x) :
    OnlyAt lo size l m x := by
  obtain ⟨l₁, l₂, rfl⟩ := append_of_mem hm
  obtain ⟨-, hright, hcross⟩ := pairwise_append.1 hl
  refine ⟨l₁, l₂, rfl, hx, fun a ha hax => ?_⟩
  rcases mem_append.1 ha with hin | hin
  · exact hcross a hin m mem_cons_self x ⟨hax, hx⟩
  · exact (pairwise_cons.1 hright).1 a hin x ⟨hx, hax⟩

/-- The search finds the one range with the address when no range wraps. -/
theorem find?_inWrapped_iff (hbelow : ∀ m ∈ l, lo m + size m < 2 ^ 64)
    (hl : l.Pairwise (Separate lo size)) :
    l.find? (inWrapped lo size · x) = some m ↔ OnlyAt lo size l m x := by
  constructor
  · intro h
    have hm := mem_of_find?_eq_some h
    have htest : inWrapped lo size m x = true := by simpa using find?_some h
    exact onlyAt_of_mem hl hm ((inWrapped_iff (hbelow m hm)).1 htest)
  · rintro ⟨l₁, l₂, rfl, hx, hothers⟩
    refine find?_eq_some_iff_append.2
      ⟨(inWrapped_iff (hbelow m (by simp))).2 hx, l₁, l₂, rfl, fun a ha => ?_⟩
    have hout := hothers a (mem_append_left _ ha)
    rw [← inWrapped_iff (hbelow a (mem_append_left _ ha))] at hout
    simpa using hout

/-- Separate ranges, each found at every one of the addresses `X` that it alone contains. -/
def Exact (X : Set ℕ) (lo size : μ → ℕ) (l : List μ) : Prop :=
  l.Pairwise (Separate lo size) ∧
    ∀ x ∈ X, ∀ m, l.find? (inWrapped lo size · x) = some m ↔ OnlyAt lo size l m x

theorem exact_iff {X : Set ℕ} (hl : ∀ m ∈ l, lo m ∈ X ∧ lo m < 2 ^ 64 ∧ size m < 2 ^ 64) :
    Exact X lo size l ↔
      (∀ m ∈ l, lo m + size m < 2 ^ 64) ∧ l.Pairwise (Separate lo size) := by
  refine ⟨fun h => ⟨fun m hm => ?_, h.1⟩, fun h => ⟨h.2, fun x _ m => find?_inWrapped_iff h.1 h.2⟩⟩
  by_contra hwrap
  rw [Nat.not_lt] at hwrap
  obtain ⟨hX, hlo, hsize⟩ := hl m hm
  -- the first address of a range that wraps is in the range, but never found
  have hin : InRange lo size m (lo m) := ⟨le_rfl, by omega⟩
  have hfound := (h.2 (lo m) hX m).2 (onlyAt_of_mem h.1 hm hin)
  have htest := find?_some hfound
  rw [inWrapped_eq_false hwrap hlo hsize] at htest
  cases htest

end Sys
