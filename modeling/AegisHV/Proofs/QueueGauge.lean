import AegisHV.Spec.QueueGauge

/-! The gauge counts what is queued and under way as long as it has not reached the capacity. -/

namespace AegisHV.QueueGauge

open Sys

/-- The gauge is the items queued, the sends not yet through and the receive not yet counted. -/
def Exact (s : State) : Prop := s.depth = s.items + s.sending + s.full + s.receiving

/-- A send starts below the capacity. -/
def HasRoom (capacity : ℕ) (s : State) (t : Turn) : Prop :=
  t = .recordQueueSendAttempt → s.depth < capacity

/-- Nothing is refused as long as the gauge is exact and within the capacity. -/
structure Counted (capacity : ℕ) (s : State) : Prop where
  exact : Exact s
  fits : s.depth ≤ capacity
  taken : s.full = 0 ∧ s.rejected = 0

variable {capacity : ℕ} {s : State} {t : Turn}

theorem Counted.step (h : Counted capacity s) (hroom : HasRoom capacity s t) :
    Counted capacity (step capacity s t).2 := by
  obtain ⟨hexact, hfits, htaken⟩ := h
  cases t with
  | recordQueueSendAttempt =>
    have hlt := hroom rfl
    refine ⟨?_, Nat.min_le_right _ _, htaken⟩
    simp only [Exact, QueueGauge.step] at hexact ⊢
    omega
  | _ =>
    simp only [QueueGauge.step]
    split_ifs <;> refine ⟨?_, ?_, ?_⟩ <;> simp only [Exact] at * <;> omega

/-- At every point of every interleaving the gauge is exact, if and only if no send has started
with the gauge at the capacity. -/
theorem gauge_exact_iff (capacity : ℕ) (turns : List Turn) :
    AllStates Exact (step capacity) {} turns ↔
      AllSteps (HasRoom capacity) (step capacity) {} turns := by
  refine allStates_iff_of_inv (I := Counted capacity) (fun s t => Counted.step)
    (fun s h => h.exact) ?_ turns {} ⟨rfl, Nat.zero_le _, rfl, rfl⟩
  intro s t h hroom
  obtain ⟨rfl, hfull⟩ := Classical.not_imp.1 hroom
  have hexact := h.exact
  have hfits := h.fits
  simp only [Exact, step] at hexact ⊢
  omega

end AegisHV.QueueGauge
