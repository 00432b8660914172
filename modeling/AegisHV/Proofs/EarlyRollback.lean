import AegisHV.Proofs.EarlyMemory

/-! A toy-guest allocation that fails gives back every page it took, the last one first, and each
free undoes the allocation before it. -/

namespace AegisHV
open Sys

namespace PhysicalPageAllocator

variable {R A : ℕ} {s s' : PhysicalPageAllocator R A}

/-- A run of calls leads from the allocator of a memory map to this one. -/
def Reachable (s : PhysicalPageAllocator R A) : Prop :=
  ∃ (M : ℕ) (map : MemoryMap M) (s₀ : PhysicalPageAllocator R A) (calls : List Call),
    fromMemoryMap map = .ok s₀ ∧ s = (Sys.run step s₀ calls).2

theorem Reachable.inv (h : Reachable s) : Inv s := by
  obtain ⟨M, map, s₀, calls, hs, rfl⟩ := h
  exact run_step_inv (fromMemoryMap_inv hs) calls

theorem Reachable.next (h : Reachable s) (c : Call) : Reachable (step s c).2 := by
  obtain ⟨M, map, s₀, calls, hs, rfl⟩ := h
  exact ⟨M, map, s₀, calls ++ [c], hs, by rw [run_concat]⟩

theorem Reachable.reserveRange {base length n : ℕ} (h : Reachable s)
    (hok : (reserveRange base length).run s = (.ok n, s')) : Reachable s' := by
  have := h.next (.reserveRange base length)
  rwa [step, Op.reply_snd, hok] at this

theorem Reachable.obtained {c : PageAllocationConstraint} {pages : List HostPhysical}
    (h : Reachable s) (hpages : Obtained c s pages s') : Reachable s' := by
  induction hpages with
  | start => exact h
  | @next _ _ _ _ _ hok ih =>
    have := ih.next (.allocateWithin c)
    rwa [step, Op.reply_snd, hok] at this

end PhysicalPageAllocator

open PhysicalPageAllocator

/-- The allocators with which the runtime memory is set up. -/
theorem setup_reachable {N : ℕ} {entries : List LimineMemmapEntry} {backend : Type1RuntimeBackend}
    {reservations : List Type1PhysicalReservation} {a : Type1RuntimeMemoryAllocation}
    (h : allocateType1RuntimeMemoryWithReservations N entries backend reservations = .ok a) :
    Reachable a.allocator := by
  simp only [allocateType1RuntimeMemoryWithReservations, except_bind_ok, failIf_eq_ok,
    mapError_eq_ok, exists_const] at h
  obtain ⟨-, usable, -, map, -, s, hs, ⟨t, excluded⟩, hfold, constraint, -, ⟨plan, t'⟩, hplan,
    hpure⟩ := h
  cases hpure
  have ht : Reachable t := by
    refine foldlM_inv (fun _ (acc : EarlyAllocator × ℕ) => Reachable acc.1)
      ⟨N, map, s, [], hs, rfl⟩ ?_ hfold
    intro seen r rest acc acc' _ hacc hr
    obtain ⟨⟨n, u⟩, hexec, hrest⟩ := except_bind_ok.1 hr
    obtain ⟨total, -, hpure⟩ := except_bind_ok.1 hrest
    cases hpure
    exact hacc.reserveRange (Op.exec_eq_ok.1 (mapError_eq_ok.1 hexec))
  obtain ⟨new, hnew, -⟩ := planMemory_obtained hplan
  exact ht.obtained hnew

namespace Type1RuntimeMemoryAllocation

/-- Whatever the allocator looked like before and however many pages could be had, a failed call
reports the failure it ran into, never a failed rollback, and leaves everything as it was. -/
theorem toyGuest_failure_undone {a a' : Type1RuntimeMemoryAllocation} {e : Type1EarlyMemoryError}
    (ha : Reachable a.allocator) (he : allocateIntelToyGuest.run a = (.error e, a')) :
    a' = a ∧ Failure a e ∧ ∀ kind, e ≠ .rollbackFailed kind := by
  have hfailure : a' = a ∧ Failure a e := by
    have heffect := step_toyEffect ha.inv
    rw [step, he] at heffect
    cases heffect with
    | failed h => exact ⟨rfl, h⟩
  refine ⟨hfailure.1, hfailure.2, fun kind hkind => ?_⟩
  subst hkind
  cases hfailure.2

/-- Eight usable pages. -/
def tightSetup : Except Type1EarlyMemoryError Type1RuntimeMemoryAllocation :=
  allocateType1RuntimeMemoryWithReservations 4 [⟨0x200000, 0x8000, 0⟩] .intelVmx []

theorem toyGuest_failure_undone_tight_setup : ∃ a, tightSetup = .ok a ∧
    allocateIntelToyGuest.run a = (.error (.core .outOfMemory), a) := by
  have herror : tightSetup.toOption.map (fun a => (allocateIntelToyGuest.run a).1) =
      some (.error (.core .outOfMemory)) := by decide +kernel
  cases h : tightSetup with
  | error e =>
    rw [h] at herror
    cases herror
  | ok a =>
    rw [h] at herror
    have hfst : (allocateIntelToyGuest.run a).1 = .error (.core .outOfMemory) :=
      Option.some_inj.1 herror
    obtain ⟨hundone, -⟩ := toyGuest_failure_undone (setup_reachable h) (Prod.ext hfst rfl)
    exact ⟨a, rfl, Prod.ext hfst hundone⟩

end Type1RuntimeMemoryAllocation
end AegisHV
