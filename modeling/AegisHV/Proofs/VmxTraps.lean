import AegisHV.Spec.VmxTraps

/-! The monitor trap flag and the traps that wait for it: they agree as long as a step is completed
only by the trap that waits for it. -/

namespace AegisHV.Vmx
open Sys

namespace TrapSet

/-- The trap is on the page and awaits its single step. -/
def AwaitingOn (s : TrapSet) (page : GuestPhysical) (i : ℕ) : Prop :=
  ∃ trap, s.traps[i]? = some trap ∧ trap.state = .awaitingSingleStep ∧ trap.guestPhysical = page

/-- The flag is active for a page exactly if exactly one trap on the page awaits its step. -/
def Exact (s : TrapSet) : Prop :=
  ∀ page, s.mtf.activeGpa = some page ↔ ∃! i, s.AwaitingOn page i

/-- Only a trap that awaited its step becomes re-armed by a call. -/
def RearmsAwaiting (s : TrapSet) (call : TrapCall) : Prop :=
  ∀ (i : ℕ) (trap trap' : VmxTrap), s.traps[i]? = some trap → (s.step call).2.traps[i]? = some trap' →
    trap'.state = .rearmed → trap.state = .rearmed ∨ trap.state = .awaitingSingleStep

/-- A step that is completed is completed by the trap that awaits it. -/
def StepsOwn (s : TrapSet) : TrapCall → Prop
  | .trap i .rearmAfterStep => ∀ trap, s.traps[i]? = some trap →
    s.mtf.activeGpa = some trap.guestPhysical → trap.state = .awaitingSingleStep
  | .trap _ _ => True
  | .completeFor page => s.mtf.activeGpa ≠ some page

/-- At most one trap awaits its step, on the page the flag is active for. -/
structure Single (s : TrapSet) : Prop where
  idle : s.mtf.activeGpa = none → ∀ page i, ¬ s.AwaitingOn page i
  busy : ∀ page, s.mtf.activeGpa = some page →
    ∃ i, s.AwaitingOn page i ∧ ∀ other j, s.AwaitingOn other j → j = i

variable {s : TrapSet} {page : GuestPhysical} {i : ℕ}

theorem AwaitingOn.page_eq {other : GuestPhysical}
    (h : s.AwaitingOn page i) (h' : s.AwaitingOn other i) : page = other := by
  obtain ⟨trap, htrap, -, rfl⟩ := h
  obtain ⟨trap', htrap', -, rfl⟩ := h'
  rw [Option.some.inj (htrap.symm.trans htrap')]

theorem Single.exact (h : s.Single) : s.Exact := by
  intro page
  constructor
  · intro hactive
    obtain ⟨i, hi, hall⟩ := h.busy page hactive
    exact ⟨i, hi, fun j hj => hall page j hj⟩
  · rintro ⟨i, hi, -⟩
    cases hactive : s.mtf.activeGpa with
    | none => exact absurd hi (h.idle hactive page i)
    | some other =>
      obtain ⟨j, hj, hall⟩ := h.busy other hactive
      obtain rfl := hall page i hi
      rw [hj.page_eq hi]

theorem single_of_fresh (hidle : s.mtf.activeGpa = none)
    (h : ∀ trap ∈ s.traps, trap.state ≠ .awaitingSingleStep) : s.Single := by
  refine ⟨fun _ page i => ?_, fun page hactive => ?_⟩
  · rintro ⟨trap, htrap, hstate, -⟩
    exact h trap (List.mem_of_getElem? htrap) hstate
  · rw [hidle] at hactive
    cases hactive

/-- What one call can do: nothing; put a trap from a state in which it does not await its step into
another such one; arm the flag for a trap; or complete the step of the active page. -/
inductive Move (s : TrapSet) (call : TrapCall) : TrapSet → Prop
  | none : Move s call s
  | moved (i : ℕ) (trap trap' : VmxTrap) (htrap : s.traps[i]? = some trap)
    (hbefore : trap.state ≠ .awaitingSingleStep) (hafter : trap'.state ≠ .awaitingSingleStep)
    (hrearmed : trap'.state ≠ .rearmed) : Move s call ⟨s.traps.set i trap', s.mtf⟩
  | awaits (i : ℕ) (trap : VmxTrap) (htrap : s.traps[i]? = some trap)
    (hidle : s.mtf.activeGpa = .none) :
    Move s call ⟨s.traps.set i { trap with state := .awaitingSingleStep },
      { s.mtf with activeGpa := some trap.guestPhysical }⟩
  | rearmed (i : ℕ) (trap : VmxTrap) (hcall : call = .trap i .rearmAfterStep)
    (htrap : s.traps[i]? = some trap) (hactive : s.mtf.activeGpa = some trap.guestPhysical) :
    Move s call ⟨s.traps.set i { trap with state := .rearmed }, { s.mtf with activeGpa := .none }⟩
  | completed (page : GuestPhysical) (hcall : call = .completeFor page)
    (hactive : s.mtf.activeGpa = some page) :
    Move s call { s with mtf := { s.mtf with activeGpa := .none } }

variable {mtf : MonitorTrapFlag}

theorem armFor_ok {mtf' : MonitorTrapFlag} (h : mtf.armFor page = .ok mtf') :
    mtf.activeGpa = none ∧ mtf' = { mtf with activeGpa := some page } := by
  simp only [MonitorTrapFlag.armFor, except_bind_ok, failIf_eq_ok] at h
  obtain ⟨-, -, -, hactive, hmtf⟩ := h
  exact ⟨Option.not_isSome_iff_eq_none.mp (by simpa using hactive), (Except.ok.inj hmtf).symm⟩

theorem completeFor_ok {mtf' : MonitorTrapFlag} (h : mtf.completeFor page = .ok mtf') :
    mtf.activeGpa = some page ∧ mtf' = { mtf with activeGpa := none } := by
  simp only [MonitorTrapFlag.completeFor, except_bind_ok, failIf_eq_ok, bne_eq_false_iff_eq] at h
  obtain ⟨-, hactive, hmtf⟩ := h
  exact ⟨hactive, (Except.ok.inj hmtf).symm⟩

theorem step_move (s : TrapSet) (call : TrapCall) : s.Move call (s.step call).2 := by
  cases call with
  | completeFor page =>
    rw [step]
    cases hmtf : s.mtf.completeFor page with
    | error e => exact .none
    | ok mtf =>
      obtain ⟨hactive, rfl⟩ := completeFor_ok hmtf
      exact .completed page rfl hactive
  | trap i op =>
    rw [step]
    cases htrap : s.traps[i]? with
    | none => exact .none
    | some trap =>
      dsimp only
      cases happly : op.apply trap s.mtf with
      | error e => exact .none
      | ok out =>
        cases op with
        | recordHit =>
          simp only [TrapOp.apply, VmxTrap.recordHit, except_bind_ok, failIf_eq_ok] at happly
          obtain ⟨_, ⟨-, hstate, hhit⟩, hout⟩ := happly
          obtain rfl := Except.ok.inj hhit
          obtain rfl := Except.ok.inj hout
          refine .moved i trap _ htrap ?_ (fun h => by cases h) (fun h => by cases h)
          intro hawait
          simp [hawait] at hstate
        | openTemporaryWriteWindow =>
          simp only [TrapOp.apply, VmxTrap.openTemporaryWriteWindow, except_bind_ok,
            failIf_eq_ok] at happly
          obtain ⟨_, ⟨-, hstate, hopen⟩, hout⟩ := happly
          obtain rfl := Except.ok.inj hopen
          obtain rfl := Except.ok.inj hout
          refine .moved i trap _ htrap ?_ (fun h => by cases h) (fun h => by cases h)
          intro hawait
          simp [hawait] at hstate
        | awaitSingleStep =>
          simp only [TrapOp.apply, VmxTrap.awaitSingleStep, except_bind_ok] at happly
          obtain ⟨mtf, hmtf, hout⟩ := happly
          obtain ⟨hidle, rfl⟩ := armFor_ok hmtf
          obtain rfl := Except.ok.inj hout
          exact .awaits i trap htrap hidle
        | rearmAfterStep =>
          simp only [TrapOp.apply, VmxTrap.rearmAfterStep, except_bind_ok] at happly
          obtain ⟨mtf, hmtf, hout⟩ := happly
          obtain ⟨hactive, rfl⟩ := completeFor_ok hmtf
          obtain rfl := Except.ok.inj hout
          exact .rearmed i trap rfl htrap hactive

theorem getElem?_set_self {traps : List VmxTrap} {trap trap' : VmxTrap}
    (h : traps[i]? = some trap) : (traps.set i trap')[i]? = some trap' :=
  List.getElem?_set_self (List.getElem?_eq_some_iff.mp h).1

/-- Which traps await their step after one trap has changed. -/
theorem awaitingOn_set {trap trap' : VmxTrap} (htrap : s.traps[i]? = some trap) {j : ℕ} :
    AwaitingOn ⟨s.traps.set i trap', mtf⟩ page j ↔
      if j = i then trap'.state = .awaitingSingleStep ∧ trap'.guestPhysical = page
      else s.AwaitingOn page j := by
  by_cases heq : j = i
  · subst heq
    rw [AwaitingOn, getElem?_set_self htrap]
    simp
  · rw [if_neg heq, AwaitingOn, List.getElem?_set_ne (Ne.symm heq)]
    rfl

variable {call : TrapCall}

theorem Single.move {s' : TrapSet} (h : s.Single) (hmove : s.Move call s')
    (hown : s.StepsOwn call) : s'.Single := by
  cases hmove with
  | none => exact h
  | moved i trap trap' htrap hbefore hafter =>
    -- Neither before nor after does the trap await a step.
    have hsame : ∀ page j, AwaitingOn ⟨s.traps.set i trap', s.mtf⟩ page j ↔ s.AwaitingOn page j := by
      intro page j
      rw [awaitingOn_set htrap]
      by_cases heq : j = i
      · subst heq
        rw [if_pos rfl]
        refine iff_of_false (fun hawait => hafter hawait.1) ?_
        rintro ⟨other, hother, hawait, -⟩
        rw [← Option.some.inj (htrap.symm.trans hother)] at hawait
        exact hbefore hawait
      · rw [if_neg heq]
    refine ⟨fun hidle page j hj => h.idle hidle page j ((hsame page j).mp hj), ?_⟩
    intro page hactive
    obtain ⟨k, hk, hall⟩ := h.busy page hactive
    exact ⟨k, (hsame page k).mpr hk, fun other j hj => hall other j ((hsame other j).mp hj)⟩
  | awaits i trap htrap hidle =>
    refine ⟨fun hnone => (by cases hnone), ?_⟩
    intro page hactive
    obtain rfl := Option.some.inj hactive
    refine ⟨i, (awaitingOn_set htrap).mpr (by rw [if_pos rfl]; exact ⟨rfl, rfl⟩), ?_⟩
    intro other j hj
    by_contra heq
    rw [awaitingOn_set htrap, if_neg heq] at hj
    exact h.idle hidle other j hj
  | rearmed i trap hcall htrap hactive =>
    subst hcall
    have hawait : s.AwaitingOn trap.guestPhysical i :=
      ⟨trap, htrap, hown trap htrap hactive, rfl⟩
    refine ⟨fun _ page j hj => ?_, fun page hnone => (by cases hnone)⟩
    rw [awaitingOn_set htrap] at hj
    obtain ⟨k, -, hall⟩ := h.busy _ hactive
    by_cases heq : j = i
    · rw [if_pos heq] at hj
      cases hj.1
    · rw [if_neg heq] at hj
      exact heq ((hall page j hj).trans (hall _ i hawait).symm)
  | completed page hcall hactive =>
    subst hcall
    exact absurd hactive hown

/-- A step that is completed by another call leaves its trap waiting without the flag. -/
theorem not_exact_of_not_stepsOwn (h : s.Single)
    (hnot : ¬ s.StepsOwn call) : ¬ (s.step call).2.Exact := by
  intro hexact
  cases call with
  | completeFor page =>
    have hactive : s.mtf.activeGpa = some page := not_not.mp hnot
    obtain ⟨i, hi, hall⟩ := h.busy page hactive
    have hdone : s.mtf.completeFor page = .ok { s.mtf with activeGpa := none } := by
      simp [MonitorTrapFlag.completeFor, failIf, hactive]
    rw [step, hdone] at hexact
    have hnone := (hexact page).mpr ⟨i, hi, fun j hj => hall page j hj⟩
    cases hnone
  | trap i op =>
    cases op with
    | rearmAfterStep =>
      simp only [StepsOwn, not_forall] at hnot
      obtain ⟨trap, htrap, hactive, hstate⟩ := hnot
      obtain ⟨k, hk, hall⟩ := h.busy _ hactive
      have hdone : TrapOp.apply .rearmAfterStep trap s.mtf =
          .ok ({ trap with state := .rearmed }, { s.mtf with activeGpa := none }) := by
        simp [TrapOp.apply, VmxTrap.rearmAfterStep, MonitorTrapFlag.completeFor, failIf, hactive]
      have hother : k ≠ i := by
        rintro rfl
        obtain ⟨trap', htrap', hawait, -⟩ := hk
        rw [← Option.some.inj (htrap.symm.trans htrap')] at hawait
        exact hstate hawait
      rw [step, htrap] at hexact
      dsimp only at hexact
      rw [hdone] at hexact
      have hnone := (hexact trap.guestPhysical).mpr ⟨k, ?_, ?_⟩
      · cases hnone
      · exact (awaitingOn_set htrap).mpr (by rw [if_neg hother]; exact hk)
      · intro j hj
        have hj := (awaitingOn_set htrap).mp hj
        by_cases heq : j = i
        · rw [if_pos heq] at hj
          cases hj.1
        · rw [if_neg heq] at hj
          exact hall _ j hj
    | recordHit => exact hnot trivial
    | openTemporaryWriteWindow => exact hnot trivial
    | awaitSingleStep => exact hnot trivial

theorem rearmsAwaiting_of_stepsOwn (hown : s.StepsOwn call) :
    s.RearmsAwaiting call := by
  have hmove := s.step_move call
  intro j before after hbefore hafter hstate
  generalize (s.step call).2 = s' at hmove hafter
  have hset : ∀ {i : ℕ} {trap trap' : VmxTrap} {mtf : MonitorTrapFlag}, s.traps[i]? = some trap →
      s' = ⟨s.traps.set i trap', mtf⟩ →
      (trap'.state = .rearmed → trap.state = .awaitingSingleStep) →
      before.state = .rearmed ∨ before.state = .awaitingSingleStep := by
    rintro i trap trap' mtf htrap rfl himp
    by_cases heq : j = i
    · subst heq
      rw [getElem?_set_self htrap] at hafter
      obtain rfl := Option.some.inj hafter
      obtain rfl := Option.some.inj (htrap.symm.trans hbefore)
      exact .inr (himp hstate)
    · rw [List.getElem?_set_ne (Ne.symm heq), hbefore] at hafter
      obtain rfl := Option.some.inj hafter
      exact .inl hstate
  cases hmove with
  | none =>
    rw [hbefore] at hafter
    obtain rfl := Option.some.inj hafter
    exact .inl hstate
  | moved i trap trap' htrap _ _ hrearmed => exact hset htrap rfl fun h => absurd h hrearmed
  | awaits i trap htrap hidle => exact hset htrap rfl fun h => by cases h
  | rearmed i trap hcall htrap hactive =>
    subst hcall
    exact hset htrap rfl fun _ => hown trap htrap hactive
  | completed page hcall hactive =>
    subst hcall
    exact absurd hactive hown

/-- Along a run of traps that share a flag, the flag is active for a page exactly if exactly one trap
on it awaits its step, and only a trap that awaited its step is re-armed, exactly if every step is
completed by the trap that awaits it. -/
theorem trapFlag_exact_iff (s : TrapSet) (hidle : s.mtf.activeGpa = none)
    (hfresh : ∀ trap ∈ s.traps, trap.state ≠ .awaitingSingleStep) (calls : List TrapCall) :
    (AllStates Exact step s calls ∧ AllSteps RearmsAwaiting step s calls) ↔
      AllSteps StepsOwn step s calls := by
  have hstates := allStates_iff_of_inv (I := Single) (Q := Exact) (P := StepsOwn)
    (fun t call h hown => h.move (t.step_move call) hown) (fun _ h => h.exact)
    (fun t call h hnot => not_exact_of_not_stepsOwn h hnot) calls s (single_of_fresh hidle hfresh)
  rw [hstates]
  refine ⟨And.left, fun h => ⟨h, ?_⟩⟩
  rw [allSteps_iff] at h ⊢
  exact fun before call after hcalls => rearmsAwaiting_of_stepsOwn (h before call after hcalls)

/-- An execute and a write trap on one page. -/
def twoTraps : TrapSet where
  traps := [⟨.execute, ⟨0x1000, by decide⟩, .READ_WRITE_EXECUTE, .READ_WRITE, .armed⟩,
    ⟨.write, ⟨0x1000, by decide⟩, .READ_WRITE_EXECUTE, .READ_EXECUTE, .armed⟩]
  mtf := ⟨true, none⟩

theorem trapFlag_exact_iff_oneStep : AllStates Exact step twoTraps
    [.trap 0 .recordHit, .trap 0 .awaitSingleStep, .trap 0 .rearmAfterStep] := by
  refine ((trapFlag_exact_iff twoTraps rfl (by decide) [.trap 0 .recordHit,
    .trap 0 .awaitSingleStep, .trap 0 .rearmAfterStep]).mpr ⟨trivial, trivial, ?_, trivial⟩).1
  intro trap htrap _
  obtain rfl := Option.some.inj htrap
  rfl

/-- The trap that was not hit is re-armed by the step of the other one, which goes on waiting. -/
theorem step_completed_by_other :
    (∀ trap ∈ twoTraps.traps, trap.state = .armed) ∧
    ∃ s : TrapSet, s = (run step twoTraps [.trap 0 .recordHit, .trap 0 .awaitSingleStep]).2 ∧
      ¬ s.RearmsAwaiting (.trap 1 .rearmAfterStep) ∧
      ¬ (s.step (.trap 1 .rearmAfterStep)).2.Exact := by
  refine ⟨by decide, _, rfl, ?_, ?_⟩
  · intro hrearms
    exact absurd (hrearms 1 _ _ rfl rfl rfl) (by decide)
  · intro hexact
    have hone : ∃! i, AwaitingOn (step (run step twoTraps [.trap 0 .recordHit,
        .trap 0 .awaitSingleStep]).2 (.trap 1 .rearmAfterStep)).2 ⟨0x1000, by decide⟩ i := by
      refine ⟨0, ⟨_, rfl, rfl, rfl⟩, ?_⟩
      rintro j ⟨trap, htrap, hstate, -⟩
      match j, htrap with
      | 0, _ => rfl
      | 1, htrap =>
        obtain rfl := Option.some.inj htrap
        cases hstate
    exact absurd ((hexact _).mpr hone) (by decide)

end TrapSet

end AegisHV.Vmx
