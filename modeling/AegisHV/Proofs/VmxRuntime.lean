import AegisHV.Spec.VmxRuntime

/-! The order of the instructions around one VMCS. What a call can do to the machine is said once;
that a guest is launched and resumed only on a loaded VMCS, and when VMX operation can be entered
again, follow along every run. -/

namespace AegisHV.Vmx

open Sys List VmxRuntime

variable {m m' : VmxMachine} {answers : Answers} {address : HostPhysical}

/-- What a call can do. Each instruction that is issued succeeds or fails. -/
inductive Move (m : VmxMachine) : VmxMachine → Prop
  | refused : Move m m
  | enter (ok : Bool) (hstate : m.runtime.state = .off) : Move m
      ⟨if ok then { m.runtime with state := .vmxon } else m.runtime,
        m.issued ++ [⟨.vmxon, some m.runtime.vmxon.physicalAddress, ok⟩]⟩
  | clearFailed (hstate : m.runtime.state = .vmxon) : Move m
      ⟨m.runtime, m.issued ++ [⟨.vmclear, some m.runtime.vmcs.region.physicalAddress, false⟩]⟩
  | load (ok : Bool) (clearing : List Issued) (hstate : m.runtime.state = .vmxon)
      (hvmcs : m.runtime.vmcs.state ≠ .launched)
      (hclearing : clearing = [] ∨
        clearing = [⟨.vmclear, some m.runtime.vmcs.region.physicalAddress, true⟩]) : Move m
      ⟨if ok then ⟨m.runtime.vmxon, ⟨m.runtime.vmcs.region, .loaded⟩, .vmcsLoaded⟩
        else { m.runtime with vmcs := ⟨m.runtime.vmcs.region, .cleared⟩ },
        m.issued ++ clearing ++ [⟨.vmptrld, some m.runtime.vmcs.region.physicalAddress, ok⟩]⟩
  | launch (ok : Bool) (hstate : m.runtime.state = .vmcsLoaded) : Move m
      ⟨if ok then ⟨m.runtime.vmxon, ⟨m.runtime.vmcs.region, .launched⟩, .guestLaunched⟩
        else m.runtime, m.issued ++ [⟨.vmlaunch, none, ok⟩]⟩
  | resume (ok : Bool) (hstate : m.runtime.state = .guestLaunched) : Move m
      ⟨m.runtime, m.issued ++ [⟨.vmresume, none, ok⟩]⟩
  | leave (ok : Bool) (hstate : m.runtime.state ≠ .off) : Move m
      ⟨if ok then { m.runtime with state := .off } else m.runtime,
        m.issued ++ [⟨.vmxoff, none, ok⟩]⟩

theorem issue_ok {i : VmxInstruction} (h : answers i = none) (region : Option HostPhysical)
    (m : VmxMachine) : (issue answers i region).run m =
      (.ok ⟨⟩, { m with issued := m.issued ++ [⟨i, region, true⟩] }) := by
  simp only [issue, h]

theorem issue_error {i : VmxInstruction} {e : VmxError} (h : answers i = some e)
    (region : Option HostPhysical) (m : VmxMachine) : (issue answers i region).run m =
      (.error e, { m with issued := m.issued ++ [⟨i, region, false⟩] }) := by
  simp only [issue, h]

/-- A guard that refuses leaves the machine as it is. -/
theorem guard_run {α : Type} {c : Bool} {e : VmxError} {f : PUnit → Op VmxMachine VmxError α} :
    ((Op.lift (failIf c e) >>= f).run m) = if c then (.error e, m) else (f ⟨⟩).run m := by
  cases c <;> rfl

theorem enter_move : Move m ((enterVmxOperation answers).run m).2 := by
  rw [enterVmxOperation, Op.run_read_bind, guard_run]
  split
  case isTrue => exact .refused
  case isFalse hstate =>
    have hoff : m.runtime.state = .off := by simpa using hstate
    rcases hanswer : answers .vmxon with _ | e
    · rw [Op.run_bind_ok (issue_ok hanswer _ m)]
      exact .enter true hoff
    · rw [Op.run_bind_error (issue_error hanswer _ m)]
      exact .enter false hoff

theorem leave_move : Move m ((leaveVmxOperation answers).run m).2 := by
  rw [leaveVmxOperation, Op.run_read_bind]
  split
  case isTrue => exact .refused
  case isFalse hstate =>
    rcases hanswer : answers .vmxoff with _ | e
    · rw [Op.run_bind_ok (issue_ok hanswer _ m)]
      exact .leave true hstate
    · rw [Op.run_bind_error (issue_error hanswer _ m)]
      exact .leave false hstate

/-- The VMCS is launched if it is loaded and the processor does so. -/
theorem launchWith_run (answers : Answers) (m : VmxMachine) :
    (VmcsRegion.launchWith answers).run m =
      if m.runtime.vmcs.state = .loaded then
        match answers .vmlaunch with
        | none => (.ok ⟨⟩,
          ⟨⟨m.runtime.vmxon, ⟨m.runtime.vmcs.region, .launched⟩, m.runtime.state⟩,
            m.issued ++ [⟨.vmlaunch, none, true⟩]⟩)
        | some e => (.error e, ⟨m.runtime, m.issued ++ [⟨.vmlaunch, none, false⟩]⟩)
      else (.error (invalidState "VMLAUNCH requires a loaded VMCS"), m) := by
  rw [VmcsRegion.launchWith, Op.run_read_bind, guard_run]
  by_cases hvmcs : m.runtime.vmcs.state = .loaded
  · rw [if_pos hvmcs, if_neg (by simpa using hvmcs)]
    rcases hanswer : answers .vmlaunch with _ | e
    · rw [Op.run_bind_ok (issue_ok hanswer _ m)]
      rfl
    · rw [Op.run_bind_error (issue_error hanswer _ m)]
  · rw [if_neg hvmcs, if_pos (by simpa using hvmcs)]

theorem launch_move : Move m ((launchGuest answers).run m).2 := by
  rw [launchGuest, Op.run_read_bind, guard_run]
  split
  case isTrue => exact .refused
  case isFalse hstate =>
    have hloaded : m.runtime.state = .vmcsLoaded := by simpa using hstate
    have hrun := launchWith_run answers m
    by_cases hvmcs : m.runtime.vmcs.state = .loaded
    · rcases hanswer : answers .vmlaunch with _ | e
      · rw [if_pos hvmcs, hanswer] at hrun
        rw [Op.run_bind_ok hrun]
        exact .launch true hloaded
      · rw [if_pos hvmcs, hanswer] at hrun
        rw [Op.run_bind_error hrun]
        exact .launch false hloaded
    · rw [if_neg hvmcs] at hrun
      rw [Op.run_bind_error hrun]
      exact .refused

theorem resume_move : Move m ((resumeGuest answers).run m).2 := by
  rw [resumeGuest, Op.run_read_bind, guard_run]
  split
  case isTrue => exact .refused
  case isFalse hstate =>
    have hlaunched : m.runtime.state = .guestLaunched := by simpa using hstate
    rw [VmcsRegion.resumeWith, Op.run_read_bind, guard_run]
    split
    · exact .refused
    · rcases hanswer : answers .vmresume with _ | e
      · rw [issue_ok hanswer]
        exact .resume true hlaunched
      · rw [issue_error hanswer]
        exact .resume false hlaunched

/-- The ways in which clearing the VMCS ends. -/
inductive Clears (answers : Answers) (m : VmxMachine) : Except VmxError PUnit × VmxMachine → Prop
  | launched (e : VmxError) (hvmcs : m.runtime.vmcs.state = .launched) : Clears answers m (.error e, m)
  | failed (e : VmxError) (hvmcs : m.runtime.vmcs.state ≠ .launched)
      (hanswer : answers .vmclear = some e) : Clears answers m (.error e,
        ⟨m.runtime, m.issued ++ [⟨.vmclear, some m.runtime.vmcs.region.physicalAddress, false⟩]⟩)
  | cleared (clearing : List Issued) (hvmcs : m.runtime.vmcs.state ≠ .launched)
      (hclearing : clearing = [] ∨
        clearing = [⟨.vmclear, some m.runtime.vmcs.region.physicalAddress, true⟩]) :
      Clears answers m (.ok ⟨⟩, ⟨⟨m.runtime.vmxon, ⟨m.runtime.vmcs.region, .cleared⟩,
        m.runtime.state⟩, m.issued ++ clearing⟩)

theorem clearWith_clears (answers : Answers) (m : VmxMachine) :
    Clears answers m ((VmcsRegion.clearWith answers).run m) := by
  obtain ⟨⟨vmxon, ⟨region, vmcs⟩, state⟩, issued⟩ := m
  -- an allocated and a loaded VMCS are cleared by the processor
  have hissue : ∀ {n : VmxMachine}, n.runtime.vmcs.state ≠ .launched →
      Clears answers n ((issue answers .vmclear n.runtime.vmcs.region.physicalAddress >>= fun _ =>
        setVmcsState .cleared).run n) := by
    intro n hvmcs
    rcases hanswer : answers .vmclear with _ | e
    · rw [Op.run_bind_ok (issue_ok hanswer _ n)]
      exact .cleared [_] hvmcs (.inr rfl)
    · rw [Op.run_bind_error (issue_error hanswer _ n)]
      exact .failed e hvmcs hanswer
  cases vmcs with
  | allocated => exact hissue (n := ⟨⟨vmxon, ⟨region, .allocated⟩, state⟩, issued⟩) (by simp)
  | loaded => exact hissue (n := ⟨⟨vmxon, ⟨region, .loaded⟩, state⟩, issued⟩) (by simp)
  | cleared =>
    have hnil : Clears answers ⟨⟨vmxon, ⟨region, .cleared⟩, state⟩, issued⟩
        (.ok ⟨⟩, ⟨⟨vmxon, ⟨region, .cleared⟩, state⟩, issued ++ []⟩) :=
      .cleared [] (by simp) (.inl rfl)
    rw [append_nil] at hnil
    exact hnil
  | launched => exact .launched _ rfl

/-- Loading the cleared VMCS, once it is known to be cleared. -/
theorem loadWith_run (answers : Answers) (region : VmxRegion) (vmxon : VmxRegion) (state : VmxRuntimeState)
    (issued : List Issued) :
    (VmcsRegion.loadWith answers).run ⟨⟨vmxon, ⟨region, .cleared⟩, state⟩, issued⟩ =
      match answers .vmptrld with
      | none => (.ok ⟨⟩, ⟨⟨vmxon, ⟨region, .loaded⟩, state⟩,
          issued ++ [⟨.vmptrld, some region.physicalAddress, true⟩]⟩)
      | some e => (.error e, ⟨⟨vmxon, ⟨region, .cleared⟩, state⟩,
          issued ++ [⟨.vmptrld, some region.physicalAddress, false⟩]⟩) := by
  rw [VmcsRegion.loadWith, Op.run_read_bind, guard_run]
  rcases hanswer : answers .vmptrld with _ | e
  · exact Op.run_bind_ok (issue_ok hanswer _ _)
  · exact Op.run_bind_error (issue_error hanswer _ _)

theorem load_move : Move m ((loadVmcs answers).run m).2 := by
  rw [loadVmcs, Op.run_read_bind, guard_run]
  split
  case isTrue => exact .refused
  case isFalse hstate =>
    have hvmxon : m.runtime.state = .vmxon := by simpa using hstate
    generalize hout : (VmcsRegion.clearWith answers).run m = out
    have hclears := clearWith_clears answers m
    rw [hout] at hclears
    cases hclears with
    | launched e hvmcs =>
      rw [Op.run_bind_error hout]
      exact .refused
    | failed e hvmcs hanswer =>
      rw [Op.run_bind_error hout]
      exact .clearFailed hvmxon
    | cleared clearing hvmcs hclearing =>
      rw [Op.run_bind_ok hout]
      have hload := loadWith_run answers m.runtime.vmcs.region m.runtime.vmxon
        m.runtime.state (m.issued ++ clearing)
      rcases hanswer : answers .vmptrld with _ | e
      · rw [hanswer] at hload
        rw [Op.run_bind_ok hload]
        exact .load true clearing hvmxon hvmcs hclearing
      · rw [hanswer] at hload
        rw [Op.run_bind_error hload]
        exact .load false clearing hvmxon hvmcs hclearing

theorem step_move (m : VmxMachine) (call : VmxCall × Answers) : Move m (vmxStep m call).2 := by
  obtain ⟨call, answers⟩ := call
  cases call with
  | enterVmxOperation => exact enter_move
  | loadVmcs => exact load_move
  | launchGuest => exact launch_move
  | resumeGuest => exact resume_move
  | leaveVmxOperation => exact leave_move

/-! What the instructions have in common with the state -/

/-- VMXON has succeeded, and since then neither VMXON nor VMXOFF; what came since meets `P`. -/
def InOperation (P : List Issued → Prop) (issued : List Issued) : Prop :=
  ∃ before region after, issued = before ++ ⟨.vmxon, region, true⟩ :: after ∧
    (∀ i ∈ after, i.ok = true → i.instruction ≠ .vmxon ∧ i.instruction ≠ .vmxoff) ∧ P after

/-- What has been done with the VMCS since VMXON. -/
def Done (address : HostPhysical) : VmxRuntimeState → List Issued → Prop
  | .off, _ => True
  | .vmxon, _ => True
  | .vmcsLoaded, since => ⟨.vmptrld, some address, true⟩ ∈ since
  | .guestLaunched, since =>
    ⟨.vmptrld, some address, true⟩ ∈ since ∧ ⟨.vmlaunch, none, true⟩ ∈ since

theorem Done.append {state : VmxRuntimeState} {since : List Issued} (h : Done address state since)
    (more : List Issued) : Done address state (since ++ more) := by
  cases state with
  | off => trivial
  | vmxon => trivial
  | vmcsLoaded => exact mem_append_left _ h
  | guestLaunched => exact ⟨mem_append_left _ h.1, mem_append_left _ h.2⟩

theorem InOperation.append {P Q : List Issued → Prop} {issued more : List Issued}
    (h : InOperation P issued)
    (hmore : ∀ i ∈ more, i.ok = true → i.instruction ≠ .vmxon ∧ i.instruction ≠ .vmxoff)
    (hQ : ∀ since, P since → Q (since ++ more)) : InOperation Q (issued ++ more) := by
  obtain ⟨before, region, after, rfl, hafter, hP⟩ := h
  refine ⟨before, region, after ++ more, by simp, ?_, hQ after hP⟩
  intro i hi
  exact (mem_append.mp hi).elim (hafter i) (hmore i)

/-- VMLAUNCH and VMRESUME are issued only on the VMCS loaded, and launched, since VMXON. -/
def InOrder (address : HostPhysical) (issued : List Issued) : Prop :=
  ∀ before i after, issued = before ++ i :: after →
    (i.instruction = .vmlaunch → InOperation (Done address .vmcsLoaded) before) ∧
    (i.instruction = .vmresume → InOperation (Done address .guestLaunched) before)

theorem InOrder.concat {issued : List Issued} (h : InOrder address issued) {i : Issued}
    (hlaunch : i.instruction = .vmlaunch → InOperation (Done address .vmcsLoaded) issued)
    (hresume : i.instruction = .vmresume → InOperation (Done address .guestLaunched) issued) :
    InOrder address (issued ++ [i]) := by
  intro before j after heq
  rcases eq_nil_or_concat' after with rfl | ⟨after, last, rfl⟩
  · obtain ⟨rfl, hlast⟩ := append_inj' heq rfl
    obtain rfl := singleton_injective hlast
    exact ⟨hlaunch, hresume⟩
  · rw [← cons_append, ← append_assoc] at heq
    exact h before j after (append_inj' heq rfl).1

/-- The invariant of a run. -/
structure Sound (address : HostPhysical) (m : VmxMachine) : Prop where
  region : m.runtime.vmcs.region.physicalAddress = address
  inOrder : InOrder address m.issued
  operation : m.runtime.state ≠ .off → InOperation (Done address m.runtime.state) m.issued
  launched : m.runtime.vmcs.state = .launched ↔ ⟨.vmlaunch, none, true⟩ ∈ m.issued

/-- An instruction that is no entry and that leaves the runtime as it is. -/
theorem Sound.issue (h : Sound address m) {i : Issued}
    (hswitch : i.ok = true → i.instruction ≠ .vmxon ∧ i.instruction ≠ .vmxoff)
    (hlaunch : i.instruction = .vmlaunch → m.runtime.state = .vmcsLoaded ∧ i.ok = false)
    (hresume : i.instruction = .vmresume → m.runtime.state = .guestLaunched) :
    Sound address ⟨m.runtime, m.issued ++ [i]⟩ := by
  refine ⟨h.region, h.inOrder.concat (fun hi => ?_) (fun hi => ?_), fun hstate => ?_, ?_⟩
  · have hloaded := (hlaunch hi).1
    exact hloaded ▸ h.operation (by simp [hloaded])
  · have hlaunched := hresume hi
    exact hlaunched ▸ h.operation (by simp [hlaunched])
  · exact (h.operation hstate).append (by simpa using hswitch) fun _ hdone => hdone.append _
  · rw [h.launched, mem_append, mem_singleton]
    refine (or_iff_left fun hi => ?_).symm
    have hfailed := (hlaunch (by rw [← hi])).2
    rw [← hi] at hfailed
    cases hfailed

theorem Sound.enter (h : Sound address m) (region : Option HostPhysical) :
    Sound address ⟨{ m.runtime with state := .vmxon }, m.issued ++ [⟨.vmxon, region, true⟩]⟩ := by
  refine ⟨h.region, h.inOrder.concat (fun hi => by cases hi) (fun hi => by cases hi), ?_, ?_⟩
  · exact fun _ => ⟨m.issued, region, [], rfl, by simp, trivial⟩
  · simpa using h.launched

theorem Sound.leave (h : Sound address m) :
    Sound address ⟨{ m.runtime with state := .off }, m.issued ++ [⟨.vmxoff, none, true⟩]⟩ := by
  refine ⟨h.region, h.inOrder.concat (fun hi => by cases hi) (fun hi => by cases hi), ?_, ?_⟩
  · exact fun hstate => absurd rfl hstate
  · simpa using h.launched

/-- The VMCS was cleared, with or without the processor. -/
theorem Sound.clear (h : Sound address m) (hvmcs : m.runtime.vmcs.state ≠ .launched)
    {clearing : List Issued} (hclearing : clearing = [] ∨
      clearing = [⟨.vmclear, some m.runtime.vmcs.region.physicalAddress, true⟩]) :
    Sound address ⟨{ m.runtime with vmcs := ⟨m.runtime.vmcs.region, .cleared⟩ },
      m.issued ++ clearing⟩ := by
  have hlaunched := mt h.launched.mpr hvmcs
  rcases hclearing with rfl | rfl
  · rw [append_nil]
    exact ⟨h.region, h.inOrder, h.operation, iff_of_false (by simp) hlaunched⟩
  · have hissued := h.issue (i := ⟨.vmclear, some m.runtime.vmcs.region.physicalAddress, true⟩)
      (by simp) (by simp) (by simp)
    exact ⟨hissued.region, hissued.inOrder, hissued.operation,
      iff_of_false (by simp) (by simpa using hlaunched)⟩

theorem Sound.load (h : Sound address m) (hstate : m.runtime.state = .vmxon)
    (hvmcs : m.runtime.vmcs.state ≠ .launched) :
    Sound address ⟨⟨m.runtime.vmxon, ⟨m.runtime.vmcs.region, .loaded⟩, .vmcsLoaded⟩,
      m.issued ++ [⟨.vmptrld, some m.runtime.vmcs.region.physicalAddress, true⟩]⟩ := by
  refine ⟨h.region, h.inOrder.concat (fun hi => by cases hi) (fun hi => by cases hi), ?_, ?_⟩
  · intro _
    refine (h.operation (by simp [hstate])).append (by simp) fun since _ => ?_
    rw [h.region]
    exact mem_append_right _ mem_cons_self
  · exact iff_of_false (by simp) (by simpa using mt h.launched.mpr hvmcs)

theorem Sound.launch (h : Sound address m) (hstate : m.runtime.state = .vmcsLoaded) :
    Sound address ⟨⟨m.runtime.vmxon, ⟨m.runtime.vmcs.region, .launched⟩, .guestLaunched⟩,
      m.issued ++ [⟨.vmlaunch, none, true⟩]⟩ := by
  have hloaded : InOperation (Done address .vmcsLoaded) m.issued :=
    hstate ▸ h.operation (by simp [hstate])
  refine ⟨h.region, h.inOrder.concat (fun _ => hloaded) (fun hi => by cases hi), ?_, ?_⟩
  · exact fun _ => hloaded.append (by simp) fun since hdone =>
      ⟨mem_append_left _ hdone, mem_append_right _ mem_cons_self⟩
  · simp

theorem Sound.move (h : Sound address m) (hmove : Move m m') : Sound address m' := by
  cases hmove with
  | refused => exact h
  | enter ok hstate =>
    cases ok with
    | true => exact h.enter _
    | false => exact h.issue (by simp) (by simp) (by simp)
  | clearFailed hstate => exact h.issue (by simp) (by simp) (by simp)
  | load ok clearing hstate hvmcs hclearing =>
    have hcleared := h.clear hvmcs hclearing
    cases ok with
    | true => exact hcleared.load hstate (by simp)
    | false => exact hcleared.issue (by simp) (by simp) (by simp)
  | launch ok hstate =>
    cases ok with
    | true => exact h.launch hstate
    | false => exact h.issue (by simp) (by simp [hstate]) (by simp)
  | resume ok hstate => exact h.issue (by simp) (by simp) (by simp [hstate])
  | leave ok hstate =>
    cases ok with
    | true => exact h.leave
    | false => exact h.issue (by simp) (by simp) (by simp)

theorem sound_run {rt : VmxRuntime} (hrt : rt.state = .off) (hvmcs : rt.vmcs.state ≠ .launched)
    (calls : List (VmxCall × Answers)) :
    Sound rt.vmcs.region.physicalAddress (run vmxStep ⟨rt, []⟩ calls).2 := by
  refine run_inv (fun _ m => Sound rt.vmcs.region.physicalAddress m) ?_ ?_ calls
  · refine ⟨rfl, ?_, fun h => absurd hrt h, iff_of_false hvmcs (by simp)⟩
    intro before i after heq
    simp at heq
  · exact fun _ m call h => h.move (step_move m call)

/-! Entering again -/

/-- A processor on which every instruction succeeds. -/
def succeeding : Answers := fun _ => none

/-- VMX operation is left, and entered, loaded and launched again. -/
def reenter : Op VmxMachine VmxError PUnit := do
  leaveVmxOperation succeeding
  enterVmxOperation succeeding
  loadVmcs succeeding
  launchGuest succeeding

theorem reenter_ok_iff (m : VmxMachine) :
    (reenter.run m).1 = .ok ⟨⟩ ↔ m.runtime.vmcs.state ≠ .launched := by
  obtain ⟨⟨vmxon, ⟨region, vmcs⟩, state⟩, issued⟩ := m
  cases vmcs with
  | allocated => cases state <;> exact iff_of_true rfl (by simp)
  | cleared => cases state <;> exact iff_of_true rfl (by simp)
  | loaded => cases state <;> exact iff_of_true rfl (by simp)
  | launched => cases state <;> exact iff_of_false (fun h => by cases h) (by simp)

def sampleRegion (page : ℕ) (h : page < 16) : VmxRegion :=
  ⟨⟨page * 4096, by omega⟩, ⟨0x33, by decide, by decide⟩, by simp⟩

def sampleRuntime : VmxRuntime :=
  ⟨sampleRegion 4 (by decide), VmcsRegion.allocate (sampleRegion 8 (by decide)), .off⟩

def refusingLaunch : Answers := fun i =>
  if i = .vmlaunch then some ⟨.instructionFailed, "VMLAUNCH failed"⟩ else none

end AegisHV.Vmx
