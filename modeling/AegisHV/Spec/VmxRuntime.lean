import AegisHV.Lib.Op
import AegisHV.Lib.Run
import AegisHV.Spec.MapPlan

/-! Entering and leaving VMX operation around one VMCS (`vmx/runtime.rs`, `vmx/vmcs.rs` and
`vmx/region.rs` of `aegishv-arch-x86`). The processor is what it answers to each instruction of a
call; the machine keeps the instructions that were issued. -/

namespace AegisHV.Vmx

open Sys

inductive VmxInstruction
  | vmxon | vmxoff | vmptrld | vmclear | vmlaunch | vmresume | vmread | vmwrite
  deriving DecidableEq

structure VmxRevisionId where
  raw : ℕ
  valid : raw ≠ 0 ∧ raw < 2 ^ 31
  deriving DecidableEq

/-- A region of one page; its bytes are not read here. -/
structure VmxRegion where
  physicalAddress : HostPhysical
  revisionId : VmxRevisionId
  aligned : physicalAddress.raw % 4096 = 0

inductive VmcsLifecycleState
  | allocated | cleared | loaded | launched
  deriving DecidableEq

structure VmcsRegion where
  region : VmxRegion
  state : VmcsLifecycleState

def VmcsRegion.allocate (region : VmxRegion) : VmcsRegion := ⟨region, .allocated⟩

inductive VmxRuntimeState
  | off | vmxon | vmcsLoaded | guestLaunched
  deriving DecidableEq

structure VmxRuntime where
  vmxon : VmxRegion
  vmcs : VmcsRegion
  state : VmxRuntimeState

def VmxRuntime.new (vmxon : VmxRegion) (vmcs : VmcsRegion) : Except VmxError VmxRuntime := do
  failIf (vmxon.revisionId ≠ vmcs.region.revisionId)
    ⟨.invalidRevisionId, "VMXON and VMCS regions must use the same VMCS revision id"⟩
  pure ⟨vmxon, vmcs, .off⟩

/-- An instruction, the region it names, and whether it succeeded. -/
structure Issued where
  instruction : VmxInstruction
  region : Option HostPhysical
  ok : Bool
  deriving DecidableEq

structure VmxMachine where
  runtime : VmxRuntime
  issued : List Issued

/-- The failures of the processor during one call, which issues no instruction twice. -/
abbrev Answers : Type := VmxInstruction → Option VmxError

def issue (answers : Answers) (instruction : VmxInstruction) (region : Option HostPhysical) :
    Op VmxMachine VmxError PUnit :=
  ⟨fun m => match answers instruction with
    | none => (.ok ⟨⟩, { m with issued := m.issued ++ [⟨instruction, region, true⟩] })
    | some e => (.error e, { m with issued := m.issued ++ [⟨instruction, region, false⟩] })⟩

def setState (state : VmxRuntimeState) : Op VmxMachine VmxError PUnit :=
  ⟨fun m => (.ok ⟨⟩, { m with runtime := { m.runtime with state } })⟩

def setVmcsState (state : VmcsLifecycleState) : Op VmxMachine VmxError PUnit :=
  ⟨fun m => (.ok ⟨⟩,
    { m with runtime := { m.runtime with vmcs := { m.runtime.vmcs with state } } })⟩

def invalidState (message : String) : VmxError := ⟨.invalidVmcsState, message⟩

namespace VmcsRegion

def clearWith (answers : Answers) : Op VmxMachine VmxError PUnit := do
  let m ← Op.read
  match m.runtime.vmcs.state with
  | .allocated | .loaded =>
    issue answers .vmclear m.runtime.vmcs.region.physicalAddress
    setVmcsState .cleared
  | .cleared => pure ⟨⟩
  | .launched =>
    Op.fail (invalidState "a launched VMCS must exit or be reset before VMCLEAR is modeled")

def loadWith (answers : Answers) : Op VmxMachine VmxError PUnit := do
  let m ← Op.read
  Op.lift (failIf (m.runtime.vmcs.state ≠ .cleared)
    (invalidState "VMPTRLD requires a cleared VMCS region"))
  issue answers .vmptrld m.runtime.vmcs.region.physicalAddress
  setVmcsState .loaded

def launchWith (answers : Answers) : Op VmxMachine VmxError PUnit := do
  let m ← Op.read
  Op.lift (failIf (m.runtime.vmcs.state ≠ .loaded)
    (invalidState "VMLAUNCH requires a loaded VMCS"))
  issue answers .vmlaunch none
  setVmcsState .launched

def resumeWith (answers : Answers) : Op VmxMachine VmxError PUnit := do
  let m ← Op.read
  Op.lift (failIf (m.runtime.vmcs.state ≠ .launched)
    (invalidState "VMRESUME requires a launched VMCS"))
  issue answers .vmresume none

end VmcsRegion

namespace VmxRuntime

def enterVmxOperation (answers : Answers) : Op VmxMachine VmxError PUnit := do
  let m ← Op.read
  Op.lift (failIf (m.runtime.state ≠ .off) (invalidState "VMXON requires the runtime to be off"))
  issue answers .vmxon m.runtime.vmxon.physicalAddress
  setState .vmxon

def loadVmcs (answers : Answers) : Op VmxMachine VmxError PUnit := do
  let m ← Op.read
  Op.lift (failIf (m.runtime.state ≠ .vmxon)
    (invalidState "VMPTRLD requires VMX operation before loading the VMCS"))
  VmcsRegion.clearWith answers
  VmcsRegion.loadWith answers
  setState .vmcsLoaded

def launchGuest (answers : Answers) : Op VmxMachine VmxError PUnit := do
  let m ← Op.read
  Op.lift (failIf (m.runtime.state ≠ .vmcsLoaded)
    (invalidState "VMLAUNCH requires a loaded VMCS runtime"))
  VmcsRegion.launchWith answers
  setState .guestLaunched

def resumeGuest (answers : Answers) : Op VmxMachine VmxError PUnit := do
  let m ← Op.read
  Op.lift (failIf (m.runtime.state ≠ .guestLaunched)
    (invalidState "VMRESUME requires a launched guest runtime"))
  VmcsRegion.resumeWith answers

def leaveVmxOperation (answers : Answers) : Op VmxMachine VmxError PUnit := do
  let m ← Op.read
  if m.runtime.state = .off then pure ⟨⟩
  else
    issue answers .vmxoff none
    setState .off

end VmxRuntime

inductive VmxCall
  | enterVmxOperation | loadVmcs | launchGuest | resumeGuest | leaveVmxOperation

def VmxCall.op : VmxCall → Answers → Op VmxMachine VmxError PUnit
  | .enterVmxOperation => VmxRuntime.enterVmxOperation
  | .loadVmcs => VmxRuntime.loadVmcs
  | .launchGuest => VmxRuntime.launchGuest
  | .resumeGuest => VmxRuntime.resumeGuest
  | .leaveVmxOperation => VmxRuntime.leaveVmxOperation

/-- A call, on a processor that answers so. -/
def vmxStep (m : VmxMachine) (call : VmxCall × Answers) : Except VmxError PUnit × VmxMachine :=
  (call.1.op call.2).run m

end AegisHV.Vmx
