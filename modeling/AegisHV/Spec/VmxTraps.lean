import AegisHV.Lib.Run
import AegisHV.Spec.VmxEpt

/-! Page traps and the monitor trap flag they share (`vmx/traps.rs` of `aegishv-arch-x86`). -/

namespace AegisHV.Vmx
open Sys

inductive VmxTrapKind
  | execute
  | write
  deriving DecidableEq

def VmxTrapKind.access : VmxTrapKind → EptAccess
  | .execute => .execute
  | .write => .write

inductive VmxTrapState
  | armed
  | hit
  | temporaryWindow
  | awaitingSingleStep
  | rearmed
  deriving DecidableEq

structure VmxTrap where
  kind : VmxTrapKind
  guestPhysical : GuestPhysical
  originalPermissions : EptPermissions
  armedPermissions : EptPermissions
  state : VmxTrapState

structure WxEnforcementEvent where
  guestPhysical : GuestPhysical
  previousPermissions : EptPermissions
  windowPermissions : EptPermissions
  writableExecutable : Bool

structure MonitorTrapFlag where
  supported : Bool
  activeGpa : Option GuestPhysical

namespace MonitorTrapFlag

def armFor (self : MonitorTrapFlag) (guestPhysical : GuestPhysical) :
    Except VmxError MonitorTrapFlag := do
  failIf (!self.supported) ⟨.unsupportedCapability,
    "Monitor Trap Flag is not available in the current VMX controls"⟩
  failIf self.activeGpa.isSome ⟨.invalidVmcsState,
    "Monitor Trap Flag is already armed for another trap"⟩
  pure { self with activeGpa := some guestPhysical }

def completeFor (self : MonitorTrapFlag) (guestPhysical : GuestPhysical) :
    Except VmxError MonitorTrapFlag := do
  failIf (self.activeGpa != some guestPhysical) ⟨.invalidVmcsState,
    "Monitor Trap Flag completion did not match the active trap"⟩
  pure { self with activeGpa := none }

end MonitorTrapFlag

namespace VmxTrap

def arm (mapping : EptMapping) (kind : VmxTrapKind) : Except VmxError VmxTrap := do
  failIf (!mapping.permissions.allows kind.access) ⟨.invalidEptMapping,
    "VMX trap cannot remove an access bit that is already absent"⟩
  let armedPermissions := match kind with
    | .execute => mapping.permissions.withoutExecute
    | .write => mapping.permissions.withoutWrite
  pure ⟨kind, mapping.guestPhysical, mapping.permissions, armedPermissions, .armed⟩

def recordHit (self : VmxTrap) : Except VmxError VmxTrap := do
  failIf (self.state != .armed && self.state != .rearmed) ⟨.invalidVmcsState,
    "VMX trap hit arrived while the trap was not armed"⟩
  pure { self with state := .hit }

def openTemporaryWriteWindow (self : VmxTrap) : Except VmxError (WxEnforcementEvent × VmxTrap) := do
  failIf (self.kind != .write || self.state != .hit) ⟨.invalidVmcsState,
    "temporary write window requires a write trap hit"⟩
  pure (⟨self.guestPhysical, self.armedPermissions, self.originalPermissions.withWrite,
    self.originalPermissions.execute⟩, { self with state := .temporaryWindow })

def awaitSingleStep (self : VmxTrap) (mtf : MonitorTrapFlag) :
    Except VmxError (VmxTrap × MonitorTrapFlag) := do
  let mtf ← mtf.armFor self.guestPhysical
  pure ({ self with state := .awaitingSingleStep }, mtf)

def rearmAfterStep (self : VmxTrap) (mtf : MonitorTrapFlag) :
    Except VmxError (VmxTrap × MonitorTrapFlag) := do
  let mtf ← mtf.completeFor self.guestPhysical
  pure ({ self with state := .rearmed }, mtf)

end VmxTrap

/-- Traps that share one flag. -/
structure TrapSet where
  traps : List VmxTrap
  mtf : MonitorTrapFlag

inductive TrapOp
  | recordHit
  | openTemporaryWriteWindow
  | awaitSingleStep
  | rearmAfterStep

/-- A call on one of the traps, or on the flag itself. -/
inductive TrapCall
  | trap (index : ℕ) (op : TrapOp)
  | completeFor (guestPhysical : GuestPhysical)

/-- What a call makes of its trap and the flag. -/
def TrapOp.apply (op : TrapOp) (trap : VmxTrap) (mtf : MonitorTrapFlag) :
    Except VmxError (VmxTrap × MonitorTrapFlag) :=
  match op with
  | .recordHit => return (← trap.recordHit, mtf)
  | .openTemporaryWriteWindow => return ((← trap.openTemporaryWriteWindow).2, mtf)
  | .awaitSingleStep => trap.awaitSingleStep mtf
  | .rearmAfterStep => trap.rearmAfterStep mtf

namespace TrapSet

/-- One call, which changes nothing if it fails or there is no such trap. -/
def step (s : TrapSet) : TrapCall → Except VmxError Unit × TrapSet
  | .trap index op =>
    match s.traps[index]? with
    | some trap =>
      match op.apply trap s.mtf with
      | .ok (trap, mtf) => (.ok (), ⟨s.traps.set index trap, mtf⟩)
      | .error e => (.error e, s)
    | none => (.ok (), s)
  | .completeFor guestPhysical =>
    match s.mtf.completeFor guestPhysical with
    | .ok mtf => (.ok (), { s with mtf := mtf })
    | .error e => (.error e, s)

end TrapSet

end AegisHV.Vmx
