import AegisHV.Spec.MapPlan

/-! Entries of the extended page tables (`vmx/ept.rs` of `aegishv-arch-x86`). -/

namespace AegisHV.Vmx
open Sys

def EPT_VPID_CAP_EXECUTE_ONLY : ℕ := 1 <<< 0
def EPT_VPID_CAP_PAGE_WALK_LENGTH_4 : ℕ := 1 <<< 6
def EPT_VPID_CAP_MEMORY_TYPE_UC : ℕ := 1 <<< 8
def EPT_VPID_CAP_MEMORY_TYPE_WB : ℕ := 1 <<< 14
def EPT_PAGE_ADDRESS_MASK : ℕ := 0x000ffffffffff000
def EPT_READ : ℕ := 1 <<< 0
def EPT_WRITE : ℕ := 1 <<< 1
def EPT_EXECUTE : ℕ := 1 <<< 2
def EPT_MEMORY_TYPE_SHIFT : ℕ := 3
def EPTP_PAGE_WALK_LENGTH_4 : ℕ := 3 <<< 3
def EPT_PAGE_SIZE_4K : ℕ := 4096

namespace EptMemoryType

def raw : EptMemoryType → ℕ
  | .uncacheable => 0
  | .writeBack => 6

def eptpEncoding (self : EptMemoryType) : ℕ := self.raw

def leafEncoding (self : EptMemoryType) : ℕ := self.raw <<< EPT_MEMORY_TYPE_SHIFT

end EptMemoryType

structure EptCapabilities where
  raw : ℕ

namespace EptCapabilities

def supports4LevelWalk (self : EptCapabilities) : Bool :=
  self.raw &&& EPT_VPID_CAP_PAGE_WALK_LENGTH_4 != 0

def supportsExecuteOnly (self : EptCapabilities) : Bool :=
  self.raw &&& EPT_VPID_CAP_EXECUTE_ONLY != 0

def supportsMemoryType (self : EptCapabilities) (memoryType : EptMemoryType) : Bool :=
  let capability := match memoryType with
    | .uncacheable => EPT_VPID_CAP_MEMORY_TYPE_UC
    | .writeBack => EPT_VPID_CAP_MEMORY_TYPE_WB
  self.raw &&& capability != 0

def validate4LevelWriteBack (self : EptCapabilities) : Except VmxError Unit := do
  failIf (!self.supports4LevelWalk)
    ⟨.unsupportedCapability, "CPU does not support a four-level EPT page walk"⟩
  failIf (!self.supportsMemoryType .writeBack)
    ⟨.unsupportedCapability, "CPU does not support the write-back EPT memory type"⟩

end EptCapabilities

inductive EptAccess
  | read
  | write
  | execute

namespace EptPermissions

def READ_WRITE : EptPermissions := ⟨true, true, false⟩
def READ_EXECUTE : EptPermissions := ⟨true, false, true⟩
def READ_WRITE_EXECUTE : EptPermissions := ⟨true, true, true⟩

def withoutExecute (self : EptPermissions) : EptPermissions := { self with execute := false }

def withoutWrite (self : EptPermissions) : EptPermissions := { self with write := false }

def withWrite (self : EptPermissions) : EptPermissions := { self with write := true }

def allows (self : EptPermissions) : EptAccess → Bool
  | .read => self.read
  | .write => self.write
  | .execute => self.execute

end EptPermissions

def validateEptPageAddress (address : HostPhysical) : Except VmxError ℕ := do
  failIf (address.raw % EPT_PAGE_SIZE_4K != 0)
    ⟨.invalidEptMapping, "EPT page address must be 4K aligned"⟩
  failIf (address.raw &&& (2 ^ 64 - 1 - EPT_PAGE_ADDRESS_MASK) != 0)
    ⟨.invalidEptMapping, "EPT page address sets bits outside the architectural address field"⟩
  pure address.raw

def encodeEptPermissions (permissions : EptPermissions) (capabilities : EptCapabilities) :
    Except VmxError ℕ := do
  failIf (!permissions.read && !permissions.write && !permissions.execute)
    ⟨.invalidEptMapping, "EPT 4K leaf must grant at least one permission"⟩
  failIf (permissions.write && !permissions.read)
    ⟨.invalidEptMapping, "EPT write permission requires read permission"⟩
  failIf (permissions.execute && !permissions.read && !capabilities.supportsExecuteOnly)
    ⟨.unsupportedCapability, "CPU does not support execute-only EPT translations"⟩
  pure ((if permissions.read then EPT_READ else 0) ||| (if permissions.write then EPT_WRITE else 0)
    ||| (if permissions.execute then EPT_EXECUTE else 0))

structure EptPointer where
  root : HostPhysical
  raw : ℕ

def EptPointer.new (root : HostPhysical) (capabilities : EptCapabilities) :
    Except VmxError EptPointer := do
  capabilities.validate4LevelWriteBack
  let rootRaw ← validateEptPageAddress root
  pure ⟨root, rootRaw ||| EptMemoryType.writeBack.eptpEncoding ||| EPTP_PAGE_WALK_LENGTH_4⟩

/-- `EptTableEntry::new(..).raw()` -/
def eptTableEntry (nextLevel : HostPhysical) : Except VmxError ℕ := do
  let address ← validateEptPageAddress nextLevel
  pure (address ||| EPT_READ ||| EPT_WRITE ||| EPT_EXECUTE)

/-- `EptLeafEntry4K::new(..).raw()` -/
def eptLeafEntry4K (hostPhysical : HostPhysical) (permissions : EptPermissions)
    (memoryType : EptMemoryType) (capabilities : EptCapabilities) : Except VmxError ℕ := do
  let address ← validateEptPageAddress hostPhysical
  let permissionBits ← encodeEptPermissions permissions capabilities
  failIf (!capabilities.supportsMemoryType memoryType)
    ⟨.unsupportedCapability, "CPU does not support the requested EPT leaf memory type"⟩
  pure (address ||| permissionBits ||| memoryType.leafEncoding)

end AegisHV.Vmx
