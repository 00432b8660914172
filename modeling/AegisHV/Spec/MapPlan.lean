import AegisHV.Lib.Op
import AegisHV.Lib.Ranges
import AegisHV.Spec.Memory

/-! The second-stage map plans: `EptMapPlan` (`vmx/ept.rs`) and `NptMapPlan` (`svm/npt.rs`)
of `aegishv-arch-x86` and `Stage2MapPlan` (`stage2.rs`) of `aegishv-arch-arm64`. The three
share their code but for the names of their fields and the texts of their errors. Ends of
ranges are plain additions, which wrap in the release profile. -/

namespace AegisHV
open Sys

/-- What one of the plans calls its fields and answers on failure. -/
structure PlanKind (μ π ε : Type) where
  start : μ → GuestPhysical
  size : μ → ℕ
  size_lt : ∀ m, size m < 2 ^ 64
  permissions : μ → π
  withPermissions : π → μ → μ
  start_withPermissions : ∀ p m, start (withPermissions p m) = start m
  size_withPermissions : ∀ p m, size (withPermissions p m) = size m
  full : ε
  overlap : ε
  missing : ε

/-- The slots of a plan of `N` that are in use. -/
structure MapPlan (μ : Type) (N : ℕ) where
  mappings : List μ
  fits : mappings.length ≤ N

def MapPlan.new (μ : Type) (N : ℕ) : MapPlan μ N := ⟨[], Nat.zero_le N⟩

namespace PlanKind

variable {μ π ε : Type} {N : ℕ} (k : PlanKind μ π ε)

def lo (m : μ) : ℕ := (k.start m).raw

/-- The source's `end`. -/
def stop (m : μ) : ℕ := wrappedEnd k.lo k.size m

def contains (m : μ) (address : GuestPhysical) : Bool := inWrapped k.lo k.size m address.raw

def rejectOverlap (self : MapPlan μ N) (candidate : μ) : Except ε Unit :=
  self.mappings.forM fun existing =>
    failIf (k.lo candidate < k.stop existing && k.lo existing < k.stop candidate) k.overlap

/-- `check` is what a plan does beyond the test for overlap. -/
def map (check : μ → Except ε Unit) (mapping : μ) : Op (MapPlan μ N) ε Unit := do
  let self ← Op.read
  if h : N ≤ self.mappings.length then Op.fail k.full
  else
    Op.lift (k.rejectOverlap self mapping)
    Op.lift (check mapping)
    Op.write ⟨self.mappings ++ [mapping], by simpa using Nat.not_le.1 h⟩

def lookup (self : MapPlan μ N) (address : GuestPhysical) : Option μ :=
  self.mappings.find? (k.contains · address)

def setPermissions (address : GuestPhysical) (permissions : π) : Op (MapPlan μ N) ε π := do
  let self ← Op.read
  match self.mappings.findIdx? (k.contains · address) with
  | none => Op.fail k.missing
  | some index =>
    match self.mappings[index]? with
    | none => Op.fail k.missing
    | some mapping => do
      let mapping' := k.withPermissions permissions mapping
      Op.write ⟨self.mappings.set index mapping', by simpa using self.fits⟩
      pure (k.permissions mapping)

end PlanKind

inductive PlanCall (μ π : Type)
  | map (mapping : μ)
  | setPermissions (address : GuestPhysical) (permissions : π)

inductive PlanReply (π ε : Type)
  | done
  | previous (permissions : π)
  | failed (error : ε)

/-- One call on a plan with these two operations. -/
def stepWith {σ μ π ε : Type} (map : μ → Op σ ε Unit) (setPermissions : GuestPhysical → π → Op σ ε π)
    (self : σ) : PlanCall μ π → PlanReply π ε × σ
  | .map mapping => (map mapping).reply (fun _ => .done) .failed self
  | .setPermissions address permissions =>
    (setPermissions address permissions).reply .previous .failed self

namespace Vmx

inductive VmxErrorKind
  | missingCpuidBit | featureControlUnlocked | vmxDisabledOutsideSmx | invalidRevisionId
  | misalignedRegion | regionTooSmall | instructionFailed | invalidVmcsState | invalidVmcsField
  | invalidControlBits | invalidGuestState | unsupportedExit | unsupportedMsr
  | unsupportedControlRegister | invalidEptMapping | invalidEptViolation | unsupportedCapability

structure VmxError where
  kind : VmxErrorKind
  message : String

inductive EptPageSize
  | size4K | size2M

def EptPageSize.bytes : EptPageSize → ℕ
  | .size4K => 4096
  | .size2M => 2 * 1024 * 1024

inductive EptMemoryType
  | uncacheable | writeBack

structure EptPermissions where
  read : Bool
  write : Bool
  execute : Bool

/-- The fields are public, so a mapping need not come from `new`. -/
structure EptMapping where
  guestPhysical : GuestPhysical
  hostPhysical : HostPhysical
  pageSize : EptPageSize
  permissions : EptPermissions
  memoryType : EptMemoryType

def EptMapping.new (guestPhysical : GuestPhysical) (hostPhysical : HostPhysical)
    (pageSize : EptPageSize) (permissions : EptPermissions) (memoryType : EptMemoryType) :
    Except VmxError EptMapping := do
  let bytes := pageSize.bytes
  failIf (guestPhysical.raw % bytes != 0 || hostPhysical.raw % bytes != 0)
    ⟨.invalidEptMapping, "EPT mapping addresses must be aligned to the selected page size"⟩
  pure { guestPhysical, hostPhysical, pageSize, permissions, memoryType }

def eptKind : PlanKind EptMapping EptPermissions VmxError where
  start := EptMapping.guestPhysical
  size m := m.pageSize.bytes
  size_lt m := by cases m.pageSize <;> decide
  permissions := EptMapping.permissions
  withPermissions permissions m := { m with permissions }
  start_withPermissions _ _ := rfl
  size_withPermissions _ _ := rfl
  full := ⟨.invalidEptMapping, "EPT map plan is full"⟩
  overlap := ⟨.invalidEptMapping, "EPT mapping overlaps an existing guest physical range"⟩
  missing := ⟨.invalidEptMapping, "EPT permission update did not find a covering mapping"⟩

abbrev EptMapPlan (N : ℕ) : Type := MapPlan EptMapping N

namespace EptMapPlan

variable {N : ℕ}

def new (N : ℕ) : EptMapPlan N := MapPlan.new EptMapping N

def map (mapping : EptMapping) : Op (EptMapPlan N) VmxError Unit :=
  eptKind.map (fun _ => .ok ()) mapping

def lookup (self : EptMapPlan N) (gpa : GuestPhysical) : Option EptMapping := eptKind.lookup self gpa

def setPermissions (gpa : GuestPhysical) (permissions : EptPermissions) :
    Op (EptMapPlan N) VmxError EptPermissions :=
  eptKind.setPermissions gpa permissions

def step : EptMapPlan N → PlanCall EptMapping EptPermissions →
    PlanReply EptPermissions VmxError × EptMapPlan N := stepWith map setPermissions

end EptMapPlan

end Vmx

namespace Arm64

inductive Arm64ErrorKind
  | missingEl2 | unsupportedGranule | unsupportedIpaSize | unsupportedVmidWidth
  | missingGicVirtualization | missingSmmu | invalidAddress | invalidStage2Mapping | invalidVtcr
  | invalidVttbr | invalidEsr | unsupportedTrap | unsupportedCapability | invalidTimerState

structure Arm64Error where
  kind : Arm64ErrorKind
  message : String

inductive Granule
  | size4K | size16K | size64K

def Granule.bytes : Granule → ℕ
  | .size4K => 4096
  | .size16K => 16 * 1024
  | .size64K => 64 * 1024

inductive Stage2MemoryAttr
  | device | normalWriteBack

inductive Stage2Shareability
  | nonShareable | innerShareable | outerShareable

structure Stage2Permissions where
  read : Bool
  write : Bool
  execute : Bool

structure Stage2Mapping where
  ipa : GuestPhysical
  pa : HostPhysical
  length : ℕ
  length_lt : length < 2 ^ 64
  granule : Granule
  permissions : Stage2Permissions
  attr : Stage2MemoryAttr
  shareability : Stage2Shareability

def Stage2Mapping.new (ipa : GuestPhysical) (pa : HostPhysical) (length : ℕ)
    (length_lt : length < 2 ^ 64) (granule : Granule) (permissions : Stage2Permissions)
    (attr : Stage2MemoryAttr) (shareability : Stage2Shareability) :
    Except Arm64Error Stage2Mapping := do
  let bytes := granule.bytes
  failIf (length == 0 || length % bytes != 0 || ipa.raw % bytes != 0 || pa.raw % bytes != 0)
    ⟨.invalidStage2Mapping, "ARM64 Stage-2 mapping must use non-empty aligned ranges"⟩
  pure { ipa, pa, length, length_lt, granule, permissions, attr, shareability }

def stage2Kind : PlanKind Stage2Mapping Stage2Permissions Arm64Error where
  start := Stage2Mapping.ipa
  size := Stage2Mapping.length
  size_lt := Stage2Mapping.length_lt
  permissions := Stage2Mapping.permissions
  withPermissions permissions m := { m with permissions }
  start_withPermissions _ _ := rfl
  size_withPermissions _ _ := rfl
  full := ⟨.invalidStage2Mapping, "ARM64 Stage-2 map plan is full"⟩
  overlap := ⟨.invalidStage2Mapping, "ARM64 Stage-2 mapping overlaps an existing IPA range"⟩
  missing :=
    ⟨.invalidStage2Mapping, "ARM64 Stage-2 permission update did not find a covering mapping"⟩

abbrev Stage2MapPlan (N : ℕ) : Type := MapPlan Stage2Mapping N

namespace Stage2MapPlan

variable {N : ℕ}

def new (N : ℕ) : Stage2MapPlan N := MapPlan.new Stage2Mapping N

def map (mapping : Stage2Mapping) : Op (Stage2MapPlan N) Arm64Error Unit :=
  stage2Kind.map (fun _ => .ok ()) mapping

def lookup (self : Stage2MapPlan N) (ipa : GuestPhysical) : Option Stage2Mapping :=
  stage2Kind.lookup self ipa

def setPermissions (ipa : GuestPhysical) (permissions : Stage2Permissions) :
    Op (Stage2MapPlan N) Arm64Error Stage2Permissions :=
  stage2Kind.setPermissions ipa permissions

def step : Stage2MapPlan N → PlanCall Stage2Mapping Stage2Permissions →
    PlanReply Stage2Permissions Arm64Error × Stage2MapPlan N := stepWith map setPermissions

end Stage2MapPlan

end Arm64

namespace Svm

inductive SvmErrorKind
  | missingCpuidBit | missingNpt | missingAsidCapacity | invalidAsid | invalidVmcbAddress
  | invalidVmcbState | invalidIntercept | invalidControlRegister | unsupportedCapability
  | unsupportedExit | unsupportedMsr | unsupportedIo | invalidNptMapping | invalidNestedPageFault
  | instructionFailed

structure SvmError where
  kind : SvmErrorKind
  message : String

inductive NptPageSize
  | size4K | size2M

def NptPageSize.bytes : NptPageSize → ℕ
  | .size4K => 4096
  | .size2M => 2 * 1024 * 1024

structure NptPermissions where
  read : Bool
  write : Bool
  execute : Bool

structure NptMapping where
  guestPhysical : GuestPhysical
  hostPhysical : HostPhysical
  pageSize : NptPageSize
  permissions : NptPermissions

namespace NptMapping

def new (guestPhysical : GuestPhysical) (hostPhysical : HostPhysical) (pageSize : NptPageSize)
    (permissions : NptPermissions) : Except SvmError NptMapping := do
  let bytes := pageSize.bytes
  failIf (guestPhysical.raw % bytes != 0 || hostPhysical.raw % bytes != 0)
    ⟨.invalidNptMapping, "NPT mapping addresses must be aligned to the selected page size"⟩
  pure { guestPhysical, hostPhysical, pageSize, permissions }

def hostEnd (self : NptMapping) : ℕ := wrappingAdd self.hostPhysical.raw self.pageSize.bytes

end NptMapping

def nptKind : PlanKind NptMapping NptPermissions SvmError where
  start := NptMapping.guestPhysical
  size m := m.pageSize.bytes
  size_lt m := by cases m.pageSize <;> decide
  permissions := NptMapping.permissions
  withPermissions permissions m := { m with permissions }
  start_withPermissions _ _ := rfl
  size_withPermissions _ _ := rfl
  full := ⟨.invalidNptMapping, "NPT map plan is full"⟩
  overlap := ⟨.invalidNptMapping, "NPT mapping overlaps an existing guest physical range"⟩
  missing := ⟨.invalidNptMapping, "NPT permission update did not find a covering mapping"⟩

structure ProtectedRange where
  start : HostPhysical
  length : ℕ
  length_lt : length < 2 ^ 64

namespace ProtectedRange

def new (start : HostPhysical) (length : ℕ) (length_lt : length < 2 ^ 64) :
    Except SvmError ProtectedRange := do
  failIf (length == 0) ⟨.invalidNptMapping, "protected hypervisor range must not be empty"⟩
  pure { start, length, length_lt }

/-- The source's `end`. -/
def stop (self : ProtectedRange) : ℕ := wrappingAdd self.start.raw self.length

def overlapsMapping (self : ProtectedRange) (mapping : NptMapping) : Bool :=
  mapping.hostPhysical.raw < self.stop && self.start.raw < mapping.hostEnd

end ProtectedRange

structure NptMapPlan (N P : ℕ) where
  plan : MapPlan NptMapping N
  protectedRanges : List ProtectedRange
  protected_fits : protectedRanges.length ≤ P

namespace NptMapPlan

variable {N P : ℕ}

def new (N P : ℕ) : NptMapPlan N P := ⟨MapPlan.new NptMapping N, [], Nat.zero_le P⟩

def protectHypervisorRange (range : ProtectedRange) : Op (NptMapPlan N P) SvmError Unit := do
  let self ← Op.read
  if h : P ≤ self.protectedRanges.length then
    Op.fail ⟨.invalidNptMapping, "NPT protected range plan is full"⟩
  else
    Op.write { self with
      protectedRanges := self.protectedRanges ++ [range]
      protected_fits := by simpa using Nat.not_le.1 h }

def rejectHypervisorOverlap (self : NptMapPlan N P) (candidate : NptMapping) :
    Except SvmError Unit :=
  self.protectedRanges.forM fun range => failIf (range.overlapsMapping candidate)
    ⟨.invalidNptMapping, "NPT mapping would expose protected hypervisor memory"⟩

def onPlan {α : Type} : Op (MapPlan NptMapping N) SvmError α → Op (NptMapPlan N P) SvmError α :=
  Op.within NptMapPlan.plan fun plan self => { self with plan }

def map (mapping : NptMapping) : Op (NptMapPlan N P) SvmError Unit := do
  let self ← Op.read
  onPlan (nptKind.map self.rejectHypervisorOverlap mapping)

def lookup (self : NptMapPlan N P) (gpa : GuestPhysical) : Option NptMapping :=
  nptKind.lookup self.plan gpa

def setPermissions (gpa : GuestPhysical) (permissions : NptPermissions) :
    Op (NptMapPlan N P) SvmError NptPermissions :=
  onPlan (nptKind.setPermissions gpa permissions)

inductive Call
  | protectHypervisorRange (range : ProtectedRange)
  | plan (call : PlanCall NptMapping NptPermissions)

def step (self : NptMapPlan N P) : Call → PlanReply NptPermissions SvmError × NptMapPlan N P
  | .protectHypervisorRange range =>
    (protectHypervisorRange range).reply (fun _ => .done) .failed self
  | .plan call => stepWith map setPermissions self call

end NptMapPlan
end Svm
end AegisHV
