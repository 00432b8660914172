import Mathlib.Data.Prod.Lex
import Mathlib.Data.String.Basic
import AegisHV.Lib.Op
import AegisHV.Lib.OrdMap
import AegisHV.Lib.Text
import AegisHV.Lib.Word

/-! The stage-2 model of the trap code (`trap/mod.rs`, `trap/stage2.rs`,
`trap/stage2_model.rs`): permissions, page sizes, mappings and the table that holds them
in the order of owner, address space and base. -/

namespace AegisHV
open Sys

inductive TrapErrorKind
  | invalidAddress | invalidPageSize | misaligned | overlap | notMapped | unsupportedCapability
  | invalidState | policyDenied | malformedInput
  deriving DecidableEq

structure TrapError where
  kind : TrapErrorKind
  detail : String
  deriving DecidableEq

inductive PageSize
  | size4K | size2M | size1G
  deriving DecidableEq

namespace PageSize

def bytes : PageSize → ℕ
  | size4K => 4096
  | size2M => 2 * 1024 * 1024
  | size1G => 1024 * 1024 * 1024

def asStr : PageSize → String
  | size4K => "4k"
  | size2M => "2m"
  | size1G => "1g"

def isAligned (self : PageSize) (addr : ℕ) : Bool := addr % self.bytes == 0

def alignDown (self : PageSize) (addr : ℕ) : ℕ := addr - addr % self.bytes

def immediateChild : PageSize → Option PageSize
  | size1G => some size2M
  | size2M => some size4K
  | size4K => none

def splitCount (self target : PageSize) : Except TrapError ℕ :=
  if self.immediateChild ≠ some target then
    .error ⟨.unsupportedCapability,
      "stage-2 model splits one page-table level at a time; cannot split " ++ self.asStr ++
        " directly to " ++ target.asStr⟩
  else .ok (self.bytes / target.bytes)

end PageSize

inductive Stage2BackendKind
  | synthetic | intelEpt | amdNpt | armStage2
  deriving DecidableEq

inductive MemoryType
  | writeBack | writeThrough | writeCombining | writeProtected | uncacheable | normal | device
  deriving DecidableEq

inductive TrapAccessKind
  | read | write | execute

structure Stage2Permissions where
  read : Bool
  write : Bool
  exec : Bool
  deriving DecidableEq

namespace Stage2Permissions

def RWX : Stage2Permissions := ⟨true, true, true⟩

def withoutAccess (self : Stage2Permissions) : TrapAccessKind → Stage2Permissions
  | .read => { self with read := false }
  | .write => { self with write := false }
  | .execute => { self with exec := false }

def allows (self : Stage2Permissions) : TrapAccessKind → Bool
  | .read => self.read
  | .write => self.write
  | .execute => self.exec

end Stage2Permissions

structure Stage2Mapping where
  ownerVm : String
  addressSpace : String
  base : ℕ
  pageSize : PageSize
  memoryType : MemoryType
  permissions : Stage2Permissions
  deriving DecidableEq

namespace Stage2Mapping

def new (ownerVm addressSpace : String) (base : ℕ) (pageSize : PageSize) (memoryType : MemoryType)
    (permissions : Stage2Permissions) : Except TrapError Stage2Mapping :=
  if !pageSize.isAligned base then
    .error ⟨.misaligned,
      "stage-2 mapping base " ++ hex base ++ " is not aligned to " ++ pageSize.asStr⟩
  else if isBlank ownerVm then
    .error ⟨.malformedInput, "stage-2 mapping requires a non-empty owner VM"⟩
  else if isBlank addressSpace then
    .error ⟨.malformedInput, "stage-2 mapping requires a non-empty address space"⟩
  else .ok ⟨ownerVm, addressSpace, base, pageSize, memoryType, permissions⟩

/-- The source's `end`. -/
def stop (self : Stage2Mapping) : Except TrapError ℕ :=
  match checkedAdd self.base self.pageSize.bytes with
  | some stop => .ok stop
  | none =>
    .error ⟨.invalidAddress, "stage-2 mapping at " ++ hex self.base ++ " overflows address space"⟩

def contains (self : Stage2Mapping) (gpa : ℕ) : Bool :=
  match self.stop with
  | .ok stop => self.base ≤ gpa && gpa < stop
  | .error _ => false

end Stage2Mapping

structure MappingKey where
  ownerVm : String
  addressSpace : String
  base : ℕ
  deriving DecidableEq

namespace MappingKey

def new (mapping : Stage2Mapping) : MappingKey :=
  ⟨mapping.ownerVm, mapping.addressSpace, mapping.base⟩

/-- The fields in the order the derived `Ord` compares them. -/
def fields (self : MappingKey) : String ×ₗ String ×ₗ ℕ :=
  toLex (self.ownerVm, toLex (self.addressSpace, self.base))

theorem fields_injective : Function.Injective fields := by
  rintro ⟨a, b, c⟩ ⟨a', b', c'⟩ h
  simpa [fields] using h

instance : LinearOrder MappingKey := LinearOrder.lift' fields fields_injective

end MappingKey

structure Stage2Table where
  mappings : OrdMap MappingKey Stage2Mapping

namespace Stage2Table

def new : Stage2Table := ⟨OrdMap.empty⟩

def covers (ownerVm addressSpace : String) (gpa : ℕ) (mapping : Stage2Mapping) : Bool :=
  mapping.ownerVm == ownerVm && mapping.addressSpace == addressSpace && mapping.contains gpa

def rejectOverlap (self : Stage2Table) (candidate : Stage2Mapping) : Except TrapError Unit := do
  let candidateEnd ← candidate.stop
  self.mappings.values.forM fun existing =>
    if existing.ownerVm ≠ candidate.ownerVm ∨ existing.addressSpace ≠ candidate.addressSpace then
      pure ()
    else do
      let existingEnd ← existing.stop
      if candidate.base < existingEnd ∧ existing.base < candidateEnd then
        .error ⟨.overlap, "stage-2 mapping " ++ hex candidate.base ++ ".." ++ hex candidateEnd ++
          " overlaps existing mapping " ++ hex existing.base ++ ".." ++ hex existingEnd ++
          " for vm=" ++ candidate.ownerVm ++ " address_space=" ++ candidate.addressSpace⟩
      else pure ()

def map (self : Stage2Table) (mapping : Stage2Mapping) : Except TrapError Stage2Table := do
  self.rejectOverlap mapping
  pure ⟨self.mappings.insert (MappingKey.new mapping) mapping⟩

def lookup (self : Stage2Table) (ownerVm addressSpace : String) (gpa : ℕ) : Option Stage2Mapping :=
  self.mappings.values.find? (covers ownerVm addressSpace gpa)

def missingMapping (ownerVm addressSpace : String) (gpa : ℕ) : TrapError :=
  ⟨.notMapped, "no stage-2 mapping covers " ++ hex gpa ++ " for vm=" ++ ownerVm ++
    " address_space=" ++ addressSpace⟩

/-- The entry `lookup_mut` returns a reference to. -/
def slot (self : Stage2Table) (ownerVm addressSpace : String) (gpa : ℕ) : Option MappingKey :=
  self.mappings.findKey (covers ownerVm addressSpace gpa)

def writeAt (self : Stage2Table) (key : MappingKey) (permissions : Stage2Permissions) :
    Stage2Table :=
  ⟨self.mappings.modify key fun mapping => { mapping with permissions }⟩

/-- The previous permissions, with the table after the write. -/
def setPermissions (self : Stage2Table) (ownerVm addressSpace : String) (gpa : ℕ)
    (permissions : Stage2Permissions) : Except TrapError (Stage2Permissions × Stage2Table) :=
  match self.slot ownerVm addressSpace gpa, self.lookup ownerVm addressSpace gpa with
  | some key, some mapping => .ok (mapping.permissions, self.writeAt key permissions)
  | _, _ => .error (missingMapping ownerVm addressSpace gpa)

/-- One turn of the loop of `split`. -/
def addChild (parent : Stage2Mapping) (base : ℕ) (target : PageSize)
    (children : List Stage2Mapping) (index : ℕ) :
    Op Stage2Table TrapError (List Stage2Mapping) := do
  let child ← Op.lift (Stage2Mapping.new parent.ownerVm parent.addressSpace
    (base + index * target.bytes) target parent.memoryType parent.permissions)
  let self ← Op.read
  Op.write ⟨self.mappings.insert (MappingKey.new child) child⟩
  pure (children ++ [child])

def split (ownerVm addressSpace : String) (base : ℕ) (target : PageSize) :
    Op Stage2Table TrapError (List Stage2Mapping) := do
  let key := ⟨ownerVm, addressSpace, base⟩
  let self ← Op.read
  let parent ← Op.lift (okOr (self.mappings.get key) (missingMapping ownerVm addressSpace base))
  Op.write ⟨self.mappings.remove key⟩
  let count ← Op.lift (parent.pageSize.splitCount target)
  (List.range count).foldlM (addChild parent base target) []

end Stage2Table
end AegisHV
