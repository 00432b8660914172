import AegisHV.Lib.Op
import AegisHV.Spec.Memory

/-! Splitting and merging mappings of huge pages (`hugepage.rs` of `aegishv-hypervisor-core`). -/

namespace AegisHV
open Sys

inductive TranslationPageSize
  | size4K
  | size2M
  | size1G
  deriving DecidableEq

namespace TranslationPageSize

def bytes : TranslationPageSize → ℕ
  | .size4K => 4096
  | .size2M => 2 * 1024 * 1024
  | .size1G => 1024 * 1024 * 1024

def parent : TranslationPageSize → Option TranslationPageSize
  | .size4K => some .size2M
  | .size2M => some .size1G
  | .size1G => none

def child : TranslationPageSize → Option TranslationPageSize
  | .size1G => some .size2M
  | .size2M => some .size4K
  | .size4K => none

end TranslationPageSize

structure TranslationPermissions where
  read : Bool
  write : Bool
  execute : Bool
  deriving DecidableEq

def TranslationPermissions.isWx (self : TranslationPermissions) : Bool := self.write && self.execute

structure TranslationMapping where
  guestPhysical : GuestPhysical
  hostPhysical : HostPhysical
  pageSize : TranslationPageSize
  permissions : TranslationPermissions

namespace TranslationMapping

def new (guestPhysical : GuestPhysical) (hostPhysical : HostPhysical)
    (pageSize : TranslationPageSize) (permissions : TranslationPermissions) :
    Except CoreError TranslationMapping := do
  let bytes := pageSize.bytes
  failIf (guestPhysical.raw % bytes != 0 || hostPhysical.raw % bytes != 0)
    ⟨.invalidAddress, "translation mapping must be aligned to the selected page size"⟩
  failIf permissions.isWx
    ⟨.permissionViolation, "translation mapping must not be writable and executable"⟩
  pure ⟨guestPhysical, hostPhysical, pageSize, permissions⟩

def endGpa (self : TranslationMapping) : Except CoreError ℕ :=
  okOr (checkedAdd self.guestPhysical.raw self.pageSize.bytes)
    ⟨.invalidAddress, "translation mapping guest end address overflowed"⟩

def endHpa (self : TranslationMapping) : Except CoreError ℕ :=
  okOr (checkedAdd self.hostPhysical.raw self.pageSize.bytes)
    ⟨.invalidAddress, "translation mapping host end address overflowed"⟩

end TranslationMapping

inductive HugePage.InvalidationScope
  | page
  | range
  | addressSpace

structure SplitPlan where
  source : TranslationMapping
  childSize : TranslationPageSize
  childCount : ℕ
  invalidation : HugePage.InvalidationScope

def planSplit (mapping : TranslationMapping) : Except CoreError SplitPlan := do
  let child ← okOr mapping.pageSize.child ⟨.unsupported, "4K mapping cannot be split further"⟩
  pure ⟨mapping, child, mapping.pageSize.bytes / child.bytes, .range⟩

/-- The body of the loop of `plan_merge`, with the addresses that are expected next. -/
def mergeChild (first : TranslationMapping) (expected : ℕ × ℕ) (mapping : TranslationMapping) :
    Except CoreError (ℕ × ℕ) := do
  failIf (mapping.pageSize != first.pageSize || mapping.permissions != first.permissions)
    ⟨.permissionViolation, "huge page merge requires identical child permissions and sizes"⟩
  failIf (mapping.guestPhysical.raw != expected.1 || mapping.hostPhysical.raw != expected.2)
    ⟨.invalidAddress, "huge page merge children must be physically contiguous"⟩
  let expectedGpa ← mapping.endGpa
  let expectedHpa ← mapping.endHpa
  pure (expectedGpa, expectedHpa)

def planMerge (mappings : List TranslationMapping) : Except CoreError TranslationMapping := do
  let first ← okOr mappings.head?
    ⟨.invalidArgument, "huge page merge requires at least one child mapping"⟩
  let parentSize ← okOr first.pageSize.parent
    ⟨.unsupported, "1G mapping cannot be merged into a larger mapping"⟩
  let expectedCount := parentSize.bytes / first.pageSize.bytes
  failIf (mappings.length != expectedCount)
    ⟨.invalidArgument, "huge page merge requires a complete aligned child run"⟩
  failIf (first.guestPhysical.raw % parentSize.bytes != 0 ||
      first.hostPhysical.raw % parentSize.bytes != 0)
    ⟨.invalidAddress, "huge page merge base is not aligned to the parent size"⟩
  let _ ← mappings.foldlM (mergeChild first) (first.guestPhysical.raw, first.hostPhysical.raw)
  TranslationMapping.new first.guestPhysical first.hostPhysical parentSize first.permissions

end AegisHV
