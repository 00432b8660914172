import AegisHV.Spec.Allocator
import AegisHV.Spec.Limine

/-! The runtime memory of the type-1 kernel (`early_memory.rs` of `aegishv-type1-kernel`):
physical reservations, the pages of the chosen backend, and the pages of the toy guest. -/

namespace AegisHV
open Sys PhysicalPageAllocator

def TYPE1_RUNTIME_MIN_PHYSICAL : ℕ := 0x100000

def TYPE1_RUNTIME_MAX_PHYSICAL_EXCLUSIVE : ℕ := 0x100000000

def TYPE1_MAX_MEMORY_MAP_ENTRIES : ℕ := 256

def TYPE1_MAX_PHYSICAL_RESERVATIONS : ℕ := 8

def TYPE1_EARLY_ALLOCATOR_RUNS : ℕ := TYPE1_MAX_MEMORY_MAP_ENTRIES * 2

def TYPE1_EARLY_ALLOCATOR_ALLOCATIONS : ℕ := 64

def TYPE1_TOY_GUEST_PAGE_COUNT : ℕ := 13

def X86_64_MAX_PHYSICAL_ADDRESS_EXCLUSIVE : ℕ := 1 <<< 52

inductive Type1EarlyMemoryError
  | limine (error : LimineMemoryMapError)
  | core (kind : CoreErrorKind)
  | rollbackFailed (kind : CoreErrorKind)
  | backendMismatch
  | toyGuestAlreadyAllocated
  deriving DecidableEq

def coreFailed (error : CoreError) : Type1EarlyMemoryError := .core error.kind

/-- The fields are private and `new` is the only constructor. -/
structure Type1PhysicalReservation where
  base : ℕ
  length : ℕ
  nonempty : length ≠ 0
  fits : checkedAdd base length ≠ none

def Type1PhysicalReservation.new (base length : ℕ) :
    Except Type1EarlyMemoryError Type1PhysicalReservation :=
  if h : length = 0 ∨ checkedAdd base length = none then .error (.core .invalidAddress)
  else .ok ⟨base, length, fun h0 => h (.inl h0), fun h1 => h (.inr h1)⟩

/-- `vmx/features.rs` of `aegishv-arch-x86`. -/
def isCanonicalU64 : ℕ → Bool := isSignExtended48

def linkedKernelReservation (executablePhysicalBase executableVirtualBase linkedVirtualStart
    linkedVirtualEnd : ℕ) : Except Type1EarlyMemoryError Type1PhysicalReservation := do
  failIf (linkedVirtualStart != executableVirtualBase ||
    executablePhysicalBase % PAGE_SIZE_4K != 0 || linkedVirtualStart % PAGE_SIZE_4K != 0 ||
    linkedVirtualEnd % PAGE_SIZE_4K != 0 || !isCanonicalU64 linkedVirtualStart)
    (.core .invalidAddress)
  let length ← okOr (checkedSub linkedVirtualEnd linkedVirtualStart) (.core .invalidAddress)
  failIf (length == 0) (.core .invalidAddress)
  failIf (!isCanonicalU64 (linkedVirtualEnd - 1)) (.core .invalidAddress)
  let stop ← okOr (checkedAdd executablePhysicalBase length) (.core .invalidAddress)
  failIf (X86_64_MAX_PHYSICAL_ADDRESS_EXCLUSIVE < stop) (.core .invalidAddress)
  Type1PhysicalReservation.new executablePhysicalBase length

def inheritedX86Cr3RootReservation (rawCr3 : ℕ) :
    Except Type1EarlyMemoryError Type1PhysicalReservation := do
  let root := rawCr3 &&& complement (PAGE_SIZE_4K - 1)
  failIf (root == 0 || X86_64_MAX_PHYSICAL_ADDRESS_EXCLUSIVE ≤ root) (.core .invalidAddress)
  Type1PhysicalReservation.new root PAGE_SIZE_4K

structure Type1ToyGuestHostPages where
  code : HostPhysical
  stack : HostPhysical
  guestPml4 : HostPhysical
  guestPdpt : HostPhysical
  guestPd : HostPhysical
  guestPt : HostPhysical
  eptPml4 : HostPhysical
  eptPdpt : HostPhysical
  eptPd : HostPhysical
  eptPt : HostPhysical
  ioBitmapA : HostPhysical
  ioBitmapB : HostPhysical
  msrBitmap : HostPhysical
  deriving DecidableEq

def Type1ToyGuestHostPages.all (self : Type1ToyGuestHostPages) : List HostPhysical :=
  [self.code, self.stack, self.guestPml4, self.guestPdpt, self.guestPd, self.guestPt, self.eptPml4,
    self.eptPdpt, self.eptPd, self.eptPt, self.ioBitmapA, self.ioBitmapB, self.msrBitmap]

/-- The pages are an array filled with `ZERO` before the loop. -/
def Type1ToyGuestHostPages.ofPages (pages : List HostPhysical) : Type1ToyGuestHostPages :=
  let page (index : ℕ) : HostPhysical := pages.getD index HostPhysical.zero
  { code := page 0, stack := page 1, guestPml4 := page 2, guestPdpt := page 3, guestPd := page 4
    guestPt := page 5, eptPml4 := page 6, eptPdpt := page 7, eptPd := page 8, eptPt := page 9
    ioBitmapA := page 10, ioBitmapB := page 11, msrBitmap := page 12 }

structure Type1RuntimeMemoryPlan where
  runtimeBase : ℕ
  vmxonPhysical : ℕ
  vmcsPhysical : ℕ
  svmVmcbPhysical : ℕ

inductive Type1RuntimeBackend
  | none | intelVmx | amdSvm

abbrev EarlyAllocator : Type :=
  PhysicalPageAllocator TYPE1_EARLY_ALLOCATOR_RUNS TYPE1_EARLY_ALLOCATOR_ALLOCATIONS

structure Type1RuntimeMemoryAllocation where
  plan : Type1RuntimeMemoryPlan
  allocator : EarlyAllocator
  toyGuest : Option Type1ToyGuestHostPages
  excludedUsablePages : ℕ
  reservations : List Type1PhysicalReservation

def runtimePageConstraint : Except Type1EarlyMemoryError PageAllocationConstraint :=
  (PageAllocationConstraint.new TYPE1_RUNTIME_MIN_PHYSICAL
    TYPE1_RUNTIME_MAX_PHYSICAL_EXCLUSIVE).mapError coreFailed

/-- The body of the inner loop of `allocate_intel_toy_guest`, which keeps the first error. -/
def giveBack (acc : Option CoreErrorKind × EarlyAllocator) (page : HostPhysical) :
    Option CoreErrorKind × EarlyAllocator :=
  match (freePage page).run acc.2 with
  | (.ok (), allocator) => (acc.1, allocator)
  | (.error e, allocator) => (acc.1.or (some e.kind), allocator)

/-- The inner loop, which gives the pages back, the last one first. -/
def rollback (pages : List HostPhysical) (allocator : EarlyAllocator) :
    Option CoreErrorKind × EarlyAllocator :=
  pages.reverse.foldl giveBack (none, allocator)

/-- The loop of `allocate_intel_toy_guest`, with the number of pages still to come. -/
def allocatePages (constraint : PageAllocationConstraint) :
    ℕ → List HostPhysical → Op EarlyAllocator Type1EarlyMemoryError (List HostPhysical)
  | 0, pages => pure pages
  | remaining + 1, pages => ⟨fun allocator =>
    match (allocateWithin constraint).run allocator with
    | (.ok page, allocator) =>
      (allocatePages constraint remaining (pages ++ [page])).run allocator
    | (.error error, allocator) =>
      match rollback pages allocator with
      | (some kind, allocator) => (.error (.rollbackFailed kind), allocator)
      | (none, allocator) => (.error (.core error.kind), allocator)⟩

namespace Type1RuntimeMemoryAllocation

def allocateIntelToyGuest :
    Op Type1RuntimeMemoryAllocation Type1EarlyMemoryError Type1ToyGuestHostPages := do
  let self ← Op.read
  if self.plan.vmxonPhysical = 0 ∨ self.plan.vmcsPhysical = 0 then Op.fail .backendMismatch
  else if self.toyGuest.isSome then Op.fail .toyGuestAlreadyAllocated
  else
    let constraint ← Op.lift runtimePageConstraint
    let (result, allocator) := (allocatePages constraint TYPE1_TOY_GUEST_PAGE_COUNT []).run self.allocator
    Op.write { self with allocator }
    let pages ← Op.lift result
    let toyGuest := Type1ToyGuestHostPages.ofPages pages
    Op.write { self with allocator, toyGuest := some toyGuest }
    pure toyGuest

/-- One call of `allocate_intel_toy_guest` as its caller sees it. -/
def step (self : Type1RuntimeMemoryAllocation) (_ : Unit) :
    Except Type1EarlyMemoryError Type1ToyGuestHostPages × Type1RuntimeMemoryAllocation :=
  allocateIntelToyGuest.run self

end Type1RuntimeMemoryAllocation

/-- The body of the loop over the reservations. -/
def applyReservation (acc : EarlyAllocator × ℕ) (reservation : Type1PhysicalReservation) :
    Except Type1EarlyMemoryError (EarlyAllocator × ℕ) := do
  let (removed, allocator) ←
    ((reserveRange reservation.base reservation.length).exec acc.1).mapError coreFailed
  let excluded ← okOr (checkedAdd acc.2 removed) (.core .capacityExceeded)
  pure (allocator, excluded)

/-- The `match` on the backend. -/
def planMemory (constraint : PageAllocationConstraint) (allocator : EarlyAllocator) :
    Type1RuntimeBackend → Except Type1EarlyMemoryError (Type1RuntimeMemoryPlan × EarlyAllocator)
  | .none => pure (⟨0, 0, 0, 0⟩, allocator)
  | .intelVmx => do
    let (vmxon, allocator) ← ((allocateWithin constraint).exec allocator).mapError coreFailed
    match (allocateWithin constraint).run allocator with
    | (.ok vmcs, allocator) => pure (⟨vmxon.raw, vmxon.raw, vmcs.raw, 0⟩, allocator)
    | (.error err, allocator) =>
      match (freePage vmxon).run allocator with
      | (.error rollback, _) => .error (.rollbackFailed rollback.kind)
      | (.ok (), _) => .error (.core err.kind)
  | .amdSvm => do
    let (vmcb, allocator) ← ((allocateWithin constraint).exec allocator).mapError coreFailed
    pure (⟨vmcb.raw, 0, 0, vmcb.raw⟩, allocator)

def allocateType1RuntimeMemoryWithReservations (N : ℕ) (entries : List LimineMemmapEntry)
    (backend : Type1RuntimeBackend) (reservations : List Type1PhysicalReservation) :
    Except Type1EarlyMemoryError Type1RuntimeMemoryAllocation := do
  failIf (TYPE1_MAX_PHYSICAL_RESERVATIONS < reservations.length) (.core .capacityExceeded)
  let usable : LimineUsableMemory N ← (LimineUsableMemory.fromEntries entries).mapError .limine
  let normalized : List MemoryRegion := usable.regions.map fun region =>
    ⟨region.base, region.length, .usable⟩
  let map : MemoryMap N ← (MemoryMap.fromEntries normalized).mapError coreFailed
  let allocator ← (fromMemoryMap map).mapError coreFailed
  let (allocator, excludedUsablePages) ← reservations.foldlM applyReservation (allocator, 0)
  let constraint ← runtimePageConstraint
  let (plan, allocator) ← planMemory constraint allocator backend
  pure { plan, allocator, toyGuest := none, excludedUsablePages, reservations }

end AegisHV
