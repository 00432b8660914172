import AegisHV.Lib.Op
import AegisHV.Lib.Word

/-! Four-level page tables of the kernel window (`host_paging.rs` of
`aegishv-type1-kernel`). A table is a function from its 512 slots, and the arrays of
four tables and of four locations are functions from the level. -/

namespace AegisHV.HostPaging
open Sys

def HOST_PAGE_SIZE_4K : ℕ := 4096

def HOST_KERNEL_WINDOW_SIZE : ℕ := 2 * 1024 * 1024

def HOST_PTE_PRESENT : ℕ := 1 <<< 0

def HOST_PTE_WRITABLE : ℕ := 1 <<< 1

def HOST_PTE_USER : ℕ := 1 <<< 2

def HOST_PTE_ACCESSED : ℕ := 1 <<< 5

def HOST_PTE_DIRTY : ℕ := 1 <<< 6

def HOST_PTE_LARGE : ℕ := 1 <<< 7

def HOST_PTE_NO_EXECUTE : ℕ := 1 <<< 63

def HOST_PTE_ADDRESS_MASK : ℕ := 0x000ffffffffff000

def HOST_TABLE_FLAGS : ℕ := HOST_PTE_PRESENT ||| HOST_PTE_WRITABLE

def HOST_TABLE_ALLOWED_BITS : ℕ := HOST_PTE_ADDRESS_MASK ||| HOST_TABLE_FLAGS ||| HOST_PTE_ACCESSED

def HOST_LEAF_ALLOWED_BITS : ℕ :=
  HOST_PTE_ADDRESS_MASK ||| HOST_PTE_PRESENT ||| HOST_PTE_WRITABLE ||| HOST_PTE_ACCESSED |||
    HOST_PTE_DIRTY ||| HOST_PTE_NO_EXECUTE

inductive HostPagingError
  | nxNotEnabled
  | fiveLevelPagingActive
  | invalidPhysicalAddressWidth
  | addressOverflow
  | nonCanonicalAddress
  | kernelWindowUnaligned
  | kernelWindowNotHigherHalf
  | tableAddressZero
  | tableAddressUnaligned
  | tableAddressOutOfRange
  | duplicateTablePhysicalAddress
  | duplicateTableVirtualAddress
  | tableVirtualAddressOutsideWindow
  | emptyMapping
  | mappingUnaligned
  | mappingOutsideWindow
  | mappingPhysicalAddressOutOfRange
  | writableExecutableMapping
  | virtualPageAlreadyMapped
  | physicalPageAliased
  | tablePhysicalAddressMappedAtWrongVirtualAddress
  | tableVirtualAddressMappedToWrongPhysicalAddress
  | tablePagePermissionsInvalid
  | tablePageMissingFromKernelMapping
  | guardAddressUnaligned
  | guardOverlapsMapping
  | noMappedPages
  | materializedTableMismatch
  | corruptHierarchy
  | corruptLeaf

def isPageAligned (address : ℕ) : Bool := address &&& (HOST_PAGE_SIZE_4K - 1) == 0

def isCanonical48 : ℕ → Bool := isSignExtended48

def validateKernelWindow (kernelVirtualBase : ℕ) : Except HostPagingError ℕ := do
  failIf (kernelVirtualBase &&& (HOST_KERNEL_WINDOW_SIZE - 1) != 0) .kernelWindowUnaligned
  failIf (!isCanonical48 kernelVirtualBase) .nonCanonicalAddress
  failIf (kernelVirtualBase &&& (1 <<< 47) == 0) .kernelWindowNotHigherHalf
  let stop ← okOr (checkedAdd kernelVirtualBase HOST_KERNEL_WINDOW_SIZE) .addressOverflow
  failIf (!isCanonical48 (stop - 1)) .nonCanonicalAddress
  pure stop

/-- The nine bits of an address that select a slot, from bit `shift` up. -/
def slotAt (shift address : ℕ) : Fin 512 :=
  ⟨(address >>> shift) &&& 0x1ff, Nat.lt_succ_of_le Nat.and_le_right⟩

def pml4Index : ℕ → Fin 512 := slotAt 39

def pdptIndex : ℕ → Fin 512 := slotAt 30

def pdIndex : ℕ → Fin 512 := slotAt 21

def ptIndex : ℕ → Fin 512 := slotAt 12

structure HostPagingCapabilities where
  nxEnabled : Bool
  la57Active : Bool
  physicalAddressBits : ℕ

namespace HostPagingCapabilities

def physicalLimit (self : HostPagingCapabilities) : Except HostPagingError ℕ := do
  failIf (!(12 ≤ self.physicalAddressBits && self.physicalAddressBits ≤ 52))
    .invalidPhysicalAddressWidth
  pure (1 <<< self.physicalAddressBits)

def validate (self : HostPagingCapabilities) : Except HostPagingError ℕ := do
  failIf (!self.nxEnabled) .nxNotEnabled
  failIf self.la57Active .fiveLevelPagingActive
  self.physicalLimit

end HostPagingCapabilities

structure HostPagePermissions where
  writable : Bool
  executable : Bool
  deriving DecidableEq

namespace HostPagePermissions

def READ_WRITE : HostPagePermissions := ⟨true, false⟩

def READ_EXECUTE : HostPagePermissions := ⟨false, true⟩

def isWritableExecutable (self : HostPagePermissions) : Bool := self.writable && self.executable

def leafFlags (self : HostPagePermissions) : ℕ :=
  let writable := if self.writable then HOST_PTE_WRITABLE else 0
  let noExecute := if self.executable then 0 else HOST_PTE_NO_EXECUTE
  HOST_PTE_PRESENT ||| writable ||| noExecute

def fromLeafEntry (entry : ℕ) : HostPagePermissions where
  writable := entry &&& HOST_PTE_WRITABLE != 0
  executable := entry &&& HOST_PTE_NO_EXECUTE == 0

end HostPagePermissions

structure HostPageMapping where
  virtualAddress : ℕ
  physicalAddress : ℕ
  length : ℕ
  permissions : HostPagePermissions

structure HostUnmappedPage where
  virtualAddress : ℕ

structure HostPageTableLocation where
  physicalAddress : ℕ
  virtualAddress : ℕ

inductive HostPageTableLevel
  | pml4
  | pdpt
  | pd
  | pt
  deriving DecidableEq

/-- The levels in the order of their array indices. -/
def HostPageTableLevel.all : List HostPageTableLevel := [.pml4, .pdpt, .pd, .pt]

structure HostPageTableLayout where
  location : HostPageTableLevel → HostPageTableLocation

namespace HostPageTableLayout

def contiguous (physicalBase virtualBase : ℕ) : Except HostPagingError HostPageTableLayout := do
  let place (index : ℕ) : Except HostPagingError HostPageTableLocation := do
    let offset ← okOr (checkedMul index HOST_PAGE_SIZE_4K) .addressOverflow
    let physical ← okOr (checkedAdd physicalBase offset) .addressOverflow
    let virtual ← okOr (checkedAdd virtualBase offset) .addressOverflow
    pure ⟨physical, virtual⟩
  let pml4 ← place 0
  let pdpt ← place 1
  let pd ← place 2
  let pt ← place 3
  pure ⟨fun
    | .pml4 => pml4
    | .pdpt => pdpt
    | .pd => pd
    | .pt => pt⟩

def locations (self : HostPageTableLayout) : List HostPageTableLocation :=
  HostPageTableLevel.all.map self.location

def tableIndexByPhysical (self : HostPageTableLayout) (physicalAddress : ℕ) :
    Option HostPageTableLevel :=
  HostPageTableLevel.all.find? fun level =>
    (self.location level).physicalAddress == physicalAddress

def tableIndexByVirtual (self : HostPageTableLayout) (virtualAddress : ℕ) :
    Option HostPageTableLevel :=
  HostPageTableLevel.all.find? fun level =>
    (self.location level).virtualAddress == virtualAddress

/-- The body of the loop of `validate`, with the locations before this one. -/
def validateLocation (kernelVirtualBase kernelVirtualEnd physicalLimit : ℕ)
    (previous : List HostPageTableLocation) (location : HostPageTableLocation) :
    Except HostPagingError Unit := do
  failIf (location.physicalAddress == 0) .tableAddressZero
  failIf (!isPageAligned location.physicalAddress || !isPageAligned location.virtualAddress)
    .tableAddressUnaligned
  failIf (!isCanonical48 location.virtualAddress) .nonCanonicalAddress
  let physicalEnd ← okOr (checkedAdd location.physicalAddress HOST_PAGE_SIZE_4K) .addressOverflow
  failIf (physicalLimit < physicalEnd) .tableAddressOutOfRange
  failIf (location.virtualAddress < kernelVirtualBase || kernelVirtualEnd ≤ location.virtualAddress)
    .tableVirtualAddressOutsideWindow
  previous.forM fun earlier => do
    failIf (earlier.physicalAddress == location.physicalAddress) .duplicateTablePhysicalAddress
    failIf (earlier.virtualAddress == location.virtualAddress) .duplicateTableVirtualAddress

def validate (self : HostPageTableLayout) (kernelVirtualBase kernelVirtualEnd physicalLimit : ℕ) :
    Except HostPagingError Unit := do
  let _ ← self.locations.foldlM (fun previous location => do
    validateLocation kernelVirtualBase kernelVirtualEnd physicalLimit previous location
    pure (previous ++ [location])) []
  pure ()

end HostPageTableLayout

structure HostPageTable where
  entries : Fin 512 → ℕ

namespace HostPageTable

def zeroed : HostPageTable := ⟨fun _ => 0⟩

/-- `entries[index] = entry` -/
def set (self : HostPageTable) (index : Fin 512) (entry : ℕ) : HostPageTable :=
  ⟨Function.update self.entries index entry⟩

end HostPageTable

abbrev HostPageTables : Type := HostPageTableLevel → HostPageTable

structure HostPageWalk where
  virtualAddress : ℕ
  physicalAddress : ℕ
  physicalPage : ℕ
  pageOffset : ℕ
  permissions : HostPagePermissions

structure HostPageTableImage where
  layout : HostPageTableLayout
  kernelVirtualBase : ℕ
  physicalLimit : ℕ
  mappedPageCount : ℕ
  guardBitmap : Fin 8 → ℕ
  tables : HostPageTables

namespace HostPageTableImage

/-- `self.tables[level].entries[index] = entry` -/
def setEntry (self : HostPageTableImage) (level : HostPageTableLevel) (index : Fin 512)
    (entry : ℕ) : HostPageTableImage :=
  { self with tables := Function.update self.tables level ((self.tables level).set index entry) }

/-- The word of the bitmap that holds a slot's bit. -/
def guardWord (leafIndex : Fin 512) : Fin 8 := ⟨leafIndex / 64, by omega⟩

def guardIsSet (self : HostPageTableImage) (leafIndex : Fin 512) : Bool :=
  self.guardBitmap (guardWord leafIndex) &&& (1 <<< (leafIndex.val % 64)) != 0

def isInsideKernelWindow (self : HostPageTableImage) (virtualAddress : ℕ) : Bool :=
  self.kernelVirtualBase ≤ virtualAddress &&
    virtualAddress - self.kernelVirtualBase < HOST_KERNEL_WINDOW_SIZE

def physicalPageIsMapped (self : HostPageTableImage) (physicalAddress : ℕ) : Bool :=
  (List.finRange 512).any fun index =>
    let entry := (self.tables .pt).entries index
    entry != 0 && entry &&& HOST_PTE_ADDRESS_MASK == physicalAddress

def validateTableEntry (self : HostPageTableImage) (entry expectedPhysicalAddress : ℕ) :
    Except HostPagingError Unit :=
  failIf (entry &&& complement HOST_TABLE_ALLOWED_BITS != 0 ||
    entry &&& HOST_TABLE_FLAGS != HOST_TABLE_FLAGS ||
    entry &&& HOST_PTE_ADDRESS_MASK != expectedPhysicalAddress ||
    self.physicalLimit ≤ expectedPhysicalAddress) .corruptHierarchy

def validateLeafEntry (self : HostPageTableImage) (entry : ℕ) : Except HostPagingError Unit :=
  failIf (entry &&& complement HOST_LEAF_ALLOWED_BITS != 0 ||
    entry &&& HOST_PTE_PRESENT == 0 ||
    entry &&& HOST_PTE_USER != 0 ||
    entry &&& HOST_PTE_LARGE != 0 ||
    self.physicalLimit ≤ entry &&& HOST_PTE_ADDRESS_MASK ||
    (entry &&& HOST_PTE_WRITABLE != 0 && entry &&& HOST_PTE_NO_EXECUTE == 0)) .corruptLeaf

/-- One level of the descent of `walk_tables`: whether the slot is in use. -/
def descend (self : HostPageTableImage) (tables : HostPageTables) (level next : HostPageTableLevel)
    (index : Fin 512) : Except HostPagingError Bool := do
  let entry := (tables level).entries index
  if entry = 0 then pure false
  else
    self.validateTableEntry entry (self.layout.location next).physicalAddress
    pure true

/-- The last level of `walk_tables`. -/
def walkLeaf (self : HostPageTableImage) (leaf virtualAddress : ℕ) :
    Except HostPagingError (Option HostPageWalk) := do
  if leaf = 0 then pure none
  else
    self.validateLeafEntry leaf
    let physicalPage := leaf &&& HOST_PTE_ADDRESS_MASK
    let pageOffset := virtualAddress &&& (HOST_PAGE_SIZE_4K - 1)
    let physicalAddress ← okOr (checkedAdd physicalPage pageOffset) .corruptLeaf
    pure (some { virtualAddress, physicalAddress, physicalPage, pageOffset
                 permissions := HostPagePermissions.fromLeafEntry leaf })

def walkTables (self : HostPageTableImage) (tables : HostPageTables) (virtualAddress : ℕ) :
    Except HostPagingError (Option HostPageWalk) := do
  failIf (!isCanonical48 virtualAddress) .nonCanonicalAddress
  let inPml4 ← self.descend tables .pml4 .pdpt (pml4Index virtualAddress)
  if !inPml4 then pure none
  else
    let inPdpt ← self.descend tables .pdpt .pd (pdptIndex virtualAddress)
    if !inPdpt then pure none
    else
      let inPd ← self.descend tables .pd .pt (pdIndex virtualAddress)
      if !inPd then pure none
      else self.walkLeaf ((tables .pt).entries (ptIndex virtualAddress)) virtualAddress

def walk (self : HostPageTableImage) (virtualAddress : ℕ) :
    Except HostPagingError (Option HostPageWalk) :=
  self.walkTables self.tables virtualAddress

def validateSingleHierarchyEntry (self : HostPageTableImage) (tables : HostPageTables)
    (level : HostPageTableLevel) (populatedIndex : Fin 512) (target : HostPageTableLocation) :
    Except HostPagingError Unit :=
  (List.finRange 512).forM fun index =>
    let entry := (tables level).entries index
    if index = populatedIndex then self.validateTableEntry entry target.physicalAddress
    else failIf (entry != 0) .corruptHierarchy

/-- The body of the loop of `validate_tables` over the leaves. -/
def countLeaf (self : HostPageTableImage) (tables : HostPageTables) (mappedCount : ℕ)
    (index : Fin 512) : Except HostPagingError ℕ := do
  let entry := (tables .pt).entries index
  if entry = 0 then pure mappedCount
  else
    self.validateLeafEntry entry
    failIf (self.guardIsSet index) .guardOverlapsMapping
    let physicalPage := entry &&& HOST_PTE_ADDRESS_MASK
    failIf ((List.finRange 512).any fun previous =>
      let previousEntry := (tables .pt).entries previous
      previous < index && previousEntry != 0 &&
        previousEntry &&& HOST_PTE_ADDRESS_MASK == physicalPage) .physicalPageAliased
    pure (mappedCount + 1)

/-- The body of the loop of `validate_tables` over the table pages. -/
def checkTablePage (self : HostPageTableImage) (tables : HostPageTables)
    (location : HostPageTableLocation) : Except HostPagingError Unit := do
  let found ← self.walkTables tables location.virtualAddress
  let walk ← okOr found .tablePageMissingFromKernelMapping
  failIf (walk.physicalPage != location.physicalAddress)
    .tableVirtualAddressMappedToWrongPhysicalAddress
  failIf (walk.permissions != HostPagePermissions.READ_WRITE) .tablePagePermissionsInvalid

def validateTables (self : HostPageTableImage) (tables : HostPageTables) :
    Except HostPagingError Unit := do
  let kernelVirtualEnd ← validateKernelWindow self.kernelVirtualBase
  self.layout.validate self.kernelVirtualBase kernelVirtualEnd self.physicalLimit
  self.validateSingleHierarchyEntry tables .pml4 (pml4Index self.kernelVirtualBase)
    (self.layout.location .pdpt)
  self.validateSingleHierarchyEntry tables .pdpt (pdptIndex self.kernelVirtualBase)
    (self.layout.location .pd)
  self.validateSingleHierarchyEntry tables .pd (pdIndex self.kernelVirtualBase)
    (self.layout.location .pt)
  let mappedCount ← (List.finRange 512).foldlM (self.countLeaf tables) 0
  failIf (mappedCount == 0) .noMappedPages
  failIf (mappedCount != self.mappedPageCount) .corruptLeaf
  self.layout.locations.forM (self.checkTablePage tables)

def validate (self : HostPageTableImage) : Except HostPagingError Unit :=
  self.validateTables self.tables

/-- The bits of a level's entries that the processor sets. -/
def mutableBits (level : HostPageTableLevel) : ℕ :=
  if level = .pt then HOST_PTE_ACCESSED ||| HOST_PTE_DIRTY else HOST_PTE_ACCESSED

def validateMaterializedTables (self : HostPageTableImage) (tables : HostPageTables) :
    Except HostPagingError Unit := do
  HostPageTableLevel.all.forM fun level =>
    (List.finRange 512).forM fun index =>
      let planned := (self.tables level).entries index
      let materialized := (tables level).entries index
      failIf ((planned == 0 && materialized != 0) ||
        planned &&& complement (mutableBits level) !=
          materialized &&& complement (mutableBits level)) .materializedTableMismatch
  self.validateTables tables

def walkMaterialized (self : HostPageTableImage) (tables : HostPageTables) (virtualAddress : ℕ) :
    Except HostPagingError (Option HostPageWalk) := do
  self.validateMaterializedTables tables
  self.walkTables tables virtualAddress

def installHierarchy (self : HostPageTableImage) : HostPageTableImage :=
  let virtualAddress := self.kernelVirtualBase
  let entryFor (level : HostPageTableLevel) : ℕ :=
    (self.layout.location level).physicalAddress ||| HOST_TABLE_FLAGS
  ((self.setEntry .pml4 (pml4Index virtualAddress) (entryFor .pdpt)).setEntry
    .pdpt (pdptIndex virtualAddress) (entryFor .pd)).setEntry
    .pd (pdIndex virtualAddress) (entryFor .pt)

def recordGuard (self : HostPageTableImage) (guard : HostUnmappedPage) :
    Except HostPagingError HostPageTableImage := do
  failIf (!isCanonical48 guard.virtualAddress) .nonCanonicalAddress
  failIf (!isPageAligned guard.virtualAddress) .guardAddressUnaligned
  if self.isInsideKernelWindow guard.virtualAddress then
    let index := ptIndex guard.virtualAddress
    let word := guardWord index
    let bits := self.guardBitmap word ||| 1 <<< (index.val % 64)
    pure { self with guardBitmap := Function.update self.guardBitmap word bits }
  else pure self

/-- The image under construction with the `mapped_tables` flags of `build`. -/
structure Building where
  image : HostPageTableImage
  mappedTables : HostPageTableLevel → Bool

/-- The `match` of `install_mapping` on the two table indices. -/
def markTablePage (layout : HostPageTableLayout) (mappedTables : HostPageTableLevel → Bool)
    (virtualAddress physicalAddress : ℕ) (permissions : HostPagePermissions) :
    Except HostPagingError (HostPageTableLevel → Bool) :=
  match layout.tableIndexByPhysical physicalAddress, layout.tableIndexByVirtual virtualAddress with
  | some physicalIndex, some virtualIndex =>
    if physicalIndex = virtualIndex then do
      failIf (permissions != HostPagePermissions.READ_WRITE) .tablePagePermissionsInvalid
      pure (Function.update mappedTables physicalIndex true)
    else .error .tablePhysicalAddressMappedAtWrongVirtualAddress
  | some _, none => .error .tablePhysicalAddressMappedAtWrongVirtualAddress
  | none, some _ => .error .tableVirtualAddressMappedToWrongPhysicalAddress
  | none, none => pure mappedTables

/-- The body of the loop of `install_mapping`. -/
def installPage (mapping : HostPageMapping) (s : Building) (page : ℕ) :
    Except HostPagingError Building := do
  let offset := page * HOST_PAGE_SIZE_4K
  let virtualAddress := mapping.virtualAddress + offset
  let physicalAddress := mapping.physicalAddress + offset
  let leafIndex := ptIndex virtualAddress
  failIf (s.image.guardIsSet leafIndex) .guardOverlapsMapping
  failIf ((s.image.tables .pt).entries leafIndex != 0) .virtualPageAlreadyMapped
  failIf (s.image.physicalPageIsMapped physicalAddress) .physicalPageAliased
  let mappedTables ← markTablePage s.image.layout s.mappedTables virtualAddress physicalAddress
    mapping.permissions
  let image := s.image.setEntry .pt leafIndex (physicalAddress ||| mapping.permissions.leafFlags)
  failIf (2 ^ 16 ≤ image.mappedPageCount + 1) .addressOverflow
  pure { image := { image with mappedPageCount := image.mappedPageCount + 1 }, mappedTables }

/-- The checks of `install_mapping` before its loop. -/
def checkMapping (self : HostPageTableImage) (mapping : HostPageMapping) :
    Except HostPagingError Unit := do
  failIf (mapping.length == 0) .emptyMapping
  failIf (!isPageAligned mapping.virtualAddress || !isPageAligned mapping.physicalAddress ||
    !isPageAligned mapping.length) .mappingUnaligned
  failIf mapping.permissions.isWritableExecutable .writableExecutableMapping
  let virtualEnd ← okOr (checkedAdd mapping.virtualAddress mapping.length) .addressOverflow
  let physicalEnd ← okOr (checkedAdd mapping.physicalAddress mapping.length) .addressOverflow
  let kernelVirtualEnd ← okOr (checkedAdd self.kernelVirtualBase HOST_KERNEL_WINDOW_SIZE)
    .addressOverflow
  failIf (!isCanonical48 mapping.virtualAddress || !isCanonical48 (virtualEnd - 1) ||
    mapping.virtualAddress < self.kernelVirtualBase || kernelVirtualEnd < virtualEnd)
    .mappingOutsideWindow
  failIf (self.physicalLimit < physicalEnd) .mappingPhysicalAddressOutOfRange

def installMapping (s : Building) (mapping : HostPageMapping) : Except HostPagingError Building := do
  checkMapping s.image mapping
  (List.range (mapping.length / HOST_PAGE_SIZE_4K)).foldlM (installPage mapping) s

def build (capabilities : HostPagingCapabilities) (layout : HostPageTableLayout)
    (kernelVirtualBase : ℕ) (mappings : List HostPageMapping)
    (unmappedPages : List HostUnmappedPage) : Except HostPagingError HostPageTableImage := do
  let physicalLimit ← capabilities.validate
  let kernelVirtualEnd ← validateKernelWindow kernelVirtualBase
  layout.validate kernelVirtualBase kernelVirtualEnd physicalLimit
  let image : HostPageTableImage :=
    { layout, kernelVirtualBase, physicalLimit, mappedPageCount := 0
      guardBitmap := fun _ => 0, tables := fun _ => HostPageTable.zeroed }
  let image ← unmappedPages.foldlM recordGuard image.installHierarchy
  let s ← mappings.foldlM installMapping { image, mappedTables := fun _ => false }
  failIf (s.image.mappedPageCount == 0) .noMappedPages
  failIf (HostPageTableLevel.all.any fun level => !s.mappedTables level)
    .tablePageMissingFromKernelMapping
  s.image.validate
  unmappedPages.forM fun guard => do
    let found ← s.image.walk guard.virtualAddress
    failIf found.isSome .guardOverlapsMapping
  pure s.image

end HostPageTableImage
end AegisHV.HostPaging
