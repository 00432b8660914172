import AegisHV.Lib.Word
import AegisHV.Lib.Op
import AegisHV.Lib.Table

/-! The core crate's errors, address types and firmware memory map
(`error.rs`, `ids.rs`, `memory.rs` of `aegishv-hypervisor-core`). Words are
natural numbers; a table of `N` entries is a `Table` of capacity `N`. -/

namespace AegisHV
open Sys

inductive CoreErrorKind
  | invalidId | invalidAddress | invalidArgument | invalidMemoryMap | capacityExceeded | overlap
  | outOfMemory | doubleFree | zeroingFailed | invalidTransition | ringFull | unknownCommand
  | unsupported | permissionViolation | serialTimeout | invalidState
  deriving DecidableEq

structure CoreError where
  kind : CoreErrorKind
  message : String
  deriving DecidableEq

structure VmId where
  raw : ℕ
  raw_ne : raw ≠ 0
  raw_lt : raw < 2 ^ 32
  deriving DecidableEq

/-- `VmId::ONE` -/
def VmId.one : VmId := ⟨1, by norm_num, by norm_num⟩

structure VcpuId where
  raw : ℕ
  raw_lt : raw < 2 ^ 16 - 1
  deriving DecidableEq

structure PhysicalCpuId where
  raw : ℕ
  raw_lt : raw < 2 ^ 16 - 1

def PhysicalCpuId.new (raw : ℕ) : Except CoreError PhysicalCpuId :=
  if h : raw < 2 ^ 16 - 1 then .ok ⟨raw, h⟩
  else .error ⟨.invalidId, "physical cpu id 65535 is reserved"⟩

/-- A host-physical address; `u64::MAX` is a reserved sentinel. -/
structure HostPhysical where
  raw : ℕ
  raw_lt : raw < 2 ^ 64 - 1
  deriving DecidableEq

namespace HostPhysical

def zero : HostPhysical := ⟨0, by norm_num⟩

def new (raw : ℕ) : Except CoreError HostPhysical :=
  if h : raw < 2 ^ 64 - 1 then .ok ⟨raw, h⟩
  else .error ⟨.invalidAddress, "host physical address uses reserved sentinel value"⟩

end HostPhysical

structure GuestPhysical where
  raw : ℕ
  raw_lt : raw < 2 ^ 64 - 1
  deriving DecidableEq

namespace GuestPhysical

def new (raw : ℕ) : Except CoreError GuestPhysical :=
  if h : raw < 2 ^ 64 - 1 then .ok ⟨raw, h⟩
  else .error ⟨.invalidAddress, "guest physical address uses reserved sentinel value"⟩

end GuestPhysical

inductive MemoryRegionKind
  | usable | reserved | mmio | acpi | bad
  deriving DecidableEq

structure MemoryRegion where
  base : ℕ
  length : ℕ
  kind : MemoryRegionKind

namespace MemoryRegion

def empty : MemoryRegion := ⟨0, 0, .reserved⟩

/-- The source's `end`. -/
def stop (region : MemoryRegion) : Except CoreError ℕ :=
  match checkedAdd region.base region.length with
  | some stop => .ok stop
  | none => .error ⟨.invalidMemoryMap, "memory region end address overflowed"⟩

end MemoryRegion

structure MemoryMap (N : ℕ) where
  table : Table MemoryRegion N

namespace MemoryMap

variable {N : ℕ}

def validateRegion (region : MemoryRegion) : Except CoreError Unit :=
  if region.length = 0 then
    .error ⟨.invalidMemoryMap, "firmware memory map contains a zero-length region"⟩
  else do
    let _ ← region.stop
    pure ()

def insertSorted (regions : Table MemoryRegion N) (region : MemoryRegion) :
    Except CoreError (Table MemoryRegion N) :=
  if N ≤ regions.len then
    .error ⟨.capacityExceeded, "firmware memory map sort table is full"⟩
  else .ok (regions.insertBy (fun r => region.base < r.base) region)

def mergeRegion (regions : Table MemoryRegion N) (region : MemoryRegion) :
    Except CoreError (Table MemoryRegion N) :=
  if regions.len = 0 then .ok (regions.push region)
  else do
    let last := regions.get (regions.len - 1) MemoryRegion.empty
    let lastEnd ← last.stop
    if region.base < lastEnd ∧ region.kind ≠ last.kind then
      .error ⟨.overlap, "firmware memory map has overlapping regions with different types"⟩
    else if region.base ≤ lastEnd ∧ region.kind = last.kind then do
      let regionEnd ← region.stop
      let mergedEnd := if lastEnd < regionEnd then regionEnd else lastEnd
      pure (regions.set (regions.len - 1) { last with length := mergedEnd - last.base })
    else if N ≤ regions.len then
      .error ⟨.capacityExceeded, "firmware memory map merge table is full"⟩
    else .ok (regions.push region)

def sortEntries (entries : List MemoryRegion) : Except CoreError (Table MemoryRegion N) :=
  entries.foldlM (fun sorted entry => do
    validateRegion entry
    insertSorted sorted entry) (Table.replicate N MemoryRegion.empty)

def mergeAll (sorted : List MemoryRegion) : Except CoreError (Table MemoryRegion N) :=
  sorted.foldlM mergeRegion (Table.replicate N MemoryRegion.empty)

def fromEntries (entries : List MemoryRegion) : Except CoreError (MemoryMap N) :=
  if N < entries.length then
    .error ⟨.capacityExceeded, "firmware memory map has more entries than the fixed table can hold"⟩
  else do
    let sorted : Table MemoryRegion N ← sortEntries entries
    let merged ← mergeAll sorted.toList
    pure ⟨merged⟩

def regions (map : MemoryMap N) : List MemoryRegion := map.table.toList

def usableRegions (map : MemoryMap N) : List MemoryRegion :=
  map.regions.filter fun region => region.kind = .usable

end MemoryMap
end AegisHV
