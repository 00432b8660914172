import AegisHV.Lib.Op
import AegisHV.Lib.Table
import AegisHV.Lib.Word

/-! The usable memory of a Limine memory map (`limine.rs` of `aegishv-type1-boot`, with the
memory regions of `handoff.rs`). -/

namespace AegisHV
open Sys

inductive BootMemoryKind
  | usable | reserved | acpi | mmio | bad | bootloaderReclaimable | kernelAndModules
  deriving DecidableEq

structure BootMemoryRegion where
  base : ℕ
  length : ℕ
  kind : BootMemoryKind

inductive LimineMemoryMapError
  | unknownMemoryKind | addressOverflow | invalidUsableRegion | usableRegionOverlap
  | capacityExceeded
  deriving DecidableEq

inductive LimineMemoryKind
  | usable | reserved | acpiReclaimable | acpiNvs | badMemory | bootloaderReclaimable
  | executableAndModules | framebuffer | mappedReserved
  deriving DecidableEq

def LimineMemoryKind.fromRaw : ℕ → Except LimineMemoryMapError LimineMemoryKind
  | 0 => .ok .usable
  | 1 => .ok .reserved
  | 2 => .ok .acpiReclaimable
  | 3 => .ok .acpiNvs
  | 4 => .ok .badMemory
  | 5 => .ok .bootloaderReclaimable
  | 6 => .ok .executableAndModules
  | 7 => .ok .framebuffer
  | 8 => .ok .mappedReserved
  | _ => .error .unknownMemoryKind

structure LimineMemmapEntry where
  base : ℕ
  length : ℕ
  kind : ℕ

/-- The source's `end`. -/
def LimineMemmapEntry.stop (self : LimineMemmapEntry) : Except LimineMemoryMapError ℕ :=
  okOr (checkedAdd self.base self.length) .addressOverflow

structure LimineUsableMemory (N : ℕ) where
  table : Table BootMemoryRegion N

namespace LimineUsableMemory

variable {N : ℕ}

/-- The inner loop of `from_entries`, over the other entries of the map. -/
def rejectOverlap (entry : LimineMemmapEntry) (index stop : ℕ)
    (others : List (LimineMemmapEntry × ℕ)) : Except LimineMemoryMapError Unit :=
  others.forM fun (other, otherIndex) => do
    if otherIndex = index then pure ()
    else
      let _ ← LimineMemoryKind.fromRaw other.kind
      let otherEnd ← other.stop
      failIf (entry.base < otherEnd && other.base < stop) .usableRegionOverlap

/-- The body of the loop of `from_entries`. -/
def addEntry (entries : List LimineMemmapEntry) (usable : Table BootMemoryRegion N)
    (indexed : LimineMemmapEntry × ℕ) : Except LimineMemoryMapError (Table BootMemoryRegion N) := do
  let (entry, index) := indexed
  let kind ← LimineMemoryKind.fromRaw entry.kind
  let stop ← entry.stop
  if kind ≠ .usable then pure usable
  else
    failIf (entry.length == 0 || entry.base % 4096 != 0 || entry.length % 4096 != 0)
      .invalidUsableRegion
    rejectOverlap entry index stop entries.zipIdx
    failIf (N ≤ usable.len) .capacityExceeded
    pure (usable.push ⟨entry.base, entry.length, .usable⟩)

def fromEntries (entries : List LimineMemmapEntry) :
    Except LimineMemoryMapError (LimineUsableMemory N) := do
  let table ← entries.zipIdx.foldlM (addEntry entries) (Table.replicate N ⟨0, 0, .reserved⟩)
  pure ⟨table⟩

def regions (self : LimineUsableMemory N) : List BootMemoryRegion := self.table.toList

end LimineUsableMemory
end AegisHV
