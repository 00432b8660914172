import AegisHV.Spec.Limine
import AegisHV.Spec.Memory
import AegisHV.Lib.Text

/-! The check of the boot handoff (`handoff.rs` of `aegishv-type1-boot`) and the way its
memory regions enter the core crate. -/

namespace AegisHV
open Sys

inductive BootProtocol
  | limine | uefi | multiboot2

def BootMemoryKind.toCoreKind : BootMemoryKind → MemoryRegionKind
  | .usable => .usable
  | .bootloaderReclaimable => .reserved
  | .acpi => .acpi
  | .mmio => .mmio
  | .bad => .bad
  | .reserved => .reserved
  | .kernelAndModules => .reserved

def BootMemoryRegion.toCoreRegion (self : BootMemoryRegion) : MemoryRegion :=
  ⟨self.base, self.length, self.kind.toCoreKind⟩

structure BootFramebuffer where
  address : ℕ
  width : ℕ
  height : ℕ
  pitch : ℕ
  bitsPerPixel : ℕ

structure BootModule where
  address : ℕ
  length : ℕ

structure BootHandoff where
  protocol : BootProtocol
  bootloaderName : List Char
  kernelBase : ℕ
  kernelLength : ℕ
  stackBase : ℕ
  stackLength : ℕ
  memoryRegions : List BootMemoryRegion
  modules : List BootModule
  rsdpAddress : Option ℕ
  framebuffer : Option BootFramebuffer

inductive BootValidationError
  | missingBootloaderName | kernelRangeInvalid | stackRangeInvalid | stackNotPageAligned
  | missingMemoryMap | memoryRegionInvalid | memoryRegionOverflow | memoryRegionOverlap
  | missingUsableMemory | moduleRangeInvalid | moduleOverlapsKernel | framebufferInvalid

structure BootValidationReport where
  protocol : BootProtocol
  usableRegions : ℕ
  usableBytes : ℕ
  moduleCount : ℕ
  hasRsdp : Bool
  hasFramebuffer : Bool

/-- The source's `end`. -/
def BootMemoryRegion.stop (self : BootMemoryRegion) : Except BootValidationError ℕ :=
  okOr (checkedAdd self.base self.length) .memoryRegionOverflow

namespace BootHandoff

def validateRegion (region : BootMemoryRegion) : Except BootValidationError ℕ := do
  failIf (region.length == 0 || region.base % 4096 != 0 || region.length % 4096 != 0)
    .memoryRegionInvalid
  region.stop

def validateRange (base length : ℕ) : Except Unit ℕ := do
  failIf (length == 0) ()
  okOr (checkedAdd base length) ()

def validateFramebuffer (framebuffer : BootFramebuffer) : Except BootValidationError Unit :=
  failIf (framebuffer.address == 0 || framebuffer.width == 0 || framebuffer.height == 0 ||
    framebuffer.pitch == 0 || framebuffer.bitsPerPixel == 0) .framebufferInvalid

/-- The inner loop over the regions before this one. -/
def rejectOverlap (region : BootMemoryRegion) (stop : ℕ) (previous : List BootMemoryRegion) :
    Except BootValidationError Unit :=
  previous.forM fun other => do
    let previousEnd ← other.stop
    failIf (region.base < previousEnd && other.base < stop) .memoryRegionOverlap

/-- The body of the loop over the memory regions; the state counts the usable regions and
their bytes. -/
def addRegion (regions : List BootMemoryRegion) (usable : ℕ × ℕ)
    (indexed : BootMemoryRegion × ℕ) : Except BootValidationError (ℕ × ℕ) := do
  let (region, index) := indexed
  let stop ← validateRegion region
  rejectOverlap region stop (regions.take index)
  if region.kind = .usable then pure (usable.1 + 1, saturatingAdd usable.2 region.length)
  else pure usable

def validateModule (kernelBase kernelEnd : ℕ) (m : BootModule) : Except BootValidationError Unit := do
  let _ ← (validateRange m.address m.length).mapError fun _ => .moduleRangeInvalid
  let moduleEnd := m.address + m.length
  failIf (m.address < kernelEnd && kernelBase < moduleEnd) .moduleOverlapsKernel

end BootHandoff

open BootHandoff in
def validateBootHandoff (handoff : BootHandoff) :
    Except BootValidationError BootValidationReport := do
  failIf (trim handoff.bootloaderName).isEmpty .missingBootloaderName
  let _ ← (validateRange handoff.kernelBase handoff.kernelLength).mapError
    fun _ => .kernelRangeInvalid
  let _ ← (validateRange handoff.stackBase handoff.stackLength).mapError fun _ => .stackRangeInvalid
  failIf (handoff.stackBase % 4096 != 0 || handoff.stackLength % 4096 != 0) .stackNotPageAligned
  failIf handoff.memoryRegions.isEmpty .missingMemoryMap
  let kernelEnd := handoff.kernelBase + handoff.kernelLength
  let (usableRegions, usableBytes) ←
    handoff.memoryRegions.zipIdx.foldlM (addRegion handoff.memoryRegions) (0, 0)
  failIf (usableRegions == 0) .missingUsableMemory
  handoff.modules.forM (validateModule handoff.kernelBase kernelEnd)
  match handoff.framebuffer with
  | some framebuffer => validateFramebuffer framebuffer
  | none => pure ()
  pure { protocol := handoff.protocol, usableRegions, usableBytes,
         moduleCount := handoff.modules.length, hasRsdp := handoff.rsdpAddress.isSome,
         hasFramebuffer := handoff.framebuffer.isSome }

end AegisHV
