import AegisHV.Lib.Bytes
import AegisHV.Lib.Op
import AegisHV.Spec.Memory

/-! The DMAR and IVRS parsers (`acpi.rs` of `aegishv-arch-x86`). The state of a parse is the list
of the offsets it has read. -/

namespace AegisHV.Acpi
open Sys

def ACPI_HEADER_LEN : ℕ := 36
def DMAR_BODY_LEN : ℕ := 12
def IVRS_BODY_LEN : ℕ := 12

/-- The ways a parse ends without a table: an error, an index out of bounds, and a loop that is
not done after as many rounds as the table has bytes. -/
inductive Stop
  | error (e : CoreError)
  | panic
  | diverged

abbrev Parse (α : Type) : Type := Op (List ℕ) Stop α

def fail {α : Type} (kind : CoreErrorKind) (message : String) : Parse α :=
  .fail (.error ⟨kind, message⟩)

def log (offsets : List ℕ) : Parse PUnit := do
  let reads ← .read
  .write (reads ++ offsets)

/-- `bytes[offset]` -/
def byteAt (bytes : List UInt8) (offset : ℕ) : Parse UInt8 :=
  match bytes[offset]? with
  | some byte => do
    log [offset]
    pure byte
  | none => .fail .panic

/-- `bytes[start..stop]` -/
def sliceAt (bytes : List UInt8) (start stop : ℕ) : Parse (List UInt8) :=
  match slice bytes start stop with
  | some part => do
    log (List.range' start (stop - start))
    pure part
  | none => .fail .panic

def leAt (width : ℕ) (message : String) (bytes : List UInt8) (offset : ℕ) : Parse ℕ :=
  match slice bytes offset (offset + width) with
  | some part => do
    log (List.range' offset width)
    pure (fromLe part)
  | none => fail .invalidArgument message

def leU16 : List UInt8 → ℕ → Parse ℕ := leAt 2 "ACPI fixture ended while reading a u16 field"

def leU32 : List UInt8 → ℕ → Parse ℕ := leAt 4 "ACPI fixture ended while reading a u32 field"

def leU64 : List UInt8 → ℕ → Parse ℕ := leAt 8 "ACPI fixture ended while reading a u64 field"

structure AcpiHeader where
  signature : List UInt8
  length : ℕ
  revision : UInt8

def parseHeader (bytes : List UInt8) (expected : List UInt8) : Parse AcpiHeader := do
  if bytes.length < ACPI_HEADER_LEN then
    fail .invalidArgument "ACPI table header is truncated"
  else
    let signature ← sliceAt bytes 0 4
    if signature ≠ expected then
      fail .invalidArgument "ACPI table signature does not match the requested parser"
    else
      let length ← leU32 bytes 4
      let revision ← byteAt bytes 8
      pure ⟨signature, length, revision⟩

def checkedTableLen (bytes : List UInt8) (declared : ℕ) : Parse ℕ :=
  if declared > bytes.length ∨ declared < ACPI_HEADER_LEN then
    fail .invalidArgument "ACPI table declared length is outside the supplied fixture"
  else pure declared

/-- The loop of both parsers, with `step` for its body. -/
def structures {Unit : Type} (step : ℕ → List Unit → Parse (ℕ × List Unit)) (total : ℕ) :
    ℕ → ℕ → List Unit → Parse (List Unit)
  | 0, offset, units => if offset < total then .fail .diverged else pure units
  | rounds + 1, offset, units =>
    if offset < total then do
      let next ← step offset units
      structures step total rounds next.1 next.2
    else pure units

structure DmarHardwareUnit where
  flags : UInt8
  segment : ℕ
  registerBase : ℕ

/-- The parsed table; `units` holds the units found, at most as many as the table has room for. -/
structure DmarTable where
  header : AcpiHeader
  hostAddressWidth : UInt8
  flags : UInt8
  units : List DmarHardwareUnit

def dmarStructure (capacity : ℕ) (bytes : List UInt8) (total offset : ℕ)
    (units : List DmarHardwareUnit) : Parse (ℕ × List DmarHardwareUnit) := do
  if offset + 4 > total then
    fail .invalidArgument "DMAR remapping structure header is truncated"
  else
    let structureType ← leU16 bytes offset
    let structureLen ← leU16 bytes (offset + 2)
    if structureLen < 4 ∨ offset + structureLen > total then
      fail .invalidArgument "DMAR remapping structure length is invalid"
    else if structureType = 0 then
      if structureLen < 16 then
        fail .invalidArgument "DMAR DRHD structure is truncated"
      else if units.length ≥ capacity then
        fail .capacityExceeded "DMAR hardware unit table is full"
      else
        let flags ← byteAt bytes (offset + 4)
        let segment ← leU16 bytes (offset + 6)
        let registerBase ← leU64 bytes (offset + 8)
        pure (offset + structureLen, units ++ [⟨flags, segment, registerBase⟩])
    else pure (offset + structureLen, units)

/-- The signature of each table. -/
def DMAR : List UInt8 := [0x44, 0x4d, 0x41, 0x52]
def IVRS : List UInt8 := [0x49, 0x56, 0x52, 0x53]

def parseDmar (capacity : ℕ) (bytes : List UInt8) : Parse DmarTable := do
  let header ← parseHeader bytes DMAR
  let total ← checkedTableLen bytes header.length
  if total < ACPI_HEADER_LEN + DMAR_BODY_LEN then
    fail .invalidArgument "DMAR table is shorter than the fixed DMAR body"
  else
    let hostAddressWidth ← byteAt bytes ACPI_HEADER_LEN
    let flags ← byteAt bytes (ACPI_HEADER_LEN + 1)
    let units ← structures (dmarStructure capacity bytes total) total total
      (ACPI_HEADER_LEN + DMAR_BODY_LEN) []
    pure ⟨header, hostAddressWidth, flags, units⟩

structure IvrsHardwareUnit where
  entryType : UInt8
  flags : UInt8
  deviceId : ℕ
  capabilityOffset : ℕ
  baseAddress : ℕ

structure IvrsTable where
  header : AcpiHeader
  ivInfo : ℕ
  units : List IvrsHardwareUnit

/-- `matches!(entry_type, 0x10 | 0x11 | 0x40)` -/
def isHardwareBlock (entryType : UInt8) : Bool :=
  entryType == 0x10 || entryType == 0x11 || entryType == 0x40

def ivrsStructure (capacity : ℕ) (bytes : List UInt8) (total offset : ℕ)
    (units : List IvrsHardwareUnit) : Parse (ℕ × List IvrsHardwareUnit) := do
  if offset + 4 > total then
    fail .invalidArgument "IVRS hardware block header is truncated"
  else
    let entryType ← byteAt bytes offset
    let flags ← byteAt bytes (offset + 1)
    let structureLen ← leU16 bytes (offset + 2)
    if structureLen < 16 ∨ offset + structureLen > total then
      fail .invalidArgument "IVRS hardware block length is invalid"
    else if isHardwareBlock entryType then
      if units.length ≥ capacity then
        fail .capacityExceeded "IVRS hardware unit table is full"
      else
        let deviceId ← leU16 bytes (offset + 4)
        let capabilityOffset ← leU16 bytes (offset + 6)
        let baseAddress ← leU64 bytes (offset + 8)
        pure (offset + structureLen,
          units ++ [⟨entryType, flags, deviceId, capabilityOffset, baseAddress⟩])
    else pure (offset + structureLen, units)

def parseIvrs (capacity : ℕ) (bytes : List UInt8) : Parse IvrsTable := do
  let header ← parseHeader bytes IVRS
  let total ← checkedTableLen bytes header.length
  if total < ACPI_HEADER_LEN + IVRS_BODY_LEN then
    fail .invalidArgument "IVRS table is shorter than the fixed IVRS body"
  else
    let ivInfo ← leU32 bytes ACPI_HEADER_LEN
    let units ← structures (ivrsStructure capacity bytes total) total total
      (ACPI_HEADER_LEN + IVRS_BODY_LEN) []
    pure ⟨header, ivInfo, units⟩

end AegisHV.Acpi
