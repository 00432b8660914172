import AegisHV.Lib.Walk
import AegisHV.Spec.Vmi

/-! The x86-64 page walkers (`vmi_x86.rs`), four levels and five. The body of `translate_x86_64`
is cut where it goes from one table to the next. -/

namespace AegisHV.Vmi.X86

open Sys

def PAGE_4K : ℕ := 4096
def PAGE_2M : ℕ := 2 * 1024 * 1024
def PAGE_1G : ℕ := 1024 * 1024 * 1024
def PRESENT : ℕ := 1 <<< 0
def WRITABLE : ℕ := 1 <<< 1
def USER : ℕ := 1 <<< 2
def LARGE_PAGE : ℕ := 1 <<< 7
def NX : ℕ := 1 <<< 63
def CR3_BASE_MASK : ℕ := 0x000f_ffff_ffff_f000
def TABLE_BASE_MASK : ℕ := 0x000f_ffff_ffff_f000
def PAGE_2M_BASE_MASK : ℕ := 0x000f_ffff_ffe0_0000
def PAGE_1G_BASE_MASK : ℕ := 0x000f_ffff_c000_0000
def RESERVED_HIGH_BITS : ℕ := 0x7ff0_0000_0000_0000
def RESERVED_2M_LOW_BITS : ℕ := 0x0000_0000_001f_e000
def RESERVED_1G_LOW_BITS : ℕ := 0x0000_0000_3fff_e000

inductive PagingMode where
  | fourLevel
  | la57

/-- The register a page walk reads. -/
structure GuestRegisters where
  cr3OrTtbr : Option ℕ

structure PagePermissions where
  writable : Bool := true
  user : Bool := true
  executable : Bool := true

def PagePermissions.apply (perms : PagePermissions) (entry : ℕ) : PagePermissions where
  writable := perms.writable && entry &&& WRITABLE ≠ 0
  user := perms.user && entry &&& USER ≠ 0
  executable := perms.executable && entry &&& NX = 0

def result (gpa pageSize : ℕ) (perms : PagePermissions) : TranslationResult where
  gpa
  readable := true
  writable := perms.writable
  executable := perms.executable
  user := perms.user
  pageSize

def malformed (level detail : String) : TranslationError := .malformedPageTables level detail

def validatePresent (level : String) (entry gva : ℕ) : Except TranslationError Unit :=
  failIf (entry &&& PRESENT == 0) (.notPresent level gva)

def rejectReservedHighBits (level : String) (entry : ℕ) : Except TranslationError Unit :=
  failIf (entry &&& RESERVED_HIGH_BITS != 0)
    (malformed level "reserved physical-address bits are set")

def rejectReservedLargePageBits (level : String) (entry mask : ℕ) : Except TranslationError Unit :=
  failIf (entry &&& mask != 0) (malformed level "reserved large-page address bits are set")

def isCanonicalWithSignBit (addr signBit : ℕ) : Bool :=
  let sign := (addr >>> signBit) &&& 1
  let high := addr >>> (signBit + 1)
  let highBits := 63 - signBit
  let expected := if sign = 0 then 0 else (1 <<< highBits) - 1
  high == expected

def isCanonical (addr : ℕ) : PagingMode → Bool
  | .fourLevel => isCanonicalWithSignBit addr 47
  | .la57 => isCanonicalWithSignBit addr 56

def pml5Index (addr : ℕ) : ℕ := (addr >>> 48) &&& 0x1ff

def pml4Index (addr : ℕ) : ℕ := (addr >>> 39) &&& 0x1ff

def pdptIndex (addr : ℕ) : ℕ := (addr >>> 30) &&& 0x1ff

def pdIndex (addr : ℕ) : ℕ := (addr >>> 21) &&& 0x1ff

def ptIndex (addr : ℕ) : ℕ := (addr >>> 12) &&& 0x1ff

section

variable (memory : GuestMemory) (vm : VmId) (gva : ℕ)

/-- An entry is read, found present and free of reserved bits: what every level starts with. -/
def walkEntry (tableBase index : ℕ) (level : String) : Except TranslationError ℕ := do
  let entry ← readTableEntry memory vm tableBase index level
  validatePresent level entry gva
  rejectReservedHighBits level entry
  return entry

def walkPt (ptBase : ℕ) (perms : PagePermissions) : Except TranslationError TranslationResult := do
  let pte ← walkEntry memory vm gva ptBase (ptIndex gva) "pte"
  return result ((pte &&& TABLE_BASE_MASK) ||| (gva &&& (PAGE_4K - 1))) PAGE_4K (perms.apply pte)

def walkPd (pdBase : ℕ) (perms : PagePermissions) : Except TranslationError TranslationResult := do
  let pde ← walkEntry memory vm gva pdBase (pdIndex gva) "pde"
  let perms := perms.apply pde
  if pde &&& LARGE_PAGE ≠ 0 then
    rejectReservedLargePageBits "pde" pde RESERVED_2M_LOW_BITS
    return result ((pde &&& PAGE_2M_BASE_MASK) ||| (gva &&& (PAGE_2M - 1))) PAGE_2M perms
  else walkPt memory vm gva (pde &&& TABLE_BASE_MASK) perms

def walkPdpt (pdptBase : ℕ) (perms : PagePermissions) :
    Except TranslationError TranslationResult := do
  let pdpte ← walkEntry memory vm gva pdptBase (pdptIndex gva) "pdpte"
  let perms := perms.apply pdpte
  if pdpte &&& LARGE_PAGE ≠ 0 then
    rejectReservedLargePageBits "pdpte" pdpte RESERVED_1G_LOW_BITS
    return result ((pdpte &&& PAGE_1G_BASE_MASK) ||| (gva &&& (PAGE_1G - 1))) PAGE_1G perms
  else walkPd memory vm gva (pdpte &&& TABLE_BASE_MASK) perms

def walkPml4 (tableBase : ℕ) (perms : PagePermissions) :
    Except TranslationError TranslationResult := do
  let pml4e ← walkEntry memory vm gva tableBase (pml4Index gva) "pml4e"
  failIf (pml4e &&& LARGE_PAGE != 0)
    (malformed "pml4e" "large-page bit is reserved in PML4 entries")
  walkPdpt memory vm gva (pml4e &&& TABLE_BASE_MASK) (perms.apply pml4e)

def walkPml5 (tableBase : ℕ) (perms : PagePermissions) :
    Except TranslationError TranslationResult := do
  let pml5e ← walkEntry memory vm gva tableBase (pml5Index gva) "pml5e"
  failIf (pml5e &&& LARGE_PAGE != 0)
    (malformed "pml5e" "large-page bit is reserved in PML5 entries")
  walkPml4 memory vm gva (pml5e &&& TABLE_BASE_MASK) (perms.apply pml5e)

end

def translateX86_64 (memory : GuestMemory) (vm : VmId) (regs : GuestRegisters) (gva : ℕ)
    (pagingMode : PagingMode) : Except TranslationError TranslationResult := do
  failIf (!isCanonical gva pagingMode) (.invalidAddress gva)
  let cr3 ← okOr regs.cr3OrTtbr (.missingContext "cr3_or_ttbr")
  let tableBase := cr3 &&& CR3_BASE_MASK
  match pagingMode with
  | .la57 => walkPml5 memory vm gva tableBase {}
  | .fourLevel => walkPml4 memory vm gva tableBase {}

/-! The walk without its bookkeeping: the entries from the root to the leaf. -/

inductive Level where
  | pml5
  | pml4
  | pdpt
  | pd
  | pt

def Level.shift : Level → ℕ
  | .pml5 => 48
  | .pml4 => 39
  | .pdpt => 30
  | .pd => 21
  | .pt => 12

def radix : Radix Level where
  shift := Level.shift
  bits := fun _ => 9

def levels : PagingMode → List Level
  | .fourLevel => [.pml4, .pdpt, .pd, .pt]
  | .la57 => [.pml5, .pml4, .pdpt, .pd, .pt]

/-- The leaf of a level: always at the last, with the large-page bit at the two before. -/
def Level.isLeaf (entry : ℕ) : Level → Bool
  | .pml5 | .pml4 => false
  | .pdpt | .pd => entry &&& LARGE_PAGE ≠ 0
  | .pt => true

/-- The bits that have to be clear in an entry of a level. -/
def Level.reserved (entry : ℕ) : Level → ℕ
  | .pml5 | .pml4 => RESERVED_HIGH_BITS ||| LARGE_PAGE
  | .pdpt => if entry &&& LARGE_PAGE ≠ 0 then RESERVED_HIGH_BITS ||| RESERVED_1G_LOW_BITS
      else RESERVED_HIGH_BITS
  | .pd => if entry &&& LARGE_PAGE ≠ 0 then RESERVED_HIGH_BITS ||| RESERVED_2M_LOW_BITS
      else RESERVED_HIGH_BITS
  | .pt => RESERVED_HIGH_BITS

/-- One level of the walk, which keeps the entries that were met. -/
def step (memory : GuestMemory) (vm : VmId) (l : Level) (s : ℕ × List ℕ) (index : ℕ) :
    Option ((ℕ × List ℕ) ⊕ List ℕ) :=
  (entryAt memory vm s.1 index).bind fun entry =>
    if entry &&& PRESENT = 0 ∨ entry &&& l.reserved entry ≠ 0 then none
    else if l.isLeaf entry then some (.inr (s.2 ++ [entry]))
    else some (.inl (entry &&& TABLE_BASE_MASK, s.2 ++ [entry]))

/-- The level and the entries of the walk from a root, the leaf last. -/
def walked (memory : GuestMemory) (vm : VmId) (pagingMode : PagingMode) (cr3 gva : ℕ) :
    Option (Level × List ℕ) :=
  radix.walk (step memory vm) (levels pagingMode) (cr3 &&& CR3_BASE_MASK, []) gva

end AegisHV.Vmi.X86
