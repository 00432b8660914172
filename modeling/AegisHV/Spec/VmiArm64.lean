import AegisHV.Lib.Walk
import AegisHV.Spec.Vmi

/-! The ARM64 stage-1 walker (`vmi_arm64.rs`) and the walk that the architecture defines. -/

namespace AegisHV.Vmi.Arm64

open Sys

def PAGE_4K : ℕ := 4096
def PAGE_16K : ℕ := 16 * 1024
def PAGE_64K : ℕ := 64 * 1024
def DESC_TYPE_MASK : ℕ := 0b11
def DESC_INVALID_MASK : ℕ := 0b1
def DESC_BLOCK : ℕ := 0b01
def DESC_TABLE_OR_PAGE : ℕ := 0b11
def OUTPUT_ADDR_48_MASK : ℕ := 0x0000_ffff_ffff_ffff
def OUTPUT_ADDR_HIGH_RESERVED : ℕ := 0x000f_0000_0000_0000
def AP_USER : ℕ := 1 <<< 6
def AP_READ_ONLY : ℕ := 1 <<< 7
def PXN : ℕ := 1 <<< 53
def UXN : ℕ := 1 <<< 54
def PXN_TABLE : ℕ := 1 <<< 59
def UXN_TABLE : ℕ := 1 <<< 60
def AP_TABLE_NO_USER : ℕ := 1 <<< 61
def AP_TABLE_READ_ONLY : ℕ := 1 <<< 62

inductive Granule where
  | size4K
  | size16K
  | size64K
  deriving DecidableEq

structure Tcr where
  t0sz : ℕ
  t1sz : ℕ
  granule : Granule

structure Stage1Context where
  ttbr0 : Option ℕ
  ttbr1 : Option ℕ
  tcr : Tcr

structure GranuleConfig where
  pageSize : ℕ
  offsetBits : ℕ
  indexBits : ℕ
  minStartLevel : ℕ
  maxVaBits : ℕ

namespace GranuleConfig

def forGranule : Granule → GranuleConfig
  | .size4K => ⟨PAGE_4K, 12, 9, 0, 48⟩
  | .size16K => ⟨PAGE_16K, 14, 11, 1, 47⟩
  | .size64K => ⟨PAGE_64K, 16, 13, 2, 42⟩

variable (self : GranuleConfig)

def levelShift (level : ℕ) : ℕ := self.offsetBits + self.indexBits * (3 - level)

def levelCoverageBits (level : ℕ) : ℕ := self.levelShift level + self.indexBits

def unsupportedTcrSize : TranslationError :=
  .backend (.unsupported "arm64-stage1-offline" "translate_unsupported_tcr_size")

def startLevel (vaBits : ℕ) : Except TranslationError ℕ :=
  okOr ((List.range' self.minStartLevel (4 - self.minStartLevel)).find? fun level =>
    vaBits ≤ self.levelCoverageBits level) unsupportedTcrSize

def blockSize (level : ℕ) : Option ℕ :=
  if (self.pageSize = PAGE_4K ∧ (level = 1 ∨ level = 2)) ∨
      (self.pageSize = PAGE_16K ∧ (level = 1 ∨ level = 2)) ∨
      (self.pageSize = PAGE_64K ∧ level = 2) then some (1 <<< self.levelShift level)
  else none

def indexMask : ℕ := (1 <<< self.indexBits) - 1

def alignedOutputMask (alignment : ℕ) : ℕ := OUTPUT_ADDR_48_MASK &&& complement (alignment - 1)

def lowOutputReservedMask (alignment : ℕ) : ℕ := (alignment - 1) &&& complement 0xfff

def tableLowReservedMask : ℕ := (self.pageSize - 1) &&& complement DESC_TYPE_MASK

end GranuleConfig

structure SelectedTtbr where
  ttbr : ℕ
  inputVa : ℕ
  startLevel : ℕ

def vaBitsFromTsz (tsz : ℕ) (config : GranuleConfig) : Except TranslationError ℕ := do
  let vaBits ← okOr (checkedSub 64 tsz) GranuleConfig.unsupportedTcrSize
  failIf (vaBits < config.offsetBits || config.maxVaBits < vaBits) GranuleConfig.unsupportedTcrSize
  return vaBits

def rangeSize (vaBits : ℕ) : ℕ := 1 <<< vaBits

def inputMask (vaBits : ℕ) : ℕ := rangeSize vaBits - 1

def selectTtbr (context : Stage1Context) (va : ℕ) (config : GranuleConfig) :
    Except TranslationError SelectedTtbr := do
  let t0Bits ← vaBitsFromTsz context.tcr.t0sz config
  let t1Bits ← vaBitsFromTsz context.tcr.t1sz config
  if va < rangeSize t0Bits then
    let ttbr ← okOr context.ttbr0 (.missingContext "ttbr0")
    let startLevel ← config.startLevel t0Bits
    return { ttbr, inputVa := va, startLevel }
  else if 2 ^ 64 - 1 - (rangeSize t1Bits - 1) ≤ va then
    let ttbr ← okOr context.ttbr1 (.missingContext "ttbr1")
    let startLevel ← config.startLevel t1Bits
    return { ttbr, inputVa := va &&& inputMask t1Bits, startLevel }
  else .error (.invalidAddress va)

structure Permissions where
  writable : Bool := true
  user : Bool := true
  executable : Bool := true

def Permissions.applyTable (self : Permissions) (descriptor : ℕ) : Permissions where
  writable := self.writable && descriptor &&& AP_TABLE_READ_ONLY = 0
  user := self.user && descriptor &&& AP_TABLE_NO_USER = 0
  executable := self.executable && descriptor &&& (UXN_TABLE ||| PXN_TABLE) = 0

def Permissions.applyLeaf (self : Permissions) (descriptor : ℕ) : Permissions where
  writable := self.writable && descriptor &&& AP_READ_ONLY = 0
  user := self.user && descriptor &&& AP_USER ≠ 0
  executable := self.executable && descriptor &&& (UXN ||| PXN) = 0

def result (gpa pageSize : ℕ) (perms : Permissions) : TranslationResult where
  gpa
  readable := true
  writable := perms.writable
  executable := perms.executable
  user := perms.user
  pageSize

def malformed (level detail : String) : TranslationError := .malformedPageTables level detail

def tableIndex (inputVa level : ℕ) (config : GranuleConfig) : ℕ :=
  (inputVa >>> config.levelShift level) &&& config.indexMask

def levelName : ℕ → String
  | 0 => "l0"
  | 1 => "l1"
  | 2 => "l2"
  | 3 => "l3"
  | _ => "unknown"

def validatePresent (level : String) (descriptor va : ℕ) : Except TranslationError Unit :=
  failIf (descriptor &&& DESC_INVALID_MASK == 0) (.notPresent level va)

def rejectOutputHighBits (level : String) (descriptor : ℕ) : Except TranslationError Unit :=
  failIf (descriptor &&& OUTPUT_ADDR_HIGH_RESERVED != 0)
    (malformed level "reserved output-address bits are set")

def validateTableDescriptor (level : String) (descriptor : ℕ) (config : GranuleConfig) :
    Except TranslationError Unit := do
  rejectOutputHighBits level descriptor
  failIf (descriptor &&& config.tableLowReservedMask != 0)
    (malformed level "table descriptor has output-address bits set below the granule size")

def validatePageDescriptor (level : String) (descriptor : ℕ) (config : GranuleConfig) :
    Except TranslationError Unit := do
  rejectOutputHighBits level descriptor
  failIf (descriptor &&& GranuleConfig.lowOutputReservedMask config.pageSize != 0)
    (malformed level "reserved page output-address bits are set")

def validateBlockDescriptor (level : String) (descriptor lowReservedMask : ℕ) :
    Except TranslationError Unit := do
  rejectOutputHighBits level descriptor
  failIf (descriptor &&& lowReservedMask != 0)
    (malformed level "reserved block output-address bits are set")

/-- Why there is no block at a level. -/
def noBlock (level va : ℕ) : TranslationError :=
  if level = 3 then malformed (levelName level) "block descriptors are not valid at final level"
  else if level ≤ 2 then malformed (levelName level)
    "block descriptors are not valid at this level for the selected granule"
  else .translationFailed va "ARM64 stage-1 walk reached an unknown descriptor level"

def translateBlock (level descriptor inputVa va : ℕ) (perms : Permissions)
    (config : GranuleConfig) : Except TranslationError TranslationResult := do
  let blockSize ← okOr (config.blockSize level) (noBlock level va)
  validateBlockDescriptor (levelName level) descriptor
    (GranuleConfig.lowOutputReservedMask blockSize)
  return result ((descriptor &&& GranuleConfig.alignedOutputMask blockSize) |||
    (inputVa &&& (blockSize - 1))) blockSize (perms.applyLeaf descriptor)

def translatePage (descriptor inputVa : ℕ) (perms : Permissions) (config : GranuleConfig) :
    Except TranslationError TranslationResult := do
  validatePageDescriptor "l3" descriptor config
  return result ((descriptor &&& GranuleConfig.alignedOutputMask config.pageSize) |||
    (inputVa &&& (config.pageSize - 1))) config.pageSize (perms.applyLeaf descriptor)

/-- The loop of `walk_stage1` over the levels that are left. -/
def walkLevels (memory : GuestMemory) (vm : VmId) (inputVa va : ℕ) (config : GranuleConfig) :
    List ℕ → ℕ → Permissions → Except TranslationError TranslationResult
  | [], _, _ => .error
      (.translationFailed va "ARM64 stage-1 walk ended without a leaf descriptor")
  | level :: levels, tableBase, perms => do
    let descriptor ← readTableEntry memory vm tableBase (tableIndex inputVa level config)
      (levelName level)
    validatePresent (levelName level) descriptor va
    if descriptor &&& DESC_TYPE_MASK = DESC_BLOCK then
      translateBlock level descriptor inputVa va perms config
    else if descriptor &&& DESC_TYPE_MASK = DESC_TABLE_OR_PAGE then
      if level = 3 then translatePage descriptor inputVa perms config
      else do
        validateTableDescriptor (levelName level) descriptor config
        walkLevels memory vm inputVa va config levels
          (descriptor &&& GranuleConfig.alignedOutputMask config.pageSize)
          (perms.applyTable descriptor)
    else .error (malformed (levelName level)
      "reserved descriptor encoding is not valid for stage-1 translation")

def walkStage1 (memory : GuestMemory) (vm : VmId) (selected : SelectedTtbr) (va : ℕ)
    (config : GranuleConfig) : Except TranslationError TranslationResult :=
  walkLevels memory vm selected.inputVa va config
    (List.range' selected.startLevel (4 - selected.startLevel))
    (selected.ttbr &&& GranuleConfig.alignedOutputMask config.pageSize) {}

def translateArm64Stage1 (memory : GuestMemory) (vm : VmId) (context : Stage1Context) (va : ℕ) :
    Except TranslationError TranslationResult := do
  let config := GranuleConfig.forGranule context.tcr.granule
  let selected ← selectTtbr context va config
  walkStage1 memory vm selected va config

/-! The walk that the architecture defines: VMSAv8-64, stage 1, with 48-bit output addresses. Bits
that the architecture reserves as zero leave the translation undefined when they are set; access
flag and permissions are checked by an access and not by the walk. -/

def pageBits : Granule → ℕ
  | .size4K => 12
  | .size16K => 14
  | .size64K => 16

/-- A table fills a page with entries of eight bytes. -/
def radix (g : Granule) : Radix ℕ where
  shift := fun level => pageBits g + (pageBits g - 3) * (3 - level)
  bits := fun _ => pageBits g - 3

/-- The input bits that a table of a level covers. -/
def covers (g : Granule) (level : ℕ) : ℕ := (radix g).shift level + (radix g).bits level

/-- The deepest level whose table covers all input bits. -/
def initialLevel (g : Granule) (vaBits : ℕ) : ℕ :=
  ([3, 2, 1].find? fun level => vaBits ≤ covers g level).getD 0

/-- The table of the initial level has an entry for each value of the input bits above its shift,
and is aligned to its size. -/
def tableBits (g : Granule) (vaBits : ℕ) : ℕ := vaBits - (radix g).shift (initialLevel g vaBits) + 3

/-- The bits of a word from `low` up to 47, in place. -/
def addressField (low word : ℕ) : ℕ := word % 2 ^ 48 / 2 ^ low * 2 ^ low

def blockAllowed : Granule → ℕ → Bool
  | .size4K, level => level = 1 || level = 2
  | .size16K, level => level = 2
  | .size64K, level => level = 2

/-- A reserved bit is set: above the output address, or below it down to bit 12. -/
def reservedSet (low descriptor : ℕ) : Prop :=
  descriptor % 2 ^ 52 / 2 ^ 48 ≠ 0 ∨ descriptor % 2 ^ low / 2 ^ 12 ≠ 0

instance (low descriptor : ℕ) : Decidable (reservedSet low descriptor) :=
  inferInstanceAs (Decidable (_ ∨ _))

/-- The tables a walk went through and the leaf it ended with. -/
structure Leaf where
  tables : List ℕ
  descriptor : ℕ
  deriving DecidableEq

/-- A leaf that is defined, or not. -/
def leafOf (low : ℕ) (tables : List ℕ) (descriptor : ℕ) : Option Leaf :=
  if reservedSet low descriptor then none else some ⟨tables, descriptor⟩

def archStep (memory : GuestMemory) (vm : VmId) (g : Granule) (level : ℕ) (s : ℕ × List ℕ)
    (index : ℕ) : Option ((ℕ × List ℕ) ⊕ Option Leaf) :=
  (entryAt memory vm s.1 index).bind fun descriptor =>
    if descriptor % 4 = 3 then
      if level = 3 then some (.inr (leafOf (pageBits g) s.2 descriptor))
      else if reservedSet (pageBits g) descriptor then some (.inr none)
      else some (.inl (addressField (pageBits g) descriptor, s.2 ++ [descriptor]))
    else if descriptor % 4 = 1 ∧ blockAllowed g level then
      some (.inr (leafOf ((radix g).shift level) s.2 descriptor))
    else none

def leafResult (g : Granule) (va level : ℕ) (leaf : Leaf) : TranslationResult where
  gpa := addressField ((radix g).shift level) leaf.descriptor + va % 2 ^ (radix g).shift level
  readable := true
  writable := (leaf.tables.all fun t => !t.testBit 62) && !leaf.descriptor.testBit 7
  executable := (leaf.tables.all fun t => !t.testBit 60 && !t.testBit 59) &&
    (!leaf.descriptor.testBit 54 && !leaf.descriptor.testBit 53)
  user := (leaf.tables.all fun t => !t.testBit 61) && leaf.descriptor.testBit 6
  pageSize := 2 ^ (radix g).shift level

inductive Outcome where
  | mapped (result : TranslationResult)
  | fault
  | undefined

def archWalk (memory : GuestMemory) (vm : VmId) (g : Granule) (vaBits ttbr va : ℕ) :
    Option (ℕ × Option Leaf) :=
  (radix g).walk (archStep memory vm g)
    (List.range' (initialLevel g vaBits) (4 - initialLevel g vaBits))
    (addressField (tableBits g vaBits) ttbr, []) va

def outcomeOf (g : Granule) (va : ℕ) : Option (ℕ × Option Leaf) → Outcome
  | none => .fault
  | some (_, none) => .undefined
  | some (level, some leaf) => .mapped (leafResult g va level leaf)

/-- The input bits, the table register and the input of the range that an address lies in. -/
def region (context : Stage1Context) (va : ℕ) : Option (ℕ × Option ℕ × ℕ) :=
  let bits0 := 64 - context.tcr.t0sz
  let bits1 := 64 - context.tcr.t1sz
  if va < 2 ^ bits0 then some (bits0, context.ttbr0, va)
  else if 2 ^ 64 - 2 ^ bits1 ≤ va then some (bits1, context.ttbr1, va % 2 ^ bits1)
  else none

/-- The code takes both sizes of the context. -/
def Accepted (context : Stage1Context) : Prop :=
  ∀ tsz ∈ [context.tcr.t0sz, context.tcr.t1sz], ∃ vaBits,
    vaBitsFromTsz tsz (GranuleConfig.forGranule context.tcr.granule) = .ok vaBits

def Agrees (outcome : Outcome) (out : Except TranslationError TranslationResult) : Prop :=
  match outcome with
  | .mapped result => out = .ok result
  | .fault => ∀ result, out ≠ .ok result
  | .undefined => True

/-- The walk of an address starts at the level the architecture says and returns what it says. -/
def WalkRight (memory : GuestMemory) (vm : VmId) (context : Stage1Context) (va vaBits ttbr input : ℕ) :
    Prop :=
  (∃ selected, selectTtbr context va (GranuleConfig.forGranule context.tcr.granule) = .ok selected ∧
    selected.startLevel = initialLevel context.tcr.granule vaBits) ∧
  Agrees (outcomeOf context.tcr.granule input
      (archWalk memory vm context.tcr.granule vaBits ttbr input))
    (translateArm64Stage1 memory vm context va)

/-- The first level that the granule has. -/
def firstLevel : Granule → ℕ
  | .size4K => 0
  | .size16K => 1
  | .size64K => 2

/-- The input is too large for the second level. -/
def NeedsFirstLevel (g : Granule) (vaBits : ℕ) : Prop := (radix g).shift (firstLevel g) < vaBits

/-- The first table begins at a page. -/
def PageAligned (g : Granule) (vaBits ttbr : ℕ) : Prop :=
  ttbr % 2 ^ pageBits g / 2 ^ tableBits g vaBits = 0

/-- The walk meets none of the two kinds of descriptors on which the code has its own view: a
level 1 block of the 16K granule, and on the way to a leaf a table descriptor with one of the
ignored bits 2 to 11 set. -/
structure PlainWalk (memory : GuestMemory) (vm : VmId) (g : Granule) (vaBits ttbr input : ℕ) :
    Prop where
  noBlock : g = .size16K → ∀ descriptor,
    entryAt memory vm (addressField (tableBits g vaBits) ttbr) ((radix g).index 1 input) =
      some descriptor → descriptor % 4 = 1 → reservedSet ((radix g).shift 1) descriptor
  tables : ∀ level leaf, archWalk memory vm g vaBits ttbr input = some (level, some leaf) →
    ∀ t ∈ leaf.tables, t % 2 ^ 12 / 2 ^ 2 = 0

end AegisHV.Vmi.Arm64
