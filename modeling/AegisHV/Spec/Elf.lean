import AegisHV.Lib.Bytes
import AegisHV.Lib.Op
import AegisHV.Lib.Word

/-! The loader of static ELF64 images (`elf.rs` of `aegishv-type1-kernel`). Indexing out
of bounds and overflow of a plain `+`, `-` or `*` are a fault of their own, apart from
the loader's errors. -/

namespace AegisHV.Elf
open Sys

def READ : ℕ := 4

inductive LoadError
  | header | machine | range | alignment | permissions | overlap | entry | dynamic

inductive Fault
  | error (e : LoadError)
  | panic

/-- The two slices the loader is given. -/
structure Guest where
  memory : List UInt8
  permissions : List UInt8

def fail {α : Type} (e : LoadError) : Except Fault α := .error (.error e)

def orPanic {α : Type} : Option α → Except Fault α
  | some a => .ok a
  | none => .error .panic

def orElse {α : Type} (e : LoadError) : Option α → Except Fault α
  | some a => .ok a
  | none => fail e

/-- `if condition { return Err(e) }` -/
def reject (e : LoadError) (condition : Bool) : Except Fault Unit :=
  if condition then fail e else .ok ()

def uintAt (width : ℕ) (bytes : List UInt8) (offset : ℕ) : Except Fault ℕ := do
  let field ← orPanic (slice bytes offset (offset + width))
  pure (fromLe field)

def u16At : List UInt8 → ℕ → Except Fault ℕ := uintAt 2

def u32At : List UInt8 → ℕ → Except Fault ℕ := uintAt 4

def u64At : List UInt8 → ℕ → Except Fault ℕ := uintAt 8

def isPowerOfTwo (n : ℕ) : Bool := n != 0 && 2 ^ n.log2 == n

/-- The first two tests of `load`; `||` stops at the first one that fails. -/
def checkFile (image : List UInt8) (machine : ℕ) : Except Fault Unit := do
  reject .header (image.length < 64)
  reject .header ((← orPanic (slice image 0 7)) != [0x7f, 0x45, 0x4c, 0x46, 2, 1, 1])
  reject .header ((← u16At image 16) != 2)
  reject .header ((← u32At image 20) != 1)
  reject .header ((← u16At image 52) != 64)
  reject .header ((← u16At image 54) != 56)
  reject .machine ((← u16At image 18) != machine)

def checkGuest (base : ℕ) (guest : Guest) : Except Fault Unit := do
  reject .range (base &&& 4095 != 0)
  reject .range guest.permissions.isEmpty
  reject .range (32 < guest.permissions.length)
  reject .range (guest.memory.length != (← orPanic (checkedMul guest.permissions.length 4096)))
  reject .range (checkedAdd base guest.memory.length).isNone

/-- The bytes of the program headers. -/
def headerTable (image : List UInt8) : Except Fault (List UInt8) := do
  let offset ← u64At image 32
  let count ← u16At image 56
  reject .header (count == 0 || 128 < count)
  let size ← orPanic (checkedMul count 56)
  let stop ← orElse .header (checkedAdd offset size)
  orElse .header (slice image offset stop)

/-- The loop over the pages of one segment. -/
def markPages (flags : UInt8) : List UInt8 → Except Fault (List UInt8)
  | [] => pure []
  | page :: rest => do
    if page ≠ 0 then fail .overlap
    else
      let rest ← markPages flags rest
      pure (flags :: rest)

/-- The locals of the first loop. -/
structure Scan where
  pageFlags : List UInt8
  entryValid : Bool

/-- What the first loop does with a segment it has found in range: it marks the segment's pages
and looks for the entry point in its file bytes. -/
def markSegment (entry flags address filesz start stop : ℕ) (scan : Scan) : Except Fault Scan := do
  let upper ← orPanic (checkedAdd stop 4095)
  let pages ← orPanic (slice scan.pageFlags (start / 4096) (upper / 4096))
  let marked ← markPages (UInt8.ofNat flags) pages
  let pageFlags := splice scan.pageFlags (start / 4096) marked
  if flags &&& 1 != 0 && address ≤ entry then
    let fileEnd ← orPanic (checkedAdd address filesz)
    pure { pageFlags, entryValid := scan.entryValid || entry < fileEnd }
  else pure { scan with pageFlags }

/-- A `PT_LOAD` header's turn of the first loop. -/
def scanSegment (image : List UInt8) (base memoryLen entry : ℕ) (scan : Scan)
    (header : List UInt8) : Except Fault Scan := do
  let flags ← u32At header 4
  let file ← u64At header 8
  let address ← u64At header 16
  let filesz ← u64At header 32
  let memsz ← u64At header 40
  let align ← u64At header 48
  reject .alignment (address != (← u64At header 24))
  reject .alignment (address &&& 4095 != 0)
  reject .alignment (file &&& 4095 != 0)
  reject .alignment
    (1 < align && (!isPowerOfTwo align || address % align != file % align))
  reject .permissions
    (flags &&& complementOf 32 7 != 0 || flags &&& READ == 0 || flags &&& 3 == 3)
  reject .range (memsz < filesz)
  if memsz = 0 then pure scan
  else
    let start ← orElse .range (checkedSub address base)
    let stop ← orElse .range (checkedAdd start memsz)
    reject .range (memoryLen < stop || memsz < filesz ||
      !(checkedAdd file filesz).any (· ≤ image.length))
    markSegment entry flags address filesz start stop scan

/-- One turn of the first loop. -/
def scanHeader (image : List UInt8) (base memoryLen entry : ℕ) (scan : Scan)
    (header : List UInt8) : Except Fault Scan := do
  let kind ← u32At header 0
  if kind = 2 ∨ kind = 3 then fail .dynamic
  else if kind = 1 then scanSegment image base memoryLen entry scan header
  else pure scan

/-- One turn of the second loop. -/
def copySegment (image : List UInt8) (base : ℕ) (header : List UInt8) : Op Guest Fault Unit := do
  let kind ← Op.lift (u32At header 0)
  if kind ≠ 1 then pure ()
  else
    let memsz ← Op.lift (u64At header 40)
    if memsz = 0 then pure ()
    else
      let file ← Op.lift (u64At header 8)
      let size ← Op.lift (u64At header 32)
      let address ← Op.lift (u64At header 16)
      let target ← Op.lift (orPanic (checkedSub address base))
      let targetEnd ← Op.lift (orPanic (checkedAdd target size))
      let fileEnd ← Op.lift (orPanic (checkedAdd file size))
      let bytes ← Op.lift (orPanic (slice image file fileEnd))
      let guest ← Op.read
      let _ ← Op.lift (orPanic (slice guest.memory target targetEnd))
      Op.write { guest with memory := splice guest.memory target bytes }

def load (image : List UInt8) (machine base : ℕ) : Op Guest Fault ℕ := do
  Op.lift (checkFile image machine)
  let guest ← Op.read
  Op.lift (checkGuest base guest)
  let entry ← Op.lift (u64At image 24)
  let headers ← Op.lift (headerTable image)
  let scan ← Op.lift
    ((chunksExact 56 headers).foldlM (scanHeader image base guest.memory.length entry)
      { pageFlags := List.replicate 32 0, entryValid := false })
  if !scan.entryValid then Op.fail (.error .entry)
  else
    Op.write { guest with memory := List.replicate guest.memory.length 0 }
    let flags ← Op.lift (orPanic (slice scan.pageFlags 0 guest.permissions.length))
    let guest ← Op.read
    Op.write { guest with permissions := flags }
    (chunksExact 56 headers).forM (copySegment image base)
    pure entry

end AegisHV.Elf
