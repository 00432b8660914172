import AegisHV.Lib.Bytes
import AegisHV.Lib.Op
import AegisHV.Lib.Text
import AegisHV.Lib.Word

/-! Guest memory introspection (`vmi.rs`, `vmi/error.rs`, `vmi/memory.rs`): the memory of a guest
as the page walkers read it, the result of a translation and its errors. -/

namespace AegisHV.Vmi

open Sys

abbrev VmId := ℕ

inductive BackendError where
  | unsupported (backend operation : String)
  | degraded (reason : String)
  | inconsistentSnapshot (detail : String)
  | permissionDenied (operation detail : String)
  | temporarilyUnavailable (resource detail : String)
  | failure (detail : String)
  deriving DecidableEq

def BackendError.withContext (context : String) : BackendError → BackendError
  | .unsupported backend operation => .unsupported backend operation
  | .degraded reason => .degraded s!"{context}: {reason}"
  | .inconsistentSnapshot detail => .inconsistentSnapshot s!"{context}: {detail}"
  | .permissionDenied operation detail => .permissionDenied operation s!"{context}: {detail}"
  | .temporarilyUnavailable resource detail =>
    .temporarilyUnavailable resource s!"{context}: {detail}"
  | .failure detail => .failure s!"{context}: {detail}"

def BackendError.display : BackendError → String
  | .unsupported backend operation =>
    s!"operation '{operation}' is unsupported by backend '{backend}'"
  | .degraded reason => s!"degraded: {reason}"
  | .inconsistentSnapshot detail => s!"inconsistent snapshot: {detail}"
  | .permissionDenied operation detail => s!"operation '{operation}' is not permitted: {detail}"
  | .temporarilyUnavailable resource detail => s!"resource '{resource}' is unavailable: {detail}"
  | .failure detail => s!"backend error: {detail}"

inductive MemoryReadError where
  | backend (error : BackendError)
  | invalidAddress (gpa len : ℕ)
  | invalidRange (gpa len : ℕ)
  | missingMemory (gpa len : ℕ)
  | unmapped (gpa len : ℕ)
  | malformed (detail : String)

def MemoryReadError.display : MemoryReadError → String
  | .backend error => error.display
  | .invalidAddress gpa len =>
    "invalid guest physical address range gpa=" ++ hex gpa ++ s!" len={len}"
  | .invalidRange gpa len =>
    "invalid guest physical memory range gpa=" ++ hex gpa ++ s!" len={len}"
  | .missingMemory gpa len =>
    "guest physical memory is unavailable gpa=" ++ hex gpa ++ s!" len={len}"
  | .unmapped gpa len =>
    "guest physical memory range is unmapped gpa=" ++ hex gpa ++ s!" len={len}"
  | .malformed detail => s!"memory snapshot manifest is malformed: {detail}"

inductive TranslationError where
  | backend (error : BackendError)
  | missingContext (field : String)
  | invalidAddress (gva : ℕ)
  | notPresent (level : String) (gva : ℕ)
  | missingMemory (gpa : ℕ) (detail : String)
  | translationFailed (gva : ℕ) (detail : String)
  | malformedPageTables (level detail : String)
  deriving DecidableEq

structure TranslationResult where
  gpa : ℕ
  readable : Bool
  writable : Bool
  executable : Bool
  user : Bool
  pageSize : ℕ
  deriving DecidableEq

/-- `read_physical` of a memory source, with a buffer of eight bytes: the number of bytes it read
and what the buffer then holds. -/
abbrev GuestMemory := VmId → ℕ → Except MemoryReadError (ℕ × Vector UInt8 8)

/-- How an error of the memory source is reported by a page walk. -/
def readError (gpa : ℕ) (level : String) : MemoryReadError → TranslationError
  | .backend error => .backend (error.withContext s!"cannot read {level}")
  | .malformed detail => .malformedPageTables level s!"memory source is malformed: {detail}"
  | error => .missingMemory gpa (s!"cannot read {level}: " ++ error.display)

def readTableEntry (memory : GuestMemory) (vm : VmId) (tableBase index : ℕ) (level : String) :
    Except TranslationError ℕ := do
  let gpa ← okOr ((checkedMul index 8).bind fun offset => checkedAdd tableBase offset)
    (.malformedPageTables level "page-table entry address overflowed")
  let (read, bytes) ← (memory vm gpa).mapError (readError gpa level)
  failIf (read != 8) (.missingMemory gpa
    s!"short read while reading {level}: read {read} of 8 bytes")
  return fromLe bytes.toList

/-- The eight bytes of an entry in memory. -/
def entryAt (memory : GuestMemory) (vm : VmId) (tableBase index : ℕ) : Option ℕ :=
  (readTableEntry memory vm tableBase index "").toOption

/-- The level in the errors is all that the name of a level is for. -/
theorem toOption_readTableEntry (memory : GuestMemory) (vm : VmId) (base index : ℕ)
    (name : String) :
    (readTableEntry memory vm base index name).toOption = entryAt memory vm base index := by
  simp only [entryAt, readTableEntry, toOption_bind, toOption_okOr, toOption_mapError,
    toOption_failIf]

end AegisHV.Vmi
