import AegisHV.Lib.Op
import AegisHV.Lib.Run
import AegisHV.Spec.Memory

/-! Who owns which host pages (`ownership.rs` of `aegishv-hypervisor-core`). The fields of a
`PageRange` are public, so a range need not be one that `new` accepts. -/

namespace AegisHV
open Sys

def OWNER_PAGE_SIZE : ℕ := 4096

@[ext] structure DeviceId where
  raw : ℕ
  raw_ne : raw ≠ 0
  raw_lt : raw < 2 ^ 32

instance : DecidableEq DeviceId := fun a b => decidable_of_iff (a.raw = b.raw) DeviceId.ext_iff.symm

inductive PageOwner
  | free
  | reserved
  | hypervisor
  | vm (id : VmId)
  | device (id : DeviceId)
  deriving DecidableEq

def HostPhysical.checkedAdd (self : HostPhysical) (value : ℕ) : Except CoreError HostPhysical :=
  if h : self.raw + value < 2 ^ 64 - 1 then .ok ⟨self.raw + value, h⟩
  else .error ⟨.invalidAddress, "host physical address addition overflowed"⟩

structure PageRange where
  start : HostPhysical
  length : ℕ
  deriving DecidableEq

namespace PageRange

def new (start : HostPhysical) (length : ℕ) : Except CoreError PageRange := do
  failIf (length = 0 || start.raw % OWNER_PAGE_SIZE != 0 || length % OWNER_PAGE_SIZE != 0)
    ⟨.invalidAddress, "page ownership ranges must be non-empty and 4K aligned"⟩
  let _ ← start.checkedAdd length
  pure ⟨start, length⟩

/-- The source's `end`. -/
def stop (self : PageRange) : Except CoreError ℕ := do
  let stop ← self.start.checkedAdd self.length
  pure stop.raw

def contains (self : PageRange) (address : ℕ) : Except CoreError Bool :=
  if self.start.raw ≤ address then do
    let stop ← self.stop
    pure (address < stop)
  else pure false

def overlaps (self other : PageRange) : Except CoreError Bool := do
  let stop ← other.stop
  if self.start.raw < stop then do
    let stop ← self.stop
    pure (other.start.raw < stop)
  else pure false

end PageRange

structure PageOwnership where
  range : PageRange
  owner : PageOwner
  deriving DecidableEq

/-- The slots of a table of `N` that are in use. -/
structure PageOwnershipTable (N : ℕ) where
  entries : List PageOwnership
  fits : entries.length ≤ N

namespace PageOwnershipTable

variable {N : ℕ}

def new (N : ℕ) : PageOwnershipTable N := ⟨[], Nat.zero_le N⟩

/-- The loop of `assign` over the entries. -/
def rejectOverlap (range : PageRange) (entry : PageOwnership) : Except CoreError Unit := do
  let overlaps ← entry.range.overlaps range
  failIf overlaps ⟨.overlap, "page ownership ranges must not overlap"⟩

def assign (range : PageRange) (owner : PageOwner) :
    Op (PageOwnershipTable N) CoreError Unit := do
  let self ← Op.read
  if h : N ≤ self.entries.length then
    Op.fail ⟨.capacityExceeded, "page ownership table is full"⟩
  else
    Op.lift (self.entries.forM (rejectOverlap range))
    Op.write ⟨self.entries ++ [⟨range, owner⟩], by simpa using Nat.not_le.1 h⟩

/-- The first entry that contains the address. -/
def find (address : ℕ) : List PageOwnership → Except CoreError (Option PageOwnership)
  | [] => pure none
  | entry :: entries => do
    let found ← entry.range.contains address
    if found then pure (some entry) else find address entries

def ownerAt (self : PageOwnershipTable N) (address : HostPhysical) :
    Except CoreError (Option PageOwner) := do
  let entry ← find address.raw self.entries
  pure (entry.map PageOwnership.owner)

def unowned : CoreError := ⟨.permissionViolation, "guest mapping references unowned host pages"⟩

/-- The loop of `validate_guest_host_mapping`. A turn moves the cursor, so the length of the range
is turns enough. -/
def coverFrom (self : PageOwnershipTable N) (vmId : VmId) (stop : ℕ) :
    ℕ → ℕ → Except CoreError Unit
  | 0, _ => pure ()
  | turns + 1, cursor =>
    if cursor < stop then do
      let entry ← okOr (← find cursor self.entries) unowned
      failIf (entry.owner != .vm vmId)
        ⟨.permissionViolation, "guest mapping references a page not owned by that VM"⟩
      let covered ← entry.range.stop
      let next := min covered stop
      if cursor < next then coverFrom self vmId stop turns next else .error unowned
    else pure ()

def validateGuestHostMapping (self : PageOwnershipTable N) (vmId : VmId)
    (hostStart : HostPhysical) (length : ℕ) : Except CoreError Unit := do
  let requested ← PageRange.new hostStart length
  let stop ← requested.stop
  coverFrom self vmId stop length hostStart.raw

/-- One call of `assign`. -/
def step (self : PageOwnershipTable N) (call : PageRange × PageOwner) :
    Except CoreError Unit × PageOwnershipTable N :=
  (assign call.1 call.2).run self

end PageOwnershipTable

end AegisHV
