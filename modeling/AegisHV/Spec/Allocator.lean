import AegisHV.Spec.Memory
import AegisHV.Lib.Run

/-! The physical page allocator (`allocator.rs` of `aegishv-hypervisor-core`): a table
of free runs and a table of the pages handed out. Every method on `&mut self` is an
`Op`, which returns the allocator it leaves behind also when it fails. -/

namespace AegisHV
open Sys

def PAGE_SIZE_4K : ℕ := 4096

structure PageAllocationConstraint where
  minAddress : ℕ
  maxAddressExclusive : ℕ

namespace PageAllocationConstraint

def new (minAddress maxAddressExclusive : ℕ) : Except CoreError PageAllocationConstraint :=
  if maxAddressExclusive ≤ minAddress then
    .error ⟨.invalidAddress, "physical allocation constraint has an empty address range"⟩
  else .ok ⟨minAddress, maxAddressExclusive⟩

def any : PageAllocationConstraint := ⟨0, 2 ^ 64 - 1⟩

end PageAllocationConstraint

def alignUp (value align : ℕ) : Except CoreError ℕ :=
  let mask := align - 1
  match checkedAdd value mask with
  | some v => .ok (v &&& complement mask)
  | none => .error ⟨.invalidAddress, "address alignment overflowed"⟩

def alignDown (value align : ℕ) : ℕ := value &&& complement (align - 1)

structure PageRun where
  start : ℕ
  count : ℕ

namespace PageRun

def empty : PageRun := ⟨0, 0⟩

/-- The source's `end`. -/
def stop (run : PageRun) : Except CoreError ℕ :=
  match checkedAdd run.start (saturatingMul run.count PAGE_SIZE_4K) with
  | some stop => .ok stop
  | none => .error ⟨.invalidAddress, "page run end address overflowed"⟩

end PageRun

structure PhysicalPageAllocator (R A : ℕ) where
  free : Table PageRun R
  allocated : Table ℕ A

namespace PhysicalPageAllocator

variable {R A : ℕ}

/-- `self.free[index].count = count` -/
def setCount (self : PhysicalPageAllocator R A) (index count : ℕ) : PhysicalPageAllocator R A :=
  { self with free := self.free.set index ⟨(self.free.get index PageRun.empty).start, count⟩ }

def setRun (self : PhysicalPageAllocator R A) (index : ℕ) (run : PageRun) :
    PhysicalPageAllocator R A :=
  { self with free := self.free.set index run }

def removeRun (self : PhysicalPageAllocator R A) (index : ℕ) : PhysicalPageAllocator R A :=
  { self with free := self.free.removeAt index PageRun.empty }

/-- Moves the runs from `index` on up by one slot and writes `run` there. -/
def insertRun (self : PhysicalPageAllocator R A) (index : ℕ) (run : PageRun) :
    PhysicalPageAllocator R A :=
  { self with free := self.free.insertAt index run }

def mergedCount (left right : ℕ) : Except CoreError ℕ :=
  match checkedAdd left right with
  | some count => .ok count
  | none => .error ⟨.invalidAddress, "physical allocator page-run count overflowed"⟩

def freeListOverlaps : CoreError := ⟨.overlap, "physical allocator free list overlaps"⟩

/-- Whether `run` starts where the run before `index` ends. -/
def mergeLeft (self : PhysicalPageAllocator R A) (index : ℕ) (run : PageRun) :
    Except CoreError Bool :=
  if 0 < index then do
    let previousEnd ← (self.free.get (index - 1) PageRun.empty).stop
    if run.start < previousEnd then .error freeListOverlaps
    else pure (previousEnd = run.start)
  else pure false

/-- Whether `run` ends where the run at `index` starts. -/
def mergeRight (self : PhysicalPageAllocator R A) (index : ℕ) (runEnd : ℕ) :
    Except CoreError Bool :=
  if index < self.free.len then
    if (self.free.get index PageRun.empty).start < runEnd then .error freeListOverlaps
    else pure (runEnd = (self.free.get index PageRun.empty).start)
  else pure false

def insertFreeRun (run : PageRun) : Op (PhysicalPageAllocator R A) CoreError Unit :=
  if run.count = 0 then pure ()
  else do
    let runEnd ← Op.lift run.stop
    let self ← Op.read
    -- `while index < free_len && free[index].start < run.start { index += 1 }`
    let index := self.free.toList.findIdx fun r => !decide (r.start < run.start)
    let left ← Op.lift (self.mergeLeft index run)
    let right ← Op.lift (self.mergeRight index runEnd)
    let previous := self.free.get (index - 1) PageRun.empty
    let next := self.free.get index PageRun.empty
    match left, right with
    | true, true => do
      let count ← Op.lift (mergedCount previous.count run.count)
      let count ← Op.lift (mergedCount count next.count)
      Op.write ((self.setCount (index - 1) count).removeRun index)
    | true, false => do
      let count ← Op.lift (mergedCount previous.count run.count)
      Op.write (self.setCount (index - 1) count)
    | false, true => do
      let count ← Op.lift (mergedCount run.count next.count)
      Op.write (self.setRun index ⟨run.start, count⟩)
    | false, false =>
      if R ≤ self.free.len then
        Op.fail ⟨.capacityExceeded, "physical allocator free-run table is full"⟩
      else Op.write (self.insertRun index run)

/-- One usable region's turn of the loop in `from_memory_map`. -/
def insertRegion (self : PhysicalPageAllocator R A) (region : MemoryRegion) :
    Except CoreError (PhysicalPageAllocator R A) := do
  let start ← alignUp region.base PAGE_SIZE_4K
  let regionEnd ← region.stop
  let stop := alignDown regionEnd PAGE_SIZE_4K
  if stop ≤ start then pure self
  else
    match (insertFreeRun ⟨start, (stop - start) / PAGE_SIZE_4K⟩).run self with
    | (.ok (), self') => pure self'
    | (.error e, _) => .error e

def fromMemoryMap {M : ℕ} (map : MemoryMap M) : Except CoreError (PhysicalPageAllocator R A) :=
  map.usableRegions.foldlM insertRegion
    { free := Table.replicate R PageRun.empty, allocated := Table.replicate A 0 }

def freePages (self : PhysicalPageAllocator R A) : ℕ := (self.free.toList.map PageRun.count).sum

def allocatedPages (self : PhysicalPageAllocator R A) : ℕ := self.allocated.len

/-- The two passes of `reserve_range` before it changes anything. -/
def checkReservation (self : PhysicalPageAllocator R A) (start stop : ℕ) :
    Except CoreError Unit := do
  self.allocated.toList.forM fun page =>
    if page < stop ∧ start < page + PAGE_SIZE_4K then
      .error ⟨.overlap, "physical reservation overlaps an allocated page"⟩
    else pure ()
  self.free.toList.forM fun run => do
    let runEnd ← run.stop
    if run.start < start ∧ stop < runEnd ∧ R ≤ self.free.len then
      .error ⟨.capacityExceeded, "physical allocator cannot split a free run for a reservation"⟩
    else pure ()

/-- The loop of `reserve_range`. Each turn brings `index` closer to the end of the table, so
its length is enough fuel. -/
def reserveLoop (start stop : ℕ) : ℕ → ℕ → Op (PhysicalPageAllocator R A) CoreError Unit
  | 0, _ => pure ()
  | fuel + 1, index => do
    let self ← Op.read
    if index < self.free.len then do
      let run := self.free.get index PageRun.empty
      let runEnd ← Op.lift run.stop
      if stop ≤ run.start then pure ()
      else if runEnd ≤ start then reserveLoop start stop fuel (index + 1)
      else
        let leftCount := if run.start < start then (start - run.start) / PAGE_SIZE_4K else 0
        let rightCount := if stop < runEnd then (runEnd - stop) / PAGE_SIZE_4K else 0
        match leftCount, rightCount with
        | 0, 0 => do
          Op.write (self.removeRun index)
          reserveLoop start stop fuel index
        | 0, right => do
          Op.write (self.setRun index ⟨stop, right⟩)
          reserveLoop start stop fuel (index + 1)
        | left, 0 => do
          Op.write (self.setCount index left)
          reserveLoop start stop fuel (index + 1)
        | left, right => do
          Op.write ((self.insertRun (index + 1) ⟨stop, right⟩).setCount index left)
          reserveLoop start stop fuel (index + 2)
    else pure ()

def reserveRange (base length : ℕ) : Op (PhysicalPageAllocator R A) CoreError ℕ :=
  if length = 0 then
    Op.fail ⟨.invalidAddress, "physical reservation has an empty address range"⟩
  else
    match checkedAdd base length with
    | none => Op.fail ⟨.invalidAddress, "physical reservation end address overflowed"⟩
    | some rawEnd => do
      let start := alignDown base PAGE_SIZE_4K
      let stop ← Op.lift (alignUp rawEnd PAGE_SIZE_4K)
      let self ← Op.read
      Op.lift (self.checkReservation start stop)
      reserveLoop start stop self.free.len 0
      let self' ← Op.read
      pure (self.freePages - self'.freePages)

def takePageFromRun (index page runEnd : ℕ) : Op (PhysicalPageAllocator R A) CoreError Unit := do
  let self ← Op.read
  let run := self.free.get index PageRun.empty
  let pageEnd := page + PAGE_SIZE_4K
  let beforeCount := (page - run.start) / PAGE_SIZE_4K
  let afterCount := (runEnd - pageEnd) / PAGE_SIZE_4K
  match beforeCount, afterCount with
  | 0, 0 => Op.write (self.removeRun index)
  | 0, after => Op.write (self.setRun index ⟨pageEnd, after⟩)
  | before, 0 => Op.write (self.setCount index before)
  | before, after =>
    if R ≤ self.free.len then
      Op.fail ⟨.capacityExceeded, "physical allocator cannot split a free run at the requested page"⟩
    else Op.write ((self.insertRun (index + 1) ⟨pageEnd, after⟩).setCount index before)

/-- The page `allocate_within` can take from one run, with the end of the run. -/
def candidateIn (constraint : PageAllocationConstraint) (run : PageRun) :
    Except CoreError (Option (ℕ × ℕ)) := do
  let runEnd ← run.stop
  let candidate ← alignUp (max run.start constraint.minAddress) PAGE_SIZE_4K
  match checkedAdd candidate PAGE_SIZE_4K with
  | none => pure none
  | some candidateEnd =>
    if candidateEnd ≤ min runEnd constraint.maxAddressExclusive then
      pure (some (candidate, runEnd))
    else pure none

/-- The search of `allocate_within`: the first run with room for a page inside the constraint,
as its index, the page and the end of the run. -/
def selectPage (constraint : PageAllocationConstraint) :
    List PageRun → ℕ → Except CoreError (Option (ℕ × ℕ × ℕ))
  | [], _ => pure none
  | run :: rest, index => do
    match ← candidateIn constraint run with
    | some (candidate, runEnd) => pure (some (index, candidate, runEnd))
    | none => selectPage constraint rest (index + 1)

def allocateWithin (constraint : PageAllocationConstraint) :
    Op (PhysicalPageAllocator R A) CoreError HostPhysical :=
  if constraint.maxAddressExclusive ≤ constraint.minAddress then
    Op.fail ⟨.invalidAddress, "physical allocation constraint has an empty address range"⟩
  else do
    let self ← Op.read
    if A ≤ self.allocated.len then
      Op.fail ⟨.capacityExceeded, "physical allocator allocation tracking table is full"⟩
    else
      match ← Op.lift (selectPage constraint self.free.toList 0) with
      | none =>
        Op.fail
          ⟨.outOfMemory, "physical allocator has no free 4K page in the requested address range"⟩
      | some (index, page, runEnd) => do
        takePageFromRun index page runEnd
        let self ← Op.read
        Op.write { self with allocated := self.allocated.push page }
        Op.lift (HostPhysical.new page)

def allocate : Op (PhysicalPageAllocator R A) CoreError HostPhysical :=
  allocateWithin PageAllocationConstraint.any

def freePage (page : HostPhysical) : Op (PhysicalPageAllocator R A) CoreError Unit :=
  if page.raw % PAGE_SIZE_4K ≠ 0 then
    Op.fail ⟨.invalidAddress, "physical page free address is not 4K aligned"⟩
  else do
    let self ← Op.read
    match self.allocated.toList.findIdx? (· = page.raw) with
    | none => Op.fail ⟨.doubleFree, "physical page was not allocated by this allocator"⟩
    | some index => do
      insertFreeRun ⟨page.raw, 1⟩
      let self ← Op.read
      Op.write { self with allocated := self.allocated.removeAt index 0 }

/-- The zeroer is the caller's; `zeroPage` is what it answers in this call. -/
def allocateZeroed (zeroPage : HostPhysical → Except CoreError Unit) :
    Op (PhysicalPageAllocator R A) CoreError HostPhysical := do
  let page ← allocate
  match zeroPage page with
  | .error err => do
    freePage page
    Op.fail err
  | .ok () => pure page

inductive Call
  | reserveRange (base length : ℕ)
  | allocate
  | allocateWithin (constraint : PageAllocationConstraint)
  | allocateZeroed (zeroPage : HostPhysical → Except CoreError Unit)
  | free (page : HostPhysical)

inductive Reply
  | removed (pages : ℕ)
  | page (page : HostPhysical)
  | freed
  | failed (error : CoreError)

def step (self : PhysicalPageAllocator R A) : Call → Reply × PhysicalPageAllocator R A
  | .reserveRange base length => (reserveRange base length).reply .removed .failed self
  | .allocate => allocate.reply .page .failed self
  | .allocateWithin constraint => (allocateWithin constraint).reply .page .failed self
  | .allocateZeroed zeroPage => (allocateZeroed zeroPage).reply .page .failed self
  | .free page => (freePage page).reply (fun _ => .freed) .failed self

end PhysicalPageAllocator
end AegisHV
