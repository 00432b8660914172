import AegisHV.Lib.Ring
import AegisHV.Spec.Memory

/-! The vCPU scheduler (`scheduler.rs` of `aegishv-hypervisor-core`): a circular run queue, one
running slot for each physical CPU, and a table of halted vCPUs. -/

namespace AegisHV
open Sys

structure VcpuRef where
  vmId : VmId
  vcpuId : VcpuId
  deriving DecidableEq

inductive VcpuRunState
  | runnable
  | running (pcpu : PhysicalCpuId)
  | halted

structure VcpuScheduler (Q P : ℕ) where
  queue : Ring (Option VcpuRef) Q
  running : Fin P → Option VcpuRef
  halted : Table (Option VcpuRef) Q

namespace VcpuScheduler

variable {Q P : ℕ}

def new (Q P : ℕ) : VcpuScheduler Q P :=
  ⟨Ring.replicate Q none, fun _ => none, Table.replicate Q none⟩

def contains (self : VcpuScheduler Q P) (vcpu : VcpuRef) : Bool :=
  self.queue.slots.any (· == some vcpu) ||
    (List.finRange P).any (fun index => self.running index == some vcpu) ||
    self.halted.slots.toList.any (· == some vcpu)

def pushQueue (vcpu : VcpuRef) : Op (VcpuScheduler Q P) CoreError Unit := do
  let self ← Op.read
  if self.queue.len = Q then Op.fail ⟨.ringFull, "vCPU run queue is full"⟩
  else Op.write { self with queue := self.queue.pushBack (some vcpu) }

def enqueue (vcpu : VcpuRef) : Op (VcpuScheduler Q P) CoreError Unit := do
  let self ← Op.read
  if self.contains vcpu then
    Op.fail ⟨.invalidState, "vCPU is already queued, running, or halted"⟩
  else pushQueue vcpu

def popQueue : Op (VcpuScheduler Q P) CoreError (Option VcpuRef) := do
  let self ← Op.read
  if self.queue.len = 0 then pure none
  else
    Op.write { self with queue := (self.queue.setFront none).advance }
    pure self.queue.front.join

def outsideTable : CoreError :=
  ⟨.invalidId, "physical CPU is outside the scheduler mapping table"⟩

def scheduleOn (pcpu : PhysicalCpuId) : Op (VcpuScheduler Q P) CoreError (Option VcpuRef) :=
  if h : pcpu.raw < P then do
    let self ← Op.read
    if (self.running ⟨pcpu.raw, h⟩).isSome then
      Op.fail ⟨.invalidState, "physical CPU already has a running vCPU"⟩
    else
      match ← popQueue with
      | none => pure none
      | some vcpu => do
        let self ← Op.read
        Op.write { self with running := Function.update self.running ⟨pcpu.raw, h⟩ (some vcpu) }
        pure (some vcpu)
  else Op.fail outsideTable

def haltRunning (pcpu : PhysicalCpuId) : Op (VcpuScheduler Q P) CoreError VcpuRef :=
  if h : pcpu.raw < P then do
    let self ← Op.read
    match self.running ⟨pcpu.raw, h⟩ with
    | none => Op.fail ⟨.invalidState, "physical CPU has no running vCPU to halt"⟩
    | some vcpu =>
      if self.halted.len = Q then Op.fail ⟨.capacityExceeded, "halted vCPU table is full"⟩
      else do
        Op.write { self with
          halted := self.halted.push (some vcpu)
          running := Function.update self.running ⟨pcpu.raw, h⟩ none }
        pure vcpu
  else Op.fail outsideTable

def wake (vcpu : VcpuRef) : Op (VcpuScheduler Q P) CoreError Unit := do
  let self ← Op.read
  match self.halted.toList.findIdx? (· == some vcpu) with
  | none => Op.fail ⟨.invalidState, "vCPU is not halted"⟩
  | some index => do
    pushQueue vcpu
    let self ← Op.read
    Op.write { self with halted := self.halted.removeAt index none }

/-- A slot's index is cast to `u16`, and an index that is no CPU id ends the search. -/
def stateOf (self : VcpuScheduler Q P) (vcpu : VcpuRef) : Option VcpuRunState :=
  if self.queue.slots.any (· == some vcpu) then some .runnable
  else
    match (List.finRange P).find? fun index => self.running index == some vcpu with
    | some index => (PhysicalCpuId.new (index.val % 2 ^ 16)).toOption.map .running
    | none => if self.halted.toList.any (· == some vcpu) then some .halted else none

inductive Call
  | enqueue (vcpu : VcpuRef)
  | scheduleOn (pcpu : PhysicalCpuId)
  | haltRunning (pcpu : PhysicalCpuId)
  | wake (vcpu : VcpuRef)

inductive Reply
  | done
  | scheduled (vcpu : Option VcpuRef)
  | halted (vcpu : VcpuRef)
  | failed (error : CoreError)

def step (self : VcpuScheduler Q P) : Call → Reply × VcpuScheduler Q P
  | .enqueue vcpu => (enqueue vcpu).reply (fun _ => .done) .failed self
  | .scheduleOn pcpu => (scheduleOn pcpu).reply .scheduled .failed self
  | .haltRunning pcpu => (haltRunning pcpu).reply .halted .failed self
  | .wake vcpu => (wake vcpu).reply (fun _ => .done) .failed self

end VcpuScheduler
end AegisHV
