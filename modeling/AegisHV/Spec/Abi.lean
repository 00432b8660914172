import AegisHV.Lib.Op
import AegisHV.Lib.Ring
import AegisHV.Lib.Word
import AegisHV.Spec.Memory

/-! The event and command rings of the hypervisor ABI (`abi.rs` of `aegishv-hypervisor-core`).
The event ring overwrites its oldest record when it is full; the command ring refuses. -/

namespace AegisHV
open Sys

def coreAbiVersion : ℕ := 1

inductive EventKind
  | boot
  | crash
  | vmState
  | vcpuState
  | trap
  | loss
  deriving DecidableEq

structure EventRecord where
  abiVersion : ℕ
  sequence : ℕ
  kind : EventKind
  vmId : Option VmId
  vcpuId : Option VcpuId
  arg0 : ℕ
  arg1 : ℕ
  deriving DecidableEq

def EventRecord.empty : EventRecord := ⟨coreAbiVersion, 0, .boot, none, none, 0, 0⟩

structure EventRing (N : ℕ) where
  entries : Ring EventRecord N
  nextSequence : ℕ
  dropped : ℕ

namespace EventRing

variable {N : ℕ}

def new (N : ℕ) : EventRing N := ⟨Ring.replicate N .empty, 1, 0⟩

/-- `dropped` is a plain `u64` sum, so it would wrap. -/
def pushLossy (kind : EventKind) (vmId : Option VmId) (vcpuId : Option VcpuId) (arg0 arg1 : ℕ) :
    Op (EventRing N) CoreError EventRecord :=
  if N = 0 then Op.fail ⟨.capacityExceeded, "event ring capacity must be positive"⟩
  else do
    let self ← Op.read
    let record : EventRecord := ⟨coreAbiVersion, self.nextSequence, kind, vmId, vcpuId, arg0, arg1⟩
    let next ← Op.lift (okOr (checkedAdd self.nextSequence 1)
      ⟨.invalidState, "event ring sequence counter overflowed"⟩)
    if self.entries.len = N then
      Op.write ⟨(self.entries.setFront record).turn, next, wrappingAdd self.dropped 1⟩
    else Op.write ⟨self.entries.pushBack record, next, self.dropped⟩
    pure record

def pop (self : EventRing N) : Option EventRecord × EventRing N :=
  (self.entries.pop.1, { self with entries := self.entries.pop.2 })

inductive Call
  | pushLossy (kind : EventKind) (vmId : Option VmId) (vcpuId : Option VcpuId) (arg0 arg1 : ℕ)
  | pop

inductive Reply
  | pushed (record : EventRecord)
  | popped (record : Option EventRecord)
  | failed (error : CoreError)

def step (self : EventRing N) : Call → Reply × EventRing N
  | .pushLossy kind vmId vcpuId arg0 arg1 =>
      (pushLossy kind vmId vcpuId arg0 arg1).reply .pushed .failed self
  | .pop => (.popped self.pop.1, self.pop.2)

end EventRing

inductive CommandKind
  | pauseVm
  | resumeVm
  | stopVm
  | dumpState

namespace CommandKind

def fromRaw : ℕ → Except CoreError CommandKind
  | 1 => .ok .pauseVm
  | 2 => .ok .resumeVm
  | 3 => .ok .stopVm
  | 4 => .ok .dumpState
  | _ => .error ⟨.unknownCommand, "control-plane command code is not supported by this ABI"⟩

def raw : CommandKind → ℕ
  | .pauseVm => 1
  | .resumeVm => 2
  | .stopVm => 3
  | .dumpState => 4

end CommandKind

structure CommandRecord where
  abiVersion : ℕ
  sequence : ℕ
  kind : CommandKind
  vmId : VmId
  arg0 : ℕ
  arg1 : ℕ

def CommandRecord.empty : CommandRecord := ⟨coreAbiVersion, 0, .dumpState, VmId.one, 0, 0⟩

structure CommandRing (N : ℕ) where
  entries : Ring CommandRecord N
  nextSequence : ℕ

namespace CommandRing

variable {N : ℕ}

def new (N : ℕ) : CommandRing N := ⟨Ring.replicate N .empty, 1⟩

def push (kind : CommandKind) (vmId : VmId) (arg0 arg1 : ℕ) :
    Op (CommandRing N) CoreError CommandRecord := do
  let self ← Op.read
  if N = 0 ∨ self.entries.len = N then Op.fail ⟨.ringFull, "command ring is full"⟩
  else
    let record : CommandRecord := ⟨coreAbiVersion, self.nextSequence, kind, vmId, arg0, arg1⟩
    let next ← Op.lift (okOr (checkedAdd self.nextSequence 1)
      ⟨.invalidState, "command ring sequence counter overflowed"⟩)
    Op.write ⟨self.entries.pushBack record, next⟩
    pure record

def pushRaw (rawKind : ℕ) (vmId : VmId) (arg0 arg1 : ℕ) :
    Op (CommandRing N) CoreError CommandRecord := do
  let kind ← Op.lift (CommandKind.fromRaw rawKind)
  push kind vmId arg0 arg1

def pop (self : CommandRing N) : Option CommandRecord × CommandRing N :=
  (self.entries.pop.1, { self with entries := self.entries.pop.2 })

inductive Call
  | push (kind : CommandKind) (vmId : VmId) (arg0 arg1 : ℕ)
  | pushRaw (rawKind : ℕ) (vmId : VmId) (arg0 arg1 : ℕ)
  | pop

inductive Reply
  | pushed (record : CommandRecord)
  | popped (record : Option CommandRecord)
  | failed (error : CoreError)

def step (self : CommandRing N) : Call → Reply × CommandRing N
  | .push kind vmId arg0 arg1 => (push kind vmId arg0 arg1).reply .pushed .failed self
  | .pushRaw rawKind vmId arg0 arg1 => (pushRaw rawKind vmId arg0 arg1).reply .pushed .failed self
  | .pop => (.popped self.pop.1, self.pop.2)

end CommandRing
end AegisHV
