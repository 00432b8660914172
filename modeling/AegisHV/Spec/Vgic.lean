import Mathlib.Data.List.MinMax
import AegisHV.Lib.Run

/-! The virtual interrupt controller (`vgic.rs` of `aegishv-arch-arm64`). The arrays of a bank are
functions on the index; every index the source forms is within them. -/

namespace AegisHV.Vgic
open Sys

/-- `1 << id` -/
def bit (id : ℕ) : BitVec 32 := 1#32 <<< id

structure Bank where
  enabled : BitVec 32
  pending : BitVec 32
  active : BitVec 32
  priority : ℕ → BitVec 8
  targets : ℕ → BitVec 8

namespace Bank

def new : Bank := ⟨0, 0, 0, fun _ => 0xa0, fun _ => 1⟩

def level (self : Bank) (id : ℕ) (asserted : Bool) : Bank :=
  if asserted then { self with pending := self.pending ||| bit id }
  else { self with pending := self.pending &&& ~~~bit id }

end Bank

structure Distributor where
  enabled : Bool
  cpus : ℕ
  shared : Bank
  cpus_le : 0 < cpus ∧ cpus ≤ 8

def Distributor.new (cpus : ℕ) (h : 0 < cpus ∧ cpus ≤ 8) : Distributor := ⟨false, cpus, .new, h⟩

structure Cpu where
  enabled : Bool
  mask : BitVec 32
  bank : Bank
  sources : ℕ → BitVec 8

def Cpu.new : Cpu := ⟨false, 0, .new, fun _ => 0⟩

/-- What one virtual CPU sees: its banked interface and the distributor. -/
structure View where
  own : Cpu
  distributor : Distributor

namespace View

/-- The bank of the CPU or the shared one. -/
def getBank (v : View) (banked : Bool) : Bank := if banked then v.own.bank else v.distributor.shared

def withBank (v : View) (banked : Bool) (f : Bank → Bank) : View :=
  if banked then { v with own := { v.own with bank := f v.own.bank } }
  else { v with distributor := { v.distributor with shared := f v.distributor.shared } }

/-- The filter of `next`. -/
def deliverable (v : View) (cpu id : ℕ) : Bool :=
  let bank := v.getBank (id < 32)
  let index := id % 32
  (bank.pending &&& bank.enabled &&& ~~~bank.active &&& bit index) != 0 &&
    decide ((bank.priority index).toNat < v.own.mask.toNat) &&
    (decide (id < 32) || (bank.targets index &&& 1#8 <<< cpu) != 0)

def priority (v : View) (id : ℕ) : ℕ := ((v.getBank (id < 32)).priority (id % 32)).toNat

def next (v : View) (cpu : ℕ) : ℕ :=
  if !v.distributor.enabled || !v.own.enabled then 1023
  else (((List.range 64).filter (v.deliverable cpu)).argmin v.priority).getD 1023

/-- The lowest bit that is set, or the width if there is none. -/
def trailingZeros (bits : BitVec 8) : ℕ := (List.range 8).findIdx bits.getLsbD

/-- Takes the lowest source of an interrupt that has one, which stays pending if there is
another. -/
def takeSource (v : View) (id source : ℕ) : View :=
  let left := v.own.sources id &&& ~~~(1#8 <<< source)
  let v := { v with own := { v.own with sources := Function.update v.own.sources id left } }
  if left != 0 then v.withBank true fun bank => { bank with pending := bank.pending ||| bit id }
  else v

/-- The read of the acknowledge register. -/
def acknowledge (v : View) (cpu : ℕ) : BitVec 32 × View :=
  let id := v.next cpu
  if id = 1023 then (1023, v)
  else
    let taken := v.withBank (id < 32) fun bank =>
      { bank with
        pending := bank.pending &&& ~~~bit (id % 32), active := bank.active ||| bit (id % 32) }
    if id < 16 ∧ v.own.sources id ≠ 0 then
      let source := trailingZeros (v.own.sources id)
      (BitVec.ofNat 32 id ||| (BitVec.ofNat 32 source <<< 10), taken.takeSource id source)
    else (BitVec.ofNat 32 id, taken)

/-- The write of the end-of-interrupt and of the deactivate register. -/
def deactivate (v : View) (value : BitVec 32) : View :=
  let id := (value &&& 1023).toNat
  if id < 64 then
    v.withBank (id < 32) fun bank => { bank with active := bank.active &&& ~~~bit (id % 32) }
  else v

/-- The registers of the CPU interface. -/
def cpuInterface (v : View) (cpu offset : ℕ) (value : Option (BitVec 32)) : BitVec 32 × View :=
  match value with
  | some value =>
    if offset = 0 then (0, { v with own := { v.own with enabled := (value &&& 1) != 0 } })
    else if offset = 4 then (0, { v with own := { v.own with mask := value &&& 255 } })
    else if offset = 0x10 ∨ offset = 0x1000 then (0, v.deactivate value)
    else (0, v)
  | none =>
    if offset = 0 then (if v.own.enabled then 1 else 0, v)
    else if offset = 4 then (v.own.mask, v)
    else if offset = 0xc then v.acknowledge cpu
    else if offset = 0xfc then (0x0202043b, v)
    else (0, v)

/-- One byte of an access to an array of bytes: what is read of the word so far, and the array. -/
def byteStep (value : Option (BitVec 32)) (start : ℕ) (acc : BitVec 32 × (ℕ → BitVec 8))
    (index : ℕ) : BitVec 32 × (ℕ → BitVec 8) :=
  let shift := index * 8
  let array := match value with
    | some value => Function.update acc.2 (start + index) ((value >>> shift).setWidth 8)
    | none => acc.2
  let byte : BitVec 32 := (array (start + index)).setWidth 32
  (acc.1 ||| (byte <<< shift), array)

def byteLoop (value : Option (BitVec 32)) (start bytes : ℕ) (array : ℕ → BitVec 8) :
    BitVec 32 × (ℕ → BitVec 8) :=
  (List.range bytes).foldl (byteStep value start) (0, array)

/-- The priority and target registers. -/
def byteRegisters (v : View) (cpu offset : ℕ) (value : Option (BitVec 32)) (bytes : ℕ) :
    Option (BitVec 32) × View :=
  let start := offset &&& 31
  if start + bytes > 32 then (none, v)
  else
    let banked := offset &&& 32 == 0
    if banked && decide (offset ≥ 0x800) then
      (some ((List.range bytes).foldl
        (fun word byte => word ||| (1#32 <<< cpu) <<< (byte * 8)) 0), v)
    else if offset < 0x800 then
      let (result, array) := byteLoop value start bytes (v.getBank banked).priority
      (some result, v.withBank banked fun bank => { bank with priority := array })
    else
      let (result, array) := byteLoop value start bytes (v.getBank banked).targets
      (some result, v.withBank banked fun bank => { bank with targets := array })

/-- What a write does to the bits of a register that sets or clears them. -/
def writeBits (clear : Bool) (value : Option (BitVec 32)) (bits : BitVec 32) : BitVec 32 :=
  match value with
  | some value => if clear then bits &&& ~~~value else bits ||| value
  | none => bits

/-- The registers that set and clear the enabled, pending and active bits. -/
def bitRegister (v : View) (banked : Bool) (register : ℕ) (value : Option (BitVec 32)) :
    BitVec 32 × View :=
  let bank := v.getBank banked
  let write := writeBits (register &&& 0x80 != 0) value
  if register = 0x100 ∨ register = 0x180 then
    (write bank.enabled, v.withBank banked fun bank => { bank with enabled := write bank.enabled })
  else if register = 0x200 ∨ register = 0x280 then
    (write bank.pending, v.withBank banked fun bank => { bank with pending := write bank.pending })
  else (write bank.active, v.withBank banked fun bank => { bank with active := write bank.active })

/-- The control and identification registers of the distributor. -/
def control (v : View) (offset : ℕ) (value : Option (BitVec 32)) : BitVec 32 × View :=
  match value with
  | some value =>
    if offset = 0 then
      (0, { v with distributor := { v.distributor with enabled := (value &&& 1) != 0 } })
    else (0, v)
  | none =>
    if offset = 0 then (if v.distributor.enabled then 1 else 0, v)
    else if offset = 4 then (1 ||| (BitVec.ofNat 32 (v.distributor.cpus - 1) <<< 5), v)
    else if offset = 8 then (0x0102043b, v)
    else if offset = 0xfe8 then (0x2b, v)
    else (0, v)

def access (v : View) (cpu address : ℕ) (value : Option (BitVec 32)) (bytes : ℕ) :
    Option (BitVec 32) × View :=
  if bytes ∉ [1, 2, 4] ∨ address % bytes ≠ 0 ∨ cpu ≥ v.distributor.cpus then (none, v)
  else
    let offset := address % 0x10000
    if address / 0x10000 = 0x0801 then
      if bytes ≠ 4 then (none, v)
      else (some (v.cpuInterface cpu offset value).1, (v.cpuInterface cpu offset value).2)
    else if address / 0x10000 ≠ 0x0800 then (none, v)
    else if (0x400 ≤ offset ∧ offset ≤ 0x43f) ∨ (0x800 ≤ offset ∧ offset ≤ 0x83f) then
      v.byteRegisters cpu offset value bytes
    else if bytes ≠ 4 then (none, v)
    else
      let banked := offset &&& 4 == 0
      let register := offset &&& 0xfffb
      if register ∈ [0x100, 0x180, 0x200, 0x280, 0x300, 0x380] then
        (some (v.bitRegister banked register value).1, (v.bitRegister banked register value).2)
      else (some (v.control offset value).1, (v.control offset value).2)

end View

/-- The controller with the interface of every virtual CPU. -/
structure Gic where
  distributor : Distributor
  cpus : ℕ → Cpu

inductive Call
  | access (cpu address : ℕ) (value : Option (BitVec 32)) (bytes : ℕ)
  | level (id : ℕ) (asserted : Bool)
  | localLevel (cpu id : ℕ) (asserted : Bool)
  | sgi (target id source : ℕ)

inductive Reply
  | value (result : Option (BitVec 32))
  | done
  | panic
  deriving DecidableEq

namespace Gic

def new (cpus : ℕ) (h : 0 < cpus ∧ cpus ≤ 8) : Gic := ⟨.new cpus h, fun _ => .new⟩

def view (self : Gic) (cpu : ℕ) : View := ⟨self.cpus cpu, self.distributor⟩

def put (self : Gic) (cpu : ℕ) (v : View) : Gic :=
  ⟨v.distributor, Function.update self.cpus cpu v.own⟩

/-- One call; an assertion that fails changes nothing. -/
def step (self : Gic) : Call → Reply × Gic
  | .access cpu address value bytes =>
    (.value ((self.view cpu).access cpu address value bytes).1,
      self.put cpu ((self.view cpu).access cpu address value bytes).2)
  | .level id asserted =>
    if 32 ≤ id ∧ id < 64 then
      (.done, { self with distributor := { self.distributor with
        shared := self.distributor.shared.level (id - 32) asserted } })
    else (.panic, self)
  | .localLevel cpu id asserted =>
    if 16 ≤ id ∧ id < 32 then
      (.done, { self with cpus := Function.update self.cpus cpu { self.cpus cpu with
        bank := (self.cpus cpu).bank.level id asserted } })
    else (.panic, self)
  | .sgi target id source =>
    if id < 16 ∧ source < 8 then
      let cpu := self.cpus target
      (.done, { self with cpus := Function.update self.cpus target { cpu with
        sources := Function.update cpu.sources id (cpu.sources id ||| 1#8 <<< source)
        bank := { cpu.bank with pending := cpu.bank.pending ||| bit id } } })
    else (.panic, self)

end Gic

end AegisHV.Vgic
