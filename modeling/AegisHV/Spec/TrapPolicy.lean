import AegisHV.Spec.Pattern
import AegisHV.Spec.Stage2

/-! What the trap controller consults (`trap/storm.rs`, `trap/jit.rs`,
`trap/invalidation.rs`, `trap/singlestep.rs`): the storm guard, the policy for JIT
windows and the plan of an invalidation. -/

namespace AegisHV
open Sys

inductive TrapStormMode
  | failOpen | failClosed
  deriving DecidableEq

structure TrapStormKey where
  ownerVm : String
  addressSpace : String
  page : ℕ
  vcpuId : Option ℕ
  deriving DecidableEq

namespace TrapStormKey

def new (ownerVm addressSpace : String) (page : ℕ) (vcpuId : Option ℕ) :
    Except TrapError TrapStormKey :=
  if isBlank ownerVm || isBlank addressSpace then
    .error ⟨.malformedInput, "trap storm key requires VM and address-space identifiers"⟩
  else .ok ⟨ownerVm, addressSpace, page, vcpuId⟩

/-- The fields in the order the derived `Ord` compares them; `None` is below every `Some`. -/
def fields (self : TrapStormKey) : String ×ₗ String ×ₗ ℕ ×ₗ WithBot ℕ :=
  toLex (self.ownerVm, toLex (self.addressSpace, toLex (self.page, self.vcpuId)))

theorem fields_injective : Function.Injective fields := by
  rintro ⟨a, b, c, d⟩ ⟨a', b', c', d'⟩ h
  simp only [fields, EmbeddingLike.apply_eq_iff_eq, Prod.mk.injEq] at h
  obtain ⟨rfl, rfl, h⟩ := h
  cases h
  rfl

instance : LinearOrder TrapStormKey := LinearOrder.lift' fields fields_injective

end TrapStormKey

inductive TrapStormDecision
  | allow | throttleFailOpen | throttleFailClosed
  deriving DecidableEq

structure TrapStormBucket where
  windowStartMs : ℕ
  hits : ℕ

structure TrapStormGuard where
  windowMs : ℕ
  maxHits : ℕ
  mode : TrapStormMode
  buckets : OrdMap TrapStormKey TrapStormBucket

namespace TrapStormGuard

def new (windowMs maxHits : ℕ) (mode : TrapStormMode) : Except TrapError TrapStormGuard :=
  if windowMs = 0 then
    .error ⟨.malformedInput, "trap storm window must be at least one millisecond"⟩
  else if maxHits = 0 then
    .error ⟨.malformedInput, "trap storm max_hits must be greater than zero"⟩
  else .ok ⟨windowMs, maxHits, mode, OrdMap.empty⟩

def observe (self : TrapStormGuard) (key : TrapStormKey) (nowMs : ℕ) :
    TrapStormDecision × TrapStormGuard :=
  let bucket := (self.buckets.get key).getD ⟨nowMs, 0⟩
  let bucket := if self.windowMs ≤ nowMs - bucket.windowStartMs then ⟨nowMs, 0⟩ else bucket
  let bucket := { bucket with hits := min (bucket.hits + 1) (2 ^ 32 - 1) }
  let self := { self with buckets := self.buckets.insert key bucket }
  if bucket.hits ≤ self.maxHits then (.allow, self)
  else
    match self.mode with
    | .failOpen => (.throttleFailOpen, self)
    | .failClosed => (.throttleFailClosed, self)

end TrapStormGuard

structure JitTrapContext where
  vm : String
  process : Option String
  module : Option String
  symbol : Option String
  pageCount : ℕ
  requestedWindowMs : ℕ

structure JitTrapRule where
  vm : Option Pattern
  process : Pattern
  module : Option Pattern
  maxPages : ℕ
  maxWindowMs : ℕ

def JitTrapRule.matches (self : JitTrapRule) (ctx : JitTrapContext) : Bool :=
  self.vm.all (·.isMatch ctx.vm) &&
    ctx.process.any self.process.isMatch &&
    self.module.all (fun pattern => ctx.module.any pattern.isMatch) &&
    ctx.pageCount ≤ self.maxPages && ctx.requestedWindowMs ≤ self.maxWindowMs

structure JitTrapDecision where
  allowed : Bool
  reason : String

structure JitTrapPolicy where
  rules : List JitTrapRule

def JitTrapPolicy.evaluate (self : JitTrapPolicy) (ctx : JitTrapContext) : JitTrapDecision :=
  if isBlank (ctx.process.getD "") then ⟨false, "missing guest process attribution"⟩
  else if ctx.pageCount = 0 ∨ ctx.requestedWindowMs = 0 then
    ⟨false, "invalid JIT temporary window request"⟩
  else if self.rules.any (·.matches ctx) then ⟨true, "matched JIT trap allow rule"⟩
  else ⟨false, "no JIT trap allow rule matched attribution and limits"⟩

inductive SingleStepStrategy
  | intelMonitorTrapFlag | x86TrapFlag | amdVmcbSingleStep | armSoftwareStep | syntheticStep

def SingleStepStrategy.asStr : SingleStepStrategy → String
  | intelMonitorTrapFlag => "intel_mtf"
  | x86TrapFlag => "x86_tf"
  | amdVmcbSingleStep => "amd_vmcb_single_step"
  | armSoftwareStep => "arm_software_step"
  | syntheticStep => "synthetic_step"

inductive InvalidationScope
  | singlePage (ownerVm addressSpace : String) (gpa : ℕ) (pageSize : PageSize)
  | addressSpace (ownerVm addressSpace : String)
  | vm (ownerVm : String)
  | global

def InvalidationScope.kind : InvalidationScope → String
  | singlePage .. => "single_page"
  | addressSpace .. => "address_space"
  | vm .. => "vm"
  | global => "global"

inductive InvalidationPrimitive
  | syntheticRecord | intelInveptSingleContext | intelInveptAllContexts | amdInvlpga
  | amdFlushAsid | armTlbiVaae2 | armTlbiVmalls12e1
  deriving DecidableEq

inductive InvalidationStatus
  | recorded | required
  deriving DecidableEq

structure InvalidationPlan where
  backend : Stage2BackendKind
  scopeKind : String
  primitive : InvalidationPrimitive
  status : InvalidationStatus
  deriving DecidableEq

def validateScope : InvalidationScope → Except TrapError Unit
  | .singlePage ownerVm addressSpace gpa pageSize =>
    if isBlank ownerVm || isBlank addressSpace then
      .error ⟨.malformedInput,
        "single-page invalidation requires VM and address-space identifiers"⟩
    else if !pageSize.isAligned gpa then
      .error ⟨.misaligned, "single-page invalidation address " ++ hex gpa ++
        " is not aligned to " ++ pageSize.asStr⟩
    else .ok ()
  | .addressSpace ownerVm addressSpace =>
    if isBlank ownerVm || isBlank addressSpace then
      .error ⟨.malformedInput,
        "address-space invalidation requires VM and address-space identifiers"⟩
    else .ok ()
  | .vm ownerVm =>
    if isBlank ownerVm then
      .error ⟨.malformedInput, "VM invalidation requires a non-empty VM identifier"⟩
    else .ok ()
  | .global => .ok ()

def invalidationPrimitive : Stage2BackendKind → InvalidationScope → InvalidationPrimitive
  | .synthetic, _ => .syntheticRecord
  | .intelEpt, .global | .intelEpt, .vm _ => .intelInveptAllContexts
  | .intelEpt, _ => .intelInveptSingleContext
  | .amdNpt, .singlePage .. => .amdInvlpga
  | .amdNpt, _ => .amdFlushAsid
  | .armStage2, .singlePage .. => .armTlbiVaae2
  | .armStage2, _ => .armTlbiVmalls12e1

def planInvalidation (backend : Stage2BackendKind) (scope : InvalidationScope) :
    Except TrapError InvalidationPlan := do
  validateScope scope
  pure
    { backend
      scopeKind := scope.kind
      primitive := invalidationPrimitive backend scope
      status := if backend = .synthetic then .recorded else .required }

end AegisHV
