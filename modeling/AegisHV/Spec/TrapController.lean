import AegisHV.Lib.Op
import AegisHV.Lib.Run
import AegisHV.Spec.TrapPolicy

/-! The trap controller (`trap/controller.rs`): a stage-2 table, the records of the traps
armed on its pages, and the four calls that move a trap through its states. -/

namespace AegisHV
open Sys

inductive TrapKind
  | read | write | execute
  deriving DecidableEq

namespace TrapKind

def asStr : TrapKind → String
  | read => "read"
  | write => "write"
  | execute => "execute"

def access : TrapKind → TrapAccessKind
  | read => .read
  | write => .write
  | execute => .execute

end TrapKind

inductive TrapState
  | armed | hit | classifying | allowedStep | denied | rearmed | disabled | stormThrottled
  deriving DecidableEq

namespace TrapState

def asStr : TrapState → String
  | armed => "armed"
  | hit => "hit"
  | classifying => "classifying"
  | allowedStep => "allowed_step"
  | denied => "denied"
  | rearmed => "rearmed"
  | disabled => "disabled"
  | stormThrottled => "storm_throttled"

def acceptsHit : TrapState → Bool
  | armed | rearmed => true
  | _ => false

end TrapState

inductive TrapClassification
  | allowStep
  | deny (reason : String)
  | jitTemporaryWindow (ctx : JitTrapContext)

inductive TrapDecision
  | allowStep | allowTemporaryWrite | deny | failOpen | failClosed
  deriving DecidableEq

structure TrapHit where
  ownerVm : String
  addressSpace : String
  gpa : ℕ
  vcpuId : Option ℕ
  rip : Option ℕ
  kind : TrapKind

structure TrapOutcome where
  trapId : String
  trapKind : TrapKind
  state : TrapState
  decision : TrapDecision
  backend : Stage2BackendKind
  page : ℕ
  pageSize : PageSize
  permissionsBefore : Stage2Permissions
  permissionsAfter : Stage2Permissions
  invalidation : InvalidationPlan
  note : String
  deriving DecidableEq

structure TrapRecord where
  id : String
  kind : TrapKind
  ownerVm : String
  addressSpace : String
  page : ℕ
  pageSize : PageSize
  originalPermissions : Stage2Permissions
  trappedPermissions : Stage2Permissions
  state : TrapState
  deriving DecidableEq

structure TrapController where
  backend : Stage2BackendKind
  table : Stage2Table
  traps : OrdMap String TrapRecord
  storm : TrapStormGuard
  jitPolicy : JitTrapPolicy
  singleStep : SingleStepStrategy

def trapId (ownerVm addressSpace : String) (page : ℕ) (kind : TrapKind) : String :=
  "trap:" ++ ownerVm ++ ":" ++ addressSpace ++ ":" ++ hex page ++ ":" ++ kind.asStr

def missingTrap (trapId : String) : TrapError :=
  ⟨.notMapped, "trap " ++ trapId ++ " is not armed"⟩

namespace TrapController

def new (backend : Stage2BackendKind) (table : Stage2Table) (storm : TrapStormGuard)
    (jitPolicy : JitTrapPolicy) (singleStep : SingleStepStrategy) : TrapController :=
  ⟨backend, table, OrdMap.empty, storm, jitPolicy, singleStep⟩

def trapState (self : TrapController) (trapId : String) : Option TrapState :=
  (self.traps.get trapId).map TrapRecord.state

/-- `trap.state = state` through `get_mut` -/
def setState (self : TrapController) (trapId : String) (state : TrapState) : TrapController :=
  { self with traps := self.traps.modify trapId fun trap => { trap with state } }

def armTrap (ownerVm addressSpace : String) (gpa : ℕ) (kind : TrapKind) :
    Op TrapController TrapError String := do
  let self ← Op.read
  match self.table.lookup ownerVm addressSpace gpa with
  | none =>
    Op.fail ⟨.notMapped,
      "cannot arm " ++ kind.asStr ++ " trap: " ++ hex gpa ++ " is not mapped"⟩
  | some mapping => do
    let trappedPermissions := mapping.permissions.withoutAccess kind.access
    let page := mapping.pageSize.alignDown gpa
    let id := trapId ownerVm addressSpace page kind
    let (previous, table) ←
      Op.lift (self.table.setPermissions ownerVm addressSpace page trappedPermissions)
    let record : TrapRecord :=
      { id, kind, ownerVm, addressSpace, page
        pageSize := mapping.pageSize
        originalPermissions := previous
        trappedPermissions
        state := .armed }
    Op.write { self with table, traps := self.traps.insert id record }
    pure id

def invalidationFor (self : TrapController) (trapId : String) : Except TrapError InvalidationPlan :=
  match self.traps.get trapId with
  | none => .error (missingTrap trapId)
  | some trap =>
    planInvalidation self.backend
      (.singlePage trap.ownerVm trap.addressSpace trap.page trap.pageSize)

/-- The outcome `finish_hit` and `rearm` return once the trap and the table are updated. -/
def outcome (trapId : String) (decision : TrapDecision) (before after : Stage2Permissions)
    (note : String) : Op TrapController TrapError TrapOutcome := do
  let self ← Op.read
  let invalidation ← Op.lift (self.invalidationFor trapId)
  match self.traps.get trapId with
  | none => Op.fail (missingTrap trapId)
  | some trap =>
    pure
      { trapId := trap.id
        trapKind := trap.kind
        state := trap.state
        decision
        backend := self.backend
        page := trap.page
        pageSize := trap.pageSize
        permissionsBefore := before
        permissionsAfter := after
        invalidation
        note }

def finishHit (trapId : String) (state : TrapState) (decision : TrapDecision) (allowWindow : Bool)
    (note : String) : Op TrapController TrapError TrapOutcome := do
  let self ← Op.read
  match self.traps.get trapId with
  | none => Op.fail (missingTrap trapId)
  | some trap => do
    let self := self.setState trapId state
    Op.write self
    let before := trap.trappedPermissions
    let after := if allowWindow then trap.originalPermissions else trap.trappedPermissions
    if allowWindow then do
      let (_, table) ←
        Op.lift (self.table.setPermissions trap.ownerVm trap.addressSpace trap.page after)
      Op.write { self with table }
      outcome trapId decision before after note
    else outcome trapId decision before after note

def findCoveringTrap (self : TrapController) (hit : TrapHit) : Except TrapError String :=
  match self.traps.values.find? fun trap =>
      trap.kind == hit.kind && trap.ownerVm == hit.ownerVm &&
        trap.addressSpace == hit.addressSpace && trap.page ≤ hit.gpa &&
        hit.gpa < wrappingAdd trap.page trap.pageSize.bytes with
  | some trap => .ok trap.id
  | none =>
    .error ⟨.notMapped, "no armed " ++ hit.kind.asStr ++ " trap covers " ++ hex hit.gpa ++
      " for vm=" ++ hit.ownerVm ++ " address_space=" ++ hit.addressSpace⟩

/-- The trap a hit is attributed to: the one armed on its 4 KiB page, or else one whose page
covers it. -/
def hitTrap (self : TrapController) (hit : TrapHit) : Except TrapError String :=
  let id := trapId hit.ownerVm hit.addressSpace (PageSize.size4K.alignDown hit.gpa) hit.kind
  if (self.traps.get id).isSome then .ok id else self.findCoveringTrap hit

def hitStormKey (self : TrapController) (hit : TrapHit) (trapId : String) :
    Except TrapError TrapStormKey :=
  let page :=
    match self.traps.get trapId with
    | some trap => trap.page
    | none => PageSize.size4K.alignDown hit.gpa
  TrapStormKey.new hit.ownerVm hit.addressSpace page hit.vcpuId

/-- The part of `handle_hit` after the storm guard has allowed the hit. -/
def classifyHit (trapId : String) (classification : TrapClassification) :
    Op TrapController TrapError TrapOutcome := do
  let self ← Op.read
  match self.traps.get trapId with
  | none => Op.fail (missingTrap trapId)
  | some trap =>
    if !trap.state.acceptsHit then
      Op.fail ⟨.invalidState,
        "trap " ++ trap.id ++ " cannot accept hit while state is " ++ trap.state.asStr⟩
    else do
      -- the source passes through `Hit` without looking at it
      Op.write (self.setState trapId .classifying)
      match classification with
      | .allowStep =>
        finishHit trapId .allowedStep .allowStep true
          ("single-step strategy " ++ self.singleStep.asStr)
      | .deny reason => finishHit trapId .denied .deny false reason
      | .jitTemporaryWindow ctx =>
        let decision := self.jitPolicy.evaluate ctx
        if decision.allowed then
          finishHit trapId .allowedStep .allowTemporaryWrite true decision.reason
        else finishHit trapId .denied .deny false decision.reason

def handleHit (hit : TrapHit) (classification : TrapClassification) (nowMs : ℕ) :
    Op TrapController TrapError TrapOutcome := do
  let self ← Op.read
  let trapId ← Op.lift (self.hitTrap hit)
  let stormKey ← Op.lift (self.hitStormKey hit trapId)
  let (decision, storm) := self.storm.observe stormKey nowMs
  Op.write { self with storm }
  match decision with
  | .allow => classifyHit trapId classification
  | .throttleFailOpen =>
    finishHit trapId .stormThrottled .failOpen true
      "trap storm throttled page; policy is fail-open"
  | .throttleFailClosed =>
    finishHit trapId .stormThrottled .failClosed false
      "trap storm throttled page; policy is fail-closed"

def rearm (trapId : String) : Op TrapController TrapError TrapOutcome := do
  let self ← Op.read
  match self.traps.get trapId with
  | none => Op.fail (missingTrap trapId)
  | some trap =>
    if trap.state ≠ .allowedStep ∧ trap.state ≠ .stormThrottled then
      Op.fail ⟨.invalidState, "trap " ++ trap.id ++ " cannot re-arm from state " ++ trap.state.asStr⟩
    else do
      let self := self.setState trapId .rearmed
      Op.write self
      let (_, table) ← Op.lift
        (self.table.setPermissions trap.ownerVm trap.addressSpace trap.page trap.trappedPermissions)
      Op.write { self with table }
      outcome trapId .allowStep trap.originalPermissions trap.trappedPermissions
        "trap re-armed after temporary window"

def disable (trapId : String) : Op TrapController TrapError Unit := do
  let self ← Op.read
  match self.traps.get trapId with
  | none => Op.fail (missingTrap trapId)
  | some trap => do
    let (_, table) ← Op.lift
      (self.table.setPermissions trap.ownerVm trap.addressSpace trap.page trap.originalPermissions)
    Op.write ({ self with table }.setState trapId .disabled)

inductive Call
  | armTrap (ownerVm addressSpace : String) (gpa : ℕ) (kind : TrapKind)
  | handleHit (hit : TrapHit) (classification : TrapClassification) (nowMs : ℕ)
  | rearm (trapId : String)
  | disable (trapId : String)

inductive Reply
  | armed (trapId : String)
  | outcome (outcome : TrapOutcome)
  | disabled
  | failed (error : TrapError)
  deriving DecidableEq

def step (self : TrapController) : Call → Reply × TrapController
  | .armTrap ownerVm addressSpace gpa kind =>
    (armTrap ownerVm addressSpace gpa kind).reply .armed .failed self
  | .handleHit hit classification nowMs =>
    (handleHit hit classification nowMs).reply .outcome .failed self
  | .rearm trapId => (rearm trapId).reply .outcome .failed self
  | .disable trapId => (disable trapId).reply (fun _ => .disabled) .failed self

end TrapController
end AegisHV
