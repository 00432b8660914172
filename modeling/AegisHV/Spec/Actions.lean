import AegisHV.Lib.Op
import AegisHV.Spec.Identity
import AegisHV.Spec.Pattern

/-! Response actions (`actions.rs`): a QMP-backed action runs only past the identity checks, on
the monitor socket that the mappings of the configuration give for the VM. What a monitor
answers, and whether a dump path is acceptable to the file system, is up to the outside; what
is written to a socket is logged. -/

namespace AegisHV

open Sys

structure QmpMapping where
  vmId : String
  vm : String
  socket : String

structure CompiledQmpMapping where
  vmId : Option Pattern
  vm : Option Pattern
  socket : String

/-- What `ActionDispatcher::new` reads of the configuration. -/
structure ActionConfig where
  qmp : List QmpMapping
  requireStableQmpMatch : Bool
  minActionConfidence : IdentityConfidence
  retries : ℕ
  dumpRoot : String

structure ActionDispatcher where
  qmp : List CompiledQmpMapping
  requireStableQmpMatch : Bool
  minActionConfidence : IdentityConfidence
  retries : ℕ
  dumpRoot : String

def compileField (field text : String) : Except String (Option Pattern) :=
  if isBlank text then .ok none
  else match Pattern.compile text with
    | .ok pattern => .ok (some pattern)
    | .error e => .error ("invalid qmp " ++ field ++ " pattern '" ++ text ++ "': " ++ e)

def compileQmpMapping (m : QmpMapping) : Except String CompiledQmpMapping := do
  let vmId ← compileField "vm_id" m.vmId
  let vm ← compileField "vm" m.vm
  return { vmId := vmId, vm := vm, socket := m.socket }

inductive ActionSafetyRefusalReason where
  | missingIdentity
  | lowConfidence
  | ambiguousIdentity
  | unverifiedIdentity
  | pidOnlyIdentity
  | staleIdentity
  | conflictingIdentity

namespace ActionSafetyRefusalReason

def asStr : ActionSafetyRefusalReason → String
  | missingIdentity => "missing_identity"
  | lowConfidence => "low_confidence"
  | ambiguousIdentity => "ambiguous_identity"
  | unverifiedIdentity => "unverified_identity"
  | pidOnlyIdentity => "pid_only_identity"
  | staleIdentity => "stale_identity"
  | conflictingIdentity => "conflicting_identity"

def cause : ActionSafetyRefusalReason → String
  | missingIdentity => "event has no identity metadata"
  | lowConfidence => "identity confidence is below the configured action threshold"
  | ambiguousIdentity => "identity is ambiguous"
  | unverifiedIdentity => "identity lacks PID/TID start-time verification"
  | pidOnlyIdentity => "identity is based on PID-only fallback metadata"
  | staleIdentity => "identity has a stale-cache conflict"
  | conflictingIdentity => "identity sources conflict"

def detail (self : ActionSafetyRefusalReason) (kind : String)
    (required : IdentityConfidence) : String :=
  "identity_safety: reason=" ++ self.asStr ++ " action=" ++ kind ++ " required_confidence=" ++
    required.asStr ++ "; refused QMP action because " ++ self.cause

end ActionSafetyRefusalReason

inductive ActionFailureClass where
  | qmpError
  | timeout
  | refusal
  | unsupportedAction
  | unsafeInput
  | missingArgument
  deriving DecidableEq

structure ActionFailure where
  kind : ActionFailureClass
  detail : String

def isTimeoutDetail (detail : String) : Bool :=
  let lower := detail.toList.map Char.toLower
  ["timed out", "timeout", "would block", "did not respond", "temporarily unavailable"].any
    fun text => (Pattern.afterFirst text.toList lower).isSome

namespace ActionFailure

def error (detail : String) : ActionFailure :=
  ⟨if isTimeoutDetail detail then .timeout else .qmpError, detail⟩

def refused (detail : String) : ActionFailure := ⟨.refusal, detail⟩

def isRetryable (self : ActionFailure) : Bool := self.kind ∈ [.qmpError, .timeout]

end ActionFailure

def qmpBackedAction (kind : String) : Bool :=
  kind ∈ ["pause_vm", "resume_vm", "dump_guest_memory", "quarantine_nic"]

def isPidOnlyIdentity (identity : IdentityInfo) : Bool :=
  .fallbackPid ∈ identity.sources &&
    [IdentitySource.procCmdline, .procCgroup, .libvirtXml, .libvirtLifecycle, .qmpSocketHint,
      .startTimeVerified].all (· ∉ identity.sources)

/-- `s.starts_with(start)` -/
def startsWith (start s : String) : Bool := start.toList.isPrefixOf s.toList

def hasIdentityConflictTag (tags : List String) (reason : String) : Bool :=
  ("identity_conflict:" ++ reason) ∈ tags

def hasAnyIdentityConflictTag (tags : List String) : Bool :=
  tags.any fun tag => tag == "identity:conflict" || startsWith "identity_conflict:" tag

inductive QmpCommand where
  | capabilities
  | stop
  | cont
  | dumpGuestMemory (path : String)
  | setLink (nic : String)
  deriving DecidableEq

/-- A command written to a monitor socket. -/
structure QmpSent where
  socket : String
  command : QmpCommand
  deriving DecidableEq

/-- What happens outside during one attempt: connecting to a socket and reading its greeting,
the answer to a command, and the check of a dump path against the file system. -/
structure Outside where
  connect : String → Except String Unit
  answer : QmpSent → Except String Unit
  validateDumpOutputPath : String → String → Except String Unit

structure ActionOutcome where
  status : String
  detail : Option String
  targetVmId : Option String

structure ActionExecution where
  outcome : Except ActionFailure ActionOutcome
  attempts : ℕ
  maxAttempts : ℕ
  retryCount : ℕ

/-- What is written to sockets, in order. -/
abbrev Wire := List QmpSent

namespace ActionDispatcher

def new (cfg : ActionConfig) : Except String ActionDispatcher := do
  if cfg.minActionConfidence = .low then
    throw ("invalid identity.min_action_confidence: low confidence cannot authorize QMP " ++
      "actions")
  let qmp ← cfg.qmp.mapM compileQmpMapping
  return { qmp := qmp
           requireStableQmpMatch := cfg.requireStableQmpMatch
           minActionConfidence := cfg.minActionConfidence
           retries := cfg.retries
           dumpRoot := cfg.dumpRoot }

/-- The loop over the mappings: every mapping that matches passes the check, and all of them
name one socket. -/
def uniqueSocket (matched : CompiledQmpMapping → Bool)
    (check : CompiledQmpMapping → Except ActionFailure Unit) (several : String)
    (selected : Option String) :
    List CompiledQmpMapping → Except ActionFailure (Option String)
  | [] => .ok selected
  | m :: rest =>
    if matched m then
      match check m, selected with
      | .error failure, _ => .error failure
      | .ok _, some existing =>
        if existing ≠ m.socket then .error (.refused several)
        else uniqueSocket matched check several selected rest
      | .ok _, none => uniqueSocket matched check several (some m.socket) rest
    else uniqueSocket matched check several selected rest

def matchesVmId (m : CompiledQmpMapping) (vmId : Option String) : Bool :=
  vmId.any fun id => m.vmId.any (·.isMatch id)

/-- The mapping has a `vm_id` pattern that the event's id does not match. -/
def rejectsVmId (m : CompiledQmpMapping) (vmId : Option String) : Bool :=
  vmId.any fun id => m.vmId.any fun pattern => !pattern.isMatch id

def matchesVm (m : CompiledQmpMapping) (vmName : String) : Bool := m.vm.any (·.isMatch vmName)

def uniqueVmIdSocket (self : ActionDispatcher) (vmId vmName : String) :
    Except ActionFailure (Option String) :=
  uniqueSocket (matchesVmId · (some vmId)) (fun _ => .ok ())
    ("refused QMP action for vm '" ++ vmName ++ "': vm_id '" ++ vmId ++
      "' matched multiple actions.qmp sockets; configure one UUID-authoritative mapping")
    none self.qmp

def uniqueVmNameSocket (self : ActionDispatcher) (vmId : Option String) (vmName : String) :
    Except ActionFailure (Option String) :=
  uniqueSocket (matchesVm · vmName)
    (fun m => failIf (rejectsVmId m vmId) (.refused ("refused QMP action for vm '" ++ vmName ++
      "': VM-name fallback matched an actions.qmp entry for a different vm_id; configure a " ++
      "matching UUID-authoritative mapping")))
    ("refused QMP action for vm '" ++ vmName ++ "': VM-name fallback matched multiple " ++
      "actions.qmp sockets; add a stable vm_id mapping or narrow the name patterns")
    none self.qmp

/-- The socket of the `vm_id` patterns, when the event has an id. -/
def stableSocket (self : ActionDispatcher) (vmId : Option String) (vmName : String) :
    Except ActionFailure (Option String) :=
  match vmId with
  | some id => self.uniqueVmIdSocket id vmName
  | none => .ok none

def noStableMatch (vmId : Option String) (vmName : String) : String :=
  match vmId with
  | some id => "identity.require_stable_qmp_match=true refused QMP VM-name fallback: no " ++
      "actions.qmp vm_id pattern matched vm_id '" ++ id ++ "' for vm '" ++ vmName ++ "'"
  | none => "identity.require_stable_qmp_match=true refused QMP VM-name fallback: event for " ++
      "vm '" ++ vmName ++ "' has no stable vm_id"

def qmpSocketFor (self : ActionDispatcher) (vmId : Option String) (vmName : String) :
    Except ActionFailure String := do
  if vmId.any (startsWith "ambiguous:") then
    throw (.refused ("refused QMP action for vm '" ++ vmName ++ "': VM identity is ambiguous (" ++
      vmId.getD "" ++ ")"))
  match ← self.stableSocket vmId vmName with
  | some socket => return socket
  | none =>
    if self.requireStableQmpMatch then throw (.refused (noStableMatch vmId vmName))
    match ← self.uniqueVmNameSocket vmId vmName with
    | some socket => return socket
    | none => throw (.error ("no QMP socket mapped for vm_id '" ++ vmId.getD "none" ++ "' vm '" ++
        vmName ++ "'"))

def identitySafetyRefusal (self : ActionDispatcher) (vmId : Option String) (kind : String)
    (identity : Option IdentityInfo) (identityTags : List String) :
    Option ActionSafetyRefusalReason :=
  if !qmpBackedAction kind then none
  else if vmId.any (startsWith "ambiguous:") then none
  else if hasIdentityConflictTag identityTags "stale_cache" then some .staleIdentity
  else if hasAnyIdentityConflictTag identityTags then some .conflictingIdentity
  else match identity with
    | none => some .missingIdentity
    | some identity =>
      if identity.ambiguous || .ambiguous ∈ identity.sources then some .ambiguousIdentity
      else if isPidOnlyIdentity identity then some .pidOnlyIdentity
      else if !identity.confidence.meets self.minActionConfidence then some .lowConfidence
      else if !identity.startTimeVerified || .startTimeVerified ∉ identity.sources then
        some .unverifiedIdentity
      else none

/-- Writes a command and waits for its answer. -/
def qmpExec (outside : Outside) (socket : String) (command : QmpCommand) :
    Op Wire ActionFailure Unit := do
  let wire ← Op.read
  Op.write (wire ++ [⟨socket, command⟩])
  Op.lift ((outside.answer ⟨socket, command⟩).mapError ActionFailure.error)

/-- `QmpClient::connect`, which negotiates capabilities, and then the command. -/
def qmpSession (outside : Outside) (socket : String) (command : QmpCommand) :
    Op Wire ActionFailure Unit := do
  Op.lift ((outside.connect socket).mapError ActionFailure.error)
  qmpExec outside socket .capabilities
  qmpExec outside socket command

/-- `pause_vm` and `resume_vm`, which differ in the command. -/
def plainAction (self : ActionDispatcher) (outside : Outside) (command : QmpCommand)
    (vm : String) (vmId : Option String) : Op Wire ActionFailure ActionOutcome := do
  let socket ← Op.lift (self.qmpSocketFor vmId vm)
  qmpSession outside socket command
  return ⟨"completed", none, vmId⟩

def pauseVm (self : ActionDispatcher) (outside : Outside) :=
  self.plainAction outside .stop

def resumeVm (self : ActionDispatcher) (outside : Outside) :=
  self.plainAction outside .cont

def dumpAccepted : String :=
  "QMP accepted dump-guest-memory; completion must be verified by QMP job/event tracking " ++
    "before using the file as evidence"

def dumpGuestMemory (self : ActionDispatcher) (outside : Outside) (vm : String)
    (vmId : Option String) (out : String) : Op Wire ActionFailure ActionOutcome := do
  let socket ← Op.lift (self.qmpSocketFor vmId vm)
  Op.lift ((outside.validateDumpOutputPath out self.dumpRoot).mapError (⟨.unsafeInput, ·⟩))
  qmpSession outside socket (.dumpGuestMemory out)
  return ⟨"accepted", some dumpAccepted, vmId⟩

def quarantineNic (self : ActionDispatcher) (outside : Outside) (vm : String)
    (vmId : Option String) (nic : String) : Op Wire ActionFailure ActionOutcome := do
  let socket ← Op.lift (self.qmpSocketFor vmId vm)
  Op.lift (failIf (isBlank nic)
    ⟨.missingArgument, "quarantine_nic requires action.nic (QMP netdev name)"⟩)
  qmpSession outside socket (.setLink nic)
  return ⟨"completed", none, vmId⟩

/-- One attempt at an action. -/
def attempt (self : ActionDispatcher) (outside : Outside) (vm : String) (vmId : Option String)
    (kind : String) (outputPath nic : Option String) : Op Wire ActionFailure ActionOutcome :=
  if kind = "pause_vm" then self.pauseVm outside vm vmId
  else if kind = "resume_vm" then self.resumeVm outside vm vmId
  else if kind = "dump_guest_memory" then
    self.dumpGuestMemory outside vm vmId (outputPath.getD "")
  else if kind = "quarantine_nic" then self.quarantineNic outside vm vmId (nic.getD "")
  else if kind = "manual_approval" then
    pure ⟨"accepted", some "manual approval required; no QMP command executed", vmId⟩
  else if kind = "noop" then pure ⟨"completed", none, vmId⟩
  else Op.fail ⟨.unsupportedAction, "unknown action kind: " ++ kind⟩

/-- The loop of `run_with_retries` with `left` attempts to go after this one. -/
def retry (action : ℕ → Op Wire ActionFailure ActionOutcome) (retries : ℕ) :
    ℕ → Wire → ActionExecution × Wire
  | left, wire =>
    let made := retries - left + 1
    match (action (retries - left)).run wire with
    | (.ok outcome, wire') => (⟨.ok outcome, made, retries + 1, made - 1⟩, wire')
    | (.error failure, wire') =>
      match left with
      | 0 => (⟨.error failure, made, retries + 1, made - 1⟩, wire')
      | left + 1 =>
        if failure.isRetryable then retry action retries left wire'
        else (⟨.error failure, made, retries + 1, made - 1⟩, wire')

def runWithRetries (self : ActionDispatcher) (outside : ℕ → Outside) (vm : String)
    (vmId : Option String) (kind : String) (outputPath nic : Option String) (wire : Wire) :
    ActionExecution × Wire :=
  retry (fun n => self.attempt (outside n) vm vmId kind outputPath nic) self.retries
    self.retries wire

/-- The part of `run_action` that decides and acts; what it reports about it is left out. -/
def runAction (self : ActionDispatcher) (outside : ℕ → Outside) (vm : String)
    (vmId : Option String) (kind : String) (outputPath nic : Option String)
    (identity : Option IdentityInfo) (identityTags : List String) (execute : Bool)
    (wire : Wire) : ActionExecution × Wire :=
  if execute then
    match self.identitySafetyRefusal vmId kind identity identityTags with
    | some reason =>
      (⟨.error (.refused (reason.detail kind self.minActionConfidence)), 1, 1, 0⟩, wire)
    | none => self.runWithRetries outside vm vmId kind outputPath nic wire
  else (⟨.ok ⟨"dry_run", some "action not executed", vmId⟩, 0, 0, 0⟩, wire)

end ActionDispatcher

/-- What `parser.rs` fills in of an exit event before its identity is resolved. -/
def exitEvent (vm : String) (vmId : Option String) (hostPid : Option ℤ) (vcpuId : Option ℤ)
    (tags : List String) : Event where
  vm := vm
  vmId := vmId
  vmName := none
  hostPid := hostPid
  hostTid := none
  hostStartTimeTicks := none
  identity := some
    { sources := if hostPid.isSome then [.traceComm, .fallbackPid] else [.traceComm]
      confidence := .low
      startTimeVerified := false
      ambiguous := false }
  vcpuId := vcpuId
  vcpu := vcpuId
  tags := tags

/-- A PMU sample's event (`pmu.rs`), with the identity its target was given when the target was
found, which no libvirt domain has verified. -/
def pmuEvent (host : Host) (pid tid : ℤ) (vm : String) (vcpuId : Option ℤ) : Event :=
  let ident := resolveIdentityOnceWithStartTime host pid (host.startTime pid)
  { vm := vm
    vmId := some ident.vmId
    vmName := none
    hostPid := some pid
    hostTid := some tid
    hostStartTimeTicks := ident.hostStartTimeTicks
    identity := some ⟨ident.identitySources, ident.identityConfidence, ident.startTimeVerified,
      ident.ambiguous⟩
    vcpuId := vcpuId
    vcpu := vcpuId
    tags := [] }

def conflictTags : List String :=
  "identity:conflict" :: [IdentityConflictReason.multipleDomains, .pidReuse,
    .startTimeUnverified, .staleCache, .procCgroupMismatch, .libvirtUuidMismatch,
    .qmpSocketMismatch, .libvirtNameMismatch].map fun reason =>
      "identity_conflict:" ++ reason.asStr

/-- The W^X alert for an exit event (`wx.rs`): the same VM and identity, and the conflict tags
of the write and of the exit. -/
def wxEvent (mode : String) (writeTags : List String) (ev : Event) : Event :=
  let carried := (writeTags ++ ev.tags).filter (· ∈ conflictTags)
  { ev with tags := carried.foldl pushTag ["wx", "correlated", mode] }

end AegisHV
