import AegisHV.Lib.Text

/-! VM identity (`identity.rs`, with the parts of `event.rs` it fills in): which VM a host task
belongs to, from what the host shows of the task and from the libvirt domains known. A task's
identity is cached under its start time until a lifecycle event of its domain drops it. What
the parsers find in `/proc/<pid>/cmdline` and `/proc/<pid>/cgroup` and which monitor sockets
exist is read from a `Host`. -/

namespace AegisHV

open Sys

inductive IdentityConfidence where
  | low
  | medium
  | high
  deriving DecidableEq

namespace IdentityConfidence

def asStr : IdentityConfidence → String
  | low => "low"
  | medium => "medium"
  | high => "high"

def rank : IdentityConfidence → ℕ
  | low => 0
  | medium => 1
  | high => 2

def max (self other : IdentityConfidence) : IdentityConfidence :=
  if self.rank ≥ other.rank then self else other

def meets (self required : IdentityConfidence) : Bool := self.rank ≥ required.rank

end IdentityConfidence

inductive IdentitySource where
  | traceComm
  | procCmdline
  | procCgroup
  | libvirtXml
  | qmpSocketHint
  | libvirtLifecycle
  | fallbackPid
  | ambiguous
  | startTimeVerified
  deriving DecidableEq

def pushIdentitySource (sources : List IdentitySource) (source : IdentitySource) :
    List IdentitySource :=
  if source ∈ sources then sources else sources ++ [source]

structure IdentityInfo where
  sources : List IdentitySource
  confidence : IdentityConfidence
  startTimeVerified : Bool
  ambiguous : Bool

structure Event where
  vm : String
  vmId : Option String
  vmName : Option String
  hostPid : Option ℤ
  hostTid : Option ℤ
  hostStartTimeTicks : Option ℕ
  identity : Option IdentityInfo
  vcpuId : Option ℤ
  vcpu : Option ℤ
  tags : List String

def pushTag (tags : List String) (tag : String) : List String :=
  if tag ∈ tags then tags else tags ++ [tag]

inductive IdentityConflictReason where
  | multipleDomains
  | pidReuse
  | startTimeUnverified
  | staleCache
  | procCgroupMismatch
  | libvirtUuidMismatch
  | qmpSocketMismatch
  | libvirtNameMismatch

namespace IdentityConflictReason

def asStr : IdentityConflictReason → String
  | multipleDomains => "multiple_domains"
  | pidReuse => "pid_reuse"
  | startTimeUnverified => "start_time_unverified"
  | staleCache => "stale_cache"
  | procCgroupMismatch => "proc_cgroup_mismatch"
  | libvirtUuidMismatch => "libvirt_uuid_mismatch"
  | qmpSocketMismatch => "qmp_socket_mismatch"
  | libvirtNameMismatch => "libvirt_name_mismatch"

def vmIdSuffix : IdentityConflictReason → Option String
  | multipleDomains => none
  | pidReuse => some "pid-reuse"
  | startTimeUnverified => some "start-time-unverified"
  | staleCache => some "stale-cache"
  | procCgroupMismatch => some "proc-cgroup-mismatch"
  | libvirtUuidMismatch => some "libvirt-uuid-mismatch"
  | qmpSocketMismatch => some "qmp-socket-mismatch"
  | libvirtNameMismatch => some "libvirt-name-mismatch"

end IdentityConflictReason

structure IdentityConflict where
  taskId : ℤ
  reason : IdentityConflictReason
  ambiguous : Bool

structure VmIdentity where
  hostPid : ℤ
  hostStartTimeTicks : Option ℕ
  vmId : String
  vmName : Option String := none
  libvirtUuid : Option String := none
  cgroupUnit : Option String := none
  qmpSocket : Option String := none
  vcpuId : Option ℤ := none
  vcpuAmbiguous : Bool := false
  ambiguous : Bool := false
  identitySources : List IdentitySource := []
  identityConfidence : IdentityConfidence := .low
  startTimeVerified : Bool := false
  identityConflict : Option IdentityConflict := none

inductive LibvirtDomainSource where
  | xml
  | lifecycle

def LibvirtDomainSource.identitySource : LibvirtDomainSource → IdentitySource
  | xml => .libvirtXml
  | lifecycle => .libvirtLifecycle

structure HostTaskIdentity where
  taskId : ℤ
  startTimeTicks : Option ℕ

structure QemuVcpuThread where
  tid : ℤ
  vcpuId : ℤ

structure LibvirtDomain where
  name : String
  uuid : String
  qmpSocket : Option String
  qemuPids : List ℤ
  qemuTids : List ℤ
  vcpuThreads : List QemuVcpuThread
  qemuTaskIdentities : List HostTaskIdentity
  source : LibvirtDomainSource

namespace LibvirtDomain

/-- `domain_task_ids`, sorted and without repetitions, which is how it is used. -/
def taskIds (domain : LibvirtDomain) : List ℤ :=
  ((domain.qemuPids ++ domain.qemuTids ++ domain.vcpuThreads.map (·.tid) ++
    domain.qemuTaskIdentities.map (·.taskId)).insertionSort (· ≤ ·)).dedup

def hasTask (domain : LibvirtDomain) (taskId : ℤ) : Bool :=
  taskId ∈ domain.qemuPids || taskId ∈ domain.qemuTids ||
    domain.vcpuThreads.any (·.tid == taskId) ||
      domain.qemuTaskIdentities.any (·.taskId == taskId)

/-- The start time a domain records for a task: the first one it has for it
(`inventory_start_time_for`). -/
def startTimeFor (domain : LibvirtDomain) (taskId : ℤ) : Option ℕ :=
  domain.qemuTaskIdentities.findSome? fun identity =>
    if identity.taskId = taskId then identity.startTimeTicks else none

def label (domain : LibvirtDomain) : String := domain.uuid ++ ":" ++ domain.name

end LibvirtDomain

inductive TaskStartTimeMatch where
  | matched
  | pidReuseDetected
  | unverified
  deriving DecidableEq

/-- The loop of `task_start_time_matches` over the entries of one task: the first entry that
has a start time decides. -/
def matchEntries (observed : Option ℕ) : List HostTaskIdentity → TaskStartTimeMatch
  | [] => if observed.isNone then .matched else .unverified
  | identity :: rest =>
    match identity.startTimeTicks, observed with
    | some expected, some ticks => if expected = ticks then .matched else .pidReuseDetected
    | some _, none => .unverified
    | none, _ => matchEntries observed rest

def taskStartTimeMatches (domain : LibvirtDomain) (taskId : ℤ) (observed : Option ℕ) :
    TaskStartTimeMatch :=
  matchEntries observed (domain.qemuTaskIdentities.filter (·.taskId = taskId))

inductive LibvirtDiscoveryError where
  | ambiguousTask (taskId : ℤ) (domains : List String)
  | pidReuseDetected (taskId : ℤ) (observed : Option ℕ) (domains : List String)
  | unverifiedTaskIdentity (taskId : ℤ) (domains : List String)

structure LibvirtDomainDiscovery where
  domains : List LibvirtDomain

namespace LibvirtDomainDiscovery

def claimants (self : LibvirtDomainDiscovery) (taskId : ℤ) (observed : Option ℕ)
    (verdict : TaskStartTimeMatch) : List LibvirtDomain :=
  (self.domains.filter (·.hasTask taskId)).filter
    (taskStartTimeMatches · taskId observed = verdict)

def lookupTaskWithStartTime (self : LibvirtDomainDiscovery) (taskId : ℤ)
    (observed : Option ℕ) : Except LibvirtDiscoveryError (Option LibvirtDomain) :=
  match self.claimants taskId observed .matched with
  | [] =>
    -- every domain that has the task is unsafe here
    let unsafeDomains := self.domains.filter (·.hasTask taskId)
    if self.claimants taskId observed .pidReuseDetected ≠ [] then
      .error (.pidReuseDetected taskId observed (unsafeDomains.map LibvirtDomain.label))
    else if unsafeDomains ≠ [] then
      .error (.unverifiedTaskIdentity taskId (unsafeDomains.map LibvirtDomain.label))
    else .ok none
  | [domain] => .ok (some domain)
  | many => .error (.ambiguousTask taskId (many.map LibvirtDomain.label))

/-- Takes the tasks of another domain away from this one. -/
def dropTasks (tasks : List ℤ) (domain : LibvirtDomain) : LibvirtDomain :=
  { domain with
    qemuPids := domain.qemuPids.filter (· ∉ tasks)
    qemuTids := domain.qemuTids.filter (· ∉ tasks)
    vcpuThreads := domain.vcpuThreads.filter (·.tid ∉ tasks)
    qemuTaskIdentities := domain.qemuTaskIdentities.filter (·.taskId ∉ tasks) }

def isEmptied (domain : LibvirtDomain) : Bool :=
  domain.qemuPids.isEmpty && domain.qemuTids.isEmpty && domain.vcpuThreads.isEmpty &&
    domain.qemuTaskIdentities.isEmpty

/-- Puts the domain in the place of the first one with its uuid, or at the end. -/
def replaceFirst (domain : LibvirtDomain) : List LibvirtDomain → List LibvirtDomain
  | [] => [domain]
  | existing :: rest =>
    if existing.uuid = domain.uuid then domain :: rest
    else existing :: replaceFirst domain rest

def upsertDomain (self : LibvirtDomainDiscovery) (domain : LibvirtDomain) :
    LibvirtDomainDiscovery :=
  let stripped := self.domains.map fun existing =>
    if existing.uuid = domain.uuid then existing else dropTasks domain.taskIds existing
  let kept := stripped.filter fun existing =>
    existing.uuid = domain.uuid || !isEmptied existing
  ⟨replaceFirst domain kept⟩

def removeDomainUuid (self : LibvirtDomainDiscovery) (uuid : String) :
    LibvirtDomainDiscovery :=
  ⟨self.domains.filter (·.uuid ≠ uuid)⟩

end LibvirtDomainDiscovery

def stablePidId (pid : ℤ) : Option ℕ → String
  | some ticks => "host-pid:" ++ toString pid ++ ":start:" ++ toString ticks
  | none => "host-pid:" ++ toString pid

/-- What the command line of a task says. -/
structure CmdlineNames where
  vmName : Option String
  libvirtUuid : Option String
  qmpSocket : Option String

/-- What the cgroup of a task says. -/
structure CgroupNames where
  domainName : Option String
  unit : Option String

/-- The host at one moment. -/
structure Host where
  now : ℕ
  startTime : ℤ → Option ℕ
  cmdline : ℤ → Option CmdlineNames
  cgroup : ℤ → Option CgroupNames
  discoverQmpSocket : String → Option String

namespace VmIdentity

def pushSource (self : VmIdentity) (source : IdentitySource) : VmIdentity :=
  { self with identitySources := pushIdentitySource self.identitySources source }

def recomputeConfidence (self : VmIdentity) : VmIdentity :=
  let domainKnown := self.libvirtUuid.isSome &&
    (.libvirtXml ∈ self.identitySources || .libvirtLifecycle ∈ self.identitySources)
  let confidence : IdentityConfidence :=
    if self.ambiguous then .low
    else if self.startTimeVerified && domainKnown then .high
    else if domainKnown || (self.libvirtUuid.isSome && .procCmdline ∈ self.identitySources) then
      .medium
    else .low
  { self with identityConfidence := confidence }

def markAmbiguousHostTask (self : VmIdentity) (taskId : ℤ) (reason : IdentityConflictReason) :
    VmIdentity :=
  { self with
    vmId := match reason.vmIdSuffix with
      | some suffix => "ambiguous:host-task:" ++ toString taskId ++ ":" ++ suffix
      | none => "ambiguous:host-task:" ++ toString taskId
    vmName := none
    libvirtUuid := none
    qmpSocket := none
    vcpuId := none
    vcpuAmbiguous := false
    ambiguous := true
    identitySources := [.ambiguous]
    identityConfidence := .low
    startTimeVerified := false
    identityConflict := some ⟨taskId, reason, true⟩ }

/-- `record_identity_conflict` with `ambiguous` false, as every caller has it. -/
def recordIdentityConflict (self : VmIdentity) (taskId : ℤ) (reason : IdentityConflictReason) :
    VmIdentity :=
  { self with identityConflict := some ⟨taskId, reason, false⟩ }

def addCmdline (self : VmIdentity) (args : CmdlineNames) : VmIdentity :=
  let found := args.vmName.isSome || args.libvirtUuid.isSome || args.qmpSocket.isSome
  let named := if found then self.pushSource .procCmdline else self
  let hinted := if args.qmpSocket.isSome then named.pushSource .qmpSocketHint else named
  { hinted with
    vmName := args.vmName
    libvirtUuid := args.libvirtUuid
    qmpSocket := args.qmpSocket }

def mergeCgroupIdentity (self : VmIdentity) (taskId : ℤ) (cgroup : CgroupNames) : VmIdentity :=
  let sourced := if cgroup.domainName.isSome || cgroup.unit.isSome then
    self.pushSource .procCgroup else self
  let merged := match cgroup.domainName, sourced.vmName with
    | none, _ => sourced
    | some name, none => { sourced with vmName := some name }
    | some name, some existing =>
      if existing = name then sourced
      else if sourced.libvirtUuid.isNone then
        sourced.markAmbiguousHostTask taskId .procCgroupMismatch
      else sourced.recordIdentityConflict taskId .procCgroupMismatch
  { merged with cgroupUnit := cgroup.unit }

/-- Names the VM by its uuid or its name, and looks for its monitor socket. -/
def nameVm (self : VmIdentity) (host : Host) : VmIdentity :=
  let named := match self.libvirtUuid, self.vmName with
    | some uuid, _ => { self with vmId := "libvirt:" ++ uuid }
    | none, some name => { self with vmId := "name:" ++ name }
    | none, none => self
  match named.qmpSocket, named.vmName.bind host.discoverQmpSocket with
  | none, some socket => { named with qmpSocket := some socket }.pushSource .qmpSocketHint
  | _, _ => named

end VmIdentity

def fallbackPidIdentity (pid : ℤ) : VmIdentity :=
  let ident : VmIdentity :=
    { hostPid := pid, hostStartTimeTicks := none, vmId := stablePidId pid none }
  (ident.pushSource .fallbackPid).recomputeConfidence

def resolveIdentityOnceWithStartTime (host : Host) (pid : ℤ) (startTime : Option ℕ) :
    VmIdentity :=
  let ident : VmIdentity :=
    { hostPid := pid, hostStartTimeTicks := startTime, vmId := stablePidId pid startTime }
  let ident := match host.cmdline pid with
    | some args => ident.addCmdline args
    | none => ident
  let ident := match host.cgroup pid with
    | some cgroup => ident.mergeCgroupIdentity pid cgroup
    | none => ident
  let ident := if ident.ambiguous then ident else ident.nameVm host
  let ident := if ident.identitySources = [] then ident.pushSource .fallbackPid else ident
  ident.recomputeConfidence

def domainTaskStartTimeVerified (domain : LibvirtDomain) (taskId : ℤ) : Option ℕ → Bool
  | none => false
  | some observed => domain.qemuTaskIdentities.any fun identity =>
      identity.taskId == taskId && identity.startTimeTicks == some observed

inductive VcpuThreadLookup where
  | known (vcpuId : ℤ)
  | unknown
  | ambiguous

def lookupVcpuThread (domain : LibvirtDomain) (tid : ℤ) : VcpuThreadLookup :=
  match (domain.vcpuThreads.filter (·.tid = tid)).map (·.vcpuId) with
  | [] => .unknown
  | vcpuId :: rest => if rest.all (· = vcpuId) then .known vcpuId else .ambiguous

namespace VmIdentity

def setVcpu (self : VmIdentity) : VcpuThreadLookup → VmIdentity
  | .known vcpuId => { self with vcpuId := some vcpuId, vcpuAmbiguous := false }
  | .unknown => self
  | .ambiguous => { self with vcpuId := none, vcpuAmbiguous := true }

/-- Takes over what a domain says about the task. -/
def adoptDomain (self : VmIdentity) (taskId : ℤ) (domain : LibvirtDomain) : VmIdentity :=
  let verified := domainTaskStartTimeVerified domain taskId self.hostStartTimeTicks
  let ident := { self with
    vmId := "libvirt:" ++ domain.uuid
    vmName := some domain.name
    libvirtUuid := some domain.uuid }
  let ident := ident.pushSource domain.source.identitySource
  let ident := match domain.qmpSocket with
    | some socket => { ident with qmpSocket := some socket }.pushSource .qmpSocketHint
    | none => ident
  let ident := if verified then
    { ident with startTimeVerified := true }.pushSource .startTimeVerified else ident
  let ident := ident.setVcpu (lookupVcpuThread domain taskId)
  { ident with ambiguous := false }.recomputeConfidence

def applyLibvirtDiscovery (self : VmIdentity) (taskId : ℤ)
    (discovery : LibvirtDomainDiscovery) : VmIdentity :=
  match discovery.lookupTaskWithStartTime taskId self.hostStartTimeTicks with
  | .ok none => self
  | .ok (some domain) =>
    if self.libvirtUuid.any (· ≠ domain.uuid) then
      self.markAmbiguousHostTask taskId .libvirtUuidMismatch
    else if self.qmpSocket.any fun current => domain.qmpSocket.any (· ≠ current) then
      self.markAmbiguousHostTask taskId .qmpSocketMismatch
    else if self.vmName.any (· ≠ domain.name) then
      (self.adoptDomain taskId domain).recordIdentityConflict taskId .libvirtNameMismatch
    else self.adoptDomain taskId domain
  | .error (.ambiguousTask ..) => self.markAmbiguousHostTask taskId .multipleDomains
  | .error (.pidReuseDetected ..) => self.markAmbiguousHostTask taskId .pidReuse
  | .error (.unverifiedTaskIdentity ..) =>
    self.markAmbiguousHostTask taskId .startTimeUnverified

end VmIdentity

structure CachedIdentity where
  seenAt : ℕ
  startTimeTicks : Option ℕ
  value : VmIdentity

def cacheEntryMatches (cached : CachedIdentity) (observed : Option ℕ) (now ttl : ℕ) : Bool :=
  cached.startTimeTicks.isSome && cached.startTimeTicks == observed && now - cached.seenAt ≤ ttl

inductive IdentityCacheResult where
  | hit
  | miss
  | refusal

structure VmIdentityResolver where
  enable : Bool
  liveHostLookup : Bool
  ttl : ℕ
  libvirt : Option LibvirtDomainDiscovery
  cache : ℤ → Option CachedIdentity

namespace VmIdentityResolver

/-- `with_live_host_lookup`, with the domains read from the configured directory. -/
def withLiveHostLookup (enable liveHostLookup : Bool) (ttl : ℕ)
    (libvirt : Option LibvirtDomainDiscovery) : VmIdentityResolver where
  enable := enable
  liveHostLookup := liveHostLookup
  ttl := ttl
  libvirt := if liveHostLookup then libvirt else none
  cache := fun _ => none

/-- With a start time, and another one than the cached entry has. -/
def isStale (cached : CachedIdentity) (startTime : Option ℕ) : Bool :=
  cached.startTimeTicks.isSome && startTime.isSome && cached.startTimeTicks != startTime

/-- The identity of a task as it is now. -/
def locate (self : VmIdentityResolver) (host : Host) (pid : ℤ) (startTime : Option ℕ) :
    VmIdentity :=
  match self.liveHostLookup, self.libvirt with
  | false, _ => fallbackPidIdentity pid
  | true, none => resolveIdentityOnceWithStartTime host pid startTime
  | true, some libvirt =>
    (resolveIdentityOnceWithStartTime host pid startTime).applyLibvirtDiscovery pid libvirt

/-- An identity is named by its task when nothing else names it, and has a conflict when the
cache has the task under another start time. -/
def settle (ident : VmIdentity) (pid : ℤ) (stale : Bool) : VmIdentity :=
  let ident := if ident.vmId = "" then
    { ident with vmId := stablePidId pid ident.hostStartTimeTicks } else ident
  if ident.identityConflict.isNone && stale then
    { ident with identityConflict := some ⟨pid, .staleCache, false⟩ } else ident

/-- `resolve_pid_with_metrics` -/
def resolvePid (self : VmIdentityResolver) (host : Host) (pid : ℤ) :
    VmIdentity × IdentityCacheResult × VmIdentityResolver :=
  let startTime := if self.liveHostLookup then host.startTime pid else none
  let cached := self.cache pid
  match cached.filter (cacheEntryMatches · startTime host.now self.ttl) with
  | some entry => (entry.value, .hit, self)
  | none =>
    let stale := cached.any (isStale · startTime)
    let ident := settle (self.locate host pid startTime) pid stale
    let result := if stale then .refusal else .miss
    if ident.hostStartTimeTicks.isSome && !ident.ambiguous then
      let entry : CachedIdentity := ⟨host.now, ident.hostStartTimeTicks, ident⟩
      (ident, result, { self with cache := Function.update self.cache pid (some entry) })
    else (ident, result, self)

end VmIdentityResolver

/-- `merge_event_identity` -/
def mergeEventIdentity (prior : Option IdentityInfo) (ident : VmIdentity) : IdentityInfo :=
  let identity := prior.getD ⟨[], .low, false, false⟩
  let ambiguous := identity.ambiguous || ident.ambiguous
  { sources := ident.identitySources.foldl pushIdentitySource identity.sources
    confidence := if ambiguous then .low else identity.confidence.max ident.identityConfidence
    startTimeVerified := identity.startTimeVerified || ident.startTimeVerified
    ambiguous := ambiguous }

def Event.addName (ev : Event) (ident : VmIdentity) : Event :=
  match ident.vmName with
  | some name => { ev with vmName := some name, vm := name }
  | none => ev

def Event.addVcpu (ev : Event) (ident : VmIdentity) : Event :=
  match ev.vcpuId, ident.vcpuId with
  | some _, _ => ev
  | none, some vcpuId =>
    { ev with
      vcpuId := some vcpuId
      vcpu := some vcpuId
      tags := pushTag ev.tags "identity:vcpu-map" }
  | none, none =>
    { ev with tags := if ident.vcpuAmbiguous then pushTag ev.tags "identity:vcpu-ambiguous"
        else ev.tags }

def addIdentityTags (tags : List String) (ident : VmIdentity) : List String :=
  let tags := pushTag tags "identity:proc"
  let tags := if ident.libvirtUuid.isSome then pushTag tags "identity:libvirt" else tags
  let tags := if ident.ambiguous then pushTag tags "identity:ambiguous" else tags
  let tags := match ident.identityConflict with
    | some conflict => pushTag (pushTag tags "identity:conflict")
        ("identity_conflict:" ++ conflict.reason.asStr)
    | none => tags
  if ident.qmpSocket.isSome then pushTag tags "identity:qmp-hint" else tags

/-- What a resolved identity changes in an event. -/
def Event.addIdentity (ev : Event) (ident : VmIdentity) : Event :=
  let placed := (ev.addName ident).addVcpu ident
  { placed with
    hostStartTimeTicks := ident.hostStartTimeTicks
    vmId := some ident.vmId
    identity := some (mergeEventIdentity ev.identity ident)
    tags := addIdentityTags placed.tags ident }

def VmIdentityResolver.enrichEvent (self : VmIdentityResolver) (host : Host) (ev : Event) :
    Event × VmIdentityResolver :=
  match self.enable, ev.hostTid.or ev.hostPid with
  | true, some taskId =>
    let resolution := self.resolvePid host taskId
    (ev.addIdentity resolution.1, resolution.2.2)
  | _, _ => (ev, self)

inductive LibvirtLifecycleKind where
  | started
  | stopped
  | paused
  | resumed
  | migrated

structure LibvirtLifecycleEvent where
  kind : LibvirtLifecycleKind
  uuid : String
  name : Option String
  qemuPid : Option ℤ
  qemuTids : List ℤ
  vcpuThreads : List QemuVcpuThread
  qmpSocket : Option String

namespace LibvirtLifecycleEvent

def taskIds (self : LibvirtLifecycleEvent) : List ℤ :=
  ((self.qemuPid.toList ++ self.qemuTids ++ self.vcpuThreads.map (·.tid)).insertionSort
    (· ≤ ·)).dedup

def toDomain (self : LibvirtLifecycleEvent) : Option LibvirtDomain :=
  match self.name.map trimText with
  | none => none
  | some name =>
    if name = "" ∨ trimText self.uuid = "" ∨ self.taskIds = [] then none
    else some
      { name := name
        uuid := trimText self.uuid
        qmpSocket := self.qmpSocket
        qemuPids := self.qemuPid.toList
        qemuTids := self.qemuTids
        vcpuThreads := self.vcpuThreads
        qemuTaskIdentities := self.taskIds.map fun taskId => ⟨taskId, none⟩
        source := .lifecycle }

end LibvirtLifecycleEvent

namespace VmIdentityResolver

def upsertLibvirtDomain (self : VmIdentityResolver) (domain : LibvirtDomain) :
    VmIdentityResolver :=
  match self.libvirt with
  | some discovery => { self with libvirt := some (discovery.upsertDomain domain) }
  | none => { self with libvirt := some ⟨[domain]⟩ }

def removeLibvirtDomain (self : VmIdentityResolver) (uuid : String) : VmIdentityResolver :=
  { self with libvirt := self.libvirt.map (·.removeDomainUuid uuid) }

def invalidateLibvirtCache (self : VmIdentityResolver) (uuid : String) (tasks : List ℤ) :
    VmIdentityResolver :=
  { self with cache := fun taskId => (self.cache taskId).filter fun cached =>
      !(taskId ∈ tasks || cached.value.libvirtUuid == some uuid) }

/-- What a lifecycle event says about the domains. -/
def updateLibvirtDomains (self : VmIdentityResolver) (event : LibvirtLifecycleEvent) :
    VmIdentityResolver :=
  match event.kind with
  | .started | .resumed | .migrated => event.toDomain.elim self self.upsertLibvirtDomain
  | .stopped => self.removeLibvirtDomain (trimText event.uuid)
  | .paused => self

/-- `apply_libvirt_lifecycle_event`; the sensor event it reports is left out. -/
def applyLibvirtLifecycleEvent (self : VmIdentityResolver) (event : LibvirtLifecycleEvent) :
    Except String VmIdentityResolver :=
  if trimText event.uuid = "" then
    .error "malformed libvirt lifecycle event: missing domain uuid"
  else .ok ((self.updateLibvirtDomains event).invalidateLibvirtCache (trimText event.uuid)
    event.taskIds)

end VmIdentityResolver
end AegisHV
