import AegisHV.Proofs.Identity
import AegisHV.Spec.Actions

/-! A command reaches a monitor socket only for an event whose identity passed every check, and
then only the socket that the configuration gives for it. The pieces are what the socket
selection returns, what an action writes, and what the identity checks let through; the
resolver's invariant says what a verified identity stands for. -/

namespace AegisHV

open Sys VmIdentityResolver

namespace ActionDispatcher

variable {self : ActionDispatcher}

/-- The mappings in the list that match name this one socket, and there is one. -/
def OnlySocket (matched : CompiledQmpMapping → Bool) (mappings : List CompiledQmpMapping)
    (socket : String) : Prop :=
  (∃ m ∈ mappings, matched m = true) ∧ ∀ m ∈ mappings, matched m = true → m.socket = socket

variable {matched : CompiledQmpMapping → Bool}
  {check : CompiledQmpMapping → Except ActionFailure Unit} {several : String}

/-- A mapping that matches passes the check, and its socket is the one selected from there on. -/
theorem uniqueSocket_matched
    {m : CompiledQmpMapping} {rest : List CompiledQmpMapping} {selected out : Option String}
    (hm : matched m = true)
    (h : uniqueSocket matched check several selected (m :: rest) = .ok out) :
    check m = .ok () ∧ (∀ socket, selected = some socket → socket = m.socket) ∧
      uniqueSocket matched check several (some m.socket) rest = .ok out := by
  unfold uniqueSocket at h
  rw [if_pos hm] at h
  cases hcheck : check m with
  | error failure => simp [hcheck] at h
  | ok _ =>
    cases selected with
    | none => exact ⟨by simp, by simpa [hcheck] using h⟩
    | some existing =>
      by_cases hsame : existing = m.socket
      · subst hsame
        exact ⟨by simp, by simpa [hcheck] using h⟩
      · simp [hcheck, hsame] at h

theorem uniqueSocket_spec {mappings : List CompiledQmpMapping} {selected out : Option String}
    (h : uniqueSocket matched check several selected mappings = .ok out) :
    (∀ m ∈ mappings, matched m = true → check m = .ok () ∧ out = some m.socket) ∧
      (∀ socket, selected = some socket → out = some socket) ∧
      (out = selected ∨ ∃ m ∈ mappings, matched m = true) := by
  induction mappings generalizing selected with
  | nil =>
    obtain rfl : selected = out := by simpa [uniqueSocket] using h
    simp
  | cons m rest ih =>
    by_cases hm : matched m = true
    · obtain ⟨hcheck, hselected, hrest⟩ := uniqueSocket_matched hm h
      obtain ⟨hall, hkeep, -⟩ := ih hrest
      have hout : out = some m.socket := hkeep m.socket rfl
      refine ⟨List.forall_mem_cons.2 ⟨fun _ => ⟨hcheck, hout⟩, hall⟩, ?_, ?_⟩
      · intro socket hsocket
        rw [hout, hselected socket hsocket]
      · exact .inr ⟨m, by simp, hm⟩
    · have hrest : uniqueSocket matched check several selected rest = .ok out := by
        simpa [uniqueSocket, hm] using h
      obtain ⟨hall, hkeep, hfound⟩ := ih hrest
      refine ⟨List.forall_mem_cons.2 ⟨fun hm' => absurd hm' hm, hall⟩, hkeep, ?_⟩
      apply hfound.imp_right
      rintro ⟨m', hmem, hm'⟩
      exact ⟨m', by simp [hmem], hm'⟩

variable {socket : String}

theorem onlySocket_of_uniqueSocket {mappings : List CompiledQmpMapping}
    (h : uniqueSocket matched check several none mappings = .ok (some socket)) :
    OnlySocket matched mappings socket := by
  obtain ⟨hall, -, hfound⟩ := uniqueSocket_spec h
  refine ⟨hfound.resolve_left (by simp), fun m hm hmatch => ?_⟩
  simpa [eq_comm] using (hall m hm hmatch).2

/-- How a socket can come to be chosen for an event. -/
def ChosenSocket (self : ActionDispatcher) (vmId : Option String) (vm socket : String) : Prop :=
  OnlySocket (matchesVmId · vmId) self.qmp socket ∨
    self.requireStableQmpMatch = false ∧ (∀ m ∈ self.qmp, matchesVmId m vmId = false) ∧
      OnlySocket (matchesVm · vm) self.qmp socket ∧
        ∀ m ∈ self.qmp, matchesVm m vm = true → rejectsVmId m vmId = false

variable {vmId : Option String} {vm : String}

theorem stableSocket_none
    (h : self.stableSocket vmId vm = .ok none) : ∀ m ∈ self.qmp, matchesVmId m vmId = false := by
  intro m hm
  cases vmId with
  | none => rfl
  | some id =>
    obtain ⟨hall, -⟩ := uniqueSocket_spec h
    by_contra hmatch
    have := hall m hm (by simpa using hmatch)
    simp at this

theorem qmpSocketFor_spec (h : self.qmpSocketFor vmId vm = .ok socket) :
    vmId.any (startsWith "ambiguous:") = false ∧ self.ChosenSocket vmId vm socket := by
  unfold qmpSocketFor at h
  by_cases hambiguous : vmId.any (startsWith "ambiguous:") = true
  · rw [if_pos hambiguous] at h
    cases h
  · rw [if_neg hambiguous] at h
    refine ⟨by simpa using hambiguous, ?_⟩
    obtain ⟨stable, hstable, h⟩ := except_bind_ok.1 h
    cases stable with
    | some found =>
      obtain rfl : found = socket := Except.ok.inj h
      left
      cases vmId with
      | none => simp [stableSocket] at hstable
      | some id => exact onlySocket_of_uniqueSocket hstable
    | none =>
      right
      by_cases hrequire : self.requireStableQmpMatch = true
      · rw [if_pos hrequire] at h
        cases h
      · rw [if_neg hrequire] at h
        obtain ⟨named, hnamed, h⟩ := except_bind_ok.1 h
        cases named with
        | none => cases h
        | some found =>
          obtain rfl : found = socket := Except.ok.inj h
          refine ⟨by simpa using hrequire, stableSocket_none hstable,
            onlySocket_of_uniqueSocket hnamed, fun m hm hmatch => ?_⟩
          exact failIf_eq_ok.1 ((uniqueSocket_spec hnamed).1 m hm hmatch).1

/-- Everything written so far satisfies `P`. -/
def AllSent (P : QmpSent → Prop) (wire : Wire) : Prop := ∀ sent ∈ wire, P sent

variable {P : QmpSent → Prop}

theorem keeps_qmpExec (outside : Outside) {command : QmpCommand} (h : P ⟨socket, command⟩) :
    Op.Keeps (AllSent P) (qmpExec outside socket command) := by
  intro wire hwire sent hsent
  have hmem : sent ∈ wire ++ [⟨socket, command⟩] := hsent
  obtain hold | hnew := List.mem_append.1 hmem
  · exact hwire sent hold
  · rw [List.mem_singleton.1 hnew]
    exact h

theorem keeps_qmpSession (outside : Outside)
    (h : ∀ command, P ⟨socket, command⟩) (command : QmpCommand) :
    Op.Keeps (AllSent P) (qmpSession outside socket command) := by
  refine Op.Keeps.bind (Op.keeps_lift _) fun _ => ?_
  refine Op.Keeps.bind (keeps_qmpExec outside (h _)) fun _ => ?_
  exact keeps_qmpExec outside (h _)

/-- Written to the socket chosen for the VM, for an action that needs one. -/
def SentFor (self : ActionDispatcher) (vmId : Option String) (vm kind : String)
    (sent : QmpSent) : Prop :=
  qmpBackedAction kind = true ∧ self.qmpSocketFor vmId vm = .ok sent.socket

theorem keeps_sessionAction (outside : Outside)
    (h : ∀ command, P ⟨socket, command⟩) (command : QmpCommand) (outcome : ActionOutcome) :
    Op.Keeps (AllSent P) (do qmpSession outside socket command; return outcome) :=
  Op.Keeps.bind (keeps_qmpSession outside h command) fun _ => Op.keeps_pure outcome

theorem keeps_attempt (outside : Outside) (vm : String) (vmId : Option String) (kind : String)
    (outputPath nic : Option String) :
    Op.Keeps (AllSent (self.SentFor vmId vm kind))
      (self.attempt outside vm vmId kind outputPath nic) := by
  unfold attempt
  split_ifs with hpause hresume hdump hnic
  · subst hpause
    refine Op.keeps_lift_bind fun socket hsocket => ?_
    exact keeps_sessionAction outside (fun _ => ⟨by decide, hsocket⟩) _ _
  · subst hresume
    refine Op.keeps_lift_bind fun socket hsocket => ?_
    exact keeps_sessionAction outside (fun _ => ⟨by decide, hsocket⟩) _ _
  · subst hdump
    refine Op.keeps_lift_bind fun socket hsocket => ?_
    refine Op.Keeps.bind (Op.keeps_lift _) fun _ => ?_
    exact keeps_sessionAction outside (fun _ => ⟨by decide, hsocket⟩) _ _
  · subst hnic
    refine Op.keeps_lift_bind fun socket hsocket => ?_
    refine Op.Keeps.bind (Op.keeps_lift _) fun _ => ?_
    exact keeps_sessionAction outside (fun _ => ⟨by decide, hsocket⟩) _ _
  · exact Op.keeps_pure _
  · exact Op.keeps_pure _
  · exact Op.keeps_fail _

theorem retry_keeps {I : Wire → Prop} {action : ℕ → Op Wire ActionFailure ActionOutcome}
    {retries : ℕ} (h : ∀ n, Op.Keeps I (action n)) (left : ℕ) (wire : Wire) (hwire : I wire) :
    I (retry action retries left wire).2 := by
  induction left generalizing wire with
  | zero =>
    have hnext := h (retries - 0) wire hwire
    rw [retry]
    cases hrun : (action (retries - 0)).run wire with
    | mk result wire' =>
      rw [hrun] at hnext
      cases result <;> exact hnext
  | succ left ih =>
    have hnext := h (retries - (left + 1)) wire hwire
    rw [retry]
    cases hrun : (action (retries - (left + 1))).run wire with
    | mk result wire' =>
      rw [hrun] at hnext
      cases result with
      | ok outcome => exact hnext
      | error failure =>
        dsimp only
        split_ifs
        · exact ih wire' hnext
        · exact hnext

/-- What `run_action` writes went past the identity checks, to the socket chosen. -/
theorem runAction_sent {outside : ℕ → Outside}
    {kind : String} {outputPath nic : Option String} {identity : Option IdentityInfo}
    {tags : List String} {execute : Bool} {sent : QmpSent}
    (h : sent ∈ (self.runAction outside vm vmId kind outputPath nic identity tags execute []).2) :
    self.identitySafetyRefusal vmId kind identity tags = none ∧
      self.SentFor vmId vm kind sent := by
  unfold runAction at h
  split_ifs at h
  · split at h
    · simp at h
    · refine ⟨‹_›, ?_⟩
      exact retry_keeps (fun n => keeps_attempt (outside n) vm vmId kind outputPath nic) _ []
        (by simp [AllSent]) sent h
  · simp at h

/-- What the identity checks let through. -/
structure Trusted (dispatcher : ActionDispatcher) (identity : IdentityInfo) (tags : List String) :
    Prop where
  noConflict : ∀ tag ∈ tags, tag ≠ "identity:conflict" ∧
    startsWith "identity_conflict:" tag = false
  notAmbiguous : identity.ambiguous = false ∧ .ambiguous ∉ identity.sources
  notPidOnly : isPidOnlyIdentity identity = false
  confident : identity.confidence.meets dispatcher.minActionConfidence = true
  verified : identity.startTimeVerified = true ∧ .startTimeVerified ∈ identity.sources

theorem identitySafetyRefusal_eq_none {kind : String}
    {identity : Option IdentityInfo} {tags : List String}
    (h : self.identitySafetyRefusal vmId kind identity tags = none)
    (hkind : qmpBackedAction kind = true)
    (hid : vmId.any (startsWith "ambiguous:") = false) :
    ∃ info, identity = some info ∧ self.Trusted info tags := by
  unfold identitySafetyRefusal at h
  simp only [hkind, hid, Bool.not_true, Bool.false_eq_true, if_false] at h
  split_ifs at h with hstale hconflict
  cases identity with
  | none => simp at h
  | some info =>
    dsimp only at h
    split_ifs at h with hambiguous hpid hlow hunverified
    refine ⟨info, rfl, ?_, ?_, ?_, ?_, ?_⟩
    · simpa [hasAnyIdentityConflictTag] using hconflict
    · simpa using hambiguous
    · simpa using hpid
    · simpa using hlow
    · simpa using hunverified

end ActionDispatcher
/-- The events that policy rules act on: a trace line's exit event once its identity is resolved,
the W^X alert raised for it, and a PMU sample. -/
inductive Acted (resolver : VmIdentityResolver) (host : Host) : Event → Prop
  | exit (vm : String) (vmId : Option String) (hostPid vcpuId : Option ℤ) (tags : List String) :
    Acted resolver host (resolver.enrichEvent host (exitEvent vm vmId hostPid vcpuId tags)).1
  | wx (mode : String) (writeTags : List String) (vm : String) (vmId : Option String)
      (hostPid vcpuId : Option ℤ) (tags : List String) :
    Acted resolver host (wxEvent mode writeTags
      (resolver.enrichEvent host (exitEvent vm vmId hostPid vcpuId tags)).1)
  | pmu (found : Host) (pid tid : ℤ) (vm : String) (vcpuId : Option ℤ) :
    Acted resolver host (pmuEvent found pid tid vm vcpuId)

/-- One known domain, and no other, claims the event's task under the start time that the host
shows for it. -/
def Event.VerifiedTask (ev : Event) (resolver : VmIdentityResolver) (host : Host) : Prop :=
  ∃ task ticks discovery domain, ev.hostTid.or ev.hostPid = some task ∧
    host.startTime task = some ticks ∧ resolver.libvirt = some discovery ∧
    discovery.OnlyClaimant task ticks domain

/-- What a command on a socket requires of the event it acts on. -/
structure Authorized (dispatcher : ActionDispatcher) (resolver : VmIdentityResolver)
    (host : Host) (ev : Event) (socket : String) : Prop where
  trusted : ∃ info, ev.identity = some info ∧ dispatcher.Trusted info ev.tags
  verified : ev.VerifiedTask resolver host
  chosen : dispatcher.ChosenSocket ev.vmId ev.vm socket

theorem addIdentity_task (ev : Event) (ident : VmIdentity) :
    (ev.addIdentity ident).hostTid.or (ev.addIdentity ident).hostPid =
      ev.hostTid.or ev.hostPid := by
  have hname : (ev.addName ident).hostTid = ev.hostTid ∧
      (ev.addName ident).hostPid = ev.hostPid := by
    unfold Event.addName
    split <;> exact ⟨rfl, rfl⟩
  have hvcpu (ev : Event) : (ev.addVcpu ident).hostTid = ev.hostTid ∧
      (ev.addVcpu ident).hostPid = ev.hostPid := by
    unfold Event.addVcpu
    split <;> exact ⟨rfl, rfl⟩
  simp only [Event.addIdentity, hvcpu, hname]

theorem enrichEvent_task (resolver : VmIdentityResolver) (host : Host) (ev : Event) :
    (resolver.enrichEvent host ev).1.hostTid.or (resolver.enrichEvent host ev).1.hostPid =
      ev.hostTid.or ev.hostPid := by
  unfold enrichEvent
  split
  · exact addIdentity_task ev _
  · rfl

theorem merge_exitEvent (vm : String) (vmId : Option String) (hostPid vcpuId : Option ℤ)
    (tags : List String) (ident : VmIdentity) :
    (mergeEventIdentity (exitEvent vm vmId hostPid vcpuId tags).identity
      ident).startTimeVerified = ident.startTimeVerified := Bool.false_or _

/-- Only the resolver verifies an exit event's identity. -/
theorem enriched_verified {resolver : VmIdentityResolver} (hsound : resolver.CacheSound)
    (host : Host) {vm : String} {vmId : Option String} {hostPid vcpuId : Option ℤ}
    {tags : List String} {info : IdentityInfo}
    (hinfo : (resolver.enrichEvent host (exitEvent vm vmId hostPid vcpuId tags)).1.identity =
      some info) (hverified : info.startTimeVerified = true) :
    (resolver.enrichEvent host (exitEvent vm vmId hostPid vcpuId tags)).1.VerifiedTask resolver
      host := by
  unfold Event.VerifiedTask
  rw [enrichEvent_task]
  unfold enrichEvent at hinfo
  split at hinfo
  · rename_i task _ htask
    have hident : (resolver.resolvePid host task).1.startTimeVerified = true := by
      obtain rfl := Option.some.inj hinfo
      exact (merge_exitEvent vm vmId hostPid vcpuId tags _).symm.trans hverified
    obtain ⟨-, -, hby⟩ := resolvePid_spec hsound host task
    obtain ⟨discovery, ticks, domain, hlibvirt, hticks, honly, -⟩ := hby hident
    exact ⟨task, ticks, discovery, domain, htask, hticks, hlibvirt, honly⟩
  · obtain rfl := Option.some.inj hinfo
    simp at hverified

theorem acted_verified {resolver : VmIdentityResolver} (hsound : resolver.CacheSound)
    {host : Host} {ev : Event} (hev : Acted resolver host ev) {info : IdentityInfo}
    (hinfo : ev.identity = some info) (hverified : info.startTimeVerified = true) :
    ev.VerifiedTask resolver host := by
  cases hev with
  | exit => exact enriched_verified hsound host hinfo hverified
  | wx => exact enriched_verified hsound host hinfo hverified
  | pmu found pid =>
    obtain rfl := Option.some.inj hinfo
    have := (VmIdentity.unverified_resolveOnce found pid (found.startTime pid)).1
    exact absurd (this.symm.trans hverified) (by simp)

/-- Whatever the resolver has seen before, whatever the host shows and whatever a monitor
answers, a command reaches a socket only for an event with a trusted and verified identity, and
only the socket the mappings give for it. -/
theorem run_sent_authorized (enable live : Bool) (ttl : ℕ)
    (libvirt : Option LibvirtDomainDiscovery) (calls : List Call) (host : Host)
    (ev : Event) (dispatcher : ActionDispatcher) (outside : ℕ → Outside) (kind : String)
    (outputPath nic : Option String) (sent : QmpSent)
    (hev : Acted (run step
      (.withLiveHostLookup enable live ttl libvirt) calls).2 host ev)
    (hsent : sent ∈ (dispatcher.runAction outside ev.vm ev.vmId kind outputPath nic ev.identity
      ev.tags true []).2) :
    Authorized dispatcher (run step
      (.withLiveHostLookup enable live ttl libvirt) calls).2 host ev sent.socket := by
  have hsound := run_cacheSound enable live ttl libvirt calls
  obtain ⟨hgate, hkind, hsocket⟩ := ActionDispatcher.runAction_sent hsent
  obtain ⟨hid, hchosen⟩ := ActionDispatcher.qmpSocketFor_spec hsocket
  obtain ⟨info, hinfo, htrusted⟩ :=
    ActionDispatcher.identitySafetyRefusal_eq_none hgate hkind hid
  exact ⟨⟨info, hinfo, htrusted⟩, acted_verified hsound hev hinfo htrusted.verified.1,
    hchosen⟩

/-- A host with one QEMU task, which one domain claims under its start time. -/
def oneTaskHost : Host where
  now := 0
  startTime := fun pid => if pid = 42 then some 7 else none
  cmdline := fun _ => none
  cgroup := fun _ => none
  discoverQmpSocket := fun _ => none

def oneDomain : LibvirtDomainDiscovery :=
  ⟨[⟨"web", "u-1", none, [42], [], [], [⟨42, some 7⟩], .xml⟩]⟩

def webEvent : Event :=
  ((withLiveHostLookup true true 1000 (some oneDomain)).enrichEvent oneTaskHost
    (exitEvent "qemu" none (some 42) none [])).1

def webDispatcher : ActionDispatcher where
  qmp := [⟨some ⟨"^libvirt:u-1$", [⟨true, true, ["libvirt:u-1".toList]⟩]⟩, none, "/run/web.sock"⟩]
  requireStableQmpMatch := true
  minActionConfidence := .high
  retries := 0
  dumpRoot := "/var/lib/aegishv/dumps"

example : ActionDispatcher.new ⟨[⟨"^libvirt:u-1$", "", "/run/web.sock"⟩], true, .high, 0,
    "/var/lib/aegishv/dumps"⟩ = .ok webDispatcher := rfl

theorem run_sent_authorized_pause :
    Authorized webDispatcher
      (run step (.withLiveHostLookup true true 1000 (some oneDomain)) []).2
      oneTaskHost webEvent "/run/web.sock" :=
  run_sent_authorized true true 1000 (some oneDomain) [] oneTaskHost webEvent webDispatcher
    (fun _ => ⟨fun _ => .ok (), fun _ => .ok (), fun _ _ => .ok ()⟩) "pause_vm" none none
    ⟨"/run/web.sock", .stop⟩ (.exit "qemu" none (some 42) none []) (by decide +kernel)

end AegisHV
