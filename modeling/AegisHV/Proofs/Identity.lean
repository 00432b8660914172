import AegisHV.Lib.Run
import AegisHV.Spec.Identity

/-! Why a verified identity can be trusted. An identity is verified only by the one domain that
claims the task under the start time observed, and that stays true of a cached identity: a
lifecycle event that could change which domains claim a task drops the task's entry. -/

namespace AegisHV

open Sys List LibvirtDomain

/-- The domain has the task, under this start time. -/
def LibvirtDomain.Claims (domain : LibvirtDomain) (taskId : ℤ) (ticks : ℕ) : Prop :=
  domain.hasTask taskId = true ∧ domain.startTimeFor taskId = some ticks

instance (domain : LibvirtDomain) (taskId : ℤ) (ticks : ℕ) :
    Decidable (domain.Claims taskId ticks) := inferInstanceAs (Decidable (_ ∧ _))

/-- This domain, and no other, claims the task under the start time. -/
def LibvirtDomainDiscovery.OnlyClaimant (self : LibvirtDomainDiscovery) (taskId : ℤ) (ticks : ℕ)
    (domain : LibvirtDomain) : Prop :=
  self.domains.filter (·.Claims taskId ticks) = [domain]

theorem matchEntries_some {ticks : ℕ} {entries : List HostTaskIdentity} :
    matchEntries (some ticks) entries = .matched ↔
      entries.findSome? (·.startTimeTicks) = some ticks := by
  induction entries with
  | nil => simp [matchEntries]
  | cons identity rest ih =>
    obtain ⟨taskId, start⟩ := identity
    cases start with
    | none => simpa [matchEntries] using ih
    | some expected =>
      simp only [matchEntries, findSome?_cons]
      split_ifs with h <;> simp [h]

variable {domain : LibvirtDomain} {taskId : ℤ}

theorem taskStartTimeMatches_some {ticks : ℕ} :
    taskStartTimeMatches domain taskId (some ticks) = .matched ↔
      domain.startTimeFor taskId = some ticks := by
  rw [taskStartTimeMatches, matchEntries_some, startTimeFor]
  induction domain.qemuTaskIdentities with
  | nil => simp
  | cons identity rest ih =>
    by_cases h : identity.taskId = taskId
    · simp only [h, filter_cons, decide_true, if_true, findSome?_cons]
      cases identity.startTimeTicks with
      | none => simpa using ih
      | some expected => simp
    · simpa [h] using ih

theorem claimants_matched (self : LibvirtDomainDiscovery) (taskId : ℤ) (ticks : ℕ) :
    self.claimants taskId (some ticks) .matched = self.domains.filter (·.Claims taskId ticks) := by
  rw [LibvirtDomainDiscovery.claimants, filter_filter]
  apply filter_congr
  intro domain _
  apply Bool.eq_iff_iff.2
  simp only [Bool.and_eq_true, decide_eq_true_eq, taskStartTimeMatches_some]
  exact and_comm

theorem lookup_eq_some {self : LibvirtDomainDiscovery} {observed : Option ℕ}
    (h : self.lookupTaskWithStartTime taskId observed = .ok (some domain)) :
    self.claimants taskId observed .matched = [domain] := by
  unfold LibvirtDomainDiscovery.lookupTaskWithStartTime at h
  split at h
  · revert h
    dsimp only
    split_ifs <;> simp
  · rename_i found heq
    obtain rfl : found = domain := by simpa using h
    exact heq
  · cases h

theorem verified_some {observed : Option ℕ}
    (h : domainTaskStartTimeVerified domain taskId observed = true) :
    ∃ ticks, observed = some ticks := by
  cases observed with
  | none => simp [domainTaskStartTimeVerified] at h
  | some ticks => exact ⟨ticks, rfl⟩

namespace VmIdentity

variable {self : VmIdentity}

@[simp] theorem startTimeVerified_pushSource (source : IdentitySource) :
    (self.pushSource source).startTimeVerified = self.startTimeVerified := rfl

@[simp] theorem startTimeVerified_recompute :
    self.recomputeConfidence.startTimeVerified = self.startTimeVerified := rfl

@[simp] theorem libvirtUuid_pushSource (source : IdentitySource) :
    (self.pushSource source).libvirtUuid = self.libvirtUuid := rfl

@[simp] theorem libvirtUuid_recompute :
    self.recomputeConfidence.libvirtUuid = self.libvirtUuid := rfl

@[simp] theorem hostStartTimeTicks_pushSource (source : IdentitySource) :
    (self.pushSource source).hostStartTimeTicks = self.hostStartTimeTicks := rfl

@[simp] theorem hostStartTimeTicks_recompute :
    self.recomputeConfidence.hostStartTimeTicks = self.hostStartTimeTicks := rfl

@[simp] theorem startTimeVerified_mark (taskId : ℤ) (reason : IdentityConflictReason) :
    (self.markAmbiguousHostTask taskId reason).startTimeVerified = false := rfl

@[simp] theorem startTimeVerified_setVcpu (found : VcpuThreadLookup) :
    (self.setVcpu found).startTimeVerified = self.startTimeVerified := by
  cases found <;> rfl

@[simp] theorem libvirtUuid_setVcpu (found : VcpuThreadLookup) :
    (self.setVcpu found).libvirtUuid = self.libvirtUuid := by
  cases found <;> rfl

@[simp] theorem hostStartTimeTicks_setVcpu (found : VcpuThreadLookup) :
    (self.setVcpu found).hostStartTimeTicks = self.hostStartTimeTicks := by
  cases found <;> rfl

/-- Nothing the host shows verifies a start time, and it is kept as it was read. -/
structure Unverified (ident : VmIdentity) (ticks : Option ℕ) : Prop where
  unverified : ident.startTimeVerified = false
  ticks : ident.hostStartTimeTicks = ticks

variable {ticks : Option ℕ}

theorem Unverified.pushSource (h : Unverified self ticks)
    (source : IdentitySource) : Unverified (self.pushSource source) ticks := ⟨h.1, h.2⟩

theorem Unverified.addCmdline (h : Unverified self ticks)
    (args : CmdlineNames) : Unverified (self.addCmdline args) ticks := by
  unfold VmIdentity.addCmdline
  dsimp only
  split_ifs <;> exact ⟨h.1, h.2⟩

theorem Unverified.mergeCgroup (h : Unverified self ticks) (taskId : ℤ)
    (cgroup : CgroupNames) : Unverified (self.mergeCgroupIdentity taskId cgroup) ticks := by
  unfold mergeCgroupIdentity
  dsimp only
  generalize hsourced : (if (cgroup.domainName.isSome || cgroup.unit.isSome) = true then
    self.pushSource .procCgroup else self) = sourced
  have hsourced' : Unverified sourced ticks := by
    rw [← hsourced]
    split_ifs
    · exact h.pushSource _
    · exact h
  split
  · exact ⟨hsourced'.1, hsourced'.2⟩
  · exact ⟨hsourced'.1, hsourced'.2⟩
  · split_ifs
    · exact ⟨hsourced'.1, hsourced'.2⟩
    · exact ⟨rfl, hsourced'.2⟩
    · exact ⟨hsourced'.1, hsourced'.2⟩

theorem Unverified.nameVm (h : Unverified self ticks) (host : Host) :
    Unverified (self.nameVm host) ticks := by
  unfold VmIdentity.nameVm
  dsimp only
  split <;> split <;> exact ⟨h.1, h.2⟩

theorem unverified_resolveOnce (host : Host) (pid : ℤ) (startTime : Option ℕ) :
    Unverified (resolveIdentityOnceWithStartTime host pid startTime) startTime := by
  unfold resolveIdentityOnceWithStartTime
  extract_lets start named grouped placed sourced
  have hstart : Unverified start startTime := ⟨rfl, rfl⟩
  have hnamed : Unverified named startTime := by
    unfold named
    split
    · exact hstart.addCmdline _
    · exact hstart
  have hgrouped : Unverified grouped startTime := by
    unfold grouped
    split
    · exact hnamed.mergeCgroup pid _
    · exact hnamed
  have hplaced : Unverified placed startTime := by
    unfold placed
    split_ifs
    · exact hgrouped
    · exact hgrouped.nameVm host
  have hsourced : Unverified sourced startTime := by
    unfold sourced
    split_ifs
    · exact hplaced.pushSource _
    · exact hplaced
  exact ⟨hsourced.1, hsourced.2⟩

theorem unverified_fallback (pid : ℤ) : Unverified (fallbackPidIdentity pid) none := ⟨rfl, rfl⟩

/-- A domain verifies the identity exactly when it has the observed start time. -/
theorem adoptDomain_spec (self : VmIdentity) (taskId : ℤ) (domain : LibvirtDomain) :
    (self.adoptDomain taskId domain).hostStartTimeTicks = self.hostStartTimeTicks ∧
      (self.adoptDomain taskId domain).libvirtUuid = some domain.uuid ∧
      (self.startTimeVerified = false → (self.adoptDomain taskId domain).startTimeVerified =
        domainTaskStartTimeVerified domain taskId self.hostStartTimeTicks) := by
  unfold adoptDomain
  cases domain.qmpSocket <;>
    cases domainTaskStartTimeVerified domain taskId self.hostStartTimeTicks <;> simp

theorem applyLibvirtDiscovery_spec (h : Unverified self ticks) (taskId : ℤ)
    (discovery : LibvirtDomainDiscovery) :
    (self.applyLibvirtDiscovery taskId discovery).hostStartTimeTicks = ticks ∧
      ((self.applyLibvirtDiscovery taskId discovery).startTimeVerified = true →
        ∃ observed domain, ticks = some observed ∧
          discovery.OnlyClaimant taskId observed domain ∧
          (self.applyLibvirtDiscovery taskId discovery).libvirtUuid = some domain.uuid) := by
  have hadopt (domain : LibvirtDomain) (hverified :
      (self.adoptDomain taskId domain).startTimeVerified = true)
      (hlookup : discovery.lookupTaskWithStartTime taskId self.hostStartTimeTicks =
        .ok (some domain)) :
      ∃ observed, ticks = some observed ∧ discovery.OnlyClaimant taskId observed domain := by
    obtain ⟨-, -, hsame⟩ := adoptDomain_spec self taskId domain
    rw [hsame h.1] at hverified
    obtain ⟨observed, hobserved⟩ := verified_some hverified
    have hclaimants := lookup_eq_some hlookup
    rw [hobserved, claimants_matched] at hclaimants
    exact ⟨observed, by rw [← h.2, hobserved], hclaimants⟩
  unfold applyLibvirtDiscovery
  split
  · exact ⟨h.2, fun hverified => absurd (h.1.symm.trans hverified) (by simp)⟩
  · rename_i domain hlookup
    obtain ⟨hticks, huuid, -⟩ := adoptDomain_spec self taskId domain
    split_ifs
    · exact ⟨h.2, fun hverified => absurd hverified (by simp)⟩
    · exact ⟨h.2, fun hverified => absurd hverified (by simp)⟩
    · refine ⟨hticks.trans h.2, fun hverified => ?_⟩
      obtain ⟨observed, hobserved, honly⟩ := hadopt domain hverified hlookup
      exact ⟨observed, domain, hobserved, honly, huuid⟩
    · refine ⟨hticks.trans h.2, fun hverified => ?_⟩
      obtain ⟨observed, hobserved, honly⟩ := hadopt domain hverified hlookup
      exact ⟨observed, domain, hobserved, honly, huuid⟩
  · exact ⟨h.2, fun hverified => absurd hverified (by simp)⟩
  · exact ⟨h.2, fun hverified => absurd hverified (by simp)⟩
  · exact ⟨h.2, fun hverified => absurd hverified (by simp)⟩

end VmIdentity

namespace LibvirtDomainDiscovery

variable {domain : LibvirtDomain} {taskId : ℤ}

theorem hasTask_iff :
    domain.hasTask taskId = true ↔ taskId ∈ domain.taskIds := by
  simp [hasTask, taskIds, mem_insertionSort, or_assoc]

variable {ticks : ℕ}

theorem startTimeFor_mem (h : domain.startTimeFor taskId = some ticks) :
    ∃ identity ∈ domain.qemuTaskIdentities, identity.taskId = taskId := by
  obtain ⟨identity, hmem, hsome⟩ := exists_of_findSome?_eq_some h
  split_ifs at hsome with hid
  exact ⟨identity, hmem, hid⟩

/-- Taking other tasks away from a domain leaves what it says about this one. -/
theorem claims_dropTasks {tasks : List ℤ} (h : taskId ∉ tasks) :
    (dropTasks tasks domain).Claims taskId ticks ↔ domain.Claims taskId ticks := by
  have hstart : (dropTasks tasks domain).startTimeFor taskId = domain.startTimeFor taskId := by
    simp only [startTimeFor, dropTasks]
    induction domain.qemuTaskIdentities with
    | nil => rfl
    | cons identity rest ih =>
      by_cases hmem : identity.taskId ∈ tasks
      · have hne : identity.taskId ≠ taskId := fun heq => h (heq ▸ hmem)
        rw [filter_cons_of_neg (by simpa using hmem), ih, findSome?_cons, if_neg hne]
      · rw [filter_cons_of_pos (by simpa using hmem), findSome?_cons, findSome?_cons, ih]
  have htask : (dropTasks tasks domain).hasTask taskId = domain.hasTask taskId := by
    apply Bool.eq_iff_iff.2
    simp only [hasTask_iff, taskIds, dropTasks, mem_dedup,
      mem_insertionSort, mem_append, mem_map, mem_filter, decide_eq_true_eq]
    grind
  rw [Claims, Claims, hstart, htask]

theorem not_isEmptied (h : domain.Claims taskId ticks) : isEmptied domain = false := by
  obtain ⟨identity, hmem, -⟩ := startTimeFor_mem h.2
  have hne : domain.qemuTaskIdentities ≠ [] := ne_nil_of_mem hmem
  simp [isEmptied, hne]

theorem filter_replaceFirst {p : LibvirtDomain → Bool}
    {domains : List LibvirtDomain} (hdomain : p domain = false)
    (hreplaced : ∀ existing ∈ domains, existing.uuid = domain.uuid → p existing = false) :
    (replaceFirst domain domains).filter p = domains.filter p := by
  induction domains with
  | nil => simp [replaceFirst, hdomain]
  | cons existing rest ih =>
    rw [replaceFirst]
    split_ifs with huuid
    · have hexisting := hreplaced existing (by simp) huuid
      simp [hdomain, hexisting]
    · have hrest := ih fun e he => hreplaced e (by simp [he])
      rw [filter_cons, filter_cons, hrest]

/-- Learning about another domain, which does not have the task, leaves the one claimant. -/
theorem OnlyClaimant.upsert {self : LibvirtDomainDiscovery}
    {other : LibvirtDomain} (h : self.OnlyClaimant taskId ticks domain)
    (huuid : domain.uuid ≠ other.uuid) (htask : taskId ∉ other.taskIds) :
    (self.upsertDomain other).OnlyClaimant taskId ticks (dropTasks other.taskIds domain) := by
  unfold OnlyClaimant upsertDomain at *
  generalize hstrip : (fun existing : LibvirtDomain => if existing.uuid = other.uuid then existing
    else dropTasks other.taskIds existing) = strip
  have hclaims (existing : LibvirtDomain) :
      (strip existing).Claims taskId ticks ↔ existing.Claims taskId ticks := by
    rw [← hstrip]
    dsimp only
    split_ifs
    · exact Iff.rfl
    · exact claims_dropTasks htask
  have hkept : ((self.domains.map strip).filter fun existing =>
      existing.uuid = other.uuid || !isEmptied existing).filter (·.Claims taskId ticks) =
      [dropTasks other.taskIds domain] := by
    rw [filter_filter]
    have hsame : ∀ existing ∈ self.domains.map strip,
        (decide (existing.Claims taskId ticks) &&
          (existing.uuid = other.uuid || !isEmptied existing)) =
        decide (existing.Claims taskId ticks) := by
      intro existing _
      by_cases hc : existing.Claims taskId ticks
      · simp [hc, not_isEmptied hc]
      · simp [hc]
    rw [filter_congr hsame, filter_map]
    have hcomp : ((fun d : LibvirtDomain => decide (d.Claims taskId ticks)) ∘ strip) =
        fun d => decide (d.Claims taskId ticks) := by
      funext d
      simp [hclaims]
    rw [hcomp, h, ← hstrip]
    simp [huuid]
  rw [filter_replaceFirst, hkept]
  · simp [Claims, hasTask_iff, htask]
  · intro existing hmem heq
    by_contra hc
    have hin : existing ∈ [dropTasks other.taskIds domain] := by
      rw [← hkept]
      exact mem_filter.2 ⟨hmem, by simpa using hc⟩
    obtain rfl := mem_singleton.1 hin
    exact huuid heq

theorem OnlyClaimant.remove {self : LibvirtDomainDiscovery} {uuid : String} (h : self.OnlyClaimant taskId ticks domain)
    (huuid : domain.uuid ≠ uuid) : (self.removeDomainUuid uuid).OnlyClaimant taskId ticks domain := by
  unfold OnlyClaimant removeDomainUuid at *
  rw [filter_comm, h]
  simp [huuid]

end LibvirtDomainDiscovery

namespace VmIdentityResolver

variable {self : VmIdentityResolver}

/-- The identity was verified by the one domain that claims the task under the start time. -/
def VerifiedBy (self : VmIdentityResolver) (pid : ℤ) (ticks : Option ℕ) (ident : VmIdentity) :
    Prop :=
  ∃ discovery observed domain, self.libvirt = some discovery ∧ ticks = some observed ∧
    discovery.OnlyClaimant pid observed domain ∧ ident.libvirtUuid = some domain.uuid

/-- Every cached identity that is marked verified still is. -/
def CacheSound (self : VmIdentityResolver) : Prop :=
  ∀ pid cached, self.cache pid = some cached → cached.value.startTimeVerified = true →
    self.VerifiedBy pid cached.startTimeTicks cached.value

theorem settle_fields (ident : VmIdentity) (pid : ℤ) (stale : Bool) :
    (settle ident pid stale).startTimeVerified = ident.startTimeVerified ∧
      (settle ident pid stale).hostStartTimeTicks = ident.hostStartTimeTicks ∧
      (settle ident pid stale).libvirtUuid = ident.libvirtUuid := by
  unfold settle
  dsimp only
  split_ifs <;> exact ⟨rfl, rfl, rfl⟩

theorem locate_spec (host : Host) (pid : ℤ) (startTime : Option ℕ)
    (h : (self.locate host pid startTime).startTimeVerified = true) :
    (self.locate host pid startTime).hostStartTimeTicks = startTime ∧
      self.liveHostLookup = true ∧
      self.VerifiedBy pid startTime (self.locate host pid startTime) := by
  have honce := VmIdentity.unverified_resolveOnce host pid startTime
  unfold locate at h ⊢
  split at h
  · exact absurd h (by simp [(VmIdentity.unverified_fallback pid).1])
  · exact absurd h (by simp [honce.1])
  · rename_i libvirt hlive hlibvirt
    obtain ⟨hticks, hverified⟩ := VmIdentity.applyLibvirtDiscovery_spec honce pid libvirt
    obtain ⟨observed, domain, hobserved, honly, huuid⟩ := hverified h
    simp only [hlive]
    exact ⟨hticks, trivial, libvirt, observed, domain, hlibvirt, hobserved, honly, huuid⟩

theorem VerifiedBy.congr {ticks : Option ℕ} {pid : ℤ} {ident ident' : VmIdentity}
    (h : self.VerifiedBy pid ticks ident) (huuid : ident'.libvirtUuid = ident.libvirtUuid) :
    self.VerifiedBy pid ticks ident' := by
  obtain ⟨discovery, observed, domain, hlibvirt, hticks, honly, hdomain⟩ := h
  exact ⟨discovery, observed, domain, hlibvirt, hticks, honly, huuid.trans hdomain⟩

/-- What a resolved identity says of its task, now: if it is marked verified, then the one
domain that claims the task has the start time the host shows. -/
theorem resolvePid_spec (hsound : self.CacheSound) (host : Host) (pid : ℤ) :
    (self.resolvePid host pid).2.2.CacheSound ∧
      (self.resolvePid host pid).2.2.libvirt = self.libvirt ∧
      ((self.resolvePid host pid).1.startTimeVerified = true →
        self.VerifiedBy pid (host.startTime pid) (self.resolvePid host pid).1) := by
  unfold resolvePid
  extract_lets startTime cached stale ident result entry
  split
  · rename_i found hfound
    obtain ⟨hcached, hmatches⟩ := Option.filter_eq_some_iff.1 hfound
    refine ⟨hsound, rfl, fun hverified => ?_⟩
    simp only [cacheEntryMatches, Bool.and_eq_true, beq_iff_eq] at hmatches
    obtain ⟨⟨hsome, hticks⟩, -⟩ := hmatches
    have hlive : startTime = host.startTime pid := by
      by_cases hlive : self.liveHostLookup = true
      · exact if_pos hlive
      · rw [hticks, show startTime = none from if_neg hlive] at hsome
        simp at hsome
    rw [← hlive, ← hticks]
    exact hsound pid found hcached hverified
  · have hident : ident.startTimeVerified = true → ident.hostStartTimeTicks = startTime ∧
        startTime = host.startTime pid ∧ self.VerifiedBy pid startTime ident := by
      intro hverified
      obtain ⟨hsame, hticks, huuid⟩ := settle_fields (self.locate host pid startTime) pid stale
      obtain ⟨hstart, hlive, hby⟩ := locate_spec host pid startTime (hsame ▸ hverified)
      exact ⟨hticks.trans hstart, if_pos hlive, hby.congr huuid⟩
    have hnow : ident.startTimeVerified = true →
        self.VerifiedBy pid (host.startTime pid) ident := by
      intro hverified
      obtain ⟨-, hlive, hby⟩ := hident hverified
      exact hlive ▸ hby
    split_ifs
    · refine ⟨fun pid' cached' hcached' hverified => ?_, rfl, hnow⟩
      by_cases hpid : pid' = pid
      · subst hpid
        obtain rfl : entry = cached' := by simpa using hcached'
        obtain ⟨hticks, -, hby⟩ := hident hverified
        change self.VerifiedBy pid' ident.hostStartTimeTicks ident
        rw [hticks]
        exact hby
      · exact hsound pid' cached' (by simpa [hpid] using hcached') hverified
    · exact ⟨hsound, rfl, hnow⟩

variable {event : LibvirtLifecycleEvent}

theorem toDomain_spec {domain : LibvirtDomain} (h : event.toDomain = some domain) :
    domain.uuid = trimText event.uuid ∧ ∀ taskId ∈ domain.taskIds, taskId ∈ event.taskIds := by
  unfold LibvirtLifecycleEvent.toDomain at h
  split at h
  · simp at h
  · split_ifs at h
    obtain rfl := Option.some.inj h
    refine ⟨rfl, fun taskId htask => ?_⟩
    simp only [taskIds, LibvirtLifecycleEvent.taskIds, mem_dedup,
      mem_insertionSort, map_map, mem_append, mem_map,
      Function.comp_apply, exists_eq_right] at htask ⊢
    exact htask.elim id id

theorem VerifiedBy.update {pid : ℤ} {ticks : Option ℕ} {ident : VmIdentity}
    (h : self.VerifiedBy pid ticks ident)
    (htask : pid ∉ event.taskIds) (huuid : ident.libvirtUuid ≠ some (trimText event.uuid)) :
    (self.updateLibvirtDomains event).VerifiedBy pid ticks ident := by
  obtain ⟨discovery, observed, domain, hlibvirt, hticks, honly, hdomain⟩ := h
  have hne : domain.uuid ≠ trimText event.uuid := by
    intro heq
    exact huuid (by rw [hdomain, heq])
  have hsame : self.VerifiedBy pid ticks ident :=
    ⟨discovery, observed, domain, hlibvirt, hticks, honly, hdomain⟩
  have hupsert : (event.toDomain.elim self self.upsertLibvirtDomain).VerifiedBy pid ticks ident := by
    cases hother : event.toDomain with
    | none => exact hsame
    | some other =>
      obtain ⟨hname, htasks⟩ := toDomain_spec hother
      refine ⟨discovery.upsertDomain other, observed, _, ?_, hticks,
        honly.upsert (hname ▸ hne) fun hmem => htask (htasks pid hmem), hdomain⟩
      simp [upsertLibvirtDomain, hlibvirt]
  have hremove : (self.removeLibvirtDomain (trimText event.uuid)).VerifiedBy pid ticks ident := by
    refine ⟨discovery.removeDomainUuid _, observed, domain, ?_, hticks, honly.remove hne, hdomain⟩
    simp [removeLibvirtDomain, hlibvirt]
  unfold updateLibvirtDomains
  cases event.kind with
  | started => exact hupsert
  | resumed => exact hupsert
  | migrated => exact hupsert
  | stopped => exact hremove
  | paused => exact hsame

theorem cache_updateLibvirtDomains (event : LibvirtLifecycleEvent) :
    (self.updateLibvirtDomains event).cache = self.cache := by
  have hupsert : (event.toDomain.elim self self.upsertLibvirtDomain).cache = self.cache := by
    cases event.toDomain with
    | none => rfl
    | some domain =>
      simp only [Option.elim_some, upsertLibvirtDomain]
      split <;> rfl
  unfold updateLibvirtDomains
  cases event.kind with
  | started => exact hupsert
  | resumed => exact hupsert
  | migrated => exact hupsert
  | stopped => rfl
  | paused => rfl

/-- The entries a lifecycle event leaves in the cache are of other tasks and other domains. -/
theorem CacheSound.lifecycle (hsound : self.CacheSound)
    {self' : VmIdentityResolver} (h : self.applyLibvirtLifecycleEvent event = .ok self') :
    self'.CacheSound := by
  unfold applyLibvirtLifecycleEvent at h
  split_ifs at h
  obtain rfl := Except.ok.inj h
  intro pid cached hcached hverified
  obtain ⟨hbefore, hkept⟩ := Option.filter_eq_some_iff.1 hcached
  rw [cache_updateLibvirtDomains] at hbefore
  simp only [Bool.not_or, Bool.and_eq_true, Bool.not_eq_true', decide_eq_false_iff_not,
    beq_eq_false_iff_ne] at hkept
  exact (hsound pid cached hbefore hverified).update hkept.1 hkept.2

/-- The calls that reach the resolver. -/
inductive Call where
  | enrich (host : Host) (ev : Event)
  | lifecycle (event : LibvirtLifecycleEvent)

def step (self : VmIdentityResolver) : Call → Unit × VmIdentityResolver
  | .enrich host ev => ((), (self.enrichEvent host ev).2)
  | .lifecycle event =>
    match self.applyLibvirtLifecycleEvent event with
    | .ok updated => ((), updated)
    | .error _ => ((), self)

theorem CacheSound.enrich (hsound : self.CacheSound) (host : Host) (ev : Event) :
    (self.enrichEvent host ev).2.CacheSound := by
  unfold enrichEvent
  split
  · exact (resolvePid_spec hsound host _).1
  · exact hsound

theorem CacheSound.step (hsound : self.CacheSound) (call : Call) :
    (self.step call).2.CacheSound := by
  cases call with
  | enrich host ev => exact hsound.enrich host ev
  | lifecycle event =>
    cases h : self.applyLibvirtLifecycleEvent event with
    | ok updated => simpa [VmIdentityResolver.step, h] using hsound.lifecycle h
    | error e => simpa [VmIdentityResolver.step, h] using hsound

theorem run_cacheSound (enable live : Bool) (ttl : ℕ) (libvirt : Option LibvirtDomainDiscovery)
    (calls : List Call) :
    (run step (withLiveHostLookup enable live ttl libvirt) calls).2.CacheSound := by
  apply run_inv (I := fun _ self => CacheSound self)
  · intro pid cached hcached
    simp [withLiveHostLookup] at hcached
  · intro log self call hsound
    exact hsound.step call

end VmIdentityResolver
end AegisHV
