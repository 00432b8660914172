import AegisHV.Lib.Radix
import AegisHV.Lib.Split
import AegisHV.Proofs.TrapRun

/-! What the calls of the trap controller do to the records, call by call: which trap a hit is
attributed to, which states a trap leaves, and which records arming a trap replaces. -/

namespace AegisHV
open Sys List

namespace TrapController

variable {s : TrapController} {id : String} {trap : TrapRecord} {c : Call}

variable {vm space : String} {hit : TrapHit}

/-! Disabled and denied traps. -/

/-- The trap is disabled or denied. -/
def Parked (s : TrapController) (id : String) : Prop :=
  s.trapState id = some .disabled ∨ s.trapState id = some .denied

/-- The trap is in a state that a hit or a re-arm brings about. -/
def Revived (s : TrapController) (id : String) : Prop :=
  s.trapState id = some .allowedStep ∨ s.trapState id = some .stormThrottled ∨
    s.trapState id = some .rearmed

/-- A parked trap is in no state that a hit or a re-arm starts from. -/
theorem Parked.rejects (hp : s.Parked id) (hget : s.traps.get id = some trap) :
    trap.state.acceptsHit ≠ true ∧ ¬ (trap.state = .allowedStep ∨ trap.state = .stormThrottled) := by
  simp only [Parked, trapState, hget, Option.map_some, Option.some.injEq] at hp
  rcases hp with hp | hp <;> simp [hp, TrapState.acceptsHit]

theorem Parked.not_revived (h : s.Parked id) : ¬ s.Revived id := by
  unfold Revived
  rcases h with h | h <;> simp [h]

theorem trapState_setState (s : TrapController) (id k : String) (st : TrapState) :
    (s.setState id st).trapState k =
      if k = id then (s.trapState id).map fun _ => st else s.trapState k := by
  rw [trapState, get_setState]
  split_ifs with hk
  · rw [Option.map_map, trapState, Option.map_map]
    rfl
  · rfl

variable {r : Reply} {s' : TrapController}

theorem Parked.setState {k : String} (hp : s.Parked id) (hk : id ≠ k) (st : TrapState) :
    (s.setState k st).Parked id := by
  unfold Parked
  rw [trapState_setState, if_neg hk]
  exact hp

/-- A parked trap stays parked in every call but those that arm it anew and the throttled hits
that are attributed to it. -/
theorem Effect.parked (he : Effect s c r s') (hp : s.Parked id)
    (harm : r ≠ .armed id) (hfree : ¬ s.Throttles c id) : s'.Parked id := by
  cases he with
  | failed => exact hp
  | armed =>
    unfold Parked trapState
    rw [OrdMap.get_insert, if_neg fun heq => harm (congrArg _ heq.symm)]
    exact hp
  | @hit _ _ _ k trap key st _ storm _ window hid hget _ hst =>
    by_cases hk : id = k
    · subst hk
      rcases hst with ⟨haccept, -⟩ | ⟨-, hthrottles⟩
      · exact absurd haccept (hp.rejects hget).1
      · exact absurd hthrottles hfree
    · exact Parked.setState (s := afterHit { s with storm } trap key window) hp hk st
  | @rearmed k trap key r hget hstate =>
    by_cases hk : id = k
    · subst hk
      exact absurd hstate (hp.rejects hget).2
    · exact Parked.setState (s := { s with table := _ }) hp hk _
  | @disabled k trap key hget =>
    by_cases hk : id = k
    · subst hk
      left
      rw [trapState_setState]
      simp [trapState, hget]
    · exact Parked.setState (s := { s with table := _ }) hp hk _

/-- A throttled hit takes a trap out of whatever state it is in. -/
theorem Effect.throttled (he : Effect s c r s') (hthrottles : s.Throttles c id) (hp : s.Parked id) :
    s'.trapState id = some .stormThrottled := by
  have hcall := hthrottles
  obtain ⟨hit₀, cl₀, now₀, key₀, rfl, hid₀, -, -⟩ := hcall
  cases he with
  | failed _ hfree => exact absurd hthrottles (hfree id)
  | hit _ hid hget _ hst =>
    cases hid₀.symm.trans hid
    rcases hst with ⟨haccept, -⟩ | ⟨rfl, -⟩
    · exact absurd haccept (hp.rejects hget).1
    · rw [trapState_setState]
      simp [trapState, afterHit, hget]

/-- No throttled hit is attributed to a disabled or denied trap. -/
def SparesParked (s : TrapController) (c : Call) : Prop := ∀ id, s.Throttles c id → ¬ s.Parked id

theorem parked_run {calls : List Call} : ∀ {s : TrapController}, s.RecordsOk → s.Parked id →
    AllSteps SparesParked step s calls → (∀ e ∈ (run step s calls).1, e.2 ≠ .armed id) →
    (run step s calls).2.Parked id := by
  induction calls with
  | nil =>
    intro s _ hp _ _
    exact hp
  | cons c calls ih =>
    intro s h hp hsteps harm
    rw [run_cons] at harm ⊢
    obtain ⟨hspares, hsteps⟩ := hsteps
    have hp' : (step s c).2.Parked id :=
      (step_effect h c).parked hp (harm _ (mem_cons_self ..)) fun ht => hspares id ht hp
    exact ih (step_recordsOk h c) hp' hsteps fun e he => harm e (mem_cons_of_mem _ he)

/-- What a run owes its disabled and denied traps: no hit and no re-arm revives them until they
are armed again, a hit on a denied trap writes nothing, and re-arming a disabled one is refused. -/
structure KeepsParked (s₀ : TrapController) (calls : List Call) : Prop where
  stays : ∀ before during after id, calls = before ++ during ++ after →
    (run step s₀ before).2.Parked id →
    (∀ e ∈ (run step (run step s₀ before).2 during).1, e.2 ≠ .armed id) →
    ¬ (run step s₀ (before ++ during)).2.Revived id
  closed : ∀ before hit classification nowMs after id,
    calls = before ++ .handleHit hit classification nowMs :: after →
    (run step s₀ before).2.hitTrap hit = .ok id →
    (run step s₀ before).2.trapState id = some .denied →
    (step (run step s₀ before).2 (.handleHit hit classification nowMs)).2.table =
      (run step s₀ before).2.table
  refused : ∀ before id after, calls = before ++ .rearm id :: after →
    (run step s₀ before).2.trapState id = some .disabled →
    (step (run step s₀ before).2 (.rearm id)).2 = (run step s₀ before).2

theorem closed_of_spares (h : s.RecordsOk) {classification : TrapClassification}
    {nowMs : ℕ} (hspares : s.SparesParked (.handleHit hit classification nowMs))
    (hid : s.hitTrap hit = .ok id) (hp : s.Parked id) :
    (step s (.handleHit hit classification nowMs)).2.table = s.table := by
  have he := step_effect h (.handleHit hit classification nowMs)
  generalize step s (.handleHit hit classification nowMs) = out at he
  obtain ⟨r, s'⟩ := out
  cases he with
  | failed => rfl
  | hit _ hid' hget _ hst =>
    cases hid.symm.trans hid'
    rcases hst with ⟨haccept, -⟩ | ⟨-, hthrottles⟩
    · exact absurd haccept (hp.rejects hget).1
    · exact absurd hp (hspares id hthrottles)

theorem rearm_disabled (hdisabled : s.trapState id = some .disabled) :
    (step s (.rearm id)).2 = s := by
  obtain ⟨trap₀, hget₀, hst₀⟩ := Option.map_eq_some_iff.1 hdisabled
  obtain ⟨e, hrun⟩ := @rearm_refused s id fun trap hget => by
    cases hget₀.symm.trans hget
    simp [hst₀]
  rw [step, Op.reply_error hrun]

/-- The reply to a hit does not arm a trap. -/
theorem Effect.reply_of_throttles (he : Effect s c r s')
    (hthrottles : s.Throttles c id) (k : String) : r ≠ .armed k := by
  obtain ⟨hit₀, cl₀, now₀, key₀, rfl, -⟩ := hthrottles
  cases he with
  | failed => exact Reply.noConfusion
  | @hit _ _ _ _ _ _ _ _ _ r => cases r <;> exact Reply.noConfusion

/-- Disabled and denied traps are left alone in a run if and only if the storm guard never
throttles a hit that is attributed to one of them. -/
theorem keepsParked_iff (backend : Stage2BackendKind) (table : Stage2Table) (storm : TrapStormGuard)
    (jitPolicy : JitTrapPolicy) (singleStep : SingleStepStrategy) (calls : List Call) :
    KeepsParked (new backend table storm jitPolicy singleStep) calls ↔
      AllSteps SparesParked step (new backend table storm jitPolicy singleStep) calls := by
  have h₀ := recordsOk_new backend table storm jitPolicy singleStep
  have hok := fun before => run_recordsOk h₀ before
  constructor
  · intro hkeeps
    refine allSteps_iff.2 fun before c after heq id hthrottles hp => ?_
    have he := step_effect (hok before) c
    refine hkeeps.stays before [c] after id (by simpa using heq) hp ?_ ?_
    · intro e hmem
      obtain rfl := mem_singleton.1 hmem
      exact he.reply_of_throttles hthrottles id
    · rw [run_append]
      exact Or.inr (Or.inl (he.throttled hthrottles hp))
  · intro hsteps
    have hall := allSteps_iff.1 hsteps
    refine ⟨?_, ?_, ?_⟩
    · intro before during after id heq hp harm
      rw [run_append]
      refine (parked_run (hok before) hp (allSteps_iff.2 ?_) harm).not_revived
      intro mid c rest hmid
      have hc := hall (before ++ mid) c (rest ++ after) (by simp [heq, hmid])
      rwa [run_append] at hc
    · intro before hit classification nowMs after id heq hid hdenied
      exact closed_of_spares (hok before) (hall before _ after heq) hid (Or.inr hdenied)
    · intro before id after _ hdisabled
      exact rearm_disabled hdisabled

/-- A disabled trap, a second hit on its page within the second, and a re-arm: the page is
trapped again. -/
def revivedByStorm : List Call :=
  [.armTrap "vm" "as" 0x1000 .write, writeHit, .disable "trap:vm:as:0x1000:write", writeHit,
    .rearm "trap:vm:as:0x1000:write"]

theorem not_keepsParked_revivedByStorm : ¬ KeepsParked oneHit revivedByStorm := by
  intro h
  have hp : (run step oneHit (revivedByStorm.take 3)).2.Parked "trap:vm:as:0x1000:write" :=
    Or.inl (by decide +kernel)
  have hlog : ∀ e ∈ (run step (run step oneHit (revivedByStorm.take 3)).2
      (revivedByStorm.drop 3)).1, e.2 ≠ .armed "trap:vm:as:0x1000:write" := by decide +kernel
  refine h.stays (revivedByStorm.take 3) (revivedByStorm.drop 3) [] _ rfl hp hlog ?_
  exact Or.inr (Or.inr (by decide +kernel))

/-! Names of traps. -/

theorem not_mem_hex (n : ℕ) : ':' ∉ (hex n).toList := by
  intro hmem
  simp only [hex, String.toList_append, String.toList_ofList, mem_append] at hmem
  rcases hmem with hmem | hmem
  · exact absurd hmem (by decide)
  · obtain ⟨d, hd, heq⟩ := exists_digitChar_of_mem_toDigits (show 1 < 16 by decide) hmem
    have hnone : ∀ d < 16, d.digitChar ≠ ':' := by decide
    exact hnone d hd heq.symm

theorem hex_injective {m n : ℕ} (h : hex m = hex n) : m = n := by
  have hlist := congrArg String.toList h
  simp only [hex, String.toList_append, String.toList_ofList, append_cancel_left_eq] at hlist
  have hm := @digitsValue_toDigits 16 (by decide) le_rfl m
  rw [hlist, digitsValue_toDigits (by decide) le_rfl] at hm
  exact (Option.some.inj hm).symm

theorem toList_trapId (vm space : String) (page : ℕ) (kind : TrapKind) :
    (trapId vm space page kind).toList = (("trap:".toList ++ (vm ++ ":" ++ space).toList) ++
      ':' :: (hex page).toList) ++ ':' :: kind.asStr.toList := by
  simp [trapId, String.toList_append]

/-- The ids of two traps are equal if they watch the same access to the same page and their names
read the same when they are joined. -/
theorem trapId_eq_iff {vm' space' : String} {page page' : ℕ} {kind kind' : TrapKind} :
    trapId vm space page kind = trapId vm' space' page' kind' ↔
      vm ++ ":" ++ space = vm' ++ ":" ++ space' ∧ page = page' ∧ kind = kind' := by
  have hkind : ∀ kind : TrapKind, ':' ∉ kind.asStr.toList := by
    intro kind
    cases kind <;> decide
  constructor
  · intro h
    have hlist := congrArg String.toList h
    rw [toList_trapId, toList_trapId] at hlist
    have hlast := congrArg (splitLast ':') hlist
    rw [splitLast_eq_some (hkind kind), splitLast_eq_some (hkind kind'), Option.some.injEq,
      Prod.mk.injEq] at hlast
    obtain ⟨hfront, hkinds⟩ := hlast
    have hlast := congrArg (splitLast ':') hfront
    rw [splitLast_eq_some (not_mem_hex page), splitLast_eq_some (not_mem_hex page'),
      Option.some.injEq, Prod.mk.injEq] at hlast
    obtain ⟨hnames, hpage⟩ := hlast
    refine ⟨String.toList_injective (append_cancel_left hnames),
      hex_injective (String.toList_injective hpage), ?_⟩
    cases kind <;> cases kind' <;> first
      | rfl
      | exact absurd hkinds (by decide)
  · rintro ⟨hnames, rfl, rfl⟩
    apply String.toList_injective
    rw [toList_trapId, toList_trapId, hnames]

/-- Every trap is filed under the id that its own fields give. -/
def Named (s : TrapController) : Prop :=
  ∀ id trap, s.traps.get id = some trap →
    id = trapId trap.ownerVm trap.addressSpace trap.page trap.kind

theorem Effect.named (he : Effect s c r s') (h : s.Named) : s'.Named := by
  cases he with
  | failed => exact h
  | armed =>
    intro k trap hget
    simp only [OrdMap.get_insert] at hget
    split_ifs at hget with hk
    · cases hget
      exact hk
    · exact h k trap hget
  | @hit _ _ _ _ trap key _ _ storm _ window =>
    exact forall_setState (s := afterHit { s with storm } trap key window) (fun _ _ hk => hk) h
  | rearmed => exact forall_setState (s := { s with table := _ }) (fun _ _ hk => hk) h
  | disabled => exact forall_setState (s := { s with table := _ }) (fun _ _ hk => hk) h

/-- What holds of every state of a run. -/
theorem run_named {calls : List Call} (h : s.RecordsOk) (hn : s.Named) :
    (run step s calls).2.RecordsOk ∧ (run step s calls).2.Named :=
  run_inv (fun _ t => RecordsOk t ∧ Named t) ⟨h, hn⟩
    (fun _ _ c ht => ⟨step_recordsOk ht.1 c, (step_effect ht.1 c).named ht.2⟩) calls

/-- Arming a trap leaves the records of all other traps as they are, and a hit is attributed to a
trap of the same VM, address space and kind whose page it falls in. -/
structure Isolated (s : TrapController) (c : Call) : Prop where
  arming : ∀ vm space gpa kind mapping, c = .armTrap vm space gpa kind →
    s.table.lookup vm space gpa = some mapping → ∀ id trap, s.traps.get id = some trap →
    ¬ (trap.ownerVm = vm ∧ trap.addressSpace = space ∧
      trap.page = mapping.pageSize.alignDown gpa ∧ trap.kind = kind) →
    (step s c).2.traps.get id = some trap
  attributed : ∀ hit classification nowMs id, c = .handleHit hit classification nowMs →
    s.hitTrap hit = .ok id → ∃ trap, s.traps.get id = some trap ∧
      trap.ownerVm = hit.ownerVm ∧ trap.addressSpace = hit.addressSpace ∧ trap.kind = hit.kind ∧
      trap.page ≤ hit.gpa ∧ hit.gpa < trap.page + trap.pageSize.bytes

/-- No trap on the page has other names that read the same when they are joined. -/
def NamesApart (s : TrapController) (vm space : String) (page : ℕ) (kind : TrapKind) : Prop :=
  ∀ id trap, s.traps.get id = some trap → trap.page = page → trap.kind = kind →
    trap.ownerVm ++ ":" ++ trap.addressSpace = vm ++ ":" ++ space →
    trap.ownerVm = vm ∧ trap.addressSpace = space

/-- The names the call gives are not confused with those of a trap. -/
def Unconfused (s : TrapController) : Call → Prop
  | .armTrap vm space gpa kind => ∀ mapping, s.table.lookup vm space gpa = some mapping →
      (s.table.slot vm space (mapping.pageSize.alignDown gpa)).isSome →
      s.NamesApart vm space (mapping.pageSize.alignDown gpa) kind
  | .handleHit hit _ _ => s.NamesApart hit.ownerVm hit.addressSpace
      (PageSize.size4K.alignDown hit.gpa) hit.kind
  | _ => True

theorem armed_elsewhere (hn : s.Named) {page : ℕ} {kind : TrapKind}
    (hapart : s.NamesApart vm space page kind) (hget : s.traps.get id = some trap)
    (hother : ¬ (trap.ownerVm = vm ∧ trap.addressSpace = space ∧ trap.page = page ∧
      trap.kind = kind)) : id ≠ trapId vm space page kind := by
  intro heq
  obtain ⟨hnames, hpage, hkind⟩ := trapId_eq_iff.1 ((hn id trap hget).symm.trans heq)
  obtain ⟨hvm, hspace⟩ := hapart id trap hget hpage hkind hnames
  exact hother ⟨hvm, hspace, hpage, hkind⟩

theorem mem_page (size : PageSize) (gpa : ℕ) :
    PageSize.size4K.alignDown gpa ≤ gpa ∧ gpa < PageSize.size4K.alignDown gpa + size.bytes := by
  have hsize : 4096 ≤ size.bytes := by cases size <;> decide
  simp only [PageSize.alignDown, PageSize.bytes] at hsize ⊢
  omega

theorem covering_fields (h : s.RecordsOk) (hid : s.findCoveringTrap hit = .ok id) :
    ∃ trap, s.traps.get id = some trap ∧ trap.ownerVm = hit.ownerVm ∧
      trap.addressSpace = hit.addressSpace ∧ trap.kind = hit.kind ∧
      trap.page ≤ hit.gpa ∧ hit.gpa < trap.page + trap.pageSize.bytes := by
  unfold findCoveringTrap at hid
  split at hid
  · next trap hfind =>
    cases hid
    obtain ⟨k, hk⟩ := OrdMap.mem_values.1 (mem_of_find?_eq_some hfind)
    have hfields := find?_some hfind
    simp only [Bool.and_eq_true, beq_iff_eq, decide_eq_true_eq] at hfields
    obtain ⟨⟨⟨⟨hkind, hvm⟩, hspace⟩, hlo⟩, hhi⟩ := hfields
    have hwrap : wrappingAdd trap.page trap.pageSize.bytes ≤ trap.page + trap.pageSize.bytes :=
      Nat.mod_le _ _
    exact ⟨trap, (h k trap hk).1 ▸ hk, hvm, hspace, hkind, hlo, hhi.trans_le hwrap⟩
  · cases hid

/-- A hit whose names are not confused with those of a trap. -/
theorem attributed_of_namesApart (h : s.RecordsOk) (hn : s.Named)
    (hapart : s.NamesApart hit.ownerVm hit.addressSpace (PageSize.size4K.alignDown hit.gpa)
      hit.kind) (hid : s.hitTrap hit = .ok id) :
    ∃ trap, s.traps.get id = some trap ∧ trap.ownerVm = hit.ownerVm ∧
      trap.addressSpace = hit.addressSpace ∧ trap.kind = hit.kind ∧
      trap.page ≤ hit.gpa ∧ hit.gpa < trap.page + trap.pageSize.bytes := by
  unfold hitTrap at hid
  simp only at hid
  split_ifs at hid with hsome
  · cases hid
    obtain ⟨trap, hget⟩ := Option.isSome_iff_exists.1 hsome
    obtain ⟨hnames, hpage, hkind⟩ := trapId_eq_iff.1 (hn _ trap hget).symm
    obtain ⟨hvm, hspace⟩ := hapart _ trap hget hpage hkind hnames
    rw [← hpage] at hget
    have hmem := mem_page trap.pageSize hit.gpa
    rw [← hpage] at hmem
    exact ⟨trap, by rwa [hpage] at hget, hvm, hspace, hkind, hmem⟩
  · exact covering_fields h hid

theorem isolated_iff_unconfused (h : s.RecordsOk) (hn : s.Named) (c : Call) :
    s.Isolated c ↔ s.Unconfused c := by
  cases c with
  | armTrap vm space gpa kind =>
    constructor
    · intro hiso mapping hlookup hsome id trap hget hpage hkind hnames
      obtain ⟨key, hslot⟩ := Option.isSome_iff_exists.1 hsome
      obtain ⟨previous, -, hstep⟩ := armTrap_step kind hlookup hslot
      by_contra hnot
      have hkept := hiso.arming vm space gpa kind mapping rfl hlookup id trap hget fun hsame =>
        hnot ⟨hsame.1, hsame.2.1⟩
      -- the record has the id of the new one, so it is replaced
      have hid : id = trapId vm space (mapping.pageSize.alignDown gpa) kind := by
        rw [hn id trap hget]
        exact trapId_eq_iff.2 ⟨hnames, hpage, hkind⟩
      rw [hstep, hid] at hkept
      simp only [OrdMap.get_insert, if_true, Option.some.injEq] at hkept
      subst hkept
      exact hnot ⟨rfl, rfl⟩
    · intro hapart
      refine ⟨?_, ?_⟩
      · intro vm' space' gpa' kind' mapping heq hlookup id trap hget hother
        cases heq
        have he := armTrap_effect (s := s) vm space gpa kind
        generalize step s (.armTrap vm space gpa kind) = out at he
        obtain ⟨r, s'⟩ := out
        cases he with
        | failed => exact hget
        | @armed _ _ _ _ mapping' key previous hlookup' hslot hprevious =>
          cases hlookup.symm.trans hlookup'
          have hne := armed_elsewhere hn (hapart mapping hlookup (by simp [hslot])) hget hother
          simp only [OrdMap.get_insert, if_neg hne]
          exact hget
      · intro _ _ _ _ heq
        cases heq
  | handleHit hit classification nowMs =>
    constructor
    · intro hiso id trap hget hpage hkind hnames
      have hid : id = trapId hit.ownerVm hit.addressSpace (PageSize.size4K.alignDown hit.gpa)
          hit.kind := by
        rw [hn id trap hget]
        exact trapId_eq_iff.2 ⟨hnames, hpage, hkind⟩
      have hhit : s.hitTrap hit = .ok id := by
        unfold hitTrap
        simp only [← hid, hget, Option.isSome_some, if_true]
      obtain ⟨trap', hget', hvm, hspace, -⟩ :=
        hiso.attributed hit classification nowMs id rfl hhit
      cases hget.symm.trans hget'
      exact ⟨hvm, hspace⟩
    · intro hapart
      refine ⟨?_, ?_⟩
      · intro _ _ _ _ _ heq
        cases heq
      · intro hit' _ _ id heq hid
        cases heq
        exact attributed_of_namesApart h hn hapart hid
  | rearm id =>
    refine ⟨fun _ => trivial, fun _ => ⟨?_, ?_⟩⟩
    · intro _ _ _ _ _ heq
      cases heq
    · intro _ _ _ _ heq
      cases heq
  | disable id =>
    refine ⟨fun _ => trivial, fun _ => ⟨?_, ?_⟩⟩
    · intro _ _ _ _ _ heq
      cases heq
    · intro _ _ _ _ heq
      cases heq

/-- In every run, traps of different VMs, address spaces, pages or kinds keep to themselves if and
only if no call names a VM and an address space that read, joined by a colon, like the names of
another trap on the same page. -/
theorem traps_isolated_iff (backend : Stage2BackendKind) (table : Stage2Table)
    (storm : TrapStormGuard) (jitPolicy : JitTrapPolicy) (singleStep : SingleStepStrategy)
    (calls : List Call) :
    AllSteps Isolated step (new backend table storm jitPolicy singleStep) calls ↔
      AllSteps Unconfused step (new backend table storm jitPolicy singleStep) calls := by
  have h₀ := recordsOk_new backend table storm jitPolicy singleStep
  have hn₀ : (new backend table storm jitPolicy singleStep).Named := by
    intro id trap hget
    cases hget
  rw [allSteps_iff, allSteps_iff]
  refine forall_congr' fun before => forall_congr' fun c => forall_congr' fun after =>
    forall_congr' fun _ => ?_
  obtain ⟨h, hn⟩ := @run_named _ before h₀ hn₀
  exact isolated_iff_unconfused h hn c

/-- Two VMs with a page each, the names of which differ in the place of a colon only. -/
def twoVms : TrapController :=
  let first : Stage2Mapping := ⟨"a:b", "c", 0x1000, .size4K, .writeBack, .RWX⟩
  let second : Stage2Mapping := ⟨"a", "b:c", 0x1000, .size4K, .writeBack, .RWX⟩
  new .synthetic
    ⟨(OrdMap.empty.insert (MappingKey.new first) first).insert (MappingKey.new second) second⟩
    ⟨1000, 256, .failClosed, OrdMap.empty⟩ ⟨[]⟩ .syntheticStep

def armedTwice : List Call :=
  [.armTrap "a:b" "c" 0x1000 .write, .armTrap "a" "b:c" 0x1000 .write]

theorem not_isolated_armedTwice : ¬ AllSteps Isolated step twoVms armedTwice := by
  intro h
  obtain ⟨-, h, -⟩ := h
  have hget : (step twoVms (.armTrap "a:b" "c" 0x1000 .write)).2.traps.get
      "trap:a:b:c:0x1000:write" = some ⟨"trap:a:b:c:0x1000:write", .write, "a:b", "c", 0x1000,
        .size4K, .RWX, ⟨true, false, true⟩, .armed⟩ := by decide +kernel
  have hkept := h.arming "a" "b:c" 0x1000 .write ⟨"a", "b:c", 0x1000, .size4K, .writeBack, .RWX⟩
    rfl (by decide +kernel) _ _ hget (by decide)
  exact absurd hkept (by decide +kernel)

end TrapController
end AegisHV
