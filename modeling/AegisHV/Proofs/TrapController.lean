import AegisHV.Spec.TrapController

/-! What a call of the trap controller does to the stage-2 table and to the records. A
call writes at most one mapping, and it changes the record of one trap. -/

namespace AegisHV
open Sys Op

namespace Stage2Permissions

@[simp] theorem allows_withoutAccess (p : Stage2Permissions) (a : TrapAccessKind) :
    (p.withoutAccess a).allows a = false := by
  cases a <;> rfl

end Stage2Permissions

namespace Stage2Table

variable {t : Stage2Table} {vm space vm' space' : String} {gpa gpa' : ℕ} {key : MappingKey}
  {p : Stage2Permissions}

def permissionsAt (self : Stage2Table) (ownerVm addressSpace : String) (gpa : ℕ) :
    Option Stage2Permissions :=
  (self.lookup ownerVm addressSpace gpa).map Stage2Mapping.permissions

theorem lookup_eq_slot : t.lookup vm space gpa = (t.slot vm space gpa).bind t.mappings.get :=
  OrdMap.find?_values _ _

@[simp] theorem slot_writeAt : (t.writeAt key p).slot vm space gpa = t.slot vm space gpa :=
  OrdMap.findKey_modify _ _ fun _ => rfl

theorem lookup_of_slot (h : t.slot vm space gpa = some key) :
    ∃ m, t.lookup vm space gpa = some m := by
  obtain ⟨m, hm, -⟩ := OrdMap.get_of_findKey h
  exact ⟨m, by rw [lookup_eq_slot, h, Option.bind_some, hm]⟩

/-- A write is seen at every address the mapping covers and nowhere else. -/
theorem permissionsAt_writeAt (h : t.slot vm space gpa = some key) :
    (t.writeAt key p).permissionsAt vm' space' gpa' =
      if t.slot vm' space' gpa' = some key then some p else t.permissionsAt vm' space' gpa' := by
  obtain ⟨m, hm, -⟩ := OrdMap.get_of_findKey h
  simp only [permissionsAt, lookup_eq_slot, slot_writeAt]
  cases h' : t.slot vm' space' gpa' with
  | none => simp
  | some key' =>
    simp only [Option.bind_some, writeAt, OrdMap.get_modify, Option.some.injEq]
    split_ifs with hk
    · rw [hm]
      rfl
    · rfl

theorem setPermissions_of_slot (h : t.slot vm space gpa = some key) :
    ∃ previous, t.permissionsAt vm space gpa = some previous ∧
      t.setPermissions vm space gpa p = .ok (previous, t.writeAt key p) := by
  obtain ⟨m, hm⟩ := lookup_of_slot h
  refine ⟨m.permissions, by rw [permissionsAt, hm, Option.map_some], ?_⟩
  rw [setPermissions, h, hm]

theorem setPermissions_of_not_slot (h : t.slot vm space gpa = none) :
    t.setPermissions vm space gpa p = .error (missingMapping vm space gpa) := by
  rw [setPermissions, h]

end Stage2Table

namespace TrapRecord

def slotIn (self : TrapRecord) (table : Stage2Table) : Option MappingKey :=
  table.slot self.ownerVm self.addressSpace self.page

/-- What the table holds for the trap's page. -/
def permissionsIn (self : TrapRecord) (table : Stage2Table) : Option Stage2Permissions :=
  table.permissionsAt self.ownerVm self.addressSpace self.page

end TrapRecord

namespace TrapController

variable {s : TrapController} {id : String} {trap : TrapRecord}

/-- What holds of every record: it is filed under its own id, its page is mapped, and the set
it writes to trap the page lacks the access it watches. -/
def RecordsOk (s : TrapController) : Prop :=
  ∀ id trap, s.traps.get id = some trap → trap.id = id ∧
    (∃ key, trap.slotIn s.table = some key) ∧
    trap.trappedPermissions.allows trap.kind.access = false

/-- A write of permissions by a call, with the trap on whose behalf it is made. -/
structure Write where
  trapId : String
  key : MappingKey
  permissions : Stage2Permissions

/-- Whether a hit on the trap ends with its window open. -/
def opensWindow (s : TrapController) (trap : TrapRecord) (classification : TrapClassification) :
    TrapStormDecision → Bool
  | .throttleFailOpen => true
  | .throttleFailClosed => false
  | .allow => trap.state.acceptsHit &&
    match classification with
    | .allowStep => true
    | .deny _ => false
    | .jitTemporaryWindow ctx => (s.jitPolicy.evaluate ctx).allowed

/-- The write a call makes: arming and re-arming write the set without the watched access, an
opened window and disabling write back the set saved when the trap was armed. -/
def written (s : TrapController) : Call → Option Write
  | .armTrap ownerVm addressSpace gpa kind => do
    let mapping ← s.table.lookup ownerVm addressSpace gpa
    let page := mapping.pageSize.alignDown gpa
    let key ← s.table.slot ownerVm addressSpace page
    pure ⟨trapId ownerVm addressSpace page kind, key, mapping.permissions.withoutAccess kind.access⟩
  | .handleHit hit classification nowMs => do
    let id ← (s.hitTrap hit).toOption
    let stormKey ← (s.hitStormKey hit id).toOption
    let trap ← s.traps.get id
    let key ← trap.slotIn s.table
    if s.opensWindow trap classification (s.storm.observe stormKey nowMs).1 then
      pure ⟨id, key, trap.originalPermissions⟩
    else none
  | .rearm id => do
    let trap ← s.traps.get id
    let key ← trap.slotIn s.table
    if trap.state = .allowedStep ∨ trap.state = .stormThrottled then
      pure ⟨id, key, trap.trappedPermissions⟩
    else none
  | .disable id => do
    let trap ← s.traps.get id
    let key ← trap.slotIn s.table
    pure ⟨id, key, trap.originalPermissions⟩

@[simp] theorem setState_table (s : TrapController) (id : String) (st : TrapState) :
    (s.setState id st).table = s.table := rfl

theorem get_setState (s : TrapController) (id k : String) (st : TrapState) :
    (s.setState id st).traps.get k =
      if k = id then (s.traps.get id).map fun trap => { trap with state := st }
      else s.traps.get k :=
  OrdMap.get_modify _ _ _ _

theorem get_setState_self (hget : s.traps.get id = some trap) (st : TrapState) :
    (s.setState id st).traps.get id = some { trap with state := st } := by
  rw [get_setState, if_pos rfl, hget, Option.map_some]

@[simp] theorem setState_setState (s : TrapController) (id : String) (st st' : TrapState) :
    (s.setState id st).setState id st' = s.setState id st' := by
  simp only [setState, OrdMap.modify_modify]
  rfl

/-- The outcome, if there is one, reports this about the trap. -/
def Reports (r : Except TrapError TrapOutcome) (trap : TrapRecord) (decision : TrapDecision)
    (before after : Stage2Permissions) : Prop :=
  ∀ o, r = .ok o → o.trapId = trap.id ∧ o.decision = decision ∧ o.permissionsBefore = before ∧
    o.permissionsAfter = after

theorem outcome_spec (hget : s.traps.get id = some trap) (decision : TrapDecision)
    (before after : Stage2Permissions) (note : String) :
    ∃ r, (outcome id decision before after note).run s = (r, s) ∧
      Reports r trap decision before after := by
  unfold outcome
  rw [run_read_bind]
  cases hinv : s.invalidationFor id with
  | error e => exact ⟨.error e, rfl, fun o ho => by cases ho⟩
  | ok plan =>
    rw [hget]
    refine ⟨_, rfl, fun o ho => ?_⟩
    cases ho
    exact ⟨rfl, rfl, rfl, rfl⟩

/-- What a hit leaves in the table: an open window has the permissions saved when the trap was
armed. -/
def afterHit (s : TrapController) (trap : TrapRecord) (key : MappingKey) (window : Bool) :
    TrapController :=
  { s with table := if window then s.table.writeAt key trap.originalPermissions else s.table }

theorem finishHit_run {key : MappingKey} (hget : s.traps.get id = some trap)
    (hslot : trap.slotIn s.table = some key) (st : TrapState) (decision : TrapDecision)
    (window : Bool) (note : String) :
    ∃ r, (finishHit id st decision window note).run s =
        (r, (s.afterHit trap key window).setState id st) ∧
      Reports r trap decision trap.trappedPermissions
        (if window then trap.originalPermissions else trap.trappedPermissions) := by
  have hget' := @get_setState_self (s.afterHit trap key window) id trap hget st
  cases window with
  | false =>
    simp only [finishHit, run_read_bind, hget, run_write_bind, Bool.false_eq_true, if_false]
    exact outcome_spec hget' decision _ _ note
  | true =>
    obtain ⟨previous, -, hset⟩ :=
      Stage2Table.setPermissions_of_slot (p := trap.originalPermissions) hslot
    simp only [finishHit, run_read_bind, hget, run_write_bind, if_true, setState_table, hset,
      run_lift_ok_bind]
    exact outcome_spec hget' decision _ _ note

theorem hitTrap_get (h : s.RecordsOk) {hit : TrapHit} (hid : s.hitTrap hit = .ok id) :
    ∃ trap, s.traps.get id = some trap := by
  unfold hitTrap at hid
  simp only at hid
  split_ifs at hid with hsome
  · cases hid
    exact Option.isSome_iff_exists.1 hsome
  · unfold findCoveringTrap at hid
    split at hid
    · next trap hfind =>
      cases hid
      obtain ⟨k, hk⟩ := OrdMap.mem_values.1 (List.mem_of_find?_eq_some hfind)
      exact ⟨trap, (h k trap hk).1 ▸ hk⟩
    · cases hid

def answer : Except TrapError TrapOutcome → Reply
  | .ok o => .outcome o
  | .error e => .failed e

theorem reply_outcome {op : Op TrapController TrapError TrapOutcome} {s' : TrapController}
    {r : Except TrapError TrapOutcome} (h : op.run s = (r, s')) :
    op.reply .outcome .failed s = (answer r, s') := by
  cases r with
  | ok o => exact reply_ok h
  | error e => exact reply_error h

/-- The call is a hit that is attributed to the trap and that the storm guard throttles. -/
def Throttles (s : TrapController) (c : Call) (id : String) : Prop :=
  ∃ hit classification nowMs key, c = .handleHit hit classification nowMs ∧
    s.hitTrap hit = .ok id ∧ s.hitStormKey hit id = .ok key ∧
    (s.storm.observe key nowMs).1 ≠ .allow

theorem not_throttles_of_ne {c : Call}
    (hc : ∀ hit classification nowMs, c ≠ .handleHit hit classification nowMs)
    (id : String) : ¬ s.Throttles c id := by
  rintro ⟨hit, classification, nowMs, -, heq, -⟩
  exact hc hit classification nowMs heq

theorem not_throttles_of_allow {hit : TrapHit} {nowMs : ℕ} (classification : TrapClassification)
    (h : ∀ id key, s.hitTrap hit = .ok id → s.hitStormKey hit id = .ok key →
      (s.storm.observe key nowMs).1 = .allow) (id : String) :
    ¬ s.Throttles (.handleHit hit classification nowMs) id := by
  rintro ⟨hit, _, _, key, heq, hid, hkey, hnot⟩
  cases heq
  exact hnot (h id key hid hkey)

/-- The record a trap is armed with. -/
def armedRecord (ownerVm addressSpace : String) (gpa : ℕ) (kind : TrapKind)
    (mapping : Stage2Mapping) (previous : Stage2Permissions) : TrapRecord :=
  let page := mapping.pageSize.alignDown gpa
  { id := trapId ownerVm addressSpace page kind, kind, ownerVm, addressSpace, page
    pageSize := mapping.pageSize
    originalPermissions := previous
    trappedPermissions := mapping.permissions.withoutAccess kind.access
    state := .armed }

/-- All a call can do: fail, arm a trap, end a hit with the page still trapped or with its
window open, re-arm a trap, or disable it. -/
inductive Effect (s : TrapController) : Call → Reply → TrapController → Prop
  | failed {c e storm} (hw : s.written c = none) (hfree : ∀ id, ¬ s.Throttles c id) :
      Effect s c (.failed e) { s with storm }
  | armed {vm space gpa kind mapping key previous}
      (hlookup : s.table.lookup vm space gpa = some mapping)
      (hslot : s.table.slot vm space (mapping.pageSize.alignDown gpa) = some key)
      (hprevious : s.table.permissionsAt vm space (mapping.pageSize.alignDown gpa) = some previous) :
      Effect s (.armTrap vm space gpa kind)
        (.armed (trapId vm space (mapping.pageSize.alignDown gpa) kind))
        { s with
          table := s.table.writeAt key (mapping.permissions.withoutAccess kind.access)
          traps := s.traps.insert (trapId vm space (mapping.pageSize.alignDown gpa) kind)
            (armedRecord vm space gpa kind mapping previous) }
  | hit {hit classification nowMs id trap key st decision storm r} (window : Bool)
      (hid : s.hitTrap hit = .ok id) (hget : s.traps.get id = some trap)
      (hslot : trap.slotIn s.table = some key)
      (hst : (trap.state.acceptsHit = true ∧ (st = .denied ∨ st = .allowedStep)) ∨
        (st = .stormThrottled ∧ s.Throttles (.handleHit hit classification nowMs) id))
      (hopen : window = true → st ≠ .denied ∧ decision ≠ .deny ∧ decision ≠ .failClosed)
      (hw : s.written (.handleHit hit classification nowMs) =
        if window then some ⟨id, key, trap.originalPermissions⟩ else none)
      (hr : Reports r trap decision trap.trappedPermissions
        (if window then trap.originalPermissions else trap.trappedPermissions)) :
      Effect s (.handleHit hit classification nowMs) (answer r)
        (({ s with storm }.afterHit trap key window).setState id st)
  | rearmed {id trap key r} (hget : s.traps.get id = some trap)
      (hstate : trap.state = .allowedStep ∨ trap.state = .stormThrottled)
      (hslot : trap.slotIn s.table = some key)
      (hr : Reports r trap .allowStep trap.originalPermissions trap.trappedPermissions) :
      Effect s (.rearm id) (answer r)
        ({ s with table := s.table.writeAt key trap.trappedPermissions }.setState id .rearmed)
  | disabled {id trap key} (hget : s.traps.get id = some trap)
      (hslot : trap.slotIn s.table = some key) :
      Effect s (.disable id) .disabled
        ({ s with table := s.table.writeAt key trap.originalPermissions }.setState id .disabled)

theorem armTrap_step {vm space : String} {gpa : ℕ} {mapping : Stage2Mapping} {key : MappingKey}
    (kind : TrapKind) (hlookup : s.table.lookup vm space gpa = some mapping)
    (hslot : s.table.slot vm space (mapping.pageSize.alignDown gpa) = some key) :
    ∃ previous,
      s.table.permissionsAt vm space (mapping.pageSize.alignDown gpa) = some previous ∧
      step s (.armTrap vm space gpa kind) =
        (.armed (trapId vm space (mapping.pageSize.alignDown gpa) kind),
          { s with
            table := s.table.writeAt key (mapping.permissions.withoutAccess kind.access)
            traps := s.traps.insert (trapId vm space (mapping.pageSize.alignDown gpa) kind)
              (armedRecord vm space gpa kind mapping previous) }) := by
  obtain ⟨previous, hprevious, hset⟩ := Stage2Table.setPermissions_of_slot
    (p := mapping.permissions.withoutAccess kind.access) hslot
  refine ⟨previous, hprevious, ?_⟩
  simp only [step, reply, armTrap, run_read_bind, hlookup, hset, run_lift_ok_bind,
    run_write_bind, run_pure]
  rfl

theorem armTrap_effect (vm space : String) (gpa : ℕ) (kind : TrapKind) :
    Effect s (.armTrap vm space gpa kind) (step s (.armTrap vm space gpa kind)).1
      (step s (.armTrap vm space gpa kind)).2 := by
  have hfree : ∀ id, ¬ s.Throttles (.armTrap vm space gpa kind) id := not_throttles_of_ne (by simp)
  cases hm : s.table.lookup vm space gpa with
  | none =>
    simp only [step, reply, armTrap, run_read_bind, hm, run_fail]
    exact .failed (by simp [written, hm]) hfree
  | some mapping =>
    cases hslot : s.table.slot vm space (mapping.pageSize.alignDown gpa) with
    | none =>
      simp only [step, reply, armTrap, run_read_bind, hm,
        Stage2Table.setPermissions_of_not_slot hslot, run_lift_error_bind]
      exact .failed (by simp [written, hm, hslot]) hfree
    | some key =>
      obtain ⟨previous, hprevious, hstep⟩ := armTrap_step kind hm hslot
      rw [hstep]
      exact .armed hm hslot hprevious

theorem rearm_refused
    (h : ∀ trap, s.traps.get id = some trap →
      trap.state ≠ .allowedStep ∧ trap.state ≠ .stormThrottled) :
    ∃ e, (rearm id).run s = (.error e, s) := by
  cases hget : s.traps.get id with
  | none =>
    simp only [rearm, run_read_bind, hget, run_fail]
    exact ⟨_, rfl⟩
  | some trap =>
    simp only [rearm, run_read_bind, hget, if_pos (h trap hget), run_fail]
    exact ⟨_, rfl⟩

theorem rearm_run {key : MappingKey} (hget : s.traps.get id = some trap)
    (hstate : trap.state = .allowedStep ∨ trap.state = .stormThrottled)
    (hslot : trap.slotIn s.table = some key) :
    ∃ r, (rearm id).run s =
        (r, { s with table := s.table.writeAt key trap.trappedPermissions }.setState id .rearmed) ∧
      Reports r trap .allowStep trap.originalPermissions trap.trappedPermissions := by
  have hget' := @get_setState_self
    { s with table := s.table.writeAt key trap.trappedPermissions } id trap hget .rearmed
  have hnot : ¬ (trap.state ≠ .allowedStep ∧ trap.state ≠ .stormThrottled) := by tauto
  obtain ⟨previous, -, hset⟩ :=
    Stage2Table.setPermissions_of_slot (p := trap.trappedPermissions) hslot
  simp only [rearm, run_read_bind, hget, if_neg hnot, run_write_bind, setState_table, hset,
    run_lift_ok_bind]
  exact outcome_spec hget' .allowStep _ _ _

theorem rearm_effect (h : s.RecordsOk) (id : String) :
    Effect s (.rearm id) (step s (.rearm id)).1 (step s (.rearm id)).2 := by
  rw [step]
  by_cases hrefused : ∀ trap, s.traps.get id = some trap →
      trap.state ≠ .allowedStep ∧ trap.state ≠ .stormThrottled
  · obtain ⟨e, hrun⟩ := rearm_refused hrefused
    rw [reply_error hrun]
    refine .failed ?_ (not_throttles_of_ne (by simp))
    cases hget : s.traps.get id with
    | none => simp [written, hget]
    | some trap => simp [written, hget, hrefused trap hget]
  · push Not at hrefused
    obtain ⟨trap, hget, hor⟩ := hrefused
    obtain ⟨-, ⟨key, hslot⟩, -⟩ := h id trap hget
    have hstate : trap.state = .allowedStep ∨ trap.state = .stormThrottled := by tauto
    obtain ⟨r, hrun, hr⟩ := rearm_run hget hstate hslot
    rw [reply_outcome hrun]
    exact .rearmed hget hstate hslot hr

theorem disable_missing (hget : s.traps.get id = none) :
    (disable id).run s = (.error (missingTrap id), s) := by
  simp only [disable, run_read_bind, hget, run_fail]

theorem disable_run {key : MappingKey} (hget : s.traps.get id = some trap)
    (hslot : trap.slotIn s.table = some key) :
    (disable id).run s = (.ok (),
      { s with table := s.table.writeAt key trap.originalPermissions }.setState id .disabled) := by
  obtain ⟨previous, -, hset⟩ :=
    Stage2Table.setPermissions_of_slot (p := trap.originalPermissions) hslot
  simp only [disable, run_read_bind, hget, hset, run_lift_ok_bind, run_write]

theorem disable_effect (h : s.RecordsOk) (id : String) :
    Effect s (.disable id) (step s (.disable id)).1 (step s (.disable id)).2 := by
  rw [step]
  cases hget : s.traps.get id with
  | none =>
    rw [reply_error (disable_missing hget)]
    exact .failed (by simp [written, hget]) (not_throttles_of_ne (by simp))
  | some trap =>
    obtain ⟨-, ⟨key, hslot⟩, -⟩ := h id trap hget
    rw [reply_ok (disable_run hget hslot)]
    exact .disabled hget hslot

section

variable {hit : TrapHit} {classification : TrapClassification} {nowMs : ℕ} {key : MappingKey}
  {storm : TrapStormGuard}

/-- The states `finish_hit` is called in differ from the one before the call in the storm guard
and in the state of the trap only. -/
theorem finishHit_effect {s₁ : TrapController} {st : TrapState} {decision : TrapDecision}
    {window : Bool} (he : s₁ = { s with storm } ∨ s₁ = { s with storm }.setState id .classifying)
    (hid : s.hitTrap hit = .ok id) (hget : s.traps.get id = some trap)
    (hslot : trap.slotIn s.table = some key)
    (hst : (trap.state.acceptsHit = true ∧ (st = .denied ∨ st = .allowedStep)) ∨
      (st = .stormThrottled ∧ s.Throttles (.handleHit hit classification nowMs) id))
    (hopen : window = true → st ≠ .denied ∧ decision ≠ .deny ∧ decision ≠ .failClosed)
    (hw : s.written (.handleHit hit classification nowMs) =
      if window then some ⟨id, key, trap.originalPermissions⟩ else none) (note : String) :
    let out := (finishHit id st decision window note).reply Reply.outcome .failed s₁
    Effect s (.handleHit hit classification nowMs) out.1 out.2 := by
  intro out
  have hstart : ∃ st₀, s₁.traps.get id = some { trap with state := st₀ } ∧ s₁.table = s.table ∧
      (s₁.afterHit trap key window).setState id st =
        ({ s with storm }.afterHit trap key window).setState id st := by
    rcases he with rfl | rfl
    · exact ⟨trap.state, hget, rfl, rfl⟩
    · exact ⟨.classifying, get_setState_self hget .classifying, rfl,
        setState_setState (afterHit { s with storm } trap key window) id .classifying st⟩
  obtain ⟨st₀, hget₁, htable, hs⟩ := hstart
  obtain ⟨r, hrun, hr⟩ := finishHit_run hget₁ (htable ▸ hslot) st decision window note
  have hout : out = (answer r, ({ s with storm }.afterHit trap key window).setState id st) := by
    rw [← hs]
    exact reply_outcome hrun
  rw [hout]
  exact .hit window hid hget hslot hst hopen hw hr

/-- A hit the storm guard allows. -/
theorem classifyHit_effect (hid : s.hitTrap hit = .ok id)
    (hfree : ∀ k, ¬ s.Throttles (.handleHit hit classification nowMs) k)
    (hget : s.traps.get id = some trap) (hslot : trap.slotIn s.table = some key)
    (hw : s.written (.handleHit hit classification nowMs) =
      if s.opensWindow trap classification .allow then
        some ⟨id, key, trap.originalPermissions⟩ else none) :
    let out := (classifyHit id classification).reply Reply.outcome .failed { s with storm }
    Effect s (.handleHit hit classification nowMs) out.1 out.2 := by
  cases haccept : trap.state.acceptsHit with
  | false =>
    simp only [reply, classifyHit, run_read_bind, hget, haccept, Bool.not_false, if_true, run_fail]
    exact .failed (by simp [hw, opensWindow, haccept]) hfree
  | true =>
    simp only [reply, classifyHit, run_read_bind, hget, haccept, Bool.not_true,
      Bool.false_eq_true, if_false, run_write_bind]
    simp only [opensWindow, haccept, Bool.true_and] at hw
    have hopened : TrapState.allowedStep = .denied ∨ TrapState.allowedStep = .allowedStep :=
      Or.inr rfl
    cases classification with
    | allowStep =>
      exact finishHit_effect (Or.inr rfl) hid hget hslot (Or.inl ⟨haccept, hopened⟩) (by simp) hw _
    | deny reason =>
      exact finishHit_effect (Or.inr rfl) hid hget hslot (Or.inl ⟨haccept, Or.inl rfl⟩) (by simp)
        hw _
    | jitTemporaryWindow ctx =>
      cases hjit : (s.jitPolicy.evaluate ctx).allowed with
      | true =>
        simp only [hjit, if_true] at hw ⊢
        exact finishHit_effect (Or.inr rfl) hid hget hslot (Or.inl ⟨haccept, hopened⟩) (by simp)
          hw _
      | false =>
        simp only [hjit, Bool.false_eq_true, if_false] at hw ⊢
        exact finishHit_effect (Or.inr rfl) hid hget hslot (Or.inl ⟨haccept, Or.inl rfl⟩) (by simp)
          hw _

end

theorem handleHit_effect (h : s.RecordsOk) (hit : TrapHit) (classification : TrapClassification)
    (nowMs : ℕ) :
    Effect s (.handleHit hit classification nowMs) (step s (.handleHit hit classification nowMs)).1
      (step s (.handleHit hit classification nowMs)).2 := by
  simp only [step, reply, handleHit, run_read_bind]
  cases hid : s.hitTrap hit with
  | error e =>
    refine .failed (by simp [written, hid, Except.toOption]) (not_throttles_of_allow _ ?_)
    intro id key hid'
    cases hid.symm.trans hid'
  | ok id =>
  rw [run_lift_ok_bind]
  cases hkey : s.hitStormKey hit id with
  | error e =>
    refine .failed (by simp [written, hid, hkey, Except.toOption]) (not_throttles_of_allow _ ?_)
    intro id key hid' hkey'
    cases hid.symm.trans hid'
    cases hkey.symm.trans hkey'
  | ok stormKey =>
  obtain ⟨trap, hget⟩ := hitTrap_get h hid
  obtain ⟨-, ⟨key, hslot⟩, -⟩ := h id trap hget
  simp only [run_lift_ok_bind, run_write_bind]
  have hw : s.written (.handleHit hit classification nowMs) =
      if s.opensWindow trap classification (s.storm.observe stormKey nowMs).1 then
        some ⟨id, key, trap.originalPermissions⟩ else none := by
    simp [written, hid, hkey, hget, hslot, Except.toOption]
  have hthrottles : (s.storm.observe stormKey nowMs).1 ≠ .allow →
      s.Throttles (.handleHit hit classification nowMs) id :=
    fun hobs => ⟨hit, classification, nowMs, stormKey, rfl, hid, hkey, hobs⟩
  cases hobs : (s.storm.observe stormKey nowMs).1 with
  | allow =>
    refine classifyHit_effect hid (not_throttles_of_allow _ ?_) hget hslot (by rw [hw, hobs])
    intro id key hid' hkey'
    cases hid.symm.trans hid'
    cases hkey.symm.trans hkey'
    exact hobs
  | throttleFailOpen =>
    exact finishHit_effect (Or.inl rfl) hid hget hslot (Or.inr ⟨rfl, hthrottles (by simp [hobs])⟩)
      (by simp) (by rw [hw, hobs]; rfl) _
  | throttleFailClosed =>
    exact finishHit_effect (Or.inl rfl) hid hget hslot (Or.inr ⟨rfl, hthrottles (by simp [hobs])⟩)
      (by simp) (by rw [hw, hobs]; rfl) _

theorem step_effect (h : s.RecordsOk) (c : Call) : Effect s c (step s c).1 (step s c).2 := by
  cases c with
  | armTrap vm space gpa kind => exact armTrap_effect vm space gpa kind
  | handleHit hit classification nowMs => exact handleHit_effect h hit classification nowMs
  | rearm id => exact rearm_effect h id
  | disable id => exact disable_effect h id

end TrapController
end AegisHV
