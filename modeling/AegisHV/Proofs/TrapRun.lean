import AegisHV.Proofs.TrapController

/-! Whole runs of the trap controller. Every page with an armed trap stays trapped exactly
as long as no call writes a permission set with an access that another armed trap on the
same mapping watches. -/

namespace AegisHV
open Sys

/-- The states in which the trap's page must be trapped. -/
def TrapState.enforces : TrapState → Bool
  | armed | rearmed | denied => true
  | _ => false

theorem TrapState.enforces_of_acceptsHit {st : TrapState} (h : st.acceptsHit = true) :
    st.enforces = true := by
  cases st <;> first | rfl | cases h

namespace TrapRecord

variable {trap trap' : TrapRecord} {t : Stage2Table} {key : MappingKey} {p : Stage2Permissions}

@[simp] theorem slotIn_writeAt : trap.slotIn (t.writeAt key p) = trap.slotIn t :=
  Stage2Table.slot_writeAt

theorem permissionsIn_writeAt (h : trap'.slotIn t = some key) :
    trap.permissionsIn (t.writeAt key p) =
      if trap.slotIn t = some key then some p else trap.permissionsIn t :=
  Stage2Table.permissionsAt_writeAt h

end TrapRecord

namespace TrapController

variable {s s' : TrapController} {id : String} {trap : TrapRecord} {key : MappingKey}
  {p : Stage2Permissions}

/-! The records stay in order. -/

/-- What does not depend on the state of a trap stays true of every record. -/
theorem forall_setState {P : String → TrapRecord → Prop} {id : String} {st : TrapState}
    (hP : ∀ k trap, P k trap → P k { trap with state := st })
    (h : ∀ k trap, s.traps.get k = some trap → P k trap) :
    ∀ k trap, (s.setState id st).traps.get k = some trap → P k trap := by
  intro k trap hget
  rw [get_setState] at hget
  split_ifs at hget with hk
  · obtain ⟨trap₀, hget₀, rfl⟩ := Option.map_eq_some_iff.1 hget
    exact hk ▸ hP id trap₀ (h id trap₀ hget₀)
  · exact h k trap hget

theorem RecordsOk.setState (h : s.RecordsOk) (id : String) (st : TrapState) :
    (s.setState id st).RecordsOk := forall_setState (fun _ _ hk => hk) h

theorem RecordsOk.write (h : s.RecordsOk) (key : MappingKey) (p : Stage2Permissions)
    (storm : TrapStormGuard) :
    RecordsOk { s with table := s.table.writeAt key p, storm } := by
  intro k trap hget
  rw [TrapRecord.slotIn_writeAt]
  exact h k trap hget

variable {c : Call} {r : Reply}

theorem Effect.recordsOk (h : s.RecordsOk) (he : Effect s c r s') : s'.RecordsOk := by
  cases he with
  | failed => exact h
  | armed hlookup hslot =>
    intro k trap hget
    rw [TrapRecord.slotIn_writeAt]
    simp only [OrdMap.get_insert] at hget
    split_ifs at hget with hk
    · cases hget
      exact ⟨hk.symm, ⟨_, hslot⟩, Stage2Permissions.allows_withoutAccess _ _⟩
    · exact h k trap hget
  | @hit _ _ _ _ _ _ _ _ storm _ window =>
    have h' : RecordsOk { s with storm } := h
    cases window with
    | false => exact h'.setState _ _
    | true => exact (h.write _ _ storm).setState _ _
  | rearmed => exact (h.write _ _ s.storm).setState _ _
  | disabled => exact (h.write _ _ s.storm).setState _ _

theorem step_recordsOk (h : s.RecordsOk) (c : Call) : (step s c).2.RecordsOk :=
  (step_effect h c).recordsOk h

theorem recordsOk_new (backend : Stage2BackendKind) (table : Stage2Table) (storm : TrapStormGuard)
    (jitPolicy : JitTrapPolicy) (singleStep : SingleStepStrategy) :
    (new backend table storm jitPolicy singleStep).RecordsOk := by
  intro k trap hget
  cases hget

/-! Trapped pages stay trapped. -/

/-- Every trap that is armed, re-armed or denied has the access it watches absent from what the
table holds for its page. -/
def Trapped (s : TrapController) : Prop :=
  ∀ id trap, s.traps.get id = some trap → trap.state.enforces = true →
    ∃ p, trap.permissionsIn s.table = some p ∧ p.allows trap.kind.access = false

/-- The call writes no permission set with an access that another armed, re-armed or denied trap
on the same mapping watches. -/
def Spares (s : TrapController) (c : Call) : Prop :=
  ∀ w, s.written c = some w → ∀ id trap, s.traps.get id = some trap → id ≠ w.trapId →
    trap.state.enforces = true → trap.slotIn s.table = some w.key →
    w.permissions.allows trap.kind.access = false

theorem trapped_write {trap₀ : TrapRecord} (hq : s.Trapped) (hslot : trap₀.slotIn s.table = some key)
    (htable : s'.table = s.table.writeAt key p)
    (hother : ∀ k, k ≠ id → s'.traps.get k = s.traps.get k)
    (hown : ∀ trap, s'.traps.get id = some trap → trap.state.enforces = true →
      trap.slotIn s.table = some key ∧ p.allows trap.kind.access = false) :
    s'.Trapped ↔ ∀ k trap, s.traps.get k = some trap → k ≠ id → trap.state.enforces = true →
      trap.slotIn s.table = some key → p.allows trap.kind.access = false := by
  constructor
  · intro hq' k trap hget hk hst hkey
    obtain ⟨p', hp', hlack⟩ := hq' k trap (by rwa [hother k hk]) hst
    rw [htable, TrapRecord.permissionsIn_writeAt hslot, if_pos hkey] at hp'
    cases hp'
    exact hlack
  · intro hspare k trap hget hst
    rw [htable, TrapRecord.permissionsIn_writeAt hslot]
    by_cases hk : k = id
    · obtain ⟨hkey, hlack⟩ := hown trap (hk ▸ hget) hst
      exact ⟨p, if_pos hkey, hlack⟩
    · rw [hother k hk] at hget
      split_ifs with hkey
      · exact ⟨p, rfl, hspare k trap hget hk hst hkey⟩
      · exact hq k trap hget hst

theorem trapped_setState {st : TrapState} (hq : s.Trapped) (hget : s.traps.get id = some trap)
    (hst : st.enforces = true → trap.state.enforces = true) : (s.setState id st).Trapped := by
  intro k trap' hget' hst'
  rw [get_setState] at hget'
  split_ifs at hget' with hk
  · rw [hget] at hget'
    cases hget'
    exact hq id trap hget (hst hst')
  · exact hq k trap' hget' hst'

theorem get_setState_of_ne {k : String} (h : k ≠ id) (st : TrapState) :
    (s.setState id st).traps.get k = s.traps.get k := by
  rw [get_setState, if_neg h]

/-- What the new state of the call's own trap requires. -/
theorem own_setState {st : TrapState} {s₁ : TrapController} (hget : s.traps.get id = some trap)
    (htraps : s₁.traps = s.traps) (hslot : trap.slotIn s.table = some key)
    (hst : st.enforces = true → p.allows trap.kind.access = false) :
    ∀ trap', (s₁.setState id st).traps.get id = some trap' → trap'.state.enforces = true →
      trap'.slotIn s.table = some key ∧ p.allows trap'.kind.access = false := by
  intro trap' hget' hst'
  rw [get_setState, if_pos rfl, htraps, hget] at hget'
  cases hget'
  exact ⟨hslot, hst hst'⟩

theorem Effect.trapped (h : s.RecordsOk) (hq : s.Trapped)
    (he : Effect s c r s') : s'.Trapped ↔ s.Spares c := by
  cases he with
  | failed hw =>
    refine ⟨fun _ w hw' => ?_, fun _ => hq⟩
    rw [hw] at hw'
    cases hw'
  | @armed vm space gpa kind mapping key previous hlookup hslot =>
    have hslot' : (armedRecord vm space gpa kind mapping previous).slotIn s.table = some key := hslot
    simp only [Spares, written, hlookup, hslot, Option.bind_eq_bind, Option.bind_some, Option.pure_def,
      Option.some.injEq, forall_eq']
    refine trapped_write hq hslot' rfl (fun k hk => ?_) fun trap' hget _ => ?_
    · rw [OrdMap.get_insert, if_neg hk]
    · rw [OrdMap.get_insert, if_pos rfl] at hget
      cases hget
      exact ⟨hslot, Stage2Permissions.allows_withoutAccess _ _⟩
  | @hit _ _ _ id trap key st _ storm _ window _ hget hslot hst hopen hw =>
    cases window with
    | false =>
      have hq' : Trapped { s with storm } := hq
      refine ⟨fun _ w hw' => ?_, fun _ => trapped_setState hq' hget fun henf => ?_⟩
      · rw [hw] at hw'
        cases hw'
      · rcases hst with ⟨haccept, -⟩ | ⟨rfl, -⟩
        · exact TrapState.enforces_of_acceptsHit haccept
        · cases henf
    | true =>
      simp only [Spares, hw, if_true, Option.some.injEq, forall_eq']
      refine trapped_write hq hslot rfl (fun k hk => get_setState_of_ne hk _)
        (own_setState hget rfl hslot fun henf => ?_)
      rcases hst with ⟨-, rfl | rfl⟩ | ⟨rfl, -⟩
      · exact absurd rfl (hopen rfl).1
      · cases henf
      · cases henf
  | @rearmed id trap key r hget hstate hslot =>
    have hw : s.written (.rearm id) = some ⟨id, key, trap.trappedPermissions⟩ := by
      simp [written, hget, hslot, hstate]
    simp only [Spares, hw, Option.some.injEq, forall_eq']
    exact trapped_write hq hslot rfl (fun k hk => get_setState_of_ne hk _)
      (own_setState hget rfl hslot fun _ => (h id trap hget).2.2)
  | @disabled id trap key hget hslot =>
    have hw : s.written (.disable id) = some ⟨id, key, trap.originalPermissions⟩ := by
      simp [written, hget, hslot]
    simp only [Spares, hw, Option.some.injEq, forall_eq']
    exact trapped_write hq hslot rfl (fun k hk => get_setState_of_ne hk _)
      (own_setState hget rfl hslot fun henf => by cases henf)

theorem trapped_run_iff (backend : Stage2BackendKind) (table : Stage2Table) (storm : TrapStormGuard)
    (jitPolicy : JitTrapPolicy) (singleStep : SingleStepStrategy) (calls : List Call) :
    AllStates Trapped step (new backend table storm jitPolicy singleStep) calls ↔
      AllSteps Spares step (new backend table storm jitPolicy singleStep) calls := by
  refine allStates_iff_allSteps (I := RecordsOk) (fun _ c h => step_recordsOk h c)
    (fun s c h hq => (step_effect h c).trapped h hq) calls _ (recordsOk_new _ _ _ _ _) ?_
  intro k trap hget
  cases hget

/-- A controller over a single page with all permissions. -/
def onePage : TrapController :=
  let mapping : Stage2Mapping := ⟨"vm", "as", 0x1000, .size4K, .writeBack, .RWX⟩
  new .synthetic ⟨OrdMap.empty.insert (MappingKey.new mapping) mapping⟩
    ⟨1000, 256, .failClosed, OrdMap.empty⟩ ⟨[]⟩ .syntheticStep

/-- Two traps on the page, and an allowed hit on the one armed first: its window writes back the
permissions the page had before both. -/
def openedUnderWriteTrap : List Call :=
  [.armTrap "vm" "as" 0x1000 .read, .armTrap "vm" "as" 0x1000 .write,
    .handleHit ⟨"vm", "as", 0x1000, none, none, .read⟩ .allowStep 0]

theorem not_trapped_openedUnderWriteTrap : ¬ Trapped (run step onePage openedUnderWriteTrap).2 := by
  intro h
  have hget : (run step onePage openedUnderWriteTrap).2.traps.get "trap:vm:as:0x1000:write" =
      some ⟨"trap:vm:as:0x1000:write", .write, "vm", "as", 0x1000, .size4K, ⟨false, true, true⟩,
        ⟨false, false, true⟩, .armed⟩ := by decide +kernel
  have htable : (run step onePage openedUnderWriteTrap).2.table.permissionsAt "vm" "as" 0x1000 =
      some .RWX := by decide +kernel
  obtain ⟨p, hp, hlack⟩ := h _ _ hget rfl
  have hrwx : some p = some Stage2Permissions.RWX := hp.symm.trans htable
  cases hrwx
  cases hlack

/-! Outcomes against the table. -/

/-- The outcome reports what the table held for the trap's page before and after the call, and a
denied or fail-closed hit leaves the page trapped. -/
def Faithful (s s' : TrapController) (o : TrapOutcome) : Prop :=
  ∃ trap, s.traps.get o.trapId = some trap ∧
    trap.permissionsIn s.table = some o.permissionsBefore ∧
    trap.permissionsIn s'.table = some o.permissionsAfter ∧
    (o.decision = .deny ∨ o.decision = .failClosed →
      ∀ p, trap.permissionsIn s'.table = some p → p.allows trap.kind.access = false)

/-- The set of the record a call takes for the present permissions of the page. -/
def presumed (trap : TrapRecord) : Call → Stage2Permissions
  | .rearm _ => trap.originalPermissions
  | _ => trap.trappedPermissions

theorem answer_eq_outcome {r : Except TrapError TrapOutcome} {o : TrapOutcome}
    (h : answer r = .outcome o) : r = .ok o := by
  cases r with
  | ok o' =>
    cases h
    rfl
  | error e => cases h

theorem Reports.faithful {o : TrapOutcome} {q : Except TrapError TrapOutcome}
    {decision : TrapDecision} {after : Stage2Permissions} (h : s.RecordsOk)
    (hget : s.traps.get id = some trap) (hr : Reports q trap decision (presumed trap c) after)
    (ho : answer q = .outcome o)
    (hafter : trap.permissionsIn s.table = some (presumed trap c) →
      trap.permissionsIn s'.table = some after)
    (hdec : decision = .deny ∨ decision = .failClosed → after = trap.trappedPermissions) :
    Faithful s s' o ↔ ∃ trap, s.traps.get o.trapId = some trap ∧
      trap.permissionsIn s.table = some (presumed trap c) := by
  obtain ⟨hid, hd, hpb, hpa⟩ := hr o (answer_eq_outcome ho)
  rw [Faithful, hid.trans (h id trap hget).1, hpb, hpa, hd]
  refine exists_congr fun trap' => and_congr_right fun hget' => ?_
  cases hget.symm.trans hget'
  refine ⟨fun hf => hf.1, fun hp => ⟨hp, hafter hp, fun hdenied p hp' => ?_⟩⟩
  cases (hafter hp).symm.trans hp'
  rw [hdec hdenied]
  exact (h id trap hget).2.2

theorem Effect.faithful {o : TrapOutcome} (h : s.RecordsOk) (he : Effect s c r s')
    (ho : r = .outcome o) : Faithful s s' o ↔ ∃ trap, s.traps.get o.trapId = some trap ∧
      trap.permissionsIn s.table = some (presumed trap c) := by
  cases he with
  | failed => cases ho
  | armed => cases ho
  | disabled => cases ho
  | @hit _ _ _ id trap key st _ storm _ window _ hget hslot hst hopen _ hr =>
    cases window with
    | false => exact hr.faithful h hget ho (fun hp => hp) fun _ => rfl
    | true =>
      refine hr.faithful h hget ho (fun _ => ?_) fun hdenied => ?_
      · exact (TrapRecord.permissionsIn_writeAt hslot).trans (if_pos hslot)
      · exact absurd hdenied (not_or.2 (hopen rfl).2)
  | rearmed hget hstate hslot hr =>
    refine hr.faithful h hget ho (fun _ => ?_) (by simp)
    exact (TrapRecord.permissionsIn_writeAt hslot).trans (if_pos hslot)

theorem run_recordsOk (h : s.RecordsOk) (calls : List Call) : (run step s calls).2.RecordsOk :=
  run_inv (fun _ t => RecordsOk t) h (fun _ _ c ht => step_recordsOk ht c) calls

/-- A guard that lets one hit through in each second and then fails closed. -/
def oneHit : TrapController :=
  { onePage with storm := ⟨1000, 1, .failClosed, OrdMap.empty⟩ }

def writeHit : Call := .handleHit ⟨"vm", "as", 0x1000, none, none, .write⟩ .allowStep 0

def armedAndOpened : List Call := [.armTrap "vm" "as" 0x1000 .write, writeHit]

end TrapController
end AegisHV
