import AegisHV.Proofs.TrapHits

/-! Whether a page gets its permissions back once all traps on it are disabled. Each trap saves
what the page has when it is armed, so it depends on when the trap that is disabled last was
armed. -/

namespace AegisHV
open Sys List Stage2Table

namespace Stage2Table

variable {t : Stage2Table} {vm space : String} {gpa : ℕ} {key : MappingKey} {p : Stage2Permissions}

def permissionsOf (t : Stage2Table) (key : MappingKey) : Option Stage2Permissions :=
  (t.mappings.get key).map Stage2Mapping.permissions

/-- The mapping of the page on which a trap for the address is armed. -/
def pageKey (t : Stage2Table) (ownerVm addressSpace : String) (gpa : ℕ) : Option MappingKey :=
  (t.lookup ownerVm addressSpace gpa).bind fun mapping =>
    t.slot ownerVm addressSpace (mapping.pageSize.alignDown gpa)

theorem permissionsAt_eq (h : t.slot vm space gpa = some key) :
    t.permissionsAt vm space gpa = t.permissionsOf key := by
  rw [permissionsAt, lookup_eq_slot, h]
  rfl

theorem permissionsOf_writeAt (h : t.slot vm space gpa = some key) (k : MappingKey) :
    (t.writeAt key p).permissionsOf k = if k = key then some p else t.permissionsOf k := by
  obtain ⟨m, hm, -⟩ := OrdMap.get_of_findKey h
  rw [permissionsOf, writeAt, OrdMap.get_modify, hm]
  split_ifs <;> rfl

theorem pageKey_writeAt : (t.writeAt key p).pageKey vm space gpa = t.pageKey vm space gpa := by
  simp only [pageKey, lookup_eq_slot, slot_writeAt]
  cases hslot : t.slot vm space gpa with
  | none => rfl
  | some k =>
    simp only [Option.bind_some, writeAt, OrdMap.get_modify]
    split_ifs with hk
    · subst hk
      cases t.mappings.get k <;> rfl
    · rfl

end Stage2Table

namespace TrapController

variable {s s' s₀ : TrapController} {id : String} {trap : TrapRecord} {c : Call} {r : Reply}
  {key : MappingKey} {calls : List Call}

/-- What the record of a trap keeps until the trap is armed anew: its page, and the permissions
it saved. -/
def saved (s₀ s : TrapController) (id : String) : Option (Option MappingKey × Stage2Permissions) :=
  (s.traps.get id).map fun trap => (trap.slotIn s₀.table, trap.originalPermissions)

theorem saved_setState (s₀ s : TrapController) (id k : String) (st : TrapState) :
    saved s₀ (s.setState id st) k = saved s₀ s k := by
  rw [saved, get_setState]
  split_ifs with hk
  · rw [hk, Option.map_map]
    rfl
  · rfl

/-- A call that arms no trap: records change in their state only, and at most the mapping of one
of them is written. -/
structure KeepsRecords (s s' : TrapController) : Prop where
  slot : ∀ vm space gpa, s'.table.slot vm space gpa = s.table.slot vm space gpa
  pageKey : ∀ vm space gpa, s'.table.pageKey vm space gpa = s.table.pageKey vm space gpa
  saved : ∀ s₀ id, saved s₀ s' id = saved s₀ s id
  permissions : ∀ key, s'.table.permissionsOf key = s.table.permissionsOf key ∨
    ∃ id trap, s.traps.get id = some trap ∧ trap.slotIn s.table = some key

/-- The records after a write and a change of state. -/
theorem keepsRecords_write (storm : TrapStormGuard) (st : TrapState) (p : Stage2Permissions)
    (hget : s.traps.get id = some trap) (hslot : trap.slotIn s.table = some key) :
    KeepsRecords s ({ s with table := s.table.writeAt key p, storm }.setState id st) where
  slot := fun _ _ _ => slot_writeAt
  pageKey := fun _ _ _ => pageKey_writeAt
  saved := fun s₀ k => saved_setState s₀ { s with table := s.table.writeAt key p, storm } id k st
  permissions := by
    intro k
    rw [setState_table, permissionsOf_writeAt hslot]
    split_ifs with hk
    · exact Or.inr ⟨id, trap, hget, hk ▸ hslot⟩
    · exact Or.inl rfl

theorem Effect.keepsRecords (he : Effect s c r s') (harm : ∀ id, r ≠ .armed id) :
    KeepsRecords s s' := by
  cases he with
  | failed => exact ⟨fun _ _ _ => rfl, fun _ _ _ => rfl, fun _ _ => rfl, fun _ => Or.inl rfl⟩
  | armed => exact absurd rfl (harm _)
  | @hit _ _ _ id _ _ st _ storm _ window _ hget hslot =>
    cases window with
    | false =>
      exact ⟨fun _ _ _ => rfl, fun _ _ _ => rfl,
        fun s₀ k => saved_setState s₀ { s with storm } id k st, fun _ => Or.inl rfl⟩
    | true => exact keepsRecords_write storm st _ hget hslot
  | rearmed hget hstate hslot => exact keepsRecords_write s.storm _ _ hget hslot
  | disabled hget hslot => exact keepsRecords_write s.storm _ _ hget hslot

/-- What a call that arms a trap does. -/
theorem Effect.armed_inv (he : Effect s c (.armed id) s') :
    ∃ vm space gpa kind mapping key previous, c = .armTrap vm space gpa kind ∧
      s.table.pageKey vm space gpa = some key ∧ s.table.permissionsOf key = some previous ∧
      id = trapId vm space (mapping.pageSize.alignDown gpa) kind ∧
      s.table.lookup vm space gpa = some mapping ∧
      (armedRecord vm space gpa kind mapping previous).slotIn s.table = some key ∧
      s' = { s with
        table := s.table.writeAt key (mapping.permissions.withoutAccess kind.access)
        traps := s.traps.insert id (armedRecord vm space gpa kind mapping previous) } := by
  generalize hr : Reply.armed id = r at he
  cases he with
  | failed => cases hr
  | @armed vm space gpa kind mapping key previous hlookup hslot hprevious =>
    obtain rfl := Reply.armed.inj hr
    refine ⟨vm, space, gpa, kind, mapping, key, previous, rfl, ?_, ?_, rfl, hlookup, hslot, rfl⟩
    · rw [pageKey, hlookup, Option.bind_some, hslot]
    · rw [← permissionsAt_eq hslot, hprevious]
  | @hit _ _ _ _ _ _ _ _ _ o => cases o <;> cases hr
  | @rearmed _ _ _ o => cases o <;> cases hr
  | disabled => cases hr

theorem Effect.slots (he : Effect s c r s') (vm space : String) (gpa : ℕ) :
    s'.table.slot vm space gpa = s.table.slot vm space gpa ∧
      s'.table.pageKey vm space gpa = s.table.pageKey vm space gpa := by
  by_cases harm : ∀ id, r ≠ .armed id
  · exact ⟨(he.keepsRecords harm).slot vm space gpa, (he.keepsRecords harm).pageKey vm space gpa⟩
  · push Not at harm
    obtain ⟨id, rfl⟩ := harm
    obtain ⟨_, _, _, _, _, _, _, -, -, -, -, -, -, rfl⟩ := he.armed_inv
    exact ⟨slot_writeAt, pageKey_writeAt⟩

/-! Runs. -/

/-- The call arms the trap on the page. -/
def ArmsOn (table : Stage2Table) (key : MappingKey) (id : String) (entry : Call × Reply) : Prop :=
  ∃ vm space gpa kind, entry = (.armTrap vm space gpa kind, .armed id) ∧
    table.pageKey vm space gpa = some key

/-- The trap was armed on the page in the run. -/
def ArmedOn (s₀ : TrapController) (calls : List Call) (key : MappingKey) (id : String) : Prop :=
  ∃ entry ∈ (run step s₀ calls).1, ArmsOn s₀.table key id entry

/-- When the trap was last armed in the run, it was on the page, and the page had the given
permissions. -/
def LastArmed (s₀ : TrapController) (calls : List Call) (key : MappingKey) (id : String)
    (p : Stage2Permissions) : Prop :=
  ∃ before c between, calls = before ++ c :: between ∧
    ArmsOn s₀.table key id (c, (step (run step s₀ before).2 c).1) ∧
    (∀ e ∈ (run step (step (run step s₀ before).2 c).2 between).1, e.2 ≠ .armed id) ∧
    (run step s₀ before).2.table.permissionsOf key = some p

/-- The state after a run: the records are in order, and the pages are where they were. -/
structure Reached (s₀ s : TrapController) : Prop where
  ok : s.RecordsOk
  slot : ∀ vm space gpa, s.table.slot vm space gpa = s₀.table.slot vm space gpa
  pageKey : ∀ vm space gpa, s.table.pageKey vm space gpa = s₀.table.pageKey vm space gpa

theorem Reached.step (h : Reached s₀ s) (c : Call) : Reached s₀ (step s c).2 := by
  have he := step_effect h.ok c
  refine ⟨step_recordsOk h.ok c, fun vm space gpa => ?_, fun vm space gpa => ?_⟩
  · rw [(he.slots vm space gpa).1, h.slot]
  · rw [(he.slots vm space gpa).2, h.pageKey]

theorem run_reached (h : s₀.RecordsOk) (calls : List Call) : Reached s₀ (run step s₀ calls).2 :=
  run_inv (fun _ s => Reached s₀ s) ⟨h, fun _ _ _ => rfl, fun _ _ _ => rfl⟩
    (fun _ _ c hs => hs.step c) calls

theorem Reached.slotIn (h : Reached s₀ s) (trap : TrapRecord) :
    trap.slotIn s.table = trap.slotIn s₀.table := h.slot _ _ _

theorem ArmsOn.unique {key' : MappingKey} {entry : Call × Reply} {table : Stage2Table}
    (h : ArmsOn table key id entry) (h' : ArmsOn table key' id entry) : key = key' := by
  obtain ⟨vm, space, gpa, kind, rfl, hkey⟩ := h
  obtain ⟨vm', space', gpa', kind', heq, hkey'⟩ := h'
  cases heq
  exact Option.some.inj (hkey.symm.trans hkey')

/-- What a call that arms a trap leaves. -/
structure JustArmed (s₀ s : TrapController) (c : Call) (id : String) (key : MappingKey)
    (trap : TrapRecord) : Prop where
  arms : ArmsOn s₀.table key id (c, (step s c).1)
  record : (step s c).2.traps.get id = some trap
  others : ∀ k, k ≠ id → (step s c).2.traps.get k = s.traps.get k
  slot : trap.slotIn s₀.table = some key
  permissions : s.table.permissionsOf key = some trap.originalPermissions
  state : trap.state = .armed
  elsewhere : ∀ k, k ≠ key → (step s c).2.table.permissionsOf k = s.table.permissionsOf k

theorem justArmed (h : Reached s₀ s) (harm : (step s c).1 = .armed id) :
    ∃ key trap, JustArmed s₀ s c id key trap := by
  have he := step_effect h.ok c
  rw [harm] at he
  obtain ⟨vm, space, gpa, kind, mapping, key, previous, hc, hkey, hprevious, -, -, hslot, heq⟩ :=
    he.armed_inv
  refine ⟨key, armedRecord vm space gpa kind mapping previous, ?_⟩
  constructor
  · refine ⟨vm, space, gpa, kind, Prod.ext hc harm, ?_⟩
    rw [← h.pageKey, hkey]
  · rw [heq, OrdMap.get_insert, if_pos rfl]
  · intro k hk
    rw [heq, OrdMap.get_insert, if_neg hk]
  · rw [← h.slotIn, hslot]
  · exact hprevious
  · rfl
  · intro k hk
    rw [heq, permissionsOf_writeAt hslot, if_neg hk]

theorem JustArmed.saved (h : JustArmed s₀ s c id key trap) :
    saved s₀ (step s c).2 id = some (some key, trap.originalPermissions) := by
  rw [TrapController.saved, h.record, Option.map_some, h.slot]

/-- A record keeps what it was armed with in every call that does not arm its trap. -/
theorem saved_step (h : s.RecordsOk) (harm : (step s c).1 ≠ .armed id) :
    saved s₀ (step s c).2 id = saved s₀ s id := by
  have he := step_effect h c
  by_cases hnone : ∀ k, (step s c).1 ≠ .armed k
  · exact (he.keepsRecords hnone).saved s₀ id
  · push Not at hnone
    obtain ⟨k, hk⟩ := hnone
    have hne : id ≠ k := by
      rintro rfl
      exact harm hk
    rw [hk] at he
    obtain ⟨_, _, _, _, _, _, _, -, -, -, -, -, -, heq⟩ := he.armed_inv
    rw [heq, saved, OrdMap.get_insert, if_neg hne]
    rfl

theorem saved_run : ∀ {s : TrapController}, s.RecordsOk →
    (∀ e ∈ (run step s calls).1, e.2 ≠ .armed id) →
    saved s₀ (run step s calls).2 id = saved s₀ s id := by
  induction calls with
  | nil => exact fun _ _ => rfl
  | cons c calls ih =>
    intro s h harm
    rw [run_cons] at harm ⊢
    rw [← saved_step h (harm _ (mem_cons_self ..))]
    exact ih (step_recordsOk h c) fun e he => harm e (mem_cons_of_mem _ he)

/-- The record of a trap says where, and at which permissions, it was last armed. -/
theorem lastArmed_iff (h₀ : s₀.RecordsOk) (hempty : s₀.traps = OrdMap.empty) (calls : List Call)
    {p : Stage2Permissions} : LastArmed s₀ calls key id p ↔
      saved s₀ (run step s₀ calls).2 id = some (some key, p) := by
  constructor
  · rintro ⟨before, c, between, rfl, harms, hbetween, hp⟩
    have hr := run_reached h₀ before
    have hreply : (step (run step s₀ before).2 c).1 = .armed id := by
      obtain ⟨_, _, _, _, heq, -⟩ := harms
      exact (Prod.mk.inj heq).2
    obtain ⟨key', trap, hjust⟩ := justArmed hr hreply
    cases harms.unique hjust.arms
    rw [run_append, run_cons]
    have hlast := @saved_run s₀ id between _ (step_recordsOk hr.ok c) hbetween
    rw [hlast, hjust.saved, Option.some.inj (hjust.permissions.symm.trans hp)]
  · induction calls using List.reverseRecOn with
    | nil =>
      intro hsaved
      change saved s₀ s₀ id = _ at hsaved
      rw [saved, hempty] at hsaved
      cases hsaved
    | append_singleton calls c ih =>
      intro hsaved
      have hr := run_reached h₀ calls
      rw [run_concat] at hsaved
      by_cases harm : (step (run step s₀ calls).2 c).1 = .armed id
      · obtain ⟨key', trap', hjust⟩ := justArmed hr harm
        cases hjust.saved.symm.trans hsaved
        refine ⟨calls, c, [], rfl, hjust.arms, ?_, hjust.permissions⟩
        intro e he
        cases he
      · rw [saved_step hr.ok harm] at hsaved
        obtain ⟨before, c', between, rfl, harms, hbetween, hp⟩ := ih hsaved
        refine ⟨before, c', between ++ [c], by simp, harms, ?_, hp⟩
        rw [run_append, run_cons] at harm
        rw [run_concat]
        exact forall_mem_concat hbetween harm

/-! Which traps are on a page. -/

theorem armedOn_concat : ArmedOn s₀ (calls ++ [c]) key id ↔ ArmedOn s₀ calls key id ∨
    ArmsOn s₀.table key id (c, (step (run step s₀ calls).2 c).1) := by
  simp only [ArmedOn, run_concat, mem_append, mem_singleton]
  constructor
  · rintro ⟨e, he | rfl, harms⟩
    · exact Or.inl ⟨e, he, harms⟩
    · exact Or.inr harms
  · rintro (⟨e, he, harms⟩ | harms)
    · exact ⟨e, Or.inl he, harms⟩
    · exact ⟨_, Or.inr rfl, harms⟩

theorem LastArmed.armedOn {p : Stage2Permissions} (h : LastArmed s₀ calls key id p) :
    ArmedOn s₀ calls key id := by
  obtain ⟨before, c, between, rfl, harms, -⟩ := h
  refine ⟨_, ?_, harms⟩
  rw [run_log_append, run_cons]
  exact mem_append_right _ (mem_cons_self ..)

theorem lastArmed_of_record (h₀ : s₀.RecordsOk) (hempty : s₀.traps = OrdMap.empty)
    (hget : (run step s₀ calls).2.traps.get id = some trap)
    (hslot : trap.slotIn s₀.table = some key) :
    LastArmed s₀ calls key id trap.originalPermissions := by
  rw [lastArmed_iff h₀ hempty, saved, hget, Option.map_some, hslot]

/-- The call does not arm a trap under the id of a trap on another page. -/
def clashFree (s : TrapController) : Call → Bool
  | .armTrap vm space gpa kind =>
    match s.table.lookup vm space gpa with
    | none => true
    | some mapping =>
      match s.traps.get (trapId vm space (mapping.pageSize.alignDown gpa) kind) with
      | none => true
      | some trap => trap.slotIn s.table == s.table.slot vm space (mapping.pageSize.alignDown gpa)
  | _ => true

theorem clashFree_armed (h : Reached s₀ s) (hfree : s.clashFree c = true)
    (harms : ArmsOn s₀.table key id (c, (step s c).1)) (hget : s.traps.get id = some trap) :
    trap.slotIn s₀.table = some key := by
  obtain ⟨vm, space, gpa, kind, heq, hkey⟩ := harms
  obtain ⟨rfl, harm⟩ := Prod.mk.inj heq
  have he := step_effect h.ok (.armTrap vm space gpa kind)
  rw [harm] at he
  obtain ⟨_, _, _, _, mapping, key', previous, hc, hkey', -, rfl, hlookup, hslot, -⟩ := he.armed_inv
  cases hc
  rw [h.pageKey, hkey] at hkey'
  cases hkey'
  simp only [clashFree, hlookup, hget, beq_iff_eq] at hfree
  rw [← h.slotIn, hfree]
  exact hslot

theorem saved_of_armedOn (h₀ : s₀.RecordsOk) (calls : List Call)
    (hfree : AllSteps (fun s c => s.clashFree c = true) step s₀ calls)
    (harmed : ArmedOn s₀ calls key id) :
    ∃ p, saved s₀ (run step s₀ calls).2 id = some (some key, p) := by
  induction calls using List.reverseRecOn with
  | nil =>
    obtain ⟨e, he, -⟩ := harmed
    cases he
  | append_singleton calls c ih =>
    obtain ⟨hfree, hlast⟩ := allSteps_concat.1 hfree
    have hr := run_reached h₀ calls
    rw [run_concat]
    by_cases harm : (step (run step s₀ calls).2 c).1 = .armed id
    · obtain ⟨key', trap, hjust⟩ := justArmed hr harm
      refine ⟨trap.originalPermissions, ?_⟩
      rcases armedOn_concat.1 harmed with hbefore | harms
      · obtain ⟨p, hsaved⟩ := ih hfree hbefore
        obtain ⟨old, hold, heq⟩ := Option.map_eq_some_iff.1 hsaved
        rw [hjust.saved, ← clashFree_armed hr hlast hjust.arms hold, (Prod.mk.inj heq).1]
      · rw [hjust.saved, hjust.arms.unique harms]
    · rcases armedOn_concat.1 harmed with hbefore | ⟨_, _, _, _, heq, -⟩
      · rw [saved_step hr.ok harm]
        exact ih hfree hbefore
      · exact absurd (Prod.mk.inj heq).2 harm

/-! The permissions of a page. -/

/-- A page on which no trap was armed has the permissions it had at the start. -/
theorem untouched (h₀ : s₀.RecordsOk) (hempty : s₀.traps = OrdMap.empty) (calls : List Call)
    (hnone : ∀ id, ¬ ArmedOn s₀ calls key id) :
    (run step s₀ calls).2.table.permissionsOf key = s₀.table.permissionsOf key := by
  induction calls using List.reverseRecOn with
  | nil => rfl
  | append_singleton calls c ih =>
    have hbefore : ∀ id, ¬ ArmedOn s₀ calls key id :=
      fun id h => hnone id (armedOn_concat.2 (Or.inl h))
    rw [run_concat, ← ih hbefore]
    have hr := run_reached h₀ calls
    have he := step_effect hr.ok c
    by_cases harm : ∀ k, (step (run step s₀ calls).2 c).1 ≠ .armed k
    · rcases (he.keepsRecords harm).permissions key with hsame | ⟨id, trap, hget, hslot⟩
      · exact hsame
      · rw [hr.slotIn] at hslot
        exact absurd (lastArmed_of_record h₀ hempty hget hslot).armedOn (hbefore id)
    · push Not at harm
      obtain ⟨id, harm⟩ := harm
      obtain ⟨key', trap, hjust⟩ := justArmed hr harm
      refine hjust.elsewhere key ?_
      rintro rfl
      exact hnone id (armedOn_concat.2 (Or.inr hjust.arms))

/-- Every trap on the page is disabled. -/
def AllDisabled (s₀ s : TrapController) (key : MappingKey) : Prop :=
  ∀ id trap, s.traps.get id = some trap → trap.slotIn s₀.table = some key → trap.state = .disabled

/-- Whenever a trap is disabled as the last one on its page, it was last armed while the page had
the permissions it had at the start. -/
def ArmedClean (s₀ : TrapController) (calls : List Call) : Prop :=
  ∀ before id after key p, calls = before ++ .disable id :: after → LastArmed s₀ before key id p →
    (∀ k, ArmedOn s₀ before key k → k ≠ id →
      (run step s₀ before).2.trapState k = some .disabled) →
    s₀.table.permissionsOf key = some p

theorem ArmedClean.left {after : List Call} (h : ArmedClean s₀ (calls ++ after)) :
    ArmedClean s₀ calls := by
  rintro before id rest key p rfl
  exact h before id (rest ++ after) key p (by simp)

/-- The state of a page unless its trap is disabled: its traps are all disabled only if they were
before the call, and its permissions are as before. -/
theorem restored_elsewhere {storm : TrapStormGuard} {table : Stage2Table} {st : TrapState}
    {key' : MappingKey} (h : Reached s₀ s) (hget : s.traps.get id = some trap)
    (hslot : trap.slotIn s.table = some key')
    (htable : table = s.table ∨ ∃ p, table = s.table.writeAt key' p)
    (hother : key = key' → st ≠ .disabled)
    (hall : AllDisabled s₀ ({ s with table, storm }.setState id st) key) :
    AllDisabled s₀ s key ∧ table.permissionsOf key = s.table.permissionsOf key := by
  have hslot₀ : trap.slotIn s₀.table = some key' := by rw [← h.slotIn, hslot]
  have hne : key ≠ key' := by
    rintro rfl
    exact hother rfl (hall id _ (get_setState_self hget st) hslot₀)
  constructor
  · intro k trap' hget' hslot'
    have hk : k ≠ id := by
      rintro rfl
      cases hget.symm.trans hget'
      exact hne (Option.some.inj (hslot'.symm.trans hslot₀))
    exact hall k trap' ((get_setState_of_ne hk st).trans hget') hslot'
  · rcases htable with rfl | ⟨p, rfl⟩
    · rfl
    · rw [permissionsOf_writeAt hslot, if_neg hne]

/-- One call that arms no trap, for a page that is restored before the call. -/
theorem Effect.restored (he : Effect s c r s') (h : Reached s₀ s) (harm : ∀ id, r ≠ .armed id)
    (hdisable : ∀ id trap, c = .disable id → s.traps.get id = some trap →
      trap.slotIn s.table = some key →
      (∀ k other, s.traps.get k = some other → k ≠ id → other.slotIn s₀.table = some key →
        other.state = .disabled) →
      s₀.table.permissionsOf key = some trap.originalPermissions)
    (hbefore : AllDisabled s₀ s key → s.table.permissionsOf key = s₀.table.permissionsOf key)
    (hall : AllDisabled s₀ s' key) :
    s'.table.permissionsOf key = s₀.table.permissionsOf key := by
  cases he with
  | failed => exact hbefore hall
  | armed => exact absurd rfl (harm _)
  | @hit _ _ _ id trap key' st _ storm _ window _ hget hslot hst =>
    have htable : (if window then s.table.writeAt key' trap.originalPermissions else s.table) =
        s.table ∨ ∃ p, (if window then s.table.writeAt key' trap.originalPermissions else s.table) =
          s.table.writeAt key' p := by
      cases window with
      | false => exact Or.inl rfl
      | true => exact Or.inr ⟨_, rfl⟩
    have hst' : st ≠ .disabled := by
      rcases hst with ⟨-, rfl | rfl⟩ | ⟨rfl, -⟩ <;> simp
    obtain ⟨hall', hsame⟩ := restored_elsewhere h hget hslot htable (fun _ => hst') hall
    exact hsame.trans (hbefore hall')
  | rearmed hget hstate hslot =>
    obtain ⟨hall', hsame⟩ := restored_elsewhere h hget hslot (Or.inr ⟨_, rfl⟩) (by simp) hall
    exact hsame.trans (hbefore hall')
  | @disabled id trap key' hget hslot =>
    by_cases hne : key = key'
    · subst hne
      rw [setState_table, permissionsOf_writeAt hslot, if_pos rfl]
      refine (hdisable id trap rfl hget hslot ?_).symm
      intro k other hother hk hotherSlot
      exact hall k other (by rw [get_setState_of_ne hk, hother]) hotherSlot
    · obtain ⟨hall', hsame⟩ := restored_elsewhere h hget hslot (Or.inr ⟨_, rfl⟩)
        (fun heq => absurd heq hne) hall
      exact hsame.trans (hbefore hall')

theorem restored_of_clean (h₀ : s₀.RecordsOk) (hempty : s₀.traps = OrdMap.empty)
    (calls : List Call) (hfree : AllSteps (fun s c => s.clashFree c = true) step s₀ calls)
    (hclean : ArmedClean s₀ calls) (hall : AllDisabled s₀ (run step s₀ calls).2 key) :
    (run step s₀ calls).2.table.permissionsOf key = s₀.table.permissionsOf key := by
  induction calls using List.reverseRecOn with
  | nil => rfl
  | append_singleton calls c ih =>
    obtain ⟨hfreeBefore, hlast⟩ := allSteps_concat.1 hfree
    have ih := ih hfreeBefore hclean.left
    have hr := run_reached h₀ calls
    rw [run_concat] at hall ⊢
    by_cases harm : ∃ id, (step (run step s₀ calls).2 c).1 = .armed id
    · obtain ⟨id, harm⟩ := harm
      obtain ⟨key', trap, hjust⟩ := justArmed hr harm
      have hne : key ≠ key' := by
        rintro rfl
        have hdisabled := hall id trap hjust.record hjust.slot
        rw [hjust.state] at hdisabled
        cases hdisabled
      refine (hjust.elsewhere key hne).trans (ih ?_)
      intro k trap' hget' hslot'
      have hk : k ≠ id := by
        rintro rfl
        have hsame := clashFree_armed hr hlast hjust.arms hget'
        exact hne (Option.some.inj (hslot'.symm.trans hsame))
      exact hall k trap' (by rw [hjust.others k hk, hget']) hslot'
    · push Not at harm
      refine (step_effect hr.ok c).restored hr harm ?_ ih hall
      rintro id trap rfl hget hslot hothers
      rw [hr.slotIn] at hslot
      refine hclean calls id [] key _ rfl (lastArmed_of_record h₀ hempty hget hslot) ?_
      intro k hk hne
      obtain ⟨p, hsaved⟩ := saved_of_armedOn h₀ calls hfreeBefore hk
      obtain ⟨other, hother, heq⟩ := Option.map_eq_some_iff.1 hsaved
      rw [trapState, hother, Option.map_some, hothers k other hother hne (Prod.mk.inj heq).1]

/-- Once every trap on a page is disabled, the page has the permissions it had before the first
trap on it was armed. -/
def Restores (s₀ : TrapController) (calls : List Call) : Prop :=
  ∀ before c after key, calls = before ++ c :: after →
    (∀ id, ¬ ArmedOn s₀ before key id) → (∃ id, ArmedOn s₀ (before ++ [c]) key id) →
    (∀ id, ArmedOn s₀ calls key id → (run step s₀ calls).2.trapState id = some .disabled) →
    (run step s₀ calls).2.table.permissionsOf key = (run step s₀ before).2.table.permissionsOf key

theorem exists_first (h : ArmedOn s₀ calls key id) :
    ∃ before c after, calls = before ++ c :: after ∧ (∀ k, ¬ ArmedOn s₀ before key k) ∧
      ∃ k, ArmedOn s₀ (before ++ [c]) key k := by
  induction calls using List.reverseRecOn generalizing id with
  | nil =>
    obtain ⟨e, he, -⟩ := h
    cases he
  | append_singleton calls c ih =>
    by_cases hbefore : ∃ k, ArmedOn s₀ calls key k
    · obtain ⟨k, hk⟩ := hbefore
      obtain ⟨before, c', after, rfl, hnone, hfirst⟩ := ih hk
      exact ⟨before, c', after ++ [c], by simp, hnone, hfirst⟩
    · push Not at hbefore
      exact ⟨calls, c, [], rfl, hbefore, id, h⟩

theorem restores_of_clean (h₀ : s₀.RecordsOk) (hempty : s₀.traps = OrdMap.empty)
    (hfree : AllSteps (fun s c => s.clashFree c = true) step s₀ calls)
    (hclean : ArmedClean s₀ calls) : Restores s₀ calls := by
  intro before c after key _ hnone _ hall
  rw [untouched h₀ hempty before hnone]
  refine restored_of_clean h₀ hempty calls hfree hclean ?_
  intro id trap hget hslot
  have hdisabled := hall id (lastArmed_of_record h₀ hempty hget hslot).armedOn
  rw [trapState, hget] at hdisabled
  exact Option.some.inj hdisabled

/-- What disabling the last trap on a page writes. -/
theorem clean_of_restores (h₀ : s₀.RecordsOk) (hempty : s₀.traps = OrdMap.empty)
    {p : Stage2Permissions} (hlastArmed : LastArmed s₀ calls key id p)
    (hothers : ∀ k, ArmedOn s₀ calls key k → k ≠ id →
      (run step s₀ calls).2.trapState k = some .disabled)
    (hrestores : Restores s₀ (calls ++ [.disable id])) : s₀.table.permissionsOf key = some p := by
  have hr := run_reached h₀ calls
  obtain ⟨trap, hget, heq⟩ :=
    Option.map_eq_some_iff.1 ((lastArmed_iff h₀ hempty calls).1 hlastArmed)
  obtain ⟨hslot₀, rfl⟩ := Prod.mk.inj heq
  have hslot : trap.slotIn (run step s₀ calls).2.table = some key := by rw [hr.slotIn, hslot₀]
  have hstep : step (run step s₀ calls).2 (.disable id) = (.disabled,
      { (run step s₀ calls).2 with
        table := (run step s₀ calls).2.table.writeAt key trap.originalPermissions }.setState
          id .disabled) := by
    rw [step, Op.reply_ok (disable_run hget hslot)]
  obtain ⟨before, c, after, hsplit, hnone, hfirst⟩ := exists_first hlastArmed.armedOn
  have hrestored := hrestores before c (after ++ [.disable id]) key (by simp [hsplit]) hnone hfirst
  rw [run_concat, hstep, untouched h₀ hempty before hnone, setState_table,
    permissionsOf_writeAt hslot, if_pos rfl] at hrestored
  refine (hrestored ?_).symm
  intro k hk
  rw [trapState_setState]
  split_ifs with hkid
  · simp [trapState, hget]
  · rcases armedOn_concat.1 hk with hk | ⟨_, _, _, _, heq, -⟩
    · exact hothers k hk hkid
    · cases heq

/-- In a run that arms no trap under the id of a trap on another page, pages get their permissions
back, in every state reached, if and only if each trap that is disabled as the last one on its
page was last armed while the page had the permissions it had at the start. -/
theorem restores_iff (backend : Stage2BackendKind) (table : Stage2Table) (storm : TrapStormGuard)
    (jitPolicy : JitTrapPolicy) (singleStep : SingleStepStrategy) (calls : List Call)
    (hfree : AllSteps (fun s c => s.clashFree c = true) step
      (new backend table storm jitPolicy singleStep) calls) :
    (∀ before after, calls = before ++ after →
      Restores (new backend table storm jitPolicy singleStep) before) ↔
      ArmedClean (new backend table storm jitPolicy singleStep) calls := by
  have h₀ := recordsOk_new backend table storm jitPolicy singleStep
  have hempty : (new backend table storm jitPolicy singleStep).traps = OrdMap.empty := rfl
  constructor
  · intro hrestores before id after key p heq hlastArmed hothers
    exact clean_of_restores h₀ hempty hlastArmed hothers
      (hrestores (before ++ [.disable id]) after (by simp [heq]))
  · rintro hclean before after rfl
    refine restores_of_clean h₀ hempty ?_ hclean.left
    refine allSteps_iff.2 fun pre c post heq => ?_
    exact allSteps_iff.1 hfree pre c (post ++ after) (by simp [heq])

/-- Two traps on a page, the one armed last disabled first. -/
def nested : List Call :=
  [.armTrap "vm" "as" 0x1000 .read, .armTrap "vm" "as" 0x1000 .write,
    .disable "trap:vm:as:0x1000:write", .disable "trap:vm:as:0x1000:read"]

theorem restores_iff_nested :
    (∀ before after, nested = before ++ after → Restores onePage before) ↔
      ArmedClean onePage nested :=
  restores_iff _ _ _ _ _ nested (by decide +kernel)

/-- Two traps on a page, the one armed first disabled first. -/
def crossed : List Call :=
  [.armTrap "vm" "as" 0x1000 .read, .armTrap "vm" "as" 0x1000 .write,
    .disable "trap:vm:as:0x1000:read", .disable "trap:vm:as:0x1000:write"]

theorem not_restores_crossed : ¬ Restores onePage crossed := by
  intro h
  have hreplies : (run step onePage crossed).1.map Prod.snd = [.armed "trap:vm:as:0x1000:read",
      .armed "trap:vm:as:0x1000:write", .disabled, .disabled] := by decide +kernel
  have hkey : onePage.table.pageKey "vm" "as" 0x1000 = some ⟨"vm", "as", 0x1000⟩ := by
    decide +kernel
  have hread : (step onePage (.armTrap "vm" "as" 0x1000 .read)).1 =
      .armed "trap:vm:as:0x1000:read" := by decide +kernel
  have hafter : (run step onePage crossed).2.table.permissionsOf ⟨"vm", "as", 0x1000⟩ ≠
      onePage.table.permissionsOf ⟨"vm", "as", 0x1000⟩ := by decide +kernel
  refine hafter (h [] _ _ ⟨"vm", "as", 0x1000⟩ rfl ?_ ?_ ?_)
  · rintro id ⟨e, he, -⟩
    cases he
  · exact ⟨_, armedOn_concat.2 (Or.inr ⟨"vm", "as", 0x1000, .read, Prod.ext rfl hread, hkey⟩)⟩
  · rintro id ⟨e, he, _, _, _, _, rfl, -⟩
    have hmem := mem_map_of_mem (f := Prod.snd) he
    simp only [hreplies, mem_cons, Reply.armed.injEq, not_mem_nil, reduceCtorEq, or_false] at hmem
    rcases hmem with rfl | rfl
    · decide +kernel
    · decide +kernel

end TrapController
end AegisHV
