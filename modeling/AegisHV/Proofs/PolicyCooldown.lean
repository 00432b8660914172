import AegisHV.Proofs.Policy
import AegisHV.Spec.Wx

/-! The cooldown of a rule over a stream of events. The engine keeps the time of the last firing
under a key of texts, so it follows machine, reason, trap type and page as far as one page is
always written as one text and no two rules share a key. -/

namespace AegisHV.Policy

open Sys List

/-- The address of the access as the event gives it. -/
def addressText (ev : Export.Event) : List Char := (ev.addr.bind (·.gpa)).getD []

/-- The page of an access; an address that is no number stands for itself. -/
inductive GuestPage
  | number (page : ℕ)
  | text (address : List Char)
  deriving DecidableEq

def guestPage (pageSize : ℕ) (ev : Export.Event) : GuestPage :=
  match Trace.parseHexU64 (addressText ev) with
  | some gpa => .number (Wx.pageAlign gpa pageSize)
  | none => .text (addressText ev)

/-- The events are of the same machine, reason and trap type, on the same page. -/
structure SameEntity (pageSize : ℕ) (ev ev' : Export.Event) : Prop where
  vm : ev.vmId.getD ev.vm = ev'.vmId.getD ev'.vm
  reason : ev.reason.getD [] = ev'.reason.getD []
  trapType : ev.trapType.getD [] = ev'.trapType.getD []
  page : guestPage pageSize ev = guestPage pageSize ev'

namespace PolicyEngine

variable {engine : PolicyEngine} {r : CompiledRule}

/-! One event -/

/-- The last firing under the key of the event is younger than the cooldown. -/
def cooling (r : CompiledRule) (fired : LastFired) (now : ℕ) (ev : Export.Event) : Bool :=
  ((fired (cooldownKey r ev)).map fun prev => decide (now - prev < r.cooldown)).getD false

variable {ev : Export.Event}

theorem cooling_iff {fired : LastFired} {now : ℕ} :
    cooling r fired now ev = true ↔
      ∃ prev, fired (cooldownKey r ev) = some prev ∧ now - prev < r.cooldown := by
  rw [cooling]
  rcases fired (cooldownKey r ev) with _ | prev <;> simp

theorem handle_eq (hr : 0 < r.cooldown) (fired : LastFired) (now : ℕ) (ev : Export.Event) :
    handle r fired now ev =
      if cooling r fired now ev then (suppressed r ev cooldownDetail, fired)
      else (respond r ev, Function.update fired (cooldownKey r ev) (some now)) := by
  rw [handle, if_pos hr]
  rfl

theorem respond_ne (r : CompiledRule) (ev : Export.Event) :
    respond r ev ≠ suppressed r ev cooldownDetail := by
  have hdetail : ∀ detail, detail ≠ cooldownDetail →
      suppressed r ev detail ≠ suppressed r ev cooldownDetail := by
    intro detail hne heq
    simp only [suppressed, List.cons.injEq, Call.suppressEvent.injEq, and_true, true_and] at heq
    exact hne heq
  have hrun : ∀ execute, runActions r ev execute ≠ suppressed r ev cooldownDetail := by
    intro execute
    rw [runActions]
    split
    · exact hdetail _ (by decide)
    · rcases r.actions with _ | ⟨action, actions⟩
      · exact fun heq => by cases heq
      · exact fun heq => by cases heq
  rw [respond]
  split
  · exact hdetail _ (by decide)
  · exact hrun false
  · exact hrun true

variable {e : Timed}

theorem apply_of_reaches (h : engine.reaches e.event = some r) (fired : LastFired) :
    engine.apply fired e = handle r fired e.now e.event := by
  rw [apply, h]

theorem suppressed_iff (hr : 0 < r.cooldown) (h : engine.reaches e.event = some r)
    (fired : LastFired) :
    (engine.apply fired e).1 = suppressed r e.event cooldownDetail ↔
      cooling r fired e.now e.event = true := by
  rw [apply_of_reaches h, handle_eq hr]
  split
  case isTrue hcool => exact iff_of_true rfl hcool
  case isFalse hcool => exact iff_of_false (respond_ne r e.event) hcool

/-! A run -/

/-- The rule fired at this entry of the log. -/
def FiredAt (engine : PolicyEngine) (r : CompiledRule) (entry : Timed × List Call) : Prop :=
  engine.reaches entry.1.event = some r ∧
    entry.2 ≠ suppressed r entry.1.event cooldownDetail

/-- The times of the firings under a key. -/
def firedTimes (engine : PolicyEngine) (key : CooldownKey) (log : List (Timed × List Call)) :
    Set ℕ :=
  {n | ∃ entry ∈ log, ∃ r, engine.FiredAt r entry ∧ 0 < r.cooldown ∧
    cooldownKey r entry.1.event = key ∧ entry.1.now = n}

theorem firedTimes_concat (key : CooldownKey) (log : List (Timed × List Call))
    (entry : Timed × List Call) (n : ℕ) :
    n ∈ engine.firedTimes key (log ++ [entry]) ↔ n ∈ engine.firedTimes key log ∨
      ∃ r, engine.FiredAt r entry ∧ 0 < r.cooldown ∧ cooldownKey r entry.1.event = key ∧
        entry.1.now = n := by
  simp only [firedTimes, mem_append, mem_singleton, or_and_right, exists_or,
    exists_eq_left, Set.mem_ofPred_eq]

/-- The state holds the last firing of every key. -/
def Recorded (engine : PolicyEngine) (log : List (Timed × List Call)) (fired : LastFired) : Prop :=
  ∀ key, LastOf (engine.firedTimes key log) (fired key)

variable {log : List (Timed × List Call)}

theorem firedTimes_le {key : CooldownKey} {now : ℕ}
    (hle : ∀ e ∈ log.map Prod.fst, e.now ≤ now) : ∀ n ∈ engine.firedTimes key log, n ≤ now := by
  rintro n ⟨entry, hmem, r, -, -, -, rfl⟩
  exact hle _ (mem_map_of_mem hmem)

/-- An entry that records no firing leaves the times as they are. -/
theorem firedTimes_same {key : CooldownKey} {entry : Timed × List Call}
    (h : ∀ r, engine.FiredAt r entry → 0 < r.cooldown → cooldownKey r entry.1.event ≠ key) :
    engine.firedTimes key (log ++ [entry]) = engine.firedTimes key log := by
  ext n
  rw [firedTimes_concat]
  refine or_iff_left ?_
  rintro ⟨r, hfired, hr, hkey, -⟩
  exact h r hfired hr hkey

theorem Recorded.step {fired : LastFired}
    (h : engine.Recorded log fired) (hle : ∀ e' ∈ log.map Prod.fst, e'.now ≤ e.now) :
    engine.Recorded (log ++ [(e, (engine.apply fired e).1)]) (engine.apply fired e).2 := by
  intro key
  rcases hreach : engine.reaches e.event with _ | r
  · have hnone : ∀ {r calls}, ¬ engine.FiredAt r (e, calls) := by
      intro r calls hfired
      have hsome : engine.reaches e.event = some r := hfired.1
      rw [hreach] at hsome
      cases hsome
    rw [firedTimes_same fun r hfired => absurd hfired hnone, apply, hreach]
    exact h key
  have hown : ∀ {r' calls}, engine.FiredAt r' (e, calls) → r' = r := by
    intro r' calls hfired
    have hsome : engine.reaches e.event = some r' := hfired.1
    exact Option.some.inj (hsome.symm.trans hreach)
  by_cases hr : 0 < r.cooldown
  · rw [apply_of_reaches hreach, handle_eq hr]
    split
    case isTrue =>
      have hsame : engine.firedTimes key (log ++ [(e, suppressed r e.event cooldownDetail)]) =
          engine.firedTimes key log := by
        refine firedTimes_same fun r' hfired => ?_
        obtain rfl := hown hfired
        exact absurd rfl hfired.2
      rw [hsame]
      exact h key
    case isFalse =>
      dsimp only
      by_cases hkey : key = cooldownKey r e.event
      · have hfired : engine.FiredAt r (e, respond r e.event) := ⟨hreach, respond_ne r e.event⟩
        have hinsert : engine.firedTimes key (log ++ [(e, respond r e.event)]) =
            insert e.now (engine.firedTimes key log) := by
          ext n
          rw [firedTimes_concat, or_comm]
          refine or_congr_left ⟨?_, ?_⟩
          · rintro ⟨r', -, -, -, rfl⟩
            rfl
          · rintro rfl
            exact ⟨r, hfired, hr, hkey.symm, rfl⟩
        rw [hinsert, hkey, Function.update_self]
        exact lastOf_insert (firedTimes_le hle)
      · have hsame : engine.firedTimes key (log ++ [(e, respond r e.event)]) =
            engine.firedTimes key log := by
          refine firedTimes_same fun r' hfired _ => ?_
          obtain rfl := hown hfired
          exact Ne.symm hkey
        rw [hsame, Function.update_of_ne hkey]
        exact h key
  · rw [apply_of_reaches hreach, handle, if_neg hr]
    have hsame : engine.firedTimes key (log ++ [(e, respond r e.event)]) =
        engine.firedTimes key log := by
      refine firedTimes_same fun r' hfired hr' => ?_
      obtain rfl := hown hfired
      exact absurd hr' hr
    rw [hsame]
    exact h key

theorem recorded_run {stream : List Timed} (hordered : stream.Pairwise fun e e' => e.now ≤ e'.now) :
    engine.Recorded (run engine.apply (fun _ => none) stream).1
      (run engine.apply (fun _ => none) stream).2 := by
  induction stream using List.reverseRecOn with
  | nil =>
    intro key
    exact Set.eq_empty_iff_forall_notMem.mpr (by rintro n ⟨entry, hmem, -⟩; cases hmem)
  | append_singleton seen e ih =>
    obtain ⟨hseen, -, hlast⟩ := pairwise_append.mp hordered
    rw [run_concat]
    refine (ih hseen).step ?_
    rw [run_log_fst]
    exact fun e' he' => hlast e' he' e mem_cons_self

/-! Keys and entities -/

theorem cooldownKey_eq_iff {r' : CompiledRule} {ev' : Export.Event} :
    cooldownKey r' ev' = cooldownKey r ev ↔
      (r'.id = r.id ∧ actionKinds r' = actionKinds r) ∧
        ev'.vmId.getD ev'.vm = ev.vmId.getD ev.vm ∧ ev'.reason.getD [] = ev.reason.getD [] ∧
        ev'.trapType.getD [] = ev.trapType.getD [] ∧ addressText ev' = addressText ev := by
  simp only [cooldownKey, CooldownKey.mk.injEq, addressText]
  tauto

theorem sameEntity_iff {pageSize : ℕ} {ev' : Export.Event}
    (htext : SameEntity pageSize ev' ev → addressText ev' = addressText ev) :
    SameEntity pageSize ev' ev ↔
      ev'.vmId.getD ev'.vm = ev.vmId.getD ev.vm ∧ ev'.reason.getD [] = ev.reason.getD [] ∧
        ev'.trapType.getD [] = ev.trapType.getD [] ∧ addressText ev' = addressText ev := by
  constructor
  · exact fun h => ⟨h.vm, h.reason, h.trapType, htext h⟩
  · rintro ⟨hvm, hreason, htrap, haddress⟩
    exact ⟨hvm, hreason, htrap, by rw [guestPage, guestPage, haddress]⟩

/-- If a rule shares its key with no other rule, and the events of one entity that reach it write
the page as one text, then at every event that reaches the rule in a stream, the event is
suppressed exactly if the rule has fired for the same entity less than its cooldown before. -/
theorem cooldown_exact (engine : PolicyEngine) (r : CompiledRule) (hr : 0 < r.cooldown)
    (pageSize : ℕ) (stream : List Timed)
    (hordered : stream.Pairwise fun e e' => e.now ≤ e'.now)
    (hrule : ∀ r' ∈ engine.rules, 0 < r'.cooldown → r'.id = r.id →
      actionKinds r' = actionKinds r → r' = r)
    (htext : ∀ e ∈ stream, ∀ e' ∈ stream, engine.reaches e.event = some r →
      engine.reaches e'.event = some r → SameEntity pageSize e.event e'.event →
      addressText e.event = addressText e'.event) :
    ∀ before e after, stream = before ++ e :: after → engine.reaches e.event = some r →
      ((engine.apply (run engine.apply (fun _ => none) before).2 e).1 =
          suppressed r e.event cooldownDetail ↔
        ∃ entry ∈ (run engine.apply (fun _ => none) before).1, engine.FiredAt r entry ∧
          SameEntity pageSize entry.1.event e.event ∧ e.now - entry.1.now < r.cooldown) := by
  intro before e after hstream hreach
  have hrecorded : engine.Recorded (run engine.apply (fun _ => none) before).1
      (run engine.apply (fun _ => none) before).2 :=
    recorded_run (pairwise_append.mp (hstream ▸ hordered)).1
  rw [suppressed_iff hr hreach, cooling_iff]
  -- "less than the cooldown ago" as "at most one less ago", for the last firing and for some firing
  have hrecent : (∃ prev, (run engine.apply (fun _ => none) before).2 (cooldownKey r e.event) =
        some prev ∧ e.now - prev < r.cooldown) ↔
      ∃ n ∈ engine.firedTimes (cooldownKey r e.event) (run engine.apply (fun _ => none) before).1,
        e.now - n < r.cooldown := by
    have h := (hrecorded (cooldownKey r e.event)).exists_recent e.now (r.cooldown - 1)
    simpa only [Nat.le_sub_one_iff_lt hr] using h.symm
  rw [hrecent]
  have hmem : ∀ entry ∈ (run engine.apply (fun _ => none) before).1, entry.1 ∈ stream := by
    intro entry hentry
    have hfst := mem_map_of_mem (f := Prod.fst) hentry
    rw [run_log_fst] at hfst
    exact hstream ▸ mem_append_left _ hfst
  have he : e ∈ stream := hstream ▸ mem_append_right _ mem_cons_self
  constructor
  · rintro ⟨n, ⟨entry, hentry, r', hfired, hr', hkey, rfl⟩, hlt⟩
    obtain ⟨⟨hid, hkinds⟩, hsame⟩ := cooldownKey_eq_iff.mp hkey
    have hrules : r' ∈ engine.rules := by
      have hsome := hfired.1
      rw [reaches] at hsome
      split at hsome
      · cases hsome
      · exact mem_of_find?_eq_some hsome
    obtain rfl := hrule r' hrules hr' hid hkinds
    refine ⟨entry, hentry, hfired, ?_, hlt⟩
    exact (sameEntity_iff (htext _ (hmem entry hentry) _ he hfired.1 hreach)).mpr hsame
  · rintro ⟨entry, hentry, hfired, hsame, hlt⟩
    refine ⟨entry.1.now, ⟨entry, hentry, r, hfired, hr, ?_, rfl⟩, hlt⟩
    refine cooldownKey_eq_iff.mpr ⟨⟨rfl, rfl⟩, ?_⟩
    exact (sameEntity_iff (htext _ (hmem entry hentry) _ he hfired.1 hreach)).mp hsame

/-! A rule with a cooldown of a minute -/

def cooling60 : CompiledRule := { plainCompiled "a" "first" with cooldown := 60000 }

def cooling60Engine : PolicyEngine := { plainEngine with rules := [cooling60] }

theorem cooldown_exact_repeated :
    (cooling60Engine.apply (run cooling60Engine.apply (fun _ => none)
        [⟨plainEvent "0x1000", 0⟩]).2 ⟨plainEvent "0x1000", 1⟩).1 =
      suppressed cooling60 (plainEvent "0x1000") cooldownDetail := by
  have hexact := cooldown_exact cooling60Engine cooling60 (by decide) 4096
    [⟨plainEvent "0x1000", 0⟩, ⟨plainEvent "0x1000", 1⟩] (by simp)
    (fun r' hr' _ _ _ => mem_singleton.mp hr')
    (by
      intro e he e' he' _ _ _
      rcases mem_pair.mp he with rfl | rfl <;> rcases mem_pair.mp he' with rfl | rfl <;>
        rfl)
    [⟨plainEvent "0x1000", 0⟩] ⟨plainEvent "0x1000", 1⟩ [] rfl rfl
  refine hexact.mpr ⟨(⟨plainEvent "0x1000", 0⟩, respond cooling60 (plainEvent "0x1000")), ?_, ?_,
    ⟨rfl, rfl, rfl, rfl⟩, by decide⟩
  · exact mem_cons_self
  · exact ⟨rfl, respond_ne cooling60 (plainEvent "0x1000")⟩

/-- A rule for writes and executions, by its category. -/
def categoryRule (name id category : String) : Rule :=
  { plainRule name id 60000 with match_ := ⟨category.toList, [], [], [], []⟩ }

def categoryCompiled (name id : String) (category : Export.Category) : CompiledRule :=
  { plainCompiled name id with cooldown := 60000, category := some category }

def categoryEngine : PolicyEngine :=
  { plainEngine with
    rules := [categoryCompiled "a" "rule-2" .exit, categoryCompiled "b" "rule-2" .wx] }

def wxEvent : Export.Event := { plainEvent "0x1000" with category := .wx }

/-- Two addresses of one page are not taken for one page, and the firing of a rule suppresses
another rule that was given the same id. -/
theorem cooldown_by_text :
    (SameEntity 4096 (plainEvent "0x1000") (plainEvent "0x1008") ∧
      (cooling60Engine.apply (run cooling60Engine.apply (fun _ => none)
          [⟨plainEvent "0x1000", 0⟩]).2 ⟨plainEvent "0x1008", 1⟩).1 ≠
        suppressed cooling60 (plainEvent "0x1008") cooldownDetail) ∧
    new (plainConfig (normalize [categoryRule "a" "rule-2" "exit", categoryRule "b" "" "wx"]) []) =
        .ok categoryEngine ∧
      categoryEngine.reaches wxEvent = some (categoryCompiled "b" "rule-2" .wx) ∧
      categoryEngine.reaches (plainEvent "0x1000") =
        some (categoryCompiled "a" "rule-2" .exit) ∧
      (categoryEngine.apply (run categoryEngine.apply (fun _ => none)
          [⟨plainEvent "0x1000", 0⟩]).2 ⟨wxEvent, 1⟩).1 =
        suppressed (categoryCompiled "b" "rule-2" .wx) wxEvent cooldownDetail :=
  ⟨⟨⟨rfl, rfl, rfl, by decide +kernel⟩, respond_ne cooling60 (plainEvent "0x1008")⟩, rfl, rfl, rfl,
    rfl⟩

end PolicyEngine

end AegisHV.Policy
