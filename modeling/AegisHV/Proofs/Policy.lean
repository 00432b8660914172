import AegisHV.Lib.Run
import AegisHV.Spec.Policy

/-! The order of the rules in the configuration does not matter to the policy engine. Rules that
bear distinct names are sorted to one list, so both engines are the same, and the first rule of
that list that matches is the one of the highest priority and the smallest name. -/

namespace AegisHV.Policy

open Sys List CompiledRule

/-! Rules without an id stand at their places -/

/-- The rules without an id of their own, with their places. -/
def withoutId (rules : List Rule) : List (Rule × ℕ) :=
  rules.zipIdx.filter fun place => blank place.1.id

theorem normalizeRule_of_id {r : Rule} (h : blank r.id = false) (idx idx' : ℕ) :
    normalizeRule idx r = normalizeRule idx' r := by
  simp only [normalizeRule, h, Bool.false_eq_true, if_false]

/-- The rules with an id are normalised without regard to their places. -/
theorem normalize_perm_split (rules : List Rule) :
    (normalize rules).Perm ((withoutId rules).map (fun place => normalizeRule place.2 place.1) ++
      (rules.filter fun r => !blank r.id).map (normalizeRule 0)) := by
  have hsplit := (filter_append_perm (fun place : Rule × ℕ => blank place.1.id)
    rules.zipIdx).symm.map fun place => normalizeRule place.2 place.1
  rw [map_append] at hsplit
  have hrest : (rules.zipIdx.filter fun place => !blank place.1.id).map
        (fun place => normalizeRule place.2 place.1) =
      (rules.filter fun r => !blank r.id).map (normalizeRule 0) := by
    have hfst : rules.filter (fun r => !blank r.id) =
        (rules.zipIdx.filter fun place => !blank place.1.id).map Prod.fst := by
      conv_lhs => rw [← zipIdx_map_fst 0 rules]
      rw [filter_map]
      rfl
    rw [hfst, map_map]
    refine map_congr_left fun place hplace => ?_
    have hid : blank place.1.id = false := by simpa using (mem_filter.mp hplace).2
    exact normalizeRule_of_id hid _ _
  rw [hrest] at hsplit
  exact hsplit

theorem normalize_perm {rules rules' : List Rule} (hperm : rules'.Perm rules)
    (hplaces : withoutId rules' = withoutId rules) :
    (normalize rules').Perm (normalize rules) := by
  refine (normalize_perm_split rules').trans (List.Perm.trans ?_ (normalize_perm_split rules).symm)
  rw [hplaces]
  exact ((hperm.filter _).map _).append_left _

/-! Compiling -/

theorem compileRule_name {r : Rule} {c : CompiledRule} (h : compileRule r = .ok c) :
    c.name = r.name := by
  simp only [compileRule, except_bind_ok] at h
  obtain ⟨_, -, _, -, _, -, _, -, _, -, hc⟩ := h
  exact congrArg name (Except.ok.inj hc).symm

theorem names_of_mapM {rules : List Rule} {compiled : List CompiledRule}
    (h : rules.mapM compileRule = .ok compiled) :
    compiled.map name = rules.map Rule.name := by
  have hforall := mapM_eq_ok_iff.mp h
  induction hforall with
  | nil => rfl
  | cons hc hrest ih =>
    rw [map_cons, map_cons, compileRule_name hc, ih (mapM_eq_ok_iff.mpr hrest)]

/-! The order of the rules -/

theorem before_total (a b : CompiledRule) : a.Before b ∨ b.Before a := by
  rcases lt_trichotomy a.priority b.priority with hlt | heq | hgt
  · exact .inr (.inl hlt)
  · exact (strLe_total a.name b.name).imp (fun h => .inr ⟨heq, h⟩) fun h => .inr ⟨heq.symm, h⟩
  · exact .inl (.inl hgt)

theorem before_trans {a b c : CompiledRule} (hab : a.Before b) (hbc : b.Before c) :
    a.Before c := by
  rcases hab with hab | ⟨hab, hnames⟩ <;> rcases hbc with hbc | ⟨hbc, hnames'⟩
  · exact .inl (hbc.trans hab)
  · exact .inl (hbc ▸ hab)
  · exact .inl (hab ▸ hbc)
  · exact .inr ⟨hab.trans hbc, strLe_trans hnames hnames'⟩

theorem before_antisymm {a b : CompiledRule} (hab : a.Before b) (hba : b.Before a) :
    a.name = b.name := by
  rcases hab with hab | ⟨hpriority, hnames⟩ <;> rcases hba with hba | ⟨hpriority', hnames'⟩
  · exact absurd hab (lt_asymm hba)
  · exact absurd hpriority' hab.ne
  · exact absurd hpriority hba.ne
  · exact strLe_antisymm hnames hnames'

instance : Std.Total Before := ⟨before_total⟩

instance : IsTrans CompiledRule Before := ⟨fun _ _ _ => before_trans⟩

/-- Rules with distinct names have one sorted order. -/
theorem sort_eq_of_perm {rules rules' : List CompiledRule} (hperm : rules'.Perm rules)
    (hnames : (rules.map name).Nodup) :
    rules'.insertionSort Before = rules.insertionSort Before := by
  refine List.Perm.eq_of_pairwise ?_ (pairwise_insertionSort _ rules')
    (pairwise_insertionSort _ rules)
    ((perm_insertionSort _ rules').trans (hperm.trans (perm_insertionSort _ rules).symm))
  intro a b ha hb hab hba
  refine inj_on_of_nodup_map hnames ?_ ?_ (before_antisymm hab hba)
  · exact hperm.mem_iff.mp ((mem_insertionSort _).mp ha)
  · exact (mem_insertionSort _).mp hb

namespace PolicyEngine

variable {cfg : PolicyConfig} {engine : PolicyEngine}

/-- The parts of an engine that was built. -/
theorem new_eq_ok (h : new cfg = .ok engine) :
    ∃ compiled, (cfg.rules.filter (·.enabled)).mapM compileRule = .ok compiled ∧
      engine.rules = compiled.insertionSort Before ∧
      ∀ rules compiled', (rules.filter (·.enabled)).mapM compileRule = .ok compiled' →
        compiled'.insertionSort Before = engine.rules →
        new { cfg with rules := rules } = .ok engine := by
  simp only [new, except_bind_ok] at h
  obtain ⟨compiled, hcompiled, ignoreVm, hignore, actions, hactions, hengine⟩ := h
  obtain rfl := Except.ok.inj hengine
  refine ⟨compiled, hcompiled, rfl, fun rules compiled' hcompiled' hsort => ?_⟩
  simp only [new, except_bind_ok]
  exact ⟨compiled', hcompiled', ignoreVm, hignore, actions, hactions, by rw [hsort]; rfl⟩

theorem new_of_perm {rules : List Rule}
    (hperm : rules.Perm cfg.rules) (hnames : (cfg.rules.map Rule.name).Nodup)
    (h : new cfg = .ok engine) : new { cfg with rules := rules } = .ok engine := by
  obtain ⟨compiled, hcompiled, hrules, hbuild⟩ := new_eq_ok h
  obtain ⟨compiled', hcompiled', hperm'⟩ := mapM_perm (hperm.filter _) hcompiled
  refine hbuild rules compiled' hcompiled' ?_
  rw [hrules]
  refine sort_eq_of_perm hperm' ?_
  rw [names_of_mapM hcompiled]
  exact hnames.sublist (filter_sublist.map _)

/-- The rules of an engine are the enabled rules, compiled. -/
theorem mem_rules (h : new cfg = .ok engine) (r : CompiledRule) :
    r ∈ engine.rules ↔ ∃ rule ∈ cfg.rules, rule.enabled = true ∧ compileRule rule = .ok r := by
  obtain ⟨compiled, hcompiled, hrules, -⟩ := new_eq_ok h
  rw [hrules, mem_insertionSort, mem_of_mapM hcompiled]
  simp only [mem_filter, and_assoc]

/-- One rule is tried before another: a higher priority, or the same and a smaller name. -/
def TriedBefore (a b : CompiledRule) : Prop :=
  b.priority < a.priority ∨
    (a.priority = b.priority ∧ strLe a.name b.name = true ∧ a.name ≠ b.name)

/-- The rule a call of the dispatcher is made for. -/
def ruleOf : Call → List Char
  | .suppressEvent ruleId _ _ _ => ruleId
  | .runAction ruleId _ _ _ _ _ _ _ _ => ruleId

theorem ruleOf_handle (r : CompiledRule) (fired : LastFired) (now : ℕ) (ev : Export.Event) :
    ∀ call ∈ (handle r fired now ev).1, ruleOf call = r.id := by
  have hsuppressed : ∀ detail, ∀ call ∈ suppressed r ev detail, ruleOf call = r.id := by
    intro detail call hcall
    rw [suppressed, mem_singleton] at hcall
    rw [hcall, ruleOf]
  have hrun : ∀ execute, ∀ call ∈ runActions r ev execute, ruleOf call = r.id := by
    intro execute call hcall
    rw [runActions] at hcall
    split at hcall
    · exact hsuppressed _ call hcall
    · obtain ⟨action, -, rfl⟩ := mem_map.mp hcall
      rfl
  have hrespond : ∀ call ∈ respond r ev, ruleOf call = r.id := by
    rw [respond]
    split
    · exact hsuppressed _
    · exact hrun false
    · exact hrun true
  rw [handle]
  split
  · dsimp only
    split
    · exact hsuppressed _
    · exact hrespond
  · exact hrespond

/-- The first matching rule of a sorted list is tried before all the others. -/
theorem find_first {rules : List CompiledRule} (hsorted : rules.Pairwise Before)
    (hnames : (rules.map name).Nodup) {ev : Export.Event} {r : CompiledRule}
    (h : rules.find? (ruleMatches · ev) = some r) :
    ∀ r' ∈ rules, ruleMatches r' ev = true → r' = r ∨ TriedBefore r r' := by
  obtain ⟨_, before, after, rfl, hbefore⟩ := find?_eq_some_iff_append.mp h
  intro r' hmem hmatch
  rcases mem_append.mp hmem with hr' | hr'
  · have hno := hbefore r' hr'
    simp [hmatch] at hno
  · rcases mem_cons.mp hr' with rfl | hr'
    · exact .inl rfl
    · right
      have hrr' : r.Before r' :=
        (pairwise_cons.mp (pairwise_append.mp hsorted).2.1).1 r' hr'
      have hne : r.name ≠ r'.name := by
        rw [map_append] at hnames
        have hcons := (nodup_append.mp hnames).2.1
        exact fun heq => (nodup_cons.mp hcons).1 (heq ▸ mem_map_of_mem hr')
      exact hrr'.imp id fun hand => ⟨hand.1, hand.2, hne⟩

/-- An event of a machine that is not ignored is handled by the rule that is tried first among
the rules that match it, and by no other. -/
def HandledByFirst (engine : PolicyEngine) (fired : LastFired) (e : Timed) : Prop :=
  ((∀ r ∈ engine.rules, ruleMatches r e.event = false) ∧ engine.apply fired e = ([], fired)) ∨
  ∃ r ∈ engine.rules, ruleMatches r e.event = true ∧
    (∀ r' ∈ engine.rules, ruleMatches r' e.event = true → r' = r ∨ TriedBefore r r') ∧
    engine.apply fired e = handle r fired e.now e.event ∧
    ∀ call ∈ (engine.apply fired e).1, ruleOf call = r.id

theorem handledByFirst (hsorted : engine.rules.Pairwise Before)
    (hnames : (engine.rules.map name).Nodup) {e : Timed}
    (hvm : engine.shouldIgnoreVm e.event.vm = false) (fired : LastFired) :
    HandledByFirst engine fired e := by
  have hreaches : engine.reaches e.event = engine.rules.find? (ruleMatches · e.event) := by
    rw [reaches, hvm]
    rfl
  rcases hfind : engine.rules.find? (ruleMatches · e.event) with _ | r
  · refine .inl ⟨fun r hr => ?_, by simp only [apply, hreaches, hfind]⟩
    simpa using find?_eq_none.mp hfind r hr
  · have happly : engine.apply fired e = handle r fired e.now e.event := by
      simp only [apply, hreaches, hfind]
    have hmatch := find?_some hfind
    refine .inr ⟨r, mem_of_find?_eq_some hfind, hmatch, find_first hsorted hnames hfind,
      happly, ?_⟩
    rw [happly]
    exact ruleOf_handle r fired e.now e.event

/-- Two configurations with the same rules in another order, in which the rules without an id
stand at their places and the names are distinct, give engines that take the same decisions on
every stream; and each event is handled by the first rule that matches it. -/
theorem decisions_any_order {cfg : PolicyConfig} {rules : List Rule} {engine : PolicyEngine}
    (hperm : rules.Perm cfg.rules) (hplaces : withoutId rules = withoutId cfg.rules)
    (hnames : ((normalize cfg.rules).map Rule.name).Nodup)
    (hnew : new { cfg with rules := normalize cfg.rules } = .ok engine) :
    (∃ engine', new { cfg with rules := normalize rules } = .ok engine' ∧
      ∀ stream, run engine'.apply (fun _ => none) stream =
        run engine.apply (fun _ => none) stream) ∧
    (∀ r, r ∈ engine.rules ↔
      ∃ rule ∈ normalize cfg.rules, rule.enabled = true ∧ compileRule rule = .ok r) ∧
    ∀ fired e, engine.shouldIgnoreVm e.event.vm = false → HandledByFirst engine fired e := by
  obtain ⟨compiled, hcompiled, hrules, -⟩ := new_eq_ok hnew
  have hsorted : engine.rules.Pairwise Before :=
    hrules ▸ pairwise_insertionSort _ compiled
  have hdistinct : (engine.rules.map name).Nodup := by
    have hcompiledNames : (compiled.map name).Nodup := by
      rw [names_of_mapM hcompiled]
      exact hnames.sublist (filter_sublist.map _)
    rw [hrules]
    exact (((perm_insertionSort _ compiled).map _).nodup_iff).mpr hcompiledNames
  have hsame : new { cfg with rules := normalize rules } = .ok engine :=
    @new_of_perm { cfg with rules := normalize cfg.rules } _ _ (normalize_perm hperm hplaces)
      hnames hnew
  exact ⟨⟨engine, hsame, fun _ => rfl⟩, mem_rules hnew,
    fun fired e hvm => handledByFirst hsorted hdistinct hvm fired⟩

/-! Two rules that match every event -/

def plainRule (name id : String) (cooldownMs : ℕ) : Rule where
  name := name.toList
  id := id.toList
  match_ := ⟨[], [], [], [], []⟩
  action := some ⟨"pause_vm".toList, [], []⟩
  actions := []
  cooldownMs := cooldownMs
  priority := 100
  mode := "dry_run".toList
  enabled := true

def plainConfig (rules : List Rule) (ignoreVm : List (List Char)) : PolicyConfig where
  rules := rules
  ignoreVm := ignoreVm
  actions := ⟨[], true, .medium, 0, ""⟩

def plainEvent (gpa : String) : Export.Event :=
  { Export.Event.base ⟨none, none, none, 0, 0, []⟩ .exit .info [] "vm".toList with
    addr := some ⟨none, none, some gpa.toList, none⟩ }

/-- The rules for which the dispatcher is called at the first event. -/
def firstAnswer (cfg : PolicyConfig) (ev : Export.Event) : Except String (List (List Char)) :=
  (new { cfg with rules := normalize cfg.rules }).map fun engine =>
    (engine.apply (fun _ => none) ⟨ev, 0⟩).1.map ruleOf

def plainCompiled (name id : String) : CompiledRule where
  name := name.toList
  id := id.toList
  priority := 100
  cooldown := 0
  mode := .dryRun
  actions := [⟨"pause_vm".toList, [], []⟩]
  reasonRe := none
  vmRe := none
  trapType := none
  sevMin := none
  category := none

def plainEngine : PolicyEngine where
  rules := [plainCompiled "a" "first", plainCompiled "b" "second"]
  ignoreVm := []
  actions := ⟨[], true, .medium, 0, ""⟩

theorem decisions_any_order_plain :
    ∃ engine', new (plainConfig (normalize [plainRule "b" "second" 0, plainRule "a" "first" 0]) []) =
        .ok engine' ∧
      ∀ stream, run engine'.apply (fun _ => none) stream =
        run plainEngine.apply (fun _ => none) stream :=
  (@decisions_any_order (plainConfig [plainRule "a" "first" 0, plainRule "b" "second" 0] [])
    [plainRule "b" "second" 0, plainRule "a" "first" 0] plainEngine (List.Perm.swap _ _ _) rfl
    (by decide +kernel) rfl).1

/-- Without ids of their own the rules are named by their places, and an event of an ignored
machine is handled by no rule. -/
theorem order_changes_ids :
    firstAnswer (plainConfig [plainRule "a" "" 0, plainRule "b" "" 0] []) (plainEvent "0x1000") =
        .ok ["rule-1".toList] ∧
      firstAnswer (plainConfig [plainRule "b" "" 0, plainRule "a" "" 0] []) (plainEvent "0x1000") =
        .ok ["rule-2".toList] ∧
      firstAnswer (plainConfig [plainRule "a" "first" 0] ["vm".toList]) (plainEvent "0x1000") =
        .ok [] := by
  decide +kernel

end PolicyEngine

end AegisHV.Policy
