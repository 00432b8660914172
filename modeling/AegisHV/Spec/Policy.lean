import AegisHV.Spec.Actions
import AegisHV.Spec.Config
import AegisHV.Spec.Event
import AegisHV.Spec.Trace

/-! The policy engine (`policy.rs`), with the normalisation of its rules (`config.rs`): the rules
in the order they are tried, and what an event makes the engine ask of the dispatcher of actions.
The metrics are left out. -/

namespace AegisHV.Policy

open Sys Export

structure Match where
  category : List Char
  severityAtLeast : List Char
  reasonRegex : List Char
  vmRegex : List Char
  trapType : List Char

structure Rule where
  name : List Char
  id : List Char
  match_ : Match
  action : Option Config.Action
  actions : List Config.Action
  cooldownMs : ℕ
  priority : ℤ
  mode : List Char
  enabled : Bool

def Rule.allActions (r : Rule) : List Config.Action := r.action.toList ++ r.actions

/-- `s.trim().is_empty()` -/
def blank (s : List Char) : Bool := (trim s).isEmpty

/-- The id of a rule that has none, by its place. -/
def automaticId (idx : ℕ) : List Char := "rule-".toList ++ Nat.toDigits 10 (idx + 1)

def normalizeRule (idx : ℕ) (r : Rule) : Rule :=
  let r := if blank r.id then { r with id := automaticId idx } else r
  if blank r.name then { r with name := r.id } else r

/-- What `Config::normalize` does to the rules. -/
def normalize (rules : List Rule) : List Rule :=
  rules.zipIdx.map fun place => normalizeRule place.2 place.1

inductive RuleMode
  | enforce
  | dryRun
  | suppress

structure CompiledRule where
  name : List Char
  id : List Char
  priority : ℤ
  cooldown : ℕ
  mode : RuleMode
  actions : List Config.Action
  reasonRe : Option Pattern
  vmRe : Option Pattern
  trapType : Option (List Char)
  sevMin : Option Severity
  category : Option Category

def severityFromStr (s : List Char) : Option Severity :=
  [Severity.info, .low, .medium, .high, .critical].find? fun severity =>
    severity.asStr == Trace.toAsciiLowercase s

def categoryFromStr (s : List Char) : Option Category :=
  [Category.exit, .wx, .pmu, .policy, .snapshot, .sensor].find? fun category =>
    category.asStr == Trace.toAsciiLowercase s

def Severity.rank : Severity → ℕ
  | .info => 0
  | .low => 1
  | .medium => 2
  | .high => 3
  | .critical => 4

def Severity.atLeast (s other : Severity) : Bool := decide (Severity.rank other ≤ Severity.rank s)

/-- A pattern that is compiled unless it is blank. -/
def compileRegex (field : String) (text ruleName : List Char) : Except String (Option Pattern) :=
  if blank text then .ok none
  else match Pattern.compile (String.ofList text) with
    | .ok pattern => .ok (some pattern)
    | .error e => .error ("invalid " ++ field ++ " '" ++ String.ofList text ++ "' in rule '" ++
        String.ofList ruleName ++ "': " ++ e)

/-- A name that is looked up unless it is blank. -/
def readName {α : Type} (field : String) (fromStr : List Char → Option α)
    (text ruleName : List Char) : Except String (Option α) :=
  if blank text then .ok none
  else match fromStr text with
    | some value => .ok (some value)
    | none => .error ("invalid " ++ field ++ " '" ++ String.ofList text ++ "' in rule '" ++
        String.ofList ruleName ++ "'")

def readMode (text ruleName : List Char) : Except String RuleMode :=
  if text = "enforce".toList then .ok .enforce
  else if text = "dry_run".toList then .ok .dryRun
  else if text = "suppress".toList then .ok .suppress
  else .error ("invalid mode '" ++ String.ofList text ++ "' in rule '" ++ String.ofList ruleName ++
    "'")

def compileRule (r : Rule) : Except String CompiledRule := do
  let reasonRe ← compileRegex "reason_regex" r.match_.reasonRegex r.name
  let vmRe ← compileRegex "vm_regex" r.match_.vmRegex r.name
  let sevMin ← readName "severity" severityFromStr r.match_.severityAtLeast r.name
  let category ← readName "category" categoryFromStr r.match_.category r.name
  let mode ← readMode r.mode r.name
  pure {
    name := r.name
    id := r.id
    priority := r.priority
    cooldown := r.cooldownMs
    mode
    actions := r.allActions
    reasonRe
    vmRe
    trapType := if blank r.match_.trapType then none else some r.match_.trapType
    sevMin
    category }

/-- The order the rules are sorted by: the higher priority first, then the smaller name. -/
def CompiledRule.Before (a b : CompiledRule) : Prop :=
  b.priority < a.priority ∨ (a.priority = b.priority ∧ strLe a.name b.name = true)

instance : DecidableRel CompiledRule.Before :=
  fun a b => inferInstanceAs (Decidable (_ ∨ _))

/-- What `PolicyEngine::new` reads of the configuration. -/
structure PolicyConfig where
  rules : List Rule
  ignoreVm : List (List Char)
  actions : ActionConfig

structure PolicyEngine where
  rules : List CompiledRule
  ignoreVm : List Pattern
  actions : ActionDispatcher

structure CooldownKey where
  ruleId : List Char
  vmScope : List Char
  reason : List Char
  trapType : List Char
  page : List Char
  actionKinds : List Char
  deriving DecidableEq

/-- The times of the last firings. -/
abbrev LastFired : Type := CooldownKey → Option ℕ

/-- A call of the dispatcher; its answer is emitted with the identity of the event. -/
inductive Call
  | suppressEvent (ruleId vm : List Char) (vmId : Option (List Char)) (detail : String)
  | runAction (ruleId vm : List Char) (vmId : Option (List Char)) (kind : List Char)
      (outputPath nic : Option (List Char)) (identity : Option Export.IdentityInfo)
      (tags : List (List Char)) (execute : Bool)

def ruleMatches (r : CompiledRule) (ev : Export.Event) : Bool :=
  (r.category.map fun cat => decide (ev.category = cat)).getD true &&
  (r.sevMin.map fun sev => Severity.atLeast ev.severity sev).getD true &&
  (r.trapType.map fun tt => decide (ev.trapType = some tt)).getD true &&
  (r.vmRe.map fun re => re.isMatch (.ofList ev.vm) ||
    (ev.vmId.map fun id => re.isMatch (.ofList id)).getD false).getD true &&
  (r.reasonRe.map fun re => re.isMatch (.ofList (ev.reason.getD []))).getD true

/-- The kinds of the actions with `+` between them. -/
def actionKinds (r : CompiledRule) : List Char := ['+'].intercalate (r.actions.map (·.kind))

def cooldownKey (r : CompiledRule) (ev : Export.Event) : CooldownKey where
  ruleId := r.id
  vmScope := ev.vmId.getD ev.vm
  reason := ev.reason.getD []
  trapType := ev.trapType.getD []
  page := (ev.addr.bind (·.gpa)).getD []
  actionKinds := actionKinds r

def optNonEmpty (s : List Char) : Option (List Char) :=
  let trimmed := trim s
  if trimmed.isEmpty then none else some trimmed

namespace PolicyEngine

def new (cfg : PolicyConfig) : Except String PolicyEngine := do
  let rules ← (cfg.rules.filter (·.enabled)).mapM compileRule
  let ignoreVm ← cfg.ignoreVm.mapM fun pat => match Pattern.compile (String.ofList pat) with
    | .ok pattern => .ok pattern
    | .error e => .error ("invalid ignore_vm pattern '" ++ String.ofList pat ++ "': " ++ e)
  let actions ← ActionDispatcher.new cfg.actions
  pure { rules := rules.insertionSort CompiledRule.Before, ignoreVm, actions }

def shouldIgnoreVm (self : PolicyEngine) (vm : List Char) : Bool :=
  self.ignoreVm.any fun p => p.isMatch (.ofList vm)

def suppressed (r : CompiledRule) (ev : Export.Event) (detail : String) : List Call :=
  [.suppressEvent r.id ev.vm ev.vmId detail]

def runActions (r : CompiledRule) (ev : Export.Event) (execute : Bool) : List Call :=
  if r.actions.isEmpty then suppressed r ev "rule matched but has no response action"
  else r.actions.map fun action => .runAction r.id ev.vm ev.vmId action.kind
    (optNonEmpty action.outputPath) (optNonEmpty action.nic) ev.identity ev.tags execute

/-- What the mode of the rule says. -/
def respond (r : CompiledRule) (ev : Export.Event) : List Call :=
  match r.mode with
  | .suppress => suppressed r ev "rule matched in suppress mode"
  | .dryRun => runActions r ev false
  | .enforce => runActions r ev true

def cooldownDetail : String := "rule matched but cooldown is active for the same entity"

/-- The body of the loop of `apply`, for the rule that matches. -/
def handle (r : CompiledRule) (fired : LastFired) (now : ℕ) (ev : Export.Event) :
    List Call × LastFired :=
  if r.cooldown > 0 then
    let key := cooldownKey r ev
    if ((fired key).map fun prev => decide (now - prev < r.cooldown)).getD false then
      (suppressed r ev cooldownDetail, fired)
    else (respond r ev, Function.update fired key (some now))
  else (respond r ev, fired)

/-- An event and the time at which it is handled. -/
structure Timed where
  event : Export.Event
  now : ℕ

/-- The first rule that matches. -/
def reaches (self : PolicyEngine) (ev : Export.Event) : Option CompiledRule :=
  if self.shouldIgnoreVm ev.vm then none else self.rules.find? (ruleMatches · ev)

def apply (self : PolicyEngine) (fired : LastFired) (e : Timed) : List Call × LastFired :=
  match self.reaches e.event with
  | none => ([], fired)
  | some r => handle r fired e.now e.event

end PolicyEngine

end AegisHV.Policy
