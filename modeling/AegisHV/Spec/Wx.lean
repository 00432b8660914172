import AegisHV.Lib.Assoc
import AegisHV.Lib.Run
import AegisHV.Spec.Event
import AegisHV.Spec.Identity
import AegisHV.Spec.Pattern
import AegisHV.Spec.Trace

/-! The engine that finds a write and then an execution of one guest page (`wx.rs`). Times and
durations are in one unit; the order in which a hash map is iterated is a parameter. -/

namespace AegisHV.Wx
open Sys Export

structure PageState where
  lastWriteAt : Option ℕ := none
  lastWriteRip : Option (List Char) := none
  lastWriteIdentityConflictTags : List (List Char) := []
  lastExecAt : Option ℕ := none
  lastExecRip : Option (List Char) := none
  lastAlertByReason : List Char → Option ℕ := fun _ => none

structure PageKey where
  vmScope : List Char
  addressSpace : List Char
  gpaPage : ℕ
  deriving DecidableEq

structure AllowEntry where
  vm : Option Pattern
  gpaPrefix : List Char

inductive WxTrapMode
  | correlationOnly
  | trapEnforced (backend invalidationStatus : List Char)

abbrev Pages : Type := Assoc PageKey PageState

/-- `entry(key).or_default()` -/
def Pages.stateOf (pages : Pages) (key : PageKey) : PageState := (pages.get key).getD {}

structure WxEngine where
  window : ℕ
  cooldown : ℕ
  maxPages : ℕ
  pageSize : ℕ
  allow : List AllowEntry
  trapMode : WxTrapMode
  iterate : List (PageKey × PageState) → List (PageKey × PageState)
  iterate_perm : ∀ entries, (iterate entries).Perm entries

/-- The alert: the exit event it is copied from, and the fields that are set otherwise. -/
structure WxAlert where
  source : Export.Event
  message : String
  tags : List (List Char)
  correlationId : List Char
  pageHex : List Char
  writerRip : Option (List Char)
  executorRip : Option (List Char)
  delta : ℕ
  pageSize : ℕ
  trap : Option TrapInfo

def pageAlign (addr pageSize : ℕ) : ℕ :=
  let size := if pageSize = 0 then 4096 else pageSize
  addr &&& (2 ^ 64 - 1 - (size - 1))

def formatHex (v : ℕ) : List Char := '0' :: 'x' :: Nat.toDigits 16 v

def IdentityConflictReason.ALL : List IdentityConflictReason :=
  [.multipleDomains, .pidReuse, .startTimeUnverified, .staleCache, .procCgroupMismatch,
    .libvirtUuidMismatch, .qmpSocketMismatch, .libvirtNameMismatch]

def isSafeIdentityConflictTag (tag : List Char) : Bool :=
  if tag = "identity:conflict".toList then true
  else match tag.dropPrefix? "identity_conflict:".toList with
    | none => false
    | some reason =>
      IdentityConflictReason.ALL.any fun candidate => candidate.asStr.toList == reason

def appendSafeIdentityConflictTags (tags sourceTags : List (List Char)) : List (List Char) :=
  sourceTags.foldl (fun tags tag =>
    if isSafeIdentityConflictTag tag && !tags.contains tag then tags ++ [tag] else tags) tags

def safeIdentityConflictTags (sourceTags : List (List Char)) : List (List Char) :=
  appendSafeIdentityConflictTags [] sourceTags

def wxTagsFromExitEvent (mode : WxTrapMode) (writeTags sourceTags : List (List Char)) :
    List (List Char) :=
  let enforcement := match mode with
    | .correlationOnly => "not-enforcement".toList
    | .trapEnforced _ _ => "trap-enforcement".toList
  appendSafeIdentityConflictTags
    (appendSafeIdentityConflictTags ["wx".toList, "correlated".toList, enforcement] writeTags)
    sourceTags

def correlationId (key : PageKey) : List Char :=
  "wx:".toList ++ key.vmScope ++ ':' :: key.addressSpace ++ ':' :: formatHex key.gpaPage

def trapInfoFromMode (mode : WxTrapMode) (trapId pageHex : List Char) : Option TrapInfo :=
  match mode with
  | .correlationOnly => none
  | .trapEnforced backend invalidationStatus => some {
      trapId
      trapKind := "wx_correlation".toList
      backend
      page := pageHex
      permissionsBefore := some ⟨true, false, false⟩
      permissionsAfter := some ⟨true, false, true⟩
      decision := "allow_step".toList
      invalidationStatus }

namespace WxEngine

def isAllowed (self : WxEngine) (ev : Export.Event) (gpaPage : List Char) : Bool :=
  self.allow.any fun entry =>
    let vmOk := (entry.vm.map fun p => p.isMatch (.ofList ev.vm) ||
      ((ev.vmId.map fun id => p.isMatch (.ofList id)).getD false)).getD true
    vmOk && (entry.gpaPrefix.isEmpty || entry.gpaPrefix.isPrefixOf gpaPage)

structure Touch where
  key : PageKey
  write : Bool
  exec : Bool
  rip : Option (List Char)

/-- The access an exit event reports, with the key of its page. -/
def access (self : WxEngine) (ev : Export.Event) : Option Touch := do
  guard (ev.category = .exit)
  let bits ← ev.violation
  guard (bits.write || bits.exec)
  let addr ← ev.addr
  let gpaRaw ← addr.gpa
  let gpa ← Trace.parseHexU64 gpaRaw
  let gpaPage := pageAlign gpa self.pageSize
  let vmScope := ev.vmId.getD ev.vm
  let addressSpace := (((ev.cr3.or ev.asid).or ev.vmid).or ev.vpid).getD "global".toList
  pure ⟨⟨vmScope, addressSpace, gpaPage⟩, bits.write, bits.exec, addr.rip⟩

/-- The access, unless the event is allowlisted. -/
def touch (self : WxEngine) (ev : Export.Event) : Option Touch :=
  (self.access ev).filter fun t => !self.isAllowed ev (formatHex t.key.gpaPage)

/-- The page after the event has been noted in it. -/
def note (ev : Export.Event) (t : Touch) (now : ℕ) (st : PageState) : PageState :=
  let st := if t.write then
      { st with
        lastWriteAt := some now
        lastWriteRip := t.rip
        lastWriteIdentityConflictTags := safeIdentityConflictTags ev.tags }
    else st
  if t.exec then { st with lastExecAt := some now, lastExecRip := t.rip } else st

def cooldownReason (ev : Export.Event) : List Char := ev.reason.getD "W^X".toList

/-- Whether an alert for the reason is too young, and the page with the new one. -/
def cooldownActive (self : WxEngine) (st : PageState) (reason : List Char) (now : ℕ) :
    Bool × PageState :=
  if self.cooldown = 0 then (false, st)
  else if ((st.lastAlertByReason reason).map fun prev => decide (now - prev < self.cooldown)).getD
      false then (true, st)
  else (false,
    { st with lastAlertByReason := Function.update st.lastAlertByReason reason (some now) })

def alert (self : WxEngine) (ev : Export.Event) (t : Touch) (st : PageState) (delta : ℕ) : WxAlert where
  source := ev
  message := match self.trapMode with
    | .correlationOnly => "write then exec on same guest page within correlation window"
    | .trapEnforced _ _ => "write then exec on same guest page observed in trap-engine mode"
  tags := wxTagsFromExitEvent self.trapMode st.lastWriteIdentityConflictTags ev.tags
  correlationId := correlationId t.key
  pageHex := formatHex t.key.gpaPage
  writerRip := st.lastWriteRip
  executorRip := st.lastExecRip
  delta := delta
  pageSize := self.pageSize
  trap := trapInfoFromMode self.trapMode (correlationId t.key) (formatHex t.key.gpaPage)

/-- What the engine makes of the page of an event, before it prunes. -/
def judge (self : WxEngine) (ev : Export.Event) (t : Touch) (now : ℕ) (st : PageState) :
    Option WxAlert × PageState :=
  let st := note ev t now st
  match st.lastWriteAt with
  | some wAt =>
    let delta := now - wAt
    if t.exec && decide (delta ≤ self.window) then
      match self.cooldownActive st (cooldownReason ev) now with
      | (true, st) => (none, st)
      | (false, st) => (some (self.alert ev t st delta), st)
    else (none, st)
  | none => (none, st)

def lastUse (st : PageState) : Option ℕ := st.lastExecAt.or st.lastWriteAt

def maybePrune (self : WxEngine) (now : ℕ) (pages : Pages) : Pages :=
  if pages.size ≤ self.maxPages then pages
  else
    let kept := pages.retain fun _ st =>
      ((lastUse st).map fun t => decide (now - t ≤ self.window * 2)).getD false
    if kept.size > self.maxPages then
      let dropped := ((self.iterate kept.entries).take (kept.size - self.maxPages)).map Prod.fst
      kept.retain fun key _ => decide (key ∉ dropped)
    else kept

/-- An exit event, the time at which it is handled, and the time read for pruning. -/
structure Timed where
  event : Export.Event
  now : ℕ
  later : ℕ
  now_le : now ≤ later

/-- `on_exit_event`, with what it does to prune. -/
def onExitEventWith (prune : WxEngine → ℕ → Pages → Pages) (self : WxEngine) (pages : Pages)
    (e : Timed) : Option WxAlert × Pages :=
  match self.touch e.event with
  | none => (none, pages)
  | some t =>
    let judged := self.judge e.event t e.now (pages.stateOf t.key)
    (judged.1, prune self e.later (pages.put t.key judged.2))

def onExitEvent : WxEngine → Pages → Timed → Option WxAlert × Pages := onExitEventWith maybePrune

/-- The engine that never prunes. -/
def onExitEventUnpruned : WxEngine → Pages → Timed → Option WxAlert × Pages :=
  onExitEventWith fun _ _ pages => pages

end WxEngine

end AegisHV.Wx
