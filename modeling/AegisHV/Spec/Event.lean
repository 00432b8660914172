import AegisHV.Lib.Float

/-! Events and their export as one line of JSON (`event.rs`), with the string escapers of
`util.rs` and `main.rs`. Texts are lists of characters. -/

namespace AegisHV.Export

open Sys

/-! `util.rs` and `main.rs` -/

/-- `char::is_control` -/
def isControl (c : Char) : Bool := c.toNat < 32 || (127 ≤ c.toNat && c.toNat < 160)

/-- What the loop of `json_escape` pushes for a character. -/
def pushEscaped (c : Char) : List Char :=
  if c = '"' then ['\\', '"']
  else if c = '\\' then ['\\', '\\']
  else if c = '\n' then ['\\', 'n']
  else if c = '\r' then ['\\', 'r']
  else if c = '\t' then ['\\', 't']
  else if isControl c then '\\' :: 'u' :: padded 16 4 c.toNat
  else [c]

/-- The escaper of `util.rs`. -/
def jsonEscape (input : List Char) : List Char :=
  input.foldl (fun out c => out ++ pushEscaped c) []

/-- The escaper of `main.rs`. -/
def mainJsonEscape (value : List Char) : List Char :=
  value.foldl (fun escaped ch => escaped ++ pushEscaped ch) []

def jsonStr (s : List Char) : List Char := '"' :: (jsonEscape s ++ ['"'])

def jsonNull : List Char := "null".toList

/-- The `json_opt_` functions. -/
def jsonOpt {α : Type} (text : α → List Char) : Option α → List Char
  | some a => text a
  | none => jsonNull

/-- `to_string` of an unsigned number. -/
def showNat (n : ℕ) : List Char := Nat.toDigits 10 n

/-- `to_string` of a signed number. -/
def showInt (n : ℤ) : List Char :=
  if n < 0 then '-' :: Nat.toDigits 10 n.natAbs else Nat.toDigits 10 n.natAbs

def showBool (b : Bool) : List Char := (toString b).toList

def jsonOptString (v : Option (List Char)) : List Char := jsonOpt jsonStr v

def jsonOptI32 (v : Option ℤ) : List Char := jsonOpt showInt v

def jsonOptU64 (v : Option ℕ) : List Char := jsonOpt showNat v

def jsonOptF64 (v : Option F64) : List Char := jsonOpt (F64.fixed 6) v

/-! `event.rs` -/

inductive Severity
  | info | low | medium | high | critical

def Severity.asStr : Severity → List Char
  | info => "info".toList
  | low => "low".toList
  | medium => "medium".toList
  | high => "high".toList
  | critical => "critical".toList

inductive Category
  | exit | wx | pmu | policy | snapshot | sensor
  deriving DecidableEq

def Category.asStr : Category → List Char
  | exit => "exit".toList
  | wx => "wx".toList
  | pmu => "pmu".toList
  | policy => "policy".toList
  | snapshot => "snapshot".toList
  | sensor => "sensor".toList

inductive IdentityConfidence
  | low | medium | high

def IdentityConfidence.asStr : IdentityConfidence → List Char
  | low => "low".toList
  | medium => "medium".toList
  | high => "high".toList

inductive LossRangeKind
  | aggregateCounter | sequenceGap | aggregateCounterAndSequenceGap

def LossRangeKind.asStr : LossRangeKind → List Char
  | aggregateCounter => "aggregate_counter".toList
  | sequenceGap => "sequence_gap".toList
  | aggregateCounterAndSequenceGap => "aggregate_counter_and_sequence_gap".toList

structure AddrInfo where
  rip : Option (List Char)
  gva : Option (List Char)
  gpa : Option (List Char)
  qual : Option (List Char)

structure ViolationBits where
  read : Bool
  write : Bool
  exec : Bool

structure WxInfo where
  writerRip : Option (List Char)
  executorRip : Option (List Char)
  deltaMs : ℕ
  pageSize : Option ℕ
  confidence : F64

structure PmuInfo where
  pid : ℤ
  tid : ℤ
  thread : List Char
  cyclesDelta : Option ℕ
  instrDelta : Option ℕ
  cacheRefDelta : Option ℕ
  cacheMissDelta : Option ℕ
  branchDelta : Option ℕ
  branchMissDelta : Option ℕ
  sampleMs : ℕ
  source : List Char
  grouped : Bool

structure TrapInfo where
  trapId : List Char
  trapKind : List Char
  backend : List Char
  page : List Char
  permissionsBefore : Option ViolationBits
  permissionsAfter : Option ViolationBits
  decision : List Char
  invalidationStatus : List Char

structure ActionInfo where
  rule : Option (List Char)
  kind : List Char
  ok : Bool
  status : List Char
  decision : List Char
  result : List Char
  detail : Option (List Char)
  latencyMs : Option ℕ
  targetVmId : Option (List Char)
  attempt : ℕ
  maxAttempts : ℕ
  retryCount : ℕ
  timeoutMs : ℕ
  timedOut : Bool
  refused : Bool
  failureClass : Option (List Char)

structure IdentityInfo where
  sources : List (List Char)
  confidence : IdentityConfidence
  startTimeVerified : Bool
  ambiguous : Bool

structure LossInfo where
  droppedSinceLastEvent : ℕ
  droppedTotal : ℕ
  reason : List Char
  rangeKind : LossRangeKind
  sequenceGapStart : Option ℕ
  sequenceGapEnd : Option ℕ

structure Event where
  version : ℕ
  schemaVersion : ℕ
  ts : List Char
  monotonicMs : ℕ
  sequence : ℕ
  eventId : List Char
  hostId : Option (List Char)
  sensorId : Option (List Char)
  category : Category
  severity : Severity
  vm : List Char
  vmId : Option (List Char)
  vmName : Option (List Char)
  tenantId : Option (List Char)
  rawComm : Option (List Char)
  hostPid : Option ℤ
  hostTid : Option ℤ
  hostStartTimeTicks : Option ℕ
  identity : Option IdentityInfo
  hostCpu : Option ℤ
  vcpuId : Option ℤ
  vcpu : Option ℤ
  arch : Option (List Char)
  cr3 : Option (List Char)
  asid : Option (List Char)
  vmid : Option (List Char)
  vpid : Option (List Char)
  privilegeLevel : Option (List Char)
  guestOs : Option (List Char)
  guestProcess : Option (List Char)
  guestThread : Option (List Char)
  guestModule : Option (List Char)
  guestSymbol : Option (List Char)
  reason : Option (List Char)
  trapType : Option (List Char)
  message : Option (List Char)
  tags : List (List Char)
  correlationId : Option (List Char)
  ruleId : Option (List Char)
  decision : Option (List Char)
  actionId : Option (List Char)
  actionStatus : Option (List Char)
  dataLoss : Bool
  loss : Option LossInfo
  addr : Option AddrInfo
  violation : Option ViolationBits
  pagePermissionsBefore : Option ViolationBits
  pagePermissionsAfter : Option ViolationBits
  wx : Option WxInfo
  trap : Option TrapInfo
  pmu : Option PmuInfo
  action : Option ActionInfo

/-- A pushed field: its name in quotes, a colon and a text. -/
def field (name : String) (text : List Char) : List Char :=
  '"' :: (name.toList ++ '"' :: ':' :: text)

/-- The fields between braces, with commas between them. -/
def object (fields : List (List Char)) : List Char := '\x7b' :: (Json.join fields ++ ['\x7d'])

/-- The strings between brackets. -/
def strings (texts : List (List Char)) : List Char :=
  '[' :: (Json.join (texts.map jsonStr) ++ [']'])

def identityJson (v : Option IdentityInfo) : List Char :=
  v.elim jsonNull fun identity => object [
    field "sources" (strings identity.sources),
    field "confidence" (jsonStr identity.confidence.asStr),
    field "start_time_verified" (showBool identity.startTimeVerified),
    field "ambiguous" (showBool identity.ambiguous)]

def addrJson (v : Option AddrInfo) : List Char :=
  v.elim jsonNull fun a => object [
    field "rip" (jsonOptString a.rip),
    field "gva" (jsonOptString a.gva),
    field "gpa" (jsonOptString a.gpa),
    field "qual" (jsonOptString a.qual)]

def bitsJson (v : Option ViolationBits) : List Char :=
  v.elim jsonNull fun b => object [
    field "read" (showBool b.read),
    field "write" (showBool b.write),
    field "exec" (showBool b.exec)]

def wxJson (v : Option WxInfo) : List Char :=
  v.elim jsonNull fun w => object [
    field "writer_rip" (jsonOptString w.writerRip),
    field "executor_rip" (jsonOptString w.executorRip),
    field "delta_ms" (showNat w.deltaMs),
    field "page_size" (jsonOptU64 w.pageSize),
    field "confidence" (jsonOptF64 (some w.confidence))]

def trapJson (v : Option TrapInfo) : List Char :=
  v.elim jsonNull fun t => object [
    field "trap_id" (jsonStr t.trapId),
    field "trap_kind" (jsonStr t.trapKind),
    field "backend" (jsonStr t.backend),
    field "page" (jsonStr t.page),
    field "permissions_before" (bitsJson t.permissionsBefore),
    field "permissions_after" (bitsJson t.permissionsAfter),
    field "decision" (jsonStr t.decision),
    field "invalidation_status" (jsonStr t.invalidationStatus)]

def pmuJson (v : Option PmuInfo) : List Char :=
  v.elim jsonNull fun p => object [
    field "pid" (showInt p.pid),
    field "tid" (showInt p.tid),
    field "thread" (jsonStr p.thread),
    field "cycles_delta" (jsonOptU64 p.cyclesDelta),
    field "instr_delta" (jsonOptU64 p.instrDelta),
    field "cache_ref_delta" (jsonOptU64 p.cacheRefDelta),
    field "cache_miss_delta" (jsonOptU64 p.cacheMissDelta),
    field "branch_delta" (jsonOptU64 p.branchDelta),
    field "branch_miss_delta" (jsonOptU64 p.branchMissDelta),
    field "sample_ms" (showNat p.sampleMs),
    field "source" (jsonStr p.source),
    field "grouped" (showBool p.grouped)]

def actionJson (v : Option ActionInfo) : List Char :=
  v.elim jsonNull fun a => object [
    field "rule" (jsonOptString a.rule),
    field "kind" (jsonStr a.kind),
    field "ok" (showBool a.ok),
    field "status" (jsonStr a.status),
    field "decision" (jsonStr a.decision),
    field "result" (jsonStr a.result),
    field "detail" (jsonOptString a.detail),
    field "latency_ms" (jsonOptU64 a.latencyMs),
    field "target_vm_id" (jsonOptString a.targetVmId),
    field "attempt" (showNat a.attempt),
    field "max_attempts" (showNat a.maxAttempts),
    field "retry_count" (showNat a.retryCount),
    field "timeout_ms" (showNat a.timeoutMs),
    field "timed_out" (showBool a.timedOut),
    field "refused" (showBool a.refused),
    field "failure_class" (jsonOptString a.failureClass)]

def lossJson (v : Option LossInfo) : List Char :=
  v.elim jsonNull fun l => object [
    field "dropped_since_last_event" (showNat l.droppedSinceLastEvent),
    field "dropped_total" (showNat l.droppedTotal),
    field "reason" (jsonStr l.reason),
    field "range_kind" (jsonStr l.rangeKind.asStr),
    field "sequence_gap_start" (jsonOptU64 l.sequenceGapStart),
    field "sequence_gap_end" (jsonOptU64 l.sequenceGapEnd)]

namespace Event

def toJson (e : Event) : List Char := object ([
    field "version" (showNat e.version),
    field "schema_version" (showNat e.schemaVersion),
    field "ts" (jsonStr e.ts),
    field "monotonic_ms" (showNat e.monotonicMs),
    field "sequence" (showNat e.sequence),
    field "event_id" (jsonStr e.eventId),
    field "host_id" (jsonOptString e.hostId),
    field "sensor_id" (jsonOptString e.sensorId),
    field "category" (jsonStr e.category.asStr),
    field "severity" (jsonStr e.severity.asStr),
    field "vm" (jsonStr e.vm),
    field "vm_id" (jsonOptString e.vmId),
    field "vm_name" (jsonOptString e.vmName),
    field "tenant_id" (jsonOptString e.tenantId),
    field "raw_comm" (jsonOptString e.rawComm),
    field "host_pid" (jsonOptI32 e.hostPid),
    field "host_tid" (jsonOptI32 e.hostTid),
    field "host_start_time_ticks" (jsonOptU64 e.hostStartTimeTicks),
    field "identity" (identityJson e.identity),
    field "host_cpu" (jsonOptI32 e.hostCpu),
    field "vcpu_id" (jsonOptI32 e.vcpuId),
    field "vcpu" (jsonOptI32 e.vcpu),
    field "arch" (jsonOptString e.arch),
    field "cr3" (jsonOptString e.cr3),
    field "asid" (jsonOptString e.asid),
    field "vmid" (jsonOptString e.vmid),
    field "vpid" (jsonOptString e.vpid),
    field "privilege_level" (jsonOptString e.privilegeLevel),
    field "guest_os" (jsonOptString e.guestOs),
    field "guest_process" (jsonOptString e.guestProcess),
    field "guest_thread" (jsonOptString e.guestThread),
    field "guest_module" (jsonOptString e.guestModule),
    field "guest_symbol" (jsonOptString e.guestSymbol),
    field "reason" (jsonOptString e.reason),
    field "trap_type" (jsonOptString e.trapType),
    field "message" (jsonOptString e.message),
    field "tags" (strings e.tags),
    field "correlation_id" (jsonOptString e.correlationId),
    field "rule_id" (jsonOptString e.ruleId),
    field "decision" (jsonOptString e.decision),
    field "action_id" (jsonOptString e.actionId),
    field "action_status" (jsonOptString e.actionStatus),
    field "data_loss" (showBool e.dataLoss),
    field "loss" (lossJson e.loss),
    field "addr" (addrJson e.addr),
    field "violation" (bitsJson e.violation),
    field "page_permissions_before" (bitsJson e.pagePermissionsBefore),
    field "page_permissions_after" (bitsJson e.pagePermissionsAfter),
    field "wx" (wxJson e.wx)] ++
  (if e.trap.isSome then [field "trap" (trapJson e.trap)] else []) ++ [
    field "pmu" (pmuJson e.pmu),
    field "action" (actionJson e.action)])

/-- What `base` reads from the process: the runtime metadata, the clock and the counters. -/
structure Stamp where
  hostId : Option (List Char)
  sensorId : Option (List Char)
  tenantId : Option (List Char)
  monotonicMs : ℕ
  sequence : ℕ
  eventId : List Char

def base (stamp : Stamp) (category : Category) (severity : Severity) (ts vm : List Char) :
    Event where
  version := 1
  schemaVersion := 2
  ts := ts
  monotonicMs := stamp.monotonicMs
  sequence := stamp.sequence
  eventId := stamp.eventId
  hostId := stamp.hostId
  sensorId := stamp.sensorId
  category := category
  severity := severity
  vm := vm
  vmId := none
  vmName := none
  tenantId := stamp.tenantId
  rawComm := none
  hostPid := none
  hostTid := none
  hostStartTimeTicks := none
  identity := none
  hostCpu := none
  vcpuId := none
  vcpu := none
  arch := none
  cr3 := none
  asid := none
  vmid := none
  vpid := none
  privilegeLevel := none
  guestOs := none
  guestProcess := none
  guestThread := none
  guestModule := none
  guestSymbol := none
  reason := none
  trapType := none
  message := none
  tags := []
  correlationId := none
  ruleId := none
  decision := none
  actionId := none
  actionStatus := none
  dataLoss := false
  loss := none
  addr := none
  violation := none
  pagePermissionsBefore := none
  pagePermissionsAfter := none
  wx := none
  trap := none
  pmu := none
  action := none

/-- `with_loss_report` -/
def withLossReport (e : Event) (droppedSinceLastEvent droppedTotal : ℕ) (reason : List Char)
    (sequenceGap : Option (ℕ × ℕ)) : Event :=
  if 0 < droppedSinceLastEvent ∨ sequenceGap.isSome then
    let rangeKind := match decide (0 < droppedSinceLastEvent), sequenceGap.isSome with
      | true, true => LossRangeKind.aggregateCounterAndSequenceGap
      | true, false => .aggregateCounter
      | false, true => .sequenceGap
      | false, false => .aggregateCounter
    { e with
      dataLoss := true
      loss := some {
        droppedSinceLastEvent, droppedTotal, reason, rangeKind
        sequenceGapStart := sequenceGap.map Prod.fst
        sequenceGapEnd := sequenceGap.map Prod.snd } }
  else e

end Event

end AegisHV.Export
