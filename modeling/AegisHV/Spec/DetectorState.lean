import AegisHV.Lib.Op
import AegisHV.Lib.OrdMap
import AegisHV.Lib.Radix
import AegisHV.Lib.Text
import Mathlib.Data.Char
import Mathlib.Data.List.Lex
import Mathlib.Data.Prod.Lex
import Mathlib.Order.WithBot

/-! The runtime state of the detectors: aggregation (`detectors/dedupe.rs`), correlation
(`incidents.rs`) and the text file that keeps the state (`detectors/state.rs`). Texts are
lists of characters, whose order is the order of the bytes. -/

namespace AegisHV.Detectors

open Sys

/-- The kinds in the order in which they are declared, which is their order as set elements. -/
inductive DetectionKind
  | kernelTextTamper | syscallHook | hiddenProcess | hiddenModule | executableAnonymousMemory
  | rwxMapping | wxCorrelation | pmuAnomaly
  deriving DecidableEq

namespace DetectionKind

def all : List DetectionKind :=
  [kernelTextTamper, syscallHook, hiddenProcess, hiddenModule, executableAnonymousMemory,
    rwxMapping, wxCorrelation, pmuAnomaly]

def asStr : DetectionKind → String
  | kernelTextTamper => "kernel_text_tamper"
  | syscallHook => "syscall_hook"
  | hiddenProcess => "hidden_process"
  | hiddenModule => "hidden_module"
  | executableAnonymousMemory => "executable_anonymous_memory"
  | rwxMapping => "rwx_mapping"
  | wxCorrelation => "wx_correlation"
  | pmuAnomaly => "pmu_anomaly"

def parse (value : List Char) : Option DetectionKind :=
  if value = "kernel_text_tamper".toList then some kernelTextTamper
  else if value = "syscall_hook".toList then some syscallHook
  else if value = "hidden_process".toList then some hiddenProcess
  else if value = "hidden_module".toList then some hiddenModule
  else if value = "executable_anonymous_memory".toList then some executableAnonymousMemory
  else if value = "rwx_mapping".toList then some rwxMapping
  else if value = "wx_correlation".toList then some wxCorrelation
  else if value = "pmu_anomaly".toList then some pmuAnomaly
  else none

end DetectionKind

inductive Severity
  | info | low | medium | high | critical
  deriving DecidableEq

namespace Severity

def asStr : Severity → String
  | info => "info"
  | low => "low"
  | medium => "medium"
  | high => "high"
  | critical => "critical"

/-- `severity_rank` of `incidents.rs` -/
def rank : Severity → ℕ
  | info => 0
  | low => 1
  | medium => 2
  | high => 3
  | critical => 4

/-- `severity_from_str` -/
def fromStr (s : List Char) : Option Severity :=
  let lower := s.map Char.toLower
  if lower = "info".toList then some info
  else if lower = "low".toList then some low
  else if lower = "medium".toList then some medium
  else if lower = "high".toList then some high
  else if lower = "critical".toList then some critical
  else none

end Severity

inductive DetectorError
  | malformedInput (detail : String)
  deriving DecidableEq

structure DetectionDedupeKey where
  detectorId : List Char
  vmId : Option (List Char)
  entity : Option (List Char)
  rangeStart : Option UInt64
  rangeEnd : Option UInt64
  symbol : Option (List Char)
  deriving DecidableEq

namespace DetectionDedupeKey

/-- The derived order compares the fields in turn, with `None` before every `Some`. -/
def fields (key : DetectionDedupeKey) :
    List Char ×ₗ WithBot (List Char) ×ₗ WithBot (List Char) ×ₗ WithBot ℕ ×ₗ WithBot ℕ ×ₗ
      WithBot (List Char) :=
  toLex (key.detectorId, toLex (key.vmId, toLex (key.entity,
    toLex (key.rangeStart.map UInt64.toNat, toLex (key.rangeEnd.map UInt64.toNat, key.symbol)))))

theorem fields_injective : Function.Injective fields := by
  intro a b h
  have htoNat : Function.Injective (Option.map UInt64.toNat) :=
    Option.map_injective fun _ _ => UInt64.toNat_inj.1
  have h1 := congrArg (fun t => (ofLex t).1) h
  have h2 := congrArg (fun t => (ofLex (ofLex t).2).1) h
  have h3 := congrArg (fun t => (ofLex (ofLex (ofLex t).2).2).1) h
  have h4 := congrArg (fun t => (ofLex (ofLex (ofLex (ofLex t).2).2).2).1) h
  have h5 := congrArg (fun t => (ofLex (ofLex (ofLex (ofLex (ofLex t).2).2).2).2).1) h
  have h6 := congrArg (fun t => (ofLex (ofLex (ofLex (ofLex (ofLex t).2).2).2).2).2) h
  cases a
  cases b
  simp only [mk.injEq]
  exact ⟨h1, h2, h3, htoNat h4, htoNat h5, h6⟩

instance : LinearOrder DetectionDedupeKey := LinearOrder.lift' fields fields_injective

end DetectionDedupeKey

/-- The fields of a detection that aggregation and correlation read. -/
structure DetectionRecord where
  detectorId : List Char
  kind : DetectionKind
  vmId : Option (List Char)
  entity : Option (List Char)
  rangeStart : Option UInt64
  rangeEnd : Option UInt64
  symbol : Option (List Char)
  severity : Severity

def DetectionDedupeKey.fromRecord (record : DetectionRecord) : DetectionDedupeKey :=
  ⟨record.detectorId, record.vmId, record.entity, record.rangeStart, record.rangeEnd,
    record.symbol⟩

structure AggregatedDetection where
  key : DetectionDedupeKey
  kind : DetectionKind
  count : UInt64
  firstSeenMs : UInt64
  lastSeenMs : UInt64
  latest : DetectionRecord

/-- `count.saturating_add(1)` -/
def saturatingSucc (count : UInt64) : UInt64 := if count = 0 - 1 then count else count + 1

structure DetectionAggregator where
  entries : OrdMap DetectionDedupeKey AggregatedDetection

namespace DetectionAggregator

def new : DetectionAggregator := ⟨OrdMap.empty⟩

def observe (record : DetectionRecord) (observedMs : UInt64) :
    Op DetectionAggregator DetectorError AggregatedDetection :=
  if observedMs = 0 then
    Op.fail (.malformedInput "detector observation timestamp must be non-zero")
  else do
    let self ← Op.read
    let key := DetectionDedupeKey.fromRecord record
    let found : AggregatedDetection :=
      (self.entries.get key).getD
        { key := key, kind := record.kind, count := 0, firstSeenMs := observedMs,
          lastSeenMs := observedMs, latest := record }
    let entry : AggregatedDetection :=
      { found with count := saturatingSucc found.count, lastSeenMs := observedMs, latest := record }
    Op.write ⟨self.entries.insert key entry⟩
    pure entry

/-- The aggregator after some observations. -/
def observeAll (observations : List (DetectionRecord × UInt64)) : DetectionAggregator :=
  observations.foldl (fun self o => ((observe o.1 o.2).run self).2) new

/-- `entries()`: the aggregated detections in the order of their keys. -/
def detections (self : DetectionAggregator) : List AggregatedDetection := self.entries.values

end DetectionAggregator

inductive IncidentStatus
  | «open» | updated
  deriving DecidableEq

def IncidentStatus.asStr : IncidentStatus → String
  | .open => "open"
  | .updated => "updated"

structure IncidentRecord where
  incidentId : List Char
  vmId : List Char
  status : IncidentStatus
  severity : Severity
  firstSeenMs : UInt64
  lastSeenMs : UInt64
  detectionCount : UInt64
  kinds : List DetectionKind
  deriving DecidableEq

/-- The text of a number. -/
def showU64 (n : UInt64) : List Char := Nat.toDigits 10 n.toNat

def hasCoreChain (kinds : List DetectionKind) : Bool :=
  kinds.contains .wxCorrelation && kinds.contains .syscallHook && kinds.contains .kernelTextTamper

/-- The detections of every VM, under its identifier. -/
def groupByVm (detections : List AggregatedDetection) : OrdMap (List Char) (List AggregatedDetection) :=
  detections.foldl (fun byVm detection =>
    match detection.key.vmId with
    | some vmId => byVm.insert vmId ((byVm.get vmId).getD [] ++ [detection])
    | none => byVm) OrdMap.empty

/-- `max_by_key`, which takes the last of several largest elements. -/
def maxSeverity (severities : List Severity) : Option Severity :=
  severities.foldl (fun best s =>
    match best with
    | none => some s
    | some b => if b.rank ≤ s.rank then some s else some b) none

def minMs (times : List UInt64) : Option UInt64 :=
  times.foldl (fun best t =>
    match best with
    | none => some t
    | some b => if t < b then some t else some b) none

def maxMs (times : List UInt64) : Option UInt64 :=
  times.foldl (fun best t =>
    match best with
    | none => some t
    | some b => if b ≤ t then some t else some b) none

/-- One turn of the loop over the VMs. -/
def incidentOf (vmId : List Char) (items : List AggregatedDetection) : Option IncidentRecord :=
  let kinds := DetectionKind.all.filter fun kind => (items.map (·.kind)).contains kind
  if hasCoreChain kinds then
    let firstSeenMs := (minMs (items.map (·.firstSeenMs))).getD 0
    let detectionCount := items.foldl (fun total item => total + item.count) 0
    some {
      incidentId := "incident:".toList ++ vmId ++ ":".toList ++ showU64 firstSeenMs ++
        ":wx-syscall-text".toList
      vmId := vmId
      status := if kinds.length < detectionCount.toNat then .updated else .open
      severity := (maxSeverity (items.map (·.latest.severity))).getD .high
      firstSeenMs := firstSeenMs
      lastSeenMs := (maxMs (items.map (·.lastSeenMs))).getD firstSeenMs
      detectionCount := detectionCount
      kinds := kinds }
  else none

def correlateIncidents (detections : List AggregatedDetection) : List IncidentRecord :=
  (groupByVm detections).entries.filterMap fun e => incidentOf e.1 e.2

structure PersistedDedupeEntry where
  key : DetectionDedupeKey
  kind : DetectionKind
  count : UInt64
  firstSeenMs : UInt64
  lastSeenMs : UInt64
  deriving DecidableEq

/-- A persisted incident has the fields of the record, which leaves out the summary. -/
abbrev PersistedIncidentEntry := IncidentRecord

structure DetectorState where
  dedupe : List PersistedDedupeEntry
  incidents : List PersistedIncidentEntry
  deriving DecidableEq

namespace DetectorState

def fromRuntime (dedupe : List AggregatedDetection) (incidents : List IncidentRecord) :
    DetectorState where
  dedupe := dedupe.map fun entry =>
    ⟨entry.key, entry.kind, entry.count, entry.firstSeenMs, entry.lastSeenMs⟩
  incidents := incidents

def VERSION : String := "aegishv-detector-state-v1"

def sanitizeField (value : List Char) : List Char :=
  value.map fun c => if c = '|' ∨ c = '\n' ∨ c = '\r' then '_' else c

def joinFields (fields : List (List Char)) : List Char :=
  ['|'].intercalate (fields.map sanitizeField)

def encodeOpt (value : Option (List Char)) : List Char := value.getD ['-']

def encodeOptU64 (value : Option UInt64) : List Char := (value.map showU64).getD ['-']

def dedupeFields (entry : PersistedDedupeEntry) : List (List Char) :=
  [entry.key.detectorId, encodeOpt entry.key.vmId, encodeOpt entry.key.entity,
    encodeOptU64 entry.key.rangeStart, encodeOptU64 entry.key.rangeEnd, encodeOpt entry.key.symbol,
    entry.kind.asStr.toList, showU64 entry.count, showU64 entry.firstSeenMs,
    showU64 entry.lastSeenMs]

def kindsText (kinds : List DetectionKind) : List Char :=
  [','].intercalate (kinds.map fun kind => kind.asStr.toList)

def incidentFields (incident : PersistedIncidentEntry) : List (List Char) :=
  [incident.incidentId, incident.vmId, incident.status.asStr.toList, incident.severity.asStr.toList,
    showU64 incident.firstSeenMs, showU64 incident.lastSeenMs, showU64 incident.detectionCount,
    kindsText incident.kinds]

/-- `render_detector_state` -/
def render (state : DetectorState) : List Char :=
  VERSION.toList ++ ['\n'] ++
    (state.dedupe.flatMap fun entry => "dedupe|".toList ++ joinFields (dedupeFields entry) ++ ['\n']) ++
    state.incidents.flatMap fun incident =>
      "incident|".toList ++ joinFields (incidentFields incident) ++ ['\n']

def malformed (detail : String) : DetectorError := .malformedInput detail

def parseText (line : ℕ) (field : String) (value : List Char) :
    Except DetectorError (List Char) := do
  failIf (value.isEmpty || value == ['-'] || value.contains '\n' || value.contains '|')
    (malformed s!"line {line}: field '{field}' is invalid")
  pure value

def parseOptText (line : ℕ) (field : String) (value : List Char) :
    Except DetectorError (Option (List Char)) :=
  if value = ['-'] then pure none else do return some (← parseText line field value)

def parseU64 (line : ℕ) (field : String) (value : List Char) : Except DetectorError UInt64 := do
  let text := String.ofList value
  return UInt64.ofNat (← okOr (fromStrRadix (2 ^ 64) 10 value)
    (malformed s!"line {line}: invalid integer for {field}: '{text}'"))

def parseOptU64 (line : ℕ) (field : String) (value : List Char) :
    Except DetectorError (Option UInt64) :=
  if value = ['-'] then pure none else do return some (← parseU64 line field value)

def parseKind (line : ℕ) (value : List Char) : Except DetectorError DetectionKind :=
  let text := String.ofList value
  okOr (DetectionKind.parse value) (malformed s!"line {line}: unsupported detection kind '{text}'")

def parseKinds (line : ℕ) (value : List Char) : Except DetectorError (List DetectionKind) := do
  failIf (trim value).isEmpty (malformed s!"line {line}: incident kinds must not be empty")
  (value.splitOn ',').mapM (parseKind line)

def parseStatus (line : ℕ) (value : List Char) : Except DetectorError IncidentStatus :=
  let other := String.ofList value
  if value = "open".toList then pure .open
  else if value = "updated".toList then pure .updated
  else .error (malformed s!"line {line}: unsupported status '{other}'")

def parseDedupe (line : ℕ) (parts : List (List Char)) :
    Except DetectorError PersistedDedupeEntry :=
  match parts with
  | [_, detectorId, vmId, entity, rangeStart, rangeEnd, symbol, kind, count, first, last] => do
    let detectorId ← parseText line "detector_id" detectorId
    let vmId ← parseOptText line "vm_id" vmId
    let entity ← parseOptText line "entity" entity
    let rangeStart ← parseOptU64 line "range_start" rangeStart
    let rangeEnd ← parseOptU64 line "range_end" rangeEnd
    let symbol ← parseOptText line "symbol" symbol
    let kind ← parseKind line kind
    let count ← parseU64 line "count" count
    let firstSeenMs ← parseU64 line "first_seen_ms" first
    let lastSeenMs ← parseU64 line "last_seen_ms" last
    return ⟨⟨detectorId, vmId, entity, rangeStart, rangeEnd, symbol⟩, kind, count, firstSeenMs,
      lastSeenMs⟩
  | _ => .error (malformed s!"line {line}: dedupe record requires 10 fields")

def parseIncident (line : ℕ) (parts : List (List Char)) :
    Except DetectorError PersistedIncidentEntry :=
  match parts with
  | [_, incidentId, vmId, status, severity, first, last, count, kinds] => do
    let text := String.ofList severity
    let incidentId ← parseText line "incident_id" incidentId
    let vmId ← parseText line "vm_id" vmId
    let status ← parseStatus line status
    let severity ← okOr (Severity.fromStr severity)
      (malformed s!"line {line}: unsupported severity '{text}'")
    let firstSeenMs ← parseU64 line "first_seen_ms" first
    let lastSeenMs ← parseU64 line "last_seen_ms" last
    let detectionCount ← parseU64 line "detection_count" count
    let kinds ← parseKinds line kinds
    return ⟨incidentId, vmId, status, severity, firstSeenMs, lastSeenMs, detectionCount, kinds⟩
  | _ => .error (malformed s!"line {line}: incident record requires 8 fields")

/-- One record line; `split` yields at least one part. -/
def parseRecord (state : DetectorState) (numbered : ℕ × List Char) :
    Except DetectorError DetectorState := do
  let (line, entry) := numbered
  let parts := entry.splitOn '|'
  let head := parts.headD []
  let other := String.ofList head
  if head = "dedupe".toList then
    return { state with dedupe := state.dedupe ++ [← parseDedupe line parts] }
  else if head = "incident".toList then
    return { state with incidents := state.incidents ++ [← parseIncident line parts] }
  else .error (malformed s!"line {line}: unknown detector state record '{other}'")

/-- The non-blank lines, trimmed and numbered from one. -/
def numberedLines (text : List Char) : List (ℕ × List Char) :=
  (lines text).zipIdx.filterMap fun (line, idx) =>
    if (trim line).isEmpty then none else some (idx + 1, trim line)

/-- `parse_detector_state` -/
def parse (text : List Char) : Except DetectorError DetectorState :=
  match numberedLines text with
  | [] => .error (malformed "missing detector state header")
  | (line, header) :: records =>
    if header ≠ VERSION.toList then
      .error (malformed s!"line {line}: expected {VERSION}")
    else records.foldlM parseRecord ⟨[], []⟩

end DetectorState
end AegisHV.Detectors
