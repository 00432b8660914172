import AegisHV.Lib.Op
import AegisHV.Lib.PyJson

/-! The events of the type-1 kernel: the writer of the kernel (`events.rs`), which prints a JSON
line for each event, and the collector on the other end of the serial line (`type1_events.py`),
which checks the lines and counts them. Texts are lists of characters; a byte of the serial line
is a character. -/

namespace AegisHV.Type1

open Sys

inductive Backend
  | vmx
  | svm
  | el2
  deriving DecidableEq

inductive Access
  | read
  | write
  | execute

inductive Action
  | allow
  | deny
  | emulate

def Action.name : Action → String
  | .allow => "allow"
  | .deny => "deny"
  | .emulate => "emulate"

def Access.name : Access → String
  | .read => "read"
  | .write => "write"
  | .execute => "execute"

def Backend.name : Backend → String
  | .vmx => "vmx"
  | .svm => "svm"
  | .el2 => "el2"

/-- What stands for a value in a format string. -/
inductive Scalar
  | text (s : String)
  | number (n : ℕ)
  | flag (b : Bool)

def Scalar.print : Scalar → List Char
  | .text s => '"' :: (s.toList ++ ['"'])
  | .number n => Nat.toDigits 10 n
  | .flag b => (toString b).toList

abbrev Fields := List (String × Scalar)

/-- Named values with a comma between each two. -/
def printFields (fields : Fields) : List Char :=
  Json.join (fields.map fun field => '"' :: (field.1.toList ++ '"' :: ':' :: field.2.print))

/-- The writer and the lines it was given; it never fails. -/
structure Events where
  backend : Backend
  sequence : ℕ
  vcpu : ℕ
  written : List (List Char)

namespace Events

def new (backend : Backend) : Events := ⟨backend, 0, 0, []⟩

def cpu (self : Events) (vcpu : ℕ) : Events := { self with vcpu }

/-- The fields that `prefix` prints. -/
def common (self : Events) (kind : String) : Fields := [
  ("source", .text "aegishv-type1"), ("backend", .text self.backend.name),
  ("sequence", .number self.sequence), ("vcpu", .number self.vcpu), ("kind", .text kind)]

/-- `prefix` and the `writeln!` behind it. The counter of the kernel, which is built without
overflow checks, wraps. -/
def event (self : Events) (kind : String) (fields : Fields) : Events :=
  let self := { self with sequence := (self.sequence + 1) % 2 ^ 64 }
  let line := '\x7b' :: (printFields (self.common kind) ++ ',' :: (printFields fields ++ ['\x7d', '\n']))
  { self with written := self.written ++ [line] }

def page (self : Events) (rip address : UInt64) (access : Access) (action : Action) : Events :=
  self.event "page_access" [("rip", .number rip.toNat), ("gpa", .number address.toNat),
    ("access", .text access.name), ("action", .text action.name)]

def denied (self : Events) (rip address : UInt64) (access : Access) : Events :=
  self.page rip address access .deny

def syscall (self : Events) (rip : UInt64) (register : UInt32) (target : UInt64) (allowed : Bool) :
    Events :=
  self.event "syscall_entry" [("rip", .number rip.toNat), ("register", .number register.toNat),
    ("target", .number target.toNat), ("action", .text (if allowed then "allow" else "deny"))]

def pmuCycles (self : Events) (cycles : UInt64) : Events :=
  self.event "pmu_sample" [("counter", .text "cycles"), ("value", .number cycles.toNat)]

def pmuStatus (self : Events) (available : Bool) : Events :=
  self.event "pmu_status" [("available", .flag available)]

def vectors (self : Events) (rip target address : UInt64) (valid changed : Bool) : Events :=
  self.event "vector_sample" [("rip", .number rip.toNat), ("target", .number target.toNat),
    ("gpa", .number address.toNat), ("valid", .flag valid), ("changed", .flag changed)]

def stopped (self : Events) (rip result : UInt64) (budget : Bool) : Events :=
  self.event (if budget then "vcpu_budget" else "guest_halt")
    [("rip", .number rip.toNat), ("result", .number result.toNat)]

def exception (self : Events) (rip vector address : UInt64) : Events :=
  self.event "guest_exception" [("rip", .number rip.toNat), ("vector", .number vector.toNat),
    ("address", .number address.toNat)]

end Events

/-- A call of the writer. -/
inductive Call
  | cpu (vcpu : ℕ)
  | denied (rip address : UInt64) (access : Access)
  | page (rip address : UInt64) (access : Access) (action : Action)
  | syscall (rip : UInt64) (register : UInt32) (target : UInt64) (allowed : Bool)
  | pmuCycles (cycles : UInt64)
  | pmuStatus (available : Bool)
  | vectors (rip target address : UInt64) (valid changed : Bool)
  | stopped (rip result : UInt64) (budget : Bool)
  | exception (rip vector address : UInt64)

def Events.call (self : Events) : Call → Events
  | .cpu vcpu => self.cpu vcpu
  | .denied rip address access => self.denied rip address access
  | .page rip address access action => self.page rip address access action
  | .syscall rip register target allowed => self.syscall rip register target allowed
  | .pmuCycles cycles => self.pmuCycles cycles
  | .pmuStatus available => self.pmuStatus available
  | .vectors rip target address valid changed => self.vectors rip target address valid changed
  | .stopped rip result budget => self.stopped rip result budget
  | .exception rip vector address => self.exception rip vector address

/-! The collector. -/

namespace Collector

abbrev Dict := List (List Char × PyJson)

def BACKENDS : List String := ["vmx", "svm", "el2"]

def FIELDS : List (String × List String) := [
  ("page_access", ["rip", "gpa", "access", "action"]),
  ("syscall_entry", ["rip", "register", "target", "action"]),
  ("pmu_sample", ["counter", "value"]),
  ("pmu_status", ["available"]),
  ("vector_sample", ["rip", "target", "gpa", "valid", "changed"]),
  ("guest_halt", ["rip", "result"]),
  ("vcpu_budget", ["rip", "result"]),
  ("guest_exception", ["rip", "vector", "address"])]

def COMMON : List String := ["source", "backend", "sequence", "vcpu", "kind"]

def NUMBERS : List String := ["sequence", "vcpu", "rip", "gpa", "register", "target", "value",
  "result", "vector", "address"]

def FLAGS : List String := ["available", "valid", "changed"]

def uniqueObject (pairs : Dict) : Option PyJson :=
  (pairs.foldlM (fun (result : Dict) pair =>
    if result.any fun old => old.1 == pair.1 then none else some (result ++ [pair])) []).map .dict

/-- `event.get(key)` -/
def get (event : Dict) (key : String) : Option PyJson := event.lookup key.toList

/-- The value is one of the texts. -/
def isOneOf (value : Option PyJson) (texts : List String) : Bool :=
  match value with
  | some (.str s) => texts.any fun text => text.toList == s
  | _ => false

/-- `event.keys() == names` -/
def sameKeys (event : Dict) (names : List String) : Bool :=
  (names.all fun name => (get event name).isSome) &&
    event.all fun pair => names.any fun name => name.toList == pair.1

/-- `0 <= value < 256`, of a value that can be compared with numbers -/
def isVcpu (value : Option PyJson) : Bool :=
  match value with
  | some (.int n) => 0 ≤ n && n < 256
  | some (.bool _) => true
  | _ => false

/-- `value == 0` -/
def isZero (value : Option PyJson) : Bool :=
  match value with
  | some (.int n) => n == 0
  | some (.bool b) => !b
  | _ => false

def isU64 (value : Option PyJson) : Bool :=
  match value with
  | some (.int n) => 0 ≤ n && n < 2 ^ 64
  | _ => false

def isBool (value : Option PyJson) : Bool :=
  match value with
  | some (.bool _) => true
  | _ => false

/-- The checks of `decode` behind the one of the source. -/
def validate (event : Dict) : Except String Unit :=
  match get event "kind" with
  | some (.str kind) =>
    match FIELDS.find? fun layout => layout.1.toList == kind with
    | none => .error "unknown event layout"
    | some layout => do
      let kind := layout.1
      failIf (!sameKeys event (COMMON ++ layout.2)) "unknown event layout"
      failIf (!isOneOf (get event "backend") BACKENDS || !isVcpu (get event "vcpu") ||
        isZero (get event "sequence")) "invalid event origin"
      failIf (NUMBERS.any fun key => (get event key).isSome && !isU64 (get event key))
        "invalid integer"
      failIf (FLAGS.any fun key => (get event key).isSome && !isBool (get event key))
        "invalid boolean"
      failIf (kind == "page_access" &&
        (!isOneOf (get event "access") ["read", "write", "execute"] ||
          !isOneOf (get event "action") ["allow", "deny", "emulate"])) "invalid access event"
      failIf (kind == "syscall_entry" && !isOneOf (get event "action") ["allow", "deny"])
        "invalid syscall action"
      failIf (kind == "pmu_sample" && !isOneOf (get event "counter") ["cycles"])
        "unknown PMU counter"
  | _ => .error "unknown event layout"

def decode (line : List Char) : Except String (Option Dict) :=
  match PyJson.loads uniqueObject line with
  | none => .error "invalid JSON"
  | some (.dict event) =>
    if isOneOf (get event "source") ["aegishv-type1"] then do
      validate event
      pure (some event)
    else pure none
  | some _ => pure none

/-- The name of a counter and its labels. -/
abbrev Key := String × List (String × List Char)

structure Metrics where
  counters : Key → ℕ
  last : List Char → Option ℕ
  pmu : List Char × ℕ → Option ℕ

namespace Metrics

def new : Metrics := ⟨fun _ => 0, fun _ => none, fun _ => none⟩

def add (self : Metrics) (key : Key) (n : ℕ) : Metrics :=
  { self with counters := Function.update self.counters key (self.counters key + n) }

def reject (self : Metrics) : Metrics := self.add ("invalid_events_total", []) 1

/-- `event[key]` of a checked event, for a text, a number and a truth value -/
def text (event : Dict) (key : String) : List Char :=
  match get event key with
  | some (.str s) => s
  | _ => []

def nat (event : Dict) (key : String) : ℕ :=
  match get event key with
  | some (.int n) => n.toNat
  | _ => 0

def flag (event : Dict) (key : String) : Bool :=
  match get event key with
  | some (.bool b) => b
  | _ => false

/-- The part of `accept` that looks at the kind. -/
def countKind (self : Metrics) (event : Dict) : Metrics :=
  let backend := text event "backend"
  let kind := text event "kind"
  let labels := [("backend", backend)]
  let cpuLabels := labels ++ [("vcpu", Nat.toDigits 10 (nat event "vcpu"))]
  let access := text event "access"
  let action := text event "action"
  if kind = "page_access".toList then
    let self := self.add ("page_accesses_total", labels ++ [("access", access), ("action", action)]) 1
    if action = "deny".toList then
      self.add ("denied_accesses_total", labels ++ [("access", access)]) 1
    else self
  else if kind = "syscall_entry".toList then
    self.add ("syscall_checks_total", labels ++ [("action", action)]) 1
  else if kind = "pmu_sample".toList then
    let self := self.add ("pmu_cycles_total", labels) (nat event "value")
    self.add ("vcpu_pmu_cycles_total", cpuLabels) (nat event "value")
  else if kind = "vector_sample".toList then
    let status := if !flag event "valid" then "invalid"
      else if flag event "changed" then "changed" else "valid"
    self.add ("vector_checks_total", cpuLabels ++ [("status", status.toList)]) 1
  else if kind = "pmu_status".toList then
    let available := some (flag event "available").toNat
    { self with pmu := Function.update self.pmu (backend, nat event "vcpu") available }
  else self

/-- The part of `accept` behind the check of the sequence number. -/
def count (self : Metrics) (event : Dict) (previous : ℕ) : Metrics :=
  let backend := text event "backend"
  let sequence := nat event "sequence"
  let kind := text event "kind"
  let labels := [("backend", backend)]
  let cpuLabels := labels ++ [("vcpu", Nat.toDigits 10 (nat event "vcpu"))]
  let self := self.add ("missing_events_total", labels) (sequence - previous - 1)
  let self := { self with last := Function.update self.last backend (some sequence) }
  let self := self.add ("events_total", labels ++ [("kind", kind)]) 1
  let self := self.add ("vcpu_events_total", cpuLabels ++ [("kind", kind)]) 1
  self.countKind event

def accept (self : Metrics) (event : Dict) : Metrics × Bool :=
  let backend := text event "backend"
  let sequence := nat event "sequence"
  let labels := [("backend", backend)]
  let previous := (self.last backend).getD 0
  if sequence = 1 then
    let self := self.add ("boots_total", labels) 1
    let self := { self with pmu := fun key => if key.1 = backend then none else self.pmu key }
    (self.count event 0, true)
  else if sequence ≤ previous then (self.add ("invalid_events_total", []) 1, false)
  else (self.count event previous, true)

end Metrics

/-- `readline`: up to the end of the line, at most `limit` bytes -/
def readline : ℕ → List Char → List Char × List Char
  | 0, source => ([], source)
  | _ + 1, [] => ([], [])
  | limit + 1, c :: source =>
    if c = '\n' then ([c], source)
    else ((c :: (readline limit source).1), (readline limit source).2)

/-- The loop that drops the rest of a long line. A turn reads a byte or stops. -/
def skipLine : ℕ → List Char → List Char → List Char
  | 0, _, source => source
  | turns + 1, line, source =>
    if line.isEmpty || line.getLast? == some '\n' then source
    else skipLine turns (readline 8193 source).1 (readline 8193 source).2

/-- What `bytes.lstrip` takes away. -/
def isBlank (c : Char) : Bool :=
  c == ' ' || c == '\t' || c == '\n' || c == '\r' || c == '\x0b' || c == '\x0c'

/-- The body of the loop of `collect` for a line of an acceptable length. The second part of the
state is what is written to the output. -/
def collectLine (state : Metrics × List Dict) (line : List Char) : Metrics × List Dict :=
  if (line.dropWhile isBlank).head? = some '\x7b' then
    match decode line with
    | .error _ => (state.1.reject, state.2)
    | .ok none => state
    | .ok (some event) =>
      let (metrics, accepted) := state.1.accept event
      (metrics, if accepted then state.2 ++ [event] else state.2)
  else state

/-- The loop of `collect`. A turn reads a byte or stops. -/
def collectFrom : ℕ → List Char → Metrics × List Dict → Metrics × List Dict
  | 0, _, state => state
  | turns + 1, source, state =>
    let (line, rest) := readline 8193 source
    if line.isEmpty then state
    else if 8192 < line.length then
      collectFrom turns (skipLine (rest.length + 1) line rest) (state.1.reject, state.2)
    else collectFrom turns rest (collectLine state line)

def collect (source : List Char) (metrics : Metrics) : Metrics × List Dict :=
  collectFrom (source.length + 1) source (metrics, [])

end Collector

end AegisHV.Type1
