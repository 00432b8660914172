import AegisHV.Lib.Radix
import AegisHV.Lib.Split
import AegisHV.Lib.Text

/-! The parser of trace lines (`parser.rs`, `util.rs`): from one line of the ftrace text output to
a KVM exit with its VM name, host task, CPU and payload fields. Texts are lists of characters. -/

namespace AegisHV.Trace

open Sys

/-- `s.trim_end_matches(c)` -/
def trimEndMatches (c : Char) (s : List Char) : List Char := s.rdropWhile (· == c)

/-- `s.trim_matches(c)` -/
def trimMatches (c : Char) (s : List Char) : List Char :=
  trimEndMatches c (s.dropWhile (· == c))

/-- `s.trim_start_matches(pat)`: every turn takes a character, so the length is turns enough. -/
def trimStartMatches (pat : List Char) : ℕ → List Char → List Char
  | 0, s => s
  | turns + 1, s => match s.dropPrefix? pat with
    | some rest => trimStartMatches pat turns rest
    | none => s

def toAsciiLowercase (s : List Char) : List Char := s.map Char.toLower

def toAsciiUppercase (s : List Char) : List Char := s.map Char.toUpper

def splitWhitespace (s : List Char) : List (List Char) := splitWords isWhitespace s

/-- `s.contains(pat)` -/
def contains (s : List Char) (pat : String) : Bool := (splitFirst pat.toList s).isSome

/-- The `{}` format of an `i32`. -/
def showI32 (n : ℤ) : List Char :=
  if n < 0 then '-' :: Nat.toDigits 10 n.natAbs else Nat.toDigits 10 n.natAbs

structure ViolationBits where
  read : Bool
  write : Bool
  exec : Bool
  deriving DecidableEq

structure ParsedExit where
  vm : List Char
  vmId : Option (List Char)
  rawComm : List Char
  hostPid : Option ℤ
  hostCpu : Option ℤ
  vcpuId : Option ℤ
  arch : String
  reason : List Char
  rip : Option (List Char)
  gva : Option (List Char)
  gpa : Option (List Char)
  qual : Option (List Char)
  cr3 : Option (List Char)
  asid : Option (List Char)
  vmid : Option (List Char)
  vpid : Option (List Char)
  bits : Option ViolationBits
  parseSource : String
  deriving DecidableEq

inductive UnsupportedKind where
  | unrelatedTracepoint
  | unsupportedTracepoint
  deriving DecidableEq

inductive ParseOutcome where
  | parsed (exit : ParsedExit)
  | unsupported (kind : UnsupportedKind) (detail : String)
  | malformedKvmExit (detail : String)
  deriving DecidableEq

def decodeX86EptQual (qual : ℕ) : ViolationBits where
  read := qual &&& 0x1 ≠ 0
  write := qual &&& 0x2 ≠ 0
  exec := qual &&& 0x4 ≠ 0

def decodeAmdNpfError (info : ℕ) : ViolationBits :=
  let write : Bool := info &&& (1 <<< 1) ≠ 0
  let exec : Bool := info &&& (1 <<< 4) ≠ 0
  { read := !write && !exec, write, exec }

def decodeArmEsr (esr : ℕ) : Option ViolationBits :=
  let ec := (esr >>> 26) &&& 0x3f
  if ec = 0x20 ∨ ec = 0x21 then some { read := false, write := false, exec := true }
  else if ec = 0x24 ∨ ec = 0x25 then
    let write : Bool := esr &&& (1 <<< 6) ≠ 0
    some { read := !write, write, exec := false }
  else none

def parseHexU64 (s : List Char) : Option ℕ :=
  let trimmed := trimEndMatches ',' (trim s)
  let stripped := ((trimmed.dropPrefix? "0x".toList).orElse fun _ =>
    trimmed.dropPrefix? "0X".toList).getD trimmed
  fromStrRadix (2 ^ 64) 16 stripped

/-- The name in front of the last hyphen and the task number behind it. -/
def parseCommPid (raw : List Char) : List Char × Option ℤ :=
  match splitLast '-' raw with
  | some (name, tail) => match parseI32 tail with
    | some pid => (name, some pid)
    | none => (raw, none)
  | none => (raw, none)

def parseHostCpu (header : List Char) : Option ℤ := do
  let bracket ← splitFirst ['['] header
  let inner ← splitFirst [']'] bracket.2
  parseI32 (trim inner.1)

def normalizeKey (k : List Char) : List Char :=
  let k := trimEndMatches ':' (trim k)
  toAsciiLowercase (trimStartMatches "exit_".toList k.length k)

def normalizeValue (v : List Char) : List Char := trimMatches '"' (trimMatches ',' (trim v))

def isKnownKey (k : List Char) : Bool :=
  String.ofList k ∈ ["reason", "exit_reason", "rip", "pc", "elr", "gpa", "ipa", "far", "hpfar",
    "gva", "linear", "qual", "qualification", "exit_qualification", "error_code", "info", "esr",
    "cr3", "asid", "vmid", "vpid", "vcpu", "vcpu_id"]

/-- The fields of a payload, the one inserted last in front. -/
abbrev Pairs := List (List Char × List Char)

def Pairs.get (pairs : Pairs) (key : String) : Option (List Char) := pairs.lookup key.toList

/-- The first of some keys that is there. -/
def Pairs.firstOf (pairs : Pairs) (keys : List String) : Option (List Char) :=
  keys.findSome? pairs.get

def parseRestFrom : Bool → List (List Char) → Pairs → Pairs
  | _, [], pairs => pairs
  | first, [raw], pairs =>
    let tok := trimEndMatches ',' raw
    match splitFirst ['='] tok with
    | some (k, v) => (normalizeKey k, normalizeValue v) :: pairs
    | none =>
      if isKnownKey (normalizeKey tok) then pairs
      else if first && tok ≠ [] && (pairs.get "reason").isNone then ("reason".toList, tok) :: pairs
      else pairs
  | first, raw :: next :: rest, pairs =>
    let tok := trimEndMatches ',' raw
    match splitFirst ['='] tok with
    | some (k, v) => parseRestFrom false (next :: rest) ((normalizeKey k, normalizeValue v) :: pairs)
    | none =>
      if isKnownKey (normalizeKey tok) then
        parseRestFrom false rest ((normalizeKey tok, normalizeValue next) :: pairs)
      else if first && tok ≠ [] && (pairs.get "reason").isNone then
        parseRestFrom false (next :: rest) (("reason".toList, tok) :: pairs)
      else parseRestFrom false (next :: rest) pairs

def parseRest (rest : List Char) : Pairs := parseRestFrom true (splitWhitespace rest) []

def accessQualificationKeys : List String :=
  ["qual", "exit_qualification", "qualification", "error_code"]

def exitReason (pairs : Pairs) : List Char :=
  (pairs.firstOf ["reason", "exit_reason"]).getD "UNKNOWN".toList

def exitArch (pairs : Pairs) (upperReason : List Char) : String :=
  if (pairs.get "esr").isSome || (pairs.get "hpfar").isSome || contains upperReason "STAGE2" ||
      contains upperReason "HVC" then "aarch64"
  else "x86_64"

def exitBits (pairs : Pairs) (arch : String) (upperReason : List Char) : Option ViolationBits :=
  if arch = "aarch64" then ((pairs.get "esr").bind parseHexU64).bind decodeArmEsr
  else if contains upperReason "NPF" || contains upperReason "NPT" then
    ((pairs.firstOf ["info", "error_code"]).bind parseHexU64).map decodeAmdNpfError
  else if contains upperReason "EPT" || contains upperReason "VIOLATION" then
    ((pairs.firstOf (accessQualificationKeys ++ ["info"])).bind parseHexU64).map decodeX86EptQual
  else none

/-- The name of the tracepoint as a line has it. -/
def marker : List Char := "kvm_exit:".toList

def parseKvmExitLineResult (line : List Char) : Except String ParsedExit :=
  match splitFirst marker line with
  | none => .error "missing kvm_exit tracepoint"
  | some (before, after) =>
    let header := trim (trimEndMatches ':' before)
    let rest := trim after
    match (splitWhitespace header).head? with
    | none => .error "missing trace comm"
    | some rawComm =>
      let comm := parseCommPid rawComm
      let pairs := parseRest rest
      let reason := exitReason pairs
      if reason = "UNKNOWN".toList ∧ rest = [] then .error "empty kvm_exit payload"
      else
        let upperReason := toAsciiUppercase reason
        let arch := exitArch pairs upperReason
        let rip := pairs.firstOf ["rip", "pc"]
        .ok {
          vm := comm.1
          vmId := comm.2.map fun pid => "host-pid:".toList ++ showI32 pid
          rawComm
          hostPid := comm.2
          hostCpu := parseHostCpu header
          vcpuId := (pairs.firstOf ["vcpu", "vcpu_id"]).bind parseI32
          arch
          reason
          rip := if rip.isNone && arch = "aarch64" then pairs.get "elr" else rip
          gva := pairs.firstOf ["gva", "linear"]
          gpa := pairs.firstOf ["gpa", "ipa", "far"]
          qual := pairs.firstOf (accessQualificationKeys ++ ["info", "esr", "error"])
          cr3 := pairs.get "cr3"
          asid := pairs.get "asid"
          vmid := pairs.get "vmid"
          vpid := pairs.get "vpid"
          bits := exitBits pairs arch upperReason
          parseSource := "trace_pipe_text" }

def parseLine (line : List Char) : ParseOutcome :=
  if contains line "kvm_exit:" then
    match parseKvmExitLineResult line with
    | .ok exit => .parsed exit
    | .error detail => .malformedKvmExit detail
  else if contains line "kvm_" then .unsupported .unsupportedTracepoint "non-kvm_exit tracepoint"
  else .unsupported .unrelatedTracepoint "unrelated line"

/-- A field of a payload: `key=value` in one word, or a known key and its value in two. -/
inductive Field
  | pair (k v : List Char) (hk : '=' ∉ k)
  | known (k v : List Char) (hk : '=' ∉ k)
    (hknown : isKnownKey (normalizeKey (trimEndMatches ',' k)) = true)

namespace Field

/-- The words the field is written as. -/
def tokens : Field → List (List Char)
  | pair k v _ => [k ++ '=' :: v]
  | known k v _ _ => [k, v]

def key : Field → List Char
  | pair k _ _ => normalizeKey k
  | known k _ _ _ => normalizeKey (trimEndMatches ',' k)

def value : Field → List Char
  | pair _ v _ => normalizeValue (trimEndMatches ',' v)
  | known _ v _ _ => normalizeValue v

/-- `key=value` with a key that is not a known one. -/
def Unknown : Field → Prop
  | pair k _ _ => isKnownKey (normalizeKey k) = false
  | known _ _ _ _ => False

end Field

/-- A line as ftrace prints it for a KVM exit. Task and CPU numbers are `int`s of the kernel; the
CPU number is padded with zeros. -/
structure TraceLine where
  comm : List Char
  pid : ℕ
  cpu : ℕ
  cpuWidth : ℕ := 3
  flags : List Char
  ts : List Char
  payload : List Char
  pid_lt : pid < 2 ^ 31
  cpu_lt : cpu < 2 ^ 31
  payload_ne : payload ≠ []

namespace TraceLine

/-- ` flags ts:` -/
def stamp (l : TraceLine) : List Char := ' ' :: (l.flags ++ ' ' :: (l.ts ++ [':']))

/-- `comm-pid [cpu] flags ts: kvm_exit: payload` -/
def text (l : TraceLine) : List Char :=
  l.comm ++ '-' :: (Nat.toDigits 10 l.pid ++ ' ' :: '[' :: (padded 10 l.cpuWidth l.cpu ++
    ']' :: (l.stamp ++ ' ' :: (marker ++ ' ' :: l.payload))))

/-- The parser returns the task name as the VM, the task number, the identity made of it, and the
CPU of the line. -/
def ReadBack (l : TraceLine) : Prop :=
  ∃ exit, parseLine l.text = .parsed exit ∧ exit.vm = l.comm ∧ exit.hostPid = some (l.pid : ℤ) ∧
    exit.vmId = some ("host-pid:".toList ++ Nat.toDigits 10 l.pid) ∧
    exit.hostCpu = some (l.cpu : ℤ)

/-- The task name has no white space and no marker of its own, and its first opening bracket, if
it has one, is closed in the name around the number of the CPU. What follows the first marker of
the line is not blank. -/
structure Plain (l : TraceLine) : Prop where
  noSpace : ∀ c ∈ l.comm, isWhitespace c = false
  noMarker : ¬ marker <:+: l.comm
  bracket : '[' ∉ l.comm ∨ ∃ a b c, l.comm = a ++ '[' :: (b ++ ']' :: c) ∧ '[' ∉ a ∧ ']' ∉ b ∧
    parseI32 b = some (l.cpu : ℤ)
  payload : (∃ c ∈ l.payload, isWhitespace c = false) ∨ marker <:+: l.stamp

end TraceLine

end AegisHV.Trace
