import AegisHV.Lib.Sha256
import AegisHV.Spec.GuestMemory

/-! The integrity check of kernel text (`linux_integrity.rs`, `windows_integrity.rs`): an
incremental SHA-256 and the two checkers, of which one hashes the chunks of a range as it reads
them and the other collects them first. A `u32` is a bit vector and texts are lists of
characters. -/

namespace AegisHV.Integrity
open Sys Vmi

abbrev Word := BitVec 32

def K : List Word := [
  0x428a2f98, 0x71374491, 0xb5c0fbcf, 0xe9b5dba5, 0x3956c25b, 0x59f111f1, 0x923f82a4, 0xab1c5ed5,
  0xd807aa98, 0x12835b01, 0x243185be, 0x550c7dc3, 0x72be5d74, 0x80deb1fe, 0x9bdc06a7, 0xc19bf174,
  0xe49b69c1, 0xefbe4786, 0x0fc19dc6, 0x240ca1cc, 0x2de92c6f, 0x4a7484aa, 0x5cb0a9dc, 0x76f988da,
  0x983e5152, 0xa831c66d, 0xb00327c8, 0xbf597fc7, 0xc6e00bf3, 0xd5a79147, 0x06ca6351, 0x14292967,
  0x27b70a85, 0x2e1b2138, 0x4d2c6dfc, 0x53380d13, 0x650a7354, 0x766a0abb, 0x81c2c92e, 0x92722c85,
  0xa2bfe8a1, 0xa81a664b, 0xc24b8b70, 0xc76c51a3, 0xd192e819, 0xd6990624, 0xf40e3585, 0x106aa070,
  0x19a4c116, 0x1e376c08, 0x2748774c, 0x34b0bcb5, 0x391c0cb3, 0x4ed8aa4a, 0x5b9cca4f, 0x682e6ff3,
  0x748f82ee, 0x78a5636f, 0x84c87814, 0x8cc70208, 0x90befffa, 0xa4506ceb, 0xbef9a3f7, 0xc67178f2]

/-- The words `state[0]` to `state[7]`. -/
abbrev HashState := Sha256.Eight

structure Sha256 where
  state : HashState
  bitLen : ℕ
  buffer : List UInt8
  bufferLen : ℕ

namespace Sha256

def new : Sha256 where
  state := ⟨0x6a09e667, 0xbb67ae85, 0x3c6ef372, 0xa54ff53a, 0x510e527f, 0x9b05688c, 0x1f83d9ab,
    0x5be0cd19⟩
  bitLen := 0
  buffer := List.replicate 64 0
  bufferLen := 0

/-- The body of the loop that fills `w[16..64]`. -/
def extend (w : List Word) (idx : ℕ) : List Word :=
  let word (i : ℕ) : Word := w.getD i 0
  let s0 := (word (idx - 15)).rotateRight 7 ^^^ (word (idx - 15)).rotateRight 18 ^^^ word (idx - 15) >>> 3
  let s1 := (word (idx - 2)).rotateRight 17 ^^^ (word (idx - 2)).rotateRight 19 ^^^ word (idx - 2) >>> 10
  w.set idx (word (idx - 16) + s0 + word (idx - 7) + s1)

/-- The array `w` of `compress`. -/
def expand (block : List UInt8) : List Word :=
  let w := ((chunksExact 4 block).zipIdx.take 16).foldl
    (fun w chunk => w.set chunk.2 (BitVec.ofNat 32 (fromBe chunk.1))) (List.replicate 64 0)
  (List.range' 16 48).foldl extend w

/-- The body of the main loop of `compress`. -/
def mix (w : List Word) (s : HashState) (idx : ℕ) : HashState :=
  let s1 := s.e.rotateRight 6 ^^^ s.e.rotateRight 11 ^^^ s.e.rotateRight 25
  let ch := (s.e &&& s.f) ^^^ (~~~s.e &&& s.g)
  let temp1 := s.h + s1 + ch + K.getD idx 0 + w.getD idx 0
  let s0 := s.a.rotateRight 2 ^^^ s.a.rotateRight 13 ^^^ s.a.rotateRight 22
  let maj := (s.a &&& s.b) ^^^ (s.a &&& s.c) ^^^ (s.b &&& s.c)
  let temp2 := s0 + maj
  { h := s.g, g := s.f, f := s.e, e := s.d + temp1, d := s.c, c := s.b, b := s.a, a := temp1 + temp2 }

def compress (state : HashState) (block : List UInt8) : HashState :=
  let s := (List.range 64).foldl (mix (expand block)) state
  { a := state.a + s.a, b := state.b + s.b, c := state.c + s.c, d := state.d + s.d
    e := state.e + s.e, f := state.f + s.f, g := state.g + s.g, h := state.h + s.h }

/-- The first step of `update`, for a buffer that is not empty, with the input that is left. -/
def fill (self : Sha256) (input : List UInt8) : Sha256 × List UInt8 :=
  let needed := 64 - self.bufferLen
  let take := min needed input.length
  let buffer := splice self.buffer self.bufferLen (input.take take)
  let bufferLen := self.bufferLen + take
  if bufferLen = 64 then
    ({ self with state := compress self.state buffer, buffer, bufferLen := 0 }, input.drop take)
  else ({ self with buffer, bufferLen }, input.drop take)

/-- The loop of `update` over whole blocks. A turn takes 64 bytes, so the length of the input is
turns enough. -/
def absorb : ℕ → HashState → List UInt8 → HashState × List UInt8
  | 0, state, input => (state, input)
  | turns + 1, state, input =>
    if 64 ≤ input.length then absorb turns (compress state (input.take 64)) (input.drop 64)
    else (state, input)

/-- The rest of `update`: whole blocks, and what is left goes to the buffer. -/
def drain (self : Sha256) (input : List UInt8) : Sha256 :=
  let (state, input) := absorb input.length self.state input
  if input.isEmpty then { self with state }
  else { self with state, buffer := splice self.buffer 0 input, bufferLen := input.length }

def update (self : Sha256) (input : List UInt8) : Sha256 :=
  let self := { self with bitLen := (self.bitLen + input.length * 8 % 2 ^ 64) % 2 ^ 64 }
  let (self, input) := if 0 < self.bufferLen then self.fill input else (self, input)
  self.drain input

def finish (self : Sha256) : List UInt8 :=
  let buffer := splice self.buffer self.bufferLen [0x80]
  let bufferLen := self.bufferLen + 1
  let (state, buffer, bufferLen) :=
    if 56 < bufferLen then
      let buffer := splice buffer bufferLen (List.replicate (64 - bufferLen) 0)
      (compress self.state buffer, buffer, 0)
    else (self.state, buffer, bufferLen)
  let buffer := splice buffer bufferLen (List.replicate (56 - bufferLen) 0)
  let buffer := splice buffer 56 (toBe 8 self.bitLen)
  let state := compress state buffer
  state.toList.flatMap fun value => toBe 4 value.toNat

end Sha256

def HEX : List Char := "0123456789abcdef".toList

def hex (bytes : List UInt8) : List Char :=
  bytes.flatMap fun byte : UInt8 => [HEX.getD (byte >>> 4).toNat '0', HEX.getD (byte &&& 0x0f).toNat '0']

def sha256Hex (bytes : List UInt8) : List Char := hex (Sha256.new.update bytes).finish

/-! Reading a range of guest memory. -/

section

variable {ε α : Type}

/-- The loop of both `hash_virtual_range`s, which hands each chunk to `use`. A turn reads a byte at
least. -/
def readChunks (memory : Reader ε) (overflow : ε) (use : α → List UInt8 → α) (stop : ℕ) :
    ℕ → ℕ → α → Except ε α
  | 0, _, acc => pure acc
  | turns + 1, cursor, acc =>
    if cursor < stop then do
      let remaining := min (stop - cursor) 4096
      let bytes ← memory.readVirtual cursor remaining
      let cursor ← okOr (checkedAdd cursor remaining) overflow
      readChunks memory overflow use stop turns cursor (use acc bytes)
    else pure acc

inductive TextHashStatus
  | «match»
  | mismatch
  | unknownBaseline
  deriving DecidableEq

def TextHashStatus.asStr : TextHashStatus → String
  | .match => "match"
  | .mismatch => "mismatch"
  | .unknownBaseline => "unknown_baseline"

structure TextRange where
  owner : String
  start : ℕ
  stop : ℕ

structure TextHashResult where
  owner : String
  start : ℕ
  stop : ℕ
  sha256 : List Char
  expectedSha256 : Option (List Char)
  status : TextHashStatus

structure IntegrityReport where
  ok : Bool
  results : List TextHashResult
  findings : List String

/-- What the map of baselines holds for an owner. -/
abbrev Baselines := String → Option (List Char)

/-- `str::eq_ignore_ascii_case` -/
def eqIgnoreAsciiCase (a b : List Char) : Bool := a.map Char.toLower == b.map Char.toLower

def statusOf (expected : Option (List Char)) (sha256 : List Char) : TextHashStatus :=
  match expected with
  | some value => if eqIgnoreAsciiCase value sha256 then .match else .mismatch
  | none => .unknownBaseline

/-- The body of the loop of both checkers, with the hash of a range as a parameter. -/
def checkRange (hash : ℕ → ℕ → Except ε (List Char)) (inverted : String → ε)
    (baselines : Baselines) (report : List TextHashResult × List String)
    (range : TextRange) : Except ε (List TextHashResult × List String) := do
  let owner := range.owner
  failIf (range.stop ≤ range.start) (inverted s!"text range '{owner}' is empty or inverted")
  let sha256 ← hash range.start range.stop
  let expected := baselines range.owner
  let status := statusOf expected sha256
  let text := status.asStr
  let findings := if status = .match then report.2
    else report.2 ++ [s!"text range '{owner}' hash status is {text}"]
  pure (report.1 ++ [⟨range.owner, range.start, range.stop, sha256, expected, status⟩], findings)

def checkRanges (hash : ℕ → ℕ → Except ε (List Char)) (inverted : String → ε)
    (ranges : List TextRange) (baselines : Baselines) : Except ε IntegrityReport := do
  let (results, findings) ← ranges.foldlM (checkRange hash inverted baselines) ([], [])
  pure ⟨findings.isEmpty, results, findings⟩

end

/-! The Linux checker. -/

namespace Linux

def hashVirtualRange (memory : Reader LinuxVmiError) (start stop : ℕ) :
    Except LinuxVmiError (List Char) := do
  let hasher ← readChunks memory (.inconsistentSnapshot "text range cursor overflowed")
    Sha256.update stop (stop - start) start Sha256.new
  pure (hex hasher.finish)

def checkTextHashes (memory : Reader LinuxVmiError) (ranges : List TextRange)
    (baselines : Baselines) : Except LinuxVmiError IntegrityReport :=
  checkRanges (hashVirtualRange memory) .inconsistentSnapshot ranges baselines

def checkLinuxKernelTextHash (memory : Reader LinuxVmiError) (ranges : List TextRange)
    (baselines : Baselines) : Except LinuxVmiError IntegrityReport :=
  checkTextHashes memory (ranges.filter fun range => range.owner == "vmlinux") baselines

def checkLinuxModuleTextHashes (memory : Reader LinuxVmiError) (ranges : List TextRange)
    (baselines : Baselines) : Except LinuxVmiError IntegrityReport :=
  checkTextHashes memory (ranges.filter fun range => range.owner != "vmlinux") baselines

end Linux

/-! The Windows checker. -/

namespace Windows

def MAX_TEXT_HASH_BYTES : ℕ := 128 * 1024 * 1024

def hashVirtualRange (memory : Reader WindowsVmiError) (start stop : ℕ) :
    Except WindowsVmiError (List Char) := do
  let len := stop - start
  failIf (MAX_TEXT_HASH_BYTES < len)
    (.malformed s!"text range length {len} exceeds hashing limit {MAX_TEXT_HASH_BYTES}")
  let bytes ← readChunks memory (.inconsistentSnapshot "text range cursor overflowed")
    (· ++ ·) stop len start []
  pure (sha256Hex bytes)

def checkWindowsTextHashes (memory : Reader WindowsVmiError) (ranges : List TextRange)
    (baselines : Baselines) : Except WindowsVmiError IntegrityReport :=
  checkRanges (hashVirtualRange memory) .inconsistentSnapshot ranges baselines

def isKernel (range : TextRange) : Bool :=
  eqIgnoreAsciiCase range.owner.toList "ntoskrnl.exe".toList

def checkWindowsKernelTextHash (memory : Reader WindowsVmiError) (ranges : List TextRange)
    (baselines : Baselines) : Except WindowsVmiError IntegrityReport :=
  checkWindowsTextHashes memory (ranges.filter isKernel) baselines

def checkWindowsDriverTextHashes (memory : Reader WindowsVmiError) (ranges : List TextRange)
    (baselines : Baselines) : Except WindowsVmiError IntegrityReport :=
  checkWindowsTextHashes memory (ranges.filter fun range => !isKernel range) baselines

end Windows

end AegisHV.Integrity
