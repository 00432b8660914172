import AegisHV.Lib.Op
import AegisHV.Lib.Radix
import AegisHV.Lib.Text
import AegisHV.Lib.Word

/-! The disk spool (`main.rs`): event lines that the primary output did not take are framed,
optionally run-length compressed, and appended to numbered segment files under a byte budget.
File writes succeed here; a directory is the list of its files in the order of their creation. -/

namespace AegisHV.Spool

open Sys

inductive SpoolCompression where
  | none
  | rle

/-- A byte string literal. -/
def bytesOf (s : String) : List UInt8 := s.toList.map fun c => c.val.toUInt8

def segmentHeaderV1 : List UInt8 := bytesOf "aegishv-spool-v1 len-hex-jsonl\n"

def segmentHeaderV2Rle : List UInt8 :=
  bytesOf "aegishv-spool-v2 compression=rle record=hex-u64-uncompressed-hex-u64-payload\n"

def recordPrefixBytes : ℕ := 17

def compressedRecordPrefixBytes : ℕ := 34

def recordSuffixBytes : ℕ := 1

def spoolSegmentHeader : SpoolCompression → List UInt8
  | .none => segmentHeaderV1
  | .rle => segmentHeaderV2Rle

/-! ### The run-length codec -/

/-- How many of the next bytes, up to a limit, repeat the given one. -/
def runTail (byte : UInt8) : ℕ → List UInt8 → ℕ
  | 0, _ => 0
  | _, [] => 0
  | limit + 1, next :: rest => if next = byte then 1 + runTail byte limit rest else 0

def repeatedRunLen (input : List UInt8) (maxLen : ℕ) : ℕ :=
  match input with
  | [] => 0
  | byte :: rest => 1 + runTail byte (maxLen - 1) rest

/-- `u8::try_from(n).unwrap_or(0)` -/
def u8OrZero (n : ℕ) : UInt8 := if n < 256 then UInt8.ofNat n else 0

/-- The inner loop of `rle_compress`: the length of the literal run at the head of the input.
Each turn takes a byte at least, so 128 turns are enough. -/
def literalLen : ℕ → ℕ → List UInt8 → ℕ
  | 0, len, _ => len
  | turns + 1, len, input =>
    if input = [] ∨ 128 ≤ len then len
    else if 4 ≤ repeatedRunLen input 130 then len
    else
      let take := min (repeatedRunLen input 130) (128 - len)
      if take < repeatedRunLen input 130 then len + take
      else literalLen turns (len + take) (input.drop take)

def rleCompressFrom : ℕ → List UInt8 → List UInt8
  | 0, _ => []
  | _, [] => []
  | turns + 1, byte :: rest =>
    let input := byte :: rest
    let run := repeatedRunLen input 130
    if 4 ≤ run then
      (0x80 ||| u8OrZero (run - 3)) :: byte :: rleCompressFrom turns (input.drop run)
    else
      let len := literalLen 128 0 input
      u8OrZero (len - 1) :: (input.take len ++ rleCompressFrom turns (input.drop len))

def rleCompress (input : List UInt8) : List UInt8 := rleCompressFrom input.length input

inductive SpoolSegmentReadError where
  | unsupported (message : String)
  | corrupt (message : String)

def rleDecompressFrom (expectedLen : ℕ) :
    ℕ → List UInt8 → List UInt8 → Except SpoolSegmentReadError (List UInt8)
  | 0, _ :: _, _ => .error (.corrupt "unreachable: every turn takes a byte")
  | _, [], out =>
    if out.length = expectedLen then .ok out
    else .error (.corrupt "RLE payload does not match the declared length")
  | turns + 1, control :: payload, out =>
    if control &&& 0x80 = 0 then
      let len := control.toNat + 1
      if payload.length < len then .error (.corrupt "RLE literal run is truncated")
      else if (out ++ payload.take len).length > expectedLen then
        .error (.corrupt "RLE payload expands past the declared length")
      else rleDecompressFrom expectedLen turns (payload.drop len) (out ++ payload.take len)
    else
      let len := (control &&& 0x7f).toNat + 3
      match payload with
      | [] => .error (.corrupt "RLE repeated run is truncated")
      | byte :: payload =>
        if (out ++ List.replicate len byte).length > expectedLen then
          .error (.corrupt "RLE payload expands past the declared length")
        else rleDecompressFrom expectedLen turns payload (out ++ List.replicate len byte)

def rleDecompress (payload : List UInt8) (expectedLen : ℕ) :
    Except SpoolSegmentReadError (List UInt8) :=
  rleDecompressFrom expectedLen payload.length payload []

/-! ### Records -/

/-- An event line: a string, whose length in bytes is at most `isize::MAX`. -/
structure Line where
  text : String
  len_lt : (utf8 text).length < 2 ^ 63

inductive PendingSpoolRecord where
  | plain (line : String)
  | rle (uncompressedLen : ℕ) (payload : List UInt8)

namespace PendingSpoolRecord

def build (line : String) : SpoolCompression → PendingSpoolRecord
  | .none => .plain line
  | .rle => .rle (utf8 line).length (rleCompress (utf8 line))

def totalBytes : PendingSpoolRecord → ℕ
  | .plain line =>
    saturatingAdd (saturatingAdd recordPrefixBytes (min (utf8 line).length (2 ^ 64 - 1)))
      recordSuffixBytes
  | .rle _ payload =>
    saturatingAdd (saturatingAdd compressedRecordPrefixBytes (min payload.length (2 ^ 64 - 1)))
      recordSuffixBytes

/-- A length field: `{:016x}` and a blank. -/
def hexField (n : ℕ) : List UInt8 := utf8 (String.ofList (padded 16 16 n ++ [' ']))

def writeTo : PendingSpoolRecord → List UInt8
  | .plain line => hexField (utf8 line).length ++ utf8 line ++ bytesOf "\n"
  | .rle uncompressedLen payload =>
    hexField uncompressedLen ++ hexField payload.length ++ payload ++ bytesOf "\n"

end PendingSpoolRecord

structure DecodedSpoolRecord where
  line : String
  compressed : Bool
  uncompressedLen : ℕ
  payloadLen : ℕ

def parseSpoolHexField (bytes : List UInt8) : Except SpoolSegmentReadError (ℕ × List UInt8) :=
  if bytes.length < 17 then .error (.corrupt "spool record hex field is truncated")
  else if bytes[16]? ≠ some 0x20 then .error (.corrupt "spool record hex field missing separator")
  else match fromUtf8 (bytes.take 16) with
    | none => .error (.corrupt "spool record hex field is not UTF-8")
    | some text => match fromStrRadix (2 ^ 64) 16 text.toList with
      | none => .error (.corrupt "spool record hex field is not hexadecimal")
      | some value => .ok (value, bytes.drop 17)

def decodePlainSpoolRecords :
    ℕ → List UInt8 → Except SpoolSegmentReadError (List DecodedSpoolRecord)
  | 0, _ :: _ => .error (.corrupt "unreachable: every record takes a byte")
  | _, [] => .ok []
  | turns + 1, body@(_ :: _) => do
    let field ← parseSpoolHexField body
    let len := field.1
    let body := field.2
    failIf (body.length < len + 1) (.corrupt "plain spool record body is truncated")
    failIf (body[len]? ≠ some 0x0a) (.corrupt "plain spool record missing trailing newline")
    let line ← okOr (fromUtf8 (body.take len)) (.corrupt "plain spool record is not UTF-8")
    let records ← decodePlainSpoolRecords turns (body.drop (len + 1))
    return { line, compressed := false, uncompressedLen := len, payloadLen := len } :: records

def decodeRleSpoolRecords :
    ℕ → List UInt8 → Except SpoolSegmentReadError (List DecodedSpoolRecord)
  | 0, _ :: _ => .error (.corrupt "unreachable: every record takes a byte")
  | _, [] => .ok []
  | turns + 1, body@(_ :: _) => do
    let field ← parseSpoolHexField body
    let uncompressedLen := field.1
    let field ← parseSpoolHexField field.2
    let payloadLen := field.1
    let body := field.2
    failIf (body.length < payloadLen + 1) (.corrupt "compressed spool record payload is truncated")
    failIf (body[payloadLen]? ≠ some 0x0a)
      (.corrupt "compressed spool record missing trailing newline")
    let decoded ← rleDecompress (body.take payloadLen) uncompressedLen
    let line ← okOr (fromUtf8 decoded)
      (.corrupt "compressed spool record decompressed to non-UTF-8 data")
    let records ← decodeRleSpoolRecords turns (body.drop (payloadLen + 1))
    return { line, compressed := true, uncompressedLen, payloadLen } :: records

def decodeSpoolSegmentBytes (bytes : List UInt8) :
    Except SpoolSegmentReadError (List DecodedSpoolRecord) :=
  match bytes.dropPrefix? segmentHeaderV1 with
  | some body => decodePlainSpoolRecords body.length body
  | none => match bytes.dropPrefix? segmentHeaderV2Rle with
    | some body => decodeRleSpoolRecords body.length body
    | none =>
      if (bytesOf "aegishv-spool-v2 ").isPrefixOf bytes then
        .error (.unsupported "unsupported spool segment compression or v2 record header")
      else .error (.unsupported "unsupported spool segment header")

/-! ### Segments in a directory -/

/-- `spool-{index:016}.seg` -/
def spoolSegmentPath (index : ℕ) : String :=
  String.ofList ("spool-".toList ++ (padded 10 16 index ++ ".seg".toList))

def spoolSegmentIndex (name : String) : Option ℕ := do
  let value ← name.toList.dropPrefix? "spool-".toList
  let value ← value.dropSuffix? ".seg".toList
  fromStrRadix (2 ^ 64) 10 value

structure SpoolDir where
  files : List (String × List UInt8)
  nodup : (files.map Prod.fst).Nodup

namespace SpoolDir

def names (dir : SpoolDir) : List String := dir.files.map Prod.fst

theorem nodup_createNew {dir : SpoolDir} {name : String} (h : name ∉ dir.names) :
    ((dir.files ++ [(name, [])]).map Prod.fst).Nodup := by
  rw [List.map_append]
  exact dir.nodup.append (List.nodup_singleton name) (List.disjoint_singleton.2 h)

/-- Open a file that must not exist yet. -/
def createNew (dir : SpoolDir) (name : String) : Option SpoolDir :=
  if h : name ∈ dir.names then none
  else some { files := dir.files ++ [(name, [])], nodup := nodup_createNew h }

/-- The file with the bytes at its end, if it has the name. -/
def extend (name : String) (bytes : List UInt8) (file : String × List UInt8) :
    String × List UInt8 :=
  if file.1 = name then (file.1, file.2 ++ bytes) else file

theorem map_fst_extend (name : String) (bytes : List UInt8) (files : List (String × List UInt8)) :
    (files.map (extend name bytes)).map Prod.fst = files.map Prod.fst := by
  rw [List.map_map]
  congr 1
  funext file
  simp only [Function.comp_apply, extend]
  split_ifs <;> rfl

def appendTo (dir : SpoolDir) (name : String) (bytes : List UInt8) : SpoolDir where
  files := dir.files.map (extend name bytes)
  nodup := (map_fst_extend name bytes dir.files).symm ▸ dir.nodup

/-- The segment files with their indices. -/
def segments (dir : SpoolDir) : List (ℕ × List UInt8) :=
  dir.files.filterMap fun file => (spoolSegmentIndex file.1).map fun index => (index, file.2)

end SpoolDir

structure SpoolConfig where
  maxBytes : ℕ
  segmentBytes : ℕ
  compression : SpoolCompression
  maxBytes_lt : maxBytes < 2 ^ 64

structure DiskSpool where
  maxBytes : ℕ
  segmentBytes : ℕ
  compression : SpoolCompression
  totalBytes : ℕ
  currentBytes : ℕ := 0
  nextIndex : ℕ
  /-- the file of the open segment -/
  writer : Option String := none

def scanSpoolDir (dir : SpoolDir) : ℕ × ℕ :=
  let totalBytes := dir.segments.foldl (fun total seg => saturatingAdd total seg.2.length) 0
  let maxIndex := dir.segments.foldl
    (fun current seg => some (current.elim seg.1 fun index => max index seg.1)) none
  (totalBytes, (maxIndex.bind fun index => checkedAdd index 1).getD 1)

/-- The spool and the directory it writes to. -/
structure Disk where
  dir : SpoolDir
  spool : DiskSpool

inductive SpoolError where
  | full (recordBytes availableBytes maxBytes : ℕ)
  | recordTooLarge (recordBytes maxBytes : ℕ)
  | internal (message : String)

def DiskSpool.availableBytes (spool : DiskSpool) : ℕ := spool.maxBytes - spool.totalBytes

namespace Disk

def openSpool (cfg : SpoolConfig) (dir : SpoolDir) : Disk where
  dir := dir
  spool :=
    { maxBytes := cfg.maxBytes, segmentBytes := cfg.segmentBytes, compression := cfg.compression,
      totalBytes := (scanSpoolDir dir).1, nextIndex := (scanSpoolDir dir).2 }

def createNextSegment : ℕ → Op Disk SpoolError String
  | 0 => .fail (.internal "could not allocate an unused spool segment name")
  | tries + 1 => do
    let s ← Op.read
    let next ← .lift (okOr (checkedAdd s.spool.nextIndex 1)
      (.internal "spool segment index exhausted"))
    let path := spoolSegmentPath s.spool.nextIndex
    match s.dir.createNew path with
    | some dir =>
      Op.write { dir, spool := { s.spool with nextIndex := next } }
      return path
    | none =>
      Op.write { s with spool := { s.spool with nextIndex := next } }
      createNextSegment tries

def closeCurrentSegment : Op Disk SpoolError PUnit := do
  let s ← Op.read
  Op.write { s with spool := { s.spool with writer := none, currentBytes := 0 } }

/-- A new segment, with its header written. -/
def openSegment (recordBytes : ℕ) : Op Disk SpoolError PUnit := do
  closeCurrentSegment
  let s ← Op.read
  let header := spoolSegmentHeader s.spool.compression
  let neededBytes := saturatingAdd header.length recordBytes
  .lift (failIf (s.spool.availableBytes < neededBytes)
    (.full recordBytes s.spool.availableBytes s.spool.maxBytes))
  let path ← createNextSegment 1024
  let s ← Op.read
  Op.write { dir := s.dir.appendTo path header,
             spool := { s.spool with
               writer := some path, currentBytes := header.length,
               totalBytes := saturatingAdd s.spool.totalBytes header.length } }

def needsSegment (spool : DiskSpool) (recordBytes : ℕ) : Bool :=
  spool.writer.isNone ||
    (spool.currentBytes > 0 && saturatingAdd spool.currentBytes recordBytes > spool.segmentBytes)

def ensureSegment (recordBytes : ℕ) : Op Disk SpoolError PUnit := do
  let s ← Op.read
  if needsSegment s.spool recordBytes then openSegment recordBytes else return ⟨⟩

def writeRecord (record : PendingSpoolRecord) : Op Disk SpoolError PUnit := do
  let s ← Op.read
  let path ← .lift (okOr s.spool.writer (.internal "spool segment was not opened"))
  let recordBytes := record.totalBytes
  Op.write { dir := s.dir.appendTo path record.writeTo,
             spool := { s.spool with
               currentBytes := saturatingAdd s.spool.currentBytes recordBytes,
               totalBytes := saturatingAdd s.spool.totalBytes recordBytes } }

def append (line : Line) : Op Disk SpoolError PUnit := do
  let s ← Op.read
  let record := PendingSpoolRecord.build line.text s.spool.compression
  let recordBytes := record.totalBytes
  .lift (failIf (recordBytes > s.spool.maxBytes) (.recordTooLarge recordBytes s.spool.maxBytes))
  .lift (failIf (s.spool.availableBytes < recordBytes)
    (.full recordBytes s.spool.availableBytes s.spool.maxBytes))
  ensureSegment recordBytes
  writeRecord record

end Disk

/-- What happens to the spool: a line is appended, or the sensor starts again and scans the
directory. -/
inductive SpoolCall where
  | append (line : Line)
  | restart (cfg : SpoolConfig)

def Disk.call (s : Disk) : SpoolCall → Except SpoolError PUnit × Disk
  | .append line => (Disk.append line).run s
  | .restart cfg => (.ok ⟨⟩, openSpool cfg s.dir)

/-- The lines that were accepted, in the order in which they were appended. -/
def accepted (log : List (SpoolCall × Except SpoolError PUnit)) : List String :=
  log.filterMap fun
    | (.append line, .ok _) => some line.text
    | _ => none

/-- The segment files of a directory, decoded in the order of their indices. -/
def SpoolDir.readLines (dir : SpoolDir) : Except SpoolSegmentReadError (List String) := do
  let segments := dir.segments.insertionSort fun a b => a.1 ≤ b.1
  let decoded ← segments.mapM fun seg => decodeSpoolSegmentBytes seg.2
  return decoded.flatten.map (·.line)

end AegisHV.Spool
