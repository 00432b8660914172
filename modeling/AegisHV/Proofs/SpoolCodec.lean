import AegisHV.Spec.Spool

/-! The segment decoder reads back what the spool writes: the run-length codec is a round trip on
arbitrary bytes, a record is a round trip in front of any rest, and a segment is a header with
records behind it. -/

namespace AegisHV.Spool

open Sys List

/-! ### The run-length codec -/

theorem runTail_le (byte : UInt8) (limit : ℕ) (rest : List UInt8) :
    runTail byte limit rest ≤ limit := by
  induction limit generalizing rest with
  | zero => simp [runTail]
  | succ limit ih =>
    cases rest with
    | nil => simp [runTail]
    | cons next rest =>
      rw [runTail]
      split_ifs
      · have := ih rest
        omega
      · exact Nat.zero_le _

/-- The bytes that are counted all repeat the given one. -/
theorem runTail_spec (byte : UInt8) (limit : ℕ) (rest : List UInt8) :
    ∃ tail, rest = List.replicate (runTail byte limit rest) byte ++ tail := by
  induction limit generalizing rest with
  | zero => exact ⟨rest, by simp [runTail]⟩
  | succ limit ih =>
    cases rest with
    | nil => exact ⟨[], by simp [runTail]⟩
    | cons next rest =>
      rw [runTail]
      split_ifs with h
      · obtain ⟨tail, htail⟩ := ih rest
        refine ⟨tail, ?_⟩
        rw [Nat.add_comm, replicate_succ, cons_append, ← htail, h]
      · exact ⟨next :: rest, by simp⟩

/-- A run of the input: its length is positive and within the limit, and its bytes repeat. -/
theorem repeatedRunLen_spec (byte : UInt8) (rest : List UInt8) (maxLen : ℕ) (hmax : 0 < maxLen) :
    0 < repeatedRunLen (byte :: rest) maxLen ∧ repeatedRunLen (byte :: rest) maxLen ≤ maxLen ∧
      ∃ tail, byte :: rest =
        List.replicate (repeatedRunLen (byte :: rest) maxLen) byte ++ tail := by
  have hle := runTail_le byte (maxLen - 1) rest
  obtain ⟨tail, htail⟩ := runTail_spec byte (maxLen - 1) rest
  refine ⟨?_, ?_, tail, ?_⟩
  · simp only [repeatedRunLen]
    omega
  · simp only [repeatedRunLen]
    omega
  · rw [repeatedRunLen, Nat.add_comm, replicate_succ, cons_append, ← htail]

theorem repeatedRunLen_le_length (input : List UInt8) :
    repeatedRunLen input 130 ≤ input.length := by
  cases input with
  | nil => exact le_rfl
  | cons byte rest =>
    obtain ⟨-, -, tail, htail⟩ := repeatedRunLen_spec byte rest 130 (by decide)
    have hlen := congrArg List.length htail
    rw [length_append, length_replicate] at hlen
    omega

theorem literalLen_bounds (turns len : ℕ) (input : List UInt8) (hlen : len ≤ 128) :
    len ≤ literalLen turns len input ∧ literalLen turns len input ≤ 128 ∧
      literalLen turns len input ≤ len + input.length := by
  induction turns generalizing len input with
  | zero => exact ⟨le_rfl, hlen, Nat.le_add_right _ _⟩
  | succ turns ih =>
    have hrun := repeatedRunLen_le_length input
    simp only [literalLen]
    split_ifs with hstop hbreak htake
    · exact ⟨le_rfl, hlen, Nat.le_add_right _ _⟩
    · exact ⟨le_rfl, hlen, Nat.le_add_right _ _⟩
    · omega
    · have hnext := ih (len + min (repeatedRunLen input 130) (128 - len))
        (input.drop (min (repeatedRunLen input 130) (128 - len))) (by omega)
      rw [length_drop] at hnext
      omega

/-- A literal run takes a byte at least. -/
theorem literalLen_pos (turns : ℕ) (byte : UInt8) (rest : List UInt8)
    (hrun : repeatedRunLen (byte :: rest) 130 < 4) :
    0 < literalLen (turns + 1) 0 (byte :: rest) := by
  have hpos := (repeatedRunLen_spec byte rest 130 (by decide)).1
  have htake : min (repeatedRunLen (byte :: rest) 130) (128 - 0) =
      repeatedRunLen (byte :: rest) 130 := by omega
  rw [literalLen, htake, if_neg (by simp), if_neg (by omega)]
  simp only [lt_irrefl, if_false]
  have hnext := (literalLen_bounds turns (0 + repeatedRunLen (byte :: rest) 130)
    ((byte :: rest).drop (repeatedRunLen (byte :: rest) 130)) (by omega)).1
  omega

/-- A literal run ends at its limit, at the end of the input or in front of a repeated run. -/
theorem literalLen_stops (turns len : ℕ) (input : List UInt8) (hlen : len ≤ 128)
    (hturns : 128 ≤ turns + len) :
    literalLen turns len input = 128 ∨ input.drop (literalLen turns len input - len) = [] ∨
      4 ≤ repeatedRunLen (input.drop (literalLen turns len input - len)) 130 := by
  induction turns generalizing len input with
  | zero =>
    rw [literalLen]
    omega
  | succ turns ih =>
    simp only [literalLen]
    split_ifs with hstop hbreak htake
    · rcases hstop with rfl | hfull
      · exact Or.inr (Or.inl drop_nil)
      · exact Or.inl (by omega)
    · right; right
      rwa [Nat.sub_self]
    · omega
    · rw [not_or] at hstop
      obtain ⟨byte, rest, rfl⟩ := exists_cons_of_ne_nil hstop.1
      have hpos := (repeatedRunLen_spec byte rest 130 (by decide)).1
      have hnext := ih (len + min (repeatedRunLen (byte :: rest) 130) (128 - len))
        ((byte :: rest).drop (min (repeatedRunLen (byte :: rest) 130) (128 - len)))
        (by omega) (by omega)
      have hbound := (literalLen_bounds turns
        (len + min (repeatedRunLen (byte :: rest) 130) (128 - len))
        ((byte :: rest).drop (min (repeatedRunLen (byte :: rest) 130) (128 - len)))
        (by omega)).1
      generalize min (repeatedRunLen (byte :: rest) 130) (128 - len) = take at *
      generalize literalLen turns (len + take) ((byte :: rest).drop take) = result at *
      rwa [drop_drop, show take + (result - (len + take)) = result - len by omega] at hnext

variable {n : ℕ}

/-- The control byte of a literal run of up to 128 bytes. -/
theorem literal_control (hn : n < 128) :
    u8OrZero n &&& 0x80 = 0 ∧ (u8OrZero n).toNat = n := by
  have hall : ∀ n < 128, u8OrZero n &&& 0x80 = 0 ∧ (u8OrZero n).toNat = n := by
    decide +kernel
  exact hall n hn

theorem repeat_control (hn : n < 128) :
    (0x80 ||| u8OrZero n) &&& 0x80 ≠ 0 ∧ ((0x80 ||| u8OrZero n) &&& 0x7f).toNat = n := by
  have hall : ∀ n < 128, (0x80 ||| u8OrZero n) &&& 0x80 ≠ 0 ∧
      ((0x80 ||| u8OrZero n) &&& 0x7f).toNat = n := by decide +kernel
  exact hall n hn

/-- What `rle_compress` writes for a non-empty input: a repeated run or a literal run, and the
rest of the input compressed behind it. -/
theorem rleCompressFrom_cases (turns : ℕ) (byte : UInt8) (rest : List UInt8) :
    (∃ n tail, 0 < n ∧ n < 128 ∧ byte :: rest = List.replicate (n + 3) byte ++ tail ∧
      rleCompressFrom (turns + 1) (byte :: rest) =
        (0x80 ||| u8OrZero n) :: byte :: rleCompressFrom turns tail) ∨
    (∃ n chunk tail, n < 128 ∧ chunk.length = n + 1 ∧ byte :: rest = chunk ++ tail ∧
      (n + 1 = 128 ∨ tail = [] ∨ 4 ≤ repeatedRunLen tail 130) ∧
      repeatedRunLen (byte :: rest) 130 < 4 ∧
      rleCompressFrom (turns + 1) (byte :: rest) =
        u8OrZero n :: (chunk ++ rleCompressFrom turns tail)) := by
  obtain ⟨hpos, hle, tail, htail⟩ := repeatedRunLen_spec byte rest 130 (by decide)
  have hlit := literalLen_pos 127 byte rest
  obtain ⟨-, h128, hlen⟩ := literalLen_bounds 128 0 (byte :: rest) (by decide)
  have hstops := literalLen_stops 128 0 (byte :: rest) (by decide) le_rfl
  rw [rleCompressFrom]
  generalize repeatedRunLen (byte :: rest) 130 = run at *
  generalize literalLen 128 0 (byte :: rest) = len at *
  split_ifs with hrun
  · left
    refine ⟨run - 3, tail, by omega, by omega, ?_, ?_⟩
    · rw [show run - 3 + 3 = run by omega]
      exact htail
    · rw [htail, drop_left' (length_replicate ..)]
  · right
    refine ⟨len - 1, (byte :: rest).take len, (byte :: rest).drop len, by omega, ?_, ?_, ?_,
      by omega, rfl⟩
    · rw [length_take]
      omega
    · exact (take_append_drop len _).symm
    · rwa [show len - 1 + 1 = len by omega]

variable {expectedLen turns : ℕ} {out : List UInt8}

theorem rleDecompressFrom_repeat {byte : UInt8} {payload : List UInt8}
    (hn : n < 128) (hout : out.length + (n + 3) ≤ expectedLen) :
    rleDecompressFrom expectedLen (turns + 1) ((0x80 ||| u8OrZero n) :: byte :: payload) out =
      rleDecompressFrom expectedLen turns payload (out ++ List.replicate (n + 3) byte) := by
  obtain ⟨hbit, hval⟩ := repeat_control hn
  rw [rleDecompressFrom, if_neg hbit]
  simp only [hval]
  rw [if_neg]
  simp only [length_append, length_replicate]
  omega

theorem rleDecompressFrom_literal {chunk payload : List UInt8}
    (hn : n < 128) (hchunk : chunk.length = n + 1) (hout : out.length + (n + 1) ≤ expectedLen) :
    rleDecompressFrom expectedLen (turns + 1) (u8OrZero n :: (chunk ++ payload)) out =
      rleDecompressFrom expectedLen turns payload (out ++ chunk) := by
  obtain ⟨hbit, hval⟩ := literal_control hn
  rw [rleDecompressFrom, if_pos hbit]
  simp only [hval, take_left' hchunk, drop_left' hchunk, length_append, hchunk]
  rw [if_neg (by omega), if_neg (by omega)]

theorem rleCompressFrom_nil (turns : ℕ) : rleCompressFrom turns [] = [] := by
  cases turns <;> rfl

theorem rleDecompressFrom_nil {fuel : ℕ}
    (hout : out.length = expectedLen) : rleDecompressFrom expectedLen fuel [] out = .ok out := by
  cases fuel <;> rw [rleDecompressFrom, if_pos hout]

/-- Decompressing what was compressed, behind any output so far. -/
theorem rleDecompressFrom_rleCompressFrom (turns : ℕ) :
    ∀ (input out : List UInt8) (fuel expectedLen : ℕ), input.length ≤ turns →
      (rleCompressFrom turns input).length ≤ fuel → out.length + input.length = expectedLen →
      rleDecompressFrom expectedLen fuel (rleCompressFrom turns input) out = .ok (out ++ input) := by
  induction turns with
  | zero =>
    intro input out fuel expectedLen hlen _ hout
    obtain rfl := length_eq_zero_iff.1 (Nat.le_zero.1 hlen)
    rw [rleCompressFrom, rleDecompressFrom_nil hout, append_nil]
  | succ turns ih =>
    intro input out fuel expectedLen hlen hfuel hout
    cases input with
    | nil => rw [rleCompressFrom_nil, rleDecompressFrom_nil hout, append_nil]
    | cons byte rest =>
      rcases rleCompressFrom_cases turns byte rest with
        ⟨n, tail, -, hn, hinput, hcomp⟩ | ⟨n, chunk, tail, hn, hchunk, hinput, -, -, hcomp⟩
      · have htail := congrArg List.length hinput
        rw [length_append, length_replicate] at htail
        rw [hcomp, length_cons, length_cons] at hfuel
        obtain ⟨fuel, rfl⟩ : ∃ f, fuel = f + 1 := ⟨fuel - 1, by omega⟩
        rw [hcomp, rleDecompressFrom_repeat hn (by omega), hinput, ← append_assoc]
        apply ih
        · omega
        · omega
        · rw [length_append, length_replicate]
          omega
      · have htail := congrArg List.length hinput
        rw [length_append] at htail
        rw [hcomp, length_cons, length_append] at hfuel
        obtain ⟨fuel, rfl⟩ : ∃ f, fuel = f + 1 := ⟨fuel - 1, by omega⟩
        rw [hcomp, rleDecompressFrom_literal hn hchunk (by omega), hinput, ← append_assoc]
        apply ih
        · omega
        · omega
        · rw [length_append]
          omega

theorem rleDecompress_rleCompress (input : List UInt8) :
    rleDecompress (rleCompress input) input.length = .ok input := by
  have h := rleDecompressFrom_rleCompressFrom input.length input []
    (rleCompress input).length input.length le_rfl le_rfl (by simp)
  exact h

/-- A repeated run in front saves bytes, which pays for a short literal run before it. -/
theorem length_rleCompressFrom_le (turns : ℕ) (input : List UInt8) :
    128 * (rleCompressFrom turns input).length +
      (if 4 ≤ repeatedRunLen input 130 then 260 else 0) ≤ 129 * input.length + 127 := by
  induction turns generalizing input with
  | zero =>
    have := repeatedRunLen_le_length input
    simp only [rleCompressFrom, length_nil]
    split_ifs <;> omega
  | succ turns ih =>
    cases input with
    | nil => simp [rleCompressFrom_nil, repeatedRunLen]
    | cons byte rest =>
      rcases rleCompressFrom_cases turns byte rest with
        ⟨n, tail, hpos, -, hinput, hcomp⟩ | ⟨n, chunk, tail, -, hchunk, hinput, hstop, hrun, hcomp⟩
      · have htail := ih tail
        have hlen := congrArg List.length hinput
        rw [length_append, length_replicate] at hlen
        rw [hcomp, length_cons, length_cons]
        split_ifs <;> omega
      · have htail := ih tail
        have hlen := congrArg List.length hinput
        rw [length_append] at hlen
        rw [if_neg (by omega), hcomp, hlen, length_cons, length_append]
        rcases hstop with hfull | rfl | hnext
        · omega
        · simp [rleCompressFrom_nil]
          omega
        · rw [if_pos hnext] at htail
          omega

/-- Decompression undoes compression, which costs a byte for each 128 bytes begun at most. -/
theorem rleCompress_spec (input : List UInt8) :
    rleDecompress (rleCompress input) input.length = .ok input ∧
      (rleCompress input).length ≤ input.length + (input.length + 127) / 128 := by
  have hle := length_rleCompressFrom_le input.length input
  refine ⟨rleDecompress_rleCompress input, ?_⟩
  rw [rleCompress]
  omega

theorem length_rleCompress_lt {input : List UInt8} (h : input.length < 2 ^ 63) :
    (rleCompress input).length + 2 ^ 62 < 2 ^ 64 := by
  have hle := length_rleCompressFrom_le input.length input
  rw [rleCompress]
  omega

/-! ### Records and segments -/

theorem digit_ascii {radix width : ℕ} (h1 : 1 < radix) (hradix : radix ≤ 16) :
    ∀ c ∈ padded radix width n, c.val ≤ 127 := by
  intro c hc
  obtain ⟨d, hd, rfl⟩ := exists_digitChar_of_mem_padded h1 hc
  have hall : ∀ d < 16, d.digitChar.toNat ≤ 127 := by decide
  exact UInt32.le_iff_toNat_le.2 (hall d (hd.trans_le hradix))

open PendingSpoolRecord

theorem hexField_eq (n : ℕ) : hexField n = utf8 (String.ofList (padded 16 16 n)) ++ [0x20] := by
  rw [hexField, utf8_ofList, utf8_ofList, flatMap_append]
  rfl

theorem length_utf8_padded (hn : n < 2 ^ 64) :
    (utf8 (String.ofList (padded 16 16 n))).length = 16 := by
  rw [utf8_of_ascii _ (digit_ascii (by decide) le_rfl), length_map,
    length_padded (by decide) (by decide) (by simpa using hn)]

theorem length_hexField (hn : n < 2 ^ 64) : (hexField n).length = 17 := by
  rw [hexField_eq, length_append, length_utf8_padded hn]
  rfl

theorem parseSpoolHexField_hexField (hn : n < 2 ^ 64) (rest : List UInt8) :
    parseSpoolHexField (hexField n ++ rest) = .ok (n, rest) := by
  have hlen := length_utf8_padded hn
  have htake : (hexField n ++ rest).take 16 = utf8 (String.ofList (padded 16 16 n)) := by
    rw [hexField_eq, append_assoc]
    exact take_left' hlen
  have hsep : (hexField n ++ rest)[16]? = some 0x20 := by
    rw [hexField_eq, append_assoc, getElem?_append_right hlen.le, hlen]
    rfl
  have hradix : fromStrRadix (2 ^ 64) 16 (String.ofList (padded 16 16 n)).toList = some n := by
    rw [String.toList_ofList]
    exact fromStrRadix_padded (by decide) le_rfl hn
  have htotal : ¬ (hexField n ++ rest).length < 17 := by
    rw [length_append, length_hexField hn]
    omega
  unfold parseSpoolHexField
  rw [if_neg htotal, hsep, if_neg (by simp), htake, fromUtf8_utf8]
  simp only [hradix, drop_left' (length_hexField hn)]

/-- A record body of the given length with its newline, in front of any rest. -/
theorem body_split (body rest : List UInt8) :
    ¬ (body ++ bytesOf "\n" ++ rest).length < body.length + 1 ∧
      (body ++ bytesOf "\n" ++ rest)[body.length]? = some 0x0a ∧
      (body ++ bytesOf "\n" ++ rest).take body.length = body ∧
      (body ++ bytesOf "\n" ++ rest).drop (body.length + 1) = rest := by
  have hnewline : bytesOf "\n" = [0x0a] := by decide
  rw [hnewline]
  refine ⟨?_, ?_, ?_, ?_⟩
  · simp only [length_append, length_singleton]
    omega
  · simp
  · rw [append_assoc]
    exact take_left
  · exact drop_left' (by simp)

/-- What the decoder gives back for a line. -/
def decodedRecord (line : String) : SpoolCompression → DecodedSpoolRecord
  | .none =>
    { line, compressed := false, uncompressedLen := (utf8 line).length,
      payloadLen := (utf8 line).length }
  | .rle =>
    { line, compressed := true, uncompressedLen := (utf8 line).length,
      payloadLen := (rleCompress (utf8 line)).length }

@[simp] theorem decodedRecord_line (line : String) (compression : SpoolCompression) :
    (decodedRecord line compression).line = line := by
  cases compression <;> rfl

/-- The records of a segment body, by the decoder that its header selects. -/
def decodeRecords : SpoolCompression → ℕ → List UInt8 →
    Except SpoolSegmentReadError (List DecodedSpoolRecord)
  | .none => decodePlainSpoolRecords
  | .rle => decodeRleSpoolRecords

theorem decodeRecords_nil (compression : SpoolCompression) (turns : ℕ) :
    decodeRecords compression turns [] = .ok [] := by
  cases compression <;> cases turns <;> rfl

theorem decodePlainSpoolRecords_writeTo {line : String} {rest : List UInt8}
    (hline : (utf8 line).length < 2 ^ 64) :
    decodePlainSpoolRecords (turns + 1) ((build line .none).writeTo ++ rest) =
      (decodePlainSpoolRecords turns rest).map (decodedRecord line .none :: ·) := by
  obtain ⟨hlen, hnewline, htake, hdrop⟩ := body_split (utf8 line) rest
  have hbytes : (build line .none).writeTo ++ rest =
      hexField (utf8 line).length ++ (utf8 line ++ bytesOf "\n" ++ rest) := by
    simp [build, writeTo]
  have hfield := parseSpoolHexField_hexField hline (utf8 line ++ bytesOf "\n" ++ rest)
  rw [← hbytes] at hfield
  have hne : (build line .none).writeTo ++ rest ≠ [] := by
    rw [hbytes, hexField_eq]
    simp
  obtain ⟨b, bs, hcons⟩ := exists_cons_of_ne_nil hne
  rw [hcons] at hfield ⊢
  rw [decodePlainSpoolRecords, hfield]
  simp only [except_ok_bind, hnewline, htake, hdrop, fromUtf8_utf8, okOr, failIf, hlen,
    decide_false, ne_eq, not_true_eq_false, Bool.false_eq_true, if_false]
  cases decodePlainSpoolRecords turns rest <;> rfl

theorem decodeRleSpoolRecords_writeTo {line : String} {rest : List UInt8}
    (hline : (utf8 line).length < 2 ^ 63) :
    decodeRleSpoolRecords (turns + 1) ((build line .rle).writeTo ++ rest) =
      (decodeRleSpoolRecords turns rest).map (decodedRecord line .rle :: ·) := by
  have hpayload : (rleCompress (utf8 line)).length < 2 ^ 64 := by
    have := length_rleCompress_lt hline
    omega
  obtain ⟨hlen, hnewline, htake, hdrop⟩ := body_split (rleCompress (utf8 line)) rest
  have hbytes : (build line .rle).writeTo ++ rest = hexField (utf8 line).length ++
      (hexField (rleCompress (utf8 line)).length ++
        (rleCompress (utf8 line) ++ bytesOf "\n" ++ rest)) := by
    simp [build, writeTo]
  have hfield := parseSpoolHexField_hexField (n := (utf8 line).length) (by omega)
    (hexField (rleCompress (utf8 line)).length ++
      (rleCompress (utf8 line) ++ bytesOf "\n" ++ rest))
  have hfield' := parseSpoolHexField_hexField hpayload
    (rleCompress (utf8 line) ++ bytesOf "\n" ++ rest)
  rw [← hbytes] at hfield
  have hne : (build line .rle).writeTo ++ rest ≠ [] := by
    rw [hbytes, hexField_eq]
    simp
  obtain ⟨b, bs, hcons⟩ := exists_cons_of_ne_nil hne
  rw [hcons] at hfield ⊢
  rw [decodeRleSpoolRecords, hfield]
  simp only [except_ok_bind, hfield', hnewline, htake, hdrop, rleDecompress_rleCompress,
    fromUtf8_utf8, okOr, failIf, hlen, decide_false, ne_eq, not_true_eq_false, Bool.false_eq_true,
    if_false]
  cases decodeRleSpoolRecords turns rest <;> rfl

theorem decodeRecords_writeTo (compression : SpoolCompression) (turns : ℕ) (line : Line)
    (rest : List UInt8) :
    decodeRecords compression (turns + 1) ((build line.text compression).writeTo ++ rest) =
      (decodeRecords compression turns rest).map (decodedRecord line.text compression :: ·) := by
  have hlen := line.len_lt
  cases compression with
  | none =>
    simp only [decodeRecords]
    exact decodePlainSpoolRecords_writeTo (by omega)
  | rle =>
    simp only [decodeRecords]
    exact decodeRleSpoolRecords_writeTo hlen

/-- The bytes of a segment that holds the given lines. -/
def segmentBytes (compression : SpoolCompression) (lines : List Line) : List UInt8 :=
  spoolSegmentHeader compression ++
    lines.flatMap fun line => (build line.text compression).writeTo

theorem decodeRecords_lines (compression : SpoolCompression) (lines : List Line) :
    ∀ turns, lines.length ≤ turns →
      decodeRecords compression turns
          (lines.flatMap fun line => (build line.text compression).writeTo) =
        .ok (lines.map fun line => decodedRecord line.text compression) := by
  induction lines with
  | nil => exact fun turns _ => decodeRecords_nil compression turns
  | cons line lines ih =>
    intro turns hturns
    obtain ⟨turns, rfl⟩ : ∃ t, turns = t + 1 := ⟨turns - 1, by simp at hturns; omega⟩
    rw [flatMap_cons, decodeRecords_writeTo, ih turns (by simpa using hturns)]
    rfl

theorem dropPrefix?_append {α : Type*} [BEq α] [LawfulBEq α] (header body : List α) :
    (header ++ body).dropPrefix? header = some body :=
  dropPrefix?_eq_some_iff.2 ⟨header, rfl, beq_self_eq_true _⟩

theorem dropSuffix?_append {α : Type*} [BEq α] [LawfulBEq α] (body trailer : List α) :
    (body ++ trailer).dropSuffix? trailer = some body :=
  dropSuffix?_eq_some_iff.2 ⟨trailer, rfl, beq_self_eq_true _⟩

/-- The two headers tell the two kinds of segments apart. -/
theorem dropPrefix?_headerV1_of_rle (body : List UInt8) :
    (segmentHeaderV2Rle ++ body).dropPrefix? segmentHeaderV1 = none := by
  apply Option.eq_none_iff_forall_not_mem.2
  intro rest hrest
  obtain ⟨front, hsplit, hfront⟩ := dropPrefix?_eq_some_iff.1 hrest
  obtain rfl := eq_of_beq hfront
  have htake := congrArg (List.take 31) hsplit
  rw [take_append_of_le_length (by decide), take_append_of_le_length (by decide)] at htake
  exact absurd htake (by decide)

theorem length_le_length_flatMap_writeTo (compression : SpoolCompression) (lines : List Line) :
    lines.length ≤
      (lines.flatMap fun line => (build line.text compression).writeTo).length := by
  induction lines with
  | nil => exact le_rfl
  | cons line lines ih =>
    have hpos : 0 < (build line.text compression).writeTo.length := by
      cases compression <;> simp [build, writeTo, bytesOf]
    rw [flatMap_cons, length_append, length_cons]
    omega

/-- The decoder gives the lines of a segment back. -/
theorem decodeSpoolSegmentBytes_segmentBytes (compression : SpoolCompression)
    (lines : List Line) : decodeSpoolSegmentBytes (segmentBytes compression lines) =
      .ok (lines.map fun line => decodedRecord line.text compression) := by
  have hdecode := decodeRecords_lines compression lines _
    (length_le_length_flatMap_writeTo compression lines)
  cases compression with
  | none =>
    simp only [decodeSpoolSegmentBytes, segmentBytes, spoolSegmentHeader, dropPrefix?_append]
    simpa only [decodeRecords] using hdecode
  | rle =>
    simp only [decodeSpoolSegmentBytes, segmentBytes, spoolSegmentHeader,
      dropPrefix?_headerV1_of_rle, dropPrefix?_append]
    simpa only [decodeRecords] using hdecode

theorem bytesOf_newline_length : (bytesOf "\n").length = 1 := by decide

/-- The bytes a record is charged for are the bytes it writes. -/
theorem totalBytes_build (line : Line) (compression : SpoolCompression) :
    (build line.text compression).totalBytes = (build line.text compression).writeTo.length := by
  have hlen := line.len_lt
  have hpayload := length_rleCompress_lt hlen
  cases compression with
  | none =>
    simp only [build, totalBytes, writeTo, length_append, bytesOf_newline_length,
      length_hexField (show (utf8 line.text).length < 2 ^ 64 by omega), saturatingAdd,
      recordPrefixBytes, recordSuffixBytes]
    omega
  | rle =>
    simp only [build, totalBytes, writeTo, length_append, bytesOf_newline_length,
      length_hexField (show (utf8 line.text).length < 2 ^ 64 by omega),
      length_hexField (show (rleCompress (utf8 line.text)).length < 2 ^ 64 by omega), saturatingAdd,
      compressedRecordPrefixBytes, recordSuffixBytes]
    omega

theorem totalBytes_build_lt (line : Line) (compression : SpoolCompression) :
    (build line.text compression).totalBytes + 2 ^ 61 < 2 ^ 64 := by
  have hlen := line.len_lt
  have hpayload := length_rleCompress_lt hlen
  cases compression with
  | none =>
    simp only [build, totalBytes, saturatingAdd, recordPrefixBytes, recordSuffixBytes]
    omega
  | rle =>
    simp only [build, totalBytes, saturatingAdd, compressedRecordPrefixBytes, recordSuffixBytes]
    omega

theorem length_spoolSegmentHeader (compression : SpoolCompression) :
    0 < (spoolSegmentHeader compression).length ∧ (spoolSegmentHeader compression).length < 128 := by
  cases compression <;> decide

end AegisHV.Spool
