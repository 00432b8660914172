import AegisHV.Proofs.Sha256

/-! Both checkers of kernel text hash the bytes of a range with SHA-256, whichever way they read
them, and the verdict on a range compares that hash with the baseline of its owner. -/

namespace AegisHV.Integrity
open Sys Vmi List Windows

/-! The text of a digest. -/

/-- Hexadecimal digits for the bits, four at a time. -/
def hexText (bits : List Bool) : List Char :=
  (chunksExact 4 bits).map fun digit => Nat.digitChar (fromBits digit)

/-- The hex SHA-256 of a string of bytes. -/
noncomputable def sha256Text (bytes : List UInt8) : List Char :=
  hexText (Sys.Sha256.digest (bitsOf bytes))

theorem hexText_cons (n v : ℕ) (bits : List Bool) (hn : n = 4) :
    hexText (toBits n v ++ bits) = Nat.digitChar (v % 16) :: hexText bits := by
  subst hn
  rw [hexText, chunksExact_cons (by norm_num) (length_toBits 4 v), map_cons, fromBits_toBits]
  rfl

theorem digit_eq : ∀ d < 16, Nat.digitChar d = HEX.getD d '0' := by decide +kernel

theorem hexText_bitsOf (bytes : List UInt8) : hexText (bitsOf bytes) = hex bytes := by
  induction bytes with
  | nil => rfl
  | cons byte bytes ih =>
    have hbyte := UInt8.toNat_lt byte
    have hhigh : (byte >>> 4).toNat = byte.toNat / 16 := by
      rw [UInt8.toNat_shiftRight, Nat.shiftRight_eq_div_pow]
      rfl
    have hlow : (byte &&& 0x0f).toNat = byte.toNat % 16 := by
      exact Nat.and_two_pow_sub_one_eq_mod byte.toNat 4
    have hbits : bitsOf (byte :: bytes) =
        toBits 4 (byte.toNat >>> 4) ++ (toBits 4 byte.toNat ++ bitsOf bytes) := by
      rfl
    have hhex : hex (byte :: bytes) =
        HEX.getD (byte >>> 4).toNat '0' :: HEX.getD (byte &&& 0x0f).toNat '0' :: hex bytes := rfl
    rw [hbits, hexText_cons _ _ _ rfl, hexText_cons _ _ _ rfl, ih, hhex, hhigh, hlow,
      digit_eq _ (by omega), digit_eq _ (by omega), Nat.shiftRight_eq_div_pow,
      Nat.mod_eq_of_lt (by omega)]

theorem hex_finish {pieces : List (List UInt8)} (hlen : pieces.flatten.length < 2 ^ 61) :
    hex (pieces.foldl Sha256.update Sha256.new).finish = sha256Text pieces.flatten := by
  rw [sha256Text, ← Sha256.finish_updates hlen, hexText_bitsOf]

/-! Reading a range. -/

/-- The bytes of memory from one address up to another. -/
def rangeBytes (bytes : ℕ → UInt8) (start stop : ℕ) : List UInt8 :=
  (List.range' start (stop - start)).map bytes

/-- What the reader returns are the bytes of a memory. -/
def Reads {ε : Type} (memory : Reader ε) (bytes : ℕ → UInt8) : Prop :=
  ∀ address length data, memory.readVirtual address length = .ok data →
    data = rangeBytes bytes address (address + length)

theorem length_rangeBytes (bytes : ℕ → UInt8) (start stop : ℕ) :
    (rangeBytes bytes start stop).length = stop - start := by
  simp [rangeBytes]

theorem rangeBytes_nil (bytes : ℕ → UInt8) {start stop : ℕ} (hle : stop ≤ start) :
    rangeBytes bytes start stop = [] := by
  rw [rangeBytes, Nat.sub_eq_zero_of_le hle]
  rfl

theorem rangeBytes_append (bytes : ℕ → UInt8) {start middle stop : ℕ} (hle : start ≤ middle)
    (hle' : middle ≤ stop) :
    rangeBytes bytes start middle ++ rangeBytes bytes middle stop = rangeBytes bytes start stop := by
  have hsplit : List.range' start (middle - start) ++ List.range' middle (stop - middle) =
      List.range' start (stop - start) := by
    have happend := @range'_append_1 start (middle - start) (stop - middle)
    rwa [show start + (middle - start) = middle by omega,
      show middle - start + (stop - middle) = stop - start by omega] at happend
  rw [rangeBytes, rangeBytes, ← map_append, hsplit, rangeBytes]

section

variable {ε α : Type} {memory : Reader ε} {bytes : ℕ → UInt8} {overflow : ε}
  {use : α → List UInt8 → α} {stop : ℕ}

/-- The loop hands over the bytes of the range in consecutive pieces. -/
theorem readChunks_spec (hreads : Reads memory bytes) (turns : ℕ) :
    ∀ cursor acc result, stop - cursor ≤ turns →
      readChunks memory overflow use stop turns cursor acc = .ok result →
      ∃ pieces : List (List UInt8), result = pieces.foldl use acc ∧
        pieces.flatten = rangeBytes bytes cursor stop := by
  induction turns with
  | zero =>
    intro cursor acc result hturns hread
    obtain rfl := Except.ok.inj hread
    exact ⟨[], rfl, (rangeBytes_nil bytes (by omega)).symm⟩
  | succ turns ih =>
    intro cursor acc result hturns hread
    rw [readChunks] at hread
    split at hread
    · obtain ⟨data, hdata, hread⟩ := except_bind_ok.mp hread
      obtain ⟨cursor', hcursor, hread⟩ := except_bind_ok.mp hread
      rw [okOr_eq_ok] at hcursor
      obtain ⟨-, rfl⟩ := checkedAdd_eq_some.mp hcursor
      obtain ⟨pieces, hresult, hbytes⟩ := ih _ _ _ (by omega) hread
      refine ⟨data :: pieces, hresult, ?_⟩
      rw [flatten_cons, hbytes, hreads _ _ _ hdata]
      exact rangeBytes_append bytes (by omega) (by omega)
    · obtain rfl := Except.ok.inj hread
      exact ⟨[], rfl, (rangeBytes_nil bytes (by omega)).symm⟩

end

section

variable {bytes : ℕ → UInt8} {start stop : ℕ} {text : List Char}

theorem Linux.hashVirtualRange_eq {memory : Reader LinuxVmiError} (hreads : Reads memory bytes)
    (hlen : stop - start < 2 ^ 61)
    (h : Linux.hashVirtualRange memory start stop = .ok text) :
    text = sha256Text (rangeBytes bytes start stop) := by
  obtain ⟨hasher, hread, h⟩ := except_bind_ok.mp h
  obtain ⟨pieces, rfl, hpieces⟩ := readChunks_spec hreads _ _ _ _ le_rfl hread
  obtain rfl := Except.ok.inj h
  rw [hex_finish (by rwa [hpieces, length_rangeBytes]), hpieces]

theorem foldl_append_flatten {α : Type} (pieces : List (List α)) (acc : List α) :
    pieces.foldl (· ++ ·) acc = acc ++ pieces.flatten := by
  induction pieces generalizing acc with
  | nil => simp
  | cons piece pieces ih => rw [foldl_cons, ih, flatten_cons, append_assoc]

theorem Windows.hashVirtualRange_eq {memory : Reader WindowsVmiError}
    (hreads : Reads memory bytes)
    (h : hashVirtualRange memory start stop = .ok text) :
    text = sha256Text (rangeBytes bytes start stop) ∧
      stop - start ≤ MAX_TEXT_HASH_BYTES := by
  obtain ⟨_, hlimit, h⟩ := except_bind_ok.mp h
  obtain ⟨collected, hread, h⟩ := except_bind_ok.mp h
  obtain ⟨pieces, rfl, hpieces⟩ := readChunks_spec hreads _ _ _ _ le_rfl hread
  rw [failIf_eq_ok, decide_eq_false_iff_not, not_lt] at hlimit
  refine ⟨?_, hlimit⟩
  rw [foldl_append_flatten, hpieces] at h
  obtain rfl := Except.ok.inj h
  have hflat : [rangeBytes bytes start stop].flatten = rangeBytes bytes start stop :=
    flatten_singleton
  have hhex := @hex_finish [rangeBytes bytes start stop] (by
    rw [hflat, length_rangeBytes]
    exact lt_of_le_of_lt hlimit (by norm_num [MAX_TEXT_HASH_BYTES]))
  rwa [hflat] at hhex

end

/-! The verdicts. -/

theorem statusOf_match {expected : Option (List Char)} {text : List Char} :
    statusOf expected text = .match ↔
      ∃ baseline, expected = some baseline ∧
        baseline.map Char.toLower = text.map Char.toLower := by
  induction expected with
  | none => simp [statusOf]
  | some baseline => simp [statusOf, eqIgnoreAsciiCase]

/-- What the checker reports on a range. -/
structure Verdict (bytes : ℕ → UInt8) (baselines : Baselines) (range : TextRange)
    (result : TextHashResult) : Prop where
  owner : result.owner = range.owner
  start : result.start = range.start
  stop : result.stop = range.stop
  sha256 : result.sha256 = sha256Text (rangeBytes bytes range.start range.stop)
  status : result.status = .match ↔ ∃ baseline, baselines range.owner = some baseline ∧
    baseline.map Char.toLower =
      (sha256Text (rangeBytes bytes range.start range.stop)).map Char.toLower

section

variable {ε : Type} {hash : ℕ → ℕ → Except ε (List Char)} {inverted : String → ε}
  {baselines : Baselines} {bytes : ℕ → UInt8}

theorem checkRange_spec {range : TextRange} {report report' : List TextHashResult × List String}
    (hhash : ∀ text, hash range.start range.stop = .ok text →
      text = sha256Text (rangeBytes bytes range.start range.stop))
    (h : checkRange hash inverted baselines report range = .ok report') :
    ∃ result, report'.1 = report.1 ++ [result] ∧ Verdict bytes baselines range result := by
  obtain ⟨-, -, h⟩ := except_bind_ok.mp h
  obtain ⟨text, htext, h⟩ := except_bind_ok.mp h
  obtain rfl := hhash text htext
  obtain rfl := Except.ok.inj h
  exact ⟨_, rfl, rfl, rfl, rfl, rfl, statusOf_match⟩

theorem checkRanges_spec {ranges : List TextRange} {report : IntegrityReport}
    (hhash : ∀ range ∈ ranges, ∀ text, hash range.start range.stop = .ok text →
      text = sha256Text (rangeBytes bytes range.start range.stop))
    (h : checkRanges hash inverted ranges baselines = .ok report) :
    List.Forall₂ (Verdict bytes baselines) ranges report.results := by
  obtain ⟨acc, hfold, h⟩ := except_bind_ok.mp h
  obtain rfl := Except.ok.inj h
  refine foldlM_inv (fun seen acc => List.Forall₂ (Verdict bytes baselines) seen acc.1) .nil ?_
    hfold
  intro seen range rest acc acc' hranges hseen hrange
  obtain ⟨result, hresult, hverdict⟩ := checkRange_spec (hhash range (by simp [hranges])) hrange
  rw [hresult]
  exact rel_append hseen (.cons hverdict .nil)

end

/-- The digest is SHA-256 for every way of cutting the message; the two checkers agree on the hash
of the same bytes; and a range matches exactly when its baseline is the hex SHA-256 of its bytes. -/
theorem textHashes_exact :
    (∀ pieces : List (List UInt8), pieces.flatten.length < 2 ^ 61 →
      bitsOf (pieces.foldl Sha256.update Sha256.new).finish =
        Sys.Sha256.digest (bitsOf pieces.flatten)) ∧
    (∀ linux windows bytes bytes' start stop start' stop' text text',
      Reads linux bytes → Reads windows bytes' →
      rangeBytes bytes start stop = rangeBytes bytes' start' stop' →
      Linux.hashVirtualRange linux start stop = .ok text →
      hashVirtualRange windows start' stop' = .ok text' → text = text') ∧
    (∀ memory bytes ranges baselines report, Reads memory bytes →
      (∀ range ∈ ranges, range.stop - range.start < 2 ^ 61) →
      Linux.checkTextHashes memory ranges baselines = .ok report →
      List.Forall₂ (Verdict bytes baselines) ranges report.results) ∧
    ∀ memory bytes ranges baselines report, Reads memory bytes →
      checkWindowsTextHashes memory ranges baselines = .ok report →
      List.Forall₂ (Verdict bytes baselines) ranges report.results := by
  refine ⟨fun pieces => Sha256.finish_updates, ?_, ?_, ?_⟩
  · intro linux windows bytes bytes' start stop start' stop' text text' hlinux hwindows hsame h h'
    obtain ⟨htext', hlimit⟩ := hashVirtualRange_eq hwindows h'
    have hlen : stop - start = stop' - start' := by
      rw [← length_rangeBytes bytes, hsame, length_rangeBytes]
    have hshort : stop - start < 2 ^ 61 := by
      rw [hlen]
      exact lt_of_le_of_lt hlimit (by norm_num [MAX_TEXT_HASH_BYTES])
    rw [Linux.hashVirtualRange_eq hlinux hshort h, htext', hsame]
  · intro memory bytes ranges baselines report hreads hshort h
    exact checkRanges_spec (fun range hrange text htext =>
      Linux.hashVirtualRange_eq hreads (hshort range hrange) htext) h
  · intro memory bytes ranges baselines report hreads h
    exact checkRanges_spec (fun range _ text htext =>
      (hashVirtualRange_eq hreads htext).1) h

/-- A reader to which a whole memory is readable. -/
def readerOf (ε : Type) (bytes : ℕ → UInt8) : Reader ε where
  readVirtual address length := .ok (rangeBytes bytes address (address + length))
  filled address length data h := by
    rw [← Except.ok.inj h, length_rangeBytes, Nat.add_sub_cancel_left]

theorem reads_readerOf (ε : Type) (bytes : ℕ → UInt8) : Reads (readerOf ε bytes) bytes :=
  fun _ _ _ h => (Except.ok.inj h).symm

/-- The letters of the alphabet, from address 0 on. -/
def letters (address : ℕ) : UInt8 := UInt8.ofNat (97 + address)

/-- A baseline for the text `abc`, in capital letters. -/
def abcBaseline : Baselines := fun _ =>
  some "BA7816BF8F01CFEA414140DE5DAE2223B00361A396177A9CB410FF61F20015AD".toList

theorem textHashes_exact_abc :
    bitsOf ([[97], [98, 99]].foldl Sha256.update Sha256.new).finish =
      Sys.Sha256.digest (bitsOf [97, 98, 99]) ∧
    (∃ text, Linux.hashVirtualRange (readerOf _ letters) 0 3 = .ok text ∧
      hashVirtualRange (readerOf _ letters) 0 3 = .ok text) ∧
    (∃ report, Linux.checkTextHashes (readerOf _ letters) [⟨"vmlinux", 0, 3⟩] abcBaseline =
      .ok report ∧ report.ok = true ∧
      List.Forall₂ (Verdict letters abcBaseline) [⟨"vmlinux", 0, 3⟩] report.results) ∧
    ∃ report, checkWindowsTextHashes (readerOf _ letters) [⟨"ntoskrnl.exe", 0, 3⟩]
      abcBaseline = .ok report ∧ report.ok = true ∧
      List.Forall₂ (Verdict letters abcBaseline) [⟨"ntoskrnl.exe", 0, 3⟩] report.results := by
  obtain ⟨hdigest, hsame, hlinux, hwindows⟩ := textHashes_exact
  refine ⟨hdigest [[97], [98, 99]] (by decide), ?_, ?_, ?_⟩
  · have hl : (Linux.hashVirtualRange (readerOf _ letters) 0 3).toOption.isSome := by
      decide +kernel
    have hw : (hashVirtualRange (readerOf _ letters) 0 3).toOption.isSome := by
      decide +kernel
    obtain ⟨text, htext⟩ := Option.isSome_iff_exists.mp hl
    obtain ⟨text', htext'⟩ := Option.isSome_iff_exists.mp hw
    obtain rfl := hsame _ _ _ _ _ _ _ _ _ _ (reads_readerOf _ letters) (reads_readerOf _ letters)
      rfl (toOption_eq_some.mp htext) (toOption_eq_some.mp htext')
    exact ⟨text, toOption_eq_some.mp htext, toOption_eq_some.mp htext'⟩
  · have hok : (Linux.checkTextHashes (readerOf _ letters) [⟨"vmlinux", 0, 3⟩]
        abcBaseline).toOption.map IntegrityReport.ok = some true := by decide +kernel
    obtain ⟨report, hreport, hok⟩ := Option.map_eq_some_iff.mp hok
    have hreport := toOption_eq_some.mp hreport
    exact ⟨report, hreport, hok, hlinux _ _ _ _ _ (reads_readerOf _ letters) (by decide) hreport⟩
  · have hok : (checkWindowsTextHashes (readerOf _ letters) [⟨"ntoskrnl.exe", 0, 3⟩]
        abcBaseline).toOption.map IntegrityReport.ok = some true := by decide +kernel
    obtain ⟨report, hreport, hok⟩ := Option.map_eq_some_iff.mp hok
    have hreport := toOption_eq_some.mp hreport
    exact ⟨report, hreport, hok, hwindows _ _ _ _ _ (reads_readerOf _ letters) hreport⟩

example : sha256Hex [97, 98, 99] =
    "ba7816bf8f01cfea414140de5dae2223b00361a396177a9cb410ff61f20015ad".toList := by decide +kernel

end AegisHV.Integrity
