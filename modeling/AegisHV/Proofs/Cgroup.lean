import AegisHV.Lib.Op
import AegisHV.Spec.Cgroup

/-! The decoder of systemd's escapes gives one character for each byte of the name, which is the
name only if it is plain ASCII, and panics where the two bytes of an escape cut a character. -/

namespace AegisHV.Cgroup

open Sys List

variable {b x h₁ h₂ : UInt8} {rest bytes : List UInt8}

/-- Away from an escape the loop goes on by one byte. -/
theorem decodeSystemdEscape_cons (h : b = 0x5c → rest.head? ≠ some 0x78) :
    decodeSystemdEscape (b :: rest) = (asChar b :: ·) <$> decodeSystemdEscape rest := by
  match rest with
  | [] | [_] | [_, _] => simp [decodeSystemdEscape]
  | x :: h₁ :: h₂ :: rest =>
    rw [decodeSystemdEscape, if_neg]
    rintro ⟨rfl, rfl⟩
    exact h rfl rfl

/-! Panics. -/

def Returns {α : Type} (r : Except Panic α) : Prop := ∃ out, r = .ok out

theorem returns_map {α β : Type} {f : α → β} {r : Except Panic α} :
    Returns (f <$> r) ↔ Returns r := by
  cases r <;> simp [Returns]

theorem uncut_cons : Uncut (b :: rest) ↔
    (∀ h₁ h₂ tail, 0x5c :: 0x78 :: h₁ :: h₂ :: tail = b :: rest →
      (isCharBoundary (h₁ :: h₂ :: tail) && isCharBoundary tail) = true) ∧ Uncut rest := by
  simp only [Uncut, suffix_cons_iff, or_imp, forall_and]

theorem uncut_cons_ne (hb : b ≠ 0x5c) : Uncut (b :: rest) ↔ Uncut rest := by
  rw [uncut_cons, and_iff_right]
  intro h₁ h₂ tail h
  exact absurd (List.cons.inj h).1.symm hb

theorem uncut_escape (h : (isCharBoundary (h₁ :: h₂ :: rest) && isCharBoundary rest) = true) :
    Uncut (0x5c :: 0x78 :: h₁ :: h₂ :: rest) ↔ Uncut (0x78 :: h₁ :: h₂ :: rest) := by
  rw [uncut_cons, and_iff_right]
  intro h₁ h₂ tail heq
  cases heq
  exact h

/-- No other escape begins inside an escape. -/
theorem backslash_ne_hex {v : ℕ} (h : fromStrRadix 256 16 [asChar h₁, asChar h₂] = some v) :
    h₁ ≠ 0x5c ∧ h₂ ≠ 0x5c := by
  have hnone {cs : List Char} (hmem : asChar 0x5c ∈ cs) : fromStrRadix 256 16 cs = none :=
    fromStrRadix_eq_none hmem (by decide) (by decide)
  constructor
  · rintro rfl
    cases h
  · rintro rfl
    rw [hnone (by simp)] at h
    cases h

theorem returns_decodeSystemdEscape (bytes : List UInt8) :
    Returns (decodeSystemdEscape bytes) ↔ Uncut bytes := by
  induction bytes using decodeSystemdEscape.induct with
  | case1 b x h₁ h₂ rest hesc hcut v hv ih =>
    obtain ⟨rfl, rfl⟩ := hesc
    obtain ⟨hne₁, hne₂⟩ := backslash_ne_hex hv
    have hhead : Uncut (0x5c :: 0x78 :: h₁ :: h₂ :: rest) ↔
        Uncut (0x78 :: h₁ :: h₂ :: rest) := uncut_escape hcut
    rw [decodeSystemdEscape, if_pos hcut, hv, hhead, uncut_cons_ne (by decide),
      uncut_cons_ne hne₁, uncut_cons_ne hne₂, ← ih]
    exact returns_map
  | case2 b x h₁ h₂ rest hesc hcut hv ih =>
    obtain ⟨rfl, rfl⟩ := hesc
    rw [decodeSystemdEscape, if_pos hcut, hv, uncut_escape hcut, ← ih]
    exact returns_map
  | case3 b x h₁ h₂ rest hesc hcut =>
    obtain ⟨rfl, rfl⟩ := hesc
    rw [decodeSystemdEscape, if_neg hcut]
    refine iff_of_false (fun ⟨out, hout⟩ => by cases hout) ?_
    intro h
    exact hcut (h h₁ h₂ rest suffix_rfl)
  | case4 b x h₁ h₂ rest hesc ih =>
    rw [decodeSystemdEscape, if_neg hesc, uncut_cons, and_iff_right, ← ih]
    · exact returns_map
    · rintro h₁ h₂ tail h
      cases h
      exact absurd ⟨rfl, rfl⟩ hesc
  | case5 b rest hshort ih =>
    have hno : ∀ h₁ h₂ tail, 0x5c :: 0x78 :: h₁ :: h₂ :: tail ≠ b :: rest := by
      intro h₁ h₂ tail h
      cases h
      exact hshort _ _ _ _ rfl
    rw [decodeSystemdEscape, uncut_cons, and_iff_right, ← ih]
    · exact returns_map
    · exact fun h₁ h₂ tail h => absurd h (hno h₁ h₂ tail)
    · exact hshort
  | case6 => simp [decodeSystemdEscape, Returns, Uncut, pure, Except.pure]

/-- The decoder gets through a text. -/
def Decodable (text : List Char) : Prop := Uncut (utf8 (String.ofList text))

theorem returns_decode (text : List Char) : Returns (decode text) ↔ Decodable text :=
  returns_decodeSystemdEscape _

theorem returns_domainName (lines : List (List Char)) :
    Returns (domainName lines) ↔ ∀ text ∈ scopeTexts lines, Decodable text := by
  induction lines with
  | nil => simp [domainName, scopeTexts, Returns, pure, Except.pure]
  | cons line rest ih =>
    rw [domainName, scopeTexts]
    cases libvirtPart (pathOf line) with
    | some part => simp [Returns, pure, Except.pure]
    | none =>
      cases scopeText (pathOf line) with
      | none => simpa using ih
      | some text =>
        by_cases htext : Decodable text
        · obtain ⟨decoded, hdecode⟩ := (returns_decode text).2 htext
          by_cases hname : scopeName decoded = []
          · simp [hdecode, hname, htext, except_ok_bind, ih]
          · simp [hdecode, hname, htext, except_ok_bind, Returns, pure, Except.pure]
        · refine iff_of_false ?_ (by simp [htext])
          rintro ⟨out, hout⟩
          obtain ⟨decoded, hdecode, -⟩ := except_bind_ok.1 hout
          exact htext ((returns_decode text).1 ⟨decoded, hdecode⟩)

theorem returns_parseCgroup (cgroup : List Char) :
    Returns (parseCgroup cgroup) ↔ ∀ text ∈ decodedTexts cgroup, Decodable text := by
  have hname := returns_domainName (lines cgroup)
  have hunit : Returns (parseCgroupUnit cgroup) ↔
      ∀ text ∈ (unitText (lines cgroup)).toList, Decodable text := by
    rw [parseCgroupUnit]
    cases unitText (lines cgroup) with
    | none => simp [Returns, pure, Except.pure]
    | some text => simpa [returns_map] using returns_decode text
  simp only [decodedTexts, forall_mem_append, ← hname, ← hunit]
  constructor
  · rintro ⟨out, hout⟩
    obtain ⟨name, hname, hrest⟩ := except_bind_ok.1 hout
    obtain ⟨unit, hunit, -⟩ := except_bind_ok.1 hrest
    exact ⟨⟨name, hname⟩, ⟨unit, hunit⟩⟩
  · rintro ⟨⟨name, hname⟩, ⟨unit, hunit⟩⟩
    refine ⟨(name, unit), ?_⟩
    rw [parseCgroup, parseCgroupDomainName, hname, hunit]
    rfl

/-! Names. -/

section

variable {plain : UInt8 → Bool}

theorem isCharBoundary_escape (hplain : ∀ b, plain b = true → b < 0x80) (bytes : List UInt8) :
    isCharBoundary (bytes.flatMap (escapeByte plain)) = true := by
  cases bytes with
  | nil => rfl
  | cons b bytes =>
    rw [flatMap_cons, escapeByte]
    split_ifs with hb
    · simp [isCharBoundary, hplain b hb]
    · simp [isCharBoundary]

/-- What is behind the backslash and the `x` are two ASCII bytes, which read as the byte. -/
theorem exists_hex (b : UInt8) : ∃ h₁ h₂ : UInt8,
    (padded 16 2 b.toNat).map (fun c => c.val.toUInt8) = [h₁, h₂] ∧ h₁ < 0x80 ∧
      fromStrRadix 256 16 [asChar h₁, asChar h₂] = some b.toNat := by
  have hall : ∀ n < 256, ((padded 16 2 n).map fun c => c.val.toUInt8).length = 2 ∧
      (∀ h ∈ (padded 16 2 n).map fun c => c.val.toUInt8, h < 0x80) ∧
      fromStrRadix 256 16 (((padded 16 2 n).map fun c => c.val.toUInt8).map asChar) = some n := by
    decide +kernel
  obtain ⟨hlen, hascii, hvalue⟩ := hall b.toNat b.toNat_lt
  obtain ⟨h₁, h₂, hhex⟩ := length_eq_two.1 hlen
  rw [hhex] at hascii hvalue
  exact ⟨h₁, h₂, hhex, hascii h₁ (by simp), hvalue⟩

theorem decode_escape (hplain : ∀ b, plain b = true → b < 0x80 ∧ b ≠ 0x5c)
    (bytes : List UInt8) :
    decodeSystemdEscape (bytes.flatMap (escapeByte plain)) = .ok (bytes.map asChar) := by
  induction bytes with
  | nil => rfl
  | cons b bytes ih =>
    rw [flatMap_cons, escapeByte]
    split_ifs with hb
    · rw [singleton_append, decodeSystemdEscape_cons (absurd · (hplain b hb).2), ih]
      rfl
    · obtain ⟨h₁, h₂, hhex, hascii, hvalue⟩ := exists_hex b
      have hrest := isCharBoundary_escape (fun b hb => (hplain b hb).1) bytes
      rw [hhex, cons_append, cons_append, cons_append, cons_append,
        nil_append, decodeSystemdEscape, if_pos ⟨rfl, rfl⟩, if_pos, hvalue, ih]
      · rfl
      · rw [hrest]
        simp [isCharBoundary, hascii]

end

theorem asChar_val {c : Char} (hc : c.val ≤ 127) : asChar c.val.toUInt8 = c := by
  have hlt : c.val.toNat < 2 ^ 8 := Nat.lt_of_le_of_lt (UInt32.le_iff_toNat_le.1 hc) (by decide)
  rw [asChar, UInt32.toNat_toUInt8, Nat.mod_eq_of_lt hlt]
  exact Char.ofNat_toNat c

/-- A text has as many bytes as characters only if each character has one byte. -/
theorem ascii_of_length_le {cs : List Char}
    (h : (cs.flatMap String.utf8EncodeChar).length ≤ cs.length) : ∀ c ∈ cs, c.val ≤ 127 := by
  have hsize : ∀ c, 1 ≤ (String.utf8EncodeChar c).length := by
    intro c
    rw [String.length_utf8EncodeChar]
    exact c.utf8Size_pos
  have hmore : ∀ cs : List Char, cs.length ≤ (cs.flatMap String.utf8EncodeChar).length := by
    intro cs
    simpa using card_nsmul_le_sum (cs.map fun c => (String.utf8EncodeChar c).length) 1
      (by simpa using fun c _ => hsize c)
  intro c hc
  obtain ⟨front, back, rfl⟩ := append_of_mem hc
  have hfront := hmore front
  have hback := hmore back
  rw [flatMap_append, flatMap_cons] at h
  simp only [length_append, length_cons] at h
  rw [← Char.utf8Size_eq_one_iff, ← String.length_utf8EncodeChar]
  have := hsize c
  omega

theorem map_asChar_eq_iff (name : String) :
    (utf8 name).map asChar = name.toList ↔ ∀ c ∈ name.toList, c.val ≤ 127 := by
  obtain ⟨cs, rfl⟩ : ∃ cs, name = String.ofList cs := ⟨name.toList, by simp⟩
  rw [String.toList_ofList]
  constructor
  · intro h
    apply ascii_of_length_le
    rw [← utf8_ofList, ← length_map asChar, h]
  · intro h
    rw [utf8_of_ascii cs h, map_map]
    exact (map_congr_left fun c hc => asChar_val (h c hc)).trans (map_id cs)

/-- The parser returns exactly if no text it decodes has an escape that cuts a character, and a
name written with systemd's escapes is read back exactly if it is plain ASCII. -/
theorem cgroup_decoded_iff (cgroup : List Char) (name : String) {plain : UInt8 → Bool}
    (hplain : ∀ b, plain b = true → b < 0x80 ∧ b ≠ 0x5c) :
    ((∃ out, parseCgroup cgroup = .ok out) ↔
      ∀ text ∈ decodedTexts cgroup, Uncut (utf8 (String.ofList text))) ∧
    (decodeSystemdEscape (escape plain name) = .ok name.toList ↔
      ∀ c ∈ name.toList, c.val ≤ 127) := by
  refine ⟨returns_parseCgroup cgroup, ?_⟩
  rw [escape, decode_escape hplain, Except.ok.injEq, map_asChar_eq_iff]

/-- The bytes systemd leaves as they are: letters, digits, and three marks. -/
def unitPlain (b : UInt8) : Bool :=
  (0x30 ≤ b && b ≤ 0x3a) || (0x41 ≤ b && b ≤ 0x5a) || (0x61 ≤ b && b ≤ 0x7a) || b == 0x5f ||
    b == 0x2e

theorem unitPlain_ascii (b : UInt8) (h : unitPlain b = true) : b < 0x80 ∧ b ≠ 0x5c := by
  simp only [unitPlain, Bool.or_eq_true, Bool.and_eq_true, decide_eq_true_eq, beq_iff_eq,
    UInt8.le_iff_toNat_le, ← UInt8.toNat_inj] at h
  simp only [UInt8.lt_iff_toNat_lt, ne_eq, ← UInt8.toNat_inj]
  simp at h ⊢
  omega

theorem cgroup_decoded_ascii :
    decodeSystemdEscape (escape unitPlain "vm-1") = .ok "vm-1".toList :=
  (cgroup_decoded_iff [] "vm-1" unitPlain_ascii).2.2
    (@of_decide_eq_true _ (List.decidableBAll _ _) rfl)

/-- An `é` one digit behind `\\x` is cut, and an escaped `é` comes back as two characters. -/
theorem cgroup_multibyte :
    parseCgroup "0::/machine.slice/qemu\\xaé.scope".toList = .error .notCharBoundary ∧
      decodeSystemdEscape (escape unitPlain "é") = .ok "Ã©".toList := by
  constructor <;> decide +kernel

end AegisHV.Cgroup
