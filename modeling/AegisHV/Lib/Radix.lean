import Mathlib.Tactic

/-! Numbers as text: the zero-padded digits that a format string writes and the parsers of the
standard library that read them back, over any radix up to sixteen. -/

namespace Sys
open List

/-- `char::to_digit` -/
def toDigit (radix : ℕ) (c : Char) : Option ℕ :=
  let digit :=
    if '0' ≤ c ∧ c ≤ '9' then some (c.toNat - '0'.toNat)
    else if 'a' ≤ c ∧ c ≤ 'z' then some (c.toNat - 'a'.toNat + 10)
    else if 'A' ≤ c ∧ c ≤ 'Z' then some (c.toNat - 'A'.toNat + 10)
    else none
  digit.filter (· < radix)

def digitsValue (radix : ℕ) (acc : ℕ) (cs : List Char) : Option ℕ :=
  cs.foldlM (fun acc c => (toDigit radix c).map fun d => radix * acc + d) acc

def stripPlus : List Char → List Char
  | '+' :: rest => rest
  | src => src

/-- `from_str_radix` of an unsigned type with the given bound. -/
def fromStrRadix (bound radix : ℕ) (src : List Char) : Option ℕ :=
  if stripPlus src = [] then none
  else (digitsValue radix 0 (stripPlus src)).filter (· < bound)

/-- `str::parse::<i32>` -/
def parseI32 (src : List Char) : Option ℤ :=
  match src with
  | '-' :: digits =>
    if digits = [] then none
    else ((digitsValue 10 0 digits).filter (· ≤ 2 ^ 31)).map fun n => -(n : ℤ)
  | _ => (fromStrRadix (2 ^ 31) 10 src).map (↑)

/-- The digits of a number, padded with zeros to a width. -/
def padded (radix width n : ℕ) : List Char :=
  List.replicate (width - (Nat.toDigits radix n).length) '0' ++ Nat.toDigits radix n

variable {radix : ℕ}

theorem toDigit_digitChar {d : ℕ} (hradix : radix ≤ 16) (hd : d < radix) :
    toDigit radix d.digitChar = some d := by
  have h16 : ∀ d < 16, (toDigit 16 d.digitChar) = some d := by decide
  have hfilter : ∀ c, toDigit radix c = (toDigit 16 c).filter (· < radix) := by
    intro c
    simp only [toDigit, Option.filter_filter]
    congr 1
    funext n
    by_cases h : n < radix
    · simp [h, h.trans_le hradix]
    · simp [h]
  rw [hfilter, h16 d (hd.trans_le hradix)]
  simp [hd]

theorem digitsValue_append (acc : ℕ) (cs ds : List Char) :
    digitsValue radix acc (cs ++ ds) = (digitsValue radix acc cs).bind (digitsValue radix · ds) :=
  foldlM_append

theorem digitsValue_digitChar {acc d : ℕ} (hradix : radix ≤ 16) (hd : d < radix) :
    digitsValue radix acc [d.digitChar] = some (radix * acc + d) := by
  simp [digitsValue, toDigit_digitChar hradix hd]

theorem digitsValue_toDigits (h1 : 1 < radix) (hradix : radix ≤ 16) (n : ℕ) :
    digitsValue radix 0 (Nat.toDigits radix n) = some n := by
  induction n using Nat.strong_induction_on with
  | _ n ih =>
    rw [Nat.toDigits_eq_if h1]
    split_ifs with hn
    · rw [digitsValue_digitChar hradix hn, Nat.mul_zero, Nat.zero_add]
    · have hlt : n / radix < n := Nat.div_lt_self (by omega) h1
      rw [digitsValue_append, ih _ hlt, Option.bind_some,
        digitsValue_digitChar hradix (Nat.mod_lt _ (by omega)), Nat.div_add_mod]

theorem digitsValue_replicate_zero (h1 : 1 < radix) (hradix : radix ≤ 16) (k : ℕ) :
    digitsValue radix 0 (List.replicate k '0') = some 0 := by
  induction k with
  | zero => rfl
  | succ k ih =>
    rw [replicate_succ']
    rw [digitsValue_append, ih]
    exact digitsValue_digitChar (d := 0) hradix (by omega)

theorem digitsValue_padded (h1 : 1 < radix) (hradix : radix ≤ 16) (width n : ℕ) :
    digitsValue radix 0 (padded radix width n) = some n := by
  rw [padded, digitsValue_append, digitsValue_replicate_zero h1 hradix, Option.bind_some,
    digitsValue_toDigits h1 hradix]

theorem padded_ne_nil (width n : ℕ) : padded radix width n ≠ [] := by
  have := Nat.length_toDigits_pos (b := radix) (n := n)
  apply append_ne_nil_of_right_ne_nil
  exact length_pos_iff.1 this

variable {width n : ℕ}

theorem length_padded (h1 : 1 < radix) (hw : 0 < width) (hn : n < radix ^ width) :
    (padded radix width n).length = width := by
  have hlen := (Nat.length_toDigits_le_iff h1 hw).2 hn
  rw [padded, length_append, length_replicate]
  omega

/-- Digits behind a number shift it by their places. -/
theorem digitsValue_shift (a : ℕ) {cs : List Char} : ∀ {b n : ℕ},
    digitsValue radix b cs = some n →
      digitsValue radix (a + b) cs = some (a * radix ^ cs.length + n) := by
  induction cs generalizing a with
  | nil =>
    intro b n h
    cases h
    simp [digitsValue]
  | cons c cs ih =>
    intro b n h
    simp only [digitsValue, foldlM_cons, Option.bind_eq_bind, Option.bind_eq_some_iff,
      Option.map_eq_some_iff] at h ⊢
    obtain ⟨_, ⟨d, hd, rfl⟩, h⟩ := h
    refine ⟨_, ⟨d, hd, rfl⟩, ?_⟩
    have hshift : radix * (a + b) + d = radix * a + (radix * b + d) := by ring
    rw [hshift]
    refine (ih (radix * a) h).trans ?_
    rw [length_cons]
    ring

theorem digitsValue_append_padded (h1 : 1 < radix) (hradix : radix ≤ 16)
    (hw : 0 < width) (hn : n < radix ^ width) (a : ℕ) :
    digitsValue radix 0 (Nat.toDigits radix a ++ padded radix width n) =
      some (a * radix ^ width + n) := by
  have hshift := digitsValue_shift a (digitsValue_padded h1 hradix width n)
  rw [Nat.add_zero, length_padded h1 hw hn] at hshift
  rw [digitsValue_append, digitsValue_toDigits h1 hradix, Option.bind_some, hshift]

variable {c : Char}

theorem exists_digitChar_of_mem_toDigits (h1 : 1 < radix)
    (hc : c ∈ Nat.toDigits radix n) : ∃ d < radix, c = d.digitChar := by
  induction n using Nat.strong_induction_on with
  | _ n ih =>
    rw [Nat.toDigits_eq_if h1] at hc
    split_ifs at hc with hn
    · exact ⟨n, hn, mem_singleton.1 hc⟩
    · rcases mem_append.1 hc with hc | hc
      · exact ih _ (Nat.div_lt_self (by omega) h1) hc
      · exact ⟨n % radix, Nat.mod_lt _ (by omega), mem_singleton.1 hc⟩

theorem exists_digitChar_of_mem_padded (h1 : 1 < radix)
    (hc : c ∈ padded radix width n) : ∃ d < radix, c = d.digitChar := by
  rcases mem_append.1 hc with hc | hc
  · exact ⟨0, by omega, eq_of_mem_replicate hc⟩
  · exact exists_digitChar_of_mem_toDigits h1 hc

theorem stripPlus_of_not_mem {src : List Char} (h : '+' ∉ src) : stripPlus src = src := by
  unfold stripPlus
  split
  · exact absurd mem_cons_self h
  · rfl

theorem fromStrRadix_padded {bound : ℕ} (h1 : 1 < radix) (hradix : radix ≤ 16)
    (hn : n < bound) : fromStrRadix bound radix (padded radix width n) = some n := by
  have hplus : '+' ∉ padded radix width n := by
    intro h
    obtain ⟨d, -, hd⟩ := exists_digitChar_of_mem_padded h1 h
    exact Nat.digitChar_ne '+' rfl hd.symm
  rw [fromStrRadix, stripPlus_of_not_mem hplus, if_neg (padded_ne_nil _ _),
    digitsValue_padded h1 hradix]
  simp [hn]

theorem padded_zero (n : ℕ) : padded radix 0 n = Nat.toDigits radix n := by simp [padded]

theorem isDigit_of_mem_padded (hc : c ∈ padded 10 width n) :
    c.isDigit = true := by
  obtain ⟨d, hd, hchar⟩ := exists_digitChar_of_mem_padded (by norm_num) hc
  have hdigits : ∀ d < 10, (Nat.digitChar d).isDigit = true := by decide
  rw [hchar]
  exact hdigits d hd

theorem digitsValue_eq_none {acc : ℕ} {cs : List Char} (hc : c ∈ cs)
    (hdigit : toDigit radix c = none) : digitsValue radix acc cs = none := by
  obtain ⟨front, back, rfl⟩ := append_of_mem hc
  rw [digitsValue_append]
  apply Option.bind_eq_none_iff.2
  simp [digitsValue, hdigit]

theorem fromStrRadix_eq_none {bound : ℕ} {src : List Char} (hc : c ∈ src) (hplus : c ≠ '+')
    (hdigit : toDigit radix c = none) : fromStrRadix bound radix src = none := by
  have hmem : c ∈ stripPlus src := by
    unfold stripPlus
    split
    · exact mem_of_ne_of_mem hplus hc
    · exact hc
  simp [fromStrRadix, digitsValue_eq_none hmem hdigit]

theorem parseI32_padded (hn : n < 2 ^ 31) :
    parseI32 (padded 10 width n) = some (n : ℤ) := by
  have hminus : '-' ∉ padded 10 width n := by
    intro h
    obtain ⟨d, -, hd⟩ := exists_digitChar_of_mem_padded (by norm_num) h
    exact Nat.digitChar_ne '-' rfl hd.symm
  unfold parseI32
  split
  · next digits h =>
    rw [h] at hminus
    exact absurd mem_cons_self hminus
  · rw [fromStrRadix_padded (by norm_num) (by norm_num) hn]
    rfl

/-- A number has no characters but its sign and its digits. -/
theorem parseI32_eq_none {src : List Char} (hc : c ∈ src) (hplus : c ≠ '+')
    (hminus : c ≠ '-') (hdigit : toDigit 10 c = none) : parseI32 src = none := by
  unfold parseI32
  split
  · next digits =>
    have hmem : c ∈ digits := mem_of_ne_of_mem hminus hc
    simp [digitsValue_eq_none hmem hdigit]
  · rw [fromStrRadix_eq_none hc hplus hdigit]
    rfl

end Sys
